import SchemaRpc.Number.FloatFormat

namespace SchemaRpc

structure Decimal where
  digits : Nat
  exponent : Int
deriving DecidableEq, Repr

inductive TieRule where
  | up
  | even
deriving DecidableEq, Repr

def TieRule.takesAbove : TieRule → Nat → Bool
  | up, _ => true
  | even, below => below % 2 == 1

namespace FloatFormat

/-- The numbers that round to `significand * 2 ^ exponent`, in quarters of its last place:
from `low` to `high`, with both ends if the significand is even. -/
structure Interval where
  low : Nat
  middle : Nat
  high : Nat
  closed : Bool

def interval (f : FloatFormat) (significand : Nat) (exponent : Int) : Interval :=
  let below := if significand = pow2 f.fraction ∧ f.least < exponent then 1 else 2
  ⟨4 * significand - below, 4 * significand, 4 * significand + 2, significand % 2 == 0⟩

/-- Whole factors that carry quarters of `2 ^ exponent` and units of `10 ^ place` to one scale. -/
def factors (exponent place : Int) : Nat × Nat :=
  let quarter := exponent - 2
  (pow2 quarter.toNat * pow10 (-place).toNat, pow2 (-quarter).toNat * pow10 place.toNat)

def Interval.has (i : Interval) (binary decimal candidate : Nat) : Bool :=
  let c := candidate * decimal
  (decide (i.low * binary < c) && decide (c < i.high * binary)) ||
    (i.closed && (c == i.low * binary || c == i.high * binary))

def Interval.nearest? (i : Interval) (tie : TieRule) (exponent place : Int) : Option Decimal :=
  let (binary, decimal) := factors exponent place
  let value := i.middle * binary
  let below := value / decimal
  let above := below + 1
  match i.has binary decimal below, i.has binary decimal above with
  | true, true =>
    match compare (value - below * decimal) (above * decimal - value) with
    | .lt => some ⟨below, place⟩
    | .eq => some ⟨if tie.takesAbove below then above else below, place⟩
    | .gt => some ⟨above, place⟩
  | true, false => some ⟨below, place⟩
  | false, true => some ⟨above, place⟩
  | false, false => none

def decimalPoint (significand : Nat) (exponent : Int) : Int :=
  let guess := ((significand.log2 : Int) + exponent) * 30103 / 100000
  let exceeds (point : Int) : Bool :=
    let (binary, decimal) := factors exponent point
    decide (4 * significand * binary < decimal)
  if exceeds guess then guess
  else if exceeds (guess + 1) then guess + 1
  else if exceeds (guess + 2) then guess + 2
  else guess + 3

def shortestFrom (i : Interval) (tie : TieRule) (exponent : Int) : Nat → Int → Decimal
  | 0, place => ⟨0, place⟩
  | tries + 1, place =>
    match i.nearest? tie exponent place with
    | some d => d
    | none => shortestFrom i tie exponent tries (place - 1)

/-- Tries one digit, then two, and so on; seventeen always suffice. A single digit may round up
to ten. -/
def shortest (f : FloatFormat) (tie : TieRule) (significand : Nat) (exponent : Int) : Decimal :=
  let d := shortestFrom (f.interval significand exponent) tie exponent 17
    (decimalPoint significand exponent - 1)
  if d.digits = 10 then ⟨1, d.exponent + 1⟩ else d

end FloatFormat

end SchemaRpc
