namespace SchemaRpc

def pow2 (n : Nat) : Nat := Nat.pow 2 n

def pow10 (n : Nat) : Nat := Nat.pow 10 n

structure FloatFormat where
  fraction : Nat
  exponent : Nat

namespace FloatFormat

def binary64 : FloatFormat := ⟨52, 11⟩

def binary32 : FloatFormat := ⟨23, 8⟩

def least (f : FloatFormat) : Int :=
  2 - pow2 (f.exponent - 1) - f.fraction

def infinity (f : FloatFormat) : Nat :=
  (pow2 f.exponent - 1) * pow2 f.fraction

def quietNaN (f : FloatFormat) : Nat :=
  f.infinity + pow2 (f.fraction - 1)

def signBit (f : FloatFormat) : Nat :=
  pow2 (f.fraction + f.exponent)

inductive Magnitude where
  | nan
  | infinite
  | finite (significand : Nat) (exponent : Int)
deriving DecidableEq, Repr

def isNegative (f : FloatFormat) (bits : Nat) : Bool :=
  decide (f.signBit ≤ bits)

def magnitude (f : FloatFormat) (bits : Nat) : Magnitude :=
  let fraction := bits % pow2 f.fraction
  let exponent := bits / pow2 f.fraction % pow2 f.exponent
  if exponent = pow2 f.exponent - 1 then
    if fraction = 0 then .infinite else .nan
  else if exponent = 0 then .finite fraction f.least
  else .finite (pow2 f.fraction + fraction) (f.least + (exponent - 1 : Nat))

def withSign (f : FloatFormat) (negative : Bool) (bits : Nat) : Nat :=
  if negative then f.signBit + bits else bits

def roundDiv (num den : Nat) : Nat :=
  let quotient := num / den
  let twice := 2 * (num % den)
  if twice < den ∨ (twice = den ∧ quotient % 2 = 0) then quotient else quotient + 1

def scaled (num den : Nat) (e : Int) : Nat × Nat :=
  if 0 ≤ e then (num, den * pow2 e.toNat) else (num * pow2 (-e).toNat, den)

def fullExponent (f : FloatFormat) (num den : Nat) : Int :=
  let guess : Int := (num.log2 : Int) - den.log2 - f.fraction
  let (n, d) := scaled num den guess
  if n < d * pow2 f.fraction then guess - 1 else guess

/-- The pattern nearest to a positive ratio, without a sign; a tie goes to the even pattern and
what is too large to infinity. -/
def ofRatio (f : FloatFormat) (num den : Nat) : Nat :=
  if num = 0 then 0
  else
    let e := max (f.fullExponent num den) f.least
    let (n, d) := scaled num den e
    min ((e - f.least).toNat * pow2 f.fraction + roundDiv n d) f.infinity

def ofDecimal (f : FloatFormat) (negative : Bool) (digits : Nat) (exponent : Int) : Nat :=
  let point := exponent + (Nat.toDigits 10 digits).length
  f.withSign negative <|
    if digits = 0 ∨ point < -400 then 0
    else if 400 < point then f.infinity
    else if 0 ≤ exponent then f.ofRatio (digits * pow10 exponent.toNat) 1
    else f.ofRatio digits (pow10 (-exponent).toNat)

def ofBinary (f : FloatFormat) (negative : Bool) (significand : Nat) (exponent : Int) : Nat :=
  f.withSign negative <|
    if 0 ≤ exponent then f.ofRatio (significand * pow2 exponent.toNat) 1
    else f.ofRatio significand (pow2 (-exponent).toNat)

def ofInt (f : FloatFormat) (n : Int) : Nat :=
  f.ofBinary (decide (n < 0)) n.natAbs 0

def convert (source target : FloatFormat) (bits : Nat) : Nat :=
  let negative := source.isNegative bits
  match source.magnitude bits with
  | .nan => target.withSign negative target.quietNaN
  | .infinite => target.withSign negative target.infinity
  | .finite significand exponent => target.ofBinary negative significand exponent

def toInt? (f : FloatFormat) (bits : Nat) : Option Int :=
  match f.magnitude bits with
  | .finite significand exponent =>
    let sign : Int := if f.isNegative bits then -1 else 1
    if 0 ≤ exponent then some (sign * (significand * pow2 exponent.toNat : Nat))
    else if significand % pow2 (-exponent).toNat = 0 then
      some (sign * (significand / pow2 (-exponent).toNat : Nat))
    else none
  | _ => none

def isNaN (f : FloatFormat) (bits : Nat) : Bool :=
  decide (f.magnitude bits = .nan)

/-- Comparison of numbers: zero equals its negative, and a NaN equals nothing. -/
def numericEq (f : FloatFormat) (a b : Nat) : Bool :=
  !f.isNaN a && !f.isNaN b && (a == b || (a % f.signBit == 0 && b % f.signBit == 0))

end FloatFormat

end SchemaRpc
