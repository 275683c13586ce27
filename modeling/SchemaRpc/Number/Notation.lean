import SchemaRpc.Number.Shortest

namespace SchemaRpc

/-- How a number is laid out. `least` and `greatest` bound the decimal points written without an
exponent, where `0.d1d2...` has point 0. -/
structure NumberStyle where
  tie : TieRule
  least : Option Int
  greatest : Option Int
  pointZero : Bool
  plus : Bool

namespace NumberStyle

def json : NumberStyle := ⟨.even, some (-4), some 16, true, true⟩

def display : NumberStyle := ⟨.up, some (-3), some 16, true, false⟩

def plain : NumberStyle := ⟨.up, none, none, false, false⟩

def positional (s : NumberStyle) (digits : List Char) (point : Int) : List Char :=
  if point ≤ 0 then '0' :: '.' :: List.replicate (-point).toNat '0' ++ digits
  else if (digits.length : Int) ≤ point then
    digits ++ List.replicate (point.toNat - digits.length) '0' ++
      (if s.pointZero then ['.', '0'] else [])
  else digits.take point.toNat ++ '.' :: digits.drop point.toNat

def scientific (s : NumberStyle) (digits : List Char) (point : Int) : List Char :=
  let exponent := point - 1
  let sign := if exponent < 0 then ['-'] else if s.plus then ['+'] else []
  let mantissa :=
    match digits with
    | first :: second :: rest => first :: '.' :: second :: rest
    | short => short
  mantissa ++ 'e' :: sign ++ Nat.toDigits 10 exponent.natAbs

def layout (s : NumberStyle) (d : Decimal) : List Char :=
  let digits := Nat.toDigits 10 d.digits
  let point := d.exponent + digits.length
  if s.least.all (· ≤ point) ∧ s.greatest.all (point ≤ ·) then s.positional digits point
  else s.scientific digits point

def text (s : NumberStyle) (f : FloatFormat) (bits : Nat) : String :=
  let sign := if f.isNegative bits then "-" else ""
  match f.magnitude bits with
  | .nan => "NaN"
  | .infinite => sign ++ "inf"
  | .finite 0 _ => sign ++ (if s.pointZero then "0.0" else "0")
  | .finite significand exponent =>
    sign ++ String.ofList (s.layout (f.shortest s.tie significand exponent))

end NumberStyle

namespace Decimal

def isDigit (c : Char) : Bool :=
  decide ('0' ≤ c) && decide (c ≤ '9')

def ofDigits (digits : List Char) : Nat :=
  digits.foldl (fun n c => 10 * n + (c.toNat - 48)) 0

def splitSign : List Char → Bool × List Char
  | '-' :: rest => (true, rest)
  | '+' :: rest => (false, rest)
  | rest => (false, rest)

def parseInt? (text : List Char) : Option Int :=
  let (negative, digits) := splitSign text
  if digits ≠ [] ∧ digits.all isDigit then
    some (if negative then -(ofDigits digits : Int) else ofDigits digits)
  else none

def parseExponent? : List Char → Option Int
  | [] => some 0
  | c :: rest => if c = 'e' ∨ c = 'E' then parseInt? rest else none

def parseUnsigned? (text : List Char) : Option Decimal := do
  let whole := text.takeWhile isDigit
  let rest := text.dropWhile isDigit
  let (places, rest) :=
    match rest with
    | '.' :: rest => (rest.takeWhile isDigit, rest.dropWhile isDigit)
    | rest => ([], rest)
  if whole = [] ∧ places = [] then none
  else
    let exponent ← parseExponent? rest
    return ⟨ofDigits (whole ++ places), exponent - places.length⟩

end Decimal

namespace FloatFormat

def parse? (f : FloatFormat) (text : String) : Option Nat :=
  let (negative, rest) := Decimal.splitSign text.toList
  let word := String.ofList (rest.map Char.toLower)
  if word = "inf" ∨ word = "infinity" then some (f.withSign negative f.infinity)
  else if word = "nan" then some (f.withSign negative f.quietNaN)
  else (Decimal.parseUnsigned? rest).map fun d => f.ofDecimal negative d.digits d.exponent

end FloatFormat

end SchemaRpc
