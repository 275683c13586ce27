import SchemaRpc.Bytes

/-!
Base64. Writing uses the standard alphabet with padding; reading takes the standard or the
URL-safe alphabet, with exact padding or none at all, and only zero trailing bits.
-/
namespace SchemaRpc.Base64

def digit (n : Nat) : Char :=
  if n < 26 then Char.ofNat (65 + n)
  else if n < 52 then Char.ofNat (97 + (n - 26))
  else if n < 62 then Char.ofNat (48 + (n - 52))
  else if n = 62 then '+'
  else '/'

def encodeChars : Bytes → List Char
  | [] => []
  | [a] => [digit (a.toNat / 4), digit (a.toNat % 4 * 16), '=', '=']
  | [a, b] =>
    [digit (a.toNat / 4), digit (a.toNat % 4 * 16 + b.toNat / 16), digit (b.toNat % 16 * 4), '=']
  | a :: b :: c :: rest =>
    digit (a.toNat / 4) :: digit (a.toNat % 4 * 16 + b.toNat / 16) ::
      digit (b.toNat % 16 * 4 + c.toNat / 64) :: digit (c.toNat % 64) :: encodeChars rest

def encode (bytes : Bytes) : String :=
  String.ofList (encodeChars bytes)

structure Alphabet where
  plus : Char
  slash : Char

def standard : Alphabet := ⟨'+', '/'⟩

def urlSafe : Alphabet := ⟨'-', '_'⟩

def Alphabet.value? (a : Alphabet) (c : Char) : Option Nat :=
  if 'A' ≤ c ∧ c ≤ 'Z' then some (c.toNat - 65)
  else if 'a' ≤ c ∧ c ≤ 'z' then some (c.toNat - 97 + 26)
  else if '0' ≤ c ∧ c ≤ '9' then some (c.toNat - 48 + 52)
  else if c = a.plus then some 62
  else if c = a.slash then some 63
  else none

def joinDigits : List Nat → Option Bytes
  | [] => some []
  | [_] => none
  | [p, q] => if q % 16 = 0 then some [UInt8.ofNat (p * 4 + q / 16)] else none
  | [p, q, r] =>
    if r % 4 = 0 then some [UInt8.ofNat (p * 4 + q / 16), UInt8.ofNat (q % 16 * 16 + r / 4)]
    else none
  | p :: q :: r :: s :: rest => do
    let bytes ← joinDigits rest
    return UInt8.ofNat (p * 4 + q / 16) :: UInt8.ofNat (q % 16 * 16 + r / 4) ::
      UInt8.ofNat (r % 4 * 64 + s) :: bytes

def unpad? (text : List Char) : Option (List Char) :=
  let body := text.takeWhile (· ≠ '=')
  let padding := text.dropWhile (· ≠ '=')
  if padding = [] then some body
  else if padding.all (· = '=') ∧ padding.length ≤ 2 ∧ text.length % 4 = 0 then some body
  else none

def Alphabet.decode? (a : Alphabet) (text : String) : Option Bytes := do
  let body ← unpad? text.toList
  let digits ← body.mapM a.value?
  joinDigits digits

def decode? (text : String) : Option Bytes :=
  standard.decode? text <|> urlSafe.decode? text

end SchemaRpc.Base64
