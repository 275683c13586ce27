import SchemaRpc.Bytes

namespace SchemaRpc.Utf8

/-- Where decoding stopped: the length of the longest valid part, and the length of the
ill-formed sequence after it, or `none` when the input ends inside a sequence valid so far. -/
structure Fault where
  validUpTo : Nat
  length : Option Nat
deriving DecidableEq, Repr

def Fault.message (f : Fault) : String :=
  match f.length with
  | some n => s!"invalid utf-8 sequence of {n} bytes from index {f.validUpTo}"
  | none => s!"incomplete utf-8 byte sequence from index {f.validUpTo}"

inductive Lead where
  | one
  | two
  | three (low high : UInt8)
  | four (low high : UInt8)
  | invalid
deriving DecidableEq, Repr

def lead (a : UInt8) : Lead :=
  if a < 0x80 then .one
  else if a < 0xC2 then .invalid
  else if a < 0xE0 then .two
  else if a = 0xE0 then .three 0xA0 0xBF
  else if a = 0xED then .three 0x80 0x9F
  else if a < 0xF0 then .three 0x80 0xBF
  else if a = 0xF0 then .four 0x90 0xBF
  else if a < 0xF4 then .four 0x80 0xBF
  else if a = 0xF4 then .four 0x80 0x8F
  else .invalid

def within (low high b : UInt8) : Bool :=
  decide (low ≤ b) && decide (b ≤ high)

def tail (b : UInt8) : Bool :=
  within 0x80 0xBF b

def bits (b : UInt8) : Nat :=
  b.toNat % 64

def decodeFrom (index : Nat) : Bytes → Except Fault (List Char)
  | [] => .ok []
  | a :: rest =>
    match lead a with
    | .invalid => .error ⟨index, some 1⟩
    | .one => (Char.ofNat a.toNat :: ·) <$> decodeFrom (index + 1) rest
    | .two =>
      match rest with
      | [] => .error ⟨index, none⟩
      | b :: rest =>
        if tail b then
          (Char.ofNat (a.toNat % 32 * 64 + bits b) :: ·) <$> decodeFrom (index + 2) rest
        else .error ⟨index, some 1⟩
    | .three low high =>
      match rest with
      | [] => .error ⟨index, none⟩
      | b :: rest =>
        if within low high b then
          match rest with
          | [] => .error ⟨index, none⟩
          | c :: rest =>
            if tail c then
              (Char.ofNat ((a.toNat % 16 * 64 + bits b) * 64 + bits c) :: ·) <$>
                decodeFrom (index + 3) rest
            else .error ⟨index, some 2⟩
        else .error ⟨index, some 1⟩
    | .four low high =>
      match rest with
      | [] => .error ⟨index, none⟩
      | b :: rest =>
        if within low high b then
          match rest with
          | [] => .error ⟨index, none⟩
          | c :: rest =>
            if tail c then
              match rest with
              | [] => .error ⟨index, none⟩
              | d :: rest =>
                if tail d then
                  (Char.ofNat (((a.toNat % 8 * 64 + bits b) * 64 + bits c) * 64 + bits d) :: ·) <$>
                    decodeFrom (index + 4) rest
                else .error ⟨index, some 3⟩
            else .error ⟨index, some 2⟩
        else .error ⟨index, some 1⟩

def decode (bytes : Bytes) : Except Fault String :=
  String.ofList <$> decodeFrom 0 bytes

def encodeChar (c : Char) : Bytes :=
  let n := c.toNat
  if n < 0x80 then [UInt8.ofNat n]
  else if n < 0x800 then [UInt8.ofNat (0xC0 + n / 64), UInt8.ofNat (0x80 + n % 64)]
  else if n < 0x10000 then
    [UInt8.ofNat (0xE0 + n / 4096), UInt8.ofNat (0x80 + n / 64 % 64), UInt8.ofNat (0x80 + n % 64)]
  else
    [UInt8.ofNat (0xF0 + n / 262144), UInt8.ofNat (0x80 + n / 4096 % 64),
      UInt8.ofNat (0x80 + n / 64 % 64), UInt8.ofNat (0x80 + n % 64)]

def encode (text : String) : Bytes :=
  text.toList.flatMap encodeChar

end SchemaRpc.Utf8
