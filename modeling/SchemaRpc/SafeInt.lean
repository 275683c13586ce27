import SchemaRpc.Error
import SchemaRpc.Number.Notation

namespace SchemaRpc

structure SafeInt where
  toInt : Int
  lower : -9007199254740991 ≤ toInt
  upper : toInt ≤ 9007199254740991
deriving DecidableEq, Repr

namespace SafeInt

def zero : SafeInt := ⟨0, by decide, by decide⟩

instance : Inhabited SafeInt := ⟨zero⟩

def ofInt? (n : Int) : Option SafeInt :=
  if h : -9007199254740991 ≤ n ∧ n ≤ 9007199254740991 then some ⟨n, h.1, h.2⟩ else none

def ofInt (n : Int) : Except Error SafeInt :=
  match ofInt? n with
  | some s => .ok s
  | none => .error (.integerOverflow n)

def wordCount : Nat := 18446744073709551616

def signed (raw : UInt64) : Int :=
  Int.bmod raw.toNat wordCount

def ofSigned (raw : UInt64) : Except Error SafeInt :=
  ofInt (signed raw)

def ofUnsigned (raw : UInt64) : Except Error SafeInt :=
  ofInt raw.toNat

def wire (n : Int) : UInt64 :=
  UInt64.ofNat (n % wordCount).toNat

def toWire (s : SafeInt) : UInt64 :=
  wire s.toInt

def clamp (n : Int) : Int :=
  max (-170141183460469231731687303715884105728) (min n 170141183460469231731687303715884105727)

def ofDouble (bits : UInt64) : Except Error SafeInt :=
  match FloatFormat.binary64.toInt? bits.toNat with
  | none =>
    .error (.invalidJson s!"{NumberStyle.plain.text .binary64 bits.toNat} is not an integer")
  | some n =>
    match ofInt? n with
    | some s => .ok s
    | none => .error (.integerOverflow (clamp n))

theorem ofInt?_toInt (s : SafeInt) : ofInt? s.toInt = some s := by
  simp [ofInt?, s.lower, s.upper]

theorem ofInt?_eq_some_iff {n : Int} {s : SafeInt} : ofInt? n = some s ↔ s.toInt = n := by
  constructor
  · intro h
    simp only [ofInt?] at h
    split at h
    · cases h; rfl
    · cases h
  · rintro rfl
    exact ofInt?_toInt s

theorem ofInt_eq_ok_iff {n : Int} {s : SafeInt} : ofInt n = .ok s ↔ s.toInt = n := by
  rw [← ofInt?_eq_some_iff, ofInt]
  split <;> simp_all

end SafeInt

end SchemaRpc
