import SchemaRpc.Error
import SchemaRpc.Wire.Varint

namespace SchemaRpc

inductive WireKind where
  | varint
  | fixed64
  | delimited
  | startGroup
  | endGroup
  | fixed32
deriving DecidableEq, Repr

namespace WireKind

def number : WireKind → Nat
  | .varint => 0
  | .fixed64 => 1
  | .delimited => 2
  | .startGroup => 3
  | .endGroup => 4
  | .fixed32 => 5

def ofNumber : Nat → Except Error WireKind
  | 0 => .ok .varint
  | 1 => .ok .fixed64
  | 2 => .ok .delimited
  | 3 => .ok .startGroup
  | 4 => .ok .endGroup
  | 5 => .ok .fixed32
  | n => .error (.invalidWireKind n)

theorem ofNumber_number (k : WireKind) : ofNumber k.number = .ok k := by
  cases k <;> rfl

theorem number_of_ofNumber {n : Nat} {k : WireKind} (h : ofNumber n = .ok k) : k.number = n := by
  unfold ofNumber at h
  split at h <;> cases h <;> rfl

end WireKind

structure Tag where
  number : Nat
  kind : WireKind
deriving DecidableEq, Repr

namespace Tag

def maxNumber : Nat := 536870911

def key (t : Tag) : Nat :=
  t.number * 8 + t.kind.number

/-- The field number is checked before the wire kind. -/
def ofKey (key : Nat) : Except Error Tag :=
  let number := key / 8
  if number = 0 ∨ maxNumber < number then .error (.invalidFieldNumber number)
  else (WireKind.ofNumber (key % 8)).map fun kind => ⟨number, kind⟩

def encode (t : Tag) : Bytes :=
  Varint.encodeNat t.key

theorem ofKey_key {t : Tag} (positive : 0 < t.number) (small : t.number ≤ maxNumber) :
    ofKey t.key = .ok t := by
  have hk : t.kind.number < 8 := by cases t.kind <;> decide
  have hn : t.key / 8 = t.number := by simp only [key]; omega
  have hm : t.key % 8 = t.kind.number := by simp only [key]; omega
  simp only [ofKey, hn, hm, WireKind.ofNumber_number]
  rw [if_neg (by omega)]
  rfl

theorem key_of_ofKey {key : Nat} {t : Tag} (h : ofKey key = .ok t) :
    0 < t.number ∧ t.number ≤ maxNumber ∧ t.key = key := by
  simp only [ofKey] at h
  split at h
  · cases h
  · next hn =>
      cases hk : WireKind.ofNumber (key % 8) with
      | error e => rw [hk] at h; cases h
      | ok k =>
          rw [hk] at h
          cases h
          have := WireKind.number_of_ofNumber hk
          show 0 < key / 8 ∧ key / 8 ≤ maxNumber ∧ key / 8 * 8 + k.number = key
          omega

end Tag

end SchemaRpc
