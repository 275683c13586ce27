import SchemaRpc.Wire.Tag

/-!
Readers of encoded bytes. A reader's state is the bytes not yet read; a failed read keeps what
was consumed before the fault, so a bad length leaves the reader behind its length prefix.
-/
namespace SchemaRpc

abbrev Reader := EStateM Error Bytes

namespace Reader

def varint : Reader UInt64 := fun bytes =>
  match Varint.decode bytes with
  | .ok (v, rest) => .ok v rest
  | .error .overflow => .error .varintOverflow bytes
  | .error .truncated => .error (.truncated (bytes.length + 1) bytes.length) bytes

def take (n : Nat) : Reader Bytes := fun bytes =>
  match bytes.take? n with
  | some (taken, rest) => .ok taken rest
  | none => .error (.truncated n bytes.length) bytes

def tag : Reader Tag := do
  let key ← varint
  match Tag.ofKey key.toNat with
  | .ok t => return t
  | .error e => throw e

def fixed32 : Reader UInt32 := do
  return UInt32.ofNat (Bytes.ofLittleEndian (← take 4))

def fixed64 : Reader UInt64 := do
  return UInt64.ofNat (Bytes.ofLittleEndian (← take 8))

def delimited : Reader Bytes := do
  take (← varint).toNat

variable {α : Type} {bytes rest : Bytes}

theorem length_lt_of_varint {v : UInt64} (h : varint bytes = .ok v rest) :
    rest.length < bytes.length := by
  rw [varint] at h
  split at h
  · next hd =>
      cases h
      exact Varint.length_lt_of_decode hd
  · cases h
  · cases h

theorem length_of_take {n : Nat} {taken : Bytes} (h : take n bytes = .ok taken rest) :
    taken.length = n ∧ bytes = taken ++ rest := by
  rw [take] at h
  split at h
  · next hs =>
      cases h
      exact Bytes.take?_eq_some_iff.1 hs
  · cases h

theorem bind_eq_ok {β : Type} {p : Reader α} {q : α → Reader β} {b : β}
    (h : (p >>= q) bytes = .ok b rest) : ∃ a middle, p bytes = .ok a middle ∧ q a middle = .ok b rest := by
  change EStateM.bind p q bytes = _ at h
  rw [EStateM.bind] at h
  split at h
  · next a middle hp => exact ⟨a, middle, hp, h⟩
  · cases h

theorem length_lt_of_tag {t : Tag} (h : tag bytes = .ok t rest) : rest.length < bytes.length := by
  obtain ⟨key, middle, hv, ht⟩ := bind_eq_ok h
  cases hk : Tag.ofKey key.toNat with
  | error e => simp only [hk] at ht; cases ht
  | ok t => simp only [hk] at ht; cases ht; exact length_lt_of_varint hv

theorem length_lt_of_delimited {body : Bytes} (h : delimited bytes = .ok body rest) :
    body.length + rest.length < bytes.length := by
  obtain ⟨n, middle, hv, ht⟩ := bind_eq_ok h
  have hm := length_lt_of_varint hv
  have hb := (length_of_take ht).2
  simp only [hb, List.length_append] at hm
  exact hm

theorem length_lt_of_take {n : Nat} {taken : Bytes} (positive : 0 < n)
    (h : take n bytes = .ok taken rest) : rest.length < bytes.length := by
  have ⟨hn, hb⟩ := length_of_take h
  simp only [hb, List.length_append]
  omega

theorem length_lt_of_fixed32 {v : UInt32} (h : fixed32 bytes = .ok v rest) :
    rest.length < bytes.length := by
  obtain ⟨taken, middle, ht, hp⟩ := bind_eq_ok h
  cases hp
  exact length_lt_of_take (by decide) ht

theorem length_lt_of_fixed64 {v : UInt64} (h : fixed64 bytes = .ok v rest) :
    rest.length < bytes.length := by
  obtain ⟨taken, middle, ht, hp⟩ := bind_eq_ok h
  cases hp
  exact length_lt_of_take (by decide) ht

end Reader

end SchemaRpc
