import SchemaRpc.Proofs.Wire.Varint
import SchemaRpc.Wire.Record

namespace SchemaRpc

structure Tag.Spelled (t : Tag) (bytes : Bytes) : Prop where
  positive : 0 < t.number
  small : t.number ≤ Tag.maxNumber
  key : Varint.Spelled 0 t.key bytes

namespace Reader

variable {α β : Type}

def Reads (p : Reader α) (a : α) (used : Bytes) : Prop :=
  ∀ rest, p (used ++ rest) = .ok a rest

def Local (p : Reader α) : Prop :=
  ∀ ⦃bytes a rest⦄, p bytes = .ok a rest → ∃ used, bytes = used ++ rest ∧ p.Reads a used

theorem Reads.bind {p : Reader α} {q : α → Reader β} {a : α} {b : β} {first second : Bytes}
    (hp : p.Reads a first) (hq : (q a).Reads b second) : (p >>= q).Reads b (first ++ second) := by
  intro rest
  change EStateM.bind p q _ = _
  rw [EStateM.bind, List.append_assoc, hp]
  exact hq rest

theorem Reads.pure (a : α) : Reads (Pure.pure a) a [] := fun _ => rfl

theorem Reads.map {p : Reader α} {a : α} {used : Bytes} (f : α → β) (hp : p.Reads a used) :
    Reads (do return f (← p)) (f a) used := by
  have : Reads (do return f (← p)) (f a) (used ++ []) := hp.bind (Reads.pure (f a))
  rwa [List.append_nil] at this

theorem Local.bind {p : Reader α} {q : α → Reader β} (hp : p.Local) (hq : ∀ a, (q a).Local) :
    (p >>= q).Local := by
  intro bytes b rest h
  obtain ⟨a, middle, ha, hb⟩ := bind_eq_ok h
  obtain ⟨first, rfl, hfirst⟩ := hp ha
  obtain ⟨second, rfl, hsecond⟩ := hq a hb
  exact ⟨first ++ second, by rw [List.append_assoc], hfirst.bind hsecond⟩

theorem Local.pure (a : α) : Local (Pure.pure a) := by
  intro bytes b rest h
  cases h
  exact ⟨[], rfl, .pure a⟩

theorem Local.map {p : Reader α} (f : α → β) (hp : p.Local) : Local (do return f (← p)) :=
  hp.bind fun _ => .pure _

theorem reads_varint {n : Nat} {used : Bytes} (h : Varint.Spelled 0 n used) :
    varint.Reads (.ofNat n) used := by
  intro rest
  rw [varint, Varint.decode_of_spelled h]

theorem spelled_of_varint {v : UInt64} {bytes rest : Bytes} (h : varint bytes = .ok v rest) :
    ∃ used, bytes = used ++ rest ∧ Varint.Spelled 0 v.toNat used := by
  rw [varint] at h
  split at h
  · next hd => cases h; exact Varint.spelled_of_decode hd
  · cases h
  · cases h

theorem local_varint : varint.Local := by
  intro bytes v rest h
  obtain ⟨used, hb, hu⟩ := spelled_of_varint h
  refine ⟨used, hb, ?_⟩
  have := reads_varint hu
  rwa [UInt64.ofNat_toNat] at this

theorem reads_take (taken : Bytes) : (take taken.length).Reads taken taken := by
  intro rest
  have : (taken ++ rest).take? taken.length = some (taken, rest) :=
    Bytes.take?_eq_some_iff.2 ⟨rfl, rfl⟩
  rw [take, this]

theorem local_take (n : Nat) : (take n).Local := by
  intro bytes taken rest h
  obtain ⟨rfl, hb⟩ := length_of_take h
  exact ⟨taken, hb, reads_take taken⟩

theorem reads_tag {t : Tag} {used : Bytes} (h : t.Spelled used) : tag.Reads t used := by
  intro rest
  have hk : (UInt64.ofNat t.key).toNat = t.key := UInt64.toNat_ofNat_of_lt' h.key.lt_word
  change EStateM.bind varint _ _ = _
  rw [EStateM.bind, reads_varint h.key]
  simp only [hk, Tag.ofKey_key h.positive h.small]
  rfl

theorem spelled_of_tag {t : Tag} {bytes rest : Bytes} (h : tag bytes = .ok t rest) :
    ∃ used, bytes = used ++ rest ∧ t.Spelled used := by
  obtain ⟨key, middle, hv, ht⟩ := bind_eq_ok h
  obtain ⟨used, hb, hu⟩ := spelled_of_varint hv
  cases hk : Tag.ofKey key.toNat with
  | error e => simp only [hk] at ht; cases ht
  | ok t =>
      simp only [hk] at ht
      cases ht
      obtain ⟨positive, small, hkey⟩ := Tag.key_of_ofKey hk
      exact ⟨used, hb, positive, small, hkey ▸ hu⟩

theorem local_tag : tag.Local := by
  intro bytes t rest h
  obtain ⟨used, hb, hu⟩ := spelled_of_tag h
  exact ⟨used, hb, reads_tag hu⟩

theorem reads_delimited {body len : Bytes} (h : Varint.Spelled 0 body.length len) :
    delimited.Reads body (len ++ body) := by
  refine (reads_varint h).bind ?_
  rw [UInt64.toNat_ofNat_of_lt' h.lt_word]
  exact reads_take body

theorem local_delimited : delimited.Local :=
  local_varint.bind fun _ => local_take _

theorem reads_fixed32 {bytes : Bytes} (h : bytes.length = 4) :
    fixed32.Reads (.ofNat (Bytes.ofLittleEndian bytes)) bytes := by
  have : (take 4).Reads bytes bytes := h ▸ reads_take bytes
  exact this.map _

theorem reads_fixed64 {bytes : Bytes} (h : bytes.length = 8) :
    fixed64.Reads (.ofNat (Bytes.ofLittleEndian bytes)) bytes := by
  have : (take 8).Reads bytes bytes := h ▸ reads_take bytes
  exact this.map _

theorem local_fixed32 : fixed32.Local := (local_take 4).map _

theorem local_fixed64 : fixed64.Local := (local_take 8).map _

theorem local_plainPayload (t : Tag) : (plainPayload t).Local := by
  intro bytes p rest h
  cases hk : t.kind with
  | varint => simp only [plainPayload, hk] at h ⊢; exact local_varint.map _ h
  | fixed64 => simp only [plainPayload, hk] at h ⊢; exact local_fixed64.map _ h
  | delimited => simp only [plainPayload, hk] at h ⊢; exact local_delimited.map _ h
  | fixed32 => simp only [plainPayload, hk] at h ⊢; exact local_fixed32.map _ h
  | startGroup => simp only [plainPayload, hk] at h; cases h
  | endGroup => simp only [plainPayload, hk] at h; cases h

end Reader

end SchemaRpc
