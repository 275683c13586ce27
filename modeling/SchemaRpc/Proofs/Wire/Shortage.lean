import SchemaRpc.Proofs.Wire.Skipping

namespace SchemaRpc

def Error.IsShortage : Error → Prop
  | .truncated .. => True
  | _ => False

theorem Error.IsShortage.eq_truncated {e : Error} (h : e.IsShortage) :
    ∃ needed remaining, e = .truncated needed remaining := by
  cases e with
  | truncated needed remaining => exact ⟨needed, remaining, rfl⟩
  | _ => cases h

namespace Varint

theorem decodeFrom_overflow_append {place : Nat} {bytes : Bytes}
    (h : decodeFrom place bytes = .error .overflow) (more : Bytes) :
    decodeFrom place (bytes ++ more) = .error .overflow := by
  induction bytes generalizing place with
  | nil => cases h
  | cons b tail ih =>
      rw [decodeFrom] at h
      rw [List.cons_append, decodeFrom]
      split
      · rfl
      · next hfits =>
          rw [if_neg hfits] at h
          split at h
          · cases h
          · next high =>
              rw [if_neg high]
              split at h
              · next hrest =>
                  cases h
                  rw [ih hrest]
              · cases h

theorem decode_overflow_append {bytes : Bytes} (h : decode bytes = .error .overflow) (more : Bytes) :
    decode (bytes ++ more) = .error .overflow := by
  rw [decode] at h
  split at h
  · next hd =>
      cases h
      rw [decode, decodeFrom_overflow_append hd]
  · cases h

end Varint

namespace Reader

variable {α β : Type}

def Firm (p : Reader α) : Prop :=
  ∀ ⦃bytes e left⦄, p bytes = .error e left → ¬e.IsShortage →
    ∀ more, p (bytes ++ more) = .error e (left ++ more)

theorem Local.append {p : Reader α} (h : p.Local) {a : α} {bytes rest : Bytes}
    (hp : p bytes = .ok a rest) (more : Bytes) : p (bytes ++ more) = .ok a (rest ++ more) := by
  obtain ⟨used, rfl, reads⟩ := h hp
  rw [List.append_assoc, reads]

theorem Firm.bind {p : Reader α} {q : α → Reader β} (firm : p.Firm) (near : p.Local)
    (rest : ∀ a, (q a).Firm) : (p >>= q).Firm := by
  intro bytes e left h short more
  change EStateM.bind p q bytes = _ at h
  change EStateM.bind p q (bytes ++ more) = _
  rw [EStateM.bind] at h ⊢
  cases hp : p bytes with
  | ok a middle =>
      rw [hp] at h
      rw [near.append hp]
      exact rest a h short more
  | error e' middle =>
      rw [hp] at h
      cases h
      rw [firm hp short]

theorem Firm.pure (a : α) : Firm (Pure.pure a) := by
  intro bytes e left h
  cases h

theorem Firm.throw (e : Error) : Firm (throw e : Reader α) := by
  intro bytes e' left h short more
  cases h
  rfl

theorem Firm.map {p : Reader α} (f : α → β) (firm : p.Firm) (near : p.Local) :
    Firm (do return f (← p)) :=
  firm.bind near fun _ => .pure _

theorem firm_varint : varint.Firm := by
  intro bytes e left h short more
  rw [varint] at h ⊢
  split at h
  · cases h
  · next hd =>
      cases h
      rw [Varint.decode_overflow_append hd]
  · cases h
    exact absurd trivial short

theorem firm_take (n : Nat) : (take n).Firm := by
  intro bytes e left h short more
  rw [take] at h
  split at h
  · cases h
  · cases h
    exact absurd trivial short

theorem firm_tag : tag.Firm := by
  apply firm_varint.bind local_varint
  intro key
  cases Tag.ofKey key.toNat with
  | ok t => exact .pure t
  | error e => exact .throw e

theorem firm_delimited : delimited.Firm :=
  firm_varint.bind local_varint fun _ => firm_take _

theorem firm_fixed32 : fixed32.Firm :=
  (firm_take 4).map _ (local_take 4)

theorem firm_fixed64 : fixed64.Firm :=
  (firm_take 8).map _ (local_take 8)

theorem firm_plainPayload (t : Tag) : (plainPayload t).Firm := by
  unfold plainPayload
  cases t.kind with
  | varint => exact firm_varint.map _ local_varint
  | fixed64 => exact firm_fixed64.map _ local_fixed64
  | delimited => exact firm_delimited.map _ local_delimited
  | fixed32 => exact firm_fixed32.map _ local_fixed32
  | startGroup => exact .throw _
  | endGroup => exact .throw _

theorem firm_closeGroups (nesting : List Nat) : Firm (closeGroups nesting) := by
  intro bytes e left h short more
  fun_induction closeGroups nesting bytes with
  | case1 => cases h
  | case2 bytes number outer e' rest ht =>
      cases h
      rw [closeGroups_of_error (firm_tag ht short more)]
  | case3 bytes outer t rest ht hk ih =>
      rw [closeGroups_of_endGroup (local_tag.append ht more) hk, if_pos rfl]
      exact ih h
  | case4 bytes number outer t rest ht hk hn =>
      cases h
      rw [closeGroups_of_endGroup (local_tag.append ht more) hk, if_neg hn]
  | case5 bytes number outer t rest ht hk hl =>
      rw [if_pos hl] at h
      cases h
      rw [closeGroups_of_startGroup (local_tag.append ht more) hk, if_pos hl]
  | case6 bytes number outer t rest ht hk hl ih =>
      rw [if_neg hl] at h
      rw [closeGroups_of_startGroup (local_tag.append ht more) hk, if_neg hl]
      exact ih h
  | case7 bytes number outer t rest ht e' left' hp he hs =>
      cases h
      exact closeGroups_of_refused (local_tag.append ht more) hs he (firm_plainPayload t hp short more)
  | case8 bytes number outer t rest ht p left' hp he hs ih =>
      rw [closeGroups_of_payload (local_tag.append ht more) hs he
        ((local_plainPayload t).append hp more)]
      exact ih h

theorem firm_payload (t : Tag) : (payload t).Firm := by
  intro bytes e left h short more
  by_cases hk : t.kind = .startGroup
  · rw [payload_of_startGroup hk] at h ⊢
    split at h
    · cases h
    · next hc =>
        cases h
        rw [firm_closeGroups _ hc short more]
  · rw [payload_of_plain hk] at h ⊢
    exact firm_plainPayload t h short more

theorem firm_record : record.Firm :=
  firm_tag.bind local_tag fun t => (firm_payload t).bind (local_payload t) fun _ => .pure _

theorem shortage_of_beginning {p : Reader α} (near : p.Local) (firm : p.Firm) {a : α}
    {start tail : Bytes} (reads : p.Reads a (start ++ tail)) (missing : tail ≠ []) :
    ∃ e left, p start = .error e left ∧ e.IsShortage := by
  have whole : p (start ++ tail) = .ok a [] := by
    have := reads []
    rwa [List.append_nil] at this
  cases hp : p start with
  | ok b left =>
      rw [near.append hp] at whole
      have hnil : left ++ tail = [] := by injection whole
      exact absurd (List.append_eq_nil_iff.1 hnil).2 missing
  | error e left =>
      refine ⟨e, left, rfl, Classical.byContradiction fun short => ?_⟩
      rw [firm hp short] at whole
      cases whole

end Reader

end SchemaRpc
