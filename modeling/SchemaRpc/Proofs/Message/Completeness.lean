import SchemaRpc.Proofs.Message.Construction

namespace SchemaRpc

namespace Message

def Throughout (P : Message → Prop) (levels : Nat) (m : Message) : Prop :=
  ∀ depth k, Nested depth m k → depth < levels ∧ P k

section Levels

variable {P Q : Message → Prop} {levels : Nat} {m : Message}

theorem not_throughout_zero : ¬m.Throughout P 0 := fun h => Nat.not_lt_zero _ (h 0 m .self).1

theorem throughout_succ_iff :
    m.Throughout P (levels + 1) ↔
      P m ∧ ∀ inner, m.Contains (.message inner) → inner.Throughout P levels := by
  refine forall_nested_iff.trans ?_
  simp only [Nat.zero_lt_succ, true_and, Nat.succ_lt_succ_iff, Throughout]

theorem Throughout.imp (h : m.Throughout P levels) (hpq : ∀ k, P k → Q k) :
    m.Throughout Q levels :=
  fun depth k hk => ⟨(h depth k hk).1, hpq k (h depth k hk).2⟩

theorem Throughout.inner {inner : Message} (h : m.Throughout P (levels + 1))
    (hc : m.Contains (.message inner)) : inner.Throughout P levels :=
  (throughout_succ_iff.1 h).2 inner hc

theorem Throughout.within {inner : Message} (h : m.Throughout P levels)
    (hc : m.Contains (.message inner)) : inner.Throughout P levels := by
  intro depth k hk
  obtain ⟨hd, hp⟩ := h (depth + 1) k (.inside hc hk)
  exact ⟨Nat.lt_of_succ_lt hd, hp⟩

theorem Throughout.store {s : Schema} {f : Field} {v : Value} (h : m.Throughout P (levels + 1))
    (ascending : m.Ascending) (hs : P (m.store s f v))
    (hv : ∀ k, .message k ∈ v.elements → k.Throughout P levels) :
    (m.store s f v).Throughout P (levels + 1) := by
  refine throughout_succ_iff.2 ⟨hs, fun k hk => ?_⟩
  rcases contains_of_store ascending hk with hold | hnew
  · exact h.inner hold
  · exact hv k hnew

theorem throughout_zero {s : Schema} {type : String} (check : (s.find type).check = .ok ())
    (h : P (zero (s.find type))) : (zero (s.find type)).Throughout P (levels + 1) := by
  refine throughout_succ_iff.2 ⟨h, fun k hk => ?_⟩
  obtain ⟨kind, hz⟩ := contains_of_zero check hk
  exact absurd hz (Kind.zero?_ne_message k)

end Levels

structure Complete (s : Schema) (m : Message) : Prop extends m.Conforms s where
  present : ∀ f ∈ (m.messageType s).fields,
    f.cardinality = .repeated ∨ f.cardinality = .single ∧ f.kind.isMessageLike = false →
      m.has f.number = true

variable {s : Schema} {m : Message} {f : Field} {v : Value} {levels : Nat}

theorem isSome_initial? (h : f.cardinality = .repeated ∨
    f.cardinality = .single ∧ f.kind.isMessageLike = false) : (initial? f).isSome = true := by
  unfold initial?
  rcases h with hr | ⟨hs, hk⟩
  · rw [hr]
    rfl
  · rw [hs]
    cases hf : f.kind with
    | scalar c => rfl
    | enumeration e => rfl
    | _ => rw [hf] at hk; cases hk

theorem of_initial? (h : initial? f = some v) :
    f.cardinality = .repeated ∨ f.cardinality = .single ∧ f.kind.isMessageLike = false := by
  rcases initial?_eq_some h with ⟨hc, hz⟩ | ⟨hc, -⟩
  · refine .inr ⟨hc, ?_⟩
    cases hk : f.kind with
    | message name => rw [hk] at hz; cases hz
    | timestamp => rw [hk] at hz; cases hz
    | _ => rfl
  · exact .inl hc

theorem group?_eq_none_of (h : f.cardinality = .repeated ∨
    f.cardinality = .single ∧ f.kind.isMessageLike = false) : f.group? = none := by
  unfold Field.group?
  rcases h with hr | ⟨hs, -⟩
  · rw [hr]
  · rw [hs]

namespace Complete

theorem zero {type : String} (h : (s.find type).check = .ok ()) :
    (Message.zero (s.find type)).Complete s where
  toConforms := .zero h
  present := by
    intro f hf hi
    rw [messageType_zero] at hf
    rw [has, get?_zero_of_mem h hf]
    exact isSome_initial? hi

theorem store (h : m.Complete s) (check : (m.messageType s).check = .ok ())
    (hf : f ∈ (m.messageType s).fields) (hv : f.Holds v) : (m.store s f v).Complete s where
  toConforms := h.toConforms.store check hf hv
  present := by
    intro g hg hi
    rw [messageType_store] at hg
    rw [has, get?_store s h.ascending]
    split
    · rfl
    · split
      · next hs =>
          obtain ⟨x, hx, hn⟩ := hs
          obtain ⟨hmem, hsome, hgroup, -⟩ := (mem_siblings s).1 hx
          rw [MessageType.eq_of_number check hmem hg hn, group?_eq_none_of hi] at hgroup
          rw [← hgroup] at hsome
          cases hsome
      · exact h.present g hg hi

theorem append (h : m.Complete s) (check : (m.messageType s).check = .ok ())
    (hf : f ∈ (m.messageType s).fields) (hr : f.cardinality = .repeated)
    (hv : v.Admissible f.kind) : (m.append f v).Complete s where
  toConforms := h.toConforms.append check hf hr hv
  present := by
    intro g hg hi
    rw [messageType_append] at hg
    rw [has, append_eq, get?_insert]
    split
    · rfl
    · exact h.present g hg hi

end Complete

theorem completed_of_complete (valid : s.Valid m.type) (h : m.Throughout (Complete s) levels) :
    m.completed s = m := by
  induction levels generalizing m with
  | zero => exact absurd h not_throughout_zero
  | succ levels ih =>
      obtain ⟨hm, hinner⟩ := throughout_succ_iff.1 h
      have inner : ∀ k, m.Contains (.message k) → k.completed s = k := fun k hk =>
        ih (hm.valid_inner valid hk) (hinner k hk)
      refine ext_get? (type_completed s m) (ascending_completed s m) hm.ascending fun n => ?_
      rw [get?_completed s hm.ascending]
      cases hv : m.get? n with
      | none =>
          cases hz : (Message.zero (s.find m.type)).get? n with
          | none => rfl
          | some v =>
              rw [get?_zero valid.check] at hz
              obtain ⟨f, hf, hi⟩ := Option.bind_eq_some_iff.1 hz
              obtain ⟨hmem, rfl⟩ := MessageType.field?_eq_some hf
              have := hm.present f hmem (of_initial? hi)
              rw [has, hv] at this
              cases this
      | some v =>
          have hsame : ∀ e ∈ v.elements, e.completed s = e := by
            intro e he
            have hc : m.Contains e := ⟨n, v, hv, he⟩
            cases e with
            | message k => rw [Value.completed, inner k hc]
            | list items =>
                obtain ⟨f, -, ha | hz⟩ := hm.admissible_of_contains hc
                · cases ha
                · exact absurd hz (Kind.zero?_ne_list items)
            | _ => rfl
          rw [Option.map_some, Option.some_or, Value.completed_of_elements hsame]

end Message

end SchemaRpc
