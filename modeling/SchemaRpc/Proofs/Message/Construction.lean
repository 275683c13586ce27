import SchemaRpc.Proofs.Message.Conformance

namespace SchemaRpc

namespace Message

/-- The messages that the checked operations build out of instants of the calendar. -/
inductive Built (s : Schema) : Message → Prop
  | new (type : String) : Built s (zero (s.find type))
  | empty (type : String) : Built s (empty type)
  | set {m m' : Message} {n : Nat} {v : Value} (target : Built s m)
      (messages : ∀ k, .message k ∈ v.elements → Built s k)
      (instants : ∀ t, .timestamp t ∈ v.elements → t.InCalendar) (done : m.set s n v = .ok m') :
      Built s m'
  | push {m m' : Message} {n : Nat} {v : Value} (target : Built s m)
      (messages : ∀ k, .message k ∈ v.elements → Built s k)
      (instants : ∀ t, .timestamp t ∈ v.elements → t.InCalendar) (done : m.push s n v = .ok m') :
      Built s m'
  | clear {m : Message} (target : Built s m) (n : Nat) : Built s (m.clear n)
  | completed {m : Message} (target : Built s m) : Built s (m.completed s)

def Sound (s : Schema) (m : Message) : Prop :=
  ∀ depth k, Nested depth m k → k.Conforms s

variable {s : Schema} {m m' : Message} {n : Nat} {v : Value}

theorem sound_iff :
    m.Sound s ↔ m.Conforms s ∧ ∀ inner, m.Contains (.message inner) → inner.Sound s :=
  forall_nested_iff (P := fun _ k => k.Conforms s)

theorem Sound.conforms (h : m.Sound s) : m.Conforms s :=
  (sound_iff.1 h).1

theorem Sound.inner {k : Message} (h : m.Sound s) (hc : m.Contains (.message k)) : k.Sound s :=
  (sound_iff.1 h).2 k hc

theorem Conforms.admissible_of_contains (h : m.Conforms s) {e : Value} (hc : m.Contains e) :
    ∃ f ∈ (m.messageType s).fields, e.Admissible f.kind ∨ f.kind.zero? = some e := by
  obtain ⟨n, w, hw, he⟩ := hc
  obtain ⟨f, hf, -, hh⟩ := h.declared n w hw
  refine ⟨f, hf, ?_⟩
  by_cases hr : f.cardinality = .repeated
  · obtain ⟨items, rfl, hi⟩ := hh.items hr
    exact .inl (hi e he)
  · rcases hh.element hr with ha | ⟨-, hz⟩
    · rw [Value.elements_of_admissible ha, List.mem_singleton] at he
      exact .inl (he ▸ ha)
    · rw [Kind.elements_of_zero? hz, List.mem_singleton] at he
      exact .inr (he ▸ hz)

theorem Conforms.kind_of_contains (h : m.Conforms s) {k : Message} (hc : m.Contains (.message k)) :
    ∃ f ∈ (m.messageType s).fields, f.kind = .message k.type := by
  obtain ⟨f, hf, ha | hz⟩ := h.admissible_of_contains hc
  · refine ⟨f, hf, ?_⟩
    cases hk : f.kind with
    | message name => rw [hk] at ha; rw [show k.type = name from ha]
    | _ => rw [hk] at ha; cases ha
  · exact absurd hz (Kind.zero?_ne_message k)

theorem Conforms.valid_inner (h : m.Conforms s) (valid : s.Valid m.type) {k : Message}
    (hc : m.Contains (.message k)) : s.Valid k.type := by
  obtain ⟨f, hf, hk⟩ := h.kind_of_contains hc
  exact valid.nested hf hk

theorem set_eq_ok (h : m.set s n v = .ok m') :
    ∃ f ∈ (m.messageType s).fields, f.accepts v = true ∧ m' = m.store s f (f.normalized v) := by
  unfold set at h
  split at h
  · cases h
  · next f hf =>
      split at h
      · next ha => cases h; exact ⟨f, (MessageType.field?_eq_some hf).1, ha, rfl⟩
      · cases h

theorem push_eq_ok (h : m.push s n v = .ok m') :
    ∃ f ∈ (m.messageType s).fields, f.cardinality = .repeated ∧ v.fits f.kind = true ∧
      m' = m.append f (v.normalized f.kind) := by
  unfold push at h
  split at h
  · cases h
  · next f hf =>
      split at h
      · next hr =>
          split at h
          · next hv =>
              cases h
              exact ⟨f, (MessageType.field?_eq_some hf).1, Field.isRepeated_iff.1 hr, hv, rfl⟩
          · cases h
      · cases h

theorem Conforms.contains_message_of_completed (h : m.Conforms s) (valid : s.Valid m.type)
    {inner : Message} (hc : (m.completed s).Contains (.message inner)) :
    ∃ k, m.Contains (.message k) ∧ inner = k.completed s := by
  rcases contains_of_completed h.ascending hc with ⟨w, hw, he⟩ | hz
  · cases w with
    | message k =>
        rw [Value.completed] at he
        cases he
        exact ⟨k, hw, rfl⟩
    | list items => rw [Value.completed] at he; cases he
    | _ => cases he
  · obtain ⟨kind, hz⟩ := contains_of_zero valid.check hz
    exact absurd hz (Kind.zero?_ne_message inner)

theorem Sound.completed (h : m.Sound s) (valid : s.Valid m.type) : (m.completed s).Sound s := by
  intro depth k hk
  generalize hc : m.completed s = c at hk
  induction hk generalizing m with
  | self => exact hc ▸ h.conforms.completed valid.check
  | inside stored _ ih =>
      subst hc
      obtain ⟨inner, hi, he⟩ := h.conforms.contains_message_of_completed valid stored
      exact ih (h.inner hi) (h.conforms.valid_inner valid hi) he.symm

theorem Built.sound (h : Built s m) (valid : s.Valid m.type) : m.Sound s := by
  induction h with
  | new type =>
      rw [type_zero, Schema.name_find] at valid
      refine sound_iff.2 ⟨.zero valid.check, fun k hc => ?_⟩
      obtain ⟨kind, hz⟩ := contains_of_zero valid.check hc
      exact absurd hz (Kind.zero?_ne_message k)
  | empty type => exact sound_iff.2 ⟨.empty s type, fun k hc => absurd hc not_contains_empty⟩
  | @set m m' n v _ messages instants done ih ihv =>
      obtain ⟨f, hf, ha, rfl⟩ := set_eq_ok done
      rw [type_store] at valid
      have hm := ih valid
      have hs := hm.conforms.store valid.check hf (Field.holds_of_accepts ha instants)
      refine sound_iff.2 ⟨hs, fun k hc => ?_⟩
      rcases contains_of_store hm.conforms.ascending hc with hold | hnew
      · exact hm.inner hold
      · refine ihv k (Field.mem_elements_of_normalized hnew) (hs.valid_inner ?_ hc)
        rwa [type_store]
  | @push m m' n v _ messages instants done ih ihv =>
      obtain ⟨f, hf, hr, ha, rfl⟩ := push_eq_ok done
      rw [type_append] at valid
      have hm := ih valid
      have hn : (v.normalized f.kind).Admissible f.kind :=
        Value.admissible_of_fits ha fun t ht =>
          instants t (by rw [ht]; exact List.mem_singleton_self _)
      have hs := hm.conforms.append valid.check hf hr hn
      refine sound_iff.2 ⟨hs, fun k hc => ?_⟩
      rcases contains_of_append hc with hold | hnew
      · exact hm.inner hold
      · have hv : v = .message k := Value.eq_message_of_normalized hnew.symm
        subst hv
        refine ihv k (List.mem_singleton_self _) (hs.valid_inner ?_ hc)
        rwa [type_append]
  | @clear m _ n ih =>
      have hm := ih valid
      exact sound_iff.2 ⟨hm.conforms.clear n, fun k hc =>
        hm.inner (contains_of_clear hm.conforms.ascending hc)⟩
  | @completed m _ ih =>
      rw [type_completed] at valid
      exact (ih valid).completed valid

end Message

end SchemaRpc
