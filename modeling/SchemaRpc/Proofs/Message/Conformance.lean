import SchemaRpc.Proofs.Message.Nesting
import SchemaRpc.Proofs.Timestamp

namespace SchemaRpc

def Value.Admissible : Value → Kind → Prop
  | .bool _, .scalar .bool => True
  | .int32 _, .scalar .int32 => True
  | .uint32 _, .scalar .uint32 => True
  | .integer _, .scalar .int64 => True
  | .integer n, .scalar .uint64 => 0 ≤ n.toInt
  | .float _, .scalar .float => True
  | .double _, .scalar .double => True
  | .string _, .scalar .string => True
  | .bytes _, .scalar .bytes => True
  | .enumeration n, .enumeration e => e.declares n = true ∨ n = EnumType.unrecognized
  | .timestamp t, .timestamp => t.truncated = t ∧ t.InCalendar
  | .message m, .message name => m.type = name
  | _, _ => False

/-- The value suits the field's kind and cardinality. A single enum field starts from zero, whether
that is declared or not. -/
def Field.Holds (f : Field) (v : Value) : Prop :=
  match f.cardinality with
  | .repeated => ∃ items, v = .list items ∧ ∀ e ∈ items, e.Admissible f.kind
  | .single => v.Admissible f.kind ∨ f.kind.zero? = some v
  | .optionalGroup _ => v.Admissible f.kind

structure Message.Conforms (s : Schema) (m : Message) : Prop where
  ascending : m.Ascending
  declared : ∀ n v, m.get? n = some v → ∃ f ∈ (m.messageType s).fields, f.number = n ∧ f.Holds v
  exclusive : ∀ group, ∀ f ∈ (m.messageType s).groupMembers group,
    ∀ g ∈ (m.messageType s).groupMembers group,
      m.has f.number = true → m.has g.number = true → f.number = g.number

theorem Instant.inCalendar_truncated {t : Instant} (h : t.InCalendar) : t.truncated.InCalendar := by
  unfold truncated
  split
  · next hm =>
      have hl : t.millis ≤ 8210266876799999 := hm
      obtain ⟨hlow, -⟩ := h
      have : (ofMillis t.millis).seconds = t.millis / 1000 := rfl
      unfold InCalendar
      rw [this]
      unfold millis at hl ⊢
      omega
  · exact h

theorem EnumType.normalize_of_stored {e : EnumType} {n : Int32}
    (h : e.declares n = true ∨ n = unrecognized) : e.normalize n = n := by
  rcases h with h | rfl
  · exact normalize_of_declares h
  · rw [normalize, ite_self]

namespace Value

variable {v : Value} {k : Kind}

theorem admissible_of_fits (h : v.fits k = true) (hc : ∀ t, v = .timestamp t → t.InCalendar) :
    (v.normalized k).Admissible k := by
  unfold fits at h
  split at h
  case h_5 n => exact (of_decide_eq_true h : 0 ≤ n.toInt)
  case h_10 e n => exact EnumType.normalize_eq _ _
  case h_11 t => exact ⟨t.truncated_truncated, Instant.inCalendar_truncated (hc t rfl)⟩
  case h_12 m name => exact eq_of_beq h
  case h_13 => cases h
  all_goals trivial

theorem elements_of_admissible (h : v.Admissible k) : v.elements = [v] := by
  cases v with
  | list items => cases h
  | _ => rfl

theorem Admissible.completed (h : v.Admissible k) (s : Schema) : (v.completed s).Admissible k := by
  cases v with
  | message m =>
      cases k with
      | message name =>
          rw [Value.completed]
          exact (Message.type_completed s m).trans h
      | _ => cases h
  | list items => cases h
  | _ => exact h

theorem eq_message_of_normalized {m : Message} (h : v.normalized k = .message m) :
    v = .message m := by
  unfold normalized at h
  split at h
  · cases h
  · cases h
  · exact h

theorem normalized_list (items : List Value) (k : Kind) :
    (list items).normalized k = list items := by
  cases k <;> rfl

theorem exists_of_mem_normalized {e : Value} (h : e ∈ (v.normalized k).elements) :
    ∃ x ∈ v.elements, e = x ∨ e = x.normalized k := by
  cases v with
  | list items =>
      rw [normalized_list] at h
      exact ⟨e, h, .inl rfl⟩
  | _ =>
      refine ⟨_, List.mem_singleton_self _, .inr ?_⟩
      cases k <;> exact List.mem_singleton.1 h

theorem mem_elements_of_normalized {m : Message} (h : .message m ∈ (v.normalized k).elements) :
    .message m ∈ v.elements := by
  cases v with
  | list items => rwa [normalized_list] at h
  | enumeration n => cases k <;> first | exact h | cases List.mem_singleton.1 h
  | timestamp t => cases k <;> first | exact h | cases List.mem_singleton.1 h
  | _ => exact h

end Value

namespace Field

variable {f : Field} {v : Value}

theorem group?_of_repeated (h : f.cardinality = .repeated) : f.group? = none := by
  rw [group?, h]

theorem isRepeated_iff : f.isRepeated = true ↔ f.cardinality = .repeated :=
  decide_eq_true_iff

theorem holds_of_admissible (hf : f.cardinality ≠ .repeated) (h : v.Admissible f.kind) :
    f.Holds v := by
  unfold Holds
  split
  · next hc => exact absurd hc hf
  · exact .inl h
  · exact h

theorem holds_of_repeated {items : List Value} (hf : f.cardinality = .repeated)
    (h : ∀ e ∈ items, e.Admissible f.kind) : f.Holds (.list items) := by
  unfold Holds
  rw [hf]
  exact ⟨items, rfl, h⟩

theorem Holds.items (h : f.Holds v) (hf : f.cardinality = .repeated) :
    ∃ items, v = .list items ∧ ∀ e ∈ items, e.Admissible f.kind := by
  unfold Holds at h
  rwa [hf] at h

theorem Holds.element (h : f.Holds v) (hf : f.cardinality ≠ .repeated) :
    v.Admissible f.kind ∨ f.cardinality = .single ∧ f.kind.zero? = some v := by
  unfold Holds at h
  split at h
  · next hc => exact absurd hc hf
  · next hc => exact h.imp_right fun hz => ⟨hc, hz⟩
  · exact .inl h

theorem holds_of_accepts (h : f.accepts v = true)
    (hc : ∀ t, .timestamp t ∈ v.elements → t.InCalendar) : f.Holds (f.normalized v) := by
  unfold accepts at h
  split at h
  · next items =>
      obtain ⟨hr, ha⟩ := Bool.and_eq_true_iff.1 h
      have hr := isRepeated_iff.1 hr
      have hn : f.normalized (.list items) = .list (items.map (·.normalized f.kind)) := by
        rw [normalized]
        exact hr
      rw [hn]
      refine holds_of_repeated hr fun e he => ?_
      obtain ⟨x, hx, rfl⟩ := List.mem_map.1 he
      exact Value.admissible_of_fits (List.all_eq_true.1 ha x hx) fun t ht => hc t (ht ▸ hx)
  · next hl =>
      obtain ⟨hr, ha⟩ := Bool.and_eq_true_iff.1 h
      have hr : f.cardinality ≠ .repeated := fun hf => by simp [isRepeated, hf] at hr
      have hn : f.normalized v = v.normalized f.kind := by
        unfold normalized
        split
        · next hf => exact absurd hf hr
        · rfl
      rw [hn]
      refine holds_of_admissible hr (Value.admissible_of_fits ha fun t ht => hc t ?_)
      rw [ht]
      exact List.mem_singleton_self _

theorem mem_elements_of_normalized {m : Message} (h : .message m ∈ (f.normalized v).elements) :
    .message m ∈ v.elements := by
  unfold normalized at h
  split at h
  · next items =>
      obtain ⟨x, hx, he⟩ := List.mem_map.1 h
      exact Value.eq_message_of_normalized he ▸ hx
  · exact Value.mem_elements_of_normalized h

theorem exists_of_mem_normalized {e : Value} (h : e ∈ (f.normalized v).elements) :
    ∃ x ∈ v.elements, e = x ∨ e = x.normalized f.kind := by
  unfold normalized at h
  split at h
  · next items =>
      obtain ⟨x, hx, rfl⟩ := List.mem_map.1 h
      exact ⟨x, hx, .inr rfl⟩
  · exact Value.exists_of_mem_normalized h

theorem Holds.completed (h : f.Holds v) (s : Schema) : f.Holds (v.completed s) := by
  by_cases hf : f.cardinality = .repeated
  · obtain ⟨items, rfl, hi⟩ := h.items hf
    rw [Value.completed, Message.completedItems_eq]
    refine holds_of_repeated hf fun e he => ?_
    obtain ⟨x, hx, rfl⟩ := List.mem_map.1 he
    exact (hi x hx).completed s
  · rcases h.element hf with ha | ⟨-, hz⟩
    · exact holds_of_admissible hf (ha.completed s)
    · rwa [Kind.completed_of_zero? hz]

end Field

namespace Message

variable {s : Schema} {m : Message} {f : Field} {v : Value}

theorem has_eq_true_iff {n : Nat} : m.has n = true ↔ ∃ v, m.get? n = some v :=
  Option.isSome_iff_exists

theorem mem_groupMembers {t : MessageType} {group : String} :
    f ∈ t.groupMembers group ↔ f ∈ t.fields ∧ f.group? = some group := by
  rw [MessageType.groupMembers, List.mem_filter, beq_iff_eq]

theorem initial?_of_group {group : String} (h : f.group? = some group) : initial? f = none := by
  rw [initial?]
  cases hc : f.cardinality with
  | optionalGroup group => rfl
  | _ => rw [Field.group?, hc] at h; cases h

theorem messageType_store : (m.store s f v).messageType s = m.messageType s := by
  rw [messageType, type_store, messageType]

theorem messageType_append : (m.append f v).messageType s = m.messageType s := by
  rw [messageType, type_append, messageType]

theorem messageType_zero (type : String) : (zero (s.find type)).messageType s = s.find type := by
  rw [messageType, type_zero, Schema.name_find]

theorem messageType_completed : (m.completed s).messageType s = m.messageType s := by
  rw [messageType, type_completed, messageType]

theorem get?_zero_of_group {t : MessageType} {group : String} (check : t.check = .ok ())
    (hf : f ∈ t.groupMembers group) : (zero t).get? f.number = none := by
  obtain ⟨hmem, hg⟩ := mem_groupMembers.1 hf
  rw [get?_zero_of_mem check hmem, initial?_of_group hg]

namespace Conforms

theorem get?_rival {group : String} {g : Field} (h : m.Conforms s)
    (hf : f ∈ (m.messageType s).groupMembers group) (hg : g ∈ (m.messageType s).groupMembers group)
    (hh : m.has f.number = true) (hne : g.number ≠ f.number) : m.get? g.number = none := by
  cases hv : m.get? g.number with
  | none => rfl
  | some v => exact absurd (h.exclusive group g hg f hf (has_eq_true_iff.2 ⟨v, hv⟩) hh) hne

theorem empty (s : Schema) (type : String) : (Message.empty type).Conforms s where
  ascending := ascending_empty type
  declared := fun n v hv => by cases hv
  exclusive := fun group f _ g _ hf => by cases hf

theorem zero {type : String} (h : (s.find type).check = .ok ()) :
    (Message.zero (s.find type)).Conforms s where
  ascending := ascending_zero _
  declared := by
    intro n v hv
    rw [get?_zero h] at hv
    obtain ⟨f, hf, hi⟩ := Option.bind_eq_some_iff.1 hv
    obtain ⟨hmem, hn⟩ := MessageType.field?_eq_some hf
    refine ⟨f, by rwa [messageType_zero], hn, ?_⟩
    rw [Field.Holds]
    rcases initial?_eq_some hi with ⟨hc, hz⟩ | ⟨hc, rfl⟩
    · rw [hc]
      exact .inr hz
    · rw [hc]
      exact ⟨[], rfl, fun e he => by cases he⟩
  exclusive := by
    intro group f hf g _ hh
    rw [messageType_zero] at hf
    obtain ⟨v, hv⟩ := has_eq_true_iff.1 hh
    rw [get?_zero_of_group h hf] at hv
    cases hv

theorem holds (h : m.Conforms s) (check : (m.messageType s).check = .ok ())
    (hf : f ∈ (m.messageType s).fields) (hv : m.get? f.number = some v) : f.Holds v := by
  obtain ⟨g, hg, hn, hh⟩ := h.declared _ _ hv
  exact MessageType.eq_of_number check hg hf hn ▸ hh

theorem store (h : m.Conforms s) (check : (m.messageType s).check = .ok ())
    (hf : f ∈ (m.messageType s).fields) (hv : f.Holds v) : (m.store s f v).Conforms s where
  ascending := h.ascending.store s f v
  declared := by
    intro n w hw
    rw [messageType_store]
    rw [get?_store s h.ascending] at hw
    split at hw
    · next hn => cases hw; exact ⟨f, hf, hn.symm, hv⟩
    · split at hw
      · cases hw
      · exact h.declared n w hw
  exclusive := by
    intro group x hx y hy hhx hhy
    rw [messageType_store] at hx hy
    obtain ⟨hmx, hgx⟩ := mem_groupMembers.1 hx
    obtain ⟨hmy, hgy⟩ := mem_groupMembers.1 hy
    -- a member beside the stored one has been cleared
    have clear : ∀ z ∈ (m.messageType s).fields, z.group? = some group → f.group? = some group →
        (m.store s f v).has z.number = true → z.number = f.number := by
      intro z hz hgz hgf hhz
      refine Decidable.byContradiction fun hne => ?_
      obtain ⟨w, hw⟩ := has_eq_true_iff.1 hhz
      have hs : ∃ g ∈ m.siblings s f, g.number = z.number :=
        ⟨z, (mem_siblings s).2 ⟨hz, by rw [hgf]; rfl, by rw [hgz, hgf], hne⟩, rfl⟩
      rw [get?_store s h.ascending, if_neg hne, if_pos hs] at hw
      cases hw
    by_cases hgf : f.group? = some group
    · rw [clear x hmx hgx hgf hhx, clear y hmy hgy hgf hhy]
    · have old : ∀ z ∈ (m.messageType s).fields, z.group? = some group →
          (m.store s f v).has z.number = true → m.has z.number = true := by
        intro z hz hgz hhz
        obtain ⟨w, hw⟩ := has_eq_true_iff.1 hhz
        rw [get?_store s h.ascending] at hw
        split at hw
        · next hn => exact absurd (MessageType.eq_of_number check hz hf hn ▸ hgz) hgf
        · split at hw
          · cases hw
          · exact has_eq_true_iff.2 ⟨w, hw⟩
      exact h.exclusive group x hx y hy (old x hmx hgx hhx) (old y hmy hgy hhy)

theorem admissible_appended (h : m.Conforms s) (check : (m.messageType s).check = .ok ())
    (hf : f ∈ (m.messageType s).fields) (hr : f.cardinality = .repeated)
    (hv : v.Admissible f.kind) : ∀ e ∈ m.appended f v, e.Admissible f.kind := by
  intro e he
  unfold appended at he
  split at he
  · next items hi =>
      cases List.mem_append.1 he with
      | inl he =>
          obtain ⟨_, hl, ha⟩ := (h.holds check hf hi).items hr
          cases hl
          exact ha e he
      | inr he => exact List.mem_singleton.1 he ▸ hv
  · exact List.mem_singleton.1 he ▸ hv

theorem append (h : m.Conforms s) (check : (m.messageType s).check = .ok ())
    (hf : f ∈ (m.messageType s).fields) (hr : f.cardinality = .repeated)
    (hv : v.Admissible f.kind) : (m.append f v).Conforms s where
  ascending := h.ascending.append f v
  declared := by
    intro n w hw
    rw [messageType_append]
    rw [append_eq, get?_insert] at hw
    split at hw
    · next hn =>
        cases hw
        exact ⟨f, hf, hn.symm, Field.holds_of_repeated hr (h.admissible_appended check hf hr hv)⟩
    · exact h.declared n w hw
  exclusive := by
    intro group x hx y hy hhx hhy
    rw [messageType_append] at hx hy
    have old : ∀ z ∈ (m.messageType s).groupMembers group,
        (m.append f v).has z.number = true → m.has z.number = true := by
      intro z hz hhz
      obtain ⟨hmz, hgz⟩ := mem_groupMembers.1 hz
      obtain ⟨w, hw⟩ := has_eq_true_iff.1 hhz
      rw [append_eq, get?_insert] at hw
      split at hw
      · next hn =>
          rw [MessageType.eq_of_number check hmz hf hn, Field.group?_of_repeated hr] at hgz
          cases hgz
      · exact has_eq_true_iff.2 ⟨w, hw⟩
    exact h.exclusive group x hx y hy (old x hx hhx) (old y hy hhy)

theorem clear (h : m.Conforms s) (n : Nat) : (m.clear n).Conforms s where
  ascending := h.ascending.clear n
  declared := by
    intro k w hw
    rw [get?_clear h.ascending] at hw
    split at hw
    · cases hw
    · exact h.declared k w hw
  exclusive := by
    intro group x hx y hy hhx hhy
    have old : ∀ k, (m.clear n).has k = true → m.has k = true := by
      intro k hk
      obtain ⟨w, hw⟩ := has_eq_true_iff.1 hk
      rw [get?_clear h.ascending] at hw
      split at hw
      · cases hw
      · exact has_eq_true_iff.2 ⟨w, hw⟩
    exact h.exclusive group x hx y hy (old _ hhx) (old _ hhy)

theorem completed (h : m.Conforms s) (check : (m.messageType s).check = .ok ()) :
    (m.completed s).Conforms s where
  ascending := ascending_completed s m
  declared := by
    intro n w hw
    rw [messageType_completed]
    rw [get?_completed s h.ascending] at hw
    cases hm : m.get? n with
    | none =>
        rw [hm] at hw
        have := (Conforms.zero check).declared n w hw
        rwa [messageType_zero] at this
    | some v =>
        rw [hm] at hw
        cases hw
        obtain ⟨f, hf, hn, hh⟩ := h.declared n v hm
        exact ⟨f, hf, hn, hh.completed s⟩
  exclusive := by
    intro group x hx y hy hhx hhy
    rw [messageType_completed] at hx hy
    have old : ∀ z ∈ (m.messageType s).groupMembers group,
        (m.completed s).has z.number = true → m.has z.number = true := by
      intro z hz hhz
      obtain ⟨w, hw⟩ := has_eq_true_iff.1 hhz
      cases hm : m.get? z.number with
      | some v => exact has_eq_true_iff.2 ⟨v, hm⟩
      | none =>
          rw [get?_completed s h.ascending, hm] at hw
          change (Message.zero (m.messageType s)).get? z.number = some w at hw
          rw [get?_zero_of_group check hz] at hw
          cases hw
    exact h.exclusive group x hx y hy (old x hx hhx) (old y hy hhy)

end Conforms

end Message

end SchemaRpc
