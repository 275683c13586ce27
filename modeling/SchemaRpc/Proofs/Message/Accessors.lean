import SchemaRpc.Proofs.Message.Completeness

namespace SchemaRpc.Message

section Reading

variable (m : Message) (f : Field)

def readingOf : Kind → Option Value
  | .scalar .bool => some (.bool (m.boolAt f.number))
  | .scalar .int32 => some (.int32 (m.int32At f.number))
  | .scalar .uint32 => some (.uint32 (m.uint32At f.number))
  | .scalar .int64 | .scalar .uint64 => some (.integer (m.integerAt f.number))
  | .scalar .float => some (.float (m.floatAt f.number))
  | .scalar .double => some (.double (m.doubleAt f.number))
  | .scalar .string => some (.string (m.stringAt f.number))
  | .scalar .bytes => some (.bytes (m.bytesAt f.number))
  | .enumeration _ => some (.enumeration (m.enumAt f.number))
  | .timestamp => (m.timestampAt? f.number).map .timestamp
  | .message _ => (m.messageAt? f.number).map .message

def itemsOf : Kind → List Value
  | .scalar .string => (m.stringsAt f.number).map .string
  | .message _ => (m.messagesAt f.number).map .message
  | _ => m.itemsAt f.number

def reading : Option Value :=
  match f.cardinality with
  | .repeated => some (.list (m.itemsOf f f.kind))
  | .single => m.readingOf f f.kind
  | .optionalGroup _ => if m.has f.number then m.readingOf f f.kind else none

end Reading

variable {s : Schema} {m : Message} {f : Field} {v : Value} {k : Kind} {items : List Value}

theorem readingOf_of_admissible (hv : m.get? f.number = some v) (ha : v.Admissible k) :
    m.readingOf f k = some v := by
  unfold Value.Admissible at ha
  split at ha
  case h_13 => cases ha
  all_goals simp [readingOf, boolAt, int32At, uint32At, integerAt, floatAt, doubleAt, stringAt,
    bytesAt, enumAt, timestampAt?, messageAt?, hv]

theorem stringsAt_of_admissible (hv : m.get? f.number = some (.list items))
    (ha : ∀ e ∈ items, e.Admissible (.scalar .string)) :
    (m.stringsAt f.number).map .string = items := by
  rw [stringsAt, itemsAt, hv]
  clear hv
  induction items with
  | nil => rfl
  | cons e rest ih =>
      obtain ⟨he, hrest⟩ := List.forall_mem_cons.1 ha
      cases e with
      | string text => exact congrArg (List.cons _) (ih hrest)
      | _ => cases he

theorem messagesAt_of_admissible {type : String} (hv : m.get? f.number = some (.list items))
    (ha : ∀ e ∈ items, e.Admissible (.message type)) :
    (m.messagesAt f.number).map .message = items := by
  rw [messagesAt, itemsAt, hv]
  clear hv
  induction items with
  | nil => rfl
  | cons e rest ih =>
      obtain ⟨he, hrest⟩ := List.forall_mem_cons.1 ha
      cases e with
      | message k => exact congrArg (List.cons _) (ih hrest)
      | _ => cases he

theorem itemsOf_of_admissible (hv : m.get? f.number = some (.list items))
    (ha : ∀ e ∈ items, e.Admissible k) : m.itemsOf f k = items := by
  unfold itemsOf
  split
  · exact stringsAt_of_admissible hv ha
  · exact messagesAt_of_admissible hv ha
  · rw [itemsAt, hv]

theorem readingOf_of_zero? (hv : m.get? f.number = some v) (hz : k.zero? = some v) :
    m.readingOf f k = some v := by
  cases k with
  | scalar c =>
      refine readingOf_of_admissible hv ?_
      cases c <;> cases hz <;> first | trivial | exact Int.le_refl 0
  | enumeration e => cases hz; simp [readingOf, enumAt, hv]
  | _ => cases hz

theorem get?_eq_reading (h : m.Complete s) (check : (m.messageType s).check = .ok ())
    (hf : f ∈ (m.messageType s).fields) : m.get? f.number = m.reading f := by
  cases hv : m.get? f.number with
  | some v =>
      have hh := h.holds check hf hv
      unfold reading
      split
      · next hc =>
          obtain ⟨items, rfl, hi⟩ := hh.items hc
          rw [itemsOf_of_admissible hv hi]
      · next hc =>
          rcases hh.element (by simp [hc]) with ha | ⟨-, hz⟩
          · exact (readingOf_of_admissible hv ha).symm
          · exact (readingOf_of_zero? hv hz).symm
      · next hc =>
          rcases hh.element (by simp [hc]) with ha | ⟨hs, -⟩
          · rw [has, hv, readingOf_of_admissible hv ha]
            rfl
          · rw [hs] at hc
            cases hc
  | none =>
      have absent : ¬(f.cardinality = .repeated ∨
          f.cardinality = .single ∧ f.kind.isMessageLike = false) := fun hi => by
        have := h.present f hf hi
        rw [has, hv] at this
        cases this
      rw [not_or, not_and] at absent
      unfold reading
      split
      · next hc => exact absurd hc absent.1
      · next hc =>
          have hk := absent.2 hc
          cases hkind : f.kind with
          | timestamp => simp [readingOf, timestampAt?, hv]
          | message type => simp [readingOf, messageAt?, hv]
          | _ => rw [hkind] at hk; exact absurd rfl hk
      · rw [has, hv]
        rfl

section Kinds

variable (h : m.Conforms s) (check : (m.messageType s).check = .ok ())
  (hf : f ∈ (m.messageType s).fields)

include h check hf

theorem enumAt_cases {e : EnumType} (hk : f.kind = .enumeration e) :
    e.declares (m.enumAt f.number) = true ∨ m.enumAt f.number = EnumType.unrecognized ∨
      m.enumAt f.number = 0 := by
  cases hv : m.get? f.number with
  | none => exact .inr (.inr (by rw [enumAt, hv]))
  | some v =>
      cases v with
      | enumeration n =>
          rw [enumAt, hv]
          have hh := h.holds check hf hv
          unfold Field.Holds at hh
          split at hh
          · obtain ⟨items, hi, -⟩ := hh
            cases hi
          · rcases hh with ha | hz
            · rw [hk] at ha
              exact Or.imp_right .inl ha
            · rw [hk] at hz
              cases hz
              exact .inr (.inr rfl)
          · rw [hk] at hh
            exact Or.imp_right .inl hh
      | _ => exact .inr (.inr (by rw [enumAt, hv]))

theorem integerAt_nonneg (hk : f.kind = .scalar .uint64) : 0 ≤ (m.integerAt f.number).toInt := by
  cases hv : m.get? f.number with
  | none => rw [integerAt, hv]; exact Int.le_refl 0
  | some v =>
      cases v with
      | integer n =>
          rw [integerAt, hv]
          have hh := h.holds check hf hv
          unfold Field.Holds at hh
          rw [hk] at hh
          split at hh
          · obtain ⟨items, hi, -⟩ := hh
            cases hi
          · rcases hh with ha | hz
            · exact ha
            · cases hz
              exact Int.le_refl 0
          · exact hh
      | _ => rw [integerAt, hv]; exact Int.le_refl 0

theorem type_of_messagesAt {type : String} (hr : f.cardinality = .repeated)
    (hk : f.kind = .message type) {k : Message} (hm : k ∈ m.messagesAt f.number) : k.type = type := by
  obtain ⟨v, hv, hvk⟩ := List.mem_filterMap.1 hm
  unfold itemsAt at hv
  split at hv
  · next items hi =>
      obtain ⟨_, he, ha⟩ := (h.holds check hf hi).items hr
      cases he
      have := ha v hv
      rw [hk] at this
      cases v with
      | message x => cases hvk; exact this
      | _ => cases hvk
  · cases hv

end Kinds

theorem timestampAt?_eq {n : Nat} {t : Option Instant} (h : m.get? n = t.map .timestamp) :
    m.timestampAt? n = t := by
  rw [timestampAt?, h]
  cases t <;> rfl

theorem stringsAt_eq {n : Nat} {texts : List String}
    (h : m.get? n = some (.list (texts.map .string))) : m.stringsAt n = texts := by
  rw [stringsAt, itemsAt, h]
  clear h
  induction texts with
  | nil => rfl
  | cons text rest ih => exact congrArg (List.cons text) ih

theorem messagesAt_eq {n : Nat} {ks : List Message}
    (h : m.get? n = some (.list (ks.map .message))) : m.messagesAt n = ks := by
  rw [messagesAt, itemsAt, h]
  clear h
  induction ks with
  | nil => rfl
  | cons k rest ih => exact congrArg (List.cons k) ih

theorem contains_of_timestampAt? {n : Nat} {t : Instant} (h : m.timestampAt? n = some t) :
    m.Contains (.timestamp t) := by
  unfold timestampAt? at h
  split at h
  · next hv =>
      cases h
      exact ⟨n, _, hv, List.mem_singleton_self _⟩
  · cases h

theorem contains_of_messagesAt {n : Nat} {k : Message} (h : k ∈ m.messagesAt n) :
    m.Contains (.message k) := by
  obtain ⟨v, hv, hk⟩ := List.mem_filterMap.1 h
  unfold itemsAt at hv
  split at hv
  · next items hi =>
      cases v with
      | message x => cases hk; exact ⟨n, _, hi, hv⟩
      | _ => cases hk
  · cases hv

theorem which?_eq_some {group : String} (h : m.Conforms s) (check : (m.messageType s).check = .ok ())
    (hf : f ∈ (m.messageType s).groupMembers group) (hh : m.has f.number = true) :
    m.which? s group = some f := by
  cases hw : m.which? s group with
  | none => exact absurd hh (List.find?_eq_none.1 hw f hf)
  | some g =>
      have hg := List.mem_of_find?_eq_some hw
      have hset : m.has g.number = true := by simpa using List.find?_some hw
      have hn := h.exclusive group g hg f hf hset hh
      rw [MessageType.eq_of_number check (mem_groupMembers.1 hg).1 (mem_groupMembers.1 hf).1 hn]

theorem which?_eq_none {group : String}
    (h : ∀ f ∈ (m.messageType s).groupMembers group, m.get? f.number = none) :
    m.which? s group = none := by
  refine List.find?_eq_none.2 fun f hf => ?_
  rw [has, h f hf]
  exact Bool.false_ne_true

theorem of_which? {group : String} (h : m.Conforms s) (hw : m.which? s group = some f) :
    f ∈ (m.messageType s).groupMembers group ∧ m.has f.number = true ∧
      ∀ g ∈ (m.messageType s).groupMembers group, g.number ≠ f.number → m.get? g.number = none := by
  have hf := List.mem_of_find?_eq_some hw
  have hh : m.has f.number = true := by simpa using List.find?_some hw
  exact ⟨hf, hh, fun g hg hne => h.get?_rival hf hg hh hne⟩

theorem of_which?_none {group : String} (hw : m.which? s group = none) :
    ∀ f ∈ (m.messageType s).groupMembers group, m.get? f.number = none := fun f hf =>
  Option.not_isSome_iff_eq_none.1 (List.find?_eq_none.1 hw f hf)

end SchemaRpc.Message
