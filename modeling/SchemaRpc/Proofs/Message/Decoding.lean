import SchemaRpc.Proofs.Message.Completeness
import SchemaRpc.Proofs.Message.RoundTrip

namespace SchemaRpc

theorem Timestamp.inRange_of_toInstant {w : Timestamp} {t : Instant} (h : w.toInstant = .ok t) :
    t = .ofMillis t.millis ∧ t.InRange := by
  unfold toInstant at h
  split at h
  · cases h
  · next hs =>
      split at h
      · cases h
      · next hn =>
          cases h
          simp only [Instant.InRange, Instant.millis_ofMillis, minSeconds, maxSeconds, maxNanos]
            at hs hn ⊢
          refine ⟨trivial, ?_⟩
          omega

theorem Instant.inCalendar_of_inRange {t : Instant} (hm : t = .ofMillis t.millis)
    (h : t.InRange) : t.InCalendar := by
  have hs : t.seconds = t.millis / 1000 := congrArg Instant.seconds hm
  unfold InRange Timestamp.minSeconds Timestamp.maxSeconds at h
  unfold InCalendar
  omega

theorem Kind.admissible_of_element {nested : String → Bytes → Except Error Message} {k : Kind}
    {p : Payload} {v : Value}
    (typed : ∀ name body m, k = .message name → nested name body = .ok m → m.type = name)
    (h : k.element nested p = .ok v) :
    v.Admissible k ∧ (∀ t, v = .timestamp t → t = .ofMillis t.millis ∧ t.InRange) ∧
      ∀ m, v = .message m → ∃ body, k = .message m.type ∧ nested m.type body = .ok m := by
  unfold element at h
  split at h
  case h_4 w =>
    cases hw : SafeInt.ofSigned w with
    | error e => rw [hw] at h; cases h
    | ok n => rw [hw] at h; cases h; exact ⟨trivial, nofun, nofun⟩
  case h_5 w =>
    cases hw : SafeInt.ofUnsigned w with
    | error e => rw [hw] at h; cases h
    | ok n =>
        rw [hw] at h
        cases h
        have hn : n.toInt = w.toNat := SafeInt.ofInt_eq_ok_iff.1 hw
        refine ⟨?_, nofun, nofun⟩
        show 0 ≤ n.toInt
        omega
  case h_8 body =>
    split at h
    · cases h
      exact ⟨trivial, nofun, nofun⟩
    · cases h
  case h_10 e w =>
    cases h
    exact ⟨EnumType.normalize_eq e _, nofun, nofun⟩
  case h_11 name body =>
    cases hm : nested name body with
    | error e => rw [hm] at h; cases h
    | ok m =>
        rw [hm] at h
        cases h
        refine ⟨typed name body m rfl hm, nofun, ?_⟩
        rintro _ ⟨⟩
        rw [typed name body m rfl hm]
        exact ⟨body, rfl, hm⟩
  case h_12 body =>
    cases hd : Timestamp.decode body with
    | error e => rw [hd] at h; cases h
    | ok w =>
        rw [hd] at h
        change Except.bind _ _ = _ at h
        rw [Except.bind] at h
        cases ht : w.toInstant with
        | error e => rw [ht] at h; cases h
        | ok t =>
            rw [ht] at h
            cases h
            have hr := Timestamp.inRange_of_toInstant ht
            refine ⟨⟨?_, Instant.inCalendar_of_inRange hr.1 hr.2⟩, ?_, nofun⟩
            · rw [Instant.truncated_of_inRange hr.2]
              exact hr.1.symm
            · rintro _ ⟨⟩
              exact hr
  case h_13 => cases h
  all_goals
    cases h
    exact ⟨trivial, nofun, nofun⟩

namespace Message

structure WellFormed (s : Schema) (m : Message) : Prop extends m.Conforms s where
  present : ∀ f ∈ (m.messageType s).fields,
    f.cardinality = .repeated ∨ f.cardinality = .single ∧ f.kind.isMessageLike = false →
      m.has f.number = true
  integers : ∀ n, m.Contains (.integer n) →
    -9007199254740991 ≤ n.toInt ∧ n.toInt ≤ 9007199254740991
  instants : ∀ t, m.Contains (.timestamp t) → t = .ofMillis t.millis ∧ t.InRange

variable {s : Schema} {rule : GroupRule} {m m' : Message} {f : Field} {v : Value}

theorem WellFormed.complete (h : m.WellFormed s) : m.Complete s :=
  ⟨h.toConforms, h.present⟩

namespace WellFormed

theorem zero {type : String} (h : (s.find type).check = .ok ()) :
    (Message.zero (s.find type)).WellFormed s where
  toConforms := .zero h
  present := (Complete.zero h).present
  integers := fun n _ => ⟨n.lower, n.upper⟩
  instants := by
    intro t ht
    obtain ⟨k, hz⟩ := contains_of_zero h ht
    exact absurd hz (Kind.zero?_ne_timestamp t)

theorem store (h : m.WellFormed s) (check : (m.messageType s).check = .ok ())
    (hf : f ∈ (m.messageType s).fields) (hv : f.Holds v)
    (ht : ∀ t, .timestamp t ∈ v.elements → t = .ofMillis t.millis ∧ t.InRange) :
    (m.store s f v).WellFormed s where
  toConforms := h.toConforms.store check hf hv
  present := (h.complete.store check hf hv).present
  integers := fun n _ => ⟨n.lower, n.upper⟩
  instants := by
    intro t hc
    rcases contains_of_store h.ascending hc with hold | hnew
    · exact h.instants t hold
    · exact ht t hnew

theorem append (h : m.WellFormed s) (check : (m.messageType s).check = .ok ())
    (hf : f ∈ (m.messageType s).fields) (hr : f.cardinality = .repeated)
    (hv : v.Admissible f.kind)
    (ht : ∀ t, v = .timestamp t → t = .ofMillis t.millis ∧ t.InRange) :
    (m.append f v).WellFormed s where
  toConforms := h.toConforms.append check hf hr hv
  present := (h.complete.append check hf hr hv).present
  integers := fun n _ => ⟨n.lower, n.upper⟩
  instants := by
    intro t hc
    rcases contains_of_append hc with hold | hnew
    · exact h.instants t hold
    · exact ht t hnew.symm

end WellFormed

structure Taken (s : Schema) (levels : Nat) (type : String) (m : Message) : Prop where
  type : m.type = type
  wellFormed : m.WellFormed s
  inner : ∀ k, m.Contains (.message k) →
    ∀ depth x, Nested depth k x → depth < levels ∧ x.WellFormed s

variable {levels : Nat} {type : String}

theorem Taken.zero (valid : s.Valid type) : Taken s levels type (zero (s.find type)) where
  type := by rw [type_zero, Schema.name_find]
  wellFormed := .zero valid.check
  inner := by
    intro k hk
    obtain ⟨kind, hz⟩ := contains_of_zero valid.check hk
    exact absurd hz (Kind.zero?_ne_message k)

def ReadsWell (s : Schema) (levels : Nat) (nested : String → Bytes → Except Error Message) : Prop :=
  ∀ name body m, s.Valid name → nested name body = .ok m →
    m.type = name ∧ ∀ depth k, Nested depth m k → depth < levels ∧ k.WellFormed s

variable {nested : String → Bytes → Except Error Message}

theorem Taken.element {p : Payload} (h : Taken s levels type m) (valid : s.Valid type)
    (well : ReadsWell s levels nested) (hf : f ∈ (m.messageType s).fields)
    (hv : f.kind.element nested p = .ok v) :
    v.Admissible f.kind ∧ (∀ t, v = .timestamp t → t = .ofMillis t.millis ∧ t.InRange) ∧
      ∀ k, v = .message k → ∀ depth x, Nested depth k x → depth < levels ∧ x.WellFormed s := by
  have hvalid : ∀ name, f.kind = .message name → s.Valid name := by
    intro name hk
    rw [messageType, h.type] at hf
    exact valid.nested hf hk
  obtain ⟨ha, ht, hm⟩ := Kind.admissible_of_element
    (fun name body k hk hb => (well name body k (hvalid name hk) hb).1) hv
  refine ⟨ha, ht, fun k hk => ?_⟩
  obtain ⟨body, hkind, hb⟩ := hm k hk
  exact (well _ body k (hvalid _ hkind) hb).2

theorem Taken.append {p : Payload} (h : Taken s levels type m) (valid : s.Valid type)
    (well : ReadsWell s levels nested) (hf : f ∈ (m.messageType s).fields)
    (hr : f.cardinality = .repeated) (hv : f.kind.element nested p = .ok v) :
    Taken s levels type (m.append f v) := by
  obtain ⟨ha, ht, hi⟩ := h.element valid well hf hv
  have check : (m.messageType s).check = .ok () := by
    rw [messageType, h.type]
    exact valid.check
  constructor
  · rw [type_append, h.type]
  · exact h.wellFormed.append check hf hr ha ht
  · intro k hk
    rcases contains_of_append hk with hold | hnew
    · exact h.inner k hold
    · exact hi k hnew.symm

theorem Taken.store {p : Payload} (h : Taken s levels type m) (valid : s.Valid type)
    (well : ReadsWell s levels nested) (hf : f ∈ (m.messageType s).fields)
    (hr : f.cardinality ≠ .repeated) (hv : f.kind.element nested p = .ok v) :
    Taken s levels type (m.store s f v) := by
  obtain ⟨ha, ht, hi⟩ := h.element valid well hf hv
  have he := Value.elements_of_admissible ha
  have check : (m.messageType s).check = .ok () := by
    rw [messageType, h.type]
    exact valid.check
  constructor
  · rw [type_store, h.type]
  · refine h.wellFormed.store check hf (Field.holds_of_admissible hr ha) fun t hm => ?_
    rw [he, List.mem_singleton] at hm
    exact ht t hm.symm
  · intro k hk
    rcases contains_of_store h.wellFormed.ascending hk with hold | hnew
    · exact h.inner k hold
    · rw [he, List.mem_singleton] at hnew
      exact hi k hnew.symm

theorem Taken.absorb {r : Record} (h : Taken s levels type m) (valid : s.Valid type)
    (well : ReadsWell s levels nested) (ha : m.absorb s rule nested r = .ok m') :
    Taken s levels type m' := by
  rcases absorb_eq_ok ha with rfl | ⟨f, v, hf, hv, hk⟩ | ⟨f, body, hf, hr, hrun⟩
  · exact h
  · have hmem := (MessageType.field?_eq_some hf).1
    rcases keep_eq_ok hk with ⟨hr, rfl⟩ | ⟨hr, rfl⟩
    · exact h.append valid well hmem hr hv
    · exact h.store valid well hmem hr hv
  · have hmem := (MessageType.field?_eq_some hf).1
    refine (foldRun_invariant (P := fun k => Taken s levels type k) ?_ h hrun)
    intro k p k' hk hs
    split at hs
    · next v hv =>
        cases hs
        have hmem' : f ∈ (k.messageType s).fields := by
          rw [messageType, hk.type, ← h.type]
          exact hmem
        exact hk.append valid well hmem' (Field.isRepeated_iff.1 hr) hv
    · cases hs

theorem readsWell_decodeWithin (s : Schema) (rule : GroupRule) (levels : Nat) :
    ReadsWell s levels (decodeWithin s rule levels) := by
  induction levels with
  | zero =>
      intro name body m _ h
      cases h
  | succ levels ih =>
      intro name body m valid h
      have hm : Taken s levels name m :=
        foldRecords_invariant (fun _ _ _ hk ha => hk.absorb valid ih ha) (.zero valid) h
      refine ⟨hm.type, forall_nested_iff.2 ⟨⟨Nat.succ_pos levels, hm.wellFormed⟩, ?_⟩⟩
      intro inner hc depth k hk
      obtain ⟨hd, hw⟩ := hm.inner inner hc depth k hk
      exact ⟨Nat.succ_lt_succ hd, hw⟩

theorem completed_of_wellFormed (valid : s.Valid m.type)
    (h : ∀ depth k, Nested depth m k → depth < levels ∧ k.WellFormed s) :
    m.completed s = m :=
  completed_of_complete valid fun depth k hk => ⟨(h depth k hk).1, (h depth k hk).2.complete⟩

theorem wellFormed_of_decode {bytes : Bytes} (valid : s.Valid type)
    (h : decode s rule type bytes = .ok m) :
    m.type = type ∧ (∀ depth k, Nested depth m k → depth ≤ 100 ∧ k.WellFormed s) ∧
      ((m.encode s).length < 18446744073709551616 →
        ∀ again : GroupRule, decode s again type (m.encode s) = .ok m) := by
  obtain ⟨rfl, hw⟩ := readsWell_decodeWithin s rule 101 type bytes m valid h
  refine ⟨rfl, fun d k hk => ⟨Nat.le_of_lt_succ (hw d k hk).1, (hw d k hk).2⟩, ?_⟩
  intro short again
  have sound : m.Sound s := fun d k hk => (hw d k hk).2.toConforms
  have readable : m.Readable 101 :=
    ⟨fun d k hk => (hw d k hk).1, fun d k hk t ht => ((hw d k hk).2.instants t ht).2⟩
  have hs := (settles_decodeWithin again 101 sound valid short).ok readable
  rwa [completed_of_wellFormed valid hw] at hs

section Samples

open Catalog

def receivedBytes : Bytes :=
  [34, 4, 18, 0, 26, 0, 0xA2, 0x06, 3, 8, 0x81, 0x00]

def received : Message :=
  ⟨"catalog.Catalog", [(1, .string ""), (2, .string ""), (3, .string ""),
    (4, .list [.message ⟨"catalog.FieldSchema", [(1, .string ""),
      (3, .message ⟨"catalog.FloatSchema", [(1, .double 0), (2, .double 0)]⟩),
      (6, .bool false)]⟩]),
    (100, .timestamp (.ofMillis 1000)), (102, .integer .zero)]⟩

theorem wellFormed_received :
    received.WellFormed schema ∧
      decode schema .refuse "catalog.Catalog" (received.encode schema) = .ok received := by
  have valid : schema.Valid "catalog.Catalog" :=
    Schema.valid_of_closed (schema.types.map MessageType.name) (by decide) (by decide)
  have h : decode schema .replace "catalog.Catalog" receivedBytes = .ok received := by cbv
  obtain ⟨-, hw, hagain⟩ := wellFormed_of_decode valid h
  exact ⟨(hw 0 received .self).2, hagain (by cbv) .refuse⟩

end Samples

end Message

end SchemaRpc
