import Mathlib
import SchemaRpc.Proofs.Message.Construction
import SchemaRpc.Proofs.Message.Reading
import SchemaRpc.Proofs.Message.Writing
import SchemaRpc.Proofs.Text.Utf8
import SchemaRpc.Services.Catalog

/-!
Writing a message and reading it again gives the completed message if it is not nested too deep and all
of its instants have a wire form. Otherwise reading fails, in one of two ways.

The induction is on the levels that are left to the reader. On one level the fields are taken in one
after the other: those that were already read have their completed values, the others their initial
ones.
-/
namespace SchemaRpc

def Error.IsRefusal : Error → Prop
  | .malformed _ | .timestamp _ => True
  | _ => False

structure Settles {α : Type} (fine : Prop) (result : Except Error α) (a : α) : Prop where
  ok : fine → result = .ok a
  refused : ¬fine → ∃ e, result = .error e ∧ e.IsRefusal

namespace Settles

variable {α β : Type} {p q : Prop} {result : Except Error α} {a : α}

theorem of_ok (h : p) (hr : result = .ok a) : Settles p result a :=
  ⟨fun _ => hr, fun hn => absurd h hn⟩

theorem of_error {e : Error} (h : ¬p) (he : e.IsRefusal) : Settles p (.error e) a :=
  ⟨fun hp => absurd hp h, fun _ => ⟨e, rfl, he⟩⟩

theorem congr (h : Settles p result a) (hpq : p ↔ q) : Settles q result a :=
  ⟨fun hq => h.ok (hpq.2 hq), fun hq => h.refused fun hp => hq (hpq.1 hp)⟩

theorem bind {f : α → Except Error β} {b : β} (h : Settles p result a) (hf : Settles q (f a) b) :
    Settles (p ∧ q) (result.bind f) b := by
  constructor
  · rintro ⟨hp, hq⟩
    rw [h.ok hp]
    exact hf.ok hq
  · intro hn
    by_cases hp : p
    · rw [h.ok hp]
      exact hf.refused fun hq => hn ⟨hp, hq⟩
    · obtain ⟨e, he, hr⟩ := h.refused hp
      rw [he]
      exact ⟨e, rfl, hr⟩

theorem map (h : Settles p result a) (f : α → β) : Settles p (result.map f) (f a) := by
  constructor
  · intro hp
    rw [h.ok hp]
    rfl
  · intro hp
    obtain ⟨e, he, hr⟩ := h.refused hp
    rw [he]
    exact ⟨e, rfl, hr⟩

end Settles

namespace Message

structure Readable (levels : Nat) (m : Message) : Prop where
  depth : ∀ depth k, Nested depth m k → depth < levels
  instants : ∀ depth k, Nested depth m k → ∀ t, k.Contains (.timestamp t) → t.InRange

end Message

def Value.Readable (levels : Nat) : Value → Prop
  | .message m => m.Readable levels
  | .timestamp t => t.InRange
  | _ => True

theorem Value.readable_of_zero? {levels : Nat} {k : Kind} {v : Value} (h : k.zero? = some v) :
    v.Readable levels := by
  cases v with
  | message m => exact absurd h (Kind.zero?_ne_message m)
  | timestamp t => exact absurd h (Kind.zero?_ne_timestamp t)
  | _ => trivial

namespace Message

variable {s : Schema} {rule : GroupRule} {levels : Nat} {m : Message}

theorem not_readable_zero : ¬m.Readable 0 := fun h => Nat.not_lt_zero _ (h.depth 0 m .self)

theorem readable_succ_iff :
    m.Readable (levels + 1) ↔ ∀ e, m.Contains e → e.Readable levels := by
  constructor
  · intro h e he
    cases e with
    | message k =>
        exact ⟨fun d x hx => Nat.lt_of_succ_lt_succ (h.depth _ x (.inside he hx)),
          fun d x hx => h.instants _ x (.inside he hx)⟩
    | timestamp t => exact h.instants 0 m .self t he
    | _ => trivial
  · intro h
    constructor
    · intro d k hk
      cases hk with
      | self => exact Nat.succ_pos levels
      | inside hc hk => exact Nat.succ_lt_succ ((h _ hc).depth _ k hk)
    · intro d k hk t ht
      cases hk with
      | self => exact h _ ht
      | inside hc hk => exact (h _ hc).instants _ k hk t ht

end Message

section Elements

variable {s : Schema} {levels : Nat} {nested : String → Bytes → Except Error Message}

theorem Timestamp.settles (t : Instant) (ht : t.truncated = t) (hc : t.InCalendar) :
    Settles t.InRange
      (Kind.timestamp.element nested (.delimited (ofInstant t).encode)) (.timestamp t) := by
  have hd : Kind.timestamp.element nested (.delimited (ofInstant t).encode) =
      (ofInstant t).toInstant.map .timestamp := by
    simp only [Kind.element]
    rw [decode_ofInstant hc]
    change Except.bind _ _ = _
    rw [Except.bind]
    cases (ofInstant t).toInstant <;> rfl
  rw [hd, toInstant_ofInstant]
  by_cases hr : t.InRange
  · rw [if_pos hr, ← Instant.truncated_of_inRange hr, ht]
    exact .of_ok hr rfl
  · rw [if_neg hr]
    exact .of_error hr trivial

theorem Value.settles {v : Value} {k : Kind} (h : v.Admissible k)
    (inner : ∀ m, v = .message m →
      Settles (m.Readable levels) (nested m.type (m.encode s)) (m.completed s)) :
    Settles (v.Readable levels) (k.element nested (v.asPayload s)) (v.completed s) := by
  unfold Admissible at h
  split at h
  case h_1 b => exact .of_ok trivial (by cases b <;> rfl)
  case h_2 n => exact .of_ok trivial (congrArg (Except.ok ∘ int32) (lowInt32_wire n))
  case h_3 n =>
    refine .of_ok trivial ?_
    simp only [Kind.element, asPayload, toUInt32_ofNat]
    rfl
  case h_4 n =>
    refine .of_ok trivial ?_
    simp only [Kind.element, asPayload, SafeInt.ofSigned_toWire]
    rfl
  case h_5 n =>
    refine .of_ok trivial ?_
    simp only [Kind.element, asPayload, SafeInt.ofUnsigned_toWire h]
    rfl
  case h_8 text =>
    refine .of_ok trivial ?_
    simp only [Kind.element, asPayload, Utf8.decode_encode]
    rfl
  case h_10 n e =>
    refine .of_ok trivial ?_
    simp only [Kind.element, asPayload, lowInt32_wire, EnumType.normalize_of_stored h]
    rfl
  case h_11 t => exact Timestamp.settles t h.1 h.2
  case h_12 m name =>
    cases h
    rw [completed]
    exact (inner m rfl).map _
  case h_13 => cases h
  all_goals exact .of_ok trivial rfl

end Elements

namespace Message

section Fields

variable {s : Schema} (rule : GroupRule) {levels : Nat}
variable {nested : String → Bytes → Except Error Message} {m acc : Message} {f : Field} {v : Value}

theorem insert_get? (h : acc.Ascending) {n : Nat} (hv : acc.get? n = some v) :
    acc.insert n v = acc := by
  refine ext_get? rfl (h.insert n v) h fun k => ?_
  rw [get?_insert]
  split
  · next hk => rw [hk, hv]
  · rfl

theorem insert_insert (h : acc.Ascending) (n : Nat) (v w : Value) :
    (acc.insert n v).insert n w = acc.insert n w := by
  refine ext_get? rfl ((h.insert n v).insert n w) (h.insert n w) fun k => ?_
  rw [get?_insert, get?_insert, get?_insert]
  split <;> rfl

theorem settles_items (hf : (acc.messageType s).field? f.number = some f)
    (hr : f.cardinality = .repeated) (h : acc.Ascending) {items : List Value}
    (hi : ∀ e ∈ items, e.Admissible f.kind)
    (inner : ∀ k, .message k ∈ items →
      Settles (k.Readable levels) (nested k.type (k.encode s)) (k.completed s))
    {earlier : List Value} (hv : acc.get? f.number = some (.list earlier)) :
    Settles (∀ e ∈ items, e.Readable levels)
      ((items.map fun e => (⟨f.number, e.asPayload s⟩ : Record)).foldlM (absorb s rule nested) acc)
      (acc.insert f.number (.list (earlier ++ items.map (·.completed s)))) := by
  induction items generalizing acc earlier with
  | nil =>
      rw [List.map_nil, List.map_nil, List.append_nil, insert_get? h hv]
      exact .of_ok (fun e he => by cases he) rfl
  | cons e rest ih =>
      have ha := hi e List.mem_cons_self
      have hkind : (e.asPayload s).kind = f.wireKind := Value.kind_asPayload ha
      have he := Value.settles ha fun k hk => inner k (hk ▸ List.mem_cons_self)
      have happ : acc.append f (e.completed s) =
          acc.insert f.number (.list (earlier ++ [e.completed s])) := by
        rw [append_eq, appended, hv]
      have hf' : ((acc.append f (e.completed s)).messageType s).field? f.number = some f := by
        rwa [messageType_append]
      have hrest := ih hf' (h.append f _) (fun x hx => hi x (List.mem_cons_of_mem _ hx))
        (fun k hk => inner k (List.mem_cons_of_mem _ hk)) (by rw [happ, get?_insert_self])
      rw [happ, insert_insert h, List.append_assoc, ← happ] at hrest
      rw [List.map_cons, List.foldlM_cons, absorb_element hf hkind]
      have hkeep : Settles True (acc.keep s rule f (e.completed s)) _ :=
        .of_ok trivial (keep_repeated hr acc _)
      refine ((he.bind hkeep).bind hrest).congr ?_
      rw [and_true, List.forall_mem_cons]

theorem store_eq_insert (h : acc.Ascending)
    (hs : ∀ g ∈ acc.siblings s f, acc.get? g.number = none) (v : Value) :
    acc.store s f v = acc.insert f.number v := by
  refine ext_get? (type_store s acc f v) (h.store s f v) (h.insert _ _) fun k => ?_
  rw [get?_store s h, get?_insert]
  split
  · rfl
  · split
    · next hg =>
        obtain ⟨g, hg, rfl⟩ := hg
        rw [hs g hg]
    · rfl

theorem keep_eq_insert (h : acc.Ascending) (hr : f.cardinality ≠ .repeated)
    (hs : ∀ g ∈ acc.siblings s f, acc.get? g.number = none) (v : Value) :
    acc.keep s rule f v = .ok (acc.insert f.number v) := by
  have hstore := store_eq_insert h hs v
  have hd : acc.displaces s f = false := by
    refine List.any_eq_false.2 fun g hg => ?_
    rw [has, hs g hg]
    exact Bool.false_ne_true
  rw [keep]
  cases hc : f.cardinality with
  | repeated => exact absurd hc hr
  | single => rw [hstore]
  | optionalGroup group =>
      simp only [hd]
      rw [if_neg (fun hn => Bool.false_ne_true hn.2), hstore]

/-- How far the reader has come: the fields that it has not yet met are as in the beginning, all
others are completed. -/
structure Progress (s : Schema) (m : Message) (rest : List Field) (acc : Message) : Prop where
  type : acc.type = m.type
  ascending : acc.Ascending
  get? : ∀ k, acc.get? k =
    if k ∈ rest.map Field.number then (zero (m.messageType s)).get? k else (m.completed s).get? k

variable {rest : List Field}

theorem progress_zero (h : m.Conforms s) :
    Progress s m (m.messageType s).fields (zero (m.messageType s)) where
  type := by rw [type_zero, messageType, Schema.name_find]
  ascending := ascending_zero _
  get? := by
    intro k
    split
    · rfl
    · next hk =>
        cases hm : m.get? k with
        | some v =>
            obtain ⟨f, hf, hn, -⟩ := h.declared k v hm
            exact absurd (hn ▸ List.mem_map_of_mem hf) hk
        | none =>
            rw [get?_completed s h.ascending, hm]
            rfl

theorem Progress.messageType (h : Progress s m rest acc) :
    acc.messageType s = m.messageType s := by
  rw [Message.messageType, h.type, Message.messageType]

theorem Progress.eq_completed (h : Progress s m [] acc) : acc = m.completed s := by
  refine ext_get? ?_ h.ascending (ascending_completed s m) h.get?
  rw [h.type, type_completed]

theorem Progress.get?_first (h : Progress s m (f :: rest) acc)
    (check : (m.messageType s).check = .ok ()) (hf : f ∈ (m.messageType s).fields) :
    acc.get? f.number = initial? f := by
  rw [h.get?, List.map_cons, if_pos List.mem_cons_self, get?_zero_of_mem check hf]

theorem Progress.next {acc' : Message} (h : Progress s m (f :: rest) acc)
    (hne : f.number ∉ rest.map Field.number) (type : acc'.type = acc.type)
    (ascending : acc'.Ascending) (first : acc'.get? f.number = (m.completed s).get? f.number)
    (others : ∀ k, k ≠ f.number → acc'.get? k = acc.get? k) : Progress s m rest acc' where
  type := type.trans h.type
  ascending := ascending
  get? := by
    intro k
    by_cases hk : k = f.number
    · rw [hk, if_neg hne, first]
    · rw [others k hk, h.get?]
      simp only [List.map_cons, List.mem_cons, hk, false_or]

theorem Progress.siblings (h : Progress s m (f :: rest) acc) (hm : m.Conforms s)
    (check : (m.messageType s).check = .ok ()) (hf : f ∈ (m.messageType s).fields)
    (hv : m.get? f.number = some v) : ∀ g ∈ acc.siblings s f, acc.get? g.number = none := by
  intro g hg
  obtain ⟨hmem, hsome, hgroup, hne⟩ := (mem_siblings s).1 hg
  rw [h.messageType] at hmem
  obtain ⟨group, hfg⟩ := Option.isSome_iff_exists.1 hsome
  have hmember := mem_groupMembers.2 ⟨hmem, hgroup.trans hfg⟩
  have hzero : (zero (m.messageType s)).get? g.number = none := get?_zero_of_group check hmember
  have hnone : m.get? g.number = none :=
    hm.get?_rival (mem_groupMembers.2 ⟨hf, hfg⟩) hmember (has_eq_true_iff.2 ⟨v, hv⟩) hne
  rw [h.get?]
  split
  · exact hzero
  · rw [get?_completed s hm.ascending, hnone]
    exact hzero

theorem Progress.skip (h : Progress s m (f :: rest) acc) (hm : m.Conforms s)
    (check : (m.messageType s).check = .ok ()) (hf : f ∈ (m.messageType s).fields)
    (hne : f.number ∉ rest.map Field.number) (hv : m.get? f.number = none) :
    Progress s m rest acc := by
  refine h.next hne rfl h.ascending ?_ fun k _ => rfl
  rw [h.get?_first check hf, get?_completed s hm.ascending, hv, ← get?_zero_of_mem check hf]
  rfl

theorem Progress.store (h : Progress s m (f :: rest) acc) (hm : m.Conforms s)
    (hne : f.number ∉ rest.map Field.number) (hv : m.get? f.number = some v) :
    Progress s m rest (acc.insert f.number (v.completed s)) := by
  refine h.next hne rfl (h.ascending.insert _ _) ?_ fun k hk => ?_
  · rw [get?_insert_self, get?_completed s hm.ascending, hv]
    rfl
  · rw [get?_insert, if_neg hk]

theorem zero?_of_left_out (hholds : f.Holds v) (hr : f.cardinality ≠ .repeated)
    (hd : (v.isDefault && f.group?.isNone) = true) :
    f.kind.zero? = some v ∧ initial? f = some v := by
  obtain ⟨hdef, hnone⟩ := Bool.and_eq_true_iff.1 hd
  have hz : f.kind.zero? = some v := by
    rcases hholds.element hr with ha | ⟨-, hz⟩
    · exact Value.zero?_of_isDefault ha hdef
    · exact hz
  refine ⟨hz, ?_⟩
  cases hc : f.cardinality with
  | repeated => exact absurd hc hr
  | single => rw [initial?, hc, hz]
  | optionalGroup group => rw [Field.group?, hc] at hnone; cases hnone

theorem admissible_of_written (hholds : f.Holds v) (hr : f.cardinality ≠ .repeated)
    (hd : ¬(v.isDefault && f.group?.isNone) = true) : v.Admissible f.kind := by
  rcases hholds.element hr with ha | ⟨hs, hz⟩
  · exact ha
  · rw [Value.isDefault_of_zero? hz, Field.group?, hs] at hd
    exact absurd rfl hd

theorem settles_element (h : Progress s m (f :: rest) acc) (hm : m.Conforms s)
    (check : (m.messageType s).check = .ok ()) (hf : f ∈ (m.messageType s).fields)
    (hfield : (acc.messageType s).field? f.number = some f) (hr : f.cardinality ≠ .repeated)
    (hv : m.get? f.number = some v) (ha : v.Admissible f.kind)
    (inner : ∀ k, m.Contains (.message k) →
      Settles (k.Readable levels) (nested k.type (k.encode s)) (k.completed s)) :
    Settles (v.Readable levels)
      ([(⟨f.number, v.asPayload s⟩ : Record)].foldlM (absorb s rule nested) acc)
      (acc.insert f.number (v.completed s)) := by
  have he := Value.settles ha fun k hk =>
    inner k ⟨_, _, hv, by rw [hk]; exact List.mem_singleton_self _⟩
  have hkeep : Settles True (acc.keep s rule f (v.completed s)) _ :=
    .of_ok trivial (keep_eq_insert rule h.ascending hr (h.siblings hm check hf hv) _)
  have hdone : Settles True (List.foldlM (absorb s rule nested) (acc.insert f.number
    (v.completed s)) []) _ := .of_ok trivial rfl
  rw [List.foldlM_cons, absorb_element hfield (Value.kind_asPayload ha)]
  refine ((he.bind hkeep).bind hdone).congr ?_
  rw [and_true, and_true]

theorem settles_field (h : Progress s m (f :: rest) acc) (hm : m.Conforms s)
    (check : (m.messageType s).check = .ok ()) (hf : f ∈ (m.messageType s).fields)
    (hne : f.number ∉ rest.map Field.number)
    (inner : ∀ k, m.Contains (.message k) →
      Settles (k.Readable levels) (nested k.type (k.encode s)) (k.completed s)) :
    ∃ acc', Progress s m rest acc' ∧
      Settles (∀ v, m.get? f.number = some v → ∀ e ∈ v.elements, e.Readable levels)
        ((m.fieldRecords s f).foldlM (absorb s rule nested) acc) acc' := by
  have hfield : (acc.messageType s).field? f.number = some f := by
    rw [h.messageType]
    exact MessageType.field?_of_mem check hf
  cases hv : m.get? f.number with
  | none =>
      refine ⟨acc, h.skip hm check hf hne hv, ?_⟩
      rw [fieldRecords, hv]
      exact .of_ok (fun v hn => by cases hn) rfl
  | some v =>
      have stored := h.store hm hne hv
      have hcond : (∀ w, some v = some w → ∀ e ∈ w.elements, e.Readable levels) ↔
          ∀ e ∈ v.elements, e.Readable levels := by
        constructor
        · exact fun hw => hw v rfl
        · rintro hw _ ⟨⟩
          exact hw
      have hholds := hm.holds check hf hv
      rw [fieldRecords_of_get? hv, Field.records]
      by_cases hr : f.cardinality = .repeated
      · obtain ⟨items, rfl, hi⟩ := hholds.items hr
        rw [if_pos (Field.isRepeated_iff.2 hr)]
        have hinit : acc.get? f.number = some (.list []) := by
          rw [h.get?_first check hf, initial?, hr]
        have hi := settles_items rule hfield hr h.ascending hi
          (fun k hk => inner k ⟨_, _, hv, hk⟩) hinit
        rw [Value.completed, completedItems_eq] at stored
        exact ⟨_, stored, hi.congr hcond.symm⟩
      · rw [if_neg fun hf => hr (Field.isRepeated_iff.1 hf)]
        rw [hholds.elements hr, List.forall_mem_singleton] at hcond
        split
        · next hd =>
            -- the reader starts from what the writer leaves out
            obtain ⟨hz, hinit⟩ := zero?_of_left_out hholds hr hd
            refine ⟨acc, h.next hne rfl h.ascending ?_ fun k _ => rfl, ?_⟩
            · rw [h.get?_first check hf, get?_completed s hm.ascending, hv, hinit]
              exact congrArg some (Kind.completed_of_zero? hz).symm
            · exact .of_ok (hcond.2 (Value.readable_of_zero? hz)) rfl
        · next hd =>
            have ha := admissible_of_written hholds hr hd
            exact ⟨_, stored, (settles_element rule h hm check hf hfield hr hv ha inner).congr
              hcond.symm⟩

theorem settles_fields (h : Progress s m rest acc) (hm : m.Conforms s)
    (check : (m.messageType s).check = .ok ()) (hrest : ∀ f ∈ rest, f ∈ (m.messageType s).fields)
    (distinct : rest.Pairwise fun f g => f.number ≠ g.number)
    (inner : ∀ k, m.Contains (.message k) →
      Settles (k.Readable levels) (nested k.type (k.encode s)) (k.completed s)) :
    Settles (∀ f ∈ rest, ∀ v, m.get? f.number = some v → ∀ e ∈ v.elements, e.Readable levels)
      ((rest.flatMap (m.fieldRecords s)).foldlM (absorb s rule nested) acc) (m.completed s) := by
  induction rest generalizing acc with
  | nil => exact .of_ok (fun f hf => by cases hf) (congrArg _ h.eq_completed)
  | cons f rest ih =>
      have hne := MessageType.notMem_of_pairwise distinct
      obtain ⟨acc', hp, hs⟩ := settles_field rule h hm check (hrest f List.mem_cons_self)
        hne inner
      have hr := ih hp (fun g hg => hrest g (List.mem_cons_of_mem _ hg))
        (List.pairwise_cons.1 distinct).2
      rw [List.flatMap_cons, List.foldlM_append]
      refine (hs.bind hr).congr ?_
      rw [List.forall_mem_cons]

end Fields

section Messages

variable {s : Schema} (rule : GroupRule)

theorem settles_level {levels : Nat} {m : Message} (hm : m.Conforms s) (valid : s.Valid m.type)
    (short : ∀ e, m.Contains e → e.Short s)
    (inner : ∀ k, m.Contains (.message k) →
      Settles (k.Readable levels) (decodeWithin s rule levels k.type (k.encode s))
        (k.completed s)) :
    Settles (m.Readable (levels + 1)) (decodeWithin s rule (levels + 1) m.type (m.encode s))
      (m.completed s) := by
  have hrun := settles_fields rule (progress_zero hm) hm valid.check (fun f hf => hf)
    (MessageType.pairwise_of_check valid.check) inner
  have hfold : decodeWithin s rule (levels + 1) m.type (m.encode s) =
      ((m.messageType s).fields.flatMap (m.fieldRecords s)).foldlM
        (absorb s rule (decodeWithin s rule levels)) (zero (m.messageType s)) := by
    rw [decodeWithin]
    exact foldRecords_eq_foldlM (records_encode_of_short hm valid.check short) _
  rw [hfold]
  refine hrun.congr ?_
  rw [readable_succ_iff]
  constructor
  · rintro h e ⟨n, v, hv, he⟩
    obtain ⟨f, hf, rfl, -⟩ := hm.declared n v hv
    exact h f hf v hv e he
  · intro h f _ v hv e he
    exact h e ⟨_, v, hv, he⟩

theorem settles_decodeWithin (levels : Nat) {m : Message} (sound : m.Sound s)
    (valid : s.Valid m.type) (hl : (m.encode s).length < 18446744073709551616) :
    Settles (m.Readable levels) (decodeWithin s rule levels m.type (m.encode s))
      (m.completed s) := by
  induction levels generalizing m with
  | zero => exact .of_error not_readable_zero trivial
  | succ levels ih =>
      have hm := sound.conforms
      refine settles_level rule hm valid
        (fun e hc body hb => Nat.lt_of_le_of_lt (length_body_le hm hc hb) hl) fun k hk => ?_
      exact ih (sound.inner hk) (hm.valid_inner valid hk)
        (Nat.lt_of_le_of_lt (length_encode_inner hm hk) hl)

theorem decode_encode_built {m : Message} (valid : s.Valid m.type) (built : Built s m)
    (short : (m.encode s).length < 18446744073709551616) :
    ((∀ depth k, Nested depth m k → depth ≤ 100) →
      (∀ depth k t, Nested depth m k → k.Contains (.timestamp t) → t.InRange) →
        decode s rule m.type (m.encode s) = .ok (m.completed s)) ∧
    ((∃ depth k, Nested depth m k ∧ 100 < depth) ∨
      (∃ depth k t, Nested depth m k ∧ k.Contains (.timestamp t) ∧ ¬t.InRange) →
        ∃ what, decode s rule m.type (m.encode s) = .error (.malformed what) ∨
          decode s rule m.type (m.encode s) = .error (.timestamp what)) := by
  have hs := settles_decodeWithin rule 101 (built.sound valid) valid short
  constructor
  · intro hdepth hinstants
    exact hs.ok ⟨fun d k hk => Nat.lt_succ_of_le (hdepth d k hk),
      fun d k hk t ht => hinstants d k t hk ht⟩
  · intro h
    have hn : ¬m.Readable 101 := by
      rintro ⟨hdepth, hinstants⟩
      rcases h with ⟨d, k, hk, hd⟩ | ⟨d, k, t, hk, ht, hr⟩
      · have := hdepth d k hk
        omega
      · exact hr (hinstants d k hk t ht)
    obtain ⟨e, he, hrefusal⟩ := hs.refused hn
    cases e with
    | malformed what => exact ⟨what, .inl he⟩
    | timestamp what => exact ⟨what, .inr he⟩
    | _ => cases hrefusal

end Messages

section Samples

open Catalog

def integerField : Message :=
  ⟨"catalog.FieldSchema", [(2, .message (empty "catalog.IntSchema"))]⟩

def begun : Message :=
  ⟨"catalog.Catalog", [(4, .list [.message integerField]), (100, .timestamp (.ofMillis 1500))]⟩

def farOff : Message :=
  ⟨"catalog.Catalog", [(100, .timestamp (.ofMillis 253402300800000))]⟩

theorem built_integerField : Built schema integerField := by
  refine .set (n := 2) (v := .message (empty "catalog.IntSchema")) (.empty "catalog.FieldSchema")
    ?_ ?_ rfl
  · intro k hk
    cases List.mem_singleton.1 hk
    exact .empty "catalog.IntSchema"
  · intro t ht
    cases List.mem_singleton.1 ht

theorem built_of_created {m m' : Message} {n : Int} (h : Built schema m)
    (calendar : (Instant.ofMillis n).InCalendar)
    (done : m.set schema 100 (.timestamp (.ofMillis n)) = .ok m') : Built schema m' := by
  refine .set h ?_ ?_ done
  · intro k hk
    cases List.mem_singleton.1 hk
  · intro t ht
    cases List.mem_singleton.1 ht
    exact calendar

theorem built_begun : Built schema begun := by
  have fields : Built schema ⟨"catalog.Catalog", [(4, .list [.message integerField])]⟩ := by
    refine .push (n := 4) (v := .message integerField) (.empty "catalog.Catalog") ?_ ?_ rfl
    · intro k hk
      cases List.mem_singleton.1 hk
      exact built_integerField
    · intro t ht
      cases List.mem_singleton.1 ht
  exact built_of_created (n := 1500) fields ⟨by decide, by decide⟩ rfl

theorem built_farOff : Built schema farOff :=
  built_of_created (n := 253402300800000) (.empty "catalog.Catalog") ⟨by decide, by decide⟩ rfl

theorem readable_begun : begun.Readable 101 := by
  refine readable_succ_iff.2 fun e he => ?_
  obtain ⟨p, hp, he⟩ := mem_of_contains he
  rcases List.mem_cons.1 hp with rfl | hp
  · cases List.mem_singleton.1 he
    refine readable_succ_iff.2 fun e he => ?_
    obtain ⟨p, hp, he⟩ := mem_of_contains he
    cases List.mem_singleton.1 hp
    cases List.mem_singleton.1 he
    exact readable_succ_iff.2 fun e he => absurd he not_contains_empty
  · cases List.mem_singleton.1 hp
    cases List.mem_singleton.1 he
    exact ⟨by decide, by decide⟩

theorem decode_encode_catalogs :
    decode schema .refuse "catalog.Catalog" (begun.encode schema) = .ok (begun.completed schema) ∧
    ∃ what, decode schema .replace "catalog.Catalog" (farOff.encode schema) =
        .error (.malformed what) ∨
      decode schema .replace "catalog.Catalog" (farOff.encode schema) =
        .error (.timestamp what) := by
  have valid : schema.Valid "catalog.Catalog" :=
    Schema.valid_of_closed (schema.types.map MessageType.name) (by decide) (by decide)
  constructor
  · exact (decode_encode_built .refuse valid built_begun (by cbv)).1
      (fun d k hk => Nat.le_of_lt_succ (readable_begun.depth d k hk))
      (fun d k t hk ht => readable_begun.instants d k hk t ht)
  · refine (decode_encode_built .replace valid built_farOff (by cbv)).2 (.inr ?_)
    exact ⟨0, farOff, .ofMillis 253402300800000, .self, ⟨100, _, rfl, List.mem_singleton_self _⟩,
      by decide⟩

end Samples

end Message

end SchemaRpc
