import SchemaRpc.Proofs.Message.Merging
import SchemaRpc.Proofs.Wire.Shortage

/-!
Cutting an encoding short. Between two records, the elements before the cut are left and are read like
any others. Inside of a record, however deep, the reader finds the bytes wanting.

The reader is followed from element to element: what it has is at any time the completion of the message
that stores the elements it has read, and nothing else.
-/
namespace SchemaRpc

def Field.writtenElements (f : Field) (v : Value) : List Value :=
  if f.isRepeated then v.elements
  else if v.isDefault && f.group?.isNone then []
  else [v]

theorem Field.encode_written {s : Schema} {f : Field} {v : Value} (h : f.Holds v) :
    f.encode (v.written s) = (f.writtenElements v).flatMap fun e => f.record (e.payload s) := by
  by_cases hr : f.cardinality = .repeated
  · obtain ⟨items, rfl, -⟩ := h.items hr
    have hrep := Field.isRepeated_iff.2 hr
    rw [Value.written, Value.payloads_eq, encode, if_pos hrep, writtenElements, if_pos hrep,
      Value.elements, List.flatMap_map]
  · have hrep : ¬f.isRepeated = true := fun hf => hr (Field.isRepeated_iff.1 hf)
    rw [Value.written_of_elements (h.elements hr), encode, writtenElements, if_neg hrep]
    split
    · rfl
    · exact (List.flatMap_singleton ..).symm

theorem take_flatten {α : Type} (ls : List (List α)) (n : Nat) :
    ls.flatten.take (ls.take n).flatten.length = (ls.take n).flatten := by
  have : ls.flatten = (ls.take n).flatten ++ (ls.drop n).flatten := by
    rw [← List.flatten_append, List.take_append_drop]
  rw [this, List.take_left]

theorem cut_flatten {α : Type} {ls : List (List α)} {k : Nat} (hk : k < ls.flatten.length)
    (inner : ∀ n, k ≠ (ls.take n).flatten.length) :
    ∃ first start tail rest, ls = first ++ (start ++ tail) :: rest ∧ start ≠ [] ∧ tail ≠ [] ∧
      ls.flatten.take k = first.flatten ++ start := by
  induction ls generalizing k with
  | nil => cases hk
  | cons l ls ih =>
      by_cases hl : k < l.length
      · have hpos : k ≠ 0 := inner 0
        refine ⟨[], l.take k, l.drop k, ls, by rw [List.take_append_drop]; rfl, ?_, ?_, ?_⟩
        · exact List.ne_nil_of_length_pos (by rw [List.length_take]; omega)
        · exact List.ne_nil_of_length_pos (by rw [List.length_drop]; omega)
        · rw [List.flatten_cons, List.take_append_of_le_length (Nat.le_of_lt hl)]
          rfl
      · rw [List.flatten_cons, List.length_append] at hk
        have later : ∀ n, k - l.length ≠ (ls.take n).flatten.length := by
          intro n
          have := inner (n + 1)
          rw [List.take_succ_cons, List.flatten_cons, List.length_append] at this
          omega
        obtain ⟨first, start, tail, rest, rfl, hstart, htail, htake⟩ := ih (by omega) later
        refine ⟨l :: first, start, tail, rest, rfl, hstart, htail, ?_⟩
        rw [List.flatten_cons, List.take_append, htake, List.take_of_length_le (by omega),
          List.flatten_cons, List.append_assoc]

namespace Message

def parts (s : Schema) (m : Message) : List (Field × Value) :=
  (m.messageType s).fields.flatMap fun f =>
    match m.get? f.number with
    | some v => (f.writtenElements v).map fun e => (f, e)
    | none => []

def pieces (s : Schema) (m : Message) : List Bytes :=
  (m.parts s).map fun p => p.1.record (p.2.payload s)

def withPart (m : Message) (p : Field × Value) : Message :=
  if p.1.isRepeated then m.append p.1 p.2 else m.insert p.1.number p.2

def ofParts (type : String) (parts : List (Field × Value)) : Message :=
  parts.foldl withPart (empty type)

variable {s : Schema} {m c : Message} {f : Field} {v e : Value}

theorem encode_eq_pieces (h : m.Conforms s) (check : (m.messageType s).check = .ok ()) :
    m.encode s = (m.pieces s).flatten := by
  rw [encode_eq, pieces, ← List.flatMap_def, parts, List.flatMap_assoc]
  refine List.flatMap_congr fun f hf => ?_
  rw [encodeField]
  cases hv : m.get? f.number with
  | none => rfl
  | some v =>
      simp only
      rw [Field.encode_written (h.holds check hf hv), List.flatMap_map]

structure HasPart (s : Schema) (m : Message) (f : Field) (e : Value) : Prop where
  field : f ∈ (m.messageType s).fields
  stored : m.has f.number = true
  contained : m.Contains e
  admissible : e.Admissible f.kind

theorem hasPart_of_mem (h : m.Conforms s) (check : (m.messageType s).check = .ok ())
    {p : Field × Value} (hp : p ∈ m.parts s) : m.HasPart s p.1 p.2 := by
  obtain ⟨f, hf, hp⟩ := List.mem_flatMap.1 hp
  cases hv : m.get? f.number with
  | none => rw [hv] at hp; cases hp
  | some v =>
      rw [hv] at hp
      obtain ⟨e, he, rfl⟩ := List.mem_map.1 hp
      have hholds := h.holds check hf hv
      have hhas := has_eq_true_iff.2 ⟨v, hv⟩
      rw [Field.writtenElements] at he
      by_cases hr : f.cardinality = .repeated
      · obtain ⟨items, rfl, hi⟩ := hholds.items hr
        rw [if_pos (Field.isRepeated_iff.2 hr)] at he
        exact ⟨hf, hhas, ⟨_, _, hv, he⟩, hi e he⟩
      · rw [if_neg fun hf => hr (Field.isRepeated_iff.1 hf)] at he
        split at he
        · cases he
        · next hd =>
            cases List.mem_singleton.1 he
            refine ⟨hf, hhas, ⟨_, _, hv, ?_⟩, admissible_of_written hholds hr hd⟩
            rw [hholds.elements hr]
            exact List.mem_singleton_self _

theorem completed_insert (h : c.Ascending) (n : Nat) (v : Value) :
    (c.insert n v).completed s = (c.completed s).insert n (v.completed s) := by
  refine ext_get? ?_ (ascending_completed s _) ((ascending_completed s c).insert n _) fun k => ?_
  · exact (type_completed s _).trans (type_completed s c).symm
  · rw [get?_completed s (h.insert n v), get?_insert, get?_insert, get?_completed s h]
    split <;> rfl

theorem completed_append (h : c.Conforms s) (check : (c.messageType s).check = .ok ())
    (hf : f ∈ (c.messageType s).fields) (hr : f.cardinality = .repeated) (v : Value) :
    (c.append f v).completed s = (c.completed s).append f (v.completed s) := by
  have hlist : (c.completed s).appended f (v.completed s) =
      (c.appended f v).map (·.completed s) := by
    have hzero : (zero (s.find c.type)).get? f.number = some (.list []) := by
      have := get?_zero_of_mem check hf
      rwa [initial?, hr] at this
    rw [appended, appended, get?_completed s h.ascending, hzero]
    cases hv : c.get? f.number with
    | none => rfl
    | some w =>
        obtain ⟨items, rfl, -⟩ := (h.holds check hf hv).items hr
        rw [Option.map_some, Option.some_or, Value.completed, completedItems_eq]
        simp only [List.map_append, List.map_cons, List.map_nil]
  rw [append_eq, append_eq, completed_insert h.ascending, hlist, Value.completed, completedItems_eq]

structure Beginning (s : Schema) (m c : Message) : Prop where
  conforms : c.Conforms s
  type : c.type = m.type
  stored : ∀ n, c.has n = true → m.has n = true

theorem beginning_empty : Beginning s m (empty m.type) :=
  ⟨.empty s m.type, rfl, fun n h => by cases h⟩

section Step

variable (h : Beginning s m c) (hm : m.Conforms s) (check : (m.messageType s).check = .ok ())
include h

theorem Beginning.messageType : c.messageType s = m.messageType s := by
  rw [Message.messageType, h.type, Message.messageType]

include hm check

theorem Beginning.siblings (hp : m.HasPart s f e) :
    ∀ g ∈ m.siblings s f, c.get? g.number = none ∧ (c.completed s).get? g.number = none := by
  intro g hg
  obtain ⟨hmem, hsome, hsame, hne⟩ := (mem_siblings s).1 hg
  obtain ⟨group, hgroup⟩ := Option.isSome_iff_exists.1 hsome
  have hmember := mem_groupMembers.2 ⟨hmem, hsame.trans hgroup⟩
  have hrival := hm.get?_rival (mem_groupMembers.2 ⟨hp.field, hgroup⟩) hmember hp.stored hne
  have hnone : c.get? g.number = none := by
    cases hw : c.get? g.number with
    | none => rfl
    | some w =>
        obtain ⟨v, hv⟩ := has_eq_true_iff.1 (h.stored _ (has_eq_true_iff.2 ⟨w, hw⟩))
        rw [hrival] at hv
        cases hv
  have hzero : (zero (s.find c.type)).get? g.number = none := by
    rw [h.type]
    exact get?_zero_of_group check hmember
  refine ⟨hnone, ?_⟩
  rw [get?_completed s h.conforms.ascending, hnone, hzero]
  rfl

theorem Beginning.next (hp : m.HasPart s f e) : Beginning s m (c.withPart (f, e)) := by
  have check' : (c.messageType s).check = .ok () := h.messageType ▸ check
  have hf : f ∈ (c.messageType s).fields := h.messageType ▸ hp.field
  have kept : ∀ (w : Value) (n : Nat), (c.insert f.number w).has n = true → m.has n = true := by
    intro w n hn
    rw [has, get?_insert] at hn
    split at hn
    · next heq => rw [heq]; exact hp.stored
    · exact h.stored n hn
  rw [withPart]
  by_cases hr : f.cardinality = .repeated
  · rw [if_pos (Field.isRepeated_iff.2 hr)]
    refine ⟨h.conforms.append check' hf hr hp.admissible, (type_append c f e).trans h.type, ?_⟩
    rw [append_eq]
    exact kept _
  · rw [if_neg fun hf => hr (Field.isRepeated_iff.1 hf)]
    have hstore : c.store s f e = c.insert f.number e := by
      refine store_eq_insert h.conforms.ascending (fun g hg => ?_) e
      rw [siblings_eq h.type] at hg
      exact (h.siblings hm check hp g hg).1
    refine ⟨?_, h.type, kept e⟩
    rw [← hstore]
    exact h.conforms.store check' hf (Field.holds_of_admissible hr hp.admissible)

variable (rule : GroupRule) {nested : String → Bytes → Except Error Message}

theorem Beginning.absorb (hp : m.HasPart s f e)
    (read : f.kind.element nested (e.asPayload s) = .ok (e.completed s)) :
    (c.completed s).absorb s rule nested ⟨f.number, e.asPayload s⟩ =
      .ok ((c.withPart (f, e)).completed s) := by
  have check' : (c.messageType s).check = .ok () := h.messageType ▸ check
  have hf : f ∈ (c.messageType s).fields := h.messageType ▸ hp.field
  have hfield : ((c.completed s).messageType s).field? f.number = some f := by
    rw [messageType_completed]
    exact MessageType.field?_of_mem check' hf
  rw [absorb_element hfield (Value.kind_asPayload hp.admissible), read, withPart]
  change (c.completed s).keep s rule f (e.completed s) = _
  by_cases hr : f.cardinality = .repeated
  · rw [if_pos (Field.isRepeated_iff.2 hr), keep_repeated hr,
      completed_append h.conforms check' hf hr]
  · rw [if_neg fun hf => hr (Field.isRepeated_iff.1 hf), completed_insert h.conforms.ascending]
    refine keep_eq_insert rule (ascending_completed s c) hr (fun g hg => ?_) _
    rw [siblings_eq ((type_completed s c).trans h.type)] at hg
    exact (h.siblings hm check hp g hg).2

theorem Beginning.absorbs {ps : List (Field × Value)} (hp : ∀ p ∈ ps, m.HasPart s p.1 p.2)
    (read : ∀ p ∈ ps, p.1.kind.element nested (p.2.asPayload s) = .ok (p.2.completed s)) :
    (ps.map fun p => (⟨p.1.number, p.2.asPayload s⟩ : Record)).foldlM
        (Message.absorb s rule nested) (c.completed s) =
      .ok ((ps.foldl withPart c).completed s) := by
  induction ps generalizing c with
  | nil => rfl
  | cons p ps ih =>
      obtain ⟨hfirst, hp⟩ := List.forall_mem_cons.1 hp
      obtain ⟨rfirst, read⟩ := List.forall_mem_cons.1 read
      rw [List.map_cons, List.foldlM_cons, h.absorb hm check rule hfirst rfirst]
      exact ih (h.next hm check hfirst) hp read

end Step

theorem completed_empty (s : Schema) (type : String) :
    (empty type).completed s = zero (s.find type) := by
  rw [completed_eq]
  rfl

theorem records_of_parts (check : (m.messageType s).check = .ok ())
    (short : ∀ e, m.Contains e → e.Short s) {ps : List (Field × Value)}
    (hp : ∀ p ∈ ps, m.HasPart s p.1 p.2) :
    Records (ps.map fun p => ⟨p.1.number, p.2.asPayload s⟩)
      (ps.map fun p => p.1.record (p.2.payload s)).flatten := by
  induction ps with
  | nil => exact .nil
  | cons p ps ih =>
      obtain ⟨hfirst, hp⟩ := List.forall_mem_cons.1 hp
      obtain ⟨positive, small⟩ := MessageType.number_of_check check hfirst.field
      exact .cons (Field.records_record positive small hfirst.admissible
        (short _ hfirst.contained)) (ih hp)

section Accepted

variable {rule : GroupRule} {whole : Message} (valid : s.Valid m.type) (sound : m.Sound s)
variable (accepted : decode s rule m.type (m.encode s) = .ok whole) (rule' : GroupRule)
include valid sound accepted

theorem short_of_accepted : ∀ e, m.Contains e → e.Short s :=
  short_of_foldRecords sound.conforms valid.check accepted

theorem settles_of_accepted {k : Message} (hk : m.Contains (.message k)) :
    Settles (k.Readable 100) (decodeWithin s rule' 100 k.type (k.encode s)) (k.completed s) :=
  settles_decodeWithin rule' 100 (sound.inner hk) (sound.conforms.valid_inner valid hk)
    (short_of_accepted valid sound accepted _ hk _ rfl)

theorem readable_of_accepted : m.Readable 101 := by
  refine Classical.byContradiction fun hn => ?_
  obtain ⟨e, he, -⟩ := (settles_level rule sound.conforms valid
    (short_of_accepted valid sound accepted)
    fun k => settles_of_accepted valid sound accepted rule).refused hn
  cases he.symm.trans accepted

theorem element_of_accepted (hp : m.HasPart s f e) :
    f.kind.element (decodeWithin s rule' 100) (e.asPayload s) = .ok (e.completed s) := by
  have hs := Value.settles hp.admissible fun k hk =>
    settles_of_accepted valid sound accepted rule' (hk ▸ hp.contained)
  exact hs.ok (readable_succ_iff.1 (readable_of_accepted valid sound accepted) e hp.contained)

theorem decode_parts_append {ps : List (Field × Value)} (hp : ∀ p ∈ ps, m.HasPart s p.1 p.2)
    (rest : Bytes) :
    decode s rule' m.type ((ps.map fun p => p.1.record (p.2.payload s)).flatten ++ rest) =
      foldRecords (absorb s rule' (decodeWithin s rule' 100))
        ((ofParts m.type ps).completed s) rest := by
  have hrecords := records_of_parts valid.check (short_of_accepted valid sound accepted) hp
  have hread : ∀ p ∈ ps, p.1.kind.element (decodeWithin s rule' 100) (p.2.asPayload s) =
      .ok (p.2.completed s) := fun p h =>
    element_of_accepted valid sound accepted rule' (hp p h)
  have hfold := beginning_empty.absorbs sound.conforms valid.check rule' hp hread
  rw [completed_empty] at hfold
  change foldRecords _ (zero (s.find m.type)) _ = _
  rw [foldRecords_records hrecords, hfold]
  rfl

theorem decode_take {k : Nat} (hk : k < (m.encode s).length) :
    m.encode s = (m.pieces s).flatten ∧
      (∀ n, k = ((m.pieces s).take n).flatten.length →
        decode s rule' m.type ((m.encode s).take k) =
          .ok ((ofParts m.type ((m.parts s).take n)).completed s)) ∧
      ((∀ n, k ≠ ((m.pieces s).take n).flatten.length) →
        ∃ needed remaining, decode s rule' m.type ((m.encode s).take k) =
          .error (.truncated needed remaining)) := by
  have check : (m.messageType s).check = .ok () := valid.check
  have hp : ∀ p ∈ m.parts s, m.HasPart s p.1 p.2 := fun p => hasPart_of_mem sound.conforms check
  have hencode := encode_eq_pieces sound.conforms check
  refine ⟨hencode, ?_, ?_⟩
  · rintro n rfl
    have htake : (m.encode s).take ((m.pieces s).take n).flatten.length =
        (((m.parts s).take n).map fun p => p.1.record (p.2.payload s)).flatten := by
      rw [hencode, take_flatten, pieces, List.map_take]
    have hfirst : ∀ p ∈ (m.parts s).take n, m.HasPart s p.1 p.2 :=
      fun p h => hp p (List.mem_of_mem_take h)
    have hread := decode_parts_append valid sound accepted rule' hfirst []
    rw [List.append_nil, foldRecords_nil] at hread
    rw [htake, hread]
  · intro hinner
    rw [hencode] at hk ⊢
    obtain ⟨first, start, tail, rest, hpieces, hstart, htail, htake⟩ := cut_flatten hk hinner
    obtain ⟨ps, others, hparts, rfl, hothers⟩ := List.map_eq_append_iff.1 hpieces
    obtain ⟨p, qs, rfl, hrecord, -⟩ := List.map_eq_cons_iff.1 hothers
    rw [hparts, List.forall_mem_append, List.forall_mem_cons] at hp
    obtain ⟨hps, hpart, -⟩ := hp
    obtain ⟨positive, small⟩ := MessageType.number_of_check check hpart.field
    have hreads := Field.records_record positive small hpart.admissible
      (short_of_accepted valid sound accepted _ hpart.contained)
    rw [hrecord] at hreads
    obtain ⟨e, left, he, hshort⟩ :=
      Reader.shortage_of_beginning Reader.local_record Reader.firm_record hreads htail
    obtain ⟨needed, remaining, rfl⟩ := hshort.eq_truncated
    refine ⟨needed, remaining, ?_⟩
    rw [htake, decode_parts_append valid sound accepted rule' hps, foldRecords_of_error he,
      if_neg fun h => hstart (List.isEmpty_iff.1 h)]

end Accepted

section Samples

open Catalog

theorem decode_take_begun :
    decode schema .refuse "catalog.Catalog" ((begun.encode schema).take 4) =
        .ok (completed schema ⟨"catalog.Catalog", [(4, .list [.message integerField])]⟩) ∧
      ∃ needed remaining, decode schema .replace "catalog.Catalog" ((begun.encode schema).take 3) =
        .error (.truncated needed remaining) := by
  have valid : schema.Valid "catalog.Catalog" :=
    Schema.valid_of_closed (schema.types.map MessageType.name) (by decide) (by decide)
  have sound : begun.Sound schema := built_begun.sound valid
  have accepted := (settles_decodeWithin .refuse 101 sound valid (by cbv)).ok readable_begun
  have records : begun.pieces schema =
      [[34, 2, 18, 0], [162, 6, 8, 8, 1, 16, 128, 202, 181, 238, 1]] := by cbv
  have long : 4 < (begun.encode schema).length := by
    rw [encode_eq_pieces sound.conforms valid.check, records]
    decide
  constructor
  · exact (decode_take valid sound accepted .refuse long).2.1 1 (by rw [records]; rfl)
  · refine (decode_take valid sound accepted .replace (Nat.lt_of_succ_lt long)).2.2 fun n => ?_
    rw [records]
    rcases n with _ | _ | n <;> simp

end Samples

end Message

end SchemaRpc
