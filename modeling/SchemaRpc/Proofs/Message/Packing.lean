import SchemaRpc.Proofs.Message.Decoding
import SchemaRpc.Proofs.Message.UnknownFields

namespace SchemaRpc

inductive Field.Layout (f : Field) : List Bytes → Bytes → Prop
  | nil : Layout f [] []
  | tagged {e head rest : Bytes} {es : List Bytes} (tag : f.tag.Spelled head)
      (others : Layout f es rest) : Layout f (e :: es) (head ++ e ++ rest)
  | run {es others : List Bytes} {head len rest : Bytes}
      (tag : Tag.Spelled ⟨f.number, .delimited⟩ head)
      (length : Varint.Spelled 0 es.flatten.length len) (next : Layout f others rest) :
      Layout f (es ++ others) (head ++ (len ++ es.flatten) ++ rest)

def Field.Element (s : Schema) (rule : GroupRule) (f : Field) (v : Value) (e : Bytes) : Prop :=
  ∃ p, Reader.plainPayload f.tag e = .ok p [] ∧
    f.kind.element (Message.decodeWithin s rule Error.nestingLimit) p = .ok v

theorem Field.layout_records {f : Field} (positive : 0 < f.number) (small : f.number ≤ Tag.maxNumber)
    (es : List Bytes) : f.Layout es (es.flatMap f.record) := by
  induction es with
  | nil => exact .nil
  | cons e es ih => exact .tagged (Tag.spelled_encode positive small) ih

theorem MessageType.meaning_eq_run {t : MessageType} {f : Field} {body : Bytes}
    (h : t.field? f.number = some f) (repeated : f.isRepeated = true)
    (packable : f.kind.isPackable = true) : t.meaning ⟨f.number, .delimited body⟩ = .run f body := by
  have hk : Payload.kind (.delimited body) ≠ f.wireKind :=
    fun he => of_decide_eq_true packable he.symm
  simp only [meaning, h, if_neg hk, repeated, packable, Bool.and_self, if_true]

namespace Message

def extend (m : Message) (f : Field) (vs : List Value) : Message :=
  vs.foldl (fun m v => m.append f v) m

variable {s : Schema} {rule : GroupRule} {type : String} {f : Field} {m : Message} {es : List Bytes}
variable {bytes : Bytes} {value : Bytes → Value}

theorem extend_append (m : Message) (f : Field) (vs ws : List Value) :
    m.extend f (vs ++ ws) = (m.extend f vs).extend f ws :=
  List.foldl_append

theorem type_extend (m : Message) (f : Field) (vs : List Value) : (m.extend f vs).type = m.type := by
  induction vs generalizing m with
  | nil => rfl
  | cons v vs ih => exact (ih (m.append f v)).trans (type_append m f v)

theorem get?_extend {items : List Value} (h : m.get? f.number = some (.list items))
    (vs : List Value) (k : Nat) :
    (m.extend f vs).get? k = if k = f.number then some (.list (items ++ vs)) else m.get? k := by
  induction vs generalizing m items with
  | nil =>
      rw [List.append_nil, ← h]
      split
      · next hk => rw [hk]; rfl
      · rfl
  | cons v vs ih =>
      have hv : ∀ k, (m.append f v).get? k =
          if k = f.number then some (.list (items ++ [v])) else m.get? k := fun k => by
        rw [append_eq, get?_insert, appended, h]
      have := ih ((hv f.number).trans (if_pos rfl))
      rw [List.append_assoc, hv] at this
      refine this.trans ?_
      split <;> rfl

theorem reads_of_element {v : Value} {e : Bytes} (h : f.Element s rule v e) :
    ∃ p, p.kind = f.wireKind ∧ f.tag.kind.Spelled e ∧ (Reader.plainPayload f.tag).Reads p e ∧
      f.kind.element (decodeWithin s rule Error.nestingLimit) p = .ok v := by
  obtain ⟨p, hp, hv⟩ := h
  obtain ⟨hk, used, he, spelled⟩ := Reader.spelled_of_plainPayload hp
  obtain ⟨used', he', reads⟩ := Reader.local_plainPayload f.tag hp
  rw [List.append_nil] at he he'
  subst he he'
  exact ⟨p, hk, spelled, reads, hv⟩

theorem foldRun_elements (elements : ∀ e ∈ es, f.Element s rule (value e) e) (m : Message) :
    foldRun f.tag
      (fun m p => (f.kind.element (decodeWithin s rule Error.nestingLimit) p).bind fun v =>
        .ok (m.append f v)) m es.flatten = .ok (m.extend f (es.map value)) := by
  induction es generalizing m with
  | nil => exact foldRun_nil m
  | cons e es ih =>
      obtain ⟨he, elements⟩ := List.forall_mem_cons.1 elements
      obtain ⟨p, -, -, reads, hv⟩ := reads_of_element he
      rw [List.flatten_cons, foldRun_payload reads, hv]
      exact ih elements (m.append f (value e))

theorem foldRecords_layout (layout : f.Layout es bytes) (field : (s.find type).field? f.number = some f)
    (repeated : f.isRepeated = true) (packable : f.kind.isPackable = true)
    (elements : ∀ e ∈ es, f.Element s rule (value e) e) (hm : m.type = type) (rest : Bytes) :
    foldRecords (absorb s rule (decodeWithin s rule Error.nestingLimit)) m (bytes ++ rest) =
      foldRecords (absorb s rule (decodeWithin s rule Error.nestingLimit)) (m.extend f (es.map value))
        rest := by
  induction layout generalizing m with
  | nil => rfl
  | @tagged e head left es tag _ ih =>
      obtain ⟨he, elements⟩ := List.forall_mem_cons.1 elements
      obtain ⟨p, hk, spelled, reads, hv⟩ := reads_of_element he
      have hf : (m.messageType s).field? f.number = some f := by rwa [messageType, hm]
      rw [List.append_assoc, foldRecords_record (Reader.reads_record_plain tag spelled reads)]
      change Except.bind (m.absorb s rule _ ⟨f.number, p⟩) _ = _
      rw [absorb_element hf hk, hv]
      change Except.bind (m.keep s rule f (value e)) _ = _
      rw [keep_repeated (Field.isRepeated_iff.1 repeated)]
      exact ih elements ((type_append m f _).trans hm)
  | @run es others head len left tag length _ ih =>
      obtain ⟨first, elements⟩ := List.forall_mem_append.1 elements
      have hf : (m.messageType s).field? f.number = some f := by rwa [messageType, hm]
      have hr : Reader.record.Reads ⟨f.number, .delimited es.flatten⟩ (head ++ (len ++ es.flatten)) :=
        Reader.reads_record_plain tag (.delimited length)
          ((Reader.reads_delimited length).map Payload.delimited)
      rw [List.append_assoc, foldRecords_record hr,
        absorb_of_run (MessageType.meaning_eq_run hf repeated packable), foldRun_elements first]
      rw [List.map_append, extend_append]
      exact ih elements ((type_extend m f _).trans hm)

theorem decode_layout {a : Bytes} (valid : s.Valid type) (field : f ∈ (s.find type).fields)
    (repeated : f.isRepeated = true) (packable : f.kind.isPackable = true)
    (accepted : decode s rule type a = .ok m) (layout : f.Layout es bytes)
    (elements : ∀ e ∈ es, f.Element s rule (value e) e) :
    (∀ b, decode s rule type (a ++ bytes ++ b) = decode s rule type (a ++ es.flatMap f.record ++ b)) ∧
      ∃ m', decode s rule type (a ++ bytes) = .ok m' ∧ m'.type = type ∧
        ∀ k, m'.get? k =
          if k = f.number then some (.list (m.itemsAt k ++ es.map value)) else m.get? k := by
  have hf := MessageType.field?_of_mem valid.check field
  obtain ⟨positive, small⟩ := MessageType.number_of_check valid.check field
  obtain ⟨-, rs, -, hrs, hfold⟩ := records_of_foldRecords accepted
  obtain ⟨htype, hwell⟩ := readsWell_decodeWithin s rule (Error.nestingLimit + 1) type a m valid accepted
  have behind : ∀ {bytes : Bytes}, f.Layout es bytes → ∀ b, decode s rule type (a ++ bytes ++ b) =
      foldRecords (absorb s rule (decodeWithin s rule Error.nestingLimit)) (m.extend f (es.map value))
        b := by
    intro bytes layout b
    have hfold : rs.foldlM (absorb s rule (decodeWithin s rule Error.nestingLimit))
        (zero (s.find type)) = .ok m := hfold
    rw [List.append_assoc, decode, decodeWithin, foldRecords_records hrs, hfold]
    exact foldRecords_layout layout hf repeated packable elements htype b
  refine ⟨fun b => ?_, m.extend f (es.map value), ?_, (type_extend m f _).trans htype, fun k => ?_⟩
  · rw [behind layout, behind (Field.layout_records positive small es)]
  · have := behind layout []
    rwa [List.append_nil, foldRecords_nil] at this
  · have well := (hwell 0 m .self).2
    have hmem : f ∈ (m.messageType s).fields := by rwa [messageType, htype]
    have check : (m.messageType s).check = .ok () := by
      rw [messageType, htype]
      exact valid.check
    have hr := Field.isRepeated_iff.1 repeated
    obtain ⟨v, hv⟩ := has_eq_true_iff.1 (well.present f hmem (.inl hr))
    obtain ⟨items, rfl, -⟩ := (well.holds check hmem hv).items hr
    rw [get?_extend hv]
    split
    · next hk => rw [itemsAt, hk, hv]
    · rfl

section Samples

def points : Field := (Field.single "points" "points" 3 (.scalar .uint32)).repeated

def series : Schema :=
  ⟨[⟨"chart.Series", [.single "name" "name" 1 (.scalar .string), points]⟩]⟩

def pointOf (e : Bytes) : Value :=
  .uint32 (if e = [8] then 8 else if e = [5] then 5 else 1)

theorem layout_series :
    points.Layout [[8], [0x81, 0], [5]] ([24, 8] ++ ([26, 0] ++ [26, 3, 0x81, 0, 5])) := by
  have own : points.tag.Spelled [24] := ⟨by decide, by decide, spelled_small (by decide)⟩
  have run : Tag.Spelled ⟨points.number, .delimited⟩ [26] :=
    ⟨by decide, by decide, spelled_small (by decide)⟩
  have none : Varint.Spelled 0 ([] : List Bytes).flatten.length [0] := spelled_small (by decide)
  have three : Varint.Spelled 0 ([[0x81, 0], [5]] : List Bytes).flatten.length [3] :=
    spelled_small (by decide)
  exact .tagged own (.run run none (.run run three .nil))

theorem element_series : ∀ e ∈ [[8], [0x81, 0], [5]],
    points.Element series .refuse (pointOf e) e := by
  simp only [List.forall_mem_cons]
  exact ⟨⟨.varint 8, by cbv, rfl⟩, ⟨.varint 1, by cbv, rfl⟩, ⟨.varint 5, by cbv, rfl⟩, nofun⟩

theorem decode_series :
    decode series .refuse "chart.Series"
        ([10, 1, 97, 24, 7] ++ ([24, 8] ++ ([26, 0] ++ [26, 3, 0x81, 0, 5])) ++ [10, 1, 98]) =
      decode series .refuse "chart.Series"
        ([10, 1, 97, 24, 7] ++ [24, 8, 24, 0x81, 0, 24, 5] ++ [10, 1, 98]) ∧
    ∃ m, decode series .refuse "chart.Series"
        ([10, 1, 97, 24, 7] ++ ([24, 8] ++ ([26, 0] ++ [26, 3, 0x81, 0, 5]))) = .ok m ∧
      m.get? 3 = some (.list [.uint32 7, .uint32 8, .uint32 1, .uint32 5]) := by
  have valid : series.Valid "chart.Series" :=
    Schema.valid_of_closed ["chart.Series"] (by decide) (by decide)
  have accepted : decode series .refuse "chart.Series" [10, 1, 97, 24, 7] =
      .ok ⟨"chart.Series", [(1, .string "a"), (3, .list [.uint32 7])]⟩ := by cbv
  obtain ⟨same, m, hm, -, hget⟩ := decode_layout valid (f := points) (by decide) (by decide) (by decide)
    accepted layout_series element_series
  have records : [[8], [0x81, 0], [5]].flatMap points.record = [24, 8, 24, 0x81, 0, 24, 5] := by cbv
  exact ⟨records ▸ same [10, 1, 98], m, hm, hget 3⟩

end Samples

end Message

end SchemaRpc
