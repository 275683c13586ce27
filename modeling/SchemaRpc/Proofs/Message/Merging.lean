import SchemaRpc.Proofs.Message.Accessors
import SchemaRpc.Proofs.Message.Decoding
import SchemaRpc.Proofs.Message.Ordering

namespace SchemaRpc

section Readable

variable {σ : Type} {step : σ → Record → Except Error σ} {st st' : σ}
variable {s : Schema} {f : Field} {v : Value}

theorem Reader.lt_word_of_delimited {body rest found left : Bytes}
    (h : Reader.delimited (body.withLength ++ rest) = .ok found left) :
    body.length < 18446744073709551616 := by
  obtain ⟨n, middle, hv, -⟩ := Reader.bind_eq_ok h
  rw [Bytes.withLength, List.append_assoc, Reader.varint] at hv
  split at hv
  · next hd => exact Varint.lt_word_of_decode hd
  · cases hv
  · cases hv

theorem Field.short_of_record (positive : 0 < f.number) (small : f.number ≤ Tag.maxNumber)
    (h : v.Admissible f.kind) {r : Record} {rest left : Bytes}
    (hr : Reader.record (f.record (v.payload s) ++ rest) = .ok r left) : v.Short s := by
  intro body hb
  have hk : f.tag.kind = .delimited := by
    have := Value.kind_asPayload h (s := s)
    rw [hb] at this
    exact this.symm
  obtain ⟨t, middle, ht, hp, -⟩ := Reader.record_eq_ok hr
  rw [Field.record, List.append_assoc,
    Reader.reads_tag (Tag.spelled_encode (t := f.tag) positive small)] at ht
  cases ht
  rw [Reader.payload_of_plain (by simp [hk])] at hp
  simp only [Reader.plainPayload, hk] at hp
  obtain ⟨found, last, hd, -⟩ := Reader.bind_eq_ok hp
  rw [Value.payload_of_asPayload hb] at hd
  exact Reader.lt_word_of_delimited hd

theorem record_of_foldRecords {bytes : Bytes} (hne : bytes ≠ [])
    (h : foldRecords step st bytes = .ok st') :
    ∃ r left, Reader.record bytes = .ok r left := by
  have hfull : ¬bytes.isEmpty = true := fun he => hne (List.isEmpty_iff.1 he)
  rw [foldRecords, if_neg hfull] at h
  split at h
  · cases h
  · next r rest hr => exact ⟨r, rest, hr⟩

theorem Tag.encode_ne_nil (t : Tag) : t.encode ≠ [] := by
  unfold encode Varint.encodeNat
  split <;> exact List.cons_ne_nil _ _

theorem Field.short_of_foldRecords (positive : 0 < f.number) (small : f.number ≤ Tag.maxNumber)
    (h : f.Holds v) {rest : Bytes}
    (hf : foldRecords step st (f.encode (v.written s) ++ rest) = .ok st') :
    ∀ e ∈ v.elements, e.Short s := by
  have first : ∀ (e : Value) (st : σ) (rest : Bytes), e.Admissible f.kind →
      foldRecords step st (f.record (e.payload s) ++ rest) = .ok st' → e.Short s := by
    intro e st rest he hfold
    have hne : f.record (e.payload s) ++ rest ≠ [] := by
      simp [Field.record, Tag.encode_ne_nil]
    obtain ⟨r, left, hr⟩ := record_of_foldRecords hne hfold
    exact Field.short_of_record positive small he hr
  by_cases hr : f.cardinality = .repeated
  · obtain ⟨items, rfl, hi⟩ := h.items hr
    rw [Value.written, Value.payloads_eq, Field.encode, if_pos (Field.isRepeated_iff.2 hr)] at hf
    clear h
    rw [Value.elements]
    induction items generalizing st with
    | nil => exact fun e he => by cases he
    | cons e items ih =>
        rw [List.map_cons, List.flatMap_cons, List.append_assoc] at hf
        obtain ⟨he, hi⟩ := List.forall_mem_cons.1 hi
        have short := first e st _ he hf
        rw [foldRecords_record (Field.records_record positive small he short)] at hf
        obtain ⟨mid, -, hf⟩ := Except.bind_eq_ok hf
        exact List.forall_mem_cons.2 ⟨short, ih hi hf⟩
  · have hrep : ¬f.isRepeated = true := fun hf => hr (Field.isRepeated_iff.1 hf)
    rw [Value.written_of_elements (h.elements hr), Field.encode] at hf
    rw [h.elements hr, List.forall_mem_singleton]
    split at hf
    · next hd =>
        intro body hb
        rw [Value.body_of_isDefault (Bool.and_eq_true_iff.1 hd).1 hb]
        decide
    · next hd => exact first v st rest (Message.admissible_of_written h hr hd) hf

theorem Message.short_of_foldRecords {m : Message} (h : m.Conforms s)
    (check : (m.messageType s).check = .ok ())
    (hf : foldRecords step st (m.encode s) = .ok st') : ∀ e, m.Contains e → e.Short s := by
  have fields : ∀ (fs : List Field) (st : σ), (∀ f ∈ fs, f ∈ (m.messageType s).fields) →
      foldRecords step st (fs.flatMap (m.encodeField s)) = .ok st' →
      ∀ f ∈ fs, ∀ v, m.get? f.number = some v → ∀ e ∈ v.elements, e.Short s := by
    intro fs
    induction fs with
    | nil => exact fun st _ _ f hf => by cases hf
    | cons f fs ih =>
        intro st hmem hfold
        obtain ⟨hmemf, hmem⟩ := List.forall_mem_cons.1 hmem
        rw [List.flatMap_cons, encodeField] at hfold
        cases hv : m.get? f.number with
        | none =>
            rw [hv] at hfold
            refine List.forall_mem_cons.2 ⟨fun v hn => ?_, ih st hmem hfold⟩
            rw [hv] at hn
            cases hn
        | some v =>
            rw [hv] at hfold
            obtain ⟨positive, small⟩ := MessageType.number_of_check check hmemf
            have hholds := h.holds check hmemf hv
            have short := Field.short_of_foldRecords positive small hholds hfold
            rw [foldRecords_records (Field.records_encode positive small hholds short)] at hfold
            obtain ⟨mid, -, hfold⟩ := Except.bind_eq_ok hfold
            refine List.forall_mem_cons.2 ⟨fun w hw => ?_, ih mid hmem hfold⟩
            rw [hv] at hw
            cases hw
            exact short
  rintro e ⟨n, v, hv, he⟩
  obtain ⟨f, hmem, rfl, -⟩ := h.declared n v hv
  rw [encode_eq] at hf
  exact fields _ st (fun f hf => hf) hf f hmem v hv e he

end Readable

namespace Message

/-- What a field holds after the second message: a list goes on behind the first one's, and the value
of any other field or group is the later one, if there is one. A single field's default value is
none. -/
def mergedValue? (s : Schema) (a b : Message) (f : Field) : Option Value :=
  match f.cardinality with
  | .repeated => some (.list (a.itemsAt f.number ++ b.itemsAt f.number))
  | .single =>
    match b.get? f.number with
    | some v => if v.isDefault then a.get? f.number else some v
    | none => a.get? f.number
  | .optionalGroup group =>
    match b.which? s group with
    | some _ => b.get? f.number
    | none => a.get? f.number

def merged (s : Schema) (a b : Message) : Message :=
  (a.messageType s).fields.foldl (withValue (mergedValue? s a b)) (empty a.type)

variable {s : Schema} {a b acc acc' : Message} {f g : Field} {v : Value} {rest : List Field}

theorem get?_merged (check : (a.messageType s).check = .ok ()) (k : Nat) :
    (merged s a b).get? k = ((a.messageType s).field? k).bind (mergedValue? s a b) := by
  rw [merged, get?_foldl_withValue _ k (MessageType.pairwise_of_check check)]
  exact Option.or_none

theorem get?_merged_of_mem (check : (a.messageType s).check = .ok ())
    (hf : f ∈ (a.messageType s).fields) :
    (merged s a b).get? f.number = mergedValue? s a b f := by
  rw [get?_merged check, MessageType.field?_of_mem check hf]
  rfl

structure Mergeable (s : Schema) (a b : Message) : Prop where
  first : a.Complete s
  second : b.Complete s
  type : b.type = a.type
  check : (a.messageType s).check = .ok ()

theorem bound_iff {m : Message} (check : (m.messageType s).check = .ok ())
    (hf : f ∈ (m.messageType s).fields) {k : Nat} :
    (m.messageType s).Bound f.number k ↔
      k = f.number ∨ ∃ g ∈ m.siblings s f, g.number = k := by
  have hfield := MessageType.field?_of_mem check hf
  constructor
  · rintro (rfl | ⟨group, hgroup, hk⟩)
    · exact .inl rfl
    · obtain ⟨g, hg, hgk⟩ := Option.bind_eq_some_iff.1 hk
      obtain ⟨hmem, rfl⟩ := MessageType.field?_eq_some hg
      rw [MessageType.groupOf?, hfield] at hgroup
      by_cases hn : g.number = f.number
      · exact .inl hn
      · exact .inr ⟨g, (mem_siblings s).2 ⟨hmem, Option.isSome_of_eq_some hgroup,
          hgk.trans hgroup.symm, hn⟩, rfl⟩
  · rintro (rfl | ⟨g, hg, rfl⟩)
    · exact .inl rfl
    · exact bound_of_mem_siblings check hfield hg

theorem bound_iff_of_ungrouped {m : Message} (check : (m.messageType s).check = .ok ())
    (hf : f ∈ (m.messageType s).fields) (hg : f.group? = none) {k : Nat} :
    (m.messageType s).Bound f.number k ↔ k = f.number := by
  have hnone : m.siblings s f = [] := by rw [siblings, hg]
  simp [bound_iff check hf, hnone]

theorem mergedValue?_of_repeated (hr : f.cardinality = .repeated) {earlier items : List Value}
    (hearlier : a.get? f.number = some (.list earlier))
    (hitems : b.get? f.number = some (.list items)) :
    mergedValue? s a b f = some (.list (earlier ++ items)) := by
  simp only [mergedValue?, hr, itemsAt, hearlier, hitems]

theorem mergedValue?_of_left_out (hr : f.cardinality ≠ .repeated) (hv : b.get? f.number = some v)
    (hd : (v.isDefault && f.group?.isNone) = true) : mergedValue? s a b f = a.get? f.number := by
  obtain ⟨hdef, hnone⟩ := Bool.and_eq_true_iff.1 hd
  cases hc : f.cardinality with
  | repeated => exact absurd hc hr
  | single => simp only [mergedValue?, hc, hv, hdef, ↓reduceIte]
  | optionalGroup group => rw [Field.group?, hc] at hnone; cases hnone

namespace Mergeable

variable (h : Mergeable s a b)
include h

theorem messageType_eq : b.messageType s = a.messageType s := by
  rw [messageType, h.type, messageType]

theorem check_second : (b.messageType s).check = .ok () := by
  rw [h.messageType_eq]
  exact h.check

theorem mem_second (hf : f ∈ (a.messageType s).fields) : f ∈ (b.messageType s).fields := by
  rwa [h.messageType_eq]

theorem value?_of_absent (hf : f ∈ (a.messageType s).fields)
    (absent : ∀ g ∈ (a.messageType s).fields, (a.messageType s).Bound g.number f.number →
      b.get? g.number = none) : mergedValue? s a b f = a.get? f.number := by
  have hown := absent f hf (.inl rfl)
  cases hc : f.cardinality with
  | repeated =>
      have := h.second.present f (h.mem_second hf) (.inl hc)
      rw [has, hown] at this
      cases this
  | single => simp only [mergedValue?, hc, hown]
  | optionalGroup group =>
      have hnone : b.which? s group = none := by
        refine which?_eq_none fun g hg => ?_
        obtain ⟨hmem, hgroup⟩ := mem_groupMembers.1 hg
        rw [h.messageType_eq] at hmem
        refine absent g hmem (.inr ⟨group, ?_, ?_⟩)
        · rw [MessageType.groupOf?, MessageType.field?_of_mem h.check hmem]
          exact hgroup
        · rw [MessageType.groupOf?, MessageType.field?_of_mem h.check hf, Option.bind_some,
            Field.group?, hc]
      simp only [mergedValue?, hc, hnone]

theorem value?_of_written (hf : f ∈ (a.messageType s).fields) (hr : f.cardinality ≠ .repeated)
    (hv : b.get? f.number = some v) (hd : ¬(v.isDefault && f.group?.isNone) = true) :
    mergedValue? s a b f = some v := by
  cases hc : f.cardinality with
  | repeated => exact absurd hc hr
  | single =>
      have hnone : f.group? = none := by rw [Field.group?, hc]
      have hset : ¬v.isDefault = true := by simpa [hnone] using hd
      simp only [mergedValue?, hc, hv, if_neg hset]
  | optionalGroup group =>
      have hmember : f ∈ (b.messageType s).groupMembers group :=
        mem_groupMembers.2 ⟨h.mem_second hf, by rw [Field.group?, hc]⟩
      have hw := which?_eq_some h.second.toConforms h.check_second hmember
        (has_eq_true_iff.2 ⟨v, hv⟩)
      simp only [mergedValue?, hc, hw, hv]

theorem value?_of_sibling (hf : f ∈ (a.messageType s).fields) (hv : b.get? f.number = some v)
    (hg : g ∈ a.siblings s f) : mergedValue? s a b g = none := by
  obtain ⟨hmem, hsome, hsame, hne⟩ := (mem_siblings s).1 hg
  obtain ⟨group, hgroup⟩ := Option.isSome_iff_exists.1 hsome
  rw [hgroup] at hsame
  have hw := which?_eq_some h.second.toConforms h.check_second
    (mem_groupMembers.2 ⟨h.mem_second hf, hgroup⟩) (has_eq_true_iff.2 ⟨v, hv⟩)
  have hnone := (of_which? h.second.toConforms hw).2.2 g
    (mem_groupMembers.2 ⟨h.mem_second hmem, hsame⟩) hne
  cases hc : g.cardinality with
  | optionalGroup other =>
      rw [Field.group?, hc] at hsame
      cases hsame
      simp only [mergedValue?, hc, hw, hnone]
  | _ => rw [Field.group?, hc] at hsame; cases hsame

theorem not_bound (hf : f ∈ (a.messageType s).fields) (hg : g ∈ (a.messageType s).fields)
    (hne : f.number ≠ g.number) (hhf : b.has f.number = true) (hhg : b.has g.number = true) :
    ¬(a.messageType s).Bound g.number f.number := by
  rw [bound_iff h.check hg]
  rintro (he | ⟨x, hx, hn⟩)
  · exact hne he
  · obtain ⟨hmem, hsome, hsame, -⟩ := (mem_siblings s).1 hx
    obtain ⟨group, hgroup⟩ := Option.isSome_iff_exists.1 hsome
    rw [MessageType.eq_of_number h.check hmem hf hn] at hsame
    exact hne (h.second.exclusive group f
      (mem_groupMembers.2 ⟨h.mem_second hf, hsame.trans hgroup⟩) g
      (mem_groupMembers.2 ⟨h.mem_second hg, hgroup⟩) hhf hhg)

end Mergeable

/-- How far the reader has come: a field is as in the first message as long as there is something to
come for it or for its group, and after that it is merged. -/
structure Merging (s : Schema) (a b : Message) (rest : List Field) (acc : Message) : Prop where
  kept : acc.Kept a.type
  get? : ∀ k, acc.get? k =
    if ∃ g ∈ rest, b.has g.number = true ∧ (a.messageType s).Bound g.number k then a.get? k
    else (merged s a b).get? k

namespace Merging

theorem start (pair : Mergeable s a b) : Merging s a b (a.messageType s).fields a where
  kept := ⟨rfl, pair.first.ascending⟩
  get? := by
    intro k
    split
    · rfl
    · next hfree =>
        rw [get?_merged pair.check]
        cases hk : (a.messageType s).field? k with
        | none =>
            cases hv : a.get? k with
            | none => rfl
            | some v =>
                obtain ⟨f, hf, rfl, -⟩ := pair.first.declared k v hv
                rw [MessageType.field?_of_mem pair.check hf] at hk
                cases hk
        | some f =>
            obtain ⟨hf, rfl⟩ := MessageType.field?_eq_some hk
            refine (pair.value?_of_absent hf fun g hg hbound => ?_).symm
            exact Option.not_isSome_iff_eq_none.1 fun hh => hfree ⟨g, hg, hh, hbound⟩

theorem finish (h : Merging s a b [] acc) : acc = merged s a b := by
  refine ext_get? ?_ h.kept.ascending ?_ fun k => ?_
  · rw [merged, type_foldl_withValue]
    exact h.kept.type
  · exact (ascending_empty _).foldl_withValue _
  · rw [h.get?]
    exact if_neg (by simp)

theorem skip (h : Merging s a b (f :: rest) acc) (hf : b.get? f.number = none) :
    Merging s a b rest acc where
  kept := h.kept
  get? := by
    intro k
    have hnot : b.has f.number = false := by rw [has, hf]; rfl
    simpa [hnot] using h.get? k

theorem get?_first (h : Merging s a b (f :: rest) acc) (hf : b.get? f.number = some v) :
    acc.get? f.number = a.get? f.number := by
  rw [h.get?]
  exact if_pos ⟨f, List.mem_cons_self, has_eq_true_iff.2 ⟨v, hf⟩, .inl rfl⟩

section Field

variable (h : Merging s a b (f :: rest) acc) (pair : Mergeable s a b)
variable (fields : ∀ g ∈ f :: rest, g ∈ (a.messageType s).fields)
variable (distinct : (f :: rest).Pairwise fun f g => f.number ≠ g.number)
include h pair fields distinct

theorem next (kept : acc'.Kept a.type) (hv : b.get? f.number = some v)
    (own : ∀ k, (a.messageType s).Bound f.number k → acc'.get? k = (merged s a b).get? k)
    (others : ∀ k, ¬(a.messageType s).Bound f.number k → acc'.get? k = acc.get? k) :
    Merging s a b rest acc' where
  kept := kept
  get? := by
    intro k
    by_cases hk : (a.messageType s).Bound f.number k
    · rw [own k hk]
      refine (if_neg ?_).symm
      rintro ⟨g, hg, hh, hbound⟩
      exact pair.not_bound (fields f List.mem_cons_self) (fields g (List.mem_cons_of_mem _ hg))
        ((List.pairwise_cons.1 distinct).1 g hg) (has_eq_true_iff.2 ⟨v, hv⟩) hh
        (hbound.trans hk.symm)
    · rw [others k hk]
      simpa [hk] using h.get? k

theorem join (hr : f.cardinality = .repeated) {earlier items : List Value}
    (hearlier : a.get? f.number = some (.list earlier))
    (hitems : b.get? f.number = some (.list items)) :
    Merging s a b rest (acc.insert f.number (.list (earlier ++ items))) := by
  have hf := fields f List.mem_cons_self
  have hbound := fun k =>
    bound_iff_of_ungrouped pair.check hf (Field.group?_of_repeated hr) (k := k)
  refine h.next pair fields distinct ⟨h.kept.type, h.kept.ascending.insert _ _⟩ hitems
    (fun k hk => ?_) fun k hk => ?_
  · rw [(hbound k).1 hk, get?_insert_self, get?_merged_of_mem pair.check hf,
      mergedValue?_of_repeated hr hearlier hitems]
  · rw [get?_insert, if_neg fun he => hk ((hbound k).2 he)]

theorem leave (hr : f.cardinality ≠ .repeated) (hv : b.get? f.number = some v)
    (hd : (v.isDefault && f.group?.isNone) = true) : Merging s a b rest acc := by
  have hf := fields f List.mem_cons_self
  have hnone := Option.isNone_iff_eq_none.1 (Bool.and_eq_true_iff.1 hd).2
  refine h.next pair fields distinct h.kept hv (fun k hk => ?_) fun k _ => rfl
  rw [(bound_iff_of_ungrouped pair.check hf hnone).1 hk, h.get?_first hv,
    get?_merged_of_mem pair.check hf, mergedValue?_of_left_out hr hv hd]

theorem store (hr : f.cardinality ≠ .repeated) (hv : b.get? f.number = some v)
    (hd : ¬(v.isDefault && f.group?.isNone) = true) :
    Merging s a b rest (acc.store s f v) := by
  have hf := fields f List.mem_cons_self
  have hsiblings := siblings_eq h.kept.type f (s := s)
  refine h.next pair fields distinct
    ⟨(type_store s acc f v).trans h.kept.type, h.kept.ascending.store s f v⟩ hv
    (fun k hk => ?_) fun k hk => ?_
  · rw [get?_store s h.kept.ascending, hsiblings]
    rcases (bound_iff pair.check hf).1 hk with rfl | ⟨g, hg, rfl⟩
    · rw [if_pos rfl, get?_merged_of_mem pair.check hf, pair.value?_of_written hf hr hv hd]
    · obtain ⟨hmem, -, -, hne⟩ := (mem_siblings s).1 hg
      rw [if_neg hne, if_pos ⟨g, hg, rfl⟩, get?_merged_of_mem pair.check hmem,
        pair.value?_of_sibling hf hv hg]
  · rw [bound_iff pair.check hf, not_or] at hk
    rw [get?_store s h.kept.ascending, hsiblings, if_neg hk.1, if_neg hk.2]

end Field

end Merging

section Reading

variable {levels : Nat} {nested : String → Bytes → Except Error Message}

structure ReadsBack (s : Schema) (levels : Nat) (nested : String → Bytes → Except Error Message)
    (b : Message) : Prop where
  inner : ∀ k, b.Contains (.message k) →
    Settles (k.Readable levels) (nested k.type (k.encode s)) (k.completed s)
  readable : ∀ e, b.Contains e → e.Readable levels
  complete : ∀ e, b.Contains e → e.completed s = e

theorem ReadsBack.items (back : ReadsBack s levels nested b) (ascending : acc.Ascending)
    (hf : (acc.messageType s).field? f.number = some f) (hr : f.cardinality = .repeated)
    {earlier items : List Value} (hearlier : acc.get? f.number = some (.list earlier))
    (hitems : b.get? f.number = some (.list items)) (hi : ∀ e ∈ items, e.Admissible f.kind) :
    (items.map fun e => (⟨f.number, e.asPayload s⟩ : Record)).foldlM
        (absorb s .replace nested) acc =
      .ok (acc.insert f.number (.list (earlier ++ items))) := by
  have hread := (settles_items .replace hf hr ascending hi
    (fun k hk => back.inner k ⟨_, _, hitems, hk⟩) hearlier).ok
    fun e he => back.readable e ⟨_, _, hitems, he⟩
  have hsame : items.map (·.completed s) = items.map id :=
    List.map_congr_left fun e he => back.complete e ⟨_, _, hitems, he⟩
  rwa [hsame, List.map_id] at hread

theorem ReadsBack.element (back : ReadsBack s levels nested b)
    (hf : (acc.messageType s).field? f.number = some f) (hr : f.cardinality ≠ .repeated)
    (hv : b.get? f.number = some v) (ha : v.Admissible f.kind) :
    acc.absorb s .replace nested ⟨f.number, v.asPayload s⟩ = .ok (acc.store s f v) := by
  have hc : b.Contains v := ⟨_, _, hv, by
    rw [Value.elements_of_admissible ha]
    exact List.mem_singleton_self v⟩
  have hread := (Value.settles ha fun k hk => back.inner k (hk ▸ hc)).ok (back.readable v hc)
  rw [absorb_element hf (Value.kind_asPayload ha), hread, back.complete v hc, Except.bind, keep]
  cases hcard : f.cardinality with
  | repeated => exact absurd hcard hr
  | _ => simp

theorem Merging.field (h : Merging s a b (f :: rest) acc) (pair : Mergeable s a b)
    (fields : ∀ g ∈ f :: rest, g ∈ (a.messageType s).fields)
    (distinct : (f :: rest).Pairwise fun f g => f.number ≠ g.number)
    (back : ReadsBack s levels nested b) :
    ∃ acc', Merging s a b rest acc' ∧
      (b.fieldRecords s f).foldlM (absorb s .replace nested) acc = .ok acc' := by
  have hf := fields f List.mem_cons_self
  have hfield : (acc.messageType s).field? f.number = some f := by
    rw [messageType, h.kept.type]
    exact MessageType.field?_of_mem pair.check hf
  cases hv : b.get? f.number with
  | none =>
      refine ⟨acc, h.skip hv, ?_⟩
      rw [fieldRecords, hv]
      rfl
  | some v =>
      have hholds := pair.second.holds pair.check_second (pair.mem_second hf) hv
      rw [fieldRecords_of_get? hv, Field.records]
      by_cases hr : f.cardinality = .repeated
      · obtain ⟨items, rfl, hi⟩ := hholds.items hr
        obtain ⟨w, hw⟩ := has_eq_true_iff.1 (pair.first.present f hf (.inl hr))
        obtain ⟨earlier, rfl, -⟩ := (pair.first.holds pair.check hf hw).items hr
        rw [if_pos (Field.isRepeated_iff.2 hr)]
        exact ⟨_, h.join pair fields distinct hr hw hv,
          back.items h.kept.ascending hfield hr ((h.get?_first hv).trans hw) hv hi⟩
      · rw [if_neg fun hf => hr (Field.isRepeated_iff.1 hf)]
        split
        · next hd => exact ⟨acc, h.leave pair fields distinct hr hv hd, rfl⟩
        · next hd =>
            refine ⟨_, h.store pair fields distinct hr hv hd, ?_⟩
            rw [List.foldlM_cons, back.element hfield hr hv (admissible_of_written hholds hr hd)]
            rfl

theorem Merging.run (h : Merging s a b rest acc) (pair : Mergeable s a b)
    (fields : ∀ g ∈ rest, g ∈ (a.messageType s).fields)
    (distinct : rest.Pairwise fun f g => f.number ≠ g.number)
    (back : ReadsBack s levels nested b) :
    (rest.flatMap (b.fieldRecords s)).foldlM (absorb s .replace nested) acc =
      .ok (merged s a b) := by
  induction rest generalizing acc with
  | nil => exact congrArg _ h.finish
  | cons f rest ih =>
      obtain ⟨acc', hnext, hread⟩ := h.field pair fields distinct back
      rw [List.flatMap_cons, List.foldlM_append, hread]
      exact ih hnext (List.forall_mem_cons.1 fields).2 (List.pairwise_cons.1 distinct).2

theorem completed_of_contains {e : Value} (valid : s.Valid b.type)
    (h : ∀ depth k, Nested depth b k → depth < levels ∧ k.WellFormed s) (hc : b.Contains e) :
    e.completed s = e := by
  obtain ⟨n, v, hv, he⟩ := hc
  have hb := (h 0 b .self).2
  have hget := get?_completed s hb.ascending n
  rw [completed_of_wellFormed valid h, hv, Option.map_some, Option.some_or] at hget
  have hsame : v.elements.map (·.completed s) = v.elements.map id := by
    rw [← Value.elements_completed, ← Option.some_inj.1 hget, List.map_id]
  exact List.map_inj_left.1 hsame e he

theorem readsBack (valid : s.Valid b.type)
    (h : ∀ depth k, Nested depth b k → depth < levels + 1 ∧ k.WellFormed s)
    (short : ∀ e, b.Contains e → e.Short s) :
    ReadsBack s levels (decodeWithin s .replace levels) b where
  inner := by
    intro k hk
    have sound : b.Sound s := fun d x hx => (h d x hx).2.toConforms
    exact settles_decodeWithin .replace levels (sound.inner hk)
      (sound.conforms.valid_inner valid hk) (short _ hk _ rfl)
  readable := readable_succ_iff.1
    ⟨fun d k hk => (h d k hk).1, fun d k hk t ht => ((h d k hk).2.instants t ht).2⟩
  complete := fun _ hc => completed_of_contains valid h hc

theorem decode_append {type : String} (valid : s.Valid type)
    (ha : decode s .replace type (a.encode s) = .ok a)
    (hb : decode s .replace type (b.encode s) = .ok b) :
    decode s .replace type (a.encode s ++ b.encode s) = .ok (merged s a b) := by
  obtain ⟨rfl, hwa, -⟩ := wellFormed_of_decode valid ha
  obtain ⟨htype, hwb, -⟩ := wellFormed_of_decode valid hb
  have pair : Mergeable s a b :=
    ⟨(hwa 0 a .self).2.complete, (hwb 0 b .self).2.complete, htype, valid.check⟩
  have validb : s.Valid b.type := htype ▸ valid
  have short := short_of_foldRecords pair.second.toConforms pair.check_second hb
  have back := readsBack validb (fun d k hk => ⟨Nat.lt_succ_of_le (hwb d k hk).1, (hwb d k hk).2⟩)
    short
  have hrecords := records_encode_of_short pair.second.toConforms pair.check_second short
  rw [pair.messageType_eq] at hrecords
  obtain ⟨-, rs, -, hrs, hfold⟩ := records_of_foldRecords ha
  have hread := (Merging.start pair).run pair (fun g hg => hg)
    (MessageType.pairwise_of_check pair.check) back
  change foldRecords (absorb s .replace (decodeWithin s .replace 100)) (zero (s.find a.type)) _ = _
  rw [foldRecords_records hrs, hfold]
  exact (foldRecords_eq_foldlM hrecords a).trans hread

end Reading

section Samples

open Catalog

def integers : Message :=
  ⟨"catalog.FieldSchema", [(1, .string "n"),
    (2, .message ⟨"catalog.IntSchema", [(1, .integer .zero), (2, .integer .zero)]⟩),
    (6, .bool true)]⟩

def flags : Message :=
  ⟨"catalog.FieldSchema", [(1, .string ""),
    (5, .message ⟨"catalog.BoolSchema", [(1, .bool true)]⟩), (6, .bool false)]⟩

def created : Message :=
  ⟨"catalog.Catalog", [(1, .string "a"), (2, .string "b"), (3, .string ""),
    (4, .list [.message integers]), (100, .timestamp (.ofMillis 1000)), (102, .integer .zero)]⟩

def renamed : Message :=
  ⟨"catalog.Catalog", [(1, .string ""), (2, .string "c"), (3, .string ""),
    (4, .list [.message flags]), (101, .timestamp (.ofMillis 2000)), (102, .integer .zero)]⟩

theorem decode_append_catalogs :
    decode schema .replace "catalog.Catalog" (created.encode schema ++ renamed.encode schema) =
        .ok ⟨"catalog.Catalog", [(1, .string "a"), (2, .string "c"), (3, .string ""),
          (4, .list [.message integers, .message flags]), (100, .timestamp (.ofMillis 1000)),
          (101, .timestamp (.ofMillis 2000)), (102, .integer .zero)]⟩ ∧
      decode schema .replace "catalog.FieldSchema" (integers.encode schema ++ flags.encode schema) =
        .ok ⟨"catalog.FieldSchema", [(1, .string "n"),
          (5, .message ⟨"catalog.BoolSchema", [(1, .bool true)]⟩), (6, .bool true)]⟩ := by
  have valid : ∀ name ∈ schema.types.map MessageType.name, schema.Valid name := fun name h =>
    Schema.valid_of_closed (schema.types.map MessageType.name) (by decide) h
  constructor
  · rw [decode_append (a := created) (b := renamed) (valid _ (by decide)) (by cbv) (by cbv)]
    rfl
  · rw [decode_append (a := integers) (b := flags) (valid _ (by decide)) (by cbv) (by cbv)]
    rfl

end Samples

end Message

end SchemaRpc
