import Mathlib
import SchemaRpc.Proofs.Message.Reading
import SchemaRpc.Services.Catalog

namespace SchemaRpc

def MessageType.Ignores (t : MessageType) (g : Tag) : Prop :=
  ∀ f, t.field? g.number = some f →
    g.kind ≠ f.wireKind ∧ ¬(g.kind = .delimited ∧ f.isRepeated = true ∧ f.kind.isPackable = true)

theorem MessageType.meaning_of_ignores {t : MessageType} {r : Record} (h : t.Ignores r.tag) :
    t.meaning r = .unknown := by
  rw [meaning]
  cases hf : t.field? r.number with
  | none => rfl
  | some f =>
      obtain ⟨hk, hrun⟩ := h f hf
      have hk : r.payload.kind ≠ f.wireKind := hk
      simp only [if_neg hk]
      split
      · next body hp =>
          refine if_neg fun hb => hrun ⟨?_, Bool.and_eq_true_iff.1 hb⟩
          rw [Record.tag, hp]
          rfl
      · rfl

/-- The second bytes are the first ones with ignored fields put in between two fields, on the level
of the type itself or in the body of a nested message, whose length then changes with it. -/
inductive Padded (s : Schema) : String → Bytes → Bytes → Prop
  | here {type : String} {before ignored after : Bytes} {earlier tags : List Tag}
      (boundary : Fields 64 earlier before) (fields : Fields 64 tags ignored)
      (unknown : ∀ t ∈ tags, (s.find type).Ignores t) :
      Padded s type (before ++ after) (before ++ (ignored ++ after))
  | nested {type inner : String} {f : Field} {earlier : List Tag}
      {before head len body len' body' after : Bytes} (boundary : Fields 64 earlier before)
      (field : (s.find type).field? f.number = some f) (kind : f.kind = .message inner)
      (tag : f.tag.Spelled head) (length : Varint.Spelled 0 body.length len)
      (length' : Varint.Spelled 0 body'.length len') (deeper : Padded s inner body body') :
      Padded s type (before ++ (head ++ (len ++ body) ++ after))
        (before ++ (head ++ (len' ++ body') ++ after))

namespace Message

variable {s : Schema} {rule : GroupRule} {nested : String → Bytes → Except Error Message}

theorem foldlM_absorb_ignored {m : Message} {rs : List Record}
    (h : ∀ r ∈ rs, (m.messageType s).Ignores r.tag) :
    rs.foldlM (absorb s rule nested) m = .ok m := by
  induction rs with
  | nil => rfl
  | cons r rest ih =>
      have hr : m.absorb s rule nested r = .ok m := by
        rw [absorb, MessageType.meaning_of_ignores (h r List.mem_cons_self)]
      rw [List.foldlM_cons, hr]
      exact ih fun r' hr' => h r' (List.mem_cons_of_mem _ hr')

theorem foldRecords_ignored {m : Message} {tags : List Tag} {ignored : Bytes}
    (hf : Fields 64 tags ignored) (h : ∀ t ∈ tags, (m.messageType s).Ignores t) (after : Bytes) :
    foldRecords (absorb s rule nested) m (ignored ++ after) =
      foldRecords (absorb s rule nested) m after := by
  obtain ⟨rs, hrs, rfl⟩ := hf.records (Nat.le_refl _)
  rw [foldRecords_records hrs, foldlM_absorb_ignored fun r hr => h r.tag (List.mem_map_of_mem hr)]
  rfl

theorem foldRecords_behind {type : String} {tags : List Tag} {before first second : Bytes}
    (hb : Fields 64 tags before)
    (h : ∀ m : Message, m.type = type →
      foldRecords (absorb s rule nested) m first = foldRecords (absorb s rule nested) m second) :
    foldRecords (absorb s rule nested) (zero (s.find type)) (before ++ first) =
      foldRecords (absorb s rule nested) (zero (s.find type)) (before ++ second) := by
  obtain ⟨rs, hrs, -⟩ := hb.records (Nat.le_refl _)
  rw [foldRecords_records hrs, foldRecords_records hrs]
  cases hm : rs.foldlM (absorb s rule nested) (zero (s.find type)) with
  | error e => rfl
  | ok m =>
      refine h m ?_
      rw [type_of_foldlM_absorb hm, type_zero, Schema.name_find]

theorem foldRecords_nested {m : Message} {inner : String} {f : Field} {head len body : Bytes}
    (field : (m.messageType s).field? f.number = some f) (kind : f.kind = .message inner)
    (tag : f.tag.Spelled head) (length : Varint.Spelled 0 body.length len) (after : Bytes) :
    foldRecords (absorb s rule nested) m (head ++ (len ++ body) ++ after) =
      ((nested inner body).bind fun k => m.keep s rule f (.message k)).bind fun m =>
        foldRecords (absorb s rule nested) m after := by
  have hk : f.tag.kind = .delimited := by
    show f.kind.wireKind = _
    rw [kind]
    rfl
  have hw : (Payload.delimited body).kind = f.wireKind := hk.symm
  have hp : (Reader.plainPayload f.tag).Reads (.delimited body) (len ++ body) := by
    have := (Reader.reads_delimited length).map Payload.delimited
    rwa [Reader.plainPayload, hk]
  have hr : Reader.record.Reads ⟨f.number, .delimited body⟩ (head ++ (len ++ body)) :=
    Reader.reads_record_plain tag (hk ▸ .delimited length) hp
  rw [foldRecords_record hr, absorb_element field hw, kind]
  simp only [Kind.element]
  cases nested inner body <;> rfl

theorem decodeWithin_padded {type : String} {short long : Bytes} (h : Padded s type short long)
    (levels : Nat) :
    decodeWithin s rule levels type long = decodeWithin s rule levels type short := by
  induction h generalizing levels with
  | @here type before ignored after earlier tags boundary fields unknown =>
      cases levels with
      | zero => rfl
      | succ levels =>
          refine foldRecords_behind boundary fun m hm => foldRecords_ignored fields ?_ after
          rwa [messageType, hm]
  | @nested type inner f earlier before head len body len' body' after boundary field kind tag
      length length' _ ih =>
      cases levels with
      | zero => rfl
      | succ levels =>
          refine foldRecords_behind boundary fun m hm => ?_
          have field : (m.messageType s).field? f.number = some f := by rwa [messageType, hm]
          rw [foldRecords_nested field kind tag length', ih levels,
            foldRecords_nested field kind tag length]

theorem fields_of_decodeWithin {levels : Nat} {type : String} {bytes : Bytes} {m : Message}
    (h : decodeWithin s rule levels type bytes = .ok m) : ∃ tags, Fields 64 tags bytes := by
  cases levels with
  | zero => cases h
  | succ levels =>
      obtain ⟨tags, -, hf, -, -⟩ := records_of_foldRecords h
      exact ⟨tags, hf⟩

theorem decode_insert_ignored (s : Schema) (rule : GroupRule) (type : String) :
    (∀ (before ignored after : Bytes) (tags : List Tag),
      (∃ m, decode s rule type before = .ok m) → Fields 64 tags ignored →
      (∀ t ∈ tags, (s.find type).Ignores t) →
      decode s rule type (before ++ ignored ++ after) = decode s rule type (before ++ after)) ∧
    ∀ short long, Padded s type short long →
      decode s rule type long = decode s rule type short := by
  constructor
  · rintro before ignored after tags ⟨m, hm⟩ fields unknown
    obtain ⟨earlier, boundary⟩ := fields_of_decodeWithin hm
    rw [List.append_assoc]
    exact decodeWithin_padded (.here boundary fields unknown) _
  · intro short long h
    exact decodeWithin_padded h _

section Samples

open Catalog

theorem spelled_small {n : Nat} (h : n < 128) : Varint.Spelled 0 n [UInt8.ofNat n] := by
  have := Varint.spelled_encodeNat_of_lt (Nat.lt_trans h (by decide))
  rwa [Varint.encodeNat, if_pos h] at this

theorem fields_group : Fields 64 [⟨15, .startGroup⟩] [123, 8, 1, 124] := by
  have opening : Tag.Spelled ⟨15, .startGroup⟩ [123] :=
    ⟨by decide, by decide, spelled_small (by decide)⟩
  have closing : Tag.Spelled ⟨15, .endGroup⟩ [124] :=
    ⟨by decide, by decide, spelled_small (by decide)⟩
  have tag : Tag.Spelled ⟨1, .varint⟩ [8] := ⟨by decide, by decide, spelled_small (by decide)⟩
  have payload : Varint.Spelled 0 1 [1] := spelled_small (by decide)
  exact .group opening (.plain tag (.varint payload) .nil) closing .nil

theorem padded_catalog : Padded schema "catalog.Catalog" [34, 2, 48, 1] [34, 4, 8, 5, 48, 1] := by
  have tag : Tag.Spelled ⟨4, .delimited⟩ [34] := ⟨by decide, by decide, spelled_small (by decide)⟩
  have name : Tag.Spelled ⟨1, .varint⟩ [8] := ⟨by decide, by decide, spelled_small (by decide)⟩
  have payload : Varint.Spelled 0 5 [5] := spelled_small (by decide)
  have body : Padded schema "catalog.FieldSchema" [48, 1] [8, 5, 48, 1] := by
    change Padded schema _ ([] ++ [48, 1]) ([] ++ ([8, 5] ++ [48, 1]))
    refine .here .nil (.plain name (.varint payload) .nil) ?_
    intro t ht f hf
    cases List.mem_singleton.1 ht
    cases hf
    exact ⟨by decide, by decide⟩
  change Padded schema _ ([] ++ ([34] ++ ([2] ++ [48, 1]) ++ []))
    ([] ++ ([34] ++ ([4] ++ [8, 5, 48, 1]) ++ []))
  exact .nested (f := (Field.nested "fields" "fields" 4 "catalog.FieldSchema").repeated) .nil rfl
    rfl tag (spelled_small (by decide)) (spelled_small (by decide)) body

theorem decode_insert_ignored_samples :
    decode schema .refuse "catalog.GetCatalogRequest" [10, 1, 97, 123, 8, 1, 124, 18, 1, 98] =
        decode schema .refuse "catalog.GetCatalogRequest" [10, 1, 97, 18, 1, 98] ∧
      decode schema .replace "catalog.Catalog" [34, 4, 8, 5, 48, 1] =
        decode schema .replace "catalog.Catalog" [34, 2, 48, 1] := by
  constructor
  · refine (decode_insert_ignored schema .refuse "catalog.GetCatalogRequest").1 [10, 1, 97]
      [123, 8, 1, 124] [18, 1, 98] _ ?_ fields_group ?_
    · exact ⟨⟨"catalog.GetCatalogRequest", [(1, .string "a"), (2, .string "")]⟩, by cbv⟩
    · intro t ht f hf
      cases List.mem_singleton.1 ht
      cases hf
  · exact (decode_insert_ignored schema .replace "catalog.Catalog").2 _ _ padded_catalog

end Samples

end Message

end SchemaRpc
