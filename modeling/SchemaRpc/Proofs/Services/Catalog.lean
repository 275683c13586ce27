import SchemaRpc.Proofs.Typed.Views
import SchemaRpc.Services.Catalog

namespace SchemaRpc.Catalog

open Typed

theorem legible {name : String} (h : name ∈ schema.types.map MessageType.name) :
    schema.Legible name :=
  Schema.legible_of_closed (schema.types.map MessageType.name) (by decide) (by decide) h

section Scalars

instance : Viewed IntSchema := {}
instance : Viewed StringSchema := {}
instance : Viewed BoolSchema := {}
instance : Viewed GetCatalogRequest := {}
instance : Viewed ListCatalogsRequest := {}

instance : Viewed FloatSchema where
  doubles x := [x.min, x.max]

theorem faithful_intSchema : Faithful IntSchema 0 := by
  refine .scalars [(1, fun x => .integer x.min), (2, fun x => .integer x.max)]
    (fun m => ⟨m.integerAt 1, m.integerAt 2⟩) (legible (by decide)) rfl (fun _ => ⟨rfl, rfl⟩)
    (by decide) (fun _ => rfl) (fun _ => rfl) ?_ ?_
  · simp only [List.forall_mem_cons]
    refine ⟨?_, ?_, List.forall_mem_nil _⟩ <;>
      exact ⟨_, rfl, rfl, fun _ => ⟨trivial, fun _ => trivial⟩, fun _ => rfl⟩
  · rintro ⟨_, _⟩ ⟨_, _⟩ h
    simpa using h

theorem faithful_floatSchema : Faithful FloatSchema 0 := by
  refine .scalars [(1, fun x => .double x.min), (2, fun x => .double x.max)]
    (fun m => ⟨m.doubleAt 1, m.doubleAt 2⟩) (legible (by decide)) rfl (fun _ => ⟨rfl, rfl⟩)
    (by decide) (fun _ => rfl) (fun _ => rfl) ?_ ?_
  · simp only [List.forall_mem_cons]
    exact ⟨⟨_, rfl, rfl, fun _ => ⟨trivial, fun h => h _ (.head _)⟩, fun _ => rfl⟩,
      ⟨_, rfl, rfl, fun _ => ⟨trivial, fun h => h _ (.tail _ (.head _))⟩, fun _ => rfl⟩,
      List.forall_mem_nil _⟩
  · rintro ⟨_, _⟩ ⟨_, _⟩ h
    simpa using h

theorem faithful_stringSchema : Faithful StringSchema 0 := by
  refine .scalars [(1, fun x => .uint32 x.maxLength), (2, fun x => .string x.pattern)]
    (fun m => ⟨m.uint32At 1, m.stringAt 2⟩) (legible (by decide)) rfl (fun _ => ⟨rfl, rfl⟩)
    (by decide) (fun _ => rfl) (fun _ => rfl) ?_ ?_
  · simp only [List.forall_mem_cons]
    refine ⟨?_, ?_, List.forall_mem_nil _⟩ <;>
      exact ⟨_, rfl, rfl, fun _ => ⟨trivial, fun _ => trivial⟩, fun _ => rfl⟩
  · rintro ⟨_, _⟩ ⟨_, _⟩ h
    simpa using h

theorem faithful_boolSchema : Faithful BoolSchema 0 := by
  refine .scalars [(1, fun x => .bool x.defaultValue)] (fun m => ⟨m.boolAt 1⟩) (legible (by decide)) rfl
    (fun _ => ⟨rfl, rfl⟩) (by decide) (fun _ => rfl) (fun _ => rfl) ?_ ?_
  · simp only [List.forall_mem_cons]
    exact ⟨⟨_, rfl, rfl, fun _ => ⟨trivial, fun _ => trivial⟩, fun _ => rfl⟩, List.forall_mem_nil _⟩
  · rintro ⟨_⟩ ⟨_⟩ h
    simpa using h

theorem faithful_getCatalogRequest : Faithful GetCatalogRequest 0 := by
  refine .scalars [(1, fun x => .string x.ns), (2, fun x => .string x.name)]
    (fun m => ⟨m.stringAt 1, m.stringAt 2⟩) (legible (by decide)) rfl (fun _ => ⟨rfl, rfl⟩)
    (by decide) (fun _ => rfl) (fun _ => rfl) ?_ ?_
  · simp only [List.forall_mem_cons]
    refine ⟨?_, ?_, List.forall_mem_nil _⟩ <;>
      exact ⟨_, rfl, rfl, fun _ => ⟨trivial, fun _ => trivial⟩, fun _ => rfl⟩
  · rintro ⟨_, _⟩ ⟨_, _⟩ h
    simpa using h

theorem faithful_listCatalogsRequest : Faithful ListCatalogsRequest 0 := by
  refine .scalars [(1, fun x => .string x.ns), (2, fun x => .uint32 x.limit)]
    (fun m => ⟨m.stringAt 1, m.uint32At 2⟩) (legible (by decide)) rfl (fun _ => ⟨rfl, rfl⟩)
    (by decide) (fun _ => rfl) (fun _ => rfl) ?_ ?_
  · simp only [List.forall_mem_cons]
    refine ⟨?_, ?_, List.forall_mem_nil _⟩ <;>
      exact ⟨_, rfl, rfl, fun _ => ⟨trivial, fun _ => trivial⟩, fun _ => rfl⟩
  · rintro ⟨_, _⟩ ⟨_, _⟩ h
    simpa using h

end Scalars

section Fields

def FieldData.doubles : FieldData → List UInt64
  | .float s => Viewed.doubles s
  | _ => []

instance : Viewed FieldSchema where
  doubles x := x.data.toList.flatMap FieldData.doubles

theorem fits_intSchema (s : IntSchema) : Fits s :=
  fits_of_instants (List.forall_mem_nil _) rfl

theorem fits_floatSchema (s : FloatSchema) : Fits s :=
  fits_of_instants (List.forall_mem_nil _) rfl

theorem fits_stringSchema (s : StringSchema) : Fits s :=
  fits_of_instants (List.forall_mem_nil _) rfl

theorem fits_boolSchema (s : BoolSchema) : Fits s :=
  fits_of_instants (List.forall_mem_nil _) rfl

theorem fits_fieldSchema (s : FieldSchema) : Fits s :=
  fits_of_instants (List.forall_mem_nil _) rfl

def dataFields : List Field :=
  [(Field.nested "int_schema" "intSchema" 2 "catalog.IntSchema").inGroup "data",
    (Field.nested "float_schema" "floatSchema" 3 "catalog.FloatSchema").inGroup "data",
    (Field.nested "string_schema" "stringSchema" 4 "catalog.StringSchema").inGroup "data",
    (Field.nested "bool_schema" "boolSchema" 5 "catalog.BoolSchema").inGroup "data"]

theorem suits_data {asJson : Prop} (data : Option FieldData)
    (spelled : asJson → ∀ bits ∈ data.toList.flatMap FieldData.doubles,
      FloatFormat.binary64.isNaN bits.toNat = false) :
    ∀ p ∈ (data.map FieldData.entry).toList, Message.Suits (messageType FieldSchema) p ∧
      ∀ e ∈ p.2.elements, e.Sendable schema asJson 1 := by
  cases data with
  | none => exact List.forall_mem_nil _
  | some c =>
      refine List.forall_mem_singleton.2 ?_
      rw [Option.toList_some, List.flatMap_singleton] at spelled
      cases c with
      | int s =>
          exact suits_message faithful_intSchema rfl rfl nofun rfl (fits_intSchema s) fun _ =>
            List.forall_mem_nil _
      | float s =>
          exact suits_message faithful_floatSchema rfl rfl nofun rfl (fits_floatSchema s) spelled
      | string s =>
          exact suits_message faithful_stringSchema rfl rfl nofun rfl (fits_stringSchema s) fun _ =>
            List.forall_mem_nil _
      | bool s =>
          exact suits_message faithful_boolSchema rfl rfl nofun rfl (fits_boolSchema s) fun _ =>
            List.forall_mem_nil _

theorem choices_data :
    Choices schema "catalog.FieldSchema" "data" dataFields FieldData.entry FieldData.ofFields where
  valid := (legible (by decide)).valid
  members := rfl
  numbered := by
    rintro (s | s | s | s)
    · exact ⟨_, .head _, rfl⟩
    · exact ⟨_, .tail _ (.head _), rfl⟩
    · exact ⟨_, .tail _ (.tail _ (.head _)), rfl⟩
    · exact ⟨_, .tail _ (.tail _ (.tail _ (.head _))), rfl⟩
  absent m hw := by
    rw [FieldData.ofFields, hw]
    rfl
  reads m c f hw hn hv := by
    rw [FieldData.ofFields, hw, Option.map_some, hn]
    cases c with
    | int s => exact congrArg (Except.map _) (faithful_intSchema.at?_eq (fits_intSchema s) hv)
    | float s => exact congrArg (Except.map _) (faithful_floatSchema.at?_eq (fits_floatSchema s) hv)
    | string s => exact congrArg (Except.map _) (faithful_stringSchema.at?_eq (fits_stringSchema s) hv)
    | bool s => exact congrArg (Except.map _) (faithful_boolSchema.at?_eq (fits_boolSchema s) hv)
  views d depth check hd f hmem hf hh := by
    simp only [dataFields, List.mem_cons, List.not_mem_nil, or_false] at hf
    rcases hf with rfl | rfl | rfl | rfl
    · obtain ⟨s, -, hs⟩ := faithful_intSchema.member rfl hd check hmem nofun rfl hh
      exact ⟨.int s, rfl, hs⟩
    · obtain ⟨s, -, hs⟩ := faithful_floatSchema.member rfl hd check hmem nofun rfl hh
      exact ⟨.float s, rfl, hs⟩
    · obtain ⟨s, -, hs⟩ := faithful_stringSchema.member rfl hd check hmem nofun rfl hh
      exact ⟨.string s, rfl, hs⟩
    · obtain ⟨s, -, hs⟩ := faithful_boolSchema.member rfl hd check hmem nofun rfl hh
      exact ⟨.bool s, rfl, hs⟩

theorem faithful_fieldSchema : Faithful FieldSchema 1 where
  legible := legible (by decide)
  shallow := by decide
  covered := by
    rintro ⟨_, _ | ⟨_ | _ | _ | _⟩, _⟩
    · exact (by decide : (messageType FieldSchema).Covered [1, 6])
    · exact (by decide : (messageType FieldSchema).Covered [1, 6, 2])
    · exact (by decide : (messageType FieldSchema).Covered [1, 6, 3])
    · exact (by decide : (messageType FieldSchema).Covered [1, 6, 4])
    · exact (by decide : (messageType FieldSchema).Covered [1, 6, 5])
  suits x _ := by
    simp only [entries, List.forall_mem_append, List.forall_mem_cons]
    exact ⟨⟨suits_single rfl nofun trivial fun _ => trivial,
      suits_single rfl nofun trivial fun _ => trivial, List.forall_mem_nil _⟩,
      suits_data x.data fun h => h⟩
  reads x m type conforms _ shows := by
    have name : m.get? 1 = some (.string x.name) := shows.get? rfl
    have required : m.get? 6 = some (.bool x.required) := shows.get? rfl
    have data : FieldData.ofFields m = .ok x.data := by
      refine choices_data.read_eq type conforms ?_
      simp only [Chosen, dataFields, List.forall_mem_cons]
      exact ⟨shows.get? rfl, shows.get? rfl, shows.get? rfl, shows.get? rfl, List.forall_mem_nil _⟩
    simp [ofFields, data, Message.stringAt, Message.boolAt, name, required]
  canonical := canonical_of_id rfl
  views d depth type hd := by
    obtain ⟨data, chosen⟩ := choices_data.exists_chosen type hd
    simp only [Chosen, dataFields, List.forall_mem_cons] at chosen
    have rereads : Rereads d (⟨d.stringAt 1, data, d.boolAt 6⟩ : FieldSchema) [1, 2, 3, 4, 5, 6] := by
      refine ⟨by decide, ?_⟩
      simp only [List.forall_mem_cons]
      exact ⟨.inr ⟨_, rfl, rfl⟩, .inl chosen.1, .inl chosen.2.1, .inl chosen.2.2.1,
        .inl chosen.2.2.2.1, .inr ⟨_, rfl, rfl⟩, List.forall_mem_nil _⟩
    exact ⟨_, fits_fieldSchema _, rereads.shows (legible (by decide)).valid type (hd 0 d .self).2⟩

end Fields

section Catalogs

instance : Viewed Catalog where
  instants x := x.created.toList ++ x.updated.toList
  doubles x := x.fields.flatMap Viewed.doubles

instance : Viewed CreateCatalogRequest where
  instants x := x.catalog.toList.flatMap Viewed.instants
  doubles x := x.catalog.toList.flatMap Viewed.doubles

theorem map_fields (fields : List FieldSchema) :
    (fields.map fun f => Value.message (toMessage f)) = (fields.map toMessage).map .message := by
  rw [List.map_map]
  rfl

theorem get?_instants (created updated : Option Value) :
    Assoc.get? 100 (optional 100 created ++ optional 101 updated) = created ∧
      Assoc.get? 101 (optional 100 created ++ optional 101 updated) = updated := by
  cases created <;> cases updated <;> exact ⟨rfl, rfl⟩

theorem reads_catalog (x : Catalog) (m : Message) (shows : Shows m x) : ofFields m = .ok x := by
  have ns : m.get? 1 = some (.string x.ns) := shows.get? rfl
  have name : m.get? 2 = some (.string x.name) := shows.get? rfl
  have publicName : m.get? 3 = some (.string x.publicName) := shows.get? rfl
  have fields : m.get? 4 = some (.list (x.fields.map fun f => .message (toMessage f))) :=
    shows.get? rfl
  have created : m.get? 100 = x.created.map .timestamp :=
    (shows.get? rfl).trans (get?_instants _ _).1
  have updated : m.get? 101 = x.updated.map .timestamp :=
    (shows.get? rfl).trans (get?_instants _ _).2
  have version : m.get? 102 = some (.integer x.version) := shows.get? rfl
  have list : listAt FieldSchema m 4 = .ok x.fields := by
    rw [map_fields] at fields
    rw [listAt, Message.messagesAt_eq fields]
    exact faithful_fieldSchema.mapM_toMessage fun y _ => fits_fieldSchema y
  simp [ofFields, list, Message.stringAt, Message.integerAt, ns, name, publicName, version,
    Message.timestampAt?_eq created, Message.timestampAt?_eq updated]

theorem faithful_catalog : Faithful Catalog 2 where
  legible := legible (by decide)
  shallow := by decide
  covered := by
    rintro ⟨_, _, _, _, _ | _, _ | _, _⟩
    · exact (by decide : (messageType Catalog).Covered [1, 2, 3, 4, 102])
    · exact (by decide : (messageType Catalog).Covered [1, 2, 3, 4, 102, 101])
    · exact (by decide : (messageType Catalog).Covered [1, 2, 3, 4, 102, 100])
    · exact (by decide : (messageType Catalog).Covered [1, 2, 3, 4, 102, 100, 101])
  suits x fits := by
    have instants := List.forall_mem_append.1 fits.1
    simp only [entries, List.forall_mem_append, List.forall_mem_cons]
    refine ⟨⟨⟨suits_single rfl nofun trivial fun _ => trivial,
      suits_single rfl nofun trivial fun _ => trivial, suits_single rfl nofun trivial fun _ => trivial,
      suits_repeated rfl rfl fun e he => ?_, suits_single rfl nofun trivial fun _ => trivial,
      List.forall_mem_nil _⟩,
      suits_instant rfl nofun rfl instants.1⟩, suits_instant rfl nofun rfl instants.2⟩
    obtain ⟨f, hf, rfl⟩ := List.mem_map.1 he
    refine ⟨faithful_fieldSchema.type_toMessage (fits_fieldSchema f), ?_⟩
    refine (faithful_fieldSchema.throughout_toMessage (fits_fieldSchema f)).imp fun k hk => ?_
    exact hk.imp fun spelled bits hb => spelled bits (List.mem_flatMap.2 ⟨f, hf, hb⟩)
  reads x m _ _ _ shows := reads_catalog x m shows
  canonical := canonical_of_id rfl
  views d depth type hd := by
    have well := (hd 0 d .self).2
    have found : (messageType Catalog).field? 4 =
        some (Field.nested "fields" "fields" 4 "catalog.FieldSchema").repeated := rfl
    have typed : ∀ k ∈ d.messagesAt 4, k.type = "catalog.FieldSchema" := fun k =>
      type_of_messagesAt (legible (by decide)).valid type well found rfl rfl
    obtain ⟨fields, -, hfields⟩ := faithful_fieldSchema.exists_list rfl fun k hk =>
      ⟨typed k hk, hd.within (Message.contains_of_messagesAt hk)⟩
    have rereads : Rereads d (⟨d.stringAt 1, d.stringAt 2, d.stringAt 3, fields, d.timestampAt? 100,
        d.timestampAt? 101, d.integerAt 102⟩ : Catalog) [1, 2, 3, 4, 100, 101, 102] := by
      refine ⟨by decide, ?_⟩
      simp only [List.forall_mem_cons]
      refine ⟨.inr ⟨_, rfl, rfl⟩, .inr ⟨_, rfl, rfl⟩, .inr ⟨_, rfl, rfl⟩, .inr ⟨_, rfl, ?_⟩,
        .inr ⟨_, rfl, (get?_instants _ _).1.symm⟩, .inr ⟨_, rfl, (get?_instants _ _).2.symm⟩,
        .inr ⟨_, rfl, rfl⟩, List.forall_mem_nil _⟩
      have hitems : some (Value.list ((d.messagesAt 4).map .message)) =
          some (Value.list (fields.map fun f => .message (toMessage f))) := by
        rw [map_fields, hfields]
      exact hitems
    refine ⟨_, fits_of_instants (List.forall_mem_append.2 ⟨fun t ht => ?_, fun t ht => ?_⟩) rfl,
      rereads.shows (legible (by decide)).valid type well⟩
    · exact well.instants t (Message.contains_of_timestampAt? (Option.mem_toList.1 ht))
    · exact well.instants t (Message.contains_of_timestampAt? (Option.mem_toList.1 ht))

theorem faithful_createCatalogRequest : Faithful CreateCatalogRequest 3 where
  legible := legible (by decide)
  shallow := by decide
  covered := by
    rintro ⟨_ | _⟩
    · exact (by decide : (messageType CreateCatalogRequest).Covered [])
    · exact (by decide : (messageType CreateCatalogRequest).Covered [1])
  suits x fits := by
    refine forall_mem_optional.2 fun v hv => ?_
    obtain ⟨c, hc, rfl⟩ := Option.map_eq_some_iff.1 hv
    have hmem := Option.mem_toList.2 hc
    refine suits_message faithful_catalog rfl rfl nofun rfl ?_ fun spelled bits hb => ?_
    · exact fits_of_instants (fun t ht => fits.1 t (List.mem_flatMap.2 ⟨c, hmem, ht⟩)) rfl
    · exact spelled bits (List.mem_flatMap.2 ⟨c, hmem, hb⟩)
  reads x m _ _ fits shows := by
    have stored : m.get? 1 = x.catalog.map fun c => .message (toMessage c) :=
      (shows.get? rfl).trans (get?_optional 1 _)
    obtain ⟨_ | c⟩ := x
    · simp [ofFields, Typed.at?, Message.messageAt?, stored]
    · have hc : Fits c := fits_of_instants (fun t ht => fits.1 t (List.mem_flatMap.2 ⟨c, .head _, ht⟩)) rfl
      simp [ofFields, faithful_catalog.at?_eq hc stored]
  canonical := canonical_of_id rfl
  views d depth type hd := by
    have well := (hd 0 d .self).2
    have found : (messageType CreateCatalogRequest).field? 1 =
        some (Field.nested "catalog" "catalog" 1 "catalog.Catalog") := rfl
    cases hv : d.get? 1 with
    | none =>
        have rereads : Rereads d (⟨none⟩ : CreateCatalogRequest) [1] :=
          ⟨by decide, List.forall_mem_singleton.2 (.inl hv)⟩
        exact ⟨_, fits_of_instants (fun _ ht => absurd ht List.not_mem_nil) rfl,
          rereads.shows (legible (by decide)).valid type well⟩
    | some v =>
        have ht : d.messageType schema = messageType CreateCatalogRequest := by
          rw [Message.messageType, type]
          rfl
        have hmem : Field.nested "catalog" "catalog" 1 "catalog.Catalog" ∈
            (d.messageType schema).fields := ht ▸ (MessageType.field?_eq_some found).1
        obtain ⟨c, fits, hc⟩ := faithful_catalog.member rfl hd
          (ht ▸ (legible (by decide)).valid.check) hmem nofun rfl
          (Message.has_eq_true_iff.2 ⟨v, hv⟩)
        have rereads : Rereads d (⟨some c⟩ : CreateCatalogRequest) [1] :=
          ⟨by decide, List.forall_mem_singleton.2 (.inl hc)⟩
        refine ⟨_, fits_of_instants (fun t ht => ?_) rfl,
          rereads.shows (legible (by decide)).valid type well⟩
        obtain ⟨_, hmem, ht⟩ := List.mem_flatMap.1 ht
        cases List.mem_singleton.1 hmem
        exact fits.1 t ht

end Catalogs

end SchemaRpc.Catalog
