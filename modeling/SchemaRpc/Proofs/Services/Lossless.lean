import SchemaRpc.Proofs.Services.Auth
import SchemaRpc.Proofs.Services.Catalog
import SchemaRpc.Services

namespace SchemaRpc

open Typed

namespace Lambda

theorem legible {name : String} (h : name ∈ schema.types.map MessageType.name) :
    schema.Legible name :=
  Schema.legible_of_closed (schema.types.map MessageType.name) (by decide) (by decide) h

instance : Viewed InvokeRequest := {}

instance : Viewed InvokeResponse where
  unsigned x := [x.durationMs]

theorem faithful_invokeRequest : Faithful InvokeRequest 0 := by
  refine .scalars [(1, fun x => .string x.ns), (2, fun x => .string x.name),
      (3, fun x => .bytes x.payload)] (fun m => ⟨m.stringAt 1, m.stringAt 2, m.bytesAt 3⟩)
    (legible (by decide)) rfl (fun _ => ⟨rfl, rfl⟩) (by decide) (fun _ => rfl) (fun _ => rfl) ?_ ?_
  · simp only [List.forall_mem_cons]
    refine ⟨?_, ?_, ?_, List.forall_mem_nil _⟩ <;>
      exact ⟨_, rfl, rfl, fun _ => ⟨trivial, fun _ => trivial⟩, fun _ => rfl⟩
  · rintro ⟨_, _, _⟩ ⟨_, _, _⟩ h
    simpa using h

theorem faithful_invokeResponse : Faithful InvokeResponse 0 := by
  refine .flat [1, 2] (fun m => ⟨m.bytesAt 1, m.integerAt 2⟩) (legible (by decide)) rfl
    (fun _ => (by decide : (messageType InvokeResponse).Covered [1, 2])) (fun x fits => ?_)
    (fun _ => rfl) (fun x m shows => ?_) (fun d type well => ?_) fun d _ _ => ⟨by decide, ?_⟩
  · simp only [entries, List.forall_mem_cons]
    exact ⟨suits_single rfl nofun trivial fun _ => trivial,
      suits_single rfl nofun (fits.2 _ (.head _)) fun _ => trivial, List.forall_mem_nil _⟩
  · have payload : m.get? 1 = some (.bytes x.payload) := shows.get? rfl
    have durationMs : m.get? 2 = some (.integer x.durationMs) := shows.get? rfl
    simp [Message.bytesAt, Message.integerAt, payload, durationMs]
  · have found : (messageType InvokeResponse).field? 2 =
        some (.single "duration_ms" "durationMs" 2 (.scalar .uint64)) := rfl
    exact ⟨List.forall_mem_nil _, List.forall_mem_singleton.2
      (integerAt_nonneg (legible (by decide)).valid type well found rfl)⟩
  · simp only [List.forall_mem_cons]
    exact ⟨.inr ⟨_, rfl, rfl⟩, .inr ⟨_, rfl, rfl⟩, List.forall_mem_nil _⟩

end Lambda

namespace Status

theorem legible : schema.Legible "protostub.Status" :=
  Schema.legible_of_closed ["protostub.Status"] (by decide) (by decide) (by decide)

instance : Viewed Status where
  canonical d := if d.enumAt 1 = EnumType.unrecognized then d.insert 1 (.enumeration 2) else d

def codeField : Field :=
  .single "code" "code" 1 (.enumeration StatusCode.enumType)

theorem stored (c : StatusCode) :
    StatusCode.enumType.declares (Int32.ofNat c.number) = true := by
  cases c <;> decide

theorem ofInt_ofNat (c : StatusCode) : StatusCode.ofInt (Int32.ofNat c.number).toInt = c := by
  cases c <;> rfl

theorem number_ofInt {n : Int32} (h : StatusCode.enumType.declares n = true) :
    Int32.ofNat (StatusCode.ofInt n.toInt).number = n := by
  obtain ⟨v, hv, hn⟩ := List.any_eq_true.1 h
  obtain ⟨c, -, rfl⟩ := List.mem_map.1 hv
  rw [← eq_of_beq hn, ofInt_ofNat]

variable {d : Message}

theorem get?_canonical : (Viewed.canonical Status d).get? 2 = d.get? 2 := by
  simp only [Viewed.canonical]
  split
  · rw [Message.get?_insert]
    rfl
  · rfl

theorem enumAt_canonical (type : d.type = "protostub.Status") (well : d.WellFormed schema) :
    (Viewed.canonical Status d).get? 1 =
      some (.enumeration (Int32.ofNat (StatusCode.ofInt (d.enumAt 1).toInt).number)) := by
  have found : (messageType Status).field? 1 = some codeField := rfl
  have hv : d.get? 1 = some (.enumeration (d.enumAt 1)) :=
    get?_eq_reading legible.valid type well found
  simp only [Viewed.canonical]
  split
  · next he => rw [he, Message.get?_insert_self]; rfl
  · next he =>
      rw [hv, number_ofInt]
      rcases enumAt_cases legible.valid type well found rfl with hd | hu | hz
      · exact hd
      · exact absurd hu he
      · rw [hz]; rfl

theorem canonical_of_wellFormed (type : d.type = "protostub.Status") (well : d.WellFormed schema) :
    Canonical Status d := by
  by_cases he : d.enumAt 1 = EnumType.unrecognized
  · have hc : Viewed.canonical Status d = d.store schema codeField (.enumeration 2) := if_pos he
    have ht : d.messageType schema = messageType Status := by
      rw [Message.messageType, type]
      rfl
    have found : (messageType Status).field? 1 = some codeField := rfl
    constructor <;> rw [hc]
    · rw [Message.type_store, type]
      rfl
    · exact well.toConforms.store (ht ▸ legible.valid.check)
        (ht ▸ (MessageType.field?_eq_some found).1) (.inl (.inl rfl))
    · have hstring : (d.store schema codeField (.enumeration 2)).stringAt 2 = d.stringAt 2 := by
        rw [← hc, Message.stringAt, get?_canonical]
        rfl
      have henum : (d.store schema codeField (.enumeration 2)).enumAt 1 = 2 := by
        rw [← hc, Message.enumAt, enumAt_canonical type well, he]
        rfl
      simp only [ofFields, hstring, henum, he]
      rfl
  · have hc : Viewed.canonical Status d = d := if_neg he
    constructor <;> rw [hc]
    · exact type
    · exact well.toConforms

theorem faithful_status : Faithful Status 0 where
  legible := legible
  shallow := Nat.zero_le _
  covered _ := (by decide : (messageType Status).Covered [1, 2])
  suits x _ := by
    simp only [entries, List.forall_mem_cons]
    exact ⟨suits_single rfl nofun (.inl (stored x.code)) fun _ => trivial,
      suits_single rfl nofun trivial fun _ => trivial, List.forall_mem_nil _⟩
  reads x m _ _ _ shows := by
    have code : m.get? 1 = some (.enumeration (Int32.ofNat x.code.number)) := shows.get? rfl
    have text : m.get? 2 = some (.string x.text) := shows.get? rfl
    have hcode : StatusCode.ofInt (m.enumAt 1).toInt = x.code := by
      rw [Message.enumAt, code]
      exact ofInt_ofNat x.code
    have htext : m.stringAt 2 = x.text := by rw [Message.stringAt, text]
    rw [ofFields, instTyped]
    simp only [hcode, htext]
  canonical d type well := canonical_of_wellFormed type well
  views d depth type hd := by
    have well := (hd 0 d .self).2
    have found : (messageType Status).field? 2 = some (.text "message" "message" 2) := rfl
    have text : d.get? 2 = some (.string (d.stringAt 2)) :=
      get?_eq_reading legible.valid type well found
    refine ⟨⟨StatusCode.ofInt (d.enumAt 1).toInt, d.stringAt 2⟩,
      fits_of_instants (List.forall_mem_nil _) rfl, fun f hf => ?_⟩
    rcases List.mem_cons.1 hf with rfl | hf
    · exact enumAt_canonical type well
    · cases List.mem_singleton.1 hf
      exact get?_canonical.trans text

end Status

namespace Services

structure View where
  carrier : Type
  typed : Typed carrier
  viewed : Viewed carrier

namespace View

def of (α : Type) [h : Typed α] [v : Viewed α] : View := ⟨α, h, v⟩

def package (v : View) : Package := ⟨v.carrier, v.typed⟩

def Lossless (v : View) : Prop := @Typed.Lossless v.carrier v.typed v.viewed

end View

def views : List View :=
  [.of Catalog, .of Catalog.FieldSchema, .of Catalog.IntSchema, .of Catalog.FloatSchema,
    .of Catalog.StringSchema, .of Catalog.BoolSchema, .of Catalog.GetCatalogRequest,
    .of Catalog.CreateCatalogRequest, .of Catalog.ListCatalogsRequest,
    .of Auth.AuthenticateRequest, .of Auth.AuthenticateResponse, .of Auth.RefreshTokenRequest,
    .of Auth.RefreshTokenResponse, .of Auth.Policy, .of Auth.CatalogRule, .of Auth.LambdaRule,
    .of Auth.GetPolicyRequest, .of Auth.ListPoliciesRequest, .of Lambda.InvokeRequest,
    .of Lambda.InvokeResponse, .of Status]

theorem views_lossless :
    views.map View.package = packages ∧
      ∀ v ∈ views, v.Lossless ∧
        (v.package.name ≠ "protostub.Status" → @Viewed.canonical v.carrier v.viewed = id) := by
  refine ⟨rfl, ?_⟩
  simp only [views, List.forall_mem_cons]
  exact ⟨⟨Catalog.faithful_catalog.lossless, fun _ => rfl⟩,
    ⟨Catalog.faithful_fieldSchema.lossless, fun _ => rfl⟩,
    ⟨Catalog.faithful_intSchema.lossless, fun _ => rfl⟩,
    ⟨Catalog.faithful_floatSchema.lossless, fun _ => rfl⟩,
    ⟨Catalog.faithful_stringSchema.lossless, fun _ => rfl⟩,
    ⟨Catalog.faithful_boolSchema.lossless, fun _ => rfl⟩,
    ⟨Catalog.faithful_getCatalogRequest.lossless, fun _ => rfl⟩,
    ⟨Catalog.faithful_createCatalogRequest.lossless, fun _ => rfl⟩,
    ⟨Catalog.faithful_listCatalogsRequest.lossless, fun _ => rfl⟩,
    ⟨Auth.faithful_authenticateRequest.lossless, fun _ => rfl⟩,
    ⟨Auth.faithful_authenticateResponse.lossless, fun _ => rfl⟩,
    ⟨Auth.faithful_refreshTokenRequest.lossless, fun _ => rfl⟩,
    ⟨Auth.faithful_refreshTokenResponse.lossless, fun _ => rfl⟩,
    ⟨Auth.faithful_policy.lossless, fun _ => rfl⟩,
    ⟨Auth.faithful_catalogRule.lossless, fun _ => rfl⟩,
    ⟨Auth.faithful_lambdaRule.lossless, fun _ => rfl⟩,
    ⟨Auth.faithful_getPolicyRequest.lossless, fun _ => rfl⟩,
    ⟨Auth.faithful_listPoliciesRequest.lossless, fun _ => rfl⟩,
    ⟨Lambda.faithful_invokeRequest.lossless, fun _ => rfl⟩,
    ⟨Lambda.faithful_invokeResponse.lossless, fun _ => rfl⟩,
    ⟨Status.faithful_status.lossless, fun h => absurd rfl h⟩, List.forall_mem_nil _⟩

section Samples

def weather : Catalog :=
  ⟨"demo", "weather", "", [⟨"celsius", some (.float ⟨0x7ff8000000000000, 0x4049000000000000⟩), true⟩],
    some (.ofMillis 1500), none, .zero⟩

def unnamed : Message :=
  ⟨"protostub.Status", [(1, .enumeration (-1)), (2, .string "")]⟩

theorem views_lossless_samples :
    decode .refuse (encode weather) = .ok weather ∧
      ∃ x : Status, decode .replace [8, 99] = .ok x ∧
        toMessage x = ⟨"protostub.Status", [(1, .enumeration 2), (2, .string "")]⟩ := by
  have catalog : Typed.Lossless Catalog := (views_lossless.2 (.of Catalog) (.head _)).1
  have status : Typed.Lossless Status := (views_lossless.2 (.of Status) (by simp [views])).1
  have fits : Fits weather := fits_of_instants (List.forall_mem_singleton.2 ⟨rfl, by decide⟩) rfl
  have read : Message.decode Status.schema .replace "protostub.Status" [8, 99] = .ok unnamed := by cbv
  refine ⟨catalog.decode_encode .refuse weather fits (by cbv), ?_⟩
  obtain ⟨x, -, hc, hx⟩ := status.viewed .replace [8, 99] unnamed read
  exact ⟨x, hx, hc⟩

end Samples

end Services

end SchemaRpc
