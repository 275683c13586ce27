import SchemaRpc.Proofs.Typed.Views
import SchemaRpc.Services.Auth

namespace SchemaRpc.Auth

open Typed

theorem legible {name : String} (h : name ∈ schema.types.map MessageType.name) :
    schema.Legible name :=
  Schema.legible_of_closed (schema.types.map MessageType.name) (by decide) (by decide) h

section Scalars

instance : Viewed AuthenticateRequest := {}
instance : Viewed RefreshTokenRequest := {}
instance : Viewed CatalogRule := {}
instance : Viewed LambdaRule := {}
instance : Viewed GetPolicyRequest := {}
instance : Viewed ListPoliciesRequest := {}

theorem faithful_authenticateRequest : Faithful AuthenticateRequest 0 := by
  refine .scalars [(1, fun x => .string x.username), (2, fun x => .string x.password)]
    (fun m => ⟨m.stringAt 1, m.stringAt 2⟩) (legible (by decide)) rfl (fun _ => ⟨rfl, rfl⟩)
    (by decide) (fun _ => rfl) (fun _ => rfl) ?_ ?_
  · simp only [List.forall_mem_cons]
    refine ⟨?_, ?_, List.forall_mem_nil _⟩ <;>
      exact ⟨_, rfl, rfl, fun _ => ⟨trivial, fun _ => trivial⟩, fun _ => rfl⟩
  · rintro ⟨_, _⟩ ⟨_, _⟩ h
    simpa using h

theorem faithful_refreshTokenRequest : Faithful RefreshTokenRequest 0 := by
  refine .scalars [(1, fun x => .string x.token)] (fun m => ⟨m.stringAt 1⟩) (legible (by decide)) rfl
    (fun _ => ⟨rfl, rfl⟩) (by decide) (fun _ => rfl) (fun _ => rfl) ?_ ?_
  · simp only [List.forall_mem_cons]
    exact ⟨⟨_, rfl, rfl, fun _ => ⟨trivial, fun _ => trivial⟩, fun _ => rfl⟩, List.forall_mem_nil _⟩
  · rintro ⟨_⟩ ⟨_⟩ h
    simpa using h

theorem faithful_catalogRule : Faithful CatalogRule 0 := by
  refine .scalars [(1, fun x => .string x.catalogName), (2, fun x => .bool x.read),
      (3, fun x => .bool x.write)] (fun m => ⟨m.stringAt 1, m.boolAt 2, m.boolAt 3⟩)
    (legible (by decide)) rfl (fun _ => ⟨rfl, rfl⟩) (by decide) (fun _ => rfl) (fun _ => rfl) ?_ ?_
  · simp only [List.forall_mem_cons]
    refine ⟨?_, ?_, ?_, List.forall_mem_nil _⟩ <;>
      exact ⟨_, rfl, rfl, fun _ => ⟨trivial, fun _ => trivial⟩, fun _ => rfl⟩
  · rintro ⟨_, _, _⟩ ⟨_, _, _⟩ h
    simpa using h

theorem faithful_lambdaRule : Faithful LambdaRule 0 := by
  refine .scalars [(1, fun x => .string x.lambdaName), (2, fun x => .bool x.invoke)]
    (fun m => ⟨m.stringAt 1, m.boolAt 2⟩) (legible (by decide)) rfl (fun _ => ⟨rfl, rfl⟩)
    (by decide) (fun _ => rfl) (fun _ => rfl) ?_ ?_
  · simp only [List.forall_mem_cons]
    refine ⟨?_, ?_, List.forall_mem_nil _⟩ <;>
      exact ⟨_, rfl, rfl, fun _ => ⟨trivial, fun _ => trivial⟩, fun _ => rfl⟩
  · rintro ⟨_, _⟩ ⟨_, _⟩ h
    simpa using h

theorem faithful_getPolicyRequest : Faithful GetPolicyRequest 0 := by
  refine .scalars [(1, fun x => .string x.ns), (2, fun x => .string x.name)]
    (fun m => ⟨m.stringAt 1, m.stringAt 2⟩) (legible (by decide)) rfl (fun _ => ⟨rfl, rfl⟩)
    (by decide) (fun _ => rfl) (fun _ => rfl) ?_ ?_
  · simp only [List.forall_mem_cons]
    refine ⟨?_, ?_, List.forall_mem_nil _⟩ <;>
      exact ⟨_, rfl, rfl, fun _ => ⟨trivial, fun _ => trivial⟩, fun _ => rfl⟩
  · rintro ⟨_, _⟩ ⟨_, _⟩ h
    simpa using h

theorem faithful_listPoliciesRequest : Faithful ListPoliciesRequest 0 := by
  refine .scalars [(1, fun x => .string x.ns)] (fun m => ⟨m.stringAt 1⟩) (legible (by decide)) rfl
    (fun _ => ⟨rfl, rfl⟩) (by decide) (fun _ => rfl) (fun _ => rfl) ?_ ?_
  · simp only [List.forall_mem_cons]
    exact ⟨⟨_, rfl, rfl, fun _ => ⟨trivial, fun _ => trivial⟩, fun _ => rfl⟩, List.forall_mem_nil _⟩
  · rintro ⟨_⟩ ⟨_⟩ h
    simpa using h

end Scalars

section Statuses

theorem AuthStatus.stored (s : AuthStatus) :
    enumType.declares s.number = true ∨ s.number = EnumType.unrecognized := by
  cases s <;> decide

theorem AuthStatus.number_ofNumber {n : Int32}
    (h : enumType.declares n = true ∨ n = EnumType.unrecognized ∨ n = 0) :
    (ofNumber n).number = n := by
  unfold ofNumber
  split_ifs with h0 h1 h2 h3
  · exact h0.symm
  · exact h1.symm
  · exact h2.symm
  · exact h3.symm
  · rcases h with hd | rfl | rfl
    · simp [EnumType.declares, enumType, Ne.symm h0, Ne.symm h1, Ne.symm h2, Ne.symm h3] at hd
    · rfl
    · exact absurd rfl h0

theorem RefreshStatus.stored (s : RefreshStatus) :
    enumType.declares s.number = true ∨ s.number = EnumType.unrecognized := by
  cases s <;> decide

theorem RefreshStatus.number_ofNumber {n : Int32}
    (h : enumType.declares n = true ∨ n = EnumType.unrecognized ∨ n = 0) :
    (ofNumber n).number = n := by
  unfold ofNumber
  split_ifs with h0 h1 h2 h3
  · exact h0.symm
  · exact h1.symm
  · exact h2.symm
  · exact h3.symm
  · rcases h with hd | rfl | rfl
    · simp [EnumType.declares, enumType, Ne.symm h0, Ne.symm h1, Ne.symm h2, Ne.symm h3] at hd
    · rfl
    · exact absurd rfl h0

instance : Viewed AuthenticateResponse where
  instants x := x.expiresAt.toList

instance : Viewed RefreshTokenResponse where
  instants x := x.expiresAt.toList

theorem faithful_authenticateResponse : Faithful AuthenticateResponse 0 := by
  refine .flat [1, 2, 3] (fun m => ⟨.ofNumber (m.enumAt 1), m.stringAt 2, m.timestampAt? 3⟩)
    (legible (by decide)) rfl (fun x => ?_) (fun x fits => ?_) (fun _ => rfl) (fun x m shows => ?_)
    (fun d _ well => fits_of_instants (fun t ht => ?_) rfl) fun d type well => ⟨by decide, ?_⟩
  · obtain ⟨_, _, _ | _⟩ := x
    · exact (by decide : (messageType AuthenticateResponse).Covered [1, 2])
    · exact (by decide : (messageType AuthenticateResponse).Covered [1, 2, 3])
  · simp only [entries, List.forall_mem_append, List.forall_mem_cons]
    exact ⟨⟨suits_single rfl nofun x.status.stored fun _ => trivial,
      suits_single rfl nofun trivial fun _ => trivial, List.forall_mem_nil _⟩,
      suits_instant rfl nofun rfl fits.1⟩
  · have status : m.get? 1 = some (.enumeration x.status.number) := shows.get? rfl
    have token : m.get? 2 = some (.string x.token) := shows.get? rfl
    have expiresAt : m.get? 3 = x.expiresAt.map .timestamp :=
      (shows.get? rfl).trans (get?_optional 3 _)
    simp [Message.enumAt, Message.stringAt, Message.timestampAt?_eq expiresAt, status, token,
      AuthStatus.ofNumber_number]
  · exact well.instants t (Message.contains_of_timestampAt? (Option.mem_toList.1 ht))
  · have found : (messageType AuthenticateResponse).field? 1 =
        some (.single "status" "status" 1 (.enumeration AuthStatus.enumType)) := rfl
    have stored := AuthStatus.number_ofNumber
      (enumAt_cases (legible (by decide)).valid type well found rfl)
    simp only [List.forall_mem_cons]
    exact ⟨.inr ⟨_, rfl, congrArg (some ∘ Value.enumeration) stored.symm⟩, .inr ⟨_, rfl, rfl⟩,
      .inr ⟨_, rfl, (get?_optional 3 _).symm⟩, List.forall_mem_nil _⟩

theorem faithful_refreshTokenResponse : Faithful RefreshTokenResponse 0 := by
  refine .flat [1, 2, 3] (fun m => ⟨.ofNumber (m.enumAt 1), m.stringAt 2, m.timestampAt? 3⟩)
    (legible (by decide)) rfl (fun x => ?_) (fun x fits => ?_) (fun _ => rfl) (fun x m shows => ?_)
    (fun d _ well => fits_of_instants (fun t ht => ?_) rfl) fun d type well => ⟨by decide, ?_⟩
  · obtain ⟨_, _, _ | _⟩ := x
    · exact (by decide : (messageType RefreshTokenResponse).Covered [1, 2])
    · exact (by decide : (messageType RefreshTokenResponse).Covered [1, 2, 3])
  · simp only [entries, List.forall_mem_append, List.forall_mem_cons]
    exact ⟨⟨suits_single rfl nofun x.status.stored fun _ => trivial,
      suits_single rfl nofun trivial fun _ => trivial, List.forall_mem_nil _⟩,
      suits_instant rfl nofun rfl fits.1⟩
  · have status : m.get? 1 = some (.enumeration x.status.number) := shows.get? rfl
    have token : m.get? 2 = some (.string x.token) := shows.get? rfl
    have expiresAt : m.get? 3 = x.expiresAt.map .timestamp :=
      (shows.get? rfl).trans (get?_optional 3 _)
    simp [Message.enumAt, Message.stringAt, Message.timestampAt?_eq expiresAt, status, token,
      RefreshStatus.ofNumber_number]
  · exact well.instants t (Message.contains_of_timestampAt? (Option.mem_toList.1 ht))
  · have found : (messageType RefreshTokenResponse).field? 1 =
        some (.single "status" "status" 1 (.enumeration RefreshStatus.enumType)) := rfl
    have stored := RefreshStatus.number_ofNumber
      (enumAt_cases (legible (by decide)).valid type well found rfl)
    simp only [List.forall_mem_cons]
    exact ⟨.inr ⟨_, rfl, congrArg (some ∘ Value.enumeration) stored.symm⟩, .inr ⟨_, rfl, rfl⟩,
      .inr ⟨_, rfl, (get?_optional 3 _).symm⟩, List.forall_mem_nil _⟩

end Statuses

section Policies

instance : Viewed Policy := {}

theorem fits_catalogRule (r : CatalogRule) : Fits r :=
  fits_of_instants (List.forall_mem_nil _) rfl

theorem fits_lambdaRule (r : LambdaRule) : Fits r :=
  fits_of_instants (List.forall_mem_nil _) rfl

def ruleFields : List Field :=
  [(Field.nested "catalog_rule" "catalogRule" 3 "auth.CatalogRule").inGroup "rule",
    (Field.nested "lambda_rule" "lambdaRule" 4 "auth.LambdaRule").inGroup "rule"]

theorem suits_rule {asJson : Prop} (rule : Option PolicyRule) :
    ∀ p ∈ (rule.map PolicyRule.entry).toList, Message.Suits (messageType Policy) p ∧
      ∀ e ∈ p.2.elements, e.Sendable schema asJson 1 := by
  cases rule with
  | none => exact List.forall_mem_nil _
  | some r =>
      refine List.forall_mem_singleton.2 ?_
      cases r with
      | catalog r =>
          exact suits_message faithful_catalogRule rfl rfl nofun rfl (fits_catalogRule r) fun _ =>
            List.forall_mem_nil _
      | lambda r =>
          exact suits_message faithful_lambdaRule rfl rfl nofun rfl (fits_lambdaRule r) fun _ =>
            List.forall_mem_nil _

theorem choices_rule :
    Choices schema "auth.Policy" "rule" ruleFields PolicyRule.entry PolicyRule.ofFields where
  valid := (legible (by decide)).valid
  members := rfl
  numbered := by
    rintro (r | r)
    · exact ⟨_, .head _, rfl⟩
    · exact ⟨_, .tail _ (.head _), rfl⟩
  absent m hw := by
    rw [PolicyRule.ofFields, hw]
    rfl
  reads m c f hw hn hv := by
    rw [PolicyRule.ofFields, hw, Option.map_some, hn]
    cases c with
    | catalog r => exact congrArg (Except.map _) (faithful_catalogRule.at?_eq (fits_catalogRule r) hv)
    | lambda r => exact congrArg (Except.map _) (faithful_lambdaRule.at?_eq (fits_lambdaRule r) hv)
  views d depth check hd f hmem hf hh := by
    simp only [ruleFields, List.mem_cons, List.not_mem_nil, or_false] at hf
    rcases hf with rfl | rfl
    · obtain ⟨r, -, hr⟩ := faithful_catalogRule.member rfl hd check hmem nofun rfl hh
      exact ⟨.catalog r, rfl, hr⟩
    · obtain ⟨r, -, hr⟩ := faithful_lambdaRule.member rfl hd check hmem nofun rfl hh
      exact ⟨.lambda r, rfl, hr⟩

theorem faithful_policy : Faithful Policy 1 where
  legible := legible (by decide)
  shallow := by decide
  covered := by
    rintro ⟨_, _, _ | ⟨_ | _⟩, _⟩
    · exact (by decide : (messageType Policy).Covered [1, 2, 5])
    · exact (by decide : (messageType Policy).Covered [1, 2, 5, 3])
    · exact (by decide : (messageType Policy).Covered [1, 2, 5, 4])
  suits x _ := by
    simp only [entries, List.forall_mem_append, List.forall_mem_cons]
    refine ⟨⟨suits_single rfl nofun trivial fun _ => trivial,
      suits_single rfl nofun trivial fun _ => trivial, suits_repeated rfl rfl fun e he => ?_,
      List.forall_mem_nil _⟩,
      suits_rule x.rule⟩
    obtain ⟨action, -, rfl⟩ := List.mem_map.1 he
    exact ⟨trivial, fun _ => trivial⟩
  reads x m type conforms _ shows := by
    have ns : m.get? 1 = some (.string x.ns) := shows.get? rfl
    have name : m.get? 2 = some (.string x.name) := shows.get? rfl
    have actions : m.get? 5 = some (.list (x.actions.map .string)) := shows.get? rfl
    have rule : PolicyRule.ofFields m = .ok x.rule := by
      refine choices_rule.read_eq type conforms ?_
      simp only [Chosen, ruleFields, List.forall_mem_cons]
      exact ⟨shows.get? rfl, shows.get? rfl, List.forall_mem_nil _⟩
    simp [ofFields, rule, Message.stringAt, ns, name, Message.stringsAt_eq actions]
  canonical := canonical_of_id rfl
  views d depth type hd := by
    obtain ⟨rule, shown⟩ := choices_rule.exists_chosen type hd
    simp only [Chosen, ruleFields, List.forall_mem_cons] at shown
    have rereads : Rereads d (⟨d.stringAt 1, d.stringAt 2, rule, d.stringsAt 5⟩ : Policy)
        [1, 2, 3, 4, 5] := by
      refine ⟨by decide, ?_⟩
      simp only [List.forall_mem_cons]
      exact ⟨.inr ⟨_, rfl, rfl⟩, .inr ⟨_, rfl, rfl⟩, .inl shown.1, .inl shown.2.1,
        .inr ⟨_, rfl, rfl⟩, List.forall_mem_nil _⟩
    exact ⟨_, fits_of_instants (List.forall_mem_nil _) rfl,
      rereads.shows (legible (by decide)).valid type (hd 0 d .self).2⟩

end Policies

end SchemaRpc.Auth
