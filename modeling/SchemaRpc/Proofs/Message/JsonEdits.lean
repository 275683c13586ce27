import Mathlib.Data.List.Basic
import Mathlib.Data.List.Find
import Mathlib.Logic.Relation
import SchemaRpc.Proofs.Message.JsonClashes
import SchemaRpc.Proofs.Message.Ordering

namespace SchemaRpc

/-- The second list is the first one in another order, in which any two that are bound to one another
stand as they stood before. -/
def Rearranged {α : Type} (bound : α → α → Prop) (first second : List α) : Prop :=
  ∃ order : List (Fin first.length),
    order.Perm (List.finRange first.length) ∧
    (order.Pairwise fun i j => bound (first.get i) (first.get j) → i < j) ∧
    second = order.map first.get

def MessageType.Related (t : MessageType) (key other : String) : Prop :=
  ∃ f ∈ t.fieldNamed? key, ∃ g ∈ t.fieldNamed? other, t.Bound f.number g.number

instance (t : MessageType) (key other : String) : Decidable (t.Related key other) :=
  inferInstanceAs (Decidable (∃ f ∈ t.fieldNamed? key, ∃ g ∈ t.fieldNamed? other, _))

inductive JsonEdit (s : Schema) : String → Json → Json → Prop
  | unknown {type key : String} {value : Json} {before after : List (String × Json)}
      (unnamed : (s.find type).fieldNamed? key = none) :
      JsonEdit s type (.object (before ++ after)) (.object (before ++ (key, value) :: after))
  | null {type key : String} {before after : List (String × Json)}
      (new : key ∉ (before ++ after).map Prod.fst) :
      JsonEdit s type (.object (before ++ after)) (.object (before ++ (key, .null) :: after))
  | rename {type key name : String} {f : Field} {value : Json} {before after : List (String × Json)}
      (field : f ∈ (s.find type).fields)
      (names : key = f.name ∧ name = f.jsonName ∨ key = f.jsonName ∧ name = f.name)
      (new : name ∉ (before ++ after).map Prod.fst) :
      JsonEdit s type (.object (before ++ (key, value) :: after))
        (.object (before ++ (name, value) :: after))
  | reorder {type : String} {first second : List (String × Json)}
      (order : Rearranged (fun p q => (s.find type).Related p.1 q.1) first second) :
      JsonEdit s type (.object first) (.object second)
  | inside {type name key : String} {f : Field} {value value' : Json}
      {before after : List (String × Json)} (named : (s.find type).fieldNamed? key = some f)
      (single : f.cardinality ≠ .repeated) (kind : f.kind = .message name)
      (edit : JsonEdit s name value value') :
      JsonEdit s type (.object (before ++ (key, value) :: after))
        (.object (before ++ (key, value') :: after))
  | item {type name key : String} {f : Field} {value value' : Json} {front back : List Json}
      {before after : List (String × Json)} (named : (s.find type).fieldNamed? key = some f)
      (repeated : f.cardinality = .repeated) (kind : f.kind = .message name)
      (edit : JsonEdit s name value value') :
      JsonEdit s type (.object (before ++ (key, .array (front ++ value :: back)) :: after))
        (.object (before ++ (key, .array (front ++ value' :: back)) :: after))

structure Schema.Resolves (s : Schema) (name : String) : Prop where
  valid : s.Valid name
  named : ∀ last, s.Reaches name last → ∀ f ∈ (s.find last).fields,
    (s.find last).fieldNamed? f.name = some f ∧ (s.find last).fieldNamed? f.jsonName = some f

theorem Schema.Resolves.nested {s : Schema} {name inner : String} (h : s.Resolves name) {f : Field}
    (hf : f ∈ (s.find name).fields) (hk : f.kind = .message inner) : s.Resolves inner where
  valid := h.valid.nested hf hk
  named := fun last hl => h.named last (.step hf hk hl)

theorem Schema.resolves_of_closed {s : Schema} {name : String} (names : List String)
    (h : ∀ n ∈ names, (s.find n).check.isOk = true ∧
      ∀ f ∈ (s.find n).fields, ∀ inner ∈ f.kind.references, inner ∈ names)
    (hf : ∀ n ∈ names, ∀ f ∈ (s.find n).fields,
      (s.find n).fieldNamed? f.name = some f ∧ (s.find n).fieldNamed? f.jsonName = some f)
    (hn : name ∈ names) : s.Resolves name where
  valid := valid_of_closed names h hn
  named := fun last hr => hf last (mem_of_reaches hr (fun n hn => (h n hn).2) hn)

section Folding

variable {σ ι ε : Type} {P : σ → Prop} {step : σ → ι → Except ε σ} {before after : List ι} {i j : ι}
variable {s s' : σ}

theorem foldlM_replaced (keeps : ∀ s i s', P s → step s i = .ok s' → P s')
    (same : ∀ s s', P s → step s i = .ok s' → step s j = .ok s') (hs : P s)
    (h : (before ++ i :: after).foldlM step s = .ok s') :
    (before ++ j :: after).foldlM step s = .ok s' := by
  induction before generalizing s with
  | nil =>
      rw [List.nil_append, List.foldlM_cons] at h ⊢
      obtain ⟨mid, hi, h⟩ := Except.bind_eq_ok h
      rw [same s mid hs hi]
      exact h
  | cons k before ih =>
      rw [List.cons_append, List.foldlM_cons] at h ⊢
      obtain ⟨mid, hk, h⟩ := Except.bind_eq_ok h
      rw [hk]
      exact ih (keeps s k mid hs hk) h

theorem foldlM_inserted (keeps : ∀ s i s', P s → step s i = .ok s' → P s')
    (idle : ∀ s, P s → step s j = .ok s) (hs : P s)
    (h : (before ++ after).foldlM step s = .ok s') :
    (before ++ j :: after).foldlM step s = .ok s' := by
  induction before generalizing s with
  | nil =>
      rw [List.nil_append, List.foldlM_cons, idle s hs]
      exact h
  | cons k before ih =>
      rw [List.cons_append, List.foldlM_cons] at h ⊢
      obtain ⟨mid, hk, h⟩ := Except.bind_eq_ok h
      rw [hk]
      exact ih (keeps s k mid hs hk) h

theorem foldlM_rearranged (keeps : ∀ s i s', P s → step s i = .ok s' → P s')
    {bound : ι → ι → Prop} (swaps : ∀ i j, ¬bound j i → Swaps P step i j) {first second : List ι}
    (order : Rearranged bound first second) (hs : P s) (h : first.foldlM step s = .ok s') :
    second.foldlM step s = .ok s' := by
  obtain ⟨order, perm, kept, rfl⟩ := order
  rw [← List.map_get_finRange first, List.foldlM_map] at h
  rw [List.foldlM_map]
  exact foldlM_reordered (fun s i => keeps s (first.get i))
    (fun i j hfree => swaps (first.get i) (first.get j) hfree) (List.pairwise_lt_finRange _) perm kept
    hs h

theorem mapM_replaced {α β : Type} {f : α → Except ε β} {front back : List α} {a b : α} {vs : List β}
    (same : ∀ v, f a = .ok v → f b = .ok v) (h : (front ++ a :: back).mapM f = .ok vs) :
    (front ++ b :: back).mapM f = .ok vs := by
  induction front generalizing vs with
  | nil =>
      rw [List.nil_append, List.mapM_cons] at h ⊢
      obtain ⟨v, ha, h⟩ := Except.bind_eq_ok h
      rw [same v ha]
      exact h
  | cons x front ih =>
      rw [List.cons_append, List.mapM_cons] at h ⊢
      obtain ⟨v, hx, h⟩ := Except.bind_eq_ok h
      obtain ⟨rest, hrest, h⟩ := Except.bind_eq_ok h
      rw [hx, ih hrest]
      exact h

end Folding

namespace Message

variable {s : Schema} {rule : GroupRule} {nested : String → Json → Except Error Message}
variable {type key : String} {json : Json} {f : Field} {v : Value}

theorem bound_of_group (check : (s.find type).check = .ok ())
    (hf : (s.find type).field? f.number = some f) {group : String} (hg : f.group? = some group)
    {g : Field} (mem : g ∈ (s.find type).groupMembers group) :
    (s.find type).Bound f.number g.number := by
  obtain ⟨hmem, hgroup⟩ := mem_groupMembers.1 mem
  refine .inr ⟨group, ?_, ?_⟩
  · rw [MessageType.groupOf?, hf]
    exact hg
  · rw [MessageType.groupOf?, MessageType.field?_of_mem check hmem]
    exact hgroup

theorem which?_eq (check : (s.find type).check = .ok ())
    (hf : (s.find type).field? f.number = some f) {group : String} (hg : f.group? = some group)
    {m n : Message} (hm : m.Kept type) (hn : n.Kept type)
    (agree : AgreeOn ((s.find type).Bound f.number) m n) : n.which? s group = m.which? s group := by
  rw [which?, which?, messageType, messageType, hm.type, hn.type]
  refine List.find?_congr fun g hmem => ?_
  rw [has, has, agree g.number (bound_of_group check hf hg hmem)]

theorem assign_eq_ok {m m' : Message} (h : m.assign s rule f v = .ok m') :
    m.set s f.number v = .ok m' := by
  unfold assign at h
  split at h
  · split at h
    · cases h
    · exact h
  · exact h

theorem confined_set (check : (s.find type).check = .ok ())
    (hf : (s.find type).field? f.number = some f) (v : Value) :
    Confined type ((s.find type).Bound f.number) fun m => m.set s f.number v := by
  by_cases ha : f.accepts v = true
  · refine (confined_store check hf (f.normalized v)).congr fun m hm => ?_
    rw [set, messageType, hm.type, hf]
    exact if_pos ha
  · refine (Confined.fail ((empty type).cannotHold f v)).congr fun m hm => ?_
    have herror : (empty type).cannotHold f v = m.cannotHold f v := by
      rw [cannotHold, cannotHold, hm.type]
      rfl
    rw [set, messageType, hm.type, hf, herror]
    exact if_neg ha

theorem confined_assign (check : (s.find type).check = .ok ())
    (hf : (s.find type).field? f.number = some f) (v : Value) :
    Confined type ((s.find type).Bound f.number) fun m => m.assign s rule f v where
  keeps := fun m m' hm h => (confined_set check hf v).keeps m m' hm (assign_eq_ok h)
  transfers := by
    intro m n m' hm hn agree h
    obtain ⟨n', hset, agree'⟩ :=
      (confined_set check hf v).transfers m n m' hm hn agree (assign_eq_ok h)
    refine ⟨n', ?_, agree'⟩
    unfold assign at h ⊢
    cases hg : f.group? with
    | none => exact hset
    | some group =>
        simp only [hg] at h ⊢
        rw [which?_eq check hf hg hm hn agree]
        split at h
        · cases h
        · next hfree => rw [if_neg hfree, hset]

def Concerned (t : MessageType) (key : String) (k : Nat) : Prop :=
  ∃ f, t.fieldNamed? key = some f ∧ t.Bound f.number k

theorem confined_absorbMember (check : (s.find type).check = .ok ()) (p : String × Json) :
    Confined type (Concerned (s.find type) p.1) fun m => absorbMember s rule nested m p := by
  obtain ⟨key, json⟩ := p
  have htype : ∀ m : Message, m.Kept type → m.messageType s = s.find type := fun m hm => by
    rw [messageType, hm.type]
  rcases (s.find type).passed_or_named key json with hpass | ⟨f, named, hj⟩
  · exact Confined.pass.congr fun m hm => absorbMember_of_passed (by rwa [htype m hm])
  · have hf := MessageType.field?_of_mem check (MessageType.fieldNamed?_eq_some named)
    have hsame : ∀ m : Message, m.Kept type → absorbMember s rule nested m (key, json) =
        f.ofJson nested json >>= m.assign s rule f := fun m hm =>
      absorbMember_of_named (by rwa [htype m hm]) hj
    have hassign : Confined type ((s.find type).Bound f.number) fun m =>
        f.ofJson nested json >>= m.assign s rule f := by
      cases f.ofJson nested json with
      | error e => exact .fail e
      | ok v => exact confined_assign check hf v
    exact (hassign.mono fun k hk => ⟨f, named, hk⟩).congr hsame

theorem keeps_absorbMember (check : (s.find type).check = .ok ()) (m : Message) (p : String × Json)
    (m' : Message) (hm : m.Kept type) (h : absorbMember s rule nested m p = .ok m') :
    m'.Kept type :=
  ((confined_absorbMember check p).keeps m m' hm h).1

theorem swaps_absorbMember (check : (s.find type).check = .ok ()) {p q : String × Json}
    (h : ¬(s.find type).Related q.1 p.1) :
    Swaps (Kept type) (absorbMember s rule nested) p q := by
  intro m mid m' hm hp hq
  refine (confined_absorbMember check p).swap (confined_absorbMember check q) ?_ hm hp hq
  rintro k ⟨f, hf, hfk⟩ ⟨g, hg, hgk⟩
  exact h ⟨g, hg, f, hf, hgk.trans hfk.symm⟩

theorem absorbMember_of_named_of {m m' : Message} {value : Json}
    (named : (m.messageType s).fieldNamed? key = some f) (hj : json ≠ .null) (hv : value ≠ .null)
    (same : ∀ v, f.ofJson nested json = .ok v → f.ofJson nested value = .ok v)
    (h : absorbMember s rule nested m (key, json) = .ok m') :
    absorbMember s rule nested m (key, value) = .ok m' := by
  rw [absorbMember_of_named named hj] at h
  obtain ⟨v, hread, h⟩ := Except.bind_eq_ok h
  rw [absorbMember_of_named named hv, same v hread]
  exact h

theorem absorbMember_renamed {m : Message} {name : String}
    (hkey : (m.messageType s).fieldNamed? key = some f)
    (hname : (m.messageType s).fieldNamed? name = some f) (json : Json) :
    absorbMember s rule nested m (name, json) = absorbMember s rule nested m (key, json) := by
  by_cases hj : json = .null
  · rw [absorbMember_of_passed (.inr hj), absorbMember_of_passed (.inr hj)]
  · rw [absorbMember_of_named hkey hj, absorbMember_of_named hname hj]

end Message

theorem JsonEdit.ne_null {s : Schema} {type : String} {json json' : Json}
    (h : JsonEdit s type json json') : json ≠ .null ∧ json' ≠ .null := by
  cases h <;> exact ⟨Json.noConfusion, Json.noConfusion⟩

namespace Message

variable {s : Schema} {rule : GroupRule} {type : String} {json json' : Json} {m : Message}

theorem ofJsonWithin_object {levels : Nat} {first second : List (String × Json)}
    (fold : ∀ levels, first.foldlM (absorbMember s rule (ofJsonWithin s rule levels))
      (zero (s.find type)) = .ok m →
        second.foldlM (absorbMember s rule (ofJsonWithin s rule levels)) (zero (s.find type)) = .ok m)
    (h : ofJsonWithin s rule levels type (.object first) = .ok m) :
    ofJsonWithin s rule levels type (.object second) = .ok m := by
  cases levels with
  | zero => cases h
  | succ levels => exact fold levels h

theorem ofJsonWithin_edited {levels : Nat} (names : s.Resolves type)
    (edit : JsonEdit s type json json') (h : ofJsonWithin s rule levels type json = .ok m) :
    ofJsonWithin s rule levels type json' = .ok m := by
  have start (name : String) : (zero (s.find name)).Kept name :=
    ⟨by rw [type_zero, Schema.name_find], ascending_zero _⟩
  induction edit generalizing levels m with
  | @unknown type key value before after unnamed =>
      refine ofJsonWithin_object (fun levels hread => ?_) h
      refine foldlM_inserted (keeps_absorbMember names.valid.check) (fun k hk => ?_) (start type) hread
      exact absorbMember_of_passed (.inl (by rwa [messageType, hk.type]))
  | @null type key before after =>
      refine ofJsonWithin_object (fun levels hread => ?_) h
      exact foldlM_inserted (keeps_absorbMember names.valid.check)
        (fun k hk => absorbMember_of_passed (.inr rfl)) (start type) hread
  | @rename type key name f value before after field hnames =>
      refine ofJsonWithin_object (fun levels hread => ?_) h
      refine foldlM_replaced (keeps_absorbMember names.valid.check) (fun k k' hk habsorb => ?_)
        (start type) hread
      obtain ⟨hschema, hjson⟩ := names.named type .refl f field
      rw [← hk.type] at hschema hjson
      rcases hnames with ⟨rfl, rfl⟩ | ⟨rfl, rfl⟩
      · rwa [absorbMember_renamed hschema hjson]
      · rwa [absorbMember_renamed hjson hschema]
  | @reorder type first second order =>
      refine ofJsonWithin_object (fun levels hread => ?_) h
      exact foldlM_rearranged (keeps_absorbMember names.valid.check)
        (fun p q => swaps_absorbMember names.valid.check) order (start type) hread
  | @inside type name key f value value' before after named single kind edit ih =>
      have inner := names.nested (MessageType.fieldNamed?_eq_some named) kind
      refine ofJsonWithin_object (fun levels hread => ?_) h
      refine foldlM_replaced (keeps_absorbMember names.valid.check) (fun k k' hk habsorb => ?_)
        (start type) hread
      rw [← hk.type] at named
      refine absorbMember_of_named_of named edit.ne_null.1 edit.ne_null.2 (fun v hv => ?_) habsorb
      rw [ofJson_element single, Field.elementOfJson_message kind] at hv ⊢
      obtain ⟨x, hx, rfl⟩ := Except.map_eq_ok hv
      rw [ih inner hx]
      rfl
  | @item type name key f value value' front back before after named repeated kind edit ih =>
      have inner := names.nested (MessageType.fieldNamed?_eq_some named) kind
      refine ofJsonWithin_object (fun levels hread => ?_) h
      refine foldlM_replaced (keeps_absorbMember names.valid.check) (fun k k' hk habsorb => ?_)
        (start type) hread
      rw [← hk.type] at named
      refine absorbMember_of_named_of named Json.noConfusion Json.noConfusion (fun v hv => ?_) habsorb
      rw [ofJson_array repeated] at hv ⊢
      obtain ⟨vs, hvs, rfl⟩ := Except.map_eq_ok hv
      rw [mapM_replaced (fun e he => ?_) hvs]
      · rfl
      rw [Field.elementOfJson_message kind] at he ⊢
      obtain ⟨x, hx, rfl⟩ := Except.map_eq_ok he
      rw [ih inner hx]
      rfl

theorem ofJson_edited (names : s.Resolves type)
    (edits : Relation.ReflTransGen (JsonEdit s type) json json')
    (h : ofJson s rule type json = .ok m) : ofJson s rule type json' = .ok m := by
  induction edits with
  | refl => exact h
  | tail _ edit ih => exact ofJsonWithin_edited names edit ih

section Samples

open Catalog

def unitJson : Json :=
  .object [("unit", .int 1)]

def floatJson : Json :=
  .object [("name", .string "a"), ("floatSchema", .object [])]

def floatJsonEdited : Json :=
  .object [("float_schema", unitJson), ("intSchema", .null), ("name", .string "a")]

theorem edits_floatJson :
    Relation.ReflTransGen (JsonEdit schema "catalog.FieldSchema") floatJson floatJsonEdited := by
  have unit : JsonEdit schema "catalog.FloatSchema" (.object []) unitJson :=
    @JsonEdit.unknown _ _ "unit" (.int 1) [] [] (by decide)
  have inside := @JsonEdit.inside schema "catalog.FieldSchema" "catalog.FloatSchema" "floatSchema" _
    _ _ [("name", .string "a")] [] rfl (by decide) rfl unit
  have null := @JsonEdit.null schema "catalog.FieldSchema" "intSchema"
    [("name", .string "a"), ("floatSchema", unitJson)] [] (by decide)
  have rename := @JsonEdit.rename schema "catalog.FieldSchema" "floatSchema" "float_schema"
    (Field.inGroup (.single "float_schema" "floatSchema" 3 (.message "catalog.FloatSchema")) "data")
    unitJson [("name", .string "a")] [("intSchema", .null)] (by decide) (by decide) (by decide)
  have reorder : JsonEdit schema "catalog.FieldSchema"
      (.object [("name", .string "a"), ("float_schema", unitJson), ("intSchema", .null)])
      floatJsonEdited :=
    .reorder ⟨[⟨1, by decide⟩, ⟨2, by decide⟩, ⟨0, by decide⟩], by decide, by decide, rfl⟩
  exact (((Relation.ReflTransGen.single inside).tail null).tail rename).tail reorder

theorem ofJson_edited_float :
    ofJson schema .refuse "catalog.FieldSchema" floatJsonEdited =
      .ok ⟨"catalog.FieldSchema", [(1, .string "a"),
        (3, .message ⟨"catalog.FloatSchema", [(1, .double 0), (2, .double 0)]⟩),
        (6, .bool false)]⟩ := by
  have names : schema.Resolves "catalog.FieldSchema" :=
    Schema.resolves_of_closed (schema.types.map MessageType.name) (by decide) (by decide) (by decide)
  exact ofJson_edited names edits_floatJson rfl

end Samples

end Message

end SchemaRpc
