import Mathlib.Data.List.Pairwise
import SchemaRpc.Proofs.Message.JsonEdits

namespace SchemaRpc

def MessageType.Unambiguous (t : MessageType) : Prop :=
  t.fields.Pairwise fun f g => f.jsonName ≠ g.jsonName ∧ f.jsonName ≠ g.name ∧ f.name ≠ g.jsonName

instance (t : MessageType) : Decidable t.Unambiguous :=
  inferInstanceAs (Decidable (List.Pairwise _ _))

def Field.NamedBy (f : Field) (p : String × Json) : Prop :=
  (p.1 = f.name ∨ p.1 = f.jsonName) ∧ p.2 ≠ .null

theorem Field.isNamed_iff {f : Field} {name : String} :
    f.isNamed name = true ↔ name = f.name ∨ name = f.jsonName := by
  rw [isNamed, Bool.or_eq_true, beq_iff_eq, beq_iff_eq, eq_comm, eq_comm (a := f.jsonName)]

namespace MessageType

variable {t : MessageType} {f : Field} {name : String}

theorem isNamed_of_fieldNamed? (h : t.fieldNamed? name = some f) : f.isNamed name = true :=
  List.find?_some (p := fun f : Field => f.isNamed name) h

theorem fieldNamed?_of_unique (hf : f ∈ t.fields) (named : f.isNamed name = true)
    (unique : ∀ g ∈ t.fields, g.isNamed name = true → g = f) : t.fieldNamed? name = some f := by
  cases h : t.fieldNamed? name with
  | none => exact absurd named (List.find?_eq_none.1 h f hf)
  | some g => rw [unique g (fieldNamed?_eq_some h) (isNamed_of_fieldNamed? h)]

theorem eq_of_shared_name (check : t.check = .ok ()) (h : t.Unambiguous) {g : Field}
    (hf : f ∈ t.fields) (hg : g ∈ t.fields) (nf : f.isNamed name = true)
    (ng : g.isNamed name = true) : g = f := by
  have distinct : t.fields.Pairwise fun f g => ∀ name, f.isNamed name = true → g.isNamed name ≠ true := by
    refine (h.and (differs_of_check check)).imp ?_
    rintro f g ⟨⟨hjson, hcross, hcross'⟩, -, hname⟩ name hn hn'
    rcases Field.isNamed_iff.1 hn with rfl | rfl <;> rcases Field.isNamed_iff.1 hn' with hn | hn
    · exact hname hn
    · exact hcross' hn
    · exact hcross hn
    · exact hjson hn
  by_contra hne
  have hsymm : Std.Symm fun f g : Field => ∀ name, f.isNamed name = true → g.isNamed name ≠ true :=
    ⟨fun f g h name ng nf => h name nf ng⟩
  exact distinct.forall hf hg (Ne.symm hne) name nf ng

theorem unambiguous_iff (check : t.check = .ok ()) :
    t.Unambiguous ↔
      ∀ f ∈ t.fields, t.fieldNamed? f.name = some f ∧ t.fieldNamed? f.jsonName = some f := by
  constructor
  · intro h f hf
    have own : f.isNamed f.name = true ∧ f.isNamed f.jsonName = true :=
      ⟨Field.isNamed_iff.2 (.inl rfl), Field.isNamed_iff.2 (.inr rfl)⟩
    exact ⟨fieldNamed?_of_unique hf own.1 fun g hg => eq_of_shared_name check h hf hg own.1,
      fieldNamed?_of_unique hf own.2 fun g hg => eq_of_shared_name check h hf hg own.2⟩
  · intro h
    refine (pairwise_of_check check).imp_of_mem fun {f g} hf hg hn => ?_
    have apart {key : String} (hk : t.fieldNamed? key = some f) (hk' : t.fieldNamed? key = some g) :
        False := by
      rw [hk] at hk'
      cases hk'
      exact hn rfl
    refine ⟨fun he => ?_, fun he => ?_, fun he => ?_⟩
    · exact apart (h f hf).2 (he ▸ (h g hg).2)
    · exact apart (h f hf).2 (he ▸ (h g hg).1)
    · exact apart (h f hf).1 (he ▸ (h g hg).2)

end MessageType

namespace Message

variable {s : Schema} {rule : GroupRule} {type : String} {m m' : Message} {f : Field} {n : Nat}

theorem withMember_eq_foldl (members : List (String × Json)) (f : Field) :
    withMember s m members f =
      (m.fieldMembers s f).foldl (fun kept p => Json.setMember p.1 p.2 kept) members := by
  rw [withMember_of_get?, fieldMembers]
  cases m.get? f.number with
  | none => rfl
  | some v =>
      simp only
      split <;> rfl

theorem toJson_eq_distinct (m : Message) :
    m.toJson s = .object (Json.distinct ((m.messageType s).fields.flatMap (m.fieldMembers s))) := by
  have hrun : (m.messageType s).fields.foldl (withMember s m) [] =
      Json.distinct ((m.messageType s).fields.flatMap (m.fieldMembers s)) := by
    rw [Json.distinct, List.foldl_flatMap]
    exact congrArg (fun step => List.foldl step [] _)
      (funext fun members => funext (withMember_eq_foldl members))
  obtain ⟨type, fields⟩ := m
  rw [toJson]
  exact congrArg Json.object hrun

theorem filter_fieldMembers (f : Field) (key : String) :
    (m.fieldMembers s f).filter (·.1 == key) = if f.jsonName = key then m.fieldMembers s f else [] := by
  split
  · next h => exact List.filter_eq_self.2 fun p hp => by simp [fst_of_mem_fieldMembers hp, h]
  · next h => exact List.filter_eq_nil_iff.2 fun p hp => by simp [fst_of_mem_fieldMembers hp, h]

theorem filter_flatMap_fieldMembers {fields : List Field} (distinct : (fields.map Field.jsonName).Nodup)
    (hf : f ∈ fields) :
    (fields.flatMap (m.fieldMembers s)).filter (·.1 == f.jsonName) = m.fieldMembers s f := by
  obtain ⟨before, after, rfl⟩ := List.append_of_mem hf
  rw [List.map_append, List.map_cons, List.nodup_middle, List.nodup_cons, List.mem_append] at distinct
  have others {part : List Field} (h : f.jsonName ∉ part.map Field.jsonName) :
      (part.flatMap (m.fieldMembers s)).filter (·.1 == f.jsonName) = [] := by
    rw [List.filter_flatMap, List.flatMap_eq_nil_iff]
    intro g hg
    rw [filter_fieldMembers, if_neg fun he : g.jsonName = f.jsonName => h (he ▸ List.mem_map_of_mem hg)]
  rw [List.flatMap_append, List.flatMap_cons, List.filter_append, List.filter_append,
    others fun h => distinct.1 (.inl h), others fun h => distinct.1 (.inr h), filter_fieldMembers,
    if_pos rfl, List.nil_append, List.append_nil]

section Reading

variable {nested : String → Json → Except Error Message} {p : String × Json} {v w : Value}
variable {members after : List (String × Json)}

theorem set_eq_ok_store (check : (m.messageType s).check = .ok ())
    (hf : f ∈ (m.messageType s).fields) (h : m.set s f.number v = .ok m') :
    m' = m.store s f (f.normalized v) := by
  rw [set, MessageType.field?_of_mem check hf] at h
  simp only at h
  split at h
  · cases h
    rfl
  · cases h

theorem absorbMember_eq_store (check : (s.find type).check = .ok ()) (hm : m.Kept type)
    (h : absorbMember s rule nested m p = .ok m') :
    (m' = m ∧ ((s.find type).fieldNamed? p.1 = none ∨ p.2 = .null)) ∨
      ∃ f v, (s.find type).fieldNamed? p.1 = some f ∧ p.2 ≠ .null ∧ f.ofJson nested p.2 = .ok v ∧
        m' = m.store s f (f.normalized v) := by
  have htype : m.messageType s = s.find type := by rw [messageType, hm.type]
  rcases (s.find type).passed_or_named p.1 p.2 with hpass | ⟨f, named, hj⟩
  · have hstep : absorbMember s rule nested m p = .ok m := absorbMember_of_passed (by rwa [htype])
    rw [hstep] at h
    cases h
    exact .inl ⟨rfl, hpass⟩
  · have hstep : absorbMember s rule nested m p = f.ofJson nested p.2 >>= m.assign s rule f :=
      absorbMember_of_named (by rwa [htype]) hj
    rw [hstep] at h
    obtain ⟨v, hv, h⟩ := Except.bind_eq_ok h
    refine .inr ⟨f, v, named, hj, hv, ?_⟩
    have hf := MessageType.fieldNamed?_eq_some named
    exact set_eq_ok_store (by rwa [htype]) (by rwa [htype]) (assign_eq_ok h)

theorem origin_of_absorbMember (check : (s.find type).check = .ok ()) (hm : m.Kept type)
    (h : absorbMember s rule nested m p = .ok m') (hf : f ∈ (s.find type).fields)
    (hw : m'.get? f.number = some w) :
    m.get? f.number = some w ∨
      f.NamedBy p ∧ ∃ v, f.ofJson nested p.2 = .ok v ∧ w = f.normalized v := by
  rcases absorbMember_eq_store check hm h with ⟨rfl, -⟩ | ⟨g, v, named, hj, hv, rfl⟩
  · exact .inl hw
  · rw [get?_store s hm.ascending] at hw
    split at hw
    · next hn =>
        cases hw
        cases MessageType.eq_of_number check hf (MessageType.fieldNamed?_eq_some named) hn
        exact .inr ⟨⟨Field.isNamed_iff.1 (MessageType.isNamed_of_fieldNamed? named), hj⟩, v, hv, rfl⟩
    · split at hw
      · cases hw
      · exact .inl hw

theorem origin_of_foldlM (check : (s.find type).check = .ok ()) (hm : m.Kept type)
    (h : members.foldlM (absorbMember s rule nested) m = .ok m') (hf : f ∈ (s.find type).fields)
    (hw : m'.get? f.number = some w) :
    m.get? f.number = some w ∨
      ∃ p ∈ members, f.NamedBy p ∧ ∃ v, f.ofJson nested p.2 = .ok v ∧ w = f.normalized v := by
  induction members generalizing m with
  | nil =>
      cases h
      exact .inl hw
  | cons p rest ih =>
      rw [List.foldlM_cons] at h
      obtain ⟨mid, hp, h⟩ := Except.bind_eq_ok h
      rcases ih (keeps_absorbMember check m p mid hm hp) h with hmid | ⟨q, hq, hnamed⟩
      · rcases origin_of_absorbMember check hm hp hf hmid with hold | hnew
        · exact .inl hold
        · exact .inr ⟨p, List.mem_cons_self, hnew⟩
      · exact .inr ⟨q, List.mem_cons_of_mem _ hq, hnamed⟩

theorem get?_foldlM_of_unconcerned (check : (s.find type).check = .ok ()) (hm : m.Kept type)
    (h : members.foldlM (absorbMember s rule nested) m = .ok m')
    (free : ∀ q ∈ members, q.2 ≠ .null → ¬Concerned (s.find type) q.1 n) : m'.get? n = m.get? n := by
  induction members generalizing m with
  | nil =>
      cases h
      rfl
  | cons p rest ih =>
      rw [List.foldlM_cons] at h
      obtain ⟨mid, hp, h⟩ := Except.bind_eq_ok h
      rw [ih (keeps_absorbMember check m p mid hm hp) h fun q hq => free q (List.mem_cons_of_mem _ hq)]
      by_cases hnull : p.2 = .null
      · have hstep : absorbMember s rule nested m p = .ok m := absorbMember_of_passed (.inr hnull)
        rw [hstep] at hp
        cases hp
        rfl
      · exact (((confined_absorbMember check p).keeps m mid hm hp).2 n
          (free p List.mem_cons_self hnull)).symm

structure Delivered (s : Schema) (type : String) (nested : String → Json → Except Error Message)
    (members : List (String × Json)) (m : Message) (f : Field) : Prop where
  origin : ∀ w, m.get? f.number = some w → initial? f = some w ∨
    ∃ p ∈ members, f.NamedBy p ∧ ∃ v, f.ofJson nested p.2 = .ok v ∧ w = f.normalized v
  arrival : ∀ before p after, members = before ++ p :: after → f.NamedBy p →
    ∃ v, f.ofJson nested p.2 = .ok v ∧
      ((∀ q ∈ after, q.2 ≠ .null → ¬Concerned (s.find type) q.1 f.number) →
        m.get? f.number = some (f.normalized v))

theorem delivered_of_foldlM (check : (s.find type).check = .ok ())
    (names : (s.find type).Unambiguous) (hf : f ∈ (s.find type).fields)
    (h : members.foldlM (absorbMember s rule nested) (zero (s.find type)) = .ok m) :
    Delivered s type nested members m f := by
  have start : (zero (s.find type)).Kept type :=
    ⟨by rw [type_zero, Schema.name_find], ascending_zero _⟩
  constructor
  · intro w hw
    rw [← get?_zero_of_mem check hf]
    exact origin_of_foldlM check start h hf hw
  · rintro before p after rfl ⟨hkey, hj⟩
    rw [List.foldlM_append] at h
    obtain ⟨first, hbefore, h⟩ := Except.bind_eq_ok h
    rw [List.foldlM_cons] at h
    obtain ⟨second, hp, h⟩ := Except.bind_eq_ok h
    have kept : first.Kept type :=
      Except.foldlM_invariant (keeps_absorbMember check) start hbefore
    have own : (s.find type).fieldNamed? p.1 = some f := by
      obtain ⟨hname, hjson⟩ := (MessageType.unambiguous_iff check).1 names f hf
      rcases hkey with hkey | hkey
      · rw [hkey, hname]
      · rw [hkey, hjson]
    rcases absorbMember_eq_store check kept hp with ⟨-, hpass⟩ | ⟨g, v, hg, -, hv, rfl⟩
    · rcases hpass with hnone | hnull
      · rw [own] at hnone
        cases hnone
      · exact absurd hnull hj
    · rw [own] at hg
      cases hg
      refine ⟨v, hv, fun free => ?_⟩
      rw [get?_foldlM_of_unconcerned check (keeps_absorbMember check _ p _ kept hp) h free,
        get?_store s kept.ascending, if_pos rfl]

end Reading

theorem names_resolve (check : (s.find type).check = .ok ()) :
    (∀ f ∈ (s.find type).fields, (s.find type).field? f.number = some f) ∧
    ((s.find type).Unambiguous ↔ ∀ f ∈ (s.find type).fields,
      (s.find type).fieldNamed? f.name = some f ∧ (s.find type).fieldNamed? f.jsonName = some f) ∧
    (∀ m : Message, m.type = type →
      m.toJson s = .object (Json.distinct ((s.find type).fields.flatMap (m.fieldMembers s)))) ∧
    ((s.find type).Unambiguous →
      ((s.find type).fields.map Field.jsonName).Nodup ∧
      (∀ m : Message, m.type = type → ∃ members, m.toJson s = .object members ∧
        ∀ f ∈ (s.find type).fields,
          members.filter (·.1 == f.jsonName) = m.fieldMembers s f) ∧
      ∀ rule members m, ofJson s rule type (.object members) = .ok m →
        ∀ f ∈ (s.find type).fields,
          Delivered s type (ofJsonWithin s rule Error.nestingLimit) members m f) := by
  refine ⟨fun f hf => MessageType.field?_of_mem check hf, MessageType.unambiguous_iff check, ?_, ?_⟩
  · rintro m rfl
    exact toJson_eq_distinct m
  intro names
  have distinct : ((s.find type).fields.map Field.jsonName).Nodup :=
    List.pairwise_map.2 (names.imp And.left)
  refine ⟨distinct, ?_, fun rule members m h f hf => delivered_of_foldlM check names hf h⟩
  rintro m rfl
  exact ⟨_, toJson_eq distinct, fun f hf => filter_flatMap_fieldMembers distinct hf⟩

section Samples

open Catalog

theorem names_resolve_field :
    (schema.find "catalog.FieldSchema").check = .ok () ∧
    (schema.find "catalog.FieldSchema").Unambiguous ∧
    (schema.find "catalog.FieldSchema").fieldNamed? "floatSchema" =
      (schema.find "catalog.FieldSchema").field? 3 ∧
    ∃ m, ofJson schema .refuse "catalog.FieldSchema" floatJson = .ok m ∧
      ∀ f ∈ (schema.find "catalog.FieldSchema").fields,
        Delivered schema "catalog.FieldSchema"
          (ofJsonWithin schema .refuse Error.nestingLimit)
          [("name", .string "a"), ("floatSchema", .object [])] m f := by
  have check : (schema.find "catalog.FieldSchema").check = .ok () := rfl
  have names : (schema.find "catalog.FieldSchema").Unambiguous := by decide
  obtain ⟨numbers, lookups, -, apart⟩ := names_resolve check
  have hf : Field.inGroup (.single "float_schema" "floatSchema" 3 (.message "catalog.FloatSchema"))
      "data" ∈ (schema.find "catalog.FieldSchema").fields := by decide
  refine ⟨check, names, ?_, _, rfl, (apart names).2.2 .refuse _ _ rfl⟩
  exact (lookups.1 names _ hf).2.trans (numbers _ hf).symm

def sharedNames : Schema := ⟨[
  ⟨"x.M", [.single "a" "x" 1 (.scalar .int32), .single "b" "x" 2 (.scalar .int32)]⟩,
  ⟨"x.N", [.single "a" "b" 1 (.scalar .int32), .single "b" "c" 2 (.scalar .int32)]⟩]⟩

theorem names_collide :
    (sharedNames.find "x.M").check = .ok () ∧
    ¬(∀ f ∈ (sharedNames.find "x.M").fields, (sharedNames.find "x.M").fieldNamed? f.jsonName = some f) ∧
    toJson sharedNames ⟨"x.M", [(1, .int32 5), (2, .int32 7)]⟩ = .object [("x", .int 7)] ∧
    ofJson sharedNames .refuse "x.M" (.object [("x", .int 7)]) =
      .ok ⟨"x.M", [(1, .int32 7), (2, .int32 0)]⟩ ∧
    (sharedNames.find "x.N").check = .ok () ∧
    ¬(∀ f ∈ (sharedNames.find "x.N").fields, (sharedNames.find "x.N").fieldNamed? f.name = some f) := by
  refine ⟨rfl, by decide, by cbv, by cbv, rfl, by decide⟩

end Samples

end Message

end SchemaRpc
