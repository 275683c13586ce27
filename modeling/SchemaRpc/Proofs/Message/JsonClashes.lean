import SchemaRpc.Proofs.Message.Clashes
import SchemaRpc.Proofs.Message.JsonReading
import SchemaRpc.Proofs.Message.JsonRoundTrip

namespace SchemaRpc

def Field.items (f : Field) (json : Json) : List Json :=
  if f.isRepeated then
    match json with
    | .array items => items
    | _ => []
  else [json]

def MessageType.givenMember (t : MessageType) (nested : String → Json → Except Error Message)
    (member : String × Json) : Option (Field × Value) :=
  match t.fieldNamed? member.1, member.2 with
  | none, _ => none
  | some _, .null => none
  | some f, json =>
    match f.ofJson nested json with
    | .ok v => some (f, f.normalized v)
    | .error _ => none

/-- In JSON that is read as a message of the type, rivals are given, before any other error: by the
members of a beginning that can be read, or within a message behind such a beginning. -/
inductive JsonClashes (s : Schema) : Nat → String → Json → Prop
  | here {levels : Nat} {type : String} {start rest : List (String × Json)} {m : Message}
      (read : Message.ofJsonWithin s .replace (levels + 1) type (.object start) = .ok m)
      (rivals : Rivals
        (start.filterMap ((s.find type).givenMember (Message.ofJsonWithin s .replace levels)))) :
      JsonClashes s (levels + 1) type (.object (start ++ rest))
  | inside {levels : Nat} {type name key : String} {start rest : List (String × Json)} {m : Message}
      {f : Field} {json item : Json} {before after : List Json}
      (read : Message.ofJsonWithin s .replace (levels + 1) type (.object start) = .ok m)
      (named : (s.find type).fieldNamed? key = some f) (kind : f.kind = .message name)
      (items : f.items json = before ++ item :: after)
      (readable : ∀ j ∈ before, ∃ k, Message.ofJsonWithin s .replace levels name j = .ok k)
      (clash : JsonClashes s levels name item) :
      JsonClashes s (levels + 1) type (.object (start ++ (key, json) :: rest))

theorem not_jsonClashes_null {s : Schema} {levels : Nat} {name : String} :
    ¬JsonClashes s levels name .null := by
  rintro ⟨⟩

namespace Field

variable {clash : String → Json → Prop} {strict lenient : String → Json → Except Error Message}
variable {f : Field} {json : Json} {v : Value}

theorem elementOfJson_message {name : String} (h : f.kind = .message name) (json : Json) :
    f.elementOfJson lenient json = (lenient name json).map .message := by
  simp only [elementOfJson, h]

theorem elementOfJson_eq (hm : ∀ name, f.kind ≠ .message name) (json : Json) :
    f.elementOfJson strict json = f.elementOfJson lenient json := by
  unfold elementOfJson
  cases hk : f.kind with
  | message name => exact absurd hk (hm name)
  | _ => rfl

theorem detects_elementOfJson
    (h : ∀ name json, f.kind = .message name → Detects (clash name json) (strict name json)
      (lenient name json)) (json : Json) :
    Detects (∃ name, f.kind = .message name ∧ clash name json) (f.elementOfJson strict json)
      (f.elementOfJson lenient json) := by
  by_cases hm : ∃ name, f.kind = .message name
  · obtain ⟨name, hk⟩ := hm
    rw [elementOfJson_message hk, elementOfJson_message hk]
    refine ((h name json hk).map Value.message).congr ⟨fun hc => ⟨name, hk, hc⟩, ?_⟩
    rintro ⟨other, ho, hc⟩
    rw [hk] at ho
    cases ho
    exact hc
  · have hm := not_exists.1 hm
    have same : f.elementOfJson strict json = f.elementOfJson lenient json := elementOfJson_eq hm json
    rw [same]
    have calm : ¬Conflicted (f.elementOfJson lenient json) := by
      rintro ⟨message, group, he⟩
      rcases elementOfJson_fails he with hd | ⟨name, hk, -⟩
      · exact hd
      · exact hm name hk
    exact (Detects.none calm).congr ⟨False.elim, fun ⟨name, hk, _⟩ => hm name hk⟩

def ItemClashes (f : Field) (clash : String → Json → Prop)
    (lenient : String → Json → Except Error Message) (json : Json) : Prop :=
  ∃ name before item after, f.kind = .message name ∧ f.items json = before ++ item :: after ∧
    (∀ j ∈ before, ∃ k, lenient name j = .ok k) ∧ clash name item

theorem not_itemClashes_null (null : ∀ name, ¬clash name .null) :
    ¬f.ItemClashes clash lenient .null := by
  rintro ⟨name, before, item, after, -, hi, -, hc⟩
  unfold items at hi
  split at hi
  · cases before <;> cases hi
  · cases before with
    | nil =>
        cases hi
        exact null name hc
    | cons j before => cases before <;> cases hi

theorem detects_ofJson
    (h : ∀ name json, f.kind = .message name → Detects (clash name json) (strict name json)
      (lenient name json)) (json : Json) :
    Detects (f.ItemClashes clash lenient json) (f.ofJson strict json) (f.ofJson lenient json) := by
  have readable : ∀ name, f.kind = .message name → ∀ j,
      (∃ v, f.elementOfJson lenient j = .ok v) ↔ ∃ k, lenient name j = .ok k := by
    intro name hk j
    rw [elementOfJson_message hk]
    cases lenient name j <;> simp [Except.map]
  by_cases hr : f.cardinality = .repeated
  · have hrep := isRepeated_iff.2 hr
    cases json with
    | array items =>
        have hi : f.items (.array items) = items := by simp [Field.items, hrep]
        rw [Message.ofJson_array hr, Message.ofJson_array hr]
        refine ((Detects.mapM (detects_elementOfJson h) items).map Value.list).congr ?_
        rw [ItemClashes, hi]
        constructor
        · rintro ⟨before, item, after, rfl, hok, name, hk, hc⟩
          exact ⟨name, before, item, after, hk, rfl, fun j hj => (readable name hk j).1 (hok j hj), hc⟩
        · rintro ⟨name, before, item, after, hk, rfl, hok, hc⟩
          exact ⟨before, item, after, rfl, fun j hj => (readable name hk j).2 (hok j hj), name, hk, hc⟩
    | _ =>
        simp only [ofJson, hrep, if_true]
        refine (Detects.none (not_conflicted_error (by trivial))).congr ?_
        simp [ItemClashes, Field.items, hrep]
  · have hi : f.items json = [json] := by simp [Field.items, isRepeated, hr]
    rw [Message.ofJson_element hr, Message.ofJson_element hr]
    refine (detects_elementOfJson h json).congr ?_
    rw [ItemClashes, hi]
    constructor
    · rintro ⟨name, hk, hc⟩
      exact ⟨name, [], json, [], hk, rfl, List.forall_mem_nil _, hc⟩
    · rintro ⟨name, before, item, after, hk, heq, -, hc⟩
      cases before with
      | nil =>
          cases heq
          exact ⟨name, hk, hc⟩
      | cons j before => cases before <;> cases heq

theorem fits_of_elementOfJson (typed : ∀ name m, f.kind = .message name → lenient name json = .ok m →
    m.type = name) (h : f.elementOfJson lenient json = .ok v) : v.fits f.kind = true := by
  unfold elementOfJson at h
  cases hk : f.kind with
  | scalar c =>
      simp only [hk] at h
      exact fits_of_scalarOfJson h
  | enumeration e =>
      simp only [hk] at h
      split at h
      · cases h
        rfl
      · obtain ⟨n, -, h⟩ := Except.bind_eq_ok h
        cases h
        rfl
      · obtain ⟨n, -, h⟩ := Except.bind_eq_ok h
        cases h
        rfl
      · cases h
  | message name =>
      simp only [hk] at h
      obtain ⟨m, hm, rfl⟩ := Except.map_eq_ok h
      exact beq_iff_eq.2 (typed name m hk hm)
  | timestamp =>
      simp only [hk] at h
      split at h
      · obtain ⟨t, -, rfl⟩ := Except.map_eq_ok h
        rfl
      · cases h

theorem accepts_of_ofJson (typed : ∀ name json m, f.kind = .message name → lenient name json = .ok m →
    m.type = name) (h : f.ofJson lenient json = .ok v) : f.accepts v = true := by
  by_cases hr : f.cardinality = .repeated
  · cases json with
    | array items =>
        rw [Message.ofJson_array hr] at h
        obtain ⟨values, hv, rfl⟩ := Except.map_eq_ok h
        have hfits : ∀ e ∈ values, e.fits f.kind = true := by
          intro e he
          obtain ⟨item, -, hitem⟩ := Except.mem_of_mapM hv e he
          exact fits_of_elementOfJson (fun name m hk => typed name item m hk) hitem
        simpa [accepts, isRepeated_iff.2 hr] using hfits
    | _ =>
        simp only [ofJson, isRepeated_iff.2 hr, if_true] at h
        cases h
  · rw [Message.ofJson_element hr] at h
    have hfits := fits_of_elementOfJson (fun name m hk => typed name json m hk) h
    have hsingle : f.isRepeated = false := decide_eq_false hr
    cases v with
    | list items => cases hfits
    | _ => simpa [accepts, hsingle] using hfits

end Field

def MemberClashes (t : MessageType) (clash : String → Json → Prop)
    (lenient : String → Json → Except Error Message) (member : String × Json) : Prop :=
  ∃ f, t.fieldNamed? member.1 = some f ∧ f.ItemClashes clash lenient member.2

namespace MessageType

variable {t : MessageType} {nested : String → Json → Except Error Message} {key : String} {json : Json}

theorem passed_or_named (t : MessageType) (key : String) (json : Json) :
    (t.fieldNamed? key = none ∨ json = .null) ∨ ∃ f, t.fieldNamed? key = some f ∧ json ≠ .null := by
  by_cases h : t.fieldNamed? key = none ∨ json = .null
  · exact .inl h
  · obtain ⟨hnone, hj⟩ := not_or.1 h
    obtain ⟨f, hf⟩ := Option.ne_none_iff_exists'.1 hnone
    exact .inr ⟨f, hf, hj⟩

theorem givenMember_of_passed (h : t.fieldNamed? key = none ∨ json = .null) :
    t.givenMember nested (key, json) = none := by
  unfold givenMember
  rcases h with h | rfl
  · simp only [h]
  · cases t.fieldNamed? key <;> rfl

theorem givenMember_of_named {f : Field} {v : Value} (named : t.fieldNamed? key = some f)
    (hj : json ≠ .null) (hv : f.ofJson nested json = .ok v) :
    t.givenMember nested (key, json) = some (f, f.normalized v) := by
  unfold givenMember
  cases json with
  | null => exact absurd rfl hj
  | _ => simp only [named, hv]

theorem of_givenMember {p : Field × Value} (h : t.givenMember nested (key, json) = some p) :
    ∃ f v, t.fieldNamed? key = some f ∧ json ≠ .null ∧ f.ofJson nested json = .ok v ∧
      p = (f, f.normalized v) := by
  rcases t.passed_or_named key json with hpass | ⟨f, named, hj⟩
  · rw [givenMember_of_passed hpass] at h
    cases h
  · cases hv : f.ofJson nested json with
    | ok v =>
        rw [givenMember_of_named named hj hv] at h
        cases h
        exact ⟨f, v, named, hj, hv, rfl⟩
    | error e =>
        unfold givenMember at h
        cases json with
        | null => exact absurd rfl hj
        | _ => simp only [named, hv] at h; cases h

end MessageType

namespace Message

section Members

variable {s : Schema} {rule : GroupRule} {type : String} {clash : String → Json → Prop}
variable {strict lenient : String → Json → Except Error Message} {m m' : Message} {f : Field}
variable {given : List (Field × Value)} {key : String} {json : Json} {v : Value}

def assign (s : Schema) (rule : GroupRule) (m : Message) (f : Field) (v : Value) :
    Except Error Message :=
  match f.group? with
  | some group =>
    if rule = .refuse ∧ (m.which? s group).any (·.number != f.number) then
      .error (.groupConflict m.type group)
    else m.set s f.number v
  | none => m.set s f.number v

theorem absorbMember_of_passed (h : (m.messageType s).fieldNamed? key = none ∨ json = .null) :
    absorbMember s rule lenient m (key, json) = .ok m := by
  unfold absorbMember
  rcases h with h | rfl
  · simp only [h]
  · cases (m.messageType s).fieldNamed? key <;> rfl

theorem absorbMember_of_named (named : (m.messageType s).fieldNamed? key = some f)
    (hj : json ≠ .null) :
    absorbMember s rule lenient m (key, json) = f.ofJson lenient json >>= m.assign s rule f := by
  unfold absorbMember
  cases json with
  | null => exact absurd rfl hj
  | _ =>
      simp only [named]
      cases f.ofJson lenient _ <;> rfl

theorem set_of_accepts (check : (m.messageType s).check = .ok ())
    (hf : f ∈ (m.messageType s).fields) (ha : f.accepts v = true) :
    m.set s f.number v = .ok (m.store s f (f.normalized v)) := by
  rw [set, MessageType.field?_of_mem check hf]
  exact if_pos ha

theorem assign_replace (check : (m.messageType s).check = .ok ())
    (hf : f ∈ (m.messageType s).fields) (ha : f.accepts v = true) :
    m.assign s .replace f v = .ok (m.store s f (f.normalized v)) := by
  unfold assign
  split <;> simp [set_of_accepts check hf ha]

theorem detects_assign (h : m.KeepsLast s type given) (check : (s.find type).check = .ok ())
    (hf : f ∈ (s.find type).fields) (ha : f.accepts v = true) :
    Detects (m.displaces s f = true) (m.assign s .refuse f v) (m.assign s .replace f v) := by
  have hlenient := assign_replace (m := m) (by rwa [h.messageType]) (by rwa [h.messageType]) ha
  rw [hlenient]
  have hset := set_of_accepts (m := m) (by rwa [h.messageType]) (by rwa [h.messageType]) ha
  cases hg : f.group? with
  | none =>
      have hd : m.displaces s f = false := displaces_of_ungrouped hg
      simp only [assign, hg, hset]
      exact (Detects.none (not_conflicted_ok _)).congr (by simp [hd])
  | some group =>
      simp only [assign, hg, hset, h.which?_any hg]
      refine ⟨fun hd => ⟨m.type, group, by simp [hd]⟩, fun hd => by simp [hd], not_conflicted_ok _⟩

theorem detects_absorbMember (hm : m.KeepsLast s type given) (check : (s.find type).check = .ok ())
    (h : ∀ f ∈ (s.find type).fields, ∀ name json, f.kind = .message name →
      Detects (clash name json) (strict name json) (lenient name json))
    (typed : ∀ f ∈ (s.find type).fields, ∀ name json m, f.kind = .message name →
      lenient name json = .ok m → m.type = name)
    (null : ∀ name, ¬clash name .null) (key : String) (json : Json) :
    Detects
      (MemberClashes (s.find type) clash lenient (key, json) ∨
        ∃ p ∈ (s.find type).givenMember lenient (key, json), m.displaces s p.1 = true)
      (absorbMember s .refuse strict m (key, json))
      (absorbMember s .replace lenient m (key, json)) := by
  rcases (s.find type).passed_or_named key json with hpass | ⟨f, hnamed, hj⟩
  · rw [absorbMember_of_passed (by rwa [hm.messageType]),
      absorbMember_of_passed (by rwa [hm.messageType])]
    refine (Detects.none (not_conflicted_ok m)).congr ⟨False.elim, ?_⟩
    rintro (⟨f, hf, hc⟩ | ⟨p, hp, -⟩)
    · rcases hpass with hn | rfl
      · rw [hn] at hf
        cases hf
      · exact Field.not_itemClashes_null null hc
    · rw [MessageType.givenMember_of_passed hpass] at hp
      cases hp
  · have hf := MessageType.fieldNamed?_eq_some hnamed
    rw [absorbMember_of_named (by rwa [hm.messageType]) hj,
      absorbMember_of_named (by rwa [hm.messageType]) hj]
    refine ((Field.detects_ofJson (h f hf) json).bind fun v hv =>
      detects_assign hm check hf (Field.accepts_of_ofJson (typed f hf) hv)).congr ?_
    constructor
    · rintro (hc | ⟨v, hv, hd⟩)
      · exact .inl ⟨f, hnamed, hc⟩
      · exact .inr ⟨(f, f.normalized v), MessageType.givenMember_of_named hnamed hj hv, hd⟩
    · rintro (⟨g, hg, hc⟩ | ⟨p, hp, hd⟩)
      · rw [hnamed] at hg
        cases hg
        exact .inl hc
      · obtain ⟨g, v, hg, -, hv, rfl⟩ := MessageType.of_givenMember hp
        rw [hnamed] at hg
        cases hg
        exact .inr ⟨v, hv, hd⟩

theorem KeepsLast.absorbMember (hm : m.KeepsLast s type given)
    (check : (s.find type).check = .ok ())
    (typed : ∀ f ∈ (s.find type).fields, ∀ name json m, f.kind = .message name →
      lenient name json = .ok m → m.type = name)
    (ha : absorbMember s .replace lenient m (key, json) = .ok m') :
    m'.KeepsLast s type (given ++ ((s.find type).givenMember lenient (key, json)).toList) := by
  rcases (s.find type).passed_or_named key json with hpass | ⟨f, hnamed, hj⟩
  · rw [absorbMember_of_passed (by rwa [hm.messageType])] at ha
    cases ha
    rw [MessageType.givenMember_of_passed hpass]
    simpa using hm
  · have hf := MessageType.fieldNamed?_eq_some hnamed
    rw [absorbMember_of_named (by rwa [hm.messageType]) hj] at ha
    obtain ⟨v, hv, hassign⟩ := Except.bind_eq_ok ha
    rw [assign_replace (by rwa [hm.messageType]) (by rwa [hm.messageType])
      (Field.accepts_of_ofJson (typed f hf) hv)] at hassign
    cases hassign
    rw [MessageType.givenMember_of_named hnamed hj hv]
    exact hm.store check hf (f.normalized v)

theorem gathers_absorbMember (check : (s.find type).check = .ok ())
    (h : ∀ f ∈ (s.find type).fields, ∀ name json, f.kind = .message name →
      Detects (clash name json) (strict name json) (lenient name json))
    (typed : ∀ f ∈ (s.find type).fields, ∀ name json m, f.kind = .message name →
      lenient name json = .ok m → m.type = name)
    (null : ∀ name, ¬clash name .null) :
    Gathers s type (MemberClashes (s.find type) clash lenient) ((s.find type).givenMember lenient)
      (absorbMember s .refuse strict) (absorbMember s .replace lenient) where
  detects := fun before m member hm => detects_absorbMember hm check h typed null member.1 member.2
  accepts := by
    rintro before m ⟨key, json⟩ p hm hp
    obtain ⟨f, v, hnamed, hj, hv, -⟩ := MessageType.of_givenMember hp
    have hf := MessageType.fieldNamed?_eq_some hnamed
    rw [absorbMember_of_named (by rwa [hm.messageType]) hj, hv]
    exact ⟨_, assign_replace (by rwa [hm.messageType]) (by rwa [hm.messageType])
      (Field.accepts_of_ofJson (typed f hf) hv)⟩
  keeps := fun before m member m' hm ha => hm.absorbMember check typed ha

end Members

section Objects

variable {s : Schema} {type : String} {levels : Nat} {m : Message}
variable {members : List (String × Json)} {json : Json}

theorem itemsClash_iff_jsonClashes :
    ItemsClash (MemberClashes (s.find type) (JsonClashes s levels) (ofJsonWithin s .replace levels))
        ((s.find type).givenMember (ofJsonWithin s .replace levels))
        (absorbMember s .replace (ofJsonWithin s .replace levels)) (zero (s.find type)) members ↔
      JsonClashes s (levels + 1) type (.object members) := by
  constructor
  · rintro (⟨read, rivals⟩ | ⟨read, f, named, name, before, item, after, kind, items, ok, clash⟩)
    · exact .here read rivals
    · exact .inside read named kind items ok clash
  · rintro (⟨read, rivals⟩ | ⟨read, named, kind, items, ok, clash⟩)
    · exact .rivals read rivals
    · exact .inner read ⟨_, named, _, _, _, _, kind, items, ok, clash⟩

theorem gathers_ofJsonWithin (valid : s.Valid type)
    (h : ∀ name json, s.Valid name → Detects (JsonClashes s levels name json)
      (ofJsonWithin s .refuse levels name json) (ofJsonWithin s .replace levels name json)) :
    Gathers s type
      (MemberClashes (s.find type) (JsonClashes s levels) (ofJsonWithin s .replace levels))
      ((s.find type).givenMember (ofJsonWithin s .replace levels))
      (absorbMember s .refuse (ofJsonWithin s .refuse levels))
      (absorbMember s .replace (ofJsonWithin s .replace levels)) := by
  refine gathers_absorbMember valid.check (fun f hf name json hk => h name json (valid.nested hf hk))
    (fun f hf name json m hk hm => ?_) fun name => not_jsonClashes_null
  exact (parsesWell_ofJsonWithin s .replace levels name json m (valid.nested hf hk) hm).1

theorem detects_ofJsonWithin (valid : s.Valid type) (levels : Nat) (json : Json) :
    Detects (JsonClashes s levels type json) (ofJsonWithin s .refuse levels type json)
      (ofJsonWithin s .replace levels type json) := by
  induction levels generalizing type json with
  | zero => exact (Detects.none (not_conflicted_error (by trivial))).congr ⟨False.elim, nofun⟩
  | succ levels ih =>
      cases json with
      | object members =>
          have hgathers := gathers_ofJsonWithin valid fun name json hv => ih hv json
          exact (hgathers.detects_foldlM (.zero valid.check) members).congr itemsClash_iff_jsonClashes
      | _ => exact (Detects.none (not_conflicted_error (by trivial))).congr ⟨False.elim, nofun⟩

theorem keepsLast_ofJsonWithin (valid : s.Valid type)
    (h : ofJsonWithin s .replace (levels + 1) type json = .ok m) :
    ∃ members, json = .object members ∧ m.KeepsLast s type
      (members.filterMap ((s.find type).givenMember (ofJsonWithin s .replace levels))) := by
  cases json with
  | object members =>
      have hgathers := gathers_ofJsonWithin valid fun name json hv =>
        detects_ofJsonWithin hv levels json
      exact ⟨members, rfl, hgathers.keepsLast (.zero valid.check) h⟩
  | _ => cases h

theorem conflicted_iff_clashes (valid : s.Valid type) :
    (∀ bytes,
      (decode s .refuse type bytes = decode s .replace type bytes ∨
        Conflicted (decode s .refuse type bytes)) ∧
      (Conflicted (decode s .refuse type bytes) ↔ Clashes s 101 type bytes)) ∧
    (∀ json,
      (ofJson s .refuse type json = ofJson s .replace type json ∨
        Conflicted (ofJson s .refuse type json)) ∧
      (Conflicted (ofJson s .refuse type json) ↔ JsonClashes s 101 type json)) ∧
    ∀ levels m,
      (∀ bytes, decodeWithin s .replace (levels + 1) type bytes = .ok m →
        ∃ rs, Records rs bytes ∧ m.KeepsLast s type
          (rs.filterMap ((s.find type).given (decodeWithin s .replace levels)))) ∧
      ∀ json, ofJsonWithin s .replace (levels + 1) type json = .ok m →
        ∃ members, json = .object members ∧ m.KeepsLast s type
          (members.filterMap ((s.find type).givenMember (ofJsonWithin s .replace levels))) := by
  refine ⟨fun bytes => ?_, fun json => ?_, fun levels m =>
    ⟨fun bytes => keepsLast_decodeWithin valid, fun json => keepsLast_ofJsonWithin valid⟩⟩
  · have h := detects_decodeWithin valid 101 bytes
    exact ⟨h.eq_or, h.conflicted_iff⟩
  · have h := detects_ofJsonWithin valid 101 json
    exact ⟨h.eq_or, h.conflicted_iff⟩

end Objects

section Samples

open Catalog

def kindsJson : Json :=
  .object [("intSchema", .object []), ("float_schema", .object []), ("name", .null)]

theorem conflicted_iff_clashes_received :
    Clashes schema 101 "catalog.Catalog" receivedBytes ∧
      JsonClashes schema 101 "catalog.FieldSchema" kindsJson ∧
      ¬Clashes schema 101 "catalog.FieldSchema" [18, 0, 18, 0] := by
  have valid : schema.Valid "catalog.FieldSchema" :=
    Schema.valid_of_closed (schema.types.map MessageType.name) (by decide) (by decide)
  obtain ⟨hcatalog, hclashes⟩ := (conflicted_iff_clashes valid_catalog).1 receivedBytes
  obtain ⟨hbytes, hjson, -⟩ := conflicted_iff_clashes valid
  refine ⟨hclashes.1 (conflicted_of_isOk hcatalog (by decide +kernel) (by decide +kernel)),
    (hjson kindsJson).2.1 (conflicted_of_isOk (hjson kindsJson).1 (by decide +kernel)
      (by decide +kernel)), fun hc => ?_⟩
  have twice : (decode schema .refuse "catalog.FieldSchema" [18, 0, 18, 0]).isOk = true := by
    decide +kernel
  obtain ⟨message, group, he⟩ := (hbytes _).2.2 hc
  rw [he] at twice
  cases twice

end Samples

end Message

end SchemaRpc
