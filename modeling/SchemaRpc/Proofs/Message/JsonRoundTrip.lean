import SchemaRpc.Proofs.Message.JsonElements
import SchemaRpc.Proofs.Message.RoundTrip

namespace SchemaRpc

theorem Json.setMember_of_notMem {key : String} {members : List (String × Json)}
    (h : key ∉ members.map Prod.fst) (v : Json) :
    setMember key v members = members ++ [(key, v)] := by
  induction members with
  | nil => rfl
  | cons p rest ih =>
      rw [List.map_cons, List.mem_cons, not_or] at h
      rw [setMember, if_neg (Ne.symm h.1), ih h.2, List.cons_append]

structure Schema.Legible (s : Schema) (name : String) : Prop where
  valid : s.Valid name
  named : ∀ last, s.Reaches name last → ∀ f ∈ (s.find last).fields,
    (s.find last).fieldNamed? f.jsonName = some f
  kinds : ∀ last, s.Reaches name last → ∀ f ∈ (s.find last).fields, f.kind.Legible

theorem Schema.Legible.nested {s : Schema} {name inner : String} (h : s.Legible name) {f : Field}
    (hf : f ∈ (s.find name).fields) (hk : f.kind = .message inner) : s.Legible inner where
  valid := h.valid.nested hf hk
  named := fun last hl => h.named last (.step hf hk hl)
  kinds := fun last hl => h.kinds last (.step hf hk hl)

theorem Schema.legible_of_closed {s : Schema} {name : String} (names : List String)
    (h : ∀ n ∈ names, (s.find n).check.isOk = true ∧
      ∀ f ∈ (s.find n).fields, ∀ inner ∈ f.kind.references, inner ∈ names)
    (hf : ∀ n ∈ names, ∀ f ∈ (s.find n).fields,
      (s.find n).fieldNamed? f.jsonName = some f ∧ f.kind.Legible)
    (hn : name ∈ names) : s.Legible name := by
  have reached : ∀ last, s.Reaches name last → last ∈ names := fun last hr =>
    mem_of_reaches hr (fun n hn => (h n hn).2) hn
  exact ⟨valid_of_closed names h hn, fun last hr f hmem => (hf last (reached last hr) f hmem).1,
    fun last hr f hmem => (hf last (reached last hr) f hmem).2⟩

section Accepting

variable {f : Field} {v : Value} {k : Kind}

theorem Value.fits_of_admissible (h : v.Admissible k) : v.fits k = true := by
  unfold Admissible at h
  split at h
  case h_5 n => exact decide_eq_true h
  case h_12 m name => exact beq_iff_eq.2 h
  case h_13 => cases h
  all_goals rfl

theorem Value.normalized_of_admissible (h : v.Admissible k) : v.normalized k = v := by
  unfold Admissible at h
  split at h
  case h_10 n e => rw [normalized, EnumType.normalize_of_stored h]
  case h_11 t => rw [normalized, h.1]
  case h_13 => cases h
  all_goals rfl

theorem Field.accepts_of_admissible (hr : f.cardinality ≠ .repeated) (h : v.Admissible f.kind) :
    f.accepts v = true ∧ f.normalized v = v := by
  have hf : f.isRepeated = false := decide_eq_false hr
  have hfits := Value.fits_of_admissible h
  have hnormal := Value.normalized_of_admissible h
  cases v with
  | list items => cases h
  | _ => simp_all [accepts, normalized]

theorem Field.accepts_of_items {items : List Value} (hr : f.cardinality = .repeated)
    (h : ∀ e ∈ items, e.Admissible f.kind) :
    f.accepts (.list items) = true ∧ f.normalized (.list items) = .list items := by
  have hf : f.isRepeated = true := decide_eq_true hr
  have hfits : ∀ e ∈ items, e.fits f.kind = true := fun e he => Value.fits_of_admissible (h e he)
  have hnormal : items.map (·.normalized f.kind) = items.map id :=
    List.map_congr_left fun e he => Value.normalized_of_admissible (h e he)
  simp_all [accepts, normalized]

end Accepting

namespace Message

section Writing

variable (s : Schema) (m : Message)

def fieldMembers (f : Field) : List (String × Json) :=
  match m.get? f.number with
  | some v => if v.isDefault && f.group?.isNone then [] else [(f.jsonName, v.toJson s f.kind)]
  | none => []

variable {s m}

theorem fieldMembers_of_get? {f : Field} {v : Value} (h : m.get? f.number = some v) :
    m.fieldMembers s f =
      if v.isDefault && f.group?.isNone then [] else [(f.jsonName, v.toJson s f.kind)] := by
  rw [fieldMembers, h]

theorem fst_of_mem_fieldMembers {f : Field} {p : String × Json} (h : p ∈ m.fieldMembers s f) :
    p.1 = f.jsonName := by
  unfold fieldMembers at h
  split at h
  · split at h
    · cases h
    · rw [List.mem_singleton.1 h]
  · cases h

theorem get?_shownFields (fields : List (Nat × Value)) (n : Nat) :
    Assoc.get? n (shownFields s fields) =
      (Assoc.get? n fields).map fun v => ⟨v.isDefault, fun k => v.toJson s k⟩ := by
  induction fields with
  | nil => rw [shownFields]; rfl
  | cons p rest ih =>
      rw [shownFields, Assoc.get?, Assoc.get?, ih]
      split <;> rfl

theorem itemsToJson_eq (items : List Value) (k : Kind) :
    itemsToJson s items k = items.map fun v => v.toJson s k := by
  induction items with
  | nil => rw [itemsToJson]; rfl
  | cons v rest ih => rw [itemsToJson, ih]; rfl

def withMember (s : Schema) (m : Message) (members : List (String × Json)) (f : Field) :
    List (String × Json) :=
  match Assoc.get? f.number (shownFields s m.fields) with
  | some v =>
    if v.isDefault && f.group?.isNone then members
    else Json.setMember f.jsonName (v.json f.kind) members
  | none => members

theorem withMember_of_get? (m : Message) (f : Field) (members : List (String × Json)) :
    withMember s m members f =
      match m.get? f.number with
      | some v =>
        if v.isDefault && f.group?.isNone then members
        else Json.setMember f.jsonName (v.toJson s f.kind) members
      | none => members := by
  rw [withMember, get?_shownFields, get?]
  cases Assoc.get? f.number m.fields <;> rfl

theorem withMember_eq {f : Field} {members : List (String × Json)}
    (new : f.jsonName ∉ members.map Prod.fst) :
    withMember s m members f = members ++ m.fieldMembers s f := by
  rw [withMember_of_get?, fieldMembers]
  cases m.get? f.number with
  | none => exact (List.append_nil _).symm
  | some v =>
      simp only
      split
      · exact (List.append_nil _).symm
      · exact Json.setMember_of_notMem new _

theorem foldl_withMember {rest : List Field} {members : List (String × Json)}
    (distinct : (rest.map Field.jsonName).Nodup)
    (new : ∀ f ∈ rest, f.jsonName ∉ members.map Prod.fst) :
    rest.foldl (withMember s m) members = members ++ rest.flatMap (m.fieldMembers s) := by
  induction rest generalizing members with
  | nil => simp
  | cons f rest ih =>
      obtain ⟨hf, hrest⟩ := List.nodup_cons.1 distinct
      rw [List.foldl_cons, withMember_eq (new f List.mem_cons_self), ih hrest,
        List.flatMap_cons, List.append_assoc]
      intro g hg hmem
      rw [List.map_append, List.mem_append] at hmem
      rcases hmem with hmem | hmem
      · exact new g (List.mem_cons_of_mem _ hg) hmem
      · obtain ⟨p, hp, hn⟩ := List.mem_map.1 hmem
        rw [fst_of_mem_fieldMembers hp] at hn
        exact hf (hn ▸ List.mem_map_of_mem hg)

theorem toJson_eq (distinct : ((m.messageType s).fields.map Field.jsonName).Nodup) :
    m.toJson s = .object ((m.messageType s).fields.flatMap (m.fieldMembers s)) := by
  have hrun : (m.messageType s).fields.foldl (withMember s m) [] = [] ++ _ :=
    foldl_withMember distinct fun f _ => List.not_mem_nil
  obtain ⟨type, fields⟩ := m
  rw [toJson]
  exact congrArg Json.object hrun

end Writing

section Reading

variable {s : Schema} (rule : GroupRule) {levels : Nat}
variable {nested : String → Json → Except Error Message} {m acc : Message} {f : Field} {v : Value}
variable {rest : List Field}

theorem which?_of_free (free : ∀ g ∈ acc.siblings s f, acc.get? g.number = none) {group : String}
    (hf : f.group? = some group) : (acc.which? s group).any (·.number != f.number) = false := by
  cases hw : acc.which? s group with
  | none => rfl
  | some g =>
      obtain ⟨hmem, hgroup⟩ := mem_groupMembers.1 (List.mem_of_find?_eq_some hw)
      obtain ⟨w, hget⟩ : ∃ w, acc.get? g.number = some w :=
        has_eq_true_iff.1 (List.find?_some (p := fun g : Field => acc.has g.number) hw)
      by_cases hn : g.number = f.number
      · simp [hn]
      · have hs := free g ((mem_siblings s).2 ⟨hmem, by simp [hf], hgroup.trans hf.symm, hn⟩)
        rw [hget] at hs
        cases hs

theorem absorbMember_eq {json : Json} (named : (acc.messageType s).fieldNamed? f.jsonName = some f)
    (field : (acc.messageType s).field? f.number = some f) (hjson : json ≠ .null)
    (hv : f.ofJson nested json = .ok v) (accepts : f.accepts v = true ∧ f.normalized v = v)
    (ascending : acc.Ascending) (free : ∀ g ∈ acc.siblings s f, acc.get? g.number = none) :
    absorbMember s rule nested acc (f.jsonName, json) = .ok (acc.insert f.number v) := by
  have hset : acc.set s f.number v = .ok (acc.insert f.number v) := by
    rw [set, field]
    simp only [accepts.1, if_true, accepts.2]
    rw [store_eq_insert ascending free]
  unfold absorbMember
  simp only [named, hv]
  split
  · next group hg =>
      rw [if_neg fun hn => Bool.false_ne_true ((which?_of_free free hg).symm.trans hn.2), hset]
  · exact hset

theorem toJson_ne_null (v : Value) (k : Kind) : v.toJson s k ≠ .null := by
  have hdouble : ∀ bits, Json.ofDouble bits ≠ .null := by
    intro bits
    unfold Json.ofDouble
    split <;> simp
  cases v with
  | float bits => rw [Value.toJson]; exact hdouble _
  | double bits => rw [Value.toJson]; exact hdouble _
  | enumeration n => cases k <;> simp [Value.toJson]
  | message m =>
      obtain ⟨type, fields⟩ := m
      simp [Value.toJson, toJson, MessageType.toJson]
  | _ => simp [Value.toJson]

theorem ofJson_array (hr : f.cardinality = .repeated) (items : List Json) :
    f.ofJson nested (.array items) = (items.mapM (f.elementOfJson nested)).map .list := by
  unfold Field.ofJson
  rw [if_pos (Field.isRepeated_iff.2 hr)]
  simp only
  cases items.mapM (f.elementOfJson nested) <;> rfl

theorem ofJson_element (hr : f.cardinality ≠ .repeated) (json : Json) :
    f.ofJson nested json = f.elementOfJson nested json := by
  unfold Field.ofJson
  rw [if_neg fun hf => hr (Field.isRepeated_iff.1 hf)]

theorem mapM_elementOfJson {items : List Value}
    (h : ∀ e ∈ items, f.elementOfJson nested (e.toJson s f.kind) = .ok (e.completed s)) :
    (items.map fun e => e.toJson s f.kind).mapM (f.elementOfJson nested) =
      .ok (items.map (·.completed s)) := by
  induction items with
  | nil => rfl
  | cons e rest ih =>
      have hrest := ih fun x hx => h x (List.mem_cons_of_mem _ hx)
      rw [List.map_cons, List.mapM_cons, h e List.mem_cons_self, hrest]
      rfl

theorem ofJson_toJson_field (hholds : f.Holds v) (plain : ∀ e ∈ v.elements, e.Plain)
    (written : ¬(v.isDefault && f.group?.isNone) = true)
    (legible : f.kind.Legible)
    (inner : ∀ k, .message k ∈ v.elements →
      nested k.type (k.toJson s) = .ok (k.completed s)) :
    f.ofJson nested (v.toJson s f.kind) = .ok (v.completed s) := by
  by_cases hr : f.cardinality = .repeated
  · obtain ⟨items, rfl, hi⟩ := hholds.items hr
    rw [Value.toJson, itemsToJson_eq, Value.completed, completedItems_eq, ofJson_array hr,
      mapM_elementOfJson fun e he => Field.elementOfJson_toJson (hi e he) (plain e he) legible
        fun k hk => inner k (hk ▸ he)]
    rfl
  · have ha := admissible_of_written hholds hr written
    have he := Value.elements_of_admissible ha
    rw [ofJson_element hr]
    refine Field.elementOfJson_toJson ha (plain v (he ▸ List.mem_singleton_self _)) legible
      fun k hk => inner k ?_
    rw [he, hk]
    exact List.mem_singleton_self _

theorem accepts_completed (hholds : f.Holds v)
    (written : ¬(v.isDefault && f.group?.isNone) = true) :
    f.accepts (v.completed s) = true ∧ f.normalized (v.completed s) = v.completed s := by
  by_cases hr : f.cardinality = .repeated
  · obtain ⟨items, hc, hi⟩ := (hholds.completed s).items hr
    rw [hc]
    exact Field.accepts_of_items hr hi
  · exact Field.accepts_of_admissible hr ((admissible_of_written hholds hr written).completed s)

theorem initial?_of_left_out (hholds : f.Holds v) (left : (v.isDefault && f.group?.isNone) = true) :
    initial? f = some (v.completed s) := by
  by_cases hr : f.cardinality = .repeated
  · obtain ⟨items, rfl, -⟩ := hholds.items hr
    obtain ⟨hempty, -⟩ := Bool.and_eq_true_iff.1 left
    rw [List.isEmpty_iff.1 hempty, initial?, hr, Value.completed, completedItems_eq]
    rfl
  · obtain ⟨hz, hinit⟩ := zero?_of_left_out hholds hr left
    rw [hinit, Kind.completed_of_zero? hz]

theorem absorb_field (h : Progress s m (f :: rest) acc) (hm : m.Conforms s)
    (legible : s.Legible m.type) (hf : f ∈ (m.messageType s).fields)
    (hne : f.number ∉ rest.map Field.number) (plain : ∀ e, m.Contains e → e.Plain)
    (inner : ∀ k, m.Contains (.message k) → nested k.type (k.toJson s) = .ok (k.completed s)) :
    ∃ acc', Progress s m rest acc' ∧
      (m.fieldMembers s f).foldlM (absorbMember s rule nested) acc = .ok acc' := by
  have check := legible.valid.check
  have hfield : (acc.messageType s).field? f.number = some f := by
    rw [h.messageType]
    exact MessageType.field?_of_mem check hf
  have hnamed : (acc.messageType s).fieldNamed? f.jsonName = some f := by
    rw [h.messageType]
    exact legible.named _ .refl f hf
  cases hv : m.get? f.number with
  | none =>
      refine ⟨acc, h.skip hm check hf hne hv, ?_⟩
      rw [fieldMembers, hv]
      rfl
  | some v =>
      have hholds := hm.holds check hf hv
      rw [fieldMembers_of_get? hv]
      split
      · next left =>
          refine ⟨acc, h.next hne rfl h.ascending ?_ fun k _ => rfl, rfl⟩
          rw [h.get?_first check hf, get?_completed s hm.ascending, hv,
            initial?_of_left_out hholds left]
          rfl
      · next written =>
          have hread := ofJson_toJson_field hholds (fun e he => plain e ⟨_, _, hv, he⟩) written
            (legible.kinds _ .refl f hf) fun k hk => inner k ⟨_, _, hv, hk⟩
          refine ⟨_, h.store hm hne hv, ?_⟩
          rw [List.foldlM_cons, absorbMember_eq rule hnamed hfield (toJson_ne_null v _) hread
            (accepts_completed hholds written) h.ascending (h.siblings hm check hf hv)]
          rfl

theorem absorb_fields (h : Progress s m rest acc) (hm : m.Conforms s) (legible : s.Legible m.type)
    (hrest : ∀ f ∈ rest, f ∈ (m.messageType s).fields)
    (distinct : rest.Pairwise fun f g => f.number ≠ g.number)
    (plain : ∀ e, m.Contains e → e.Plain)
    (inner : ∀ k, m.Contains (.message k) → nested k.type (k.toJson s) = .ok (k.completed s)) :
    (rest.flatMap (m.fieldMembers s)).foldlM (absorbMember s rule nested) acc =
      .ok (m.completed s) := by
  induction rest generalizing acc with
  | nil => exact congrArg _ h.eq_completed
  | cons f rest ih =>
      obtain ⟨acc', hp, hs⟩ := absorb_field rule h hm legible (hrest f List.mem_cons_self)
        (MessageType.notMem_of_pairwise distinct) plain inner
      rw [List.flatMap_cons, List.foldlM_append, hs]
      exact ih hp (fun g hg => hrest g (List.mem_cons_of_mem _ hg)) (List.pairwise_cons.1 distinct).2

end Reading

section Messages

variable {s : Schema} (rule : GroupRule) {m : Message}

theorem nodup_jsonName (legible : s.Legible m.type) :
    ((m.messageType s).fields.map Field.jsonName).Nodup := by
  refine List.pairwise_map.2 ?_
  refine (MessageType.pairwise_of_check legible.valid.check).imp_of_mem fun {f g} hf hg hn he => ?_
  have hfg := legible.named _ .refl f hf
  rw [he, legible.named _ .refl g hg] at hfg
  exact hn (congrArg Field.number (Option.some.inj hfg).symm)

theorem ofJsonWithin_toJson (levels : Nat) (sound : m.Sound s) (legible : s.Legible m.type)
    (depth : ∀ depth k, Nested depth m k → depth < levels)
    (plain : ∀ depth k, Nested depth m k → ∀ e, k.Contains e → e.Plain) :
    ofJsonWithin s rule levels m.type (m.toJson s) = .ok (m.completed s) := by
  induction levels generalizing m with
  | zero => exact absurd (depth 0 m .self) (Nat.not_lt_zero _)
  | succ levels ih =>
      have hm := sound.conforms
      have inner : ∀ k, m.Contains (.message k) →
          ofJsonWithin s rule levels k.type (k.toJson s) = .ok (k.completed s) := by
        intro k hk
        obtain ⟨f, hf, hkind⟩ := hm.kind_of_contains hk
        exact ih (sound.inner hk) (legible.nested hf hkind)
          (fun d x hx => Nat.lt_of_succ_lt_succ (depth _ x (.inside hk hx)))
          fun d x hx => plain _ x (.inside hk hx)
      rw [toJson_eq (nodup_jsonName legible), ofJsonWithin]
      exact absorb_fields rule (progress_zero hm) hm legible (fun f hf => hf)
        (MessageType.pairwise_of_check legible.valid.check) (plain 0 m .self) inner

theorem ofJson_toJson_built (legible : s.Legible m.type) (built : Built s m)
    (deep : ∀ depth k, Nested depth m k → depth ≤ 100)
    (plain : ∀ depth k, Nested depth m k → ∀ e, k.Contains e → e.Plain) :
    ofJson s rule m.type (m.toJson s) = .ok (m.completed s) :=
  ofJsonWithin_toJson rule 101 (built.sound legible.valid) legible
    (fun d k hk => Nat.lt_succ_of_le (deep d k hk)) plain

end Messages

section Samples

def recordSchema : Schema := ⟨[
  ⟨"test.Record", [
    .single "display_name" "displayName" 1 (.scalar .string),
    .single "tone" "tone" 4 (.enumeration ⟨"test.Tone", [("TONE_UNSPECIFIED", 0), ("WARM", 1)]⟩),
    .single "at" "at" 5 .timestamp,
    .single "gain" "gain" 6 (.scalar .double),
    .single "inner" "inner" 8 (.message "test.Record"),
    (Field.single "flag" "flag" 9 (.scalar .bool)).inGroup "choice"]⟩]⟩

def record : Message :=
  ⟨"test.Record", [(4, .enumeration (-1)), (5, .timestamp (.ofMillis 1500)),
    (6, .double 0xfff0000000000000), (8, .message (empty "test.Record")), (9, .bool false)]⟩

theorem legible_recordSchema : recordSchema.Legible "test.Record" :=
  Schema.legible_of_closed ["test.Record"] (by decide) (by decide) (by decide)

theorem built_of_set {m m' : Message} {n : Nat} {v : Value} (h : Built recordSchema m)
    (single : v.elements = [v]) (messages : ∀ k, v = .message k → Built recordSchema k)
    (instants : ∀ t, v = .timestamp t → t.InCalendar) (done : m.set recordSchema n v = .ok m') :
    Built recordSchema m' := by
  refine .set h (fun k hk => messages k ?_) (fun t ht => instants t ?_) done
  · rw [single] at hk
    exact (List.mem_singleton.1 hk).symm
  · rw [single] at ht
    exact (List.mem_singleton.1 ht).symm

theorem built_record : Built recordSchema record := by
  have tone : Built recordSchema ⟨"test.Record", [(4, .enumeration (-1))]⟩ :=
    built_of_set (n := 4) (v := .enumeration 7) (.empty "test.Record") rfl nofun nofun rfl
  have dated : Built recordSchema ⟨"test.Record", [(4, .enumeration (-1)),
      (5, .timestamp (.ofMillis 1500))]⟩ :=
    built_of_set (n := 5) (v := .timestamp (.ofMillis 1500)) tone rfl nofun
      (fun t ht => by cases ht; exact ⟨by decide, by decide⟩) rfl
  have gain : Built recordSchema ⟨"test.Record", [(4, .enumeration (-1)),
      (5, .timestamp (.ofMillis 1500)), (6, .double 0xfff0000000000000)]⟩ :=
    built_of_set (n := 6) (v := .double 0xfff0000000000000) dated rfl nofun nofun rfl
  have inner : Built recordSchema ⟨"test.Record", [(4, .enumeration (-1)),
      (5, .timestamp (.ofMillis 1500)), (6, .double 0xfff0000000000000),
      (8, .message (empty "test.Record"))]⟩ :=
    built_of_set (n := 8) (v := .message (empty "test.Record")) gain rfl
      (fun k hk => by cases hk; exact .empty _) nofun rfl
  exact built_of_set (n := 9) (v := .bool false) inner rfl nofun nofun rfl

theorem contains_record {e : Value} (h : record.Contains e) :
    e.Plain ∧ ∀ k, e = .message k → k = empty "test.Record" := by
  obtain ⟨p, hp, he⟩ := mem_of_contains h
  simp only [record, List.mem_cons, List.not_mem_nil, or_false] at hp
  rcases hp with rfl | rfl | rfl | rfl | rfl <;> cases List.mem_singleton.1 he
  · exact ⟨trivial, nofun⟩
  · exact ⟨⟨by decide, by decide⟩, nofun⟩
  · exact ⟨(rfl : FloatFormat.binary64.isNaN _ = false), nofun⟩
  · exact ⟨trivial, fun k hk => by cases hk; rfl⟩
  · exact ⟨trivial, nofun⟩

theorem nested_record {depth : Nat} {k : Message} (h : Nested depth record k) :
    depth ≤ 100 ∧ ∀ e, k.Contains e → e.Plain := by
  cases h with
  | self => exact ⟨Nat.zero_le _, fun e he => (contains_record he).1⟩
  | inside hc hk =>
      obtain rfl := (contains_record hc).2 _ rfl
      cases hk with
      | self => exact ⟨by decide, fun e he => absurd he not_contains_empty⟩
      | inside he _ => exact absurd he not_contains_empty

theorem ofJson_toJson_record :
    recordSchema.Legible "test.Record" ∧ Built recordSchema record ∧
      ofJson recordSchema .refuse "test.Record" (record.toJson recordSchema) =
        .ok (record.completed recordSchema) := by
  refine ⟨legible_recordSchema, built_record, ?_⟩
  exact ofJson_toJson_built (m := record) .refuse legible_recordSchema built_record
    (fun _ _ hk => (nested_record hk).1) fun _ _ hk => (nested_record hk).2

end Samples

end Message

end SchemaRpc
