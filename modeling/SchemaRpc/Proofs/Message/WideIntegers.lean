import SchemaRpc.Proofs.Message.JsonClashes
import SchemaRpc.Proofs.Message.JsonRoundTrip
import SchemaRpc.Proofs.Text.Numerals
import SchemaRpc.Proofs.Wire.Integer

namespace SchemaRpc

def Field.asJson (f : Field) (json : Json) : Json :=
  if f.isRepeated then .array [json] else json

def Field.asValue (f : Field) (v : Value) : Value :=
  if f.isRepeated then .list [v] else v

namespace Message

variable {s : Schema} {rule : GroupRule} {type key : String} {f : Field} {v : Value} {json : Json}
variable {p : Payload} {used : Bytes}

theorem free_zero (check : (s.find type).check = .ok ()) :
    ∀ g ∈ (zero (s.find type)).siblings s f, (zero (s.find type)).get? g.number = none := by
  intro g hg
  obtain ⟨hmem, hsome, hgroup, -⟩ := (mem_siblings s).1 hg
  rw [messageType_zero] at hmem
  obtain ⟨group, hf⟩ := Option.isSome_iff_exists.1 hsome
  rw [get?_zero_of_mem check hmem, initial?_of_group (hgroup.trans hf)]

theorem keep_zero (check : (s.find type).check = .ok ()) (hf : f ∈ (s.find type).fields) :
    (zero (s.find type)).keep s rule f v =
      .ok ((zero (s.find type)).insert f.number (f.asValue v)) := by
  have hstore := store_eq_insert (ascending_zero (s.find type)) (free_zero (f := f) check) v
  have hvalue (hr : f.cardinality ≠ .repeated) : f.asValue v = v :=
    if_neg fun h => hr (Field.isRepeated_iff.1 h)
  cases hc : f.cardinality with
  | repeated =>
      have hempty : (zero (s.find type)).get? f.number = some (.list []) := by
        rw [get?_zero_of_mem check hf, initial?, hc]
      rw [keep_repeated hc, append_eq, appended, hempty, Field.asValue,
        if_pos (Field.isRepeated_iff.2 hc)]
      rfl
  | single => rw [keep_single hc, hstore, hvalue (by simp [hc])]
  | optionalGroup group =>
      have hdisplaces : (zero (s.find type)).displaces s f = false := by
        refine List.any_eq_false.2 fun g hg => ?_
        rw [has, free_zero check g hg]
        exact Bool.false_ne_true
      rw [keep, hc]
      simp only [hdisplaces, Bool.false_eq_true, and_false, if_false, hstore,
        hvalue (by simp [hc])]

theorem assign_zero (check : (s.find type).check = .ok ()) (hf : f ∈ (s.find type).fields)
    (accepts : f.accepts v = true ∧ f.normalized v = v) :
    (zero (s.find type)).assign s rule f v = .ok ((zero (s.find type)).insert f.number v) := by
  have hset : (zero (s.find type)).set s f.number v =
      .ok ((zero (s.find type)).insert f.number v) := by
    rw [set_of_accepts (by rwa [messageType_zero]) (by rwa [messageType_zero]) accepts.1, accepts.2,
      store_eq_insert (ascending_zero _) (free_zero check)]
  unfold assign
  split
  · next group hg =>
      rw [if_neg fun h => Bool.false_ne_true ((which?_of_free (free_zero check) hg).symm.trans h.2),
        hset]
  · exact hset

theorem decode_alone (check : (s.find type).check = .ok ()) (hf : f ∈ (s.find type).fields)
    (hk : p.kind = f.wireKind) (spelled : p.Spelled used) :
    decode s rule type (f.record used) =
      (f.kind.element (decodeWithin s rule Error.nestingLimit) p).map fun v =>
        (zero (s.find type)).insert f.number (f.asValue v) := by
  obtain ⟨positive, small⟩ := MessageType.number_of_check check hf
  have hrecord : Records [⟨f.number, p⟩] (f.record used) := by
    rw [Field.record, Field.tag, ← hk]
    exact .single (spelled.reads_record positive small)
  have field : ((zero (s.find type)).messageType s).field? f.number = some f := by
    rw [messageType_zero]
    exact MessageType.field?_of_mem check hf
  rw [decode, decodeWithin, foldRecords_eq_foldlM hrecord, List.foldlM_cons,
    absorb_element field hk]
  cases f.kind.element (decodeWithin s rule Error.nestingLimit) p with
  | error e => rfl
  | ok v =>
      change Except.bind (keep s rule (zero (s.find type)) f v) _ = _
      rw [keep_zero check hf]
      rfl

theorem ofJson_asJson {nested : String → Json → Except Error Message} :
    f.ofJson nested (f.asJson json) = (f.elementOfJson nested json).map f.asValue := by
  by_cases hr : f.isRepeated = true
  · have hv (v : Value) : f.asValue v = .list [v] := if_pos hr
    rw [Field.asJson, if_pos hr, ofJson_array (Field.isRepeated_iff.1 hr), List.mapM_cons,
      List.mapM_nil, funext hv]
    cases f.elementOfJson nested json <;> rfl
  · have hv (v : Value) : f.asValue v = v := if_neg hr
    rw [Field.asJson, if_neg hr, ofJson_element fun h => hr (Field.isRepeated_iff.2 h), funext hv]
    cases f.elementOfJson nested json <;> rfl

theorem accepts_asValue (h : v.Admissible f.kind) :
    f.accepts (f.asValue v) = true ∧ f.normalized (f.asValue v) = f.asValue v := by
  by_cases hr : f.isRepeated = true
  · rw [Field.asValue, if_pos hr]
    exact Field.accepts_of_items (Field.isRepeated_iff.1 hr) fun e he => List.mem_singleton.1 he ▸ h
  · rw [Field.asValue, if_neg hr]
    exact Field.accepts_of_admissible (fun hc => hr (Field.isRepeated_iff.2 hc)) h

theorem ofJson_alone (check : (s.find type).check = .ok ()) (hf : f ∈ (s.find type).fields)
    (named : (s.find type).fieldNamed? key = some f) (hj : json ≠ .null)
    (admissible : ∀ v, f.elementOfJson (ofJsonWithin s rule Error.nestingLimit) json = .ok v →
      v.Admissible f.kind) :
    ofJson s rule type (.object [(key, f.asJson json)]) =
      (f.elementOfJson (ofJsonWithin s rule Error.nestingLimit) json).map fun v =>
        (zero (s.find type)).insert f.number (f.asValue v) := by
  have hnull : f.asJson json ≠ .null := by
    rw [Field.asJson]
    split
    · exact Json.noConfusion
    · exact hj
  have named : ((zero (s.find type)).messageType s).fieldNamed? key = some f := by
    rwa [messageType_zero]
  rw [ofJson, ofJsonWithin, List.foldlM_cons, absorbMember_of_named named hnull, ofJson_asJson]
  cases hv : f.elementOfJson (ofJsonWithin s rule Error.nestingLimit) json with
  | error e => rfl
  | ok v =>
      change Except.bind (assign s rule (zero (s.find type)) f (f.asValue v)) _ = _
      rw [assign_zero check hf (accepts_asValue (admissible v hv))]
      rfl

end Message

/-- JSON of a number: a number itself if 64 bits hold it, or text with its numeral between blanks. -/
inductive Json.Spells (n : Int) : Json → Prop
  | number (hl : -9223372036854775808 ≤ n) (hh : n < 18446744073709551616) : Spells n (.int n)
  | text {before numeral after : List Char} (hb : ∀ c ∈ before, Blank.isBlank c = true)
      (hn : Decimal.Numeral n numeral) (ha : ∀ c ∈ after, Blank.isBlank c = true) :
      Spells n (.string (String.ofList (before ++ numeral ++ after)))

namespace Field

def Safe (f : Field) (n : Int) : Prop :=
  match f.kind with
  | .scalar .int64 => -9007199254740991 ≤ n ∧ n ≤ 9007199254740991
  | .scalar .uint64 => 0 ≤ n ∧ n ≤ 9007199254740991
  | _ => False

def InWord (f : Field) (n : Int) : Prop :=
  match f.kind with
  | .scalar .int64 => -9223372036854775808 ≤ n ∧ n < 9223372036854775808
  | .scalar .uint64 => 0 ≤ n ∧ n < 18446744073709551616
  | _ => False

def wideElement (f : Field) (n : Int) : Except Error Value :=
  if f.kind = .scalar .uint64 ∧ n < 0 then .error (f.cannotHold n)
  else (SafeInt.ofInt n).map .integer

variable {f : Field} {n : Int} {json : Json}

theorem integer_of_spells (h : json.Spells n) (hl : -170141183460469231731687303715884105728 ≤ n)
    (hh : n ≤ 170141183460469231731687303715884105727) : f.integer json = .ok n := by
  cases h with
  | number => rfl
  | text hb hn ha =>
      have hclamp : SafeInt.clamp n = n := by
        rw [SafeInt.clamp]
        omega
      rw [integer, String.toList_ofList, Blank.trimChars_between hb ha hn.not_isBlank, hn.parseInt?]
      exact if_pos hclamp

theorem elementOfJson_of_spells {nested : String → Json → Except Error Message}
    (wide : f.kind = .scalar .int64 ∨ f.kind = .scalar .uint64) (h : json.Spells n)
    (hl : -170141183460469231731687303715884105728 ≤ n)
    (hh : n ≤ 170141183460469231731687303715884105727) :
    f.elementOfJson nested json = f.wideElement n := by
  have hint : f.integer json = .ok n := integer_of_spells h hl hh
  rcases wide with hk | hk
  · simp only [elementOfJson, wideElement, hk, scalarOfJson, hint]
    change Except.bind (SafeInt.ofInt n) _ = _
    cases SafeInt.ofInt n <;> rfl
  · simp only [elementOfJson, wideElement, hk, scalarOfJson, hint, true_and]
    change (if n < 0 then _ else Except.bind (SafeInt.ofInt n) _) = _
    cases SafeInt.ofInt n <;> rfl

theorem element_wire {nested : String → Bytes → Except Error Message} (h : f.InWord n) :
    f.kind.element nested (.varint (SafeInt.wire n)) = f.wideElement n := by
  unfold InWord at h
  split at h
  · next hk =>
      simp only [wideElement, hk, Kind.element, SafeInt.ofSigned, SafeInt.signed_wire h.1 h.2]
      rfl
  · next hk =>
      have hn : ((SafeInt.wire n).toNat : Int) = n := by
        rw [SafeInt.toNat_wire]
        omega
      simp only [wideElement, hk, Kind.element, SafeInt.ofUnsigned, hn, true_and]
      rw [if_neg (by omega)]
  · cases h

theorem safe_iff (wide : f.kind = .scalar .int64 ∨ f.kind = .scalar .uint64) :
    f.Safe n ↔ ¬(f.kind = .scalar .uint64 ∧ n < 0) ∧ -9007199254740991 ≤ n ∧ n ≤ 9007199254740991 := by
  rcases wide with hk | hk
  · simp [Safe, hk]
  · simp only [Safe, hk, true_and]
    omega

theorem Safe.wide (h : f.Safe n) : f.kind = .scalar .int64 ∨ f.kind = .scalar .uint64 := by
  unfold Safe at h
  split at h
  · next hk => exact .inl hk
  · next hk => exact .inr hk
  · cases h

theorem Safe.inWord (h : f.Safe n) : f.InWord n := by
  rcases h.wide with hk | hk <;> simp only [Safe, InWord, hk] at h ⊢ <;> omega

theorem wideElement_of_safe (h : f.Safe n) :
    ∃ v, v.toInt = n ∧ f.wideElement n = .ok (.integer v) := by
  obtain ⟨hnegative, hl, hh⟩ := (safe_iff h.wide).1 h
  obtain ⟨v, rfl⟩ : ∃ v : SafeInt, v.toInt = n := ⟨⟨n, hl, hh⟩, rfl⟩
  refine ⟨v, rfl, ?_⟩
  rw [wideElement, if_neg hnegative, SafeInt.ofInt_eq_ok_iff.2 rfl]
  rfl

theorem wideElement_of_not_safe (wide : f.kind = .scalar .int64 ∨ f.kind = .scalar .uint64)
    (h : ¬f.Safe n) : f.wideElement n =
      .error (if f.kind = .scalar .uint64 ∧ n < 0 then f.cannotHold n else .integerOverflow n) := by
  rw [wideElement]
  split
  · rfl
  · next hnegative =>
      have hrange : ¬(-9007199254740991 ≤ n ∧ n ≤ 9007199254740991) :=
        fun hr => h ((safe_iff wide).2 ⟨hnegative, hr⟩)
      rw [SafeInt.ofInt, SafeInt.ofInt?, dif_neg hrange]
      rfl

theorem admissible_of_wideElement {v : Value}
    (wide : f.kind = .scalar .int64 ∨ f.kind = .scalar .uint64) (h : f.wideElement n = .ok v) :
    v.Admissible f.kind := by
  by_cases hsafe : f.Safe n
  · obtain ⟨w, rfl, hw⟩ := wideElement_of_safe hsafe
    rw [hw] at h
    cases h
    rcases wide with hk | hk
    · rw [hk]
      trivial
    · rw [hk]
      exact Int.not_lt.1 fun hn => ((safe_iff (.inr hk)).1 hsafe).1 ⟨hk, hn⟩
  · rw [wideElement_of_not_safe wide hsafe] at h
    cases h

end Field

theorem Json.Spells.ne_null {n : Int} {json : Json} (h : json.Spells n) : json ≠ .null := by
  cases h <;> exact Json.noConfusion

namespace Message

variable {s : Schema} {type key : String} {f : Field} {n : Int} {json : Json}

theorem ofJson_spelled (rule : GroupRule) (check : (s.find type).check = .ok ()) (hf : f ∈ (s.find type).fields)
    (named : (s.find type).fieldNamed? key = some f)
    (wide : f.kind = .scalar .int64 ∨ f.kind = .scalar .uint64) (spells : json.Spells n)
    (hl : -170141183460469231731687303715884105728 ≤ n)
    (hh : n ≤ 170141183460469231731687303715884105727) :
    ofJson s rule type (.object [(key, f.asJson json)]) = (f.wideElement n).map fun v =>
      (zero (s.find type)).insert f.number (f.asValue v) := by
  have helement {nested} : f.elementOfJson nested json = f.wideElement n :=
    Field.elementOfJson_of_spells wide spells hl hh
  rw [ofJson_alone check hf named spells.ne_null fun v hv =>
    Field.admissible_of_wideElement wide (helement.symm.trans hv), helement]

theorem decode_wire {used : Bytes} (rule : GroupRule) (check : (s.find type).check = .ok ())
    (hf : f ∈ (s.find type).fields) (wide : f.kind = .scalar .int64 ∨ f.kind = .scalar .uint64)
    (word : f.InWord n) (spelled : Varint.Spelled 0 (SafeInt.wire n).toNat used) :
    decode s rule type (f.record used) = (f.wideElement n).map fun v =>
      (zero (s.find type)).insert f.number (f.asValue v) := by
  have hkind : Payload.kind (.varint (SafeInt.wire n)) = f.wireKind := by
    rw [Field.wireKind]
    rcases wide with hk | hk <;> rw [hk] <;> rfl
  rw [decode_alone check hf hkind (.varint spelled), Field.element_wire word]

theorem formats_agree (rule : GroupRule) (check : (s.find type).check = .ok ()) (hf : f ∈ (s.find type).fields)
    (named : (s.find type).fieldNamed? key = some f)
    (wide : f.kind = .scalar .int64 ∨ f.kind = .scalar .uint64) (spells : json.Spells n)
    (range : -170141183460469231731687303715884105728 ≤ n ∧
      n ≤ 170141183460469231731687303715884105727) :
    ((∃ m, ofJson s rule type (.object [(key, f.asJson json)]) = .ok m) ↔ f.Safe n) ∧
    (¬f.Safe n → ofJson s rule type (.object [(key, f.asJson json)]) =
      .error (if f.kind = .scalar .uint64 ∧ n < 0 then f.cannotHold n else .integerOverflow n)) ∧
    (f.InWord n →
      (∀ nested nested', f.kind.element nested (.varint (SafeInt.wire n)) =
        f.elementOfJson nested' json) ∧
      ∀ used, Varint.Spelled 0 (SafeInt.wire n).toNat used →
        decode s rule type (f.record used) =
          ofJson s rule type (.object [(key, f.asJson json)])) ∧
    (f.Safe n → ∃ v m, v.toInt = n ∧
      ofJson s rule type (.object [(key, f.asJson json)]) = .ok m ∧
      m.get? f.number = some (f.asValue (.integer v)) ∧
      decode s rule type (f.record (Varint.encode v.toWire)) = .ok m ∧
      ∃ printed, Json.parse? ((Value.integer v).toJson s f.kind).render = some printed ∧
        ofJson s rule type (.object [(key, f.asJson printed)]) = .ok m) := by
  have hjson := ofJson_spelled rule check hf named wide spells range.1 range.2
  refine ⟨⟨?_, fun hsafe => ?_⟩, fun hunsafe => ?_, fun hword => ⟨fun nested nested' => ?_,
    fun used hused => ?_⟩, fun hsafe => ?_⟩
  · rintro ⟨m, hm⟩
    by_contra hunsafe
    rw [hjson, Field.wideElement_of_not_safe wide hunsafe] at hm
    cases hm
  · obtain ⟨v, -, hv⟩ := Field.wideElement_of_safe hsafe
    rw [hjson, hv]
    exact ⟨_, rfl⟩
  · rw [hjson, Field.wideElement_of_not_safe wide hunsafe]
    rfl
  · rw [Field.element_wire hword, Field.elementOfJson_of_spells wide spells range.1 range.2]
  · rw [hjson, decode_wire rule check hf wide hword hused]
  · obtain ⟨v, rfl, hv⟩ := Field.wideElement_of_safe hsafe
    have hl := v.lower
    have hh := v.upper
    have hprint : Json.parse? ((Value.integer v).toJson s f.kind).render = some (.int v.toInt) :=
      Json.parse?_render_int (by omega) (by omega)
    have hread := ofJson_spelled rule check hf named wide
      (.number (n := v.toInt) (by omega) (by omega)) (by omega) (by omega)
    have hwire := decode_wire rule check hf wide hsafe.inWord
      (Varint.spelled_encode v.toWire)
    rw [hv] at hjson hread hwire
    exact ⟨v, _, rfl, hjson, get?_insert_self _ _ _, hwire, _, hprint, hread⟩

section Samples

def total : Field := .single "total" "total" 1 (.scalar .int64)

def marks : Field := (Field.single "marks" "marks" 2 (.scalar .uint64)).repeated

def counters : Schema := ⟨[⟨"test.Counters", [total, marks]⟩]⟩

theorem formats_agree_counters :
    Json.Spells (-7) (.string "\t-07 ") ∧
    (∃ m, ofJson counters .refuse "test.Counters" (.object [("total", .string "\t-07 ")]) = .ok m ∧
      m.integerAt 1 = ⟨-7, by decide, by decide⟩ ∧
      decode counters .refuse "test.Counters" (total.record (Varint.encode (SafeInt.wire (-7)))) =
        .ok m) ∧
    ofJson counters .refuse "test.Counters" (.object [("marks", .array [.int 9007199254740992])]) =
      .error (.integerOverflow 9007199254740992) ∧
    decode counters .refuse "test.Counters"
        (marks.record (Varint.encode (SafeInt.wire 9007199254740992))) =
      .error (.integerOverflow 9007199254740992) := by
  have check : (counters.find "test.Counters").check = .ok () := rfl
  have digits : Decimal.AreDigits ['0', '7'] := ⟨by simp, by simp⟩
  have blanks (c : Char) (h : Blank.isBlank c = true) : ∀ d ∈ [c], Blank.isBlank d = true :=
    List.forall_mem_singleton.2 h
  have spells : Json.Spells (-7) (.string "\t-07 ") :=
    .text (blanks '\t' rfl) (.minus digits) (blanks ' ' rfl)
  have number : Json.Spells 9007199254740992 (.int 9007199254740992) :=
    .number (by omega) (by omega)
  have named : (counters.find "test.Counters").fieldNamed? "total" = some total ∧
      (counters.find "test.Counters").fieldNamed? "marks" = some marks := by decide
  have safe : total.Safe (-7) := ⟨by omega, by omega⟩
  have large : ¬marks.Safe 9007199254740992 := fun h => absurd h.2 (by omega)
  have word : marks.InWord 9007199254740992 := ⟨by omega, by omega⟩
  obtain ⟨-, -, -, taken⟩ := formats_agree .refuse check (by decide) named.1 (.inl rfl) spells
    (by omega)
  obtain ⟨-, refused, same, -⟩ := formats_agree .refuse check (by decide) named.2 (.inr rfl) number
    (by omega)
  refine ⟨spells, ?_, refused large, ?_⟩
  · obtain ⟨⟨n, hl, hh⟩, m, hv, hm, hget, hdecode, -⟩ := taken safe
    obtain rfl : n = -7 := hv
    have hget : m.get? 1 = some (.integer ⟨-7, hl, hh⟩) := hget
    exact ⟨m, hm, by rw [integerAt, hget], hdecode⟩
  · exact ((same word).2 _ (Varint.spelled_encode _)).trans (refused large)

end Samples

end Message

end SchemaRpc
