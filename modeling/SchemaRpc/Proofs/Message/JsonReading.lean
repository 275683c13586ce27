import SchemaRpc.Proofs.Message.Decoding
import SchemaRpc.Proofs.Results
import SchemaRpc.Proofs.Text.Years
import SchemaRpc.Services.Catalog

namespace SchemaRpc

theorem Value.elements_of_fits {v : Value} {k : Kind} (h : v.fits k = true) : v.elements = [v] := by
  cases v with
  | list items => simp [fits] at h
  | _ => rfl

theorem Value.eq_timestamp_of_normalized {v : Value} {k : Kind} {t : Instant}
    (h : v.normalized k = .timestamp t) :
    (∃ u, v = .timestamp u ∧ t = u.truncated) ∨ v = .timestamp t := by
  unfold normalized at h
  split at h
  · cases h
  · next u => cases h; exact .inl ⟨u, rfl, rfl⟩
  · exact .inr h

namespace Field

variable {f : Field} {json : Json} {v : Value} {nested : String → Json → Except Error Message}

theorem fits_of_scalarOfJson {c : Scalar} (h : f.scalarOfJson c json = .ok v) :
    v.fits (.scalar c) = true := by
  cases c with
  | bool => cases json <;> cases h; rfl
  | string => cases json <;> cases h; rfl
  | bytes =>
      cases json with
      | string text =>
          simp only [scalarOfJson] at h
          split at h
          · cases h; rfl
          · cases h
      | _ => cases h
  | uint64 =>
      obtain ⟨n, -, h⟩ := Except.bind_eq_ok h
      split at h
      · cases h
      · next hn =>
          obtain ⟨i, hi, h⟩ := Except.bind_eq_ok h
          cases h
          have := SafeInt.ofInt_eq_ok_iff.1 hi
          exact decide_eq_true (by omega)
  | int64 =>
      obtain ⟨n, -, h⟩ := Except.bind_eq_ok h
      obtain ⟨i, -, h⟩ := Except.bind_eq_ok h
      cases h
      rfl
  | _ =>
      obtain ⟨n, -, h⟩ := Except.bind_eq_ok h
      cases h
      rfl

theorem of_elementOfJson (h : f.elementOfJson nested json = .ok v) :
    v.elements = [v] ∧ (∀ t, v = .timestamp t → ∃ text, Instant.ofText text = .ok t) ∧
      ∀ m, v = .message m → ∃ name, f.kind = .message name ∧ nested name json = .ok m := by
  unfold elementOfJson at h
  split at h
  · next c _ =>
      have hv := fits_of_scalarOfJson h
      refine ⟨Value.elements_of_fits hv, ?_, ?_⟩
      · rintro t rfl
        cases c <;> cases hv
      · rintro m rfl
        cases c <;> cases hv
  · split at h
    · cases h
      exact ⟨rfl, nofun, nofun⟩
    · obtain ⟨n, -, h⟩ := Except.bind_eq_ok h
      cases h
      exact ⟨rfl, nofun, nofun⟩
    · obtain ⟨n, -, h⟩ := Except.bind_eq_ok h
      cases h
      exact ⟨rfl, nofun, nofun⟩
    · cases h
  · next name hk =>
      obtain ⟨m, hm, rfl⟩ := Except.map_eq_ok h
      refine ⟨rfl, nofun, ?_⟩
      rintro _ ⟨⟩
      exact ⟨name, hk, hm⟩
  · split at h
    · next text =>
        obtain ⟨t, ht, rfl⟩ := Except.map_eq_ok h
        refine ⟨rfl, ?_, nofun⟩
        rintro _ ⟨⟩
        exact ⟨text, ht⟩
    · cases h

theorem elements_of_ofJson (h : f.ofJson nested json = .ok v) :
    ∀ e ∈ v.elements, ∃ item, f.elementOfJson nested item = .ok e := by
  unfold ofJson at h
  split at h
  · split at h
    · obtain ⟨items, hitems, h⟩ := Except.bind_eq_ok h
      cases h
      intro e he
      obtain ⟨item, -, hitem⟩ := Except.mem_of_mapM hitems e he
      exact ⟨item, hitem⟩
    · cases h
  · intro e he
    rw [(of_elementOfJson h).1, List.mem_singleton] at he
    exact ⟨json, he ▸ h⟩

end Field

namespace Message

structure Parsed (s : Schema) (m : Message) : Prop extends m.Complete s where
  instants : ∀ t, m.Contains (.timestamp t) → t = .ofMillis t.millis ∧ t.InText

end Message

theorem Instant.inCalendar_of_inText {t : Instant} (hm : t = .ofMillis t.millis) (h : t.InText) :
    t.InCalendar := by
  have hs : t.seconds = t.millis / 1000 := congrArg Instant.seconds hm
  unfold InText at h
  unfold InCalendar
  omega

theorem Instant.truncated_of_inText {t : Instant} (hm : t = .ofMillis t.millis) (h : t.InText) :
    t.truncated = t :=
  (if_pos (Int.le_trans h.2 (by decide))).trans hm.symm

namespace Message

variable {s : Schema} {rule : GroupRule} {nested : String → Json → Except Error Message}
variable {m m' : Message} {f : Field} {v : Value} {levels : Nat} {type : String}

theorem absorbMember_eq_ok {p : String × Json} (h : absorbMember s rule nested m p = .ok m') :
    m' = m ∨ ∃ f v, (m.messageType s).fieldNamed? p.1 = some f ∧ f.ofJson nested p.2 = .ok v ∧
      m.set s f.number v = .ok m' := by
  obtain ⟨key, json⟩ := p
  unfold absorbMember at h
  cases hf : (m.messageType s).fieldNamed? key with
  | none => rw [hf] at h; cases h; exact .inl rfl
  | some f =>
      cases json with
      | null => rw [hf] at h; cases h; exact .inl rfl
      | _ =>
          simp only [hf] at h
          split at h
          · cases h
          · next v hv =>
              refine .inr ⟨f, v, rfl, hv, ?_⟩
              split at h
              · split at h
                · cases h
                · exact h
              · exact h

def ParsesWell (s : Schema) (levels : Nat) (nested : String → Json → Except Error Message) : Prop :=
  ∀ name json m, s.Valid name → nested name json = .ok m →
    m.type = name ∧ m.Throughout (Parsed s) levels

theorem Parsed.absorbMember {p : String × Json} (h : m.Throughout (Parsed s) (levels + 1))
    (valid : s.Valid m.type) (well : ParsesWell s levels nested)
    (ha : absorbMember s rule nested m p = .ok m') :
    m'.type = m.type ∧ m'.Throughout (Parsed s) (levels + 1) := by
  rcases absorbMember_eq_ok ha with rfl | ⟨f, v, hf, hv, hset⟩
  · exact ⟨rfl, h⟩
  · obtain ⟨g, hg, haccepts, rfl⟩ := set_eq_ok hset
    have hm := (throughout_succ_iff.1 h).1
    have hinstants : ∀ t, .timestamp t ∈ v.elements → t = .ofMillis t.millis ∧ t.InText := by
      intro t ht
      obtain ⟨item, hitem⟩ := Field.elements_of_ofJson hv _ ht
      obtain ⟨text, htext⟩ := (Field.of_elementOfJson hitem).2.1 t rfl
      exact Instant.inText_of_ofText htext
    have hmessages : ∀ k, .message k ∈ v.elements → k.Throughout (Parsed s) levels := by
      intro k hk
      obtain ⟨item, hitem⟩ := Field.elements_of_ofJson hv _ hk
      obtain ⟨name, hkind, hread⟩ := (Field.of_elementOfJson hitem).2.2 k rfl
      have hmem := MessageType.fieldNamed?_eq_some hf
      exact (well name item k (valid.nested hmem hkind) hread).2
    have hholds : g.Holds (g.normalized v) := Field.holds_of_accepts haccepts fun t ht =>
      Instant.inCalendar_of_inText (hinstants t ht).1 (hinstants t ht).2
    refine ⟨type_store .., h.store hm.ascending
      ⟨hm.toComplete.store valid.check hg hholds, fun t ht => ?_⟩
      fun k hk => hmessages k (Field.mem_elements_of_normalized hk)⟩
    rcases contains_of_store hm.ascending ht with hold | hnew
    · exact hm.instants t hold
    · obtain ⟨x, hx, rfl | hn⟩ := Field.exists_of_mem_normalized hnew
      · exact hinstants t hx
      · rcases Value.eq_timestamp_of_normalized hn.symm with ⟨u, rfl, rfl⟩ | rfl
        · have hu := hinstants u hx
          rwa [Instant.truncated_of_inText hu.1 hu.2]
        · exact hinstants t hx

theorem parsesWell_ofJsonWithin (s : Schema) (rule : GroupRule) (levels : Nat) :
    ParsesWell s levels (ofJsonWithin s rule levels) := by
  induction levels with
  | zero =>
      intro name json m _ h
      cases h
  | succ levels ih =>
      intro name json m valid h
      cases json with
      | object members =>
          have hzero : (zero (s.find name)).type = name := by rw [type_zero, Schema.name_find]
          have hnone : ∀ t, ¬(zero (s.find name)).Contains (.timestamp t) := by
            intro t ht
            obtain ⟨kind, hz⟩ := contains_of_zero valid.check ht
            exact absurd hz (Kind.zero?_ne_timestamp t)
          refine Except.foldlM_invariant
            (P := fun k => k.type = name ∧ k.Throughout (Parsed s) (levels + 1)) ?_
            ⟨hzero, throughout_zero valid.check ⟨.zero valid.check, fun t ht => absurd ht (hnone t)⟩⟩ h
          rintro k p k' ⟨rfl, hk⟩ ha
          exact Parsed.absorbMember hk valid ih ha
      | _ => cases h

theorem decode_encode_ofJson (rule : GroupRule) (valid : s.Valid type) :
    (∀ json m, ofJson s rule type json = .ok m →
      m.Throughout (Parsed s) 101 ∧ ((m.encode s).length < 18446744073709551616 →
        ∀ again : GroupRule,
          ((∀ depth k t, Nested depth m k → k.Contains (.timestamp t) → t.InRange) →
            decode s again type (m.encode s) = .ok m) ∧
          ((∃ depth k t, Nested depth m k ∧ k.Contains (.timestamp t) ∧ ¬t.InRange) →
            ∃ e, decode s again type (m.encode s) = .error e))) ∧
    ∀ text t, Instant.ofText text = .ok t → t = .ofMillis t.millis ∧ t.InText ∧
      (t.InRange →
        (Timestamp.ofInstant t).toInstant = .ok t ∧ Instant.ofText t.text = .ok t) ∧
      (¬t.InRange → ∃ e, (Timestamp.ofInstant t).toInstant = .error e) := by
  constructor
  · intro json m h
    obtain ⟨rfl, hm⟩ := parsesWell_ofJsonWithin s rule 101 type json m valid h
    refine ⟨hm, fun short again => ?_⟩
    have sound : m.Sound s := fun d k hk => (hm d k hk).2.toConforms
    have same : m.completed s = m := completed_of_complete valid (hm.imp fun k hk => hk.toComplete)
    have hs := settles_decodeWithin again 101 sound valid short
    rw [same] at hs
    constructor
    · intro range
      exact hs.ok ⟨fun d k hk => (hm d k hk).1, fun d k hk t ht => range d k t hk ht⟩
    · rintro ⟨d, k, t, hk, ht, hr⟩
      obtain ⟨e, he, -⟩ := hs.refused fun readable => hr (readable.instants d k hk t ht)
      exact ⟨e, he⟩
  · intro text t h
    obtain ⟨hmillis, hbounds⟩ := Instant.inText_of_ofText h
    refine ⟨hmillis, hbounds, fun range => ?_, fun range => ?_⟩
    · rw [Timestamp.toInstant_ofInstant, if_pos range, ← hmillis]
      exact ⟨rfl, Instant.ofText_text (Instant.truncated_of_inText hmillis hbounds) range⟩
    · rw [Timestamp.toInstant_ofInstant, if_neg range]
      exact ⟨_, rfl⟩

section Samples

open Catalog

def createdAt (text : String) : Json :=
  .object [("created", .string text)]

def createdIn (millis : Int) : Message :=
  ⟨"catalog.Catalog", [(1, .string ""), (2, .string ""), (3, .string ""), (4, .list []),
    (100, .timestamp (.ofMillis millis)), (102, .integer .zero)]⟩

theorem contains_createdIn {millis : Int} {e : Value} (h : (createdIn millis).Contains e) :
    (∀ k, e ≠ .message k) ∧ ∀ t, e = .timestamp t → t = .ofMillis millis := by
  obtain ⟨p, hp, he⟩ := mem_of_contains h
  simp only [createdIn, List.mem_cons, List.not_mem_nil, or_false] at hp
  rcases hp with rfl | rfl | rfl | rfl | rfl | rfl <;> simp [Value.elements] at he <;> simp [he]

theorem instant_createdIn {millis : Int} {depth : Nat} {k : Message} {t : Instant}
    (hk : Nested depth (createdIn millis) k) (ht : k.Contains (.timestamp t)) :
    t = .ofMillis millis := by
  cases hk with
  | self => exact (contains_createdIn ht).2 t rfl
  | inside hc _ => exact absurd rfl ((contains_createdIn hc).1 _)

theorem valid_catalog : schema.Valid "catalog.Catalog" :=
  Schema.valid_of_closed (schema.types.map MessageType.name) (by decide) (by decide)

theorem decode_encode_leapSecond :
    ofJson schema .replace "catalog.Catalog" (createdAt "2024-12-31T23:59:60.5+02:00") =
        .ok (createdIn 1735682400500) ∧
      decode schema .refuse "catalog.Catalog" ((createdIn 1735682400500).encode schema) =
        .ok (createdIn 1735682400500) ∧
      ∃ e, (Timestamp.ofInstant (.ofMillis (-62167219200000))).toInstant = .error e := by
  have h : ofJson schema .replace "catalog.Catalog" (createdAt "2024-12-31T23:59:60.5+02:00") =
      .ok (createdIn 1735682400500) := by cbv
  have hold : Instant.ofText "0000-01-01T00:00:00Z" = .ok (.ofMillis (-62167219200000)) := by cbv
  refine ⟨h, ?_, ?_⟩
  · refine (((decode_encode_ofJson .replace valid_catalog).1 _ _ h).2 (by cbv) .refuse).1 ?_
    intro depth k t hk ht
    rw [instant_createdIn hk ht]
    decide
  · exact ((decode_encode_ofJson (s := schema) .replace valid_catalog).2 _ _ hold).2.2.2 (by decide)

theorem yearZero_accepted :
    ofJson schema .replace "catalog.Catalog" (createdAt "0000-01-01T00:00:00Z") =
        .ok (createdIn (-62167219200000)) ∧
      decode schema .replace "catalog.Catalog" ((createdIn (-62167219200000)).encode schema) =
        .error (.timestamp "-62167219200 seconds is out of range") := by
  constructor
  · cbv
  · cbv

end Samples

end Message

end SchemaRpc
