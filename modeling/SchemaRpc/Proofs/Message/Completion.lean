import SchemaRpc.Proofs.Message.Completeness
import SchemaRpc.Proofs.Message.JsonRoundTrip

namespace SchemaRpc

namespace Message

variable {s : Schema} {m k : Message} {f : Field} {v e : Value}

theorem sizeOf_lt_of_contains (h : m.Contains (.message k)) : sizeOf k < sizeOf m := by
  obtain ⟨type, fields⟩ := m
  obtain ⟨⟨n, v⟩, hp, he⟩ := mem_of_contains h
  have hfield := List.sizeOf_lt_of_mem hp
  have helement : sizeOf (Value.message k) ≤ sizeOf v := by
    cases v with
    | list items =>
        have he : Value.message k ∈ items := he
        have := List.sizeOf_lt_of_mem he
        simp only [Value.list.sizeOf_spec]
        omega
    | _ => rw [List.mem_singleton.1 he]
  simp only [Value.message.sizeOf_spec] at helement
  simp only [Message.mk.sizeOf_spec, Prod.mk.sizeOf_spec] at hfield ⊢
  omega

theorem nesting_induction {P : Message → Prop}
    (around : ∀ m, (∀ k, m.Contains (.message k) → P k) → P m) (m : Message) : P m := by
  induction hs : sizeOf m using Nat.strongRecOn generalizing m with
  | ind size ih =>
      refine around m fun k hk => ih (sizeOf k) ?_ k rfl
      rw [← hs]
      exact sizeOf_lt_of_contains hk

theorem depth_le_sizeOf {depth : Nat} (h : Nested depth m k) : depth ≤ sizeOf m := by
  induction h with
  | self => exact Nat.zero_le _
  | inside stored _ ih => exact Nat.lt_of_le_of_lt ih (sizeOf_lt_of_contains stored)

theorem completed_of_nested_complete (valid : s.Valid m.type)
    (h : ∀ depth k, Nested depth m k → k.Complete s) : m.completed s = m := by
  have hall : m.Throughout (Complete s) (sizeOf m + 1) := fun depth k hk =>
    ⟨Nat.lt_succ_of_le (depth_le_sizeOf hk), h depth k hk⟩
  exact completed_of_complete valid hall

theorem get?_completed_cases (h : m.Conforms s) (check : (m.messageType s).check = .ok ())
    (hf : f ∈ (m.messageType s).fields) :
    (∃ v, m.get? f.number = some v ∧ (m.completed s).get? f.number = some (v.completed s)) ∨
      m.get? f.number = none ∧ (m.completed s).get? f.number = initial? f := by
  rw [get?_completed s h.ascending]
  cases m.get? f.number with
  | some v => exact .inl ⟨v, rfl, rfl⟩
  | none => exact .inr ⟨rfl, get?_zero_of_mem check hf⟩

theorem of_get?_completed (h : m.Conforms s) (check : (m.messageType s).check = .ok ()) {n : Nat}
    (hm : m.get? n = none) (hv : (m.completed s).get? n = some v) :
    ∃ f ∈ (m.messageType s).fields, f.number = n ∧
      (f.cardinality = .single ∧ f.kind.zero? = some v ∨ f.cardinality = .repeated ∧ v = .list []) := by
  rw [get?_completed s h.ascending, hm, Option.map_none, Option.none_or] at hv
  change (zero (m.messageType s)).get? n = some v at hv
  rw [get?_zero check] at hv
  obtain ⟨f, hf, hi⟩ := Option.bind_eq_some_iff.1 hv
  obtain ⟨hmem, hn⟩ := MessageType.field?_eq_some hf
  exact ⟨f, hmem, hn, initial?_eq_some hi⟩

theorem initial?_eq_none (h : f.cardinality = .single ∧ f.kind.isMessageLike = true ∨
    f.group?.isSome = true) : initial? f = none := by
  cases hi : initial? f with
  | none => rfl
  | some v =>
      have hnone := group?_eq_none_of (of_initial? hi)
      rcases h with ⟨hs, hk⟩ | hg
      · rcases of_initial? hi with hr | ⟨-, hn⟩
        · rw [hr] at hs
          cases hs
        · rw [hn] at hk
          cases hk
      · rw [hnone] at hg
        cases hg

theorem get?_completed_of_absent (h : m.Conforms s) (check : (m.messageType s).check = .ok ())
    (hf : f ∈ (m.messageType s).fields) (hm : m.get? f.number = none)
    (hi : initial? f = none) : (m.completed s).get? f.number = none := by
  rcases get?_completed_cases h check hf with ⟨v, hv, -⟩ | ⟨-, hc⟩
  · rw [hm] at hv
    cases hv
  · exact hc.trans hi

theorem Conforms.complete_completed (h : m.Conforms s) (check : (m.messageType s).check = .ok ()) :
    (m.completed s).Complete s where
  toConforms := h.completed check
  present := by
    intro f hf hi
    rw [messageType_completed] at hf
    rw [has]
    rcases get?_completed_cases h check hf with ⟨v, -, hc⟩ | ⟨-, hc⟩
    · rw [hc]
      rfl
    · rw [hc]
      exact isSome_initial? hi

theorem complete_of_nested (sound : m.Sound s) (valid : s.Valid m.type) {depth : Nat}
    (hk : Nested depth (m.completed s) k) : k.Complete s := by
  generalize hc : m.completed s = c at hk
  induction hk generalizing m with
  | self => exact hc ▸ sound.conforms.complete_completed valid.check
  | inside stored _ ih =>
      subst hc
      obtain ⟨inner, hi, he⟩ := sound.conforms.contains_message_of_completed valid stored
      exact ih (sound.inner hi) (sound.conforms.valid_inner valid hi) he.symm

theorem completed_completed (sound : m.Sound s) (valid : s.Valid m.type) :
    (m.completed s).completed s = m.completed s := by
  refine completed_of_nested_complete ?_ fun depth k hk => complete_of_nested sound valid hk
  rwa [type_completed]

end Message

namespace Value

variable {s : Schema} {v e : Value}

theorem isDefault_completed (s : Schema) (v : Value) : (v.completed s).isDefault = v.isDefault := by
  cases v with
  | list items => rw [completed, Message.completedItems_eq, isDefault, isDefault, List.isEmpty_map]
  | message m => rw [completed, isDefault, isDefault]
  | _ => rfl

theorem payload_completed
    (inner : ∀ k, e = .message k → (k.completed s).encode s = k.encode s) :
    (e.completed s).payload s = e.payload s := by
  cases e with
  | message k => rw [completed, payload, payload, inner k rfl]
  | list items => rw [completed, payload, payload]
  | _ => rfl

theorem written_completed
    (inner : ∀ k, .message k ∈ v.elements → (k.completed s).encode s = k.encode s) :
    (v.completed s).written s = v.written s := by
  cases v with
  | list items =>
      rw [completed, Message.completedItems_eq, written, written, payloads_eq, payloads_eq,
        List.map_map]
      refine congrArg Written.run (List.map_congr_left fun e he => ?_)
      exact payload_completed fun k hk => inner k (hk ▸ he)
  | message k => rw [completed, written, written, inner k (List.mem_singleton_self _)]
  | _ => rfl

theorem elementToJson_completed (he : e.elements = [e])
    (inner : ∀ k, e = .message k → (k.completed s).toJson s = k.toJson s) (kind : Kind) :
    (e.completed s).toJson s kind = e.toJson s kind := by
  cases e with
  | message k => rw [completed, toJson, toJson, inner k rfl]
  | list items => cases items <;> cases he
  | _ => rfl

theorem toJson_completed (single : ∀ e ∈ v.elements, e.elements = [e])
    (inner : ∀ k, .message k ∈ v.elements → (k.completed s).toJson s = k.toJson s) (kind : Kind) :
    (v.completed s).toJson s kind = v.toJson s kind := by
  cases v with
  | list items =>
      rw [completed, Message.completedItems_eq, toJson, toJson, Message.itemsToJson_eq,
        Message.itemsToJson_eq, List.map_map]
      refine congrArg Json.array (List.map_congr_left fun e he => ?_)
      exact elementToJson_completed (single e he) (fun k hk => inner k (hk ▸ he)) kind
  | message k => exact elementToJson_completed rfl (fun k hk => inner k (hk ▸ List.mem_singleton_self _)) kind
  | _ => rfl

end Value

namespace Message

variable {s : Schema} {m : Message} {f : Field} {v : Value}

theorem left_out_of_initial? (hi : initial? f = some v) :
    f.encode (v.written s) = [] ∧ (v.isDefault && f.group?.isNone) = true := by
  have hnone : f.group? = none := group?_eq_none_of (of_initial? hi)
  rcases initial?_eq_some hi with ⟨-, hz⟩ | ⟨hc, rfl⟩
  · have hd := Value.isDefault_of_zero? hz
    have hout : (v.isDefault && f.group?.isNone) = true := by rw [hd, hnone]; rfl
    refine ⟨?_, hout⟩
    rw [Value.written_of_elements (Kind.elements_of_zero? hz), Field.encode, if_pos hout]
  · refine ⟨?_, by rw [hnone]; rfl⟩
    rw [Value.written, payloads, Field.encode, if_pos (Field.isRepeated_iff.2 hc)]
    rfl

theorem encodeField_completed (h : m.Conforms s) (check : (m.messageType s).check = .ok ())
    (inner : ∀ k, m.Contains (.message k) → (k.completed s).encode s = k.encode s)
    (hf : f ∈ (m.messageType s).fields) : (m.completed s).encodeField s f = m.encodeField s f := by
  rw [encodeField, encodeField]
  rcases get?_completed_cases h check hf with ⟨v, hv, hc⟩ | ⟨hv, hc⟩
  · rw [hv, hc]
    simp only
    rw [Value.written_completed fun k hk => inner k ⟨_, v, hv, hk⟩]
  · rw [hv, hc]
    cases hi : initial? f with
    | none => rfl
    | some v => exact (left_out_of_initial? hi).1

theorem encode_completed (sound : m.Sound s) (valid : s.Valid m.type) :
    (m.completed s).encode s = m.encode s := by
  induction m using nesting_induction with
  | around m ih =>
      have h := sound.conforms
      rw [encode_eq, encode_eq, messageType_completed]
      exact List.flatMap_congr fun f hf => encodeField_completed h valid.check
        (fun k hk => ih k hk (sound.inner hk) (h.valid_inner valid hk)) hf

theorem toJson_eq_foldl (m : Message) :
    m.toJson s = .object ((m.messageType s).fields.foldl (withMember s m) []) := by
  obtain ⟨type, fields⟩ := m
  rw [toJson]
  rfl

theorem withMember_completed (h : m.Conforms s) (check : (m.messageType s).check = .ok ())
    (inner : ∀ k, m.Contains (.message k) → (k.completed s).toJson s = k.toJson s)
    (hf : f ∈ (m.messageType s).fields) (members : List (String × Json)) :
    withMember s (m.completed s) members f = withMember s m members f := by
  rw [withMember_of_get?, withMember_of_get?]
  rcases get?_completed_cases h check hf with ⟨v, hv, hc⟩ | ⟨hv, hc⟩
  · have hsingle : ∀ e ∈ v.elements, e.elements = [e] := by
      intro e he
      obtain ⟨g, -, ha | hz⟩ := h.admissible_of_contains ⟨_, v, hv, he⟩
      · exact Value.elements_of_admissible ha
      · exact Kind.elements_of_zero? hz
    rw [hv, hc]
    simp only [Value.isDefault_completed]
    rw [Value.toJson_completed hsingle fun k hk => inner k ⟨_, v, hv, hk⟩]
  · rw [hv, hc]
    cases hi : initial? f with
    | none => rfl
    | some v => exact if_pos (left_out_of_initial? (s := s) hi).2

theorem toJson_completed (sound : m.Sound s) (valid : s.Valid m.type) :
    (m.completed s).toJson s = m.toJson s := by
  induction m using nesting_induction with
  | around m ih =>
      have h := sound.conforms
      rw [toJson_eq_foldl, toJson_eq_foldl, messageType_completed]
      refine congrArg Json.object (List.foldl_ext _ _ _ fun members f hf => ?_)
      exact withMember_completed h valid.check
        (fun k hk => ih k hk (sound.inner hk) (h.valid_inner valid hk)) hf members

theorem completion_laws (valid : s.Valid m.type) (built : Built s m) :
    (∀ n v, m.get? n = some v → (m.completed s).get? n = some (v.completed s)) ∧
      (∀ n v, m.get? n = none → (m.completed s).get? n = some v →
        ∃ f ∈ (m.messageType s).fields, f.number = n ∧
          (f.cardinality = .single ∧ f.kind.zero? = some v ∨
            f.cardinality = .repeated ∧ v = .list [])) ∧
      (∀ f ∈ (m.messageType s).fields, m.get? f.number = none →
        f.cardinality = .single ∧ f.kind.isMessageLike = true ∨ f.group?.isSome = true →
          (m.completed s).get? f.number = none) ∧
      (∀ depth k, Nested depth (m.completed s) k → k.Complete s) ∧
      (m.completed s).completed s = m.completed s ∧
      (m.completed s).encode s = m.encode s ∧
      (m.completed s).toJson s = m.toJson s := by
  have sound := built.sound valid
  have h := sound.conforms
  refine ⟨fun n v hv => ?_, fun n v hm hv => of_get?_completed h valid.check hm hv,
    fun f hf hm hk => ?_, fun depth k hk => complete_of_nested sound valid hk,
    completed_completed sound valid, encode_completed sound valid, toJson_completed sound valid⟩
  · rw [get?_completed s h.ascending, hv]
    rfl
  · exact get?_completed_of_absent h valid.check hf hm (initial?_eq_none hk)

section Samples

open Catalog

theorem completion_laws_begun :
    (begun.completed schema).get? 4 = some (.list [.message (integerField.completed schema)]) ∧
      (begun.completed schema).get? 101 = none ∧
      (begun.completed schema).encode schema = begun.encode schema ∧
      (begun.completed schema).toJson schema = begun.toJson schema := by
  have valid : schema.Valid "catalog.Catalog" :=
    Schema.valid_of_closed (schema.types.map MessageType.name) (by decide) (by decide)
  obtain ⟨kept, -, absent, -, -, binary, json⟩ := completion_laws valid built_begun
  have updated : Field.single "updated" "updated" 101 .timestamp ∈
      (begun.messageType schema).fields := by decide
  exact ⟨kept 4 _ rfl, absent _ updated rfl (.inl ⟨rfl, rfl⟩), binary, json⟩

end Samples

end Message

end SchemaRpc
