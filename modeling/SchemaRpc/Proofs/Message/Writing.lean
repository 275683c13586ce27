import SchemaRpc.Proofs.Message.Conformance

namespace SchemaRpc

variable {s : Schema}

namespace Value

def asPayload (s : Schema) : Value → Payload
  | .bool b => .varint (.ofNat b.toNat)
  | .int32 n => .varint (SafeInt.wire n.toInt)
  | .uint32 n => .varint (.ofNat n.toNat)
  | .integer n => .varint n.toWire
  | .float bits => .fixed32 bits
  | .double bits => .fixed64 bits
  | .string text => .delimited (Utf8.encode text)
  | .bytes data => .delimited data
  | .enumeration n => .varint (SafeInt.wire n.toInt)
  | .timestamp t => .delimited (Timestamp.ofInstant t).encode
  | .message m => .delimited (m.encode s)
  | .list _ => .group

variable {v : Value} {k : Kind}

theorem kind_asPayload (h : v.Admissible k) : (v.asPayload s).kind = k.wireKind := by
  unfold Admissible at h
  split at h <;> first | rfl | cases h

def Short (s : Schema) (v : Value) : Prop :=
  ∀ body, v.asPayload s = .delimited body → body.length < 18446744073709551616

theorem payload_of_asPayload {body : Bytes} (h : v.asPayload s = .delimited body) :
    v.payload s = body.withLength := by
  cases v with
  | string text | bytes data | timestamp t | message m =>
      cases h
      rw [payload]
  | _ => cases h

theorem length_le_withLength (body : Bytes) : body.length ≤ body.withLength.length := by
  rw [Bytes.withLength, List.length_append]
  omega

theorem spelled_ofNat {n : Nat} (h : n < 18446744073709551616) :
    Payload.Spelled (.varint (.ofNat n)) (Varint.encodeNat n) := by
  have hn : (UInt64.ofNat n).toNat = n := UInt64.toNat_ofNat_of_lt' h
  refine .varint ?_
  rw [hn]
  exact Varint.spelled_encodeNat_of_lt h

theorem spelled_payload (h : v.Admissible k) (short : v.Short s) :
    (v.asPayload s).Spelled (v.payload s) := by
  have delimited : ∀ body, v.asPayload s = .delimited body →
      Payload.Spelled (.delimited body) (v.payload s) := fun body hb => by
    rw [payload_of_asPayload hb]
    exact Payload.spelled_withLength (short body hb)
  cases v with
  | bool b =>
      rw [payload]
      refine spelled_ofNat ?_
      cases b <;> decide
  | int32 n => rw [payload]; exact .varint (Varint.spelled_encode _)
  | uint32 n => rw [payload]; exact spelled_ofNat (Nat.lt_trans n.toNat_lt (by decide))
  | integer n => rw [payload]; exact .varint (Varint.spelled_encode _)
  | float bits => rw [payload]; exact .fixed32 bits
  | double bits => rw [payload]; exact .fixed64 bits
  | enumeration n => rw [payload]; exact .varint (Varint.spelled_encode _)
  | string text | bytes data | timestamp t | message m => exact delimited _ rfl
  | list items => cases h

theorem written_of_elements (h : v.elements = [v]) :
    v.written s = .one v.isDefault (v.payload s) := by
  cases v with
  | list items => cases items <;> cases h
  | message m => rw [written, isDefault, payload]
  | _ => rw [written] <;> simp

theorem payloads_eq (items : List Value) : payloads s items = items.map (·.payload s) := by
  induction items with
  | nil => rw [payloads, List.map_nil]
  | cons v rest ih => rw [payloads, ih, List.map_cons]

theorem isDefault_of_zero? (h : k.zero? = some v) : v.isDefault = true := by
  cases k with
  | scalar c => cases c <;> cases h <;> rfl
  | enumeration e => cases h; rfl
  | _ => cases h

theorem zero?_of_isDefault (h : v.Admissible k) (hd : v.isDefault = true) : k.zero? = some v := by
  unfold Admissible at h
  split at h
  case h_1 b => cases b with
    | false => rfl
    | true => cases hd
  case h_4 n | h_5 n =>
    obtain ⟨n, hl, hh⟩ := n
    cases (eq_of_beq hd : n = 0)
    rfl
  case h_8 text =>
    have ht : text = "" := String.isEmpty_iff.1 hd
    rw [ht]
    rfl
  case h_9 data => cases List.isEmpty_iff.1 hd; rfl
  case h_11 | h_12 => cases hd
  case h_13 => cases h
  all_goals
    rw [eq_of_beq hd]
    rfl

theorem body_of_isDefault {body : Bytes} (hd : v.isDefault = true)
    (h : v.asPayload s = .delimited body) : body = [] := by
  cases v with
  | string text =>
      cases h
      rw [String.isEmpty_iff.1 hd]
      rfl
  | bytes data =>
      cases h
      exact List.isEmpty_iff.1 hd
  | timestamp t | message m => cases hd
  | _ => cases h

end Value

namespace Message

theorem get?_writtenFields (fields : List (Nat × Value)) (n : Nat) :
    Assoc.get? n (writtenFields s fields) = (Assoc.get? n fields).map (·.written s) := by
  induction fields with
  | nil => rw [writtenFields]; rfl
  | cons p rest ih =>
      rw [writtenFields, Assoc.get?, Assoc.get?, ih]
      split <;> rfl

def encodeField (s : Schema) (m : Message) (f : Field) : Bytes :=
  match m.get? f.number with
  | some v => f.encode (v.written s)
  | none => []

theorem encode_eq (m : Message) :
    m.encode s = (m.messageType s).fields.flatMap (m.encodeField s) := by
  obtain ⟨type, fields⟩ := m
  rw [encode, MessageType.encode]
  refine congrArg (List.flatMap · _) (funext fun f => ?_)
  rw [get?_writtenFields, encodeField, get?]
  cases Assoc.get? f.number fields <;> rfl

end Message

def Field.records (s : Schema) (f : Field) (v : Value) : List Record :=
  if f.isRepeated then v.elements.map fun e => ⟨f.number, e.asPayload s⟩
  else if v.isDefault && f.group?.isNone then []
  else [⟨f.number, v.asPayload s⟩]

namespace Message

def fieldRecords (s : Schema) (m : Message) (f : Field) : List Record :=
  match m.get? f.number with
  | some v => f.records s v
  | none => []

theorem fieldRecords_of_get? {m : Message} {f : Field} {v : Value}
    (h : m.get? f.number = some v) : m.fieldRecords s f = f.records s v := by
  rw [fieldRecords, h]

end Message

section Spelling

variable {f : Field} {v : Value}

theorem Field.Holds.elements (h : f.Holds v) (hr : f.cardinality ≠ .repeated) :
    v.elements = [v] := by
  rcases h.element hr with ha | ⟨-, hz⟩
  · exact Value.elements_of_admissible ha
  · exact Kind.elements_of_zero? hz

theorem Field.records_record (positive : 0 < f.number) (small : f.number ≤ Tag.maxNumber)
    (h : v.Admissible f.kind) (short : v.Short s) :
    Reader.record.Reads ⟨f.number, v.asPayload s⟩ (f.record (v.payload s)) := by
  have := (Value.spelled_payload h short).reads_record positive small
  rwa [Value.kind_asPayload h] at this

theorem Field.records_encode (positive : 0 < f.number) (small : f.number ≤ Tag.maxNumber)
    (h : f.Holds v) (short : ∀ e ∈ v.elements, e.Short s) :
    Records (f.records s v) (f.encode (v.written s)) := by
  by_cases hr : f.cardinality = .repeated
  · obtain ⟨items, rfl, hi⟩ := h.items hr
    have hrep := Field.isRepeated_iff.2 hr
    rw [Value.written, Value.payloads_eq, Field.encode, if_pos hrep, Field.records, if_pos hrep,
      Value.elements]
    clear h
    induction items with
    | nil => exact .nil
    | cons e rest ih =>
        rw [List.map_cons, List.map_cons, List.flatMap_cons]
        exact .cons
          (Field.records_record positive small (hi e List.mem_cons_self)
            (short e List.mem_cons_self))
          (ih (fun x hx => hi x (List.mem_cons_of_mem _ hx))
            fun x hx => short x (List.mem_cons_of_mem _ hx))
  · have hrep : ¬f.isRepeated = true := fun hf => hr (Field.isRepeated_iff.1 hf)
    rw [h.elements hr, List.forall_mem_singleton] at short
    rw [Field.records, if_neg hrep, Value.written_of_elements (h.elements hr), Field.encode]
    split
    · exact .nil
    · next hd =>
        rcases h.element hr with ha | ⟨hs, hz⟩
        · exact .single (Field.records_record positive small ha short)
        · have hg : f.group? = none := by rw [Field.group?, hs]
          rw [Value.isDefault_of_zero? hz, hg] at hd
          exact absurd rfl hd

end Spelling

namespace Message

variable {m : Message} {f : Field}

theorem length_encodeField_le (hf : f ∈ (m.messageType s).fields) :
    (m.encodeField s f).length ≤ (m.encode s).length := by
  rw [encode_eq, List.flatMap_def]
  exact (List.sublist_flatten_of_mem (List.mem_map_of_mem hf)).length_le

theorem records_encode_of_short (h : m.Conforms s) (check : (m.messageType s).check = .ok ())
    (short : ∀ e, m.Contains e → e.Short s) :
    Records ((m.messageType s).fields.flatMap (m.fieldRecords s)) (m.encode s) := by
  rw [encode_eq]
  refine Records.flatMap fun f hf => ?_
  rw [encodeField]
  cases hv : m.get? f.number with
  | none =>
      rw [fieldRecords, hv]
      exact .nil
  | some v =>
      rw [fieldRecords_of_get? hv]
      obtain ⟨positive, small⟩ := MessageType.number_of_check check hf
      exact Field.records_encode positive small (h.holds check hf hv) fun e he =>
        short e ⟨_, v, hv, he⟩

theorem length_body_le (h : m.Conforms s) {e : Value} (hc : m.Contains e) {body : Bytes}
    (hb : e.asPayload s = .delimited body) : body.length ≤ (m.encode s).length := by
  obtain ⟨n, v, hv, he⟩ := hc
  obtain ⟨f, hf, rfl, hholds⟩ := h.declared n v hv
  refine Nat.le_trans ?_ (length_encodeField_le hf)
  have hp : body.length ≤ (f.record (e.payload s)).length := by
    rw [Field.record, Value.payload_of_asPayload hb, List.length_append]
    have := Value.length_le_withLength body
    omega
  rw [encodeField, hv]
  by_cases hr : f.cardinality = .repeated
  · obtain ⟨items, rfl, -⟩ := hholds.items hr
    refine Nat.le_trans hp ?_
    simp only [Value.written]
    rw [Value.payloads_eq, Field.encode, if_pos (Field.isRepeated_iff.2 hr), List.flatMap_def,
      List.map_map]
    have := List.mem_map_of_mem (f := f.record ∘ (·.payload s)) he
    exact (List.sublist_flatten_of_mem this).length_le
  · have helements := hholds.elements hr
    rw [helements, List.mem_singleton] at he
    subst he
    simp only [Value.written_of_elements helements, Field.encode]
    split
    · next hd =>
        have hnil := Value.body_of_isDefault (Bool.and_eq_true_iff.1 hd).1 hb
        exact Nat.le_trans (Nat.le_of_eq (congrArg List.length hnil)) (Nat.zero_le _)
    · exact hp

theorem length_encode_inner (h : m.Conforms s) {k : Message} (hc : m.Contains (.message k)) :
    (k.encode s).length ≤ (m.encode s).length :=
  length_body_le h hc rfl

end Message

end SchemaRpc
