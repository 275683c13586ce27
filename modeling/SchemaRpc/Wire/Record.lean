import SchemaRpc.Wire.Reader

namespace SchemaRpc

inductive Payload where
  | varint (v : UInt64)
  | fixed64 (v : UInt64)
  | delimited (bytes : Bytes)
  | group
  | fixed32 (v : UInt32)
deriving DecidableEq, Repr

def Payload.kind : Payload → WireKind
  | .varint _ => .varint
  | .fixed64 _ => .fixed64
  | .delimited _ => .delimited
  | .group => .startGroup
  | .fixed32 _ => .fixed32

structure Record where
  number : Nat
  payload : Payload
deriving DecidableEq, Repr

namespace Reader

def groupLimit : Nat := 64

def groupTooDeep : Error := .malformed "group nesting too deep"

def groupMismatch (found start : Nat) : Error :=
  .malformed s!"end group {found} does not match start group {start}"

def strayGroupEnd (number : Nat) : Error :=
  .malformed s!"unexpected end group for field {number}"

def plainPayload (t : Tag) : Reader Payload :=
  match t.kind with
  | .varint => do return .varint (← varint)
  | .fixed64 => do return .fixed64 (← fixed64)
  | .delimited => do return .delimited (← delimited)
  | .fixed32 => do return .fixed32 (← fixed32)
  | .startGroup => throw groupTooDeep
  | .endGroup => throw (strayGroupEnd t.number)

theorem length_lt_of_plainPayload {t : Tag} {p : Payload} {bytes rest : Bytes}
    (h : plainPayload t bytes = .ok p rest) : rest.length < bytes.length := by
  cases hk : t.kind with
  | varint =>
      simp only [plainPayload, hk] at h
      obtain ⟨v, middle, hv, hp⟩ := bind_eq_ok h
      cases hp
      exact length_lt_of_varint hv
  | fixed64 =>
      simp only [plainPayload, hk] at h
      obtain ⟨v, middle, hv, hp⟩ := bind_eq_ok h
      cases hp
      exact length_lt_of_fixed64 hv
  | delimited =>
      simp only [plainPayload, hk] at h
      obtain ⟨v, middle, hv, hp⟩ := bind_eq_ok h
      cases hp
      have := length_lt_of_delimited hv
      omega
  | fixed32 =>
      simp only [plainPayload, hk] at h
      obtain ⟨v, middle, hv, hp⟩ := bind_eq_ok h
      cases hp
      exact length_lt_of_fixed32 hv
  | startGroup => simp only [plainPayload, hk] at h; cases h
  | endGroup => simp only [plainPayload, hk] at h; cases h

/-- Reads on until every group of `nesting`, the innermost first, has been closed by its own
number. -/
def closeGroups (nesting : List Nat) (bytes : Bytes) : EStateM.Result Error Bytes Unit :=
  match nesting with
  | [] => .ok () bytes
  | number :: outer =>
    match _ht : tag bytes with
    | .error e rest => .error e rest
    | .ok t rest =>
      match t.kind with
      | .endGroup =>
        if t.number = number then closeGroups outer rest
        else .error (groupMismatch t.number number) rest
      | .startGroup =>
        if groupLimit ≤ nesting.length then .error groupTooDeep rest
        else closeGroups (t.number :: nesting) rest
      | _ =>
        match _hp : plainPayload t rest with
        | .error e left => .error e left
        | .ok _ left => closeGroups nesting left
termination_by bytes.length
decreasing_by
  · exact length_lt_of_tag _ht
  · exact length_lt_of_tag _ht
  · exact Nat.lt_trans (length_lt_of_plainPayload _hp) (length_lt_of_tag _ht)

theorem length_le_of_closeGroups {nesting : List Nat} {bytes rest : Bytes}
    (h : closeGroups nesting bytes = .ok () rest) : rest.length ≤ bytes.length := by
  fun_induction closeGroups nesting bytes with
  | case1 => cases h; exact Nat.le_refl _
  | case2 => cases h
  | case3 _ _ _ _ ht _ ih => have := ih h; have := length_lt_of_tag ht; omega
  | case4 => cases h
  | case5 _ _ _ _ _ _ _ hl => rw [if_pos hl] at h; cases h
  | case6 _ _ _ _ _ ht _ hl ih =>
      rw [if_neg hl] at h
      have := ih h
      have := length_lt_of_tag ht
      omega
  | case7 => cases h
  | case8 _ _ _ _ _ ht _ _ hp _ _ ih =>
      have := ih h
      have := length_lt_of_tag ht
      have := length_lt_of_plainPayload hp
      omega

def payload (t : Tag) : Reader Payload :=
  match t.kind with
  | .startGroup => fun bytes =>
    match closeGroups [t.number] bytes with
    | .ok () rest => .ok .group rest
    | .error e rest => .error e rest
  | _ => plainPayload t

def skip (t : Tag) : Reader Unit := do
  let _ ← payload t

def record : Reader Record := do
  let t ← tag
  return ⟨t.number, ← payload t⟩

theorem payload_of_startGroup {t : Tag} (hk : t.kind = .startGroup) (bytes : Bytes) :
    payload t bytes =
      match closeGroups [t.number] bytes with
      | .ok () rest => .ok .group rest
      | .error e rest => .error e rest := by
  simp only [payload, hk]

theorem payload_of_plain {t : Tag} (hk : t.kind ≠ .startGroup) (bytes : Bytes) :
    payload t bytes = plainPayload t bytes := by
  cases h : t.kind <;> simp_all only [payload, ne_eq, not_true_eq_false]

theorem length_le_of_payload {t : Tag} {p : Payload} {bytes rest : Bytes}
    (h : payload t bytes = .ok p rest) : rest.length ≤ bytes.length := by
  by_cases hk : t.kind = .startGroup
  · rw [payload_of_startGroup hk] at h
    split at h
    · next hc =>
        cases h
        exact length_le_of_closeGroups hc
    · cases h
  · rw [payload_of_plain hk] at h
    exact Nat.le_of_lt (length_lt_of_plainPayload h)

theorem record_eq_ok {r : Record} {bytes rest : Bytes} (h : record bytes = .ok r rest) :
    ∃ t middle, tag bytes = .ok t middle ∧ payload t middle = .ok r.payload rest ∧
      t.number = r.number := by
  obtain ⟨t, middle, ht, h⟩ := bind_eq_ok h
  obtain ⟨p, left, hp, h⟩ := bind_eq_ok h
  cases h
  exact ⟨t, middle, ht, hp, rfl⟩

theorem length_lt_of_record {r : Record} {bytes rest : Bytes} (h : record bytes = .ok r rest) :
    rest.length < bytes.length := by
  obtain ⟨t, middle, ht, hp, -⟩ := record_eq_ok h
  exact Nat.lt_of_le_of_lt (length_le_of_payload hp) (length_lt_of_tag ht)

end Reader

def foldRecords {σ : Type} (step : σ → Record → Except Error σ) (s : σ) (bytes : Bytes) :
    Except Error σ :=
  if bytes.isEmpty then .ok s
  else
    match _h : Reader.record bytes with
    | .error e _ => .error e
    | .ok r rest =>
      match step s r with
      | .error e => .error e
      | .ok s => foldRecords step s rest
termination_by bytes.length
decreasing_by exact Reader.length_lt_of_record _h

def foldRun {σ : Type} (t : Tag) (step : σ → Payload → Except Error σ) (s : σ) (bytes : Bytes) :
    Except Error σ :=
  if bytes.isEmpty then .ok s
  else
    match _h : Reader.plainPayload t bytes with
    | .error e _ => .error e
    | .ok p rest =>
      match step s p with
      | .error e => .error e
      | .ok s => foldRun t step s rest
termination_by bytes.length
decreasing_by exact Reader.length_lt_of_plainPayload _h

@[simp] theorem foldRecords_nil {σ : Type} (step : σ → Record → Except Error σ) (s : σ) :
    foldRecords step s [] = .ok s := by
  rw [foldRecords]
  rfl

end SchemaRpc
