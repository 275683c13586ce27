import SchemaRpc.Proofs.Message.Reading
import SchemaRpc.Proofs.Results
import SchemaRpc.Proofs.Wire.Skipping
import SchemaRpc.Typed

namespace SchemaRpc

def Error.OfData : Error → Prop
  | .truncated .. | .varintOverflow | .invalidWireKind _ | .invalidFieldNumber _ | .invalidUtf8 _
  | .malformed _ | .integerOverflow _ | .invalidJson _ | .invalidBase64 _ | .timestamp _
  | .timestampText => True
  | _ => False

def Error.IsPlain (e : Error) : Prop :=
  ∀ s, e ≠ .status s

theorem Error.OfToken.ofData {e : Error} (h : e.OfToken) : e.OfData := by
  cases e with
  | truncated | varintOverflow | invalidWireKind | invalidFieldNumber => trivial
  | _ => cases h

theorem Error.OfData.isPlain {e : Error} (h : e.OfData) : e.IsPlain := by
  rintro s rfl
  exact h

namespace Reader

theorem ofData_of_plainPayload (t : Tag) : (plainPayload t).Fails Error.OfData := by
  by_cases hs : t.kind = .startGroup
  · simp only [plainPayload, hs]
    exact .throw trivial
  by_cases he : t.kind = .endGroup
  · simp only [plainPayload, he]
    exact .throw trivial
  exact (fails_plainPayload hs he).mono fun _ => Error.OfToken.ofData

theorem ofData_of_closeGroups {nesting : List Nat} {bytes rest : Bytes} {e : Error}
    (h : closeGroups nesting bytes = .error e rest) : e.OfData := by
  fun_induction closeGroups nesting bytes with
  | case1 => cases h
  | case2 _ _ _ _ _ ht =>
      cases h
      exact (fails_tag ht).ofData
  | case3 _ _ _ _ _ _ ih => exact ih h
  | case4 =>
      cases h
      trivial
  | case5 _ _ _ _ _ _ _ hl =>
      rw [if_pos hl] at h
      cases h
      trivial
  | case6 _ _ _ _ _ _ _ hl ih =>
      rw [if_neg hl] at h
      exact ih h
  | case7 _ _ _ _ _ _ _ _ hp =>
      cases h
      exact ofData_of_plainPayload _ hp
  | case8 _ _ _ _ _ _ _ _ _ _ _ ih => exact ih h

theorem ofData_of_payload (t : Tag) : (payload t).Fails Error.OfData := by
  intro bytes e rest h
  by_cases hk : t.kind = .startGroup
  · rw [payload_of_startGroup hk] at h
    split at h
    · cases h
    · next hc =>
        cases h
        exact ofData_of_closeGroups hc
  · rw [payload_of_plain hk] at h
    exact ofData_of_plainPayload t h

theorem ofData_of_record : record.Fails Error.OfData :=
  (fails_tag.mono fun _ => Error.OfToken.ofData).bind fun t =>
    (ofData_of_payload t).bind fun _ => .pure _

end Reader

section Folding

variable {σ : Type} {s : σ} {bytes : Bytes} {e : Error} {P : Error → Prop}

theorem foldRecords_fails {step : σ → Record → Except Error σ} (hdata : ∀ e : Error, e.OfData → P e)
    (hs : ∀ s r e, step s r = .error e → P e) (h : foldRecords step s bytes = .error e) : P e := by
  fun_induction foldRecords step s bytes with
  | case1 => cases h
  | case2 _ _ _ _ _ hr =>
      cases h
      exact hdata _ (Reader.ofData_of_record hr)
  | case3 _ _ _ _ _ _ _ he =>
      cases h
      exact hs _ _ _ he
  | case4 _ _ _ _ _ _ _ _ ih => exact ih h

theorem foldRun_fails {t : Tag} {step : σ → Payload → Except Error σ}
    (hdata : ∀ e : Error, e.OfData → P e) (hs : ∀ s p e, step s p = .error e → P e)
    (h : foldRun t step s bytes = .error e) : P e := by
  fun_induction foldRun t step s bytes with
  | case1 => cases h
  | case2 _ _ _ _ _ hr =>
      cases h
      exact hdata _ (Reader.ofData_of_plainPayload t hr)
  | case3 _ _ _ _ _ _ _ he =>
      cases h
      exact hs _ _ _ he
  | case4 _ _ _ _ _ _ _ _ ih => exact ih h

end Folding

theorem ofData_of_ofInt {n : Int} {e : Error} (h : SafeInt.ofInt n = .error e) : e.OfData := by
  unfold SafeInt.ofInt at h
  split at h <;> cases h
  trivial

theorem Timestamp.ofData_of_decode {bytes : Bytes} {e : Error} (h : decode bytes = .error e) :
    e.OfData := by
  refine foldRecords_fails (fun _ => id) (fun t r e he => ?_) h
  unfold absorb at he
  split at he
  · split at he
    · cases he
    · next hs =>
        cases he
        exact ofData_of_ofInt hs
  · cases he
  · cases he

theorem Timestamp.ofData_of_toInstant {t : Timestamp} {e : Error} (h : t.toInstant = .error e) :
    e.OfData := by
  unfold toInstant at h
  split at h
  · cases h
    trivial
  · split at h
    · cases h
      trivial
    · cases h

theorem Kind.element_fails {nested : String → Bytes → Except Error Message} {kind : Kind} {p : Payload}
    {e : Error} (h : kind.element nested p = .error e) :
    e.OfData ∨ ∃ name body, kind = .message name ∧ p = .delimited body ∧
      nested name body = .error e := by
  unfold element at h
  split at h
  case h_4 => exact .inl (ofData_of_ofInt (Except.map_eq_error h))
  case h_5 => exact .inl (ofData_of_ofInt (Except.map_eq_error h))
  case h_8 =>
    split at h
    · cases h
    · cases h
      exact .inl trivial
  case h_11 name body => exact .inr ⟨name, body, rfl, rfl, Except.map_eq_error h⟩
  case h_12 body =>
    cases hd : Timestamp.decode body with
    | error e' =>
        rw [hd] at h
        cases h
        exact .inl (Timestamp.ofData_of_decode hd)
    | ok t =>
        rw [hd] at h
        exact .inl (Timestamp.ofData_of_toInstant (Except.map_eq_error h))
  case h_13 => cases h; exact .inl trivial
  all_goals cases h

theorem Kind.plain_element {nested : String → Bytes → Except Error Message}
    (hn : ∀ name body e, nested name body = .error e → e.IsPlain) {kind : Kind} {p : Payload}
    {e : Error} (h : kind.element nested p = .error e) : e.IsPlain := by
  rcases element_fails h with hd | ⟨name, body, -, -, he⟩
  · exact hd.isPlain
  · exact hn name body e he

namespace Field

variable {f : Field} {json : Json} {e : Error}

theorem ofData_of_integer (h : f.integer json = .error e) : e.OfData := by
  unfold integer at h
  split at h
  · cases h
  · split at h <;> cases h
    trivial
  · split at h
    · split at h <;> cases h
      trivial
    · cases h
      trivial
  · cases h
    trivial

theorem ofData_of_bounded {low high : Int} (h : f.bounded low high json = .error e) : e.OfData := by
  unfold bounded at h
  split at h
  · split at h <;> cases h
    trivial
  · next hi =>
      cases h
      exact ofData_of_integer hi

theorem ofData_of_double (h : f.double json = .error e) : e.OfData := by
  unfold double at h
  split at h
  case h_6 => split at h <;> cases h; trivial
  case h_7 => cases h; trivial
  all_goals cases h

theorem ofData_of_scalarOfJson {c : Scalar} (h : f.scalarOfJson c json = .error e) : e.OfData := by
  unfold scalarOfJson at h
  split at h
  case h_1 => split at h <;> cases h; trivial
  case h_4 =>
    rcases Except.bind_eq_error h with hi | ⟨n, -, h⟩
    · exact ofData_of_integer hi
    · rcases Except.bind_eq_error h with hn | ⟨i, -, h⟩
      · exact ofData_of_ofInt hn
      · cases h
  case h_5 =>
    rcases Except.bind_eq_error h with hi | ⟨n, -, h⟩
    · exact ofData_of_integer hi
    · split at h
      · cases h
        trivial
      · rcases Except.bind_eq_error h with hn | ⟨i, -, h⟩
        · exact ofData_of_ofInt hn
        · cases h
  case h_8 => split at h <;> cases h; trivial
  case h_9 =>
    split at h
    · split at h <;> cases h
      trivial
    · cases h
      trivial
  all_goals
    rcases Except.bind_eq_error h with hi | ⟨n, -, h⟩
    · first | exact ofData_of_bounded hi | exact ofData_of_double hi
    · cases h

theorem elementOfJson_fails {nested : String → Json → Except Error Message}
    (h : f.elementOfJson nested json = .error e) :
    e.OfData ∨ ∃ name, f.kind = .message name ∧ nested name json = .error e := by
  unfold elementOfJson at h
  split at h
  · exact .inl (ofData_of_scalarOfJson h)
  · split at h
    · cases h
    · rcases Except.bind_eq_error h with hb | ⟨n, -, h⟩
      · exact .inl (ofData_of_bounded hb)
      · cases h
    · rcases Except.bind_eq_error h with hb | ⟨n, -, h⟩
      · exact .inl (ofData_of_bounded hb)
      · cases h
    · cases h
      exact .inl trivial
  · next name hk => exact .inr ⟨name, hk, Except.map_eq_error h⟩
  · split at h
    · have ht := Except.map_eq_error h
      unfold Instant.ofText at ht
      split at ht <;> cases ht
      exact .inl trivial
    · cases h
      exact .inl trivial

end Field

namespace Message

variable {s : Schema} {rule : GroupRule} {e : Error}

theorem plain_keep {m : Message} {f : Field} {v : Value} (h : m.keep s rule f v = .error e) :
    e.IsPlain := by
  unfold keep at h
  split at h
  · cases h
  · cases h
  · split at h
    · cases h
      nofun
    · cases h

theorem plain_absorb {nested : String → Bytes → Except Error Message}
    (hn : ∀ name body e, nested name body = .error e → e.IsPlain) {m : Message} {r : Record}
    (h : m.absorb s rule nested r = .error e) : e.IsPlain := by
  unfold absorb at h
  split at h
  · cases h
  · split at h
    · exact plain_keep h
    · next he =>
        cases h
        exact Kind.plain_element hn he
  · refine foldRun_fails (fun _ => Error.OfData.isPlain) (fun m p e he => ?_) h
    split at he
    · cases he
    · next hp =>
        cases he
        exact Kind.plain_element hn hp

theorem plain_decodeWithin (levels : Nat) (type : String) (bytes : Bytes) (e : Error)
    (h : decodeWithin s rule levels type bytes = .error e) : e.IsPlain := by
  induction levels generalizing type bytes e with
  | zero =>
      cases h
      nofun
  | succ levels ih =>
      exact foldRecords_fails (fun _ => Error.OfData.isPlain) (fun _ _ _ => plain_absorb ih) h

end Message

theorem Typed.ofFields_of_decode {α : Type} [Typed α] {rule : GroupRule} {bytes : Bytes} {s : Status}
    (h : (decode rule bytes : Except Error α) = .error (.status s)) :
    ∃ m, (ofFields m : Except Error α) = .error (.status s) := by
  cases hm : Message.decode (schema α) rule (name α) bytes with
  | error e =>
      rw [decode, hm] at h
      cases h
      exact absurd rfl (Message.plain_decodeWithin _ _ _ _ hm s)
  | ok m =>
      rw [decode, hm] at h
      change ofMessage m = _ at h
      unfold ofMessage at h
      split at h
      · exact ⟨m, h⟩
      · cases h

end SchemaRpc
