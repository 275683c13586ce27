import SchemaRpc.Message.Binary
import SchemaRpc.Proofs.Message.Storage
import SchemaRpc.Proofs.Wire.Grammar

namespace SchemaRpc

section Invariants

variable {σ : Type} {P : σ → Prop}

theorem foldRecords_invariant {step : σ → Record → Except Error σ}
    (hstep : ∀ s r s', P s → step s r = .ok s' → P s') {s s' : σ} {bytes : Bytes} (h : P s)
    (hf : foldRecords step s bytes = .ok s') : P s' := by
  fun_induction foldRecords step s bytes with
  | case1 => cases hf; exact h
  | case2 => cases hf
  | case3 => cases hf
  | case4 s bytes _ r rest _ next hs ih => exact ih (hstep _ _ _ h hs) hf

theorem foldRun_invariant {t : Tag} {step : σ → Payload → Except Error σ}
    (hstep : ∀ s p s', P s → step s p = .ok s' → P s') {s s' : σ} {bytes : Bytes} (h : P s)
    (hf : foldRun t step s bytes = .ok s') : P s' := by
  fun_induction foldRun t step s bytes with
  | case1 => cases hf; exact h
  | case2 => cases hf
  | case3 => cases hf
  | case4 s bytes _ p rest _ next hs ih => exact ih (hstep _ _ _ h hs) hf

end Invariants

namespace MessageType

variable {t : MessageType} {r : Record} {f : Field}

theorem field?_of_meaning_element (h : t.meaning r = .element f) :
    t.field? r.number = some f ∧ r.payload.kind = f.wireKind := by
  unfold meaning at h
  split at h
  · cases h
  · next g hg =>
      split at h
      · next hk => cases h; exact ⟨hg, hk⟩
      · split at h
        · split at h <;> cases h
        · cases h

theorem field?_of_meaning_run {body : Bytes} (h : t.meaning r = .run f body) :
    t.field? r.number = some f ∧ f.isRepeated = true ∧ f.kind.isPackable = true := by
  unfold meaning at h
  split at h
  · cases h
  · next g hg =>
      split at h
      · cases h
      · split at h
        · split at h
          · next hp =>
              cases h
              exact ⟨hg, Bool.and_eq_true_iff.1 hp⟩
          · cases h
        · cases h

theorem meaning_eq_element (h : t.field? r.number = some f) (hk : r.payload.kind = f.wireKind) :
    t.meaning r = .element f := by
  rw [meaning, h]
  exact if_pos hk

end MessageType

namespace Message

variable {s : Schema} {rule : GroupRule} {nested : String → Bytes → Except Error Message}
variable {m m' : Message} {r : Record}

theorem keep_repeated {f : Field} (h : f.cardinality = .repeated) (m : Message) (v : Value) :
    m.keep s rule f v = .ok (m.append f v) := by
  rw [keep, h]

theorem keep_single {f : Field} (h : f.cardinality = .single) (m : Message) (v : Value) :
    m.keep s rule f v = .ok (m.store s f v) := by
  rw [keep, h]

theorem keep_eq_ok {f : Field} {v : Value} (h : m.keep s rule f v = .ok m') :
    f.cardinality = .repeated ∧ m' = m.append f v ∨
      f.cardinality ≠ .repeated ∧ m' = m.store s f v := by
  cases hc : f.cardinality with
  | repeated => rw [keep_repeated hc] at h; cases h; exact .inl ⟨rfl, rfl⟩
  | single => rw [keep_single hc] at h; cases h; exact .inr ⟨by simp, rfl⟩
  | optionalGroup group =>
      simp only [keep, hc] at h
      split at h
      · cases h
      · cases h
        exact .inr ⟨by simp, rfl⟩

theorem absorb_eq_ok (h : m.absorb s rule nested r = .ok m') :
    m' = m ∨
    (∃ f v, (m.messageType s).field? r.number = some f ∧
      f.kind.element nested r.payload = .ok v ∧ m.keep s rule f v = .ok m') ∨
    ∃ f body, (m.messageType s).field? r.number = some f ∧ f.isRepeated = true ∧
      foldRun f.tag
        (fun m p =>
          match f.kind.element nested p with
          | .ok v => .ok (m.append f v)
          | .error e => .error e) m body = .ok m' := by
  unfold absorb at h
  split at h
  · cases h
    exact .inl rfl
  · next f hf =>
      split at h
      · next v hv => exact .inr (.inl ⟨f, v, (MessageType.field?_of_meaning_element hf).1, hv, h⟩)
      · cases h
  · next f body hf =>
      obtain ⟨hfield, hr, -⟩ := MessageType.field?_of_meaning_run hf
      exact .inr (.inr ⟨f, body, hfield, hr, h⟩)

theorem type_of_absorb (h : m.absorb s rule nested r = .ok m') : m'.type = m.type := by
  rcases absorb_eq_ok h with rfl | ⟨f, v, -, -, hk⟩ | ⟨f, body, -, -, hr⟩
  · rfl
  · rcases keep_eq_ok hk with ⟨-, rfl⟩ | ⟨-, rfl⟩ <;> simp
  · refine foldRun_invariant (P := fun k => k.type = m.type) (fun k p k' hk hs => ?_) rfl hr
    split at hs
    · cases hs
      rwa [type_append]
    · cases hs

theorem type_of_foldlM_absorb {rs : List Record}
    (h : rs.foldlM (absorb s rule nested) m = .ok m') : m'.type = m.type := by
  induction rs generalizing m with
  | nil => cases h; rfl
  | cons r rest ih =>
      rw [List.foldlM_cons] at h
      change Except.bind _ _ = _ at h
      cases hr : m.absorb s rule nested r with
      | error e => rw [hr] at h; cases h
      | ok k =>
          rw [hr] at h
          rw [ih h, type_of_absorb hr]

theorem absorb_of_element {f : Field} (h : (m.messageType s).meaning r = .element f) :
    m.absorb s rule nested r =
      (f.kind.element nested r.payload).bind fun v => m.keep s rule f v := by
  rw [absorb, h]
  simp only
  cases f.kind.element nested r.payload <;> rfl

theorem absorb_of_run {f : Field} {body : Bytes} (h : (m.messageType s).meaning r = .run f body) :
    m.absorb s rule nested r =
      foldRun f.tag (fun m p => (f.kind.element nested p).bind fun v => .ok (m.append f v)) m body := by
  rw [absorb, h]
  simp only
  congr
  funext m p
  cases f.kind.element nested p <;> rfl

theorem absorb_element {f : Field} {p : Payload}
    (h : (m.messageType s).field? f.number = some f) (hk : p.kind = f.wireKind) :
    m.absorb s rule nested ⟨f.number, p⟩ =
      (f.kind.element nested p).bind fun v => m.keep s rule f v :=
  absorb_of_element (MessageType.meaning_eq_element h hk)

end Message

end SchemaRpc
