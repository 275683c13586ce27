import SchemaRpc.Proofs.Message.Conflicts

namespace SchemaRpc

def MessageType.given (t : MessageType) (nested : String → Bytes → Except Error Message) (r : Record) :
    Option (Field × Value) :=
  match t.meaning r with
  | .element f =>
    match f.kind.element nested r.payload with
    | .ok v => some (f, v)
    | .error _ => none
  | _ => none

/-- In bytes that are read as a message of the type, rivals are given, before any other error: by the
records of a beginning that can be read, or within a message in the record behind such a beginning. -/
inductive Clashes (s : Schema) : Nat → String → Bytes → Prop
  | here {levels : Nat} {type : String} {rs : List Record} {start rest : Bytes} {m : Message}
      (records : Records rs start)
      (read : Message.decodeWithin s .replace (levels + 1) type start = .ok m)
      (rivals : Rivals
        (rs.filterMap ((s.find type).given (Message.decodeWithin s .replace levels)))) :
      Clashes s (levels + 1) type (start ++ rest)
  | inside {levels : Nat} {type name : String} {start used body rest : Bytes} {m : Message}
      {r : Record} {f : Field}
      (read : Message.decodeWithin s .replace (levels + 1) type start = .ok m)
      (next : Reader.record.Reads r used) (element : (s.find type).meaning r = .element f)
      (kind : f.kind = .message name) (payload : r.payload = .delimited body)
      (clash : Clashes s levels name body) : Clashes s (levels + 1) type (start ++ (used ++ rest))

theorem MessageType.given_eq_some {t : MessageType} {nested : String → Bytes → Except Error Message}
    {r : Record} {p : Field × Value} :
    t.given nested r = some p ↔
      t.meaning r = .element p.1 ∧ p.1.kind.element nested r.payload = .ok p.2 := by
  unfold given
  split
  · next f hf =>
      split
      · next v hv =>
          constructor
          · rintro ⟨⟩
            exact ⟨hf, hv⟩
          · rintro ⟨hm, hp⟩
            rw [hf] at hm
            cases hm
            rw [hv] at hp
            cases hp
            rfl
      · next e he =>
          refine ⟨nofun, ?_⟩
          rintro ⟨hm, hp⟩
          rw [hf] at hm
          cases hm
          rw [he] at hp
          cases hp
  · next hne =>
      refine ⟨nofun, ?_⟩
      rintro ⟨hm, -⟩
      exact absurd hm (hne p.1)

section Elements

variable {clash : String → Bytes → Prop} {strict lenient : String → Bytes → Except Error Message}
variable {k : Kind} {p : Payload}

theorem Kind.element_eq (hm : ¬∃ name body, k = .message name ∧ p = .delimited body) :
    k.element strict p = k.element lenient p := by
  cases k with
  | message name =>
      cases p with
      | delimited body => exact absurd ⟨name, body, rfl, rfl⟩ hm
      | _ => rfl
  | scalar c => cases c <;> cases p <;> rfl
  | _ => cases p <;> rfl

theorem Kind.detects_element
    (h : ∀ name body, k = .message name → Detects (clash name body) (strict name body)
      (lenient name body)) :
    Detects (∃ name body, k = .message name ∧ p = .delimited body ∧ clash name body)
      (k.element strict p) (k.element lenient p) := by
  by_cases hm : ∃ name body, k = .message name ∧ p = .delimited body
  · obtain ⟨name, body, rfl, rfl⟩ := hm
    refine ((h name body rfl).map Value.message).congr ⟨fun hc => ⟨name, body, rfl, rfl, hc⟩, ?_⟩
    rintro ⟨_, _, ⟨⟩, ⟨⟩, hc⟩
    exact hc
  · have same : k.element strict p = k.element lenient p := element_eq hm
    rw [same]
    have calm : ¬Conflicted (k.element lenient p) := by
      rintro ⟨message, group, he⟩
      rcases element_fails he with hd | ⟨name, body, hk, hp, -⟩
      · exact hd
      · exact hm ⟨name, body, hk, hp⟩
    refine (Detects.none calm).congr ⟨False.elim, ?_⟩
    rintro ⟨name, body, hk, hp, -⟩
    exact hm ⟨name, body, hk, hp⟩

end Elements

namespace Message

section Records

variable {s : Schema} {type : String} {clash : String → Bytes → Prop}
variable {strict lenient : String → Bytes → Except Error Message} {m m' : Message} {f : Field}

theorem displaces_of_ungrouped (h : f.group? = none) : m.displaces s f = false := by
  rw [displaces, siblings, h]
  rfl

theorem detects_keep (m : Message) (f : Field) (v : Value) :
    Detects (m.displaces s f = true) (m.keep s .refuse f v) (m.keep s .replace f v) := by
  unfold keep
  split
  · next hc =>
      have hd : m.displaces s f = false := displaces_of_ungrouped (Field.group?_of_repeated hc)
      exact (Detects.none (not_conflicted_ok _)).congr (by simp [hd])
  · next hc =>
      have hd : m.displaces s f = false := displaces_of_ungrouped (by simp [Field.group?, hc])
      exact (Detects.none (not_conflicted_ok _)).congr (by simp [hd])
  · next group _ =>
      refine ⟨fun hd => ⟨m.type, group, if_pos ⟨rfl, hd⟩⟩, fun hd => ?_, ?_⟩
      · simp [hd]
      · simpa using not_conflicted_ok (m.store s f v)

theorem exists_keep_replace (m : Message) (f : Field) (v : Value) :
    ∃ m', m.keep s .replace f v = .ok m' := by
  unfold keep
  split
  · exact ⟨_, rfl⟩
  · exact ⟨_, rfl⟩
  · exact ⟨_, if_neg fun hr => nomatch hr.1⟩

theorem KeepsLast.keep {rule : GroupRule} {given : List (Field × Value)} {v : Value}
    (h : m.KeepsLast s type given) (check : (s.find type).check = .ok ())
    (hf : f ∈ (s.find type).fields) (hk : m.keep s rule f v = .ok m') :
    m'.KeepsLast s type (given ++ [(f, v)]) := by
  rcases keep_eq_ok hk with ⟨hc, rfl⟩ | ⟨-, rfl⟩
  · have hg := Field.group?_of_repeated hc
    exact (h.append check hf hg v).ungrouped hf hg v
  · exact h.store check hf v

theorem detects_foldRun (hp : f.kind.isPackable = true) (m : Message) (body : Bytes) :
    Detects False
      (foldRun f.tag
        (fun m p =>
          match f.kind.element strict p with
          | .ok v => .ok (m.append f v)
          | .error e => .error e) m body)
      (foldRun f.tag
        (fun m p =>
          match f.kind.element lenient p with
          | .ok v => .ok (m.append f v)
          | .error e => .error e) m body) := by
  have hm : ∀ p, ¬∃ name body, f.kind = .message name ∧ p = Payload.delimited body := by
    rintro p ⟨name, body, hk, -⟩
    rw [hk] at hp
    cases hp
  have same : ∀ p, f.kind.element strict p = f.kind.element lenient p := fun p =>
    Kind.element_eq (hm p)
  simp only [same]
  refine .none ?_
  rintro ⟨message, group, he⟩
  refine foldRun_fails (P := Error.OfData) (fun _ => id) (fun k p e hs => ?_) he
  split at hs
  · cases hs
  · next hv =>
      cases hs
      exact (Kind.element_fails hv).resolve_right fun ⟨name, body, hk, hp, _⟩ =>
        hm p ⟨name, body, hk, hp⟩

def RecordClashes (t : MessageType) (clash : String → Bytes → Prop) (r : Record) : Prop :=
  ∃ f name body, t.meaning r = .element f ∧ f.kind = .message name ∧ r.payload = .delimited body ∧
    clash name body

theorem detects_absorb {before : List (Field × Value)} (hm : m.KeepsLast s type before)
    (h : ∀ f ∈ (s.find type).fields, ∀ name body, f.kind = .message name →
      Detects (clash name body) (strict name body) (lenient name body)) (r : Record) :
    Detects
      (RecordClashes (s.find type) clash r ∨
        ∃ p ∈ (s.find type).given lenient r, m.displaces s p.1 = true)
      (m.absorb s .refuse strict r) (m.absorb s .replace lenient r) := by
  cases hr : (s.find type).meaning r with
  | unknown =>
      have ha : ∀ rule nested, m.absorb s rule nested r = .ok m := fun rule nested => by
        rw [absorb, hm.messageType, hr]
      rw [ha, ha]
      refine (Detects.none (not_conflicted_ok m)).congr ?_
      simp [RecordClashes, MessageType.given, hr]
  | run f body =>
      obtain ⟨-, -, hp⟩ := MessageType.field?_of_meaning_run hr
      rw [absorb, absorb, hm.messageType, hr]
      refine (detects_foldRun hp m body).congr ?_
      simp [RecordClashes, MessageType.given, hr]
  | element f =>
      have hf := (MessageType.field?_eq_some (MessageType.field?_of_meaning_element hr).1).1
      rw [absorb_of_element (hm.messageType ▸ hr), absorb_of_element (hm.messageType ▸ hr)]
      refine ((Kind.detects_element (h f hf)).bind fun v _ => detects_keep m f v).congr ?_
      constructor
      · rintro (⟨name, body, hk, hp, hc⟩ | ⟨v, hv, hd⟩)
        · exact .inl ⟨f, name, body, hr, hk, hp, hc⟩
        · exact .inr ⟨(f, v), MessageType.given_eq_some.2 ⟨hr, hv⟩, hd⟩
      · rintro (⟨g, name, body, hg, hk, hp, hc⟩ | ⟨p, hp, hd⟩)
        · rw [hr] at hg
          cases hg
          exact .inl ⟨name, body, hk, hp, hc⟩
        · obtain ⟨hmeaning, hv⟩ := MessageType.given_eq_some.1 hp
          rw [hr] at hmeaning
          cases hmeaning
          exact .inr ⟨p.2, hv, hd⟩

theorem KeepsLast.absorb {before : List (Field × Value)} {rule : GroupRule} {r : Record}
    (hm : m.KeepsLast s type before) (check : (s.find type).check = .ok ())
    (ha : m.absorb s rule lenient r = .ok m') :
    m'.KeepsLast s type (before ++ ((s.find type).given lenient r).toList) := by
  cases hr : (s.find type).meaning r with
  | unknown =>
      rw [Message.absorb, hm.messageType, hr] at ha
      cases ha
      simpa [MessageType.given, hr] using hm
  | run f body =>
      obtain ⟨hfield, hrep, -⟩ := MessageType.field?_of_meaning_run hr
      have hf := (MessageType.field?_eq_some hfield).1
      have hg := Field.group?_of_repeated (Field.isRepeated_iff.1 hrep)
      rw [Message.absorb, hm.messageType, hr] at ha
      have hrun := foldRun_invariant (P := fun k => k.KeepsLast s type before)
        (fun k p k' hk hs => ?_) hm ha
      · simpa [MessageType.given, hr] using hrun
      · split at hs
        · next v _ =>
            cases hs
            exact hk.append check hf hg v
        · cases hs
  | element f =>
      have hf := (MessageType.field?_eq_some (MessageType.field?_of_meaning_element hr).1).1
      rw [absorb_of_element (hm.messageType ▸ hr)] at ha
      obtain ⟨v, hv, hk⟩ := Except.bind_eq_ok ha
      have hgiven : (s.find type).given lenient r = some (f, v) :=
        MessageType.given_eq_some.2 ⟨hr, hv⟩
      rw [hgiven]
      exact hm.keep check hf hk

theorem gathers_absorb (check : (s.find type).check = .ok ())
    (h : ∀ f ∈ (s.find type).fields, ∀ name body, f.kind = .message name →
      Detects (clash name body) (strict name body) (lenient name body)) :
    Gathers s type (RecordClashes (s.find type) clash) ((s.find type).given lenient)
      (absorb s .refuse strict) (absorb s .replace lenient) where
  detects := fun before m r hm => detects_absorb hm h r
  accepts := by
    intro before m r p hm hp
    obtain ⟨hr, hv⟩ := MessageType.given_eq_some.1 hp
    rw [absorb_of_element (hm.messageType ▸ hr), hv]
    exact exists_keep_replace m p.1 p.2
  keeps := fun before m r m' hm ha => hm.absorb check ha

end Records

section Bodies

variable {s : Schema} {type : String} {levels : Nat} {m : Message} {rs : List Record} {bytes : Bytes}

theorem decodeWithin_records {rule : GroupRule} (h : Records rs bytes) (rest : Bytes) :
    decodeWithin s rule (levels + 1) type (bytes ++ rest) =
      rs.foldlM (absorb s rule (decodeWithin s rule levels)) (zero (s.find type)) >>= fun m =>
        foldRecords (absorb s rule (decodeWithin s rule levels)) m rest :=
  foldRecords_records h _ rest

theorem foldlM_of_decodeWithin {rule : GroupRule} (h : Records rs bytes) :
    decodeWithin s rule (levels + 1) type bytes =
      rs.foldlM (absorb s rule (decodeWithin s rule levels)) (zero (s.find type)) :=
  foldRecords_eq_foldlM h _

theorem clashes_of_records (h : Records rs bytes) (rest : Bytes)
    (hc : ItemsClash (RecordClashes (s.find type) (Clashes s levels))
      ((s.find type).given (decodeWithin s .replace levels))
      (absorb s .replace (decodeWithin s .replace levels)) (zero (s.find type)) rs) :
    Clashes s (levels + 1) type (bytes ++ rest) := by
  rcases hc with ⟨read, rivals⟩ | ⟨read, f, name, body, element, kind, payload, clash⟩
  · obtain ⟨first, second, rfl, hfirst, -⟩ := h.of_append
    rw [List.append_assoc]
    exact .here hfirst ((foldlM_of_decodeWithin hfirst).trans read) rivals
  · obtain ⟨first, second, rfl, hfirst, hsecond⟩ := h.of_append
    obtain ⟨used, last, rfl, hused, -⟩ := hsecond.of_cons
    rw [List.append_assoc, List.append_assoc]
    exact .inside ((foldlM_of_decodeWithin hfirst).trans read) hused element kind payload clash

theorem records_of_clashes (h : Clashes s (levels + 1) type bytes) :
    ∃ rs start rest, bytes = start ++ rest ∧ Records rs start ∧
      ItemsClash (RecordClashes (s.find type) (Clashes s levels))
        ((s.find type).given (decodeWithin s .replace levels))
        (absorb s .replace (decodeWithin s .replace levels)) (zero (s.find type)) rs := by
  rcases h with ⟨records, read, rivals⟩ | ⟨read, next, element, kind, payload, clash⟩
  · rw [foldlM_of_decodeWithin records] at read
    exact ⟨_, _, _, rfl, records, .whole read rivals⟩
  · obtain ⟨-, earlier, -, hearlier, hfold⟩ := records_of_foldRecords read
    exact ⟨_, _, _, (List.append_assoc ..).symm, hearlier.append (.single next),
      .inner hfold ⟨_, _, _, element, kind, payload, clash⟩⟩

theorem detects_decodeWithin (valid : s.Valid type) (levels : Nat) (bytes : Bytes) :
    Detects (Clashes s levels type bytes) (decodeWithin s .refuse levels type bytes)
      (decodeWithin s .replace levels type bytes) := by
  induction levels generalizing type bytes with
  | zero => exact (Detects.none (not_conflicted_error (by trivial))).congr ⟨False.elim, nofun⟩
  | succ levels ih =>
      have hrun := (gathers_absorb valid.check fun f hf name body hk =>
        ih (valid.nested hf hk) body).detects_foldlM (.zero valid.check)
      obtain ⟨rs, start, rest, e, left, rfl, hrs, he⟩ := exists_records bytes
      have hrest : ∀ k, Detects False
          (foldRecords (absorb s .refuse (decodeWithin s .refuse levels)) k rest)
          (foldRecords (absorb s .replace (decodeWithin s .replace levels)) k rest) := by
        intro k
        rw [foldRecords_of_error he, foldRecords_of_error he]
        refine .none ?_
        split
        · exact not_conflicted_ok k
        · exact not_conflicted_error (Reader.ofData_of_record he)
      rw [decodeWithin_records hrs, decodeWithin_records hrs]
      refine ((hrun rs).bind fun k _ => hrest k).of_imp ?_ fun hc => ?_
      · rintro (hc | ⟨k, -, ⟨⟩⟩)
        exact clashes_of_records hrs rest hc
      · rw [← decodeWithin_records hrs]
        obtain ⟨records, first, last, heq, hfirst, hc⟩ := records_of_clashes hc
        rw [heq, decodeWithin_records hfirst]
        exact ((hrun records).conflicted hc).bind _

theorem keepsLast_decodeWithin (valid : s.Valid type)
    (h : decodeWithin s .replace (levels + 1) type bytes = .ok m) :
    ∃ rs, Records rs bytes ∧
      m.KeepsLast s type (rs.filterMap ((s.find type).given (decodeWithin s .replace levels))) := by
  obtain ⟨-, rs, -, hrs, hfold⟩ := records_of_foldRecords h
  have hgathers := gathers_absorb valid.check fun f hf name body hk =>
    detects_decodeWithin (valid.nested hf hk) levels body
  exact ⟨rs, hrs, hgathers.keepsLast (.zero valid.check) hfold⟩

end Bodies

end Message

end SchemaRpc
