import SchemaRpc.Proofs.Wire.Reading

namespace SchemaRpc

inductive WireKind.Spelled : WireKind → Bytes → Prop
  | varint {n : Nat} {payload : Bytes} (h : Varint.Spelled 0 n payload) : Spelled .varint payload
  | fixed64 {payload : Bytes} (h : payload.length = 8) : Spelled .fixed64 payload
  | delimited {len body : Bytes} (h : Varint.Spelled 0 body.length len) :
      Spelled .delimited (len ++ body)
  | fixed32 {payload : Bytes} (h : payload.length = 4) : Spelled .fixed32 payload

/-- The bytes are fields with these tags, among them groups that are nested at most `depth` deep. -/
inductive Fields : Nat → List Tag → Bytes → Prop
  | nil {depth : Nat} : Fields depth [] []
  | plain {depth : Nat} {t : Tag} {tags : List Tag} {head payload rest : Bytes}
      (tag : t.Spelled head) (body : t.kind.Spelled payload) (others : Fields depth tags rest) :
      Fields depth (t :: tags) (head ++ (payload ++ rest))
  | group {depth number : Nat} {tags inners : List Tag} {head inner close rest : Bytes}
      (opening : Tag.Spelled ⟨number, .startGroup⟩ head) (content : Fields depth inners inner)
      (closing : Tag.Spelled ⟨number, .endGroup⟩ close) (others : Fields (depth + 1) tags rest) :
      Fields (depth + 1) (⟨number, .startGroup⟩ :: tags) (head ++ (inner ++ (close ++ rest)))

theorem Fields.single {depth : Nat} {t : Tag} {head payload : Bytes} (tag : t.Spelled head)
    (body : t.kind.Spelled payload) : Fields depth [t] (head ++ payload) := by
  have : Fields depth [t] (head ++ (payload ++ [])) := .plain tag body .nil
  rwa [List.append_nil] at this

theorem Fields.singleGroup {depth number : Nat} {inners : List Tag} {head inner close : Bytes}
    (opening : Tag.Spelled ⟨number, .startGroup⟩ head) (content : Fields depth inners inner)
    (closing : Tag.Spelled ⟨number, .endGroup⟩ close) :
    Fields (depth + 1) [⟨number, .startGroup⟩] (head ++ (inner ++ close)) := by
  have := Fields.group opening content closing .nil
  rwa [List.append_nil] at this

def Record.tag (r : Record) : Tag :=
  ⟨r.number, r.payload.kind⟩

theorem Fields.append {depth : Nat} {tags others : List Tag} {first second : Bytes}
    (h : Fields depth tags first) (hs : Fields depth others second) :
    Fields depth (tags ++ others) (first ++ second) := by
  induction h with
  | nil => exact hs
  | plain tag body _ ih =>
      simp only [List.append_assoc]
      exact .plain tag body (ih hs)
  | group opening content closing _ _ ih =>
      simp only [List.append_assoc]
      exact .group opening content closing (ih hs)

namespace Reader

theorem reads_plainPayload {t : Tag} {bytes : Bytes} (h : t.kind.Spelled bytes) :
    ∃ p, p.kind = t.kind ∧ (plainPayload t).Reads p bytes := by
  obtain ⟨number, kind⟩ := t
  cases h with
  | varint h => exact ⟨.varint _, rfl, (reads_varint h).map Payload.varint⟩
  | fixed64 h => exact ⟨.fixed64 _, rfl, (reads_fixed64 h).map Payload.fixed64⟩
  | delimited h => exact ⟨.delimited _, rfl, (reads_delimited h).map Payload.delimited⟩
  | fixed32 h => exact ⟨.fixed32 _, rfl, (reads_fixed32 h).map Payload.fixed32⟩

theorem spelled_of_plainPayload {t : Tag} {p : Payload} {bytes rest : Bytes}
    (h : plainPayload t bytes = .ok p rest) :
    p.kind = t.kind ∧ ∃ used, bytes = used ++ rest ∧ t.kind.Spelled used := by
  obtain ⟨number, kind⟩ := t
  cases kind with
  | varint =>
      obtain ⟨v, middle, hv, hp⟩ := bind_eq_ok h
      cases hp
      obtain ⟨used, hb, hu⟩ := spelled_of_varint hv
      exact ⟨rfl, used, hb, .varint hu⟩
  | fixed64 =>
      obtain ⟨v, middle, hv, hp⟩ := bind_eq_ok h
      cases hp
      obtain ⟨taken, left, ht, hp⟩ := bind_eq_ok hv
      cases hp
      obtain ⟨hn, hb⟩ := length_of_take ht
      exact ⟨rfl, taken, hb, .fixed64 hn⟩
  | delimited =>
      obtain ⟨v, middle, hv, hp⟩ := bind_eq_ok h
      cases hp
      obtain ⟨n, left, hn, ht⟩ := bind_eq_ok hv
      obtain ⟨len, rfl, hlen⟩ := spelled_of_varint hn
      obtain ⟨hl, rfl⟩ := length_of_take ht
      refine ⟨rfl, len ++ v, (List.append_assoc ..).symm, .delimited ?_⟩
      rwa [hl]
  | fixed32 =>
      obtain ⟨v, middle, hv, hp⟩ := bind_eq_ok h
      cases hp
      obtain ⟨taken, left, ht, hp⟩ := bind_eq_ok hv
      cases hp
      obtain ⟨hn, hb⟩ := length_of_take ht
      exact ⟨rfl, taken, hb, .fixed32 hn⟩
  | startGroup => cases h
  | endGroup => cases h

theorem closeGroups_endGroup {number : Nat} {outer : List Nat} {close : Bytes}
    (h : Tag.Spelled ⟨number, .endGroup⟩ close) (rest : Bytes) :
    closeGroups (number :: outer) (close ++ rest) = closeGroups outer rest := by
  rw [closeGroups]
  split
  · next e _ ht => rw [reads_tag h] at ht; cases ht
  · next t _ ht =>
      rw [reads_tag h] at ht
      cases ht
      exact if_pos rfl

theorem closeGroups_startGroup {number inner : Nat} {outer : List Nat} {head : Bytes}
    (h : Tag.Spelled ⟨inner, .startGroup⟩ head) (room : outer.length + 1 < groupLimit)
    (rest : Bytes) :
    closeGroups (number :: outer) (head ++ rest) = closeGroups (inner :: number :: outer) rest := by
  rw [closeGroups]
  split
  · next e _ ht => rw [reads_tag h] at ht; cases ht
  · next t _ ht =>
      rw [reads_tag h] at ht
      cases ht
      exact if_neg (by simpa using room)

theorem closeGroups_plain {number : Nat} {outer : List Nat} {t : Tag} {head payload : Bytes}
    (h : t.Spelled head) (hp : t.kind.Spelled payload) (rest : Bytes) :
    closeGroups (number :: outer) (head ++ (payload ++ rest)) =
      closeGroups (number :: outer) rest := by
  obtain ⟨p, hk, hr⟩ := reads_plainPayload hp
  rw [closeGroups]
  split
  · next e _ ht => rw [reads_tag h] at ht; cases ht
  · next t' _ ht =>
      rw [reads_tag h] at ht
      cases ht
      split
      · next he => rw [he] at hp; cases hp
      · next he => rw [he] at hp; cases hp
      · split
        · next hq => rw [hr] at hq; cases hq
        · next hq => rw [hr] at hq; cases hq; rfl

theorem closeGroups_fields {depth : Nat} {tags : List Tag} {bytes : Bytes}
    (h : Fields depth tags bytes) {number : Nat} {outer : List Nat}
    (room : outer.length + 1 + depth ≤ groupLimit) (rest : Bytes) :
    closeGroups (number :: outer) (bytes ++ rest) = closeGroups (number :: outer) rest := by
  induction h generalizing number outer rest with
  | nil => rfl
  | plain tag body _ ih =>
      simp only [List.append_assoc]
      rw [closeGroups_plain tag body, ih room]
  | @group depth inner tags inners head content close others opening _ closing _ ihc ih =>
      simp only [List.append_assoc]
      rw [closeGroups_startGroup opening (by omega), ihc, closeGroups_endGroup closing, ih room]
      simp only [List.length_cons]
      omega

theorem fields_of_closeGroups {bytes rest : Bytes} {number : Nat} {outer : List Nat}
    (room : outer.length < groupLimit) (h : closeGroups (number :: outer) bytes = .ok () rest) :
    ∃ tags inner close after, bytes = inner ++ (close ++ after) ∧
      Fields (groupLimit - 1 - outer.length) tags inner ∧
      Tag.Spelled ⟨number, .endGroup⟩ close ∧ closeGroups outer after = .ok () rest := by
  -- a nested group is left behind before the fields after it are read, hence the length
  induction hl : bytes.length using Nat.strongRecOn generalizing bytes number outer with
  | ind length ih =>
      rw [closeGroups] at h
      split at h
      · cases h
      · next t middle ht =>
          obtain ⟨head, rfl, hhead⟩ := spelled_of_tag ht
          have hlt := length_lt_of_tag ht
          obtain ⟨n, kind⟩ := t
          split at h
          · next hk =>
              cases hk
              split at h
              · next hn =>
                  cases hn
                  exact ⟨[], [], head, middle, rfl, .nil, hhead, h⟩
              · cases h
          · next hk =>
              cases hk
              split at h
              · cases h
              · next hroom =>
                  simp only [List.length_cons, Nat.not_le] at hroom
                  obtain ⟨inners, inner, close, after, rfl, hinner, hclose, hafter⟩ :=
                    ih middle.length (by omega) (by simpa using hroom) h rfl
                  obtain ⟨tags, others, last, left, rfl, hothers, hlast, hleft⟩ :=
                    ih after.length (by simp only [List.length_append] at hlt hl; omega) room hafter
                      rfl
                  refine ⟨⟨n, .startGroup⟩ :: tags, head ++ (inner ++ (close ++ others)), last, left,
                    by simp only [List.append_assoc], ?_, hlast, hleft⟩
                  have hd : groupLimit - 1 - outer.length =
                      groupLimit - 1 - (number :: outer).length + 1 := by
                    simp only [List.length_cons]
                    omega
                  rw [hd] at hothers ⊢
                  exact .group hhead hinner hclose hothers
          · split at h
            · cases h
            · next p left hp =>
                obtain ⟨-, used, rfl, hu⟩ := spelled_of_plainPayload hp
                have hlp := length_lt_of_plainPayload hp
                obtain ⟨tags, inner, close, after, rfl, hinner, hclose, hafter⟩ :=
                  ih left.length (by omega) room h rfl
                exact ⟨⟨n, kind⟩ :: tags, head ++ (used ++ inner), close, after,
                  by simp only [List.append_assoc], .plain hhead hu hinner, hclose, hafter⟩

theorem reads_payload_plain {t : Tag} {p : Payload} {bytes : Bytes} (h : t.kind.Spelled bytes)
    (hp : (plainPayload t).Reads p bytes) : (payload t).Reads p bytes := by
  intro rest
  rw [payload_of_plain (fun hk => by rw [hk] at h; cases h), hp]

theorem reads_record_plain {t : Tag} {p : Payload} {head body : Bytes} (h : t.Spelled head)
    (hb : t.kind.Spelled body) (hp : (plainPayload t).Reads p body) :
    record.Reads ⟨t.number, p⟩ (head ++ body) :=
  (reads_tag h).bind ((reads_payload_plain hb hp).map _)

theorem reads_record_group {depth number : Nat} {inners : List Tag} {head inner close : Bytes}
    (room : depth < groupLimit) (opening : Tag.Spelled ⟨number, .startGroup⟩ head)
    (content : Fields depth inners inner) (closing : Tag.Spelled ⟨number, .endGroup⟩ close) :
    record.Reads ⟨number, .group⟩ (head ++ (inner ++ close)) := by
  refine (reads_tag opening).bind (Reads.map (Record.mk number) fun rest => ?_)
  rw [payload_of_startGroup rfl, List.append_assoc, closeGroups_fields content,
    closeGroups_endGroup closing, closeGroups]
  simp only [List.length_nil]
  omega

theorem fields_of_record {r : Record} {bytes rest : Bytes} (h : record bytes = .ok r rest) :
    ∃ used, bytes = used ++ rest ∧ Fields groupLimit [r.tag] used ∧ record.Reads r used := by
  obtain ⟨⟨number, kind⟩, middle, ht, hp, hn⟩ := record_eq_ok h
  obtain ⟨head, rfl, hhead⟩ := spelled_of_tag ht
  obtain ⟨rnumber, p⟩ := r
  cases hn
  by_cases hk : kind = .startGroup
  · subst hk
    rw [payload_of_startGroup rfl] at hp
    split at hp
    · next hc =>
        cases hp
        obtain ⟨tags, inner, close, after, rfl, hinner, hclose, hafter⟩ :=
          fields_of_closeGroups (by decide) hc
        rw [closeGroups] at hafter
        cases hafter
        have room : groupLimit - 1 - ([] : List Nat).length < groupLimit := by decide
        exact ⟨head ++ (inner ++ close), by simp only [List.append_assoc],
          .singleGroup hhead hinner hclose, reads_record_group room hhead hinner hclose⟩
    · cases hp
  · rw [payload_of_plain hk] at hp
    obtain ⟨hkind, used, rfl, hu⟩ := spelled_of_plainPayload hp
    simp only at hkind hu
    obtain ⟨q, -, hq⟩ := reads_plainPayload (t := ⟨number, kind⟩) hu
    rw [hq] at hp
    cases hp
    refine ⟨head ++ used, by simp only [List.append_assoc], ?_, reads_record_plain hhead hu hq⟩
    have : Fields groupLimit [⟨number, kind⟩] (head ++ used) := .single hhead hu
    simpa only [Record.tag, hkind] using this

theorem local_record : record.Local := by
  intro bytes r rest h
  obtain ⟨used, hb, -, hreads⟩ := fields_of_record h
  exact ⟨used, hb, hreads⟩

end Reader

inductive Records : List Record → Bytes → Prop
  | nil : Records [] []
  | cons {r : Record} {rs : List Record} {used rest : Bytes} (first : Reader.record.Reads r used)
      (others : Records rs rest) : Records (r :: rs) (used ++ rest)

theorem Records.single {r : Record} {bytes : Bytes} (h : Reader.record.Reads r bytes) :
    Records [r] bytes := by
  have := Records.cons h .nil
  rwa [List.append_nil] at this

theorem Records.append {rs others : List Record} {first second : Bytes} (h : Records rs first)
    (hs : Records others second) : Records (rs ++ others) (first ++ second) := by
  induction h with
  | nil => exact hs
  | cons first _ ih =>
      rw [List.append_assoc]
      exact .cons first ih

theorem Records.of_append {rs others : List Record} {bytes : Bytes} (h : Records (rs ++ others) bytes) :
    ∃ first second, bytes = first ++ second ∧ Records rs first ∧ Records others second := by
  induction rs generalizing bytes with
  | nil => exact ⟨[], bytes, rfl, .nil, h⟩
  | cons r rs ih =>
      cases h with
      | @cons _ _ used rest hr hrest =>
          obtain ⟨first, second, rfl, hfirst, hsecond⟩ := ih hrest
          exact ⟨used ++ first, second, (List.append_assoc ..).symm, .cons hr hfirst, hsecond⟩

theorem Records.of_cons {r : Record} {rs : List Record} {bytes : Bytes} (h : Records (r :: rs) bytes) :
    ∃ used rest, bytes = used ++ rest ∧ Reader.record.Reads r used ∧ Records rs rest := by
  cases h with
  | cons first others => exact ⟨_, _, rfl, first, others⟩

theorem exists_records (bytes : Bytes) :
    ∃ rs start rest e left, bytes = start ++ rest ∧ Records rs start ∧
      Reader.record rest = .error e left := by
  induction hl : bytes.length using Nat.strongRecOn generalizing bytes with
  | ind length ih =>
      cases hr : Reader.record bytes with
      | error e left => exact ⟨[], [], bytes, e, left, rfl, .nil, hr⟩
      | ok r rest =>
          have hlt := Reader.length_lt_of_record hr
          obtain ⟨used, rfl, hreads⟩ := Reader.local_record hr
          obtain ⟨rs, start, last, e, left, rfl, hrs, he⟩ := ih rest.length (by omega) rest rfl
          exact ⟨r :: rs, used ++ start, last, e, left, (List.append_assoc ..).symm,
            .cons hreads hrs, he⟩

theorem Fields.records {depth : Nat} {tags : List Tag} {bytes : Bytes}
    (h : Fields depth tags bytes) (hd : depth ≤ Reader.groupLimit) :
    ∃ rs, Records rs bytes ∧ rs.map Record.tag = tags := by
  induction h with
  | nil => exact ⟨[], .nil, rfl⟩
  | @plain depth t tags head payload rest tag body _ ih =>
      obtain ⟨rs, hrs, htags⟩ := ih hd
      obtain ⟨p, hk, hp⟩ := Reader.reads_plainPayload body
      refine ⟨⟨t.number, p⟩ :: rs, ?_, by simp only [List.map_cons, htags, Record.tag, hk]⟩
      rw [← List.append_assoc]
      exact .cons (Reader.reads_record_plain tag body hp) hrs
  | @group depth number tags inners head inner close rest opening content closing _ _ ih =>
      obtain ⟨rs, hrs, htags⟩ := ih hd
      refine ⟨⟨number, .group⟩ :: rs, ?_, by simp only [List.map_cons, htags, Record.tag]; rfl⟩
      rw [← List.append_assoc inner, ← List.append_assoc head]
      exact .cons (Reader.reads_record_group hd opening content closing) hrs

section Folding

variable {σ : Type} {step : σ → Record → Except Error σ}

theorem foldRecords_record {r : Record} {used : Bytes} (h : Reader.record.Reads r used) (s : σ)
    (rest : Bytes) :
    foldRecords step s (used ++ rest) = (step s r).bind fun s => foldRecords step s rest := by
  have hlt := Reader.length_lt_of_record (h rest)
  have hne : (used ++ rest).isEmpty = false :=
    List.isEmpty_eq_false_iff.2 (List.ne_nil_of_length_pos (Nat.zero_lt_of_lt hlt))
  rw [foldRecords, hne]
  simp only [Bool.false_eq_true, ↓reduceIte]
  split
  · next he => rw [h] at he; cases he
  · next hr =>
      rw [h] at hr
      cases hr
      cases step s r <;> rfl

theorem foldRecords_records {rs : List Record} {bytes : Bytes} (h : Records rs bytes) (s : σ)
    (rest : Bytes) :
    foldRecords step s (bytes ++ rest) =
      (rs.foldlM step s).bind fun s => foldRecords step s rest := by
  induction h generalizing s with
  | nil => rfl
  | @cons r rs used others first _ ih =>
      rw [List.append_assoc, foldRecords_record first, List.foldlM_cons]
      change _ = Except.bind (Except.bind (step s r) _) _
      cases step s r with
      | error e => rfl
      | ok s => exact ih s

theorem foldRecords_of_error {bytes left : Bytes} {e : Error} (h : Reader.record bytes = .error e left)
    (s : σ) : foldRecords step s bytes = if bytes.isEmpty then .ok s else .error e := by
  rw [foldRecords]
  split
  · rfl
  · split
    · next he =>
        rw [h] at he
        cases he
        rfl
    · next hr =>
        rw [h] at hr
        cases hr

theorem foldRecords_eq_foldlM {rs : List Record} {bytes : Bytes} (h : Records rs bytes) (s : σ) :
    foldRecords step s bytes = rs.foldlM step s := by
  have hf : foldRecords step s (bytes ++ []) = _ := foldRecords_records h s []
  rw [List.append_nil] at hf
  rw [hf]
  cases rs.foldlM step s with
  | error e => rfl
  | ok s => exact foldRecords_nil step s

theorem records_of_foldRecords {s s' : σ} {bytes : Bytes} (h : foldRecords step s bytes = .ok s') :
    ∃ tags rs, Fields Reader.groupLimit tags bytes ∧ Records rs bytes ∧
      rs.foldlM step s = .ok s' := by
  induction hl : bytes.length using Nat.strongRecOn generalizing bytes s with
  | ind length ih =>
      rw [foldRecords] at h
      split at h
      · next he =>
          cases List.isEmpty_iff.1 he
          cases h
          exact ⟨[], [], .nil, .nil, rfl⟩
      · split at h
        · cases h
        · next r rest hr =>
            split at h
            · cases h
            · next next hs =>
                have hlt := Reader.length_lt_of_record hr
                obtain ⟨tags, rs, hfields, hrs, hfold⟩ := ih rest.length (by omega) h rfl
                obtain ⟨used, rfl, hused, hreads⟩ := Reader.fields_of_record hr
                refine ⟨r.tag :: tags, r :: rs, hused.append hfields, .cons hreads hrs, ?_⟩
                rw [List.foldlM_cons, hs]
                exact hfold

end Folding

section Runs

variable {σ : Type} {t : Tag} {step : σ → Payload → Except Error σ}

@[simp] theorem foldRun_nil (s : σ) : foldRun t step s [] = .ok s := by
  rw [foldRun]
  rfl

theorem foldRun_payload {p : Payload} {used : Bytes} (h : (Reader.plainPayload t).Reads p used) (s : σ)
    (rest : Bytes) :
    foldRun t step s (used ++ rest) = (step s p).bind fun s => foldRun t step s rest := by
  have hlt := Reader.length_lt_of_plainPayload (h rest)
  have hne : (used ++ rest).isEmpty = false :=
    List.isEmpty_eq_false_iff.2 (List.ne_nil_of_length_pos (Nat.zero_lt_of_lt hlt))
  rw [foldRun, hne]
  simp only [Bool.false_eq_true, ↓reduceIte]
  split
  · next he => rw [h] at he; cases he
  · next hp =>
      rw [h] at hp
      cases hp
      cases step s p <;> rfl

end Runs

end SchemaRpc
