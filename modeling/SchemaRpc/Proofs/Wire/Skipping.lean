import SchemaRpc.Proofs.Wire.Grammar

namespace SchemaRpc

def Error.OfToken : Error → Prop
  | .truncated .. | .varintOverflow | .invalidWireKind _ | .invalidFieldNumber _ => True
  | _ => False

inductive Tag.Carries : Nat → Tag → Bytes → Prop
  | plain {depth : Nat} {t : Tag} {payload : Bytes} (body : t.kind.Spelled payload) :
      Carries depth t payload
  | group {depth number : Nat} {tags : List Tag} {inner close : Bytes}
      (content : Fields depth tags inner) (closing : Tag.Spelled ⟨number, .endGroup⟩ close) :
      Carries (depth + 1) ⟨number, .startGroup⟩ (inner ++ close)

/-- The bytes go wrong in a group of this number, or in one inside it, of which `depth` may be nested:
they end a group that is not open there, or open one too many. -/
inductive Misnested : Nat → Nat → Error → Bytes → Prop
  | mismatch {depth number found : Nat} {tags : List Tag} {inner close rest : Bytes}
      (content : Fields depth tags inner) (closing : Tag.Spelled ⟨found, .endGroup⟩ close)
      (other : found ≠ number) :
      Misnested depth number (Reader.groupMismatch found number) (inner ++ (close ++ rest))
  | deep {number found : Nat} {tags : List Tag} {inner head rest : Bytes}
      (content : Fields 0 tags inner) (opening : Tag.Spelled ⟨found, .startGroup⟩ head) :
      Misnested 0 number Reader.groupTooDeep (inner ++ (head ++ rest))
  | inside {depth number found : Nat} {tags : List Tag} {inner head rest : Bytes} {e : Error}
      (content : Fields (depth + 1) tags inner) (opening : Tag.Spelled ⟨found, .startGroup⟩ head)
      (fault : Misnested depth found e rest) :
      Misnested (depth + 1) number e (inner ++ (head ++ rest))

theorem Misnested.behind {depth number : Nat} {tags : List Tag} {first bytes : Bytes} {e : Error}
    (h : Misnested depth number e bytes) (hf : Fields depth tags first) :
    Misnested depth number e (first ++ bytes) := by
  cases h with
  | mismatch content closing other =>
      rw [← List.append_assoc]
      exact .mismatch (hf.append content) closing other
  | deep content opening =>
      rw [← List.append_assoc]
      exact .deep (hf.append content) opening
  | inside content opening fault =>
      rw [← List.append_assoc]
      exact .inside (hf.append content) opening fault

namespace Reader

theorem reads_payload {t : Tag} {used : Bytes} (h : t.Carries groupLimit used) :
    ∃ p, (payload t).Reads p used := by
  cases h with
  | plain body =>
      obtain ⟨p, -, hp⟩ := reads_plainPayload body
      exact ⟨p, reads_payload_plain body hp⟩
  | @group _ number tags inner close content closing =>
      refine ⟨.group, fun rest => ?_⟩
      rw [payload_of_startGroup rfl, List.append_assoc, closeGroups_fields content (by decide),
        closeGroups_endGroup closing, closeGroups]

theorem carries_of_payload {t : Tag} {p : Payload} {bytes rest : Bytes}
    (h : payload t bytes = .ok p rest) :
    ∃ used, bytes = used ++ rest ∧ t.Carries groupLimit used := by
  by_cases hk : t.kind = .startGroup
  · obtain ⟨number, kind⟩ := t
    cases hk
    rw [payload_of_startGroup rfl] at h
    split at h
    · next hc =>
        cases h
        obtain ⟨tags, inner, close, after, rfl, hinner, hclose, hafter⟩ :=
          fields_of_closeGroups (by decide) hc
        rw [closeGroups] at hafter
        cases hafter
        exact ⟨inner ++ close, (List.append_assoc ..).symm, .group hinner hclose⟩
    · cases h
  · rw [payload_of_plain hk] at h
    obtain ⟨-, used, hb, hu⟩ := spelled_of_plainPayload h
    exact ⟨used, hb, .plain hu⟩

theorem local_payload (t : Tag) : (payload t).Local := by
  intro bytes p rest h
  obtain ⟨used, rfl, hu⟩ := carries_of_payload h
  obtain ⟨q, hq⟩ := reads_payload hu
  rw [hq] at h
  cases h
  exact ⟨used, rfl, hq⟩

section Groups

variable {number : Nat} {outer : List Nat} {t : Tag} {p : Payload} {bytes rest left : Bytes}
variable {e : Error}

theorem closeGroups_of_error (ht : tag bytes = .error e rest) :
    closeGroups (number :: outer) bytes = .error e rest := by
  rw [closeGroups]
  split
  · next h => rw [ht] at h; cases h; rfl
  · next h => rw [ht] at h; cases h

theorem closeGroups_of_endGroup (ht : tag bytes = .ok t rest) (hk : t.kind = .endGroup) :
    closeGroups (number :: outer) bytes =
      if t.number = number then closeGroups outer rest
      else .error (groupMismatch t.number number) rest := by
  rw [closeGroups]
  split
  · next h => rw [ht] at h; cases h
  · next h => rw [ht] at h; cases h; simp only [hk]

theorem closeGroups_of_startGroup (ht : tag bytes = .ok t rest) (hk : t.kind = .startGroup) :
    closeGroups (number :: outer) bytes =
      if groupLimit ≤ (number :: outer).length then .error groupTooDeep rest
      else closeGroups (t.number :: number :: outer) rest := by
  rw [closeGroups]
  split
  · next h => rw [ht] at h; cases h
  · next h => rw [ht] at h; cases h; simp only [hk]

theorem closeGroups_of_refused (ht : tag bytes = .ok t rest) (hs : t.kind ≠ .startGroup)
    (he : t.kind ≠ .endGroup) (hp : plainPayload t rest = .error e left) :
    closeGroups (number :: outer) bytes = .error e left := by
  rw [closeGroups]
  split
  · next h => rw [ht] at h; cases h
  · next h =>
      rw [ht] at h
      cases h
      split
      · next hk => exact absurd hk he
      · next hk => exact absurd hk hs
      · split
        · next hq => rw [hp] at hq; cases hq; rfl
        · next hq => rw [hp] at hq; cases hq

theorem closeGroups_of_payload (ht : tag bytes = .ok t rest) (hs : t.kind ≠ .startGroup)
    (he : t.kind ≠ .endGroup) (hp : plainPayload t rest = .ok p left) :
    closeGroups (number :: outer) bytes = closeGroups (number :: outer) left := by
  rw [closeGroups]
  split
  · next h => rw [ht] at h; cases h
  · next h =>
      rw [ht] at h
      cases h
      split
      · next hk => exact absurd hk he
      · next hk => exact absurd hk hs
      · split
        · next hq => rw [hp] at hq; cases hq
        · next hq => rw [hp] at hq; cases hq; rfl

end Groups

variable {α β : Type}

def Fails (P : Error → Prop) (p : Reader α) : Prop :=
  ∀ ⦃bytes e rest⦄, p bytes = .error e rest → P e

theorem Fails.mono {P Q : Error → Prop} {p : Reader α} (h : p.Fails P) (hq : ∀ e, P e → Q e) :
    p.Fails Q :=
  fun _ _ _ he => hq _ (h he)

theorem Fails.bind {P : Error → Prop} {p : Reader α} {q : α → Reader β} (hp : p.Fails P)
    (hq : ∀ a, (q a).Fails P) : (p >>= q).Fails P := by
  intro bytes e rest h
  change EStateM.bind p q bytes = _ at h
  rw [EStateM.bind] at h
  split at h
  · exact hq _ h
  · next he =>
      cases h
      exact hp he

theorem Fails.pure {P : Error → Prop} (a : α) : Fails P (Pure.pure a) := by
  intro bytes e rest h
  cases h

theorem Fails.throw {P : Error → Prop} {e : Error} (he : P e) :
    Fails P (throw e : Reader α) := by
  intro bytes e' rest h
  cases h
  exact he

theorem fails_varint : varint.Fails Error.OfToken := by
  intro bytes e rest h
  rw [varint] at h
  split at h <;> cases h <;> trivial

theorem fails_take (n : Nat) : (take n).Fails Error.OfToken := by
  intro bytes e rest h
  rw [take] at h
  split at h <;> cases h
  trivial

theorem ofToken_of_ofKey {key : Nat} {e : Error} (h : Tag.ofKey key = .error e) : e.OfToken := by
  simp only [Tag.ofKey] at h
  split at h
  · cases h
    trivial
  · cases hk : WireKind.ofNumber (key % 8) with
    | ok kind => rw [hk] at h; cases h
    | error e' =>
        rw [hk] at h
        cases h
        unfold WireKind.ofNumber at hk
        split at hk <;> cases hk
        trivial

theorem fails_tag : tag.Fails Error.OfToken := by
  refine fails_varint.bind fun key => ?_
  cases hk : Tag.ofKey key.toNat with
  | ok t => exact .pure t
  | error e => exact .throw (ofToken_of_ofKey hk)

theorem fails_delimited : delimited.Fails Error.OfToken :=
  fails_varint.bind fun _ => fails_take _

theorem fails_plainPayload {t : Tag} (hs : t.kind ≠ .startGroup) (he : t.kind ≠ .endGroup) :
    (plainPayload t).Fails Error.OfToken := by
  unfold plainPayload
  cases hk : t.kind with
  | varint => exact fails_varint.bind fun _ => .pure _
  | fixed64 => exact ((fails_take 8).bind fun _ => .pure _).bind fun _ => .pure _
  | delimited => exact fails_delimited.bind fun _ => .pure _
  | fixed32 => exact ((fails_take 4).bind fun _ => .pure _).bind fun _ => .pure _
  | startGroup => exact absurd hk hs
  | endGroup => exact absurd hk he

theorem closeGroups_of_misnested {depth number : Nat} {outer : List Nat} {e : Error} {bytes : Bytes}
    (h : Misnested depth number e bytes) (room : outer.length + 1 + depth = groupLimit) :
    ∃ left, closeGroups (number :: outer) bytes = .error e left := by
  induction h generalizing outer with
  | mismatch content closing other =>
      rw [closeGroups_fields content (by omega), closeGroups_of_endGroup (reads_tag closing _) rfl,
        if_neg other]
      exact ⟨_, rfl⟩
  | deep content opening =>
      rw [closeGroups_fields content (by omega), closeGroups_of_startGroup (reads_tag opening _) rfl,
        if_pos (by simp only [List.length_cons]; omega)]
      exact ⟨_, rfl⟩
  | inside content opening _ ih =>
      rw [closeGroups_fields content (by omega), closeGroups_startGroup opening (by omega)]
      exact ih (by simp only [List.length_cons]; omega)

def FailsFrom (depth number : Nat) (outer : List Nat) (e : Error) (left bytes : Bytes) : Prop :=
  Misnested depth number e bytes ∨
    ∃ tags inner close after, bytes = inner ++ (close ++ after) ∧ Fields depth tags inner ∧
      Tag.Spelled ⟨number, .endGroup⟩ close ∧ closeGroups outer after = .error e left

theorem FailsFrom.behind {depth number : Nat} {outer : List Nat} {tags : List Tag} {e : Error}
    {first bytes left : Bytes} (h : FailsFrom depth number outer e left bytes)
    (hf : Fields depth tags first) : FailsFrom depth number outer e left (first ++ bytes) := by
  rcases h with hm | ⟨others, inner, close, after, rfl, hinner, hclose, hafter⟩
  · exact .inl (hm.behind hf)
  · exact .inr ⟨_, first ++ inner, close, after, (List.append_assoc ..).symm, hf.append hinner,
      hclose, hafter⟩

theorem failsFrom_of_closeGroups {depth number : Nat} {outer : List Nat} {e : Error}
    {bytes left : Bytes} (room : outer.length + 1 + depth = groupLimit) (he : ¬e.OfToken)
    (h : closeGroups (number :: outer) bytes = .error e left) :
    FailsFrom depth number outer e left bytes := by
  -- what stands behind a nested group is shorter, but no part of the group
  induction hl : bytes.length using Nat.strongRecOn generalizing bytes number outer depth with
  | ind length ih =>
      cases ht : tag bytes with
      | error e' rest =>
          rw [closeGroups_of_error ht] at h
          cases h
          exact absurd (fails_tag ht) he
      | ok t rest =>
          have hlt := length_lt_of_tag ht
          obtain ⟨head, rfl, hhead⟩ := spelled_of_tag ht
          obtain ⟨found, kind⟩ := t
          by_cases hend : kind = .endGroup
          · subst hend
            rw [closeGroups_of_endGroup ht rfl] at h
            split at h
            · next hn =>
                cases hn
                exact .inr ⟨[], [], head, rest, rfl, .nil, hhead, h⟩
            · next hn =>
                cases h
                exact .inl (.mismatch .nil hhead hn)
          by_cases hstart : kind = .startGroup
          · subst hstart
            rw [closeGroups_of_startGroup ht rfl] at h
            split at h
            · next hfull =>
                cases h
                have : depth = 0 := by simp only [List.length_cons] at hfull; omega
                subst this
                exact .inl (.deep .nil hhead)
            · next hroom =>
                simp only [List.length_cons, Nat.not_le] at hroom
                obtain ⟨inside, rfl⟩ : ∃ d, depth = d + 1 := ⟨depth - 1, by omega⟩
                have room' : (number :: outer).length + 1 + inside = groupLimit := by
                  simp only [List.length_cons]
                  omega
                rcases ih rest.length (by omega) room' h rfl with
                  hm | ⟨inners, inner, close, after, rfl, hinner, hclose, hafter⟩
                · exact .inl (.inside .nil hhead hm)
                · have hrest := ih after.length
                    (by simp only [List.length_append] at hlt hl; omega) room hafter rfl
                  simpa only [List.append_assoc] using
                    hrest.behind (.singleGroup hhead hinner hclose)
          · cases hp : plainPayload ⟨found, kind⟩ rest with
            | error e' left' =>
                rw [closeGroups_of_refused ht hstart hend hp] at h
                cases h
                exact absurd (fails_plainPayload hstart hend hp) he
            | ok p left' =>
                have hlp := length_lt_of_plainPayload hp
                rw [closeGroups_of_payload ht hstart hend hp] at h
                obtain ⟨-, used, rfl, hu⟩ := spelled_of_plainPayload hp
                have hrest := ih left'.length (by omega) room h rfl
                simpa only [List.append_assoc] using hrest.behind (.single hhead hu)

theorem skip_eq_ok_iff {t : Tag} {bytes rest : Bytes} :
    skip t bytes = .ok () rest ↔ ∃ p, payload t bytes = .ok p rest := by
  change EStateM.bind (payload t) _ bytes = _ ↔ _
  rw [EStateM.bind]
  cases payload t bytes with
  | ok p left =>
      constructor
      · intro h
        cases h
        exact ⟨p, rfl⟩
      · rintro ⟨p', h⟩
        cases h
        rfl
  | error e left =>
      constructor
      · intro h
        cases h
      · rintro ⟨p', h⟩
        cases h

theorem skip_eq_error_iff {t : Tag} {bytes left : Bytes} {e : Error} :
    skip t bytes = .error e left ↔ payload t bytes = .error e left := by
  change EStateM.bind (payload t) _ bytes = _ ↔ _
  rw [EStateM.bind]
  cases payload t bytes with
  | ok p left =>
      constructor <;> intro h <;> cases h
  | error e left =>
      constructor <;> intro h <;> cases h <;> rfl

theorem skip_of_carries {t : Tag} {used : Bytes} (h : t.Carries groupLimit used) :
    (skip t).Reads () used := by
  intro rest
  obtain ⟨p, hp⟩ := reads_payload h
  exact skip_eq_ok_iff.2 ⟨p, hp rest⟩

theorem payload_malformed_iff {t : Tag} {bytes : Bytes} {e : Error} (he : ¬e.OfToken) :
    (∃ left, payload t bytes = .error e left) ↔
      t.kind = .endGroup ∧ e = strayGroupEnd t.number ∨
        t.kind = .startGroup ∧ Misnested 63 t.number e bytes := by
  by_cases hs : t.kind = .startGroup
  · have room : ([] : List Nat).length + 1 + 63 = groupLimit := rfl
    rw [payload_of_startGroup hs]
    constructor
    · rintro ⟨left, h⟩
      split at h
      · cases h
      · next hc =>
          cases h
          rcases failsFrom_of_closeGroups room he hc with hm | ⟨_, _, _, after, _, _, _, hafter⟩
          · exact .inr ⟨hs, hm⟩
          · rw [closeGroups] at hafter
            cases hafter
    · rintro (⟨hend, -⟩ | ⟨-, hm⟩)
      · rw [hs] at hend
        cases hend
      · obtain ⟨left, hc⟩ := closeGroups_of_misnested hm room
        exact ⟨left, by rw [hc]⟩
  · rw [payload_of_plain hs]
    by_cases hend : t.kind = .endGroup
    · have : plainPayload t = throw (strayGroupEnd t.number) := by simp only [plainPayload, hend]
      rw [this]
      constructor
      · rintro ⟨left, h⟩
        cases h
        exact .inl ⟨hend, rfl⟩
      · rintro (⟨-, rfl⟩ | ⟨hstart, -⟩)
        · exact ⟨bytes, rfl⟩
        · exact absurd hstart hs
    · constructor
      · rintro ⟨left, h⟩
        exact absurd (fails_plainPayload hs hend h) he
      · rintro (⟨h, -⟩ | ⟨h, -⟩)
        · exact absurd h hend
        · exact absurd h hs

theorem skip_exact (t : Tag) (bytes : Bytes) :
    ((∃ rest, skip t bytes = .ok () rest) ↔ ∃ used, used <+: bytes ∧ t.Carries 64 used) ∧
      (∀ used, t.Carries 64 used → ∀ rest, skip t (used ++ rest) = .ok () rest) ∧
      (∀ used other, used <+: bytes → other <+: bytes → t.Carries 64 used → t.Carries 64 other →
        used = other) ∧
      ∀ what, (∃ left, skip t bytes = .error (.malformed what) left) ↔
        t.kind = .endGroup ∧ .malformed what = strayGroupEnd t.number ∨
          t.kind = .startGroup ∧ Misnested 63 t.number (.malformed what) bytes := by
  refine ⟨⟨?_, ?_⟩, fun used hu => skip_of_carries hu, ?_, fun what => ?_⟩
  · rintro ⟨rest, h⟩
    obtain ⟨p, hp⟩ := skip_eq_ok_iff.1 h
    obtain ⟨used, rfl, hu⟩ := carries_of_payload hp
    exact ⟨used, List.prefix_append used rest, hu⟩
  · rintro ⟨used, ⟨rest, rfl⟩, hu⟩
    exact ⟨rest, skip_of_carries hu rest⟩
  · rintro used other ⟨rest, rfl⟩ ⟨more, hm⟩ hu ho
    have hrest := skip_of_carries hu rest
    rw [← hm, skip_of_carries ho more] at hrest
    cases hrest
    exact (List.append_cancel_right hm).symm
  · simp only [skip_eq_error_iff]
    exact payload_malformed_iff id

theorem skip_exact_groups :
    skip ⟨3, .startGroup⟩ [8, 150, 1, 19, 20, 28, 255] = .ok () [255] ∧
      ∃ left, skip ⟨3, .startGroup⟩ [8, 150, 1, 36] =
        .error (.malformed "end group 4 does not match start group 3") left := by
  have spelled {t : Tag} {b : UInt8} (hn : 0 < t.number ∧ t.number ≤ Tag.maxNumber)
      (hb : t.key = b.toNat) (low : b.toNat < 128) : t.Spelled [b] :=
    ⟨hn.1, hn.2, hb ▸ .last low (by simp)⟩
  have number : Varint.Spelled 0 150 [150, 1] :=
    .more (b := 150) (by decide) (by decide) (.last (b := 1) (by decide) (by decide))
  have content {depth : Nat} {tags : List Tag} {rest : Bytes} (others : Fields depth tags rest) :
      Fields depth (⟨1, .varint⟩ :: tags) ([8] ++ ([150, 1] ++ rest)) :=
    .plain (spelled (by decide) rfl (by decide)) (.varint number) others
  have empty : Fields 63 [⟨2, .startGroup⟩] ([19] ++ ([] ++ ([20] ++ []))) :=
    .group (spelled (by decide) rfl (by decide)) .nil (spelled (by decide) rfl (by decide)) .nil
  constructor
  · exact (skip_exact _ []).2.1 _
      (.group (content empty) (spelled (b := 28) (by decide) rfl (by decide))) [255]
  · refine ((skip_exact _ _).2.2.2 _).2 (.inr ⟨rfl, ?_⟩)
    have other : Tag.Spelled ⟨4, .endGroup⟩ [36] := spelled (by decide) rfl (by decide)
    exact .mismatch (content .nil) other (by decide)

end Reader

end SchemaRpc
