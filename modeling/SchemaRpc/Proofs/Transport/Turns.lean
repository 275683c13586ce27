import SchemaRpc.Proofs.Transport.Numbering
import SchemaRpc.Proofs.Transport.Offers

namespace SchemaRpc

namespace Call

def IsUnposted (c : Call) : Prop :=
  c.stage = .registered ∨ c.stage = .sending

inductive CanReturn (c : Call) : Except Error Bytes → Prop
  | unsent (e : Error) (stage : c.stage = .unsent e) : CanReturn c (.error e)
  | item (item : Except Error Bytes) (stage : c.stage = .awaiting) (came : item ∈ c.inbox) :
      CanReturn c item
  | closed (stage : c.stage = .awaiting) : CanReturn c (.error .connectionClosed)

def Cancels (c : Call) (frames : List Frame) : Prop :=
  ∀ f ∈ frames, f = .ofKind .cancel c.id [] ∧ c.id ≠ 0

inductive Turn (c : Call) (p : Bool) : Call → Bool → List Frame → Prop
  | posts (unposted : c.IsUnposted) : Turn c p c.sent p [c.frame]
  | waits (stage : c.stage = .registered) : Turn c p { c with stage := .sending } p []
  | refused (unposted : c.IsUnposted) (e : Error) (cause : Outbox.Refuses e) :
      Turn c p { c with stage := .unsent e } false []
  | returns (result : Except Error Bytes) (p' : Bool) (frames : List Frame)
      (source : c.CanReturn result) (cancels : c.Cancels frames) :
      Turn c p { c with isGuarded := false, stage := .returned result, isHeard := false } p' frames
  | leaves (stage : Stage) (inbox : List (Except Error Bytes)) (isGuarded p' : Bool)
      (frames : List Frame) (last : stage = .dropped ∨ stage = .streaming ∧ c.stage = .streaming)
      (left : ∀ item ∈ inbox, item ∈ c.inbox) (cancels : c.Cancels frames) :
      Turn c p
        { c with stage := stage, inbox := inbox, isGuarded := isGuarded, isHeard := false } p' frames

end Call

namespace Session

def InLine (s : Session) : Prop :=
  ∀ w ∈ s.outbox.waiting, ∃ c, s.calls[w.ticket]? = some c ∧ c.stage = .sending ∧ w.frame = c.frame

inductive Moves (k : Nat) (s s' : Session) : Prop
  | rest (same : s' = s)
  | turn (c c' : Call) (p p' : Bool) (frames : List Frame) (before : s.standing k = some (c, p))
      (after : s'.standing k = some (c', p')) (acts : Acts k s s' frames) (turn : c.Turn p c' p' frames)
      (line : ∀ w ∈ s'.outbox.waiting, w ∈ s.outbox.waiting ∧ w.ticket ≠ k ∨
        w.ticket = k ∧ c'.stage = .sending ∧ w.frame = c'.frame)

variable {s : Session} {k : Nat} {c : Call} {p : Bool}

theorem InLine.other (h : s.InLine) (hc : s.calls[k]? = some c) (hs : c.stage ≠ .sending) :
    ∀ w ∈ s.outbox.waiting, w ∈ s.outbox.waiting ∧ w.ticket ≠ k := by
  intro w hw
  refine ⟨hw, fun he => ?_⟩
  obtain ⟨d, hd, hstage, -⟩ := h w hw
  rw [he, hc] at hd
  cases hd
  exact hs hstage

theorem refuse_eq (hc : s.calls[k]? = some c) (e : Error) :
    s.refuse k e = (s.release c.id).modifyCall k fun c => { c with stage := .unsent e } := by
  rw [refuse, hc]

theorem outbox_refuse (hc : s.calls[k]? = some c) (e : Error) : (s.refuse k e).outbox = s.outbox := by
  rw [refuse_eq hc]
  rfl

theorem acts_refuse (h : s.Numbered) (hc : s.calls[k]? = some c) (e : Error) :
    Acts k s (s.refuse k e) [] ∧
      (s.refuse k e).standing k = some ({ c with stage := .unsent e }, false) := by
  rw [refuse_eq hc]
  have hr := Acts.release h hc
  exact ⟨hr.trans (.modifyCall hr.numbered k fun _ => rfl),
    standing_modifyCall (fun _ => rfl) (standing_release h hc)⟩

theorem moves_post (h : s.Numbered) (hl : s.InLine) (k now : Nat) : Moves k s (s.post k now) := by
  unfold post
  cases hc : s.calls[k]? with
  | none => exact .rest rfl
  | some c =>
      cases hs : c.stage with
      | registered =>
          have hline := hl.other hc (by rw [hs]; nofun)
          have hstand := standing_of_call hc
          have hoffer := s.outbox.offered k c.frame now
          simp only [hs]
          generalize s.outbox.offer k c.frame now = answer at hoffer ⊢
          cases hoffer with
          | queued =>
              have hq : Acts k s (s.withOutbox (s.outbox.enqueue c.frame)) [c.frame] :=
                .withOutbox h k rfl
              refine .turn c c.sent _ _ [c.frame] hstand ?_
                (hq.trans (.modifyCall hq.numbered k (f := .sent) fun _ => rfl)) (.posts (.inl hs))
                fun w hw => .inl (hline w hw)
              exact standing_modifyCall (fun _ => rfl) hstand
          | waits deadline =>
              have hq : Acts k s (s.withOutbox
                  { s.outbox with waiting := s.outbox.waiting ++ [⟨k, c.frame, deadline⟩] }) [] :=
                .withOutbox h k (List.append_nil _).symm
              refine .turn c { c with stage := .sending } _ _ [] hstand ?_
                (hq.trans (.modifyCall hq.numbered k fun _ => rfl)) (.waits hs) fun w hw => ?_
              · exact standing_modifyCall (fun _ => rfl) hstand
              · rcases List.mem_append.1 hw with hw | hw
                · exact .inl (hline w hw)
                · obtain rfl := List.mem_singleton.1 hw
                  exact .inr ⟨rfl, rfl, rfl⟩
          | refused e cause =>
              obtain ⟨ha, hr⟩ := acts_refuse h hc e
              refine .turn c _ _ _ [] hstand hr ha (.refused (.inl hs) e cause) fun w hw => ?_
              change w ∈ (s.refuse k e).outbox.waiting at hw
              rw [outbox_refuse hc] at hw
              exact .inl (hline w hw)
      | _ => exact .rest (by simp only [hs])

theorem moves_resumeSending (h : s.Numbered) (hl : s.InLine) (k now : Nat) :
    Moves k s (s.resumeSending k now) := by
  unfold resumeSending
  cases hr : s.outbox.resume? k now with
  | none => exact .rest rfl
  | some answer =>
      obtain ⟨w, hw, rfl, hresumed⟩ := Outbox.resumed hr
      obtain ⟨c, hc, hs, hf⟩ := hl w hw
      have hstand := standing_of_call hc
      have hline : ∀ v ∈ (s.outbox.withdraw w.ticket).waiting,
          v ∈ s.outbox.waiting ∧ v.ticket ≠ w.ticket := fun v hv => Outbox.mem_withdraw.1 hv
      cases hresumed with
      | queued =>
          have hq : Acts w.ticket s
              (s.withOutbox ((s.outbox.withdraw w.ticket).enqueue w.frame)) [c.frame] :=
            .withOutbox h w.ticket (by rw [hf]; rfl)
          refine .turn c c.sent _ _ [c.frame] hstand ?_
            (hq.trans (.modifyCall hq.numbered w.ticket (f := .sent) fun _ => rfl))
            (.posts (.inr hs)) fun v hv => .inl (hline v hv)
          exact standing_modifyCall (fun _ => rfl) hstand
      | refused e cause =>
          have hq : Acts w.ticket s (s.withOutbox (s.outbox.withdraw w.ticket)) [] :=
            .withOutbox h w.ticket (List.append_nil _).symm
          have hc' : (s.withOutbox (s.outbox.withdraw w.ticket)).calls[w.ticket]? = some c := hc
          obtain ⟨ha, hstand'⟩ := acts_refuse hq.numbered hc' e
          refine .turn c _ _ _ [] hstand hstand' (hq.trans ha) (.refused (.inr hs) e cause)
            fun v hv => ?_
          change v ∈ ((s.withOutbox (s.outbox.withdraw w.ticket)).refuse w.ticket e).outbox.waiting
            at hv
          rw [outbox_refuse hc'] at hv
          exact .inl (hline v hv)

theorem acts_dropGuard (h : s.Numbered) (hc : s.standing k = some (c, p)) :
    ∃ frames p', Acts k s (s.dropGuard k) frames ∧
      (s.dropGuard k).standing k = some ({ c with isGuarded := false }, p') ∧ c.Cancels frames ∧
      (s.dropGuard k).outbox.waiting = s.outbox.waiting := by
  have hcall := call_of_standing hc
  unfold dropGuard
  simp only [hcall]
  by_cases hg : c.isGuarded = true
  · have hm := Acts.modifyCall h k (f := fun c => { c with isGuarded := false }) fun _ => rfl
    have hs := standing_modifyCall (f := fun c => { c with isGuarded := false }) (fun _ => rfl) hc
    simp only [hg, Bool.not_true, Bool.false_eq_true, if_false]
    split
    · next htaken =>
        have hne : c.id ≠ 0 := by
          have ht : (Assoc.get? c.id.toNat s.pending).isSome = true := htaken
          obtain ⟨j, hj⟩ := Option.isSome_iff_exists.1 ht
          obtain ⟨-, -, -, hne⟩ := h.call_of_pending hj
          exact hne
        have hr := Acts.release hm.numbered (call_of_standing hs)
        have hstand := standing_release hm.numbered (call_of_standing hs)
        obtain ⟨frames, hframes, hqueue, hwaiting⟩ := s.outbox.posted (.ofKind .cancel c.id [])
        exact ⟨frames, false, (hm.trans hr).trans (.withOutbox hr.numbered k hqueue), hstand,
          fun f hf => ⟨hframes f hf, hne⟩, hwaiting⟩
    · exact ⟨[], p, hm, hs, nofun, rfl⟩
  · simp only [Bool.not_eq_true] at hg
    simp only [hg, Bool.not_false, if_true]
    refine ⟨[], p, .refl h k, ?_, nofun, trivial⟩
    rw [hc, ← hg]

theorem moves_giveBack (h : s.Numbered) (hl : s.InLine) (hc : s.standing k = some (c, p))
    {result : Except Error Bytes} (source : c.CanReturn result) :
    Moves k s (s.giveBack k result) := by
  obtain ⟨frames, p', ha, hs, hcancels, hw⟩ := acts_dropGuard h hc
  have hn : c.stage ≠ .sending := by
    intro he
    cases source with
    | unsent e stage => rw [he] at stage; cases stage
    | item item stage _ => rw [he] at stage; cases stage
    | closed stage => rw [he] at stage; cases stage
  have hm := ha.trans (.modifyCall ha.numbered k
    (f := fun c => { c with stage := .returned result, isHeard := false }) fun _ => rfl)
  rw [List.append_nil] at hm
  refine .turn c _ p p' frames hc (standing_modifyCall (fun _ => rfl) hs) hm
    (.returns result p' frames source hcancels) fun w hw' => .inl ?_
  change w ∈ (s.dropGuard k).outbox.waiting at hw'
  rw [hw] at hw'
  exact hl.other (call_of_standing hc) hn w hw'

theorem moves_resume (h : s.Numbered) (hl : s.InLine) (k : Nat) : Moves k s (s.resume k) := by
  unfold resume
  cases hc : s.calls[k]? with
  | none => exact .rest rfl
  | some c =>
      have hstand := standing_of_call hc
      cases hs : c.stage with
      | unsent e =>
          simp only [hs]
          exact moves_giveBack h hl hstand (.unsent e hs)
      | awaiting =>
          cases hi : c.inbox with
          | nil =>
              simp only [hs, hi]
              split
              · exact .rest rfl
              · exact moves_giveBack h hl hstand (.closed hs)
          | cons item rest =>
              simp only [hs, hi]
              exact moves_giveBack h hl hstand (.item item hs (hi ▸ List.mem_cons_self))
      | _ => exact .rest (by simp only [hs])

theorem moves_dropReceiver (h : s.Numbered) (hl : s.InLine) (hc : s.calls[k]? = some c)
    (hs : c.stage = .streaming) : Moves k s (s.dropReceiver k) := by
  have hstand := standing_of_call hc
  refine .turn c { c with isHeard := false, inbox := [] } _ (s.isPending k c) [] hstand ?_
    (.modifyCall h k fun _ => rfl) ?_ fun w hw => .inl (hl.other hc (by rw [hs]; nofun) w hw)
  · exact standing_modifyCall (f := fun c => { c with isHeard := false, inbox := [] })
      (fun _ => rfl) hstand
  · exact .leaves c.stage [] c.isGuarded _ [] (.inr ⟨hs, hs⟩) nofun nofun

theorem moves_dropGuard (h : s.Numbered) (hl : s.InLine) (hc : s.calls[k]? = some c)
    (hs : c.stage = .streaming) (hu : c.isHeard = false) : Moves k s (s.dropGuard k) := by
  have hstand := standing_of_call hc
  obtain ⟨frames, p', ha, hafter, hcancels, hw⟩ := acts_dropGuard h hstand
  have hturn : c.Turn (s.isPending k c) { c with isGuarded := false, isHeard := false } p' frames :=
    .leaves c.stage c.inbox false p' frames (.inr ⟨hs, hs⟩) (fun _ hi => hi) hcancels
  have he : { c with isGuarded := false, isHeard := false } = { c with isGuarded := false } := by
    rw [← hu]
  rw [he] at hturn
  refine .turn c _ _ p' frames hstand hafter ha hturn fun w hw' => .inl ?_
  rw [hw] at hw'
  exact hl.other hc (by rw [hs]; nofun) w hw'

theorem moves_drop_streaming (h : s.Numbered) (hl : s.InLine) (hc : s.calls[k]? = some c)
    (hs : c.stage = .streaming) :
    Moves k s
      (((s.dropReceiver k).dropGuard k).modifyCall k fun c => { c with stage := .dropped }) := by
  have hstand := standing_of_call hc
  have hr : Acts k s (s.dropReceiver k) [] := .modifyCall h k fun _ => rfl
  have hunheard : (s.dropReceiver k).standing k =
      some ({ c with isHeard := false, inbox := [] }, s.isPending k c) :=
    standing_modifyCall (f := fun c => { c with isHeard := false, inbox := [] })
      (fun _ => rfl) hstand
  obtain ⟨frames, p', ha, hafter, hcancels, hw⟩ := acts_dropGuard hr.numbered hunheard
  have hm := (hr.trans ha).trans (.modifyCall ha.numbered k
    (f := fun c => { c with stage := .dropped }) fun _ => rfl)
  rw [List.nil_append, List.append_nil] at hm
  refine .turn c _ _ p' frames hstand (standing_modifyCall (fun _ => rfl) hafter) hm
    (.leaves .dropped [] false p' frames (.inl rfl) nofun hcancels) fun w hw' => .inl ?_
  change w ∈ ((s.dropReceiver k).dropGuard k).outbox.waiting at hw'
  rw [hw] at hw'
  exact hl.other hc (by rw [hs]; nofun) w hw'

theorem moves_drop_early (h : s.Numbered) (hc : s.calls[k]? = some c) :
    Moves k s (((s.withdraw k).dropGuard k).modifyCall k fun c =>
      { c with stage := .dropped, isHeard := false, inbox := [] }) := by
  have hstand := standing_of_call hc
  have hwithdrawn : Acts k s (s.withdraw k) [] := .withOutbox h k (List.append_nil _).symm
  have hstill : (s.withdraw k).standing k = some (c, s.isPending k c) := hstand
  obtain ⟨frames, p', ha, hafter, hcancels, hw⟩ := acts_dropGuard hwithdrawn.numbered hstill
  have hm := (hwithdrawn.trans ha).trans (.modifyCall ha.numbered k
    (f := fun c => { c with stage := .dropped, isHeard := false, inbox := [] }) fun _ => rfl)
  rw [List.nil_append, List.append_nil] at hm
  refine .turn c _ _ p' frames hstand (standing_modifyCall (fun _ => rfl) hafter) hm
    (.leaves .dropped [] false p' frames (.inl rfl) nofun hcancels) fun w hw' => .inl ?_
  change w ∈ ((s.withdraw k).dropGuard k).outbox.waiting at hw'
  rw [hw] at hw'
  exact Outbox.mem_withdraw.1 hw'

theorem moves_drop (h : s.Numbered) (hl : s.InLine) (k : Nat) : Moves k s (s.drop k) := by
  unfold drop
  cases hc : s.calls[k]? with
  | none => exact .rest rfl
  | some c =>
      simp only [Option.map_some]
      cases hs : c.stage with
      | returned result => exact .rest rfl
      | dropped => exact .rest rfl
      | streaming => exact moves_drop_streaming h hl hc hs
      | _ => exact moves_drop_early h hc

end Session

end SchemaRpc
