import SchemaRpc.Proofs.Transport.Demultiplexing

namespace SchemaRpc

namespace Call

inductive Returns (c : Call) (p : Bool) : Except Error Bytes → Prop
  | unsent (e : Error) (stage : c.stage = .unsent e) : Returns c p (.error e)
  | item (item : Except Error Bytes) (rest : List (Except Error Bytes)) (stage : c.stage = .awaiting)
      (inbox : c.inbox = item :: rest) : Returns c p item
  | closed (stage : c.stage = .awaiting) (inbox : c.inbox = []) (finished : p = false) :
      Returns c p (.error .connectionClosed)

inductive Moved (c : Call) (p : Bool) : Call → List (Except Error Bytes) → Prop
  | posts (unposted : c.IsUnposted) : Moved c p c.sent []
  | waits (stage : c.stage = .registered) : Moved c p { c with stage := .sending } []
  | refused (unposted : c.IsUnposted) (e : Error) (cause : Outbox.Refuses e) :
      Moved c p { c with stage := .unsent e } []
  | returns (isGuarded : Bool) (result : Except Error Bytes) (source : c.Returns p result) :
      Moved c p
        { c with isGuarded := isGuarded, stage := .returned result, isHeard := false } []
  | takes (item : Except Error Bytes) (rest : List (Except Error Bytes)) (stage : c.stage = .streaming)
      (inbox : c.inbox = item :: rest) : Moved c p { c with inbox := rest } [item]
  | deafens (stage : c.stage = .streaming) : Moved c p { c with isHeard := false, inbox := [] } []
  | unguards (isGuarded : Bool) (stage : c.stage = .streaming) :
      Moved c p { c with isGuarded := isGuarded } []
  | drops (isGuarded : Bool) (held : ∀ result, c.stage ≠ .returned result)
      (here : c.stage ≠ .dropped) :
      Moved c p
        { c with isHeard := false, inbox := [], isGuarded := isGuarded, stage := .dropped } []

def isOver (c : Call) : Bool :=
  match c.stage with
  | .returned _ | .dropped => true
  | _ => false

theorem sent_ne_sending (c : Call) : c.sent.stage ≠ .sending := by
  unfold sent
  cases c.style <;> nofun

theorem Returns.ne_sending {c : Call} {p : Bool} {result : Except Error Bytes}
    (h : c.Returns p result) : c.stage ≠ .sending := by
  intro hs
  cases h with
  | unsent e stage => rw [hs] at stage; cases stage
  | item item rest stage _ => rw [hs] at stage; cases stage
  | closed stage _ _ => rw [hs] at stage; cases stage

variable {c c' : Call} {items : List (Except Error Bytes)} {p : Bool}

theorem Moved.id (h : c.Moved p c' items) : c'.id = c.id := by
  cases h <;> rfl

theorem Moved.style (h : c.Moved p c' items) : c'.style = c.style := by
  cases h <;> rfl

theorem Moved.inbox (h : c.Moved p c' items) : items ++ c'.inbox <+: c.inbox := by
  cases h <;> simp_all [sent]

theorem Moved.not_isOver (h : c.Moved p c' items) : c.isOver = false := by
  cases h with
  | posts unposted => rcases unposted with hs | hs <;> rw [isOver, hs]
  | waits stage => rw [isOver, stage]
  | refused unposted e cause => rcases unposted with hs | hs <;> rw [isOver, hs]
  | returns isGuarded r source => cases source <;> simp_all [isOver]
  | takes item rest stage inbox => rw [isOver, stage]
  | deafens stage => rw [isOver, stage]
  | unguards isGuarded stage => rw [isOver, stage]
  | drops isGuarded held here =>
      cases hs : c.stage with
      | returned r => exact absurd hs (held r)
      | dropped => exact absurd hs here
      | _ => rw [isOver, hs]

theorem Moved.single (h : c.Moved p c' items) (style : c.style = .unary) (hs : c.stage ≠ .streaming) :
    c'.stage ≠ .streaming ∧ items = [] := by
  cases h with
  | posts unposted =>
      rw [sent, style]
      exact ⟨by simp, rfl⟩
  | takes item rest stage inbox => exact absurd stage hs
  | deafens stage => exact absurd stage hs
  | unguards isGuarded stage => exact absurd stage hs
  | _ => exact ⟨by simp, rfl⟩

theorem Moved.deaf (h : c.Moved p c' items) (finished : c'.isOver = true) : c'.isHeard = false := by
  cases h with
  | posts unposted => cases hs : c.style <;> simp [isOver, sent, hs] at finished
  | takes item rest stage inbox => simp [isOver, stage] at finished
  | unguards isGuarded stage => simp [isOver, stage] at finished
  | waits stage => cases finished
  | refused unposted e cause => cases finished
  | _ => rfl

theorem deliver_of_unheard (h : c.isHeard = false) (item : Except Error Bytes) : c.deliver item = c := by
  rw [deliver, h]
  exact if_neg Bool.false_ne_true

theorem isHeard_deliver (c : Call) (item : Except Error Bytes) :
    (c.deliver item).isHeard = c.isHeard := by
  unfold deliver
  split <;> rfl

theorem isOver_deliver (c : Call) (item : Except Error Bytes) : (c.deliver item).isOver = c.isOver := by
  rw [isOver, stage_deliver, isOver]

end Call

namespace Session

def Queues (s : Session) (k : Nat) : Prop :=
  ∃ w ∈ s.outbox.waiting, w.ticket = k

def Aligned (s : Session) : Prop :=
  ∀ k, s.Queues k ↔ ∃ c, s.calls[k]? = some c ∧ c.stage = .sending

theorem stage_of_bare {s s' : Session} (bare : s'.calls.map Call.bare = s.calls.map Call.bare)
    (k : Nat) : s'.calls[k]?.map Call.stage = s.calls[k]?.map Call.stage := by
  have hk := congrArg (Option.map Call.stage) (congrArg (·[k]?) bare)
  simp only [List.getElem?_map, Option.map_map] at hk
  exact hk

theorem Aligned.of_bare {s s' : Session} (h : s.Aligned)
    (bare : s'.calls.map Call.bare = s.calls.map Call.bare)
    (waiting : s'.outbox.waiting = s.outbox.waiting) : s'.Aligned := by
  intro k
  rw [Queues, waiting, ← Queues, h k, ← Option.map_eq_some_iff, ← Option.map_eq_some_iff,
    stage_of_bare bare]

inductive Turned (k : Nat) (s s' : Session) (items : List (Except Error Bytes)) : Prop
  | rest (same : s' = s) (nothing : items = [])
  | turn (c c' : Call) (before : s.calls[k]? = some c) (after : s'.calls[k]? = some c')
      (moved : c.Moved (s.isPending k c) c' items) (confined : Confined k s s')
      (isClosed : s'.isClosed = s.isClosed) (others : ∀ i, i ≠ k → (s'.Queues i ↔ s.Queues i))
      (own : s'.Queues k ↔ c'.stage = .sending)

variable {s s' : Session} {k : Nat} {c c' : Call} {items : List (Except Error Bytes)}

theorem Aligned.not_queues (line : s.Aligned) (hc : s.calls[k]? = some c) (hs : c.stage ≠ .sending) :
    ¬s.Queues k := by
  rw [line k, hc]
  rintro ⟨d, hd, stage⟩
  cases hd
  exact hs stage

theorem Aligned.apart (line : s.Aligned) (hc : s.calls[k]? = some c) (hs : c.stage ≠ .sending) :
    ∀ w, w ∈ s.outbox.waiting ↔ w ∈ s.outbox.waiting ∧ w.ticket ≠ k :=
  fun w => ⟨fun hw => ⟨hw, fun he => line.not_queues hc hs ⟨w, hw, he⟩⟩, And.left⟩

theorem Turned.away (before : s.calls[k]? = some c) (after : s'.calls[k]? = some c')
    (moved : c.Moved (s.isPending k c) c' items) (confined : Confined k s s')
    (isClosed : s'.isClosed = s.isClosed) (stage : c'.stage ≠ .sending)
    (line : ∀ w, w ∈ s'.outbox.waiting ↔ w ∈ s.outbox.waiting ∧ w.ticket ≠ k) :
    Turned k s s' items := by
  refine .turn c c' before after moved confined isClosed (fun i hi => ?_) ?_
  · constructor
    · rintro ⟨w, hw, rfl⟩
      exact ⟨w, ((line w).1 hw).1, rfl⟩
    · rintro ⟨w, hw, rfl⟩
      exact ⟨w, (line w).2 ⟨hw, hi⟩, rfl⟩
  · refine ⟨?_, fun hs => absurd hs stage⟩
    rintro ⟨w, hw, rfl⟩
    exact absurd rfl ((line w).1 hw).2

theorem Turned.aligned (h : Turned k s s' items) (line : s.Aligned) : s'.Aligned := by
  cases h with
  | rest same nothing => exact same ▸ line
  | turn c c' before after moved confined isClosed others own =>
      intro j
      by_cases hj : j = k
      · subst hj
        rw [own, after]
        simp
      · rw [others j hj, confined.others j hj]
        exact line j

theorem Turned.isClosed (t : Turned k s s' items) : s'.isClosed = s.isClosed := by
  cases t with
  | rest same nothing => rw [same]
  | turn c c' before after moved confined isClosed others own => exact isClosed

theorem Confined.isPending {j : Nat} (h : Confined j s s') (same : c'.id = c.id)
    (pending : s'.isPending k c' = true) : s.isPending k c = true := by
  rw [Session.isPending, beq_iff_eq, same] at pending
  exact beq_iff_eq.2 (h.kept pending)

theorem Confined.empty (h : Confined k s s') (empty : s.pending = []) : s'.pending = [] := by
  cases hp : s'.pending with
  | nil => rfl
  | cons entry rest =>
      have hget : Assoc.get? entry.1 s'.pending = some entry.2 := by
        rw [hp, Assoc.get?, if_pos rfl]
      have before := h.kept hget
      rw [empty] at before
      cases before

theorem isPending_of_empty (empty : s.pending = []) (k : Nat) (c : Call) :
    s.isPending k c = false := by
  rw [isPending, empty]
  rfl

theorem frame_refuse (s : Session) (k : Nat) (e : Error) :
    (s.refuse k e).isClosed = s.isClosed ∧ (s.refuse k e).outlet = s.outlet := by
  unfold refuse
  split <;> exact ⟨rfl, rfl⟩

theorem isClosed_dropGuard (s : Session) (k : Nat) : (s.dropGuard k).isClosed = s.isClosed := by
  unfold dropGuard
  split
  · rfl
  · split
    · rfl
    · simp only
      split <;> rfl

theorem waiting_dropGuard (s : Session) (k : Nat) :
    (s.dropGuard k).outbox.waiting = s.outbox.waiting := by
  unfold dropGuard
  split
  · rfl
  · next c _ =>
      split
      · rfl
      · simp only
        split
        · obtain ⟨_, _, _, waiting⟩ := s.outbox.posted (.ofKind .cancel c.id [])
          exact waiting
        · rfl

theorem turned_post (h : s.Linked) (line : s.Aligned) (k now : Nat) :
    Turned k s (s.post k now) [] := by
  have confined := confined_post h k now
  unfold post at confined ⊢
  cases hc : s.calls[k]? with
  | none => exact .rest rfl rfl
  | some c =>
      cases hs : c.stage with
      | registered =>
          have apart := line.apart hc (by simp [hs])
          have hoffer := s.outbox.offered k c.frame now
          simp only [hc, hs] at confined ⊢
          generalize s.outbox.offer k c.frame now = answer at hoffer confined ⊢
          cases hoffer with
          | queued =>
              exact .away hc (call_modifyCall hc .sent) (.posts (.inl hs)) confined rfl c.sent_ne_sending
                apart
          | waits deadline =>
              refine .turn c _ hc (call_modifyCall hc _) (.waits hs) confined rfl (fun i hi => ?_) ?_
              · simp [Queues, outbox, modifyCall, withOutbox, or_and_right, exists_or, hi.symm]
              · exact iff_of_true ⟨⟨k, c.frame, deadline⟩, List.mem_concat_self, rfl⟩ rfl
          | refused e cause =>
              refine .away hc (call_refuse hc e) (.refused (.inl hs) e cause) confined
                (frame_refuse _ k e).1 (by simp) fun w => ?_
              rw [outbox, (frame_refuse _ k e).2]
              exact apart w
      | _ => exact .rest (by simp only [hs]) rfl

theorem turned_resumeSending (h : s.Linked) (line : s.Aligned) (k now : Nat) :
    Turned k s (s.resumeSending k now) [] := by
  have confined := confined_resumeSending h k now
  unfold resumeSending at confined ⊢
  cases hr : s.outbox.resume? k now with
  | none => exact .rest rfl rfl
  | some answer =>
      obtain ⟨w, hw, ht, hresumed⟩ := Outbox.resumed hr
      obtain ⟨c, hc, hs⟩ := (line k).1 ⟨w, hw, ht⟩
      rw [hr] at confined
      cases hresumed with
      | queued =>
          refine .away hc (call_modifyCall hc .sent) (.posts (.inr hs)) confined rfl c.sent_ne_sending
            fun v => ?_
          rw [← ht]
          exact Outbox.mem_withdraw
      | refused e cause =>
          simp only at confined ⊢
          refine .away hc (call_refuse (s := s.withOutbox (s.outbox.withdraw w.ticket)) hc e)
            (.refused (.inr hs) e cause) confined (frame_refuse _ k e).1 nofun fun v => ?_
          rw [outbox, (frame_refuse _ k e).2, ← ht]
          exact Outbox.mem_withdraw

theorem turned_giveBack (h : s.Linked) (line : s.Aligned) (hc : s.calls[k]? = some c)
    {result : Except Error Bytes} (source : c.Returns (s.isPending k c) result) :
    Turned k s (s.giveBack k result) [] := by
  obtain ⟨guarded, hg⟩ := call_dropGuard hc
  refine .away hc (call_modifyCall hg _) (.returns guarded result source) (confined_giveBack h k result)
    (isClosed_dropGuard s k) nofun fun w => ?_
  change w ∈ (s.dropGuard k).outbox.waiting ↔ _
  rw [waiting_dropGuard]
  exact line.apart hc source.ne_sending w

theorem turned_resume (h : s.Linked) (line : s.Aligned) (k : Nat) : Turned k s (s.resume k) [] := by
  unfold resume
  cases hc : s.calls[k]? with
  | none => exact .rest rfl rfl
  | some c =>
      cases hs : c.stage with
      | unsent e =>
          simp only [hs]
          exact turned_giveBack h line hc (.unsent e hs)
      | awaiting =>
          cases hi : c.inbox with
          | nil =>
              cases hp : s.isPending k c with
              | true =>
                  simp only [hs, hi, hp, if_true]
                  exact .rest rfl rfl
              | false =>
                  simp only [hs, hi, hp, Bool.false_eq_true, if_false]
                  exact turned_giveBack h line hc (.closed hs hi hp)
          | cons item rest =>
              simp only [hs, hi]
              exact turned_giveBack h line hc (.item item rest hs hi)
      | _ => exact .rest (by simp only [hs]) rfl

theorem turned_next (h : s.Linked) (line : s.Aligned) {item : Except Error Bytes}
    (took : s.next k = (s', .item item)) : Turned k s s' [item] := by
  have confined := confined_next h k
  rw [took] at confined
  unfold next at took
  cases hc : s.calls[k]? with
  | none => rw [hc] at took; cases took
  | some c =>
      rw [hc] at took
      cases hs : c.stage with
      | streaming =>
          cases hi : c.inbox with
          | nil =>
              simp only [hs, hi] at took
              split at took <;> cases took
          | cons first rest =>
              simp only [hs, hi] at took
              cases took
              exact .away hc (call_modifyCall hc _) (.takes item rest hs hi) confined rfl
                (by rw [hs]; nofun) (line.apart hc (by rw [hs]; nofun))
      | _ =>
          simp only [hs] at took
          cases took

theorem turned_dropReceiver (h : s.Linked) (line : s.Aligned) (hc : s.calls[k]? = some c)
    (hs : c.stage = .streaming) : Turned k s (s.dropReceiver k) [] :=
  .away hc (call_modifyCall hc _) (.deafens hs) (confined_dropReceiver h k) rfl (by rw [hs]; nofun)
    (line.apart hc (by rw [hs]; nofun))

theorem turned_dropGuard (h : s.Linked) (line : s.Aligned) (hc : s.calls[k]? = some c)
    (hs : c.stage = .streaming) : Turned k s (s.dropGuard k) [] := by
  obtain ⟨guarded, hg⟩ := call_dropGuard hc
  refine .away hc hg (.unguards guarded hs) (confined_dropGuard h k) (isClosed_dropGuard s k)
    (by rw [hs]; nofun) fun w => ?_
  rw [waiting_dropGuard]
  exact line.apart hc (by rw [hs]; nofun) w

theorem turned_drop_streaming (h : s.Linked) (line : s.Aligned) (hc : s.calls[k]? = some c)
    (hs : c.stage = .streaming) :
    Turned k s
      (((s.dropReceiver k).dropGuard k).modifyCall k fun c => { c with stage := .dropped }) [] := by
  have deaf := confined_dropReceiver h k
  have unguarded := deaf.trans (confined_dropGuard deaf.linked k)
  obtain ⟨guarded, hg⟩ := call_dropGuard (s := s.dropReceiver k) (call_modifyCall hc _)
  refine .away hc (call_modifyCall hg _) (.drops guarded (by rw [hs]; nofun) (by rw [hs]; nofun))
    (unguarded.trans (.modifyCall unguarded.linked k fun _ => rfl))
    (isClosed_dropGuard (s.dropReceiver k) k) nofun fun w => ?_
  change w ∈ ((s.dropReceiver k).dropGuard k).outbox.waiting ↔ _
  rw [waiting_dropGuard]
  exact line.apart hc (by rw [hs]; nofun) w

theorem turned_drop_early (h : s.Linked) (hc : s.calls[k]? = some c)
    (held : ∀ result, c.stage ≠ .returned result) (here : c.stage ≠ .dropped) :
    Turned k s (((s.withdraw k).dropGuard k).modifyCall k fun c =>
      { c with stage := .dropped, isHeard := false, inbox := [] }) [] := by
  have withdrawn := Confined.withOutbox h k (s.outbox.withdraw k)
  have unguarded := withdrawn.trans (confined_dropGuard withdrawn.linked k)
  obtain ⟨guarded, hg⟩ := call_dropGuard (s := s.withdraw k) hc
  refine .away hc (call_modifyCall hg _) (.drops guarded held here)
    (unguarded.trans (.modifyCall unguarded.linked k fun _ => rfl))
    (isClosed_dropGuard (s.withdraw k) k) nofun fun w => ?_
  change w ∈ ((s.withdraw k).dropGuard k).outbox.waiting ↔ _
  rw [waiting_dropGuard]
  exact Outbox.mem_withdraw

theorem turned_drop (h : s.Linked) (line : s.Aligned) (k : Nat) : Turned k s (s.drop k) [] := by
  unfold drop
  cases hc : s.calls[k]? with
  | none => exact .rest rfl rfl
  | some c =>
      simp only [Option.map_some]
      cases hs : c.stage with
      | returned result => exact .rest rfl rfl
      | dropped => exact .rest rfl rfl
      | streaming => exact turned_drop_streaming h line hc hs
      | _ => exact turned_drop_early h hc (by rw [hs]; nofun) (by rw [hs]; nofun)

inductive Routed (s s' : Session) : Prop
  | rest (same : s' = s)
  | came (k : Nat) (c : Call) (item : Option (Except Error Bytes)) (before : s.calls[k]? = some c)
      (pending : s.isPending k c = true) (after : s'.calls[k]? = some ((item.map c.deliver).getD c))
      (confined : Confined k s s') (isClosed : s'.isClosed = s.isClosed) (outlet : s'.outlet = s.outlet)
      (still : s'.isPending k c = true →
        c.style = .serverStreaming ∧ ∃ message, item = some (.ok message))

theorem isPending_release (h : s.Linked) (c : Call) (k : Nat) :
    (s.release c.id).isPending k c = false := by
  rw [isPending, release, Assoc.get?_erase h.ascending, if_pos rfl]
  rfl

theorem routed_endCall (h : s.Linked) (hc : s.calls[k]? = some c) (pending : s.isPending k c = true)
    (kind : FrameKind) {f : Frame} (hid : f.id = c.id) : Routed s (s.endCall k c kind f) := by
  have confined := confined_endCall h hc kind hid
  have finished : ∀ {p : Prop}, (s.release c.id).isPending k c = true → p := by
    rw [isPending_release h]
    nofun
  unfold endCall at confined ⊢
  rw [hid] at confined ⊢
  cases hi : lastItem? c.style kind f with
  | none =>
      simp only [hi] at confined ⊢
      exact .came k c none hc pending hc confined rfl rfl finished
  | some item =>
      simp only [hi] at confined ⊢
      exact .came k c (some item) hc pending (call_modifyCall (s := s.release c.id) hc _) confined rfl rfl
        finished

theorem routed_chunk (h : s.Linked) (hc : s.calls[k]? = some c) (pending : s.isPending k c = true)
    (style : c.style = .serverStreaming) (message : Bytes) :
    Routed s (if c.isHeard then s.deliver k (.ok message) else s.release c.id) := by
  split
  · exact .came k c (some (.ok message)) hc pending (call_modifyCall hc _)
      (confined_deliver h k (.ok message)) rfl rfl fun _ => ⟨style, message, rfl⟩
  · refine .came k c none hc pending hc (.release h hc) rfl rfl fun still => ?_
    rw [isPending_release h] at still
    cases still

theorem routed_route (h : s.Linked) (f : Frame) : Routed s (s.route f) := by
  cases hj : Assoc.get? f.id.toNat s.pending with
  | none => exact .rest (route_of_unknown hj)
  | some k =>
      obtain ⟨c, hc, hid⟩ := h.call hj
      have pending : s.isPending k c = true := by
        rw [isPending, hid, hj]
        exact beq_self_eq_true _
      unfold route
      rw [hj]
      cases hf : f.kind with
      | error e => exact .rest rfl
      | ok kind =>
          cases kind with
          | request => exact .rest rfl
          | cancel => exact .rest rfl
          | streamChunk =>
              cases hs : c.style with
              | unary =>
                  simp only [hc, hs]
                  exact routed_endCall h hc pending .streamChunk hid.symm
              | serverStreaming =>
                  simp only [hc, hs, ← hid]
                  exact routed_chunk h hc pending hs f.payload
          | _ =>
              simp only [hc]
              exact routed_endCall h hc pending _ hid.symm

theorem isClosed_register (s : Session) (style : Style) (route : String) (request : Bytes) :
    (s.register style route request).isClosed = s.isClosed := by
  rcases s.register_cases style route request with he | he | ⟨id, -, he⟩ <;> rw [he]
  rfl

theorem register_of_closed (h : s.isClosed = true) (style : Style) (route : String)
    (request : Bytes) : s.register style route request =
      { s with calls := s.calls ++ [.rejected style route request] } := by
  rw [register, if_pos h]

structure Alike (s s' : Session) : Prop where
  calls : s'.calls = s.calls
  pending : s'.pending = s.pending
  isClosed : s'.isClosed = s.isClosed
  waiting : s'.outbox.waiting = s.outbox.waiting

inductive Effect (s s' : Session) : Prop
  | turned (k : Nat) (turn : Turned k s s' [])
  | registered (style : Style) (route : String) (request : Bytes)
      (same : s' = s.register style route request)
  | aside (alike : Alike s s')
  | failed (mid : Session) (alike : Alike s mid) (same : s' = mid.failPending)

theorem waiting_abort (o : Outlet) : o.abort.outbox.waiting = o.outbox.waiting := by
  unfold Outlet.abort
  split <;> rfl

theorem effect_endInput (s : Session) : Effect s s.endInput := by
  unfold endInput
  split
  · exact .failed { s with isReading := false } ⟨rfl, rfl, rfl, rfl⟩ rfl
  · exact .aside ⟨rfl, rfl, rfl, rfl⟩

theorem effect_read (s : Session) (data : Bytes) : Effect s (s.read data).1 := by
  unfold read
  split
  · next reading =>
      split
      · exact .aside ⟨rfl, rfl, rfl, rfl⟩
      · next buffer _ _ =>
          refine .failed { s with incoming := buffer, isReading := false } ⟨rfl, rfl, rfl, rfl⟩ ?_
          exact if_pos reading
  · exact .aside ⟨rfl, rfl, rfl, rfl⟩

theorem Step.effect (h : s.Linked) (line : s.Aligned) (step : s.Step s') : Effect s s' := by
  cases step with
  | register style path request => exact .registered style path.route request rfl
  | post k now => exact .turned k (turned_post h line k now)
  | resumeSending k now => exact .turned k (turned_resumeSending h line k now)
  | resume k => exact .turned k (turned_resume h line k)
  | dropReceiver k c found held => exact .turned k (turned_dropReceiver h line found held)
  | dropGuard k c found held unheard => exact .turned k (turned_dropGuard h line found held)
  | drop k => exact .turned k (turned_drop h line k)
  | close =>
      exact .failed { s with isReading := false, outlet := s.outlet.abort }
        ⟨rfl, rfl, rfl, waiting_abort _⟩ rfl
  | abandon => exact .aside ⟨rfl, rfl, rfl, rfl⟩
  | endInput => exact s.effect_endInput

end Session

end SchemaRpc
