import SchemaRpc.Proofs.Transport.Closing
import SchemaRpc.Proofs.Transport.Fragments

namespace SchemaRpc

namespace Session

variable {s s' t : Session} {j k : Nat} {c d : Call}

def finds (s : Session) (k : Nat) : Nat → List Next
  | 0 => []
  | times + 1 => (s.next k).2 :: (s.next k).1.finds k times

def exhaust : List (Except Error Bytes) → Next → Nat → List Next
  | _, _, 0 => []
  | [], last, times + 1 => last :: exhaust [] last times
  | item :: rest, last, times + 1 => .item item :: exhaust rest last times

theorem finds_eq (hc : s.calls[k]? = some c) (hs : c.stage = .streaming) (times : Nat) :
    s.finds k times = exhaust c.inbox (if s.isPending k c then .pending else .ended) times := by
  induction times generalizing s c with
  | zero => rw [finds, exhaust]
  | succ times ih =>
      rw [finds, next, hc]
      cases hi : c.inbox with
      | nil =>
          simp only [hs, hi]
          rw [ih hc hs, hi, exhaust]
      | cons item rest =>
          simp only [hs, hi]
          rw [exhaust, ih (s := s.modifyCall k _) (call_modifyCall hc _) hs]
          rfl

theorem returned_resume (empty : s.pending = []) (hc : s.calls[k]? = some c)
    (hs : c.stage = .awaiting) :
    ∃ c', (s.resume k).calls[k]? = some c' ∧ c'.stage = .returned c.first := by
  obtain ⟨guarded, hg⟩ := call_dropGuard hc
  unfold resume
  rw [hc, Call.first]
  cases hi : c.inbox with
  | nil =>
      simp only [hs, hi, isPending_of_empty empty, Bool.false_eq_true, if_false]
      exact ⟨_, call_modifyCall hg _, rfl⟩
  | cons item rest =>
      simp only [hs, hi]
      exact ⟨_, call_modifyCall hg _, rfl⟩

inductive Ends (s : Session) : Session → Prop
  | input (reading : s.isReading = true) : Ends s s.endInput
  | refused (data : Bytes) (e : Error) (reading : s.isReading = true)
      (refused : (s.incoming.push data).2 = .error e) : Ends s (s.read data).1
  | closed : Ends s s.close

theorem Ends.failed (h : s.Ends s') :
    ∃ mid, Alike s mid ∧ mid.isReading = false ∧ s' = mid.failPending := by
  cases h with
  | input reading =>
      exact ⟨{ s with isReading := false }, ⟨rfl, rfl, rfl, rfl⟩, rfl, if_pos reading⟩
  | refused data e reading refused =>
      refine ⟨{ s with incoming := (s.incoming.push data).1, isReading := false },
        ⟨rfl, rfl, rfl, rfl⟩, rfl, ?_⟩
      rw [read, if_pos reading]
      generalize s.incoming.push data = pushed at refused
      obtain ⟨buffer, result⟩ := pushed
      cases refused
      exact if_pos reading
  | closed =>
      exact ⟨{ s with isReading := false, outlet := s.outlet.abort },
        ⟨rfl, rfl, rfl, waiting_abort _⟩, rfl, rfl⟩

/-- What goes on when the last owner is gone. A call in progress has an owner of its own, so there are
only streams that somebody holds, and the way out. -/
inductive Outlives (s : Session) : Session → Prop
  | next (j : Nat) : Outlives s (s.next j).1
  | dropReceiver (j : Nat) (c : Call) (found : s.calls[j]? = some c) (held : c.stage = .streaming) :
      Outlives s (s.dropReceiver j)
  | dropGuard (j : Nat) (c : Call) (found : s.calls[j]? = some c) (held : c.stage = .streaming)
      (unheard : c.isHeard = false) : Outlives s (s.dropGuard j)
  | drop (j : Nat) : Outlives s (s.drop j)
  | outlet (outlet : Outlet) : Outlives s { s with outlet := outlet }

/-- A stream to which nothing can come any more and which has not ended. -/
structure Stranded (k : Nat) (c : Call) (s : Session) : Prop where
  linked : s.Linked
  alone : ∀ j, s.ids[j]? = some c.id → j = k
  held : ∀ d, s.calls[k]? = some d → d.isHeard = true →
    d.id = c.id ∧ d.stage = .streaming ∧ d.inbox <:+ c.inbox ∧ s.isPending k d = true

theorem Stranded.other (h : s.Stranded k c) (confined : Confined j s s') (apart : j ≠ k) :
    s'.Stranded k c where
  linked := confined.linked
  alone := confined.ids ▸ h.alone
  held d hd heard := by
    rw [confined.others k apart.symm] at hd
    obtain ⟨hid, stage, inbox, pending⟩ := h.held d hd heard
    refine ⟨hid, stage, inbox, ?_⟩
    rw [isPending, beq_iff_eq] at pending ⊢
    rcases confined.entries d.id.toNat with same | ⟨-, id, owner, key⟩
    · rw [same, pending]
    · -- only a call with this id could have taken the entry away
      rw [UInt32.toNat_inj.1 key, hid] at owner
      exact absurd (h.alone j owner) apart

theorem Stranded.unheard (h : s.Stranded k c) (confined : Confined k s s')
    (unheard : ∀ d, s'.calls[k]? = some d → d.isHeard = false) : s'.Stranded k c where
  linked := confined.linked
  alone := confined.ids ▸ h.alone
  held d hd heard := by
    rw [unheard d hd] at heard
    cases heard

theorem Stranded.step (h : s.Stranded k c) (confined : Confined j s s')
    (own : j = k → s'.Stranded k c) : s'.Stranded k c := by
  by_cases hj : j = k
  · exact own hj
  · exact h.other confined hj

theorem Stranded.next (h : s.Stranded k c) : (s.next k).1.Stranded k c := by
  have confined := confined_next h.linked k
  refine ⟨confined.linked, confined.ids ▸ h.alone, fun d hd heard => ?_⟩
  unfold Session.next at hd ⊢
  cases hc : s.calls[k]? with
  | none =>
      simp only [hc] at hd
      cases hd
  | some before =>
      simp only [hc] at hd ⊢
      split at hd
      · next item rest stage inbox =>
          rw [call_modifyCall hc, Option.some_inj] at hd
          subst hd
          obtain ⟨hid, stage, suffix, pending⟩ := h.held before hc heard
          refine ⟨hid, stage, ?_, pending⟩
          rw [inbox] at suffix
          exact (List.suffix_cons item rest).trans suffix
      · exact h.held d hd heard
      · exact h.held d hd heard

theorem unheard_dropReceiver (found : (s.dropReceiver k).calls[k]? = some d) : d.isHeard = false := by
  simp only [dropReceiver, modifyCall, List.getElem?_modify_eq, Option.map_eq_map,
    Option.map_eq_some_iff] at found
  obtain ⟨before, -, rfl⟩ := found
  rfl

theorem drop_cases (s : Session) (k : Nat) :
    s.drop k = s ∨ ∀ d, (s.drop k).calls[k]? = some d → d.isHeard = false := by
  unfold Session.drop
  cases hc : s.calls[k]? with
  | none => exact .inl rfl
  | some c =>
      have early : ∀ d, (((s.withdraw k).dropGuard k).modifyCall k fun c =>
          { c with stage := .dropped, isHeard := false, inbox := [] }).calls[k]? = some d →
            d.isHeard = false := by
        obtain ⟨guarded, hg⟩ := call_dropGuard (s := s.withdraw k) hc
        intro d hd
        rw [call_modifyCall hg, Option.some_inj] at hd
        exact hd ▸ rfl
      simp only [Option.map_some]
      cases hs : c.stage with
      | returned result => exact .inl rfl
      | dropped => exact .inl rfl
      | streaming =>
          obtain ⟨guarded, hg⟩ := call_dropGuard (s := s.dropReceiver k) (call_modifyCall hc _)
          refine .inr fun d hd => ?_
          rw [call_modifyCall hg, Option.some_inj] at hd
          exact hd ▸ rfl
      | _ => exact .inr early

theorem Outlives.stranded (step : s.Outlives s') (h : s.Stranded k c) : s'.Stranded k c := by
  cases step with
  | next j => exact h.step (confined_next h.linked j) fun own => own ▸ h.next
  | dropReceiver j c' found held =>
      have confined := confined_dropReceiver h.linked j
      refine h.step confined fun own => ?_
      subst own
      exact h.unheard confined fun d => unheard_dropReceiver
  | dropGuard j c' found held unheard =>
      have confined := confined_dropGuard h.linked j
      refine h.step confined fun own => ?_
      subst own
      obtain ⟨guarded, hg⟩ := call_dropGuard found
      refine h.unheard confined fun d hd => ?_
      rw [hg, Option.some_inj] at hd
      exact hd ▸ unheard
  | drop j =>
      have confined := confined_drop h.linked j
      refine h.step confined fun own => ?_
      subst own
      rcases s.drop_cases j with same | unheard
      · rwa [same]
      · exact h.unheard confined unheard
  | outlet o => exact ⟨h.linked.congr rfl h.linked.ascending fun hk => hk, h.alone, h.held⟩

theorem Stranded.run (h : s.Stranded k c) (run : Relation.ReflTransGen Outlives s t) :
    t.Stranded k c := by
  induction run with
  | refl => exact h
  | tail before step ih => exact step.stranded ih

theorem Stranded.finds (h : s.Stranded k c) (hd : s.calls[k]? = some d) (heard : d.isHeard = true)
    (times : Nat) : d.inbox <:+ c.inbox ∧ s.finds k times = exhaust d.inbox .pending times := by
  obtain ⟨-, stage, inbox, pending⟩ := h.held d hd heard
  exact ⟨inbox, by rw [finds_eq hd stage, pending, if_pos rfl]⟩

end Session

theorem Call.stage_ite_deliver (c : Call) (p : Bool) (item : Except Error Bytes) :
    (if p then c.deliver item else c).stage = c.stage := by
  split
  · exact c.stage_deliver item
  · rfl

namespace Lifetime

variable {n : Lifetime} {s : Session} {k : Nat} {c : Call}

structure Settled (n : Lifetime) (s : Session) : Prop where
  isClosed : s.isClosed = true
  isReading : s.isReading = false
  empty : s.pending = []
  streams : ∀ (k : Nat) (c : Call), n.session.calls[k]? = some c → c.stage = .streaming →
    c.isHeard = true → k ∉ n.untold → ∀ times, s.finds k times = Session.exhaust
      (if n.session.isPending k c then c.inbox ++ [.error .connectionClosed] else c.inbox) .ended times
  late : ∀ (k : Nat) (c : Call), n.session.calls[k]? = some c → c.stage = .streaming →
    c.isHeard = true → k ∈ n.untold → ∀ times,
      (s.deliver k (.error .connectionClosed)).finds k times =
        Session.exhaust (c.inbox ++ [.error .connectionClosed]) .ended times
  chunks : ∀ (k : Nat) (c : Call), n.session.calls[k]? = some c → n.Expects k c →
    ∀ item ∈ c.inbox, ∃ message, item = .ok message
  responses : ∀ (k : Nat) (c : Call), n.session.calls[k]? = some c → c.style = .unary →
    c.stage = .awaiting → n.Expects k c → ∀ now, ∃ c', (s.proceed k now).calls[k]? = some c' ∧
      c'.stage = .returned (.error .connectionClosed)

section Failed

variable {mid : Session} (h : n.Orderly) (alike : Session.Alike n.session mid)
include h alike

theorem Orderly.call_failed (k : Nat) : mid.failPending.calls[k]? = n.session.calls[k]?.map fun c =>
    if n.session.isPending k c then c.deliver (.error .connectionClosed) else c := by
  have linked := (h.aside alike).linked
  rw [Session.call_failPending linked.ascending (fun _ _ => linked.points), alike.calls]
  simp only [Session.isPending, alike.pending]
  rfl

theorem Orderly.finds_failed (hc : n.session.calls[k]? = some c) (hs : c.stage = .streaming)
    (heard : c.isHeard = true) (times : Nat) : mid.failPending.finds k times = Session.exhaust
      (if n.session.isPending k c then c.inbox ++ [.error .connectionClosed] else c.inbox)
      .ended times := by
  have failed := h.call_failed alike k
  rw [hc, Option.map_some] at failed
  rw [Session.finds_eq failed ((c.stage_ite_deliver _ _).trans hs),
    Session.isPending_of_empty mid.pending_failPending, if_neg Bool.false_ne_true]
  split
  · rw [Call.inbox_deliver heard]
  · rfl

theorem Orderly.finds_told (hc : n.session.calls[k]? = some c) (hs : c.stage = .streaming)
    (heard : c.isHeard = true) (untold : k ∈ n.untold) (times : Nat) :
    (mid.failPending.deliver k (.error .connectionClosed)).finds k times =
      Session.exhaust (c.inbox ++ [.error .connectionClosed]) .ended times := by
  have failed := h.call_failed alike k
  rw [hc, Option.map_some, h.not_pending untold, if_neg Bool.false_ne_true] at failed
  have told : (mid.failPending.deliver k (.error .connectionClosed)).calls[k]? =
      some (c.deliver (.error .connectionClosed)) := Session.call_modifyCall failed _
  have none : (mid.failPending.deliver k (.error .connectionClosed)).pending = [] :=
    mid.pending_failPending
  rw [Session.finds_eq told (by rw [Call.stage_deliver, hs]), Session.isPending_of_empty none,
    if_neg Bool.false_ne_true, Call.inbox_deliver heard]

theorem Orderly.proceed_failed (hc : n.session.calls[k]? = some c) (style : c.style = .unary)
    (hs : c.stage = .awaiting) (expects : n.Expects k c) (now : Nat) :
    ∃ c', (mid.failPending.proceed k now).calls[k]? = some c' ∧
      c'.stage = .returned (.error .connectionClosed) := by
  obtain ⟨c', failed, stage, first⟩ : ∃ c', mid.failPending.calls[k]? = some c' ∧
      c'.stage = .awaiting ∧ c'.first = .error .connectionClosed := by
    have none : c.first = .error .connectionClosed := by
      rw [Call.first, ((h.calls k c hc).single style).2.2 expects]
      rfl
    rw [h.call_failed alike k, hc, Option.map_some]
    refine ⟨_, rfl, (c.stage_ite_deliver _ _).trans hs, ?_⟩
    split
    · rw [Call.first_deliver, none]
    · exact none
  have line := (h.aside alike).failPending.line.not_queues failed (by simp [stage])
  rw [Session.proceed, Session.post_of_posted failed (by simp [stage]),
    Session.resumeSending_of_not_queues line, ← first]
  exact Session.returned_resume mid.pending_failPending failed stage

theorem Orderly.settled (stopped : mid.isReading = false) : n.Settled mid.failPending where
  isClosed := by rw [Session.failPending_eq]
  isReading := by
    rw [Session.failPending_eq]
    exact stopped
  empty := mid.pending_failPending
  streams _ _ hc hs heard _ := h.finds_failed alike hc hs heard
  late _ _ hc hs heard := h.finds_told alike hc hs heard
  chunks k c hc expects item hi := (h.calls k c hc).chunks expects item (List.mem_append_right _ hi)
  responses _ _ hc style hs expects := h.proceed_failed alike hc style hs expects

end Failed

structure Forsaken (n : Lifetime) (s : Session) : Prop where
  isReading : s.isReading = false
  isClosed : s.isClosed = n.session.isClosed
  pending : s.pending = n.session.pending
  streams : ∀ (k : Nat) (c : Call), n.session.calls[k]? = some c → c.stage = .streaming →
    k ∉ n.untold → ∀ times, s.finds k times =
      Session.exhaust c.inbox (if n.session.isPending k c then .pending else .ended) times
  chunks : ∀ (k : Nat) (c : Call), n.session.calls[k]? = some c → n.session.isPending k c = true →
    ∀ item ∈ c.inbox, ∃ message, item = .ok message
  lasting : ∀ (k : Nat) (c : Call), n.session.calls[k]? = some c → c.stage = .streaming →
    n.session.isPending k c = true → (∀ j, n.session.ids[j]? = some c.id → j = k) →
    ∀ t, Relation.ReflTransGen Session.Outlives s t → ∀ d, t.calls[k]? = some d → d.isHeard = true →
      ∀ times, d.inbox <:+ c.inbox ∧ t.finds k times = Session.exhaust d.inbox .pending times

theorem Orderly.forsaken (h : n.Orderly) : n.Forsaken n.session.abandon where
  isReading := rfl
  isClosed := rfl
  pending := rfl
  streams _ _ hc hs _ := Session.finds_eq (s := n.session.abandon) hc hs
  chunks k c hc pending item hi :=
    (h.calls k c hc).chunks (.inl pending) item (List.mem_append_right _ hi)
  lasting k c hc hs pending alone t run d hd heard := by
    have stranded : n.session.abandon.Stranded k c := by
      refine ⟨⟨h.linked.ascending, h.linked.points⟩, alone, fun d hd _ => ?_⟩
      obtain rfl := Option.some.inj (hc.symm.trans hd)
      exact ⟨rfl, hs, List.suffix_refl _, pending⟩
    exact (stranded.run run).finds hd heard

theorem settled_unless_forsaken (h : n.Reachable) :
    (∀ s, n.session.Ends s → n.Settled s) ∧ n.Forsaken n.session.abandon := by
  refine ⟨fun s ends => ?_, h.orderly.forsaken⟩
  obtain ⟨mid, alike, stopped, rfl⟩ := ends.failed
  exact h.orderly.settled alike stopped

namespace Interrupted

def asked : Lifetime :=
  { start 4 0 4096 with
    session := ((start 4 0 4096).session.register .serverStreaming
      (MethodPath.mk "test.Echo" "Echo").route []).post 0 0 }

theorem reachable_asked : asked.Reachable := by
  have registered := Relation.ReflTransGen.single
    (Step.session (n := start 4 0 4096) (.register .serverStreaming ⟨"test.Echo", "Echo"⟩ []))
  exact ⟨4, 0, 4096, registered.tail (.session (.post 0 0))⟩

theorem refused_zeros : (streaming.session.incoming.push (List.replicate 9 0)).2 =
    .error Header.idReserved := by
  have refuses : FrameBuffer.Refuses
      ⟨FrameBuffer.defaultLimit, Header.encode ⟨0, 0, 0⟩ ++ [], .header⟩ Header.idReserved :=
    .header rfl
  exact congrArg Prod.snd refuses.drain

end Interrupted

theorem settled_unless_forsaken_interrupted :
    Interrupted.streaming.Reachable ∧
      Interrupted.streaming.Settled Interrupted.streaming.session.endInput ∧
      Interrupted.streaming.Settled
        (Interrupted.streaming.session.read (List.replicate 9 0)).1 ∧
      Interrupted.streaming.Settled Interrupted.streaming.session.close ∧
      Interrupted.streaming.session.close.finds 1 3 =
        [.item (.ok [7]), .item (.error .connectionClosed), .ended] ∧
      (Interrupted.streaming.session.close.proceed 0 0).calls.map Call.outcome? =
        [some (.error .connectionClosed), some (.ok none)] ∧
      Interrupted.streaming.Forsaken Interrupted.streaming.session.abandon ∧
      Interrupted.streaming.session.abandon.finds 1 3 = [.item (.ok [7]), .pending, .pending] := by
  obtain ⟨settled, forsaken⟩ := settled_unless_forsaken Interrupted.reachable_streaming
  exact ⟨Interrupted.reachable_streaming, settled _ (.input rfl),
    settled _ (.refused _ _ rfl Interrupted.refused_zeros), settled _ .closed, rfl, rfl, forsaken, rfl⟩

theorem abandoned_stream_waits :
    Interrupted.asked.Reachable ∧
      Interrupted.asked.session.calls.map (fun c => (c.outcome?, c.isHeard)) =
        [(some (.ok none), true)] ∧
      Interrupted.asked.session.abandon.isReading = false ∧
      Interrupted.asked.session.abandon.isClosed = false ∧
      Interrupted.asked.session.abandon.pending = [(1, 0)] ∧
      Interrupted.asked.session.abandon.finds 0 2 = [.pending, .pending] :=
  ⟨Interrupted.reachable_asked, rfl, rfl, rfl, rfl, rfl⟩

end Lifetime

end SchemaRpc
