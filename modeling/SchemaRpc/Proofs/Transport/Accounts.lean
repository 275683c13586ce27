import SchemaRpc.Proofs.Transport.Growth
import SchemaRpc.Proofs.Transport.Stories

namespace SchemaRpc

namespace Session

structure Accounts (s : Session) (sent routed : List Frame) (taken : Takings) : Prop where
  numbered : s.Numbered
  posted : s.Posted sent
  tells : s.Tells routed taken

variable {s s' : Session} {k : Nat} {sent routed : List Frame} {taken : Takings}

theorem accounts_start {outlet : Outlet} (h : outlet.outbox.waiting = []) :
    (start outlet).Accounts [] [] [] where
  numbered := by
    have hid : (1 : UInt32) ≠ 0 := by decide
    exact ⟨hid, Nat.le_refl 1, nofun, List.Pairwise.nil, List.Pairwise.nil, nofun⟩
  posted := posted_start h
  tells := tells_start outlet

namespace Accounts

theorem congr (h : s.Accounts sent routed taken) (next : s'.nextId = s.nextId)
    (pending : s'.pending = s.pending) (calls : s'.calls = s.calls)
    (waiting : s'.outbox.waiting = s.outbox.waiting) : s'.Accounts sent routed taken where
  numbered := by
    refine h.numbered.congr next ?_ (pending ▸ h.numbered.ascending) fun _ _ hk => pending ▸ hk
    rw [ids, ids, calls]
  posted := h.posted.told waiting (by rw [calls])
  tells := by
    refine h.tells.congr fun k => ?_
    have hp : ∀ c, s'.isPending k c = s.isPending k c := by
      intro c
      rw [isPending, pending, isPending]
    simp only [standing, calls, hp]

theorem moves (h : s.Accounts sent routed taken) (hm : Moves k s s') :
    s'.Accounts (sent ++ s'.outbox.queue.drop s.outbox.queue.length) routed taken where
  numbered := by
    cases hm with
    | rest same => exact same ▸ h.numbered
    | turn _ _ _ _ _ _ _ acts _ _ => exact acts.numbered
  posted := h.posted.moves h.numbered hm
  tells := h.tells.moves hm

theorem register (h : s.Accounts sent routed taken)
    (known : ∀ f ∈ routed, f.id ≠ 0 ∧ f.id.toNat < s.nextId.toNat) (style : Style)
    (path : MethodPath) (request : Bytes)
    (few : (s.register style path.route request).registered < 4294967295) :
    (s.register style path.route request).Accounts sent routed taken :=
  ⟨h.numbered.register style path.route request few, h.posted.register h.numbered style path request,
    h.tells.register h.numbered known style path.route request⟩

theorem failPending (h : s.Accounts sent routed taken) :
    s.failPending.Accounts sent routed taken where
  numbered := numbered_failPending h.numbered
  posted := by
    rw [failPending_eq]
    exact h.posted.told rfl (bare_tellAll _ _ s)
  tells := h.tells.failPending h.numbered

theorem route (h : s.Accounts sent routed taken) (r : Reply) (id : UInt32) :
    (s.route (r.frame id)).Accounts sent (routed ++ [r.frame id]) taken where
  numbered := by
    rcases route_cases h.numbered r id with ⟨hs, _⟩ | ⟨k, c, _, _, ha, _⟩
    · rw [hs]
      exact h.numbered
    · exact ha.numbered
  posted := by
    obtain ⟨hcalls, houtlet⟩ := s.bare_route (r.frame id)
    exact h.posted.told (congrArg (·.outbox.waiting) houtlet) hcalls
  tells := h.tells.route h.numbered r id

theorem next {c : Call} {item : Except Error Bytes} (h : s.Accounts sent routed taken)
    (hc : s.calls[k]? = some c) (heard : c.isHeard = true) (took : s.next k = (s', .item item)) :
    s'.Accounts sent routed (taken ++ [(k, item)]) where
  numbered := by
    obtain ⟨_, _, _, _, _, _, ha, _⟩ := acts_next h.numbered took
    exact ha.numbered
  posted := by
    obtain ⟨hcalls, houtlet⟩ := s.bare_next k
    rw [took] at hcalls houtlet
    exact h.posted.told (congrArg (·.outbox.waiting) houtlet) hcalls
  tells := h.tells.next h.numbered hc heard took

end Accounts

theorem Step.cases (h : s.Accounts sent routed taken) (step : s.Step s') :
    (∃ style path request, s' = s.register style (MethodPath.route path) request) ∨
    (∃ k, Moves k s s') ∨
    ∃ t : Session, t.nextId = s.nextId ∧ t.pending = s.pending ∧ t.calls = s.calls ∧
      t.incoming = s.incoming ∧ (t.outlet = s.outlet ∨ t.outlet = s.outlet.abort) ∧
      (s' = t ∨ s' = t.failPending) := by
  have hn := h.numbered
  have hl := h.posted.line
  cases step with
  | register style path request => exact .inl ⟨style, path, request, rfl⟩
  | post k now => exact .inr (.inl ⟨k, moves_post hn hl k now⟩)
  | resumeSending k now => exact .inr (.inl ⟨k, moves_resumeSending hn hl k now⟩)
  | resume k => exact .inr (.inl ⟨k, moves_resume hn hl k⟩)
  | dropReceiver k c found held => exact .inr (.inl ⟨k, moves_dropReceiver hn hl found held⟩)
  | dropGuard k c found held unheard =>
      exact .inr (.inl ⟨k, moves_dropGuard hn hl found held unheard⟩)
  | drop k => exact .inr (.inl ⟨k, moves_drop hn hl k⟩)
  | close =>
      exact .inr (.inr ⟨{ s with isReading := false, outlet := s.outlet.abort }, rfl, rfl, rfl, rfl,
        .inr rfl, .inr rfl⟩)
  | abandon => exact .inr (.inr ⟨s.abandon, rfl, rfl, rfl, rfl, .inl rfl, .inl rfl⟩)
  | endInput =>
      refine .inr (.inr ?_)
      unfold Session.endInput
      split
      · exact ⟨{ s with isReading := false }, rfl, rfl, rfl, rfl, .inl rfl, .inr rfl⟩
      · exact ⟨s, rfl, rfl, rfl, rfl, .inl rfl, .inl rfl⟩

theorem Moves.queued (h : Moves k s s') :
    s.outlet.Queued (s'.outbox.queue.drop s.outbox.queue.length) s'.outlet ∧
      s'.incoming = s.incoming := by
  cases h with
  | rest same =>
      rw [same, List.drop_length]
      exact ⟨s.outlet.queued_nil, rfl⟩
  | turn _ _ _ _ frames _ _ acts _ _ =>
      rw [queue_drop acts.queued]
      exact ⟨acts.queued, acts.incoming⟩

theorem register_frame (h : s.Numbered) (style : Style) (route : String) (request : Bytes) :
    (s.register style route request).outlet = s.outlet ∧
      (s.register style route request).incoming = s.incoming := by
  rcases register_eq h style route request with he | he
  · rw [he]
    exact ⟨rfl, rfl⟩
  · rw [he]
    exact ⟨rfl, rfl⟩

theorem drop_of_queue_eq (h : s'.outbox.queue = s.outbox.queue) :
    sent ++ s'.outbox.queue.drop s.outbox.queue.length = sent := by
  rw [h, List.drop_length, List.append_nil]

theorem outlet_failPending (s : Session) : s.failPending.outlet = s.outlet := by
  rw [failPending_eq]

theorem queue_abort (o : Outlet) : o.abort.outbox = o.outbox := by
  unfold Outlet.abort
  split <;> rfl

theorem Step.accounts (h : s.Accounts sent routed taken) (step : s.Step s')
    (few : s'.registered < 4294967295)
    (known : ∀ f ∈ routed, f.id ≠ 0 ∧ f.id.toNat < s.nextId.toNat) :
    s'.Accounts (sent ++ s'.outbox.queue.drop s.outbox.queue.length) routed taken := by
  rcases step.cases h with ⟨style, path, request, rfl⟩ | ⟨k, hm⟩ |
    ⟨t, hnext, hpending, hcalls, _, houtlet, hs⟩
  · obtain ⟨houtlet, _⟩ := register_frame h.numbered style path.route request
    rw [drop_of_queue_eq (congrArg (·.outbox.queue) houtlet)]
    exact h.register known style path request few
  · exact h.moves hm
  · have houtbox : t.outbox = s.outbox := by
      rcases houtlet with ho | ho
      · rw [outbox, ho, outbox]
      · rw [outbox, ho, queue_abort, outbox]
    have ht := h.congr hnext hpending hcalls (congrArg Outbox.waiting houtbox)
    rcases hs with rfl | rfl
    · rw [drop_of_queue_eq (congrArg Outbox.queue houtbox)]
      exact ht
    · have hq : t.failPending.outbox.queue = s.outbox.queue := by
        rw [outbox, outlet_failPending]
        exact congrArg Outbox.queue houtbox
      rw [drop_of_queue_eq hq]
      exact ht.failPending

theorem Step.delivers {b : FrameBuffer} {received : List Frame} (h : s.Accounts sent routed taken)
    (step : s.Step s') (hd : Delivers s.outlet b sent received) :
    Delivers s'.outlet b (sent ++ s'.outbox.queue.drop s.outbox.queue.length) received ∧
      s'.incoming = s.incoming := by
  rcases step.cases h with ⟨style, path, request, rfl⟩ | ⟨k, hm⟩ |
    ⟨t, _, _, _, hincoming, houtlet, hs⟩
  · obtain ⟨houtlet, hincoming⟩ := register_frame h.numbered style path.route request
    rw [drop_of_queue_eq (congrArg (·.outbox.queue) houtlet), houtlet]
    exact ⟨hd, hincoming⟩
  · obtain ⟨hqueued, hincoming⟩ := hm.queued
    exact ⟨hd.queued hqueued, hincoming⟩
  · have hout : s'.outlet = t.outlet ∧ s'.incoming = t.incoming := by
      rcases hs with rfl | rfl
      · exact ⟨rfl, rfl⟩
      · exact ⟨outlet_failPending t, by rw [failPending_eq]⟩
    have hqueue : s'.outbox.queue = s.outbox.queue := by
      rw [outbox, hout.1]
      rcases houtlet with ho | ho
      · rw [ho, outbox]
      · rw [ho, queue_abort, outbox]
    rw [drop_of_queue_eq hqueue, hout.1]
    refine ⟨?_, hout.2.trans hincoming⟩
    rcases houtlet with ho | ho
    · exact ho ▸ hd
    · exact ho ▸ hd.abort

end Session

end SchemaRpc
