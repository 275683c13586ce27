import SchemaRpc.Proofs.Transport.Accounts
import SchemaRpc.Proofs.Transport.Connections

namespace SchemaRpc.Network

structure Within (limit : UInt32) (n : Network) : Prop where
  calls : n.session.registered < 4294967295
  requests : ∀ f ∈ n.sent, f.payload.length ≤ limit.toNat
  replies : ∀ f ∈ n.replied, f.payload.length ≤ FrameBuffer.defaultLimit.toNat

structure Consistent (routers : Nat → Router) (limit : UInt32) (n : Network) : Prop where
  accounts : n.session.Accounts n.sent n.routed n.taken
  serves : n.connection.Serves n.runs n.replied
  requests : Delivers n.session.outlet n.connection.incoming n.sent (n.handled ++ n.arrived)
  replies : Delivers n.connection.outlet n.session.incoming n.replied (n.routed ++ n.landed)
  runs : n.runs.map Run.frame = n.handled.filter Frame.isRequest
  routers : ∀ (i : Nat) (run : Run), n.runs[i]? = some run → run.router = routers i
  requestLimit : n.connection.incoming.limit = limit
  replyLimit : n.session.incoming.limit = FrameBuffer.defaultLimit

variable {routers : Nat → Router} {limit : UInt32} {n next : Network}

instance : Decidable (n.Within limit) :=
  decidable_of_iff (n.session.registered < 4294967295 ∧
      (∀ f ∈ n.sent, f.payload.length ≤ limit.toNat) ∧
      ∀ f ∈ n.replied, f.payload.length ≤ FrameBuffer.defaultLimit.toNat)
    ⟨fun h => ⟨h.1, h.2.1, h.2.2⟩, fun h => ⟨h.calls, h.requests, h.replies⟩⟩

theorem Within.of_grows (h : next.Within limit) (hg : n.Grows next) : n.Within limit where
  calls := Nat.lt_of_le_of_lt (hg.ids.sublist.countP_le) h.calls
  requests f hf := h.requests f (hg.sent.subset hf)
  replies f hf := h.replies f (hg.replied.subset hf)

namespace Consistent

theorem call_of_run (h : n.Consistent routers limit) {run : Run} (hr : run ∈ n.runs) :
    ∃ (k : Nat) (c : Call), n.session.calls[k]? = some c ∧ c.id ≠ 0 ∧ run.frame = c.frame := by
  have hm : run.frame ∈ n.handled.filter Frame.isRequest := h.runs ▸ List.mem_map_of_mem hr
  obtain ⟨hm, hrequest⟩ := List.mem_filter.1 hm
  have hsent := h.requests.isPrefix.subset (List.mem_append_left _ hm)
  rcases h.accounts.posted.origin _ hsent with ⟨id, _, he⟩ | ⟨k, c, hc, _, hid, he⟩
  · rw [he, Frame.isRequest_cancel] at hrequest
    cases hrequest
  · exact ⟨k, c, hc, hid, he⟩

theorem call_of_reply (h : n.Consistent routers limit) {f : Frame} (hf : f ∈ n.replied) :
    ∃ (k : Nat) (c : Call) (r : Reply), n.session.calls[k]? = some c ∧ c.id ≠ 0 ∧
      f = r.frame c.id := by
  obtain ⟨i, t, r, ht, rfl⟩ := h.serves.origin f hf
  obtain ⟨run, hrun, hid⟩ := h.serves.run_of_task ht
  obtain ⟨k, c, hc, hne, hframe⟩ := h.call_of_run (List.mem_of_getElem? hrun)
  have hcid : run.frame.id = c.id := by
    rw [hframe]
    rfl
  exact ⟨k, c, r, hc, hne, by rw [hid, hcid]⟩

theorem known (h : n.Consistent routers limit) :
    ∀ f ∈ n.routed, f.id ≠ 0 ∧ f.id.toNat < n.session.nextId.toNat := by
  intro f hf
  have hreplied := h.replies.isPrefix.subset (List.mem_append_left _ hf)
  obtain ⟨k, c, r, hc, hne, rfl⟩ := h.call_of_reply hreplied
  exact ⟨hne, h.accounts.numbered.below c.id (List.mem_of_getElem? (Session.id_of_call hc))⟩

theorem requests_pass (h : n.Consistent routers limit) (within : n.Within limit) :
    ∀ f ∈ n.sent, f.Passes n.connection.incoming.limit := by
  intro f hf
  have hl := within.requests f hf
  rw [h.requestLimit]
  rcases h.accounts.posted.origin f hf with ⟨id, hid, rfl⟩ | ⟨k, c, _, _, hid, rfl⟩
  · exact Frame.passes_ofKind _ hid hl
  · exact Frame.passes_ofKind _ hid hl

theorem replies_pass (h : n.Consistent routers limit) (within : n.Within limit) :
    ∀ f ∈ n.replied, f.Passes n.session.incoming.limit := by
  intro f hf
  have hl := within.replies f hf
  rw [h.replyLimit]
  obtain ⟨k, c, r, _, hid, rfl⟩ := h.call_of_reply hf
  exact Frame.passes_ofKind _ hid hl

theorem fresh (h : n.Consistent routers limit) {f : Frame} {rest : List Frame}
    (hn : n.arrived = f :: rest) (hf : f.isRequest = true) : ∀ run ∈ n.runs, run.frame.id ≠ f.id := by
  intro run hrun
  have hp := h.requests.isPrefix.filter Frame.isRequest
  rw [hn, List.filter_append, List.filter_cons_of_pos hf] at hp
  have hd := h.accounts.posted.distinct.sublist hp.sublist
  have hm : run.frame ∈ n.handled.filter Frame.isRequest := h.runs ▸ List.mem_map_of_mem hrun
  exact (List.pairwise_append.1 hd).2.2 _ hm f List.mem_cons_self

theorem serverReads (h : n.Consistent routers limit) (within : n.Within limit) (size : Nat)
    (serving : n.connection.isServing = true) : (n.serverReads size).Consistent routers limit := by
  obtain ⟨buffer, taken, hpush, hlimit, hd⟩ := h.requests.read (h.requests_pass within) size
  have hread : n.connection.read (n.session.outlet.pipe.read size).2 =
      ({ n.connection with incoming := buffer }, taken) := by
    rw [Connection.read, if_pos serving, hpush]
  have hn : n.serverReads size = { n with
      session := { n.session with
        outlet := { n.session.outlet with pipe := (n.session.outlet.pipe.read size).1 } }
      connection := { n.connection with incoming := buffer }
      arrived := n.arrived ++ taken } := by
    simp only [Network.serverReads, hread]
    rfl
  rw [hn]
  exact {
    accounts := h.accounts.congr rfl rfl rfl rfl
    serves := h.serves.congr rfl rfl
    requests := List.append_assoc n.handled n.arrived taken ▸ hd
    replies := h.replies
    runs := h.runs
    routers := h.routers
    requestLimit := hlimit.trans h.requestLimit
    replyLimit := h.replyLimit }

theorem sessionReads (h : n.Consistent routers limit) (within : n.Within limit) (size : Nat)
    (reading : n.session.isReading = true) : (n.sessionReads size).Consistent routers limit := by
  obtain ⟨buffer, taken, hpush, hlimit, hd⟩ := h.replies.read (h.replies_pass within) size
  have hread : n.session.read (n.connection.outlet.pipe.read size).2 =
      ({ n.session with incoming := buffer }, taken) := by
    rw [Session.read, if_pos reading, hpush]
  have hn : n.sessionReads size = { n with
      session := { n.session with incoming := buffer }
      connection := { n.connection with
        outlet := { n.connection.outlet with pipe := (n.connection.outlet.pipe.read size).1 } }
      landed := n.landed ++ taken } := by
    simp only [Network.sessionReads, hread]
    rfl
  rw [hn]
  exact {
    accounts := h.accounts.congr rfl rfl rfl rfl
    serves := h.serves.congr rfl rfl
    requests := h.requests
    replies := List.append_assoc n.routed n.landed taken ▸ hd
    runs := h.runs
    routers := h.routers
    requestLimit := h.requestLimit
    replyLimit := hlimit.trans h.replyLimit }

theorem dispatch (h : n.Consistent routers limit) (free : Nat) {f : Frame} {rest : List Frame}
    (hn : n.arrived = f :: rest) :
    (n.dispatch (routers n.runs.length) free f rest).Consistent routers limit := by
  have hrequests : n.handled ++ n.arrived = (n.handled ++ [f]) ++ rest := by
    rw [hn, List.append_assoc, List.singleton_append]
  cases hf : f.isRequest with
  | true =>
      have hd := n.connection.dispatch_request (routers n.runs.length) free hf
      obtain ⟨-, houtlet, hincoming⟩ :=
        n.connection.tasks_accept (routers n.runs.length) free f
      rw [Network.dispatch, hd, hf, if_pos rfl]
      exact {
        accounts := h.accounts
        serves := h.serves.accept _ free (h.fresh hn hf)
        requests := hincoming.symm ▸ hrequests ▸ h.requests
        replies := houtlet.symm ▸ h.replies
        runs := by
          rw [List.map_append, h.runs, List.filter_append, List.filter_cons_of_pos hf]
          rfl
        routers := by
          intro i run hr
          rw [List.getElem?_append] at hr
          split at hr
          · exact h.routers i run hr
          · next hi =>
              have hz := (List.getElem?_eq_some_iff.1 hr).1
              have he : i = n.runs.length := by
                simp only [List.length_singleton] at hz
                omega
              obtain rfl := List.mem_singleton.1 (List.mem_of_getElem? hr)
              rw [he]
        requestLimit := (congrArg FrameBuffer.limit hincoming).trans h.requestLimit
        replyLimit := h.replyLimit }
  | false =>
      have ha := n.connection.aborts_dispatch (routers n.runs.length) free hf
      rw [Network.dispatch, hf]
      exact {
        accounts := h.accounts
        serves := h.serves.aborts ha
        requests := ha.incoming.symm ▸ hrequests ▸ h.requests
        replies := ha.outlet.symm ▸ h.replies
        runs := by
          rw [List.filter_append, List.filter_cons_of_neg (by simp [hf]), List.filter_nil,
            List.append_nil]
          exact h.runs
        routers := h.routers
        requestLimit := (congrArg FrameBuffer.limit ha.incoming).trans h.requestLimit
        replyLimit := h.replyLimit }

theorem task (h : n.Consistent routers limit) (free k now : Nat) :
    (n.withConnection (n.connection.runTask free k now).1).Consistent routers limit := by
  have hm := Connection.moves_runTask h.serves.line free k now
  obtain ⟨hqueued, hincoming⟩ := hm.queued
  exact {
    accounts := h.accounts
    serves := h.serves.moves hm
    requests := hincoming.symm ▸ h.requests
    replies := h.replies.queued hqueued
    runs := h.runs
    routers := h.routers
    requestLimit := (congrArg FrameBuffer.limit hincoming).trans h.requestLimit
    replyLimit := h.replyLimit }

theorem session {s : Session} (h : n.Consistent routers limit) (step : n.session.Step s)
    (few : s.registered < 4294967295) : (n.withSession s).Consistent routers limit := by
  obtain ⟨hd, hincoming⟩ := step.delivers h.accounts h.requests
  exact {
    accounts := step.accounts h.accounts few h.known
    serves := h.serves
    requests := hd
    replies := hincoming.symm ▸ h.replies
    runs := h.runs
    routers := h.routers
    requestLimit := h.requestLimit
    replyLimit := (congrArg FrameBuffer.limit hincoming).trans h.replyLimit }

theorem takes {s : Session} {c : Call} {item : Except Error Bytes} {k : Nat}
    (h : n.Consistent routers limit) (found : n.session.calls[k]? = some c)
    (heard : c.isHeard = true) (took : n.session.next k = (s, .item item)) :
    ({ n with session := s, taken := n.taken ++ [(k, item)] } : Network).Consistent routers
      limit := by
  have houtlet : s.outlet = n.session.outlet := by
    rw [← (n.session.bare_next k).2, took]
  have hincoming : s.incoming = n.session.incoming := by
    obtain ⟨_, _, _, _, _, _, ha, _⟩ := Session.acts_next h.accounts.numbered took
    exact ha.incoming
  exact {
    accounts := h.accounts.next found heard took
    serves := h.serves
    requests := houtlet.symm ▸ h.requests
    replies := hincoming.symm ▸ h.replies
    runs := h.runs
    routers := h.routers
    requestLimit := h.requestLimit
    replyLimit := (congrArg FrameBuffer.limit hincoming).trans h.replyLimit }

theorem route (h : n.Consistent routers limit) {f : Frame} {rest : List Frame}
    (hn : n.landed = f :: rest) : (n.route f rest).Consistent routers limit := by
  have hreplies : n.routed ++ n.landed = (n.routed ++ [f]) ++ rest := by
    rw [hn, List.append_assoc, List.singleton_append]
  have hf : f ∈ n.replied := by
    refine h.replies.isPrefix.subset ?_
    rw [hreplies]
    exact List.mem_append_left _ (List.mem_append_right _ (List.mem_singleton.2 rfl))
  obtain ⟨k, c, r, _, _, rfl⟩ := h.call_of_reply hf
  have houtlet := (n.session.bare_route (r.frame c.id)).2
  have hincoming : (n.session.route (r.frame c.id)).incoming = n.session.incoming := by
    rcases Session.route_cases h.accounts.numbered r c.id with ⟨hs, _⟩ | ⟨_, _, _, _, ha, _⟩
    · rw [hs]
    · exact ha.incoming
  exact {
    accounts := h.accounts.route r c.id
    serves := h.serves
    requests := houtlet.symm ▸ h.requests
    replies := hincoming.symm ▸ hreplies ▸ h.replies
    runs := h.runs
    routers := h.routers
    requestLimit := h.requestLimit
    replyLimit := (congrArg FrameBuffer.limit hincoming).trans h.replyLimit }

theorem finish (h : n.Consistent routers limit) (result : Except Error Unit) :
    ({ n with connection := n.connection.finish result } : Network).Consistent routers limit := by
  have ha := n.connection.aborts_finish result
  exact {
    accounts := h.accounts
    serves := h.serves.aborts ha
    requests := ha.incoming.symm ▸ h.requests
    replies := ha.outlet.symm ▸ h.replies
    runs := h.runs
    routers := h.routers
    requestLimit := (congrArg FrameBuffer.limit ha.incoming).trans h.requestLimit
    replyLimit := h.replyLimit }

theorem withRequests (h : n.Consistent routers limit) {o : Outlet}
    (waiting : o.outbox.waiting = n.session.outbox.waiting)
    (delivers : Delivers o n.connection.incoming n.sent (n.handled ++ n.arrived)) :
    (n.withRequests o).Consistent routers limit :=
  { h with
    accounts := h.accounts.congr rfl rfl rfl waiting
    requests := delivers }

theorem withReplies (h : n.Consistent routers limit) {o : Outlet}
    (waiting : o.outbox.waiting = n.connection.outbox.waiting)
    (delivers : Delivers o n.session.incoming n.replied (n.routed ++ n.landed)) :
    (n.withReplies o).Consistent routers limit :=
  { h with
    serves := h.serves.congr rfl waiting
    replies := delivers }

theorem step (h : n.Consistent routers limit) (step : n.Step routers next)
    (within : next.Within limit) : next.Consistent routers limit := by
  have before := within.of_grows step.grows
  cases step with
  | session step => exact h.session step within.calls
  | next k found heard took => exact h.takes found heard took
  | sessionWrites step =>
      exact h.withRequests (Outlet.waiting_of_advance? step) (h.requests.advance step)
  | serverReads size serving => exact h.serverReads before size serving
  | dispatch free next => exact h.dispatch free next
  | task free k now => exact h.task free k now
  | finish result serving => exact h.finish result
  | serverWrites step =>
      exact h.withReplies (Outlet.waiting_of_advance? step) (h.replies.advance step)
  | sessionReads size reading => exact h.sessionReads before size reading
  | route next => exact h.route next
  | serverHangsUp => exact h.withRequests rfl h.requests.hangUp
  | sessionHangsUp => exact h.withReplies rfl h.replies.hangUp

end Consistent

theorem consistent_start (room patience size room' patience' size' : Nat) :
    (start limit (.empty (.empty room patience) (.empty size))
      (.empty (.empty room' patience') (.empty size'))).Consistent routers limit where
  accounts := Session.accounts_start rfl
  serves := Connection.serves_empty rfl
  requests := .start rfl rfl rfl
  replies := .start rfl rfl rfl
  runs := rfl
  routers _ _ := nofun
  requestLimit := rfl
  replyLimit := rfl

theorem Reachable.consistent (h : Reachable routers limit n) (within : n.Within limit) :
    n.Consistent routers limit := by
  induction h with
  | start room patience size room' patience' size' =>
      exact consistent_start room patience size room' patience' size'
  | step h step ih => exact (ih (within.of_grows step.grows)).step step within

end SchemaRpc.Network
