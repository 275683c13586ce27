import SchemaRpc.Proofs.Status
import SchemaRpc.Proofs.Transport.Consistency

namespace SchemaRpc

theorem MethodPath.startsWith_route (p : MethodPath) : p.route.startsWith "/" = true := by
  rw [String.startsWith_string_iff, route]
  simp [toString]

namespace Reply

theorem eq_of_frame {r r' : Reply} {id : UInt32} (plain : ∀ s, r ≠ .failure s)
    (h : r.frame id = r'.frame id) : r' = r := by
  have hkind : r.kind = r'.kind := by
    have hk := congrArg Frame.kind h
    rw [frame, frame, Frame.kind_ofKind, Frame.kind_ofKind] at hk
    exact Except.ok.inj hk
  have hpayload : r.payload = r'.payload := congrArg Frame.payload h
  cases r with
  | failure s => exact absurd rfl (plain s)
  | response m =>
      cases r' with
      | response m' => exact congrArg response hpayload.symm
      | _ => cases hkind
  | chunk m =>
      cases r' with
      | chunk m' => exact congrArg chunk hpayload.symm
      | _ => cases hkind
  | streamEnd =>
      cases r' with
      | streamEnd => rfl
      | _ => cases hkind

theorem failure_of_frame {s : Status} {r' : Reply} {id : UInt32}
    (h : (failure s).frame id = r'.frame id) :
    ∃ s', r' = .failure s' ∧ Typed.encode s' = Typed.encode s := by
  have hkind : (failure s).kind = r'.kind := by
    have hk := congrArg Frame.kind h
    rw [frame, frame, Frame.kind_ofKind, Frame.kind_ofKind] at hk
    exact Except.ok.inj hk
  have hpayload : (failure s).payload = r'.payload := congrArg Frame.payload h
  cases r' with
  | failure s' => exact ⟨s', rfl, hpayload.symm⟩
  | _ => cases hkind

theorem isPrefix_of_frames {rs ds : List Reply} {id : UInt32} (plain : ∀ r ∈ rs, ∀ s, r ≠ .failure s)
    (h : rs.map (·.frame id) <+: ds.map (·.frame id)) : rs <+: ds := by
  induction rs generalizing ds with
  | nil => exact List.nil_prefix
  | cons r rs ih =>
      cases ds with
      | nil => cases List.prefix_nil.1 h
      | cons d ds =>
          obtain ⟨hd, ht⟩ := List.cons_prefix_cons.1 h
          rw [eq_of_frame (plain r List.mem_cons_self) hd]
          exact List.cons_prefix_cons.2 ⟨rfl, ih (fun r hr => plain r (List.mem_cons_of_mem _ hr)) ht⟩

end Reply

theorem Session.failureOf_encode {s : Status}
    (short : (Typed.encode s).length < 18446744073709551616) :
    failureOf (Typed.encode s) = .status s := by
  rw [failureOf, Status.decode_encode .replace s short]

namespace Network

structure RanOnce (routers : Nat → Router) (n : Network) (c : Call) (run : Run) : Prop where
  only : n.runsOf c.id = [run]
  request : run.frame = c.frame
  router : ∃ i, n.runs[i]? = some run ∧ run.router = routers i

variable {routers : Nat → Router} {limit : UInt32} {n : Network} {k : Nat} {c : Call}

theorem filter_eq_singleton {run : Run} {runs : List Run} (hm : run ∈ runs)
    (h : (runs.map fun run => run.frame.id).Pairwise (· ≠ ·)) :
    (runs.filter fun other => other.frame.id == run.frame.id) = [run] := by
  induction runs with
  | nil => cases hm
  | cons other runs ih =>
      obtain ⟨hne, ht⟩ := List.pairwise_cons.1 h
      rcases List.mem_cons.1 hm with rfl | hm
      · rw [List.filter_cons_of_pos (by simp), List.cons_eq_cons]
        refine ⟨rfl, List.filter_eq_nil_iff.2 fun o ho he => ?_⟩
        exact hne _ (List.mem_map_of_mem ho) (eq_of_beq he).symm
      · have hid : other.frame.id ≠ run.frame.id := hne _ (List.mem_map_of_mem hm)
        rw [List.filter_cons_of_neg (by simp [hid])]
        exact ih hm ht

theorem Consistent.run_of_reply (h : n.Consistent routers limit) (hc : n.session.calls[k]? = some c)
    {rs : List Reply} (hrs : (n.routed.filter fun f => f.id == c.id) = rs.map (·.frame c.id))
    (hne : rs ≠ []) :
    ∃ run full ds, n.RanOnce routers c run ∧ run.Sendable full ∧ ds <+: full ∧
      rs.map (·.frame c.id) <+: ds.map (·.frame c.id) := by
  obtain ⟨r, hr⟩ := List.exists_mem_of_ne_nil rs hne
  have hf : r.frame c.id ∈ n.routed.filter fun f => f.id == c.id :=
    hrs ▸ List.mem_map_of_mem hr
  have hreplied := h.replies.isPrefix.subset (List.mem_append_left _ (List.mem_filter.1 hf).1)
  obtain ⟨i, t, r', ht, hframe⟩ := h.serves.origin _ hreplied
  have hid : t.id = c.id := (congrArg Frame.id hframe).symm
  obtain ⟨run, hrun, htid⟩ := h.serves.run_of_task ht
  have hmem := List.mem_of_getElem? hrun
  obtain ⟨j, d, hd, hdid, hrequest⟩ := h.call_of_run hmem
  have hdc : d.id = c.id := by
    have : run.frame.id = d.id := by
      rw [hrequest]
      rfl
    rw [← this, ← htid, hid]
  have hjk := h.accounts.numbered.eq_of_id hd hc hdc hdid
  rw [hjk, hc] at hd
  cases hd
  obtain ⟨-, full, ds, sendable, hds, hfilter⟩ := h.serves.task i t run ht hrun
  refine ⟨run, full, ds, ⟨?_, hrequest, i, hrun, h.routers i run hrun⟩, sendable,
    (List.prefix_append ds _).trans hds, ?_⟩
  · rw [runsOf, ← hid, htid]
    exact filter_eq_singleton hmem h.serves.distinct
  · rw [hid] at hfilter
    rw [← hrs, ← hfilter]
    exact ((List.prefix_append _ _).trans h.replies.isPrefix).filter _

theorem Consistent.plan (h : n.Consistent routers limit) (within : n.Within limit)
    (built : ∀ i, (routers i).Built) (hc : n.session.calls[k]? = some c) {run : Run}
    (hr : n.RanOnce routers c run) : run.Plan c.route c.request run.task.rest := by
  obtain ⟨i, hi, hrouter⟩ := hr.router
  obtain ⟨path, hpath⟩ := h.accounts.posted.routed k c hc
  have hhandled : run.frame ∈ n.handled.filter Frame.isRequest :=
    h.runs ▸ List.mem_map_of_mem (List.mem_of_getElem? hi)
  have hsent := h.requests.isPrefix.subset (List.mem_append_left _ (List.mem_filter.1 hhandled).1)
  have hpayload : run.frame.payload = Route.join c.route c.request := by
    rw [hr.request]
    rfl
  refine Run.plan (hrouter ▸ built i) ?_
  rw [hpayload]
  refine Route.split_join (hpath ▸ path.startsWith_route) ?_
  have hl := within.requests _ hsent
  rw [hpayload] at hl
  have := limit.toNat_lt
  omega

theorem Consistent.returned_ok (h : n.Consistent routers limit) (within : n.Within limit)
    (built : ∀ i, (routers i).Built) (hc : n.session.calls[k]? = some c) (unary : c.style = .unary)
    {message : Bytes} (stage : c.stage = .returned (.ok message)) :
    ∃ run entry, n.RanOnce routers c run ∧ run.Handles c.route entry ∧
      Router.Returns entry.handler c.request message := by
  obtain ⟨rs, hrs, story⟩ := h.accounts.tells.story k c _ (Session.standing_of_call hc)
  cases story.vouched _ (.inr (.inr stage)) with
  | message _ reply =>
      have hr := reply unary
      obtain ⟨run, full, ds, once, sendable, hds, hframes⟩ :=
        h.run_of_reply hc hrs (List.ne_nil_of_mem hr)
      obtain ⟨r', hr', hframe⟩ := List.mem_map.1 (hframes.subset (List.mem_map_of_mem hr))
      have hplain : ∀ s, Reply.response message ≠ .failure s := fun s => nofun
      obtain rfl := Reply.eq_of_frame hplain hframe.symm
      obtain ⟨entry, handles, returns⟩ :=
        Run.returns_of_response (h.plan within built hc once) sendable (hds.subset hr')
      exact ⟨run, entry, once, handles, returns⟩

theorem Consistent.status (h : n.Consistent routers limit) (within : n.Within limit)
    (built : ∀ i, (routers i).Built) (hc : n.session.calls[k]? = some c) {s : Status}
    (told : .error (.status s) ∈ n.taken.of k ∨ c.stage = .returned (.error (.status s))) :
    ∃ run, n.RanOnce routers c run ∧ run.Fails c.route c.request s := by
  obtain ⟨rs, hrs, story⟩ := h.accounts.tells.story k c _ (Session.standing_of_call hc)
  have hv : Vouched c.style rs (.error (.status s)) :=
    story.vouched _ (told.imp_right fun hs => .inr hs)
  cases hv with
  | other _ plain => exact absurd rfl (plain s)
  | status _ s' reply reads =>
      have hm : (Reply.failure s').frame c.id ∈ n.routed.filter fun f => f.id == c.id :=
        hrs ▸ List.mem_map_of_mem reply
      have hreplied := h.replies.isPrefix.subset (List.mem_append_left _ (List.mem_filter.1 hm).1)
      have hl : (Typed.encode s').length ≤ FrameBuffer.defaultLimit.toNat :=
        within.replies _ hreplied
      have hlimit := FrameBuffer.defaultLimit.toNat_lt
      obtain ⟨run, full, ds, once, sendable, hds, hframes⟩ :=
        h.run_of_reply hc hrs (List.ne_nil_of_mem reply)
      obtain ⟨r', hr', hframe⟩ := List.mem_map.1 (hframes.subset (List.mem_map_of_mem reply))
      obtain ⟨sent, rfl, hencode⟩ := Reply.failure_of_frame hframe.symm
      -- what was sent is short enough to be read back
      have hsent : Session.failureOf (Typed.encode sent) = .status sent :=
        Session.failureOf_encode (by rw [hencode]; omega)
      rw [hencode, reads] at hsent
      cases hsent
      exact ⟨run, once, Run.fails_of_failure (h.plan within built hc once) sendable (hds.subset hr')⟩

theorem Consistent.sends (h : n.Consistent routers limit) (within : n.Within limit)
    (built : ∀ i, (routers i).Built) (hc : n.session.calls[k]? = some c) {rs : List Reply}
    (hrs : (n.routed.filter fun f => f.id == c.id) = rs.map (·.frame c.id)) {cs : List Bytes}
    (hcs : cs.map .chunk <+: rs) (hne : cs ≠ []) :
    ∃ run entry chunks done, n.RanOnce routers c run ∧ run.Handles c.route entry ∧
      Router.Sends entry.handler c.request chunks done ∧ cs <+: chunks := by
  have hnonempty : rs ≠ [] := by
    rintro rfl
    exact hne (List.map_eq_nil_iff.1 (List.prefix_nil.1 hcs))
  obtain ⟨run, full, ds, once, sendable, hds, hframes⟩ := h.run_of_reply hc hrs hnonempty
  have hplain : ∀ r ∈ cs.map Reply.chunk, ∀ s, r ≠ .failure s := by
    intro r hr s
    obtain ⟨m, _, rfl⟩ := List.mem_map.1 hr
    nofun
  have hsent := Reply.isPrefix_of_frames hplain ((hcs.map _).trans hframes)
  obtain ⟨entry, chunks, done, handles, sends, hprefix⟩ :=
    Run.sends_of_chunks (h.plan within built hc once) sendable hne (hsent.trans hds)
  exact ⟨run, entry, chunks, done, once, handles, sends, hprefix⟩

theorem Consistent.ends (h : n.Consistent routers limit) (within : n.Within limit)
    (built : ∀ i, (routers i).Built) (hc : n.session.calls[k]? = some c) {rs : List Reply}
    (hrs : (n.routed.filter fun f => f.id == c.id) = rs.map (·.frame c.id)) {cs : List Bytes}
    (hcs : cs.map .chunk ++ [.streamEnd] <+: rs) :
    ∃ run entry, n.RanOnce routers c run ∧ run.Handles c.route entry ∧
      Router.Sends entry.handler c.request cs true := by
  have hnonempty : rs ≠ [] := by
    rintro rfl
    have := List.prefix_nil.1 hcs
    simp at this
  obtain ⟨run, full, ds, once, sendable, hds, hframes⟩ := h.run_of_reply hc hrs hnonempty
  have hplain : ∀ r ∈ cs.map Reply.chunk ++ [.streamEnd], ∀ s, r ≠ .failure s := by
    intro r hr s
    rcases List.mem_append.1 hr with hr | hr
    · obtain ⟨m, _, rfl⟩ := List.mem_map.1 hr
      nofun
    · rw [List.mem_singleton.1 hr]
      nofun
  have hsent := Reply.isPrefix_of_frames hplain ((hcs.map _).trans hframes)
  obtain ⟨entry, handles, sends⟩ :=
    Run.sends_of_streamEnd (h.plan within built hc once) sendable (hsent.trans hds)
  exact ⟨run, entry, once, handles, sends⟩

end Network

end SchemaRpc
