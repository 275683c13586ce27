import SchemaRpc.Proofs.Transport.Handlers
import SchemaRpc.Proofs.Transport.Offers
import SchemaRpc.Proofs.Transport.RequestLayout

namespace SchemaRpc

theorem Route.split_join {route : String} {message : Bytes} (slash : route.startsWith "/" = true)
    (short : (join route message).length < 18446744073709551616) :
    split (join route message) = .ok (route, message) := by
  have hl : (Utf8.encode route).length < 18446744073709551616 := by
    simp only [join, Bytes.withLength, List.length_append] at short
    omega
  rw [(Layout.written route message hl).split_eq]
  exact if_pos slash

structure Run where
  router : Router
  free : Nat
  frame : Frame

namespace Run

def task (run : Run) : Task :=
  match Route.split run.frame.payload, run.free with
  | .error e, _ => .refusal run.frame.id (Connection.malformed e)
  | .ok _, 0 => .refusal run.frame.id Connection.exhausted
  | .ok (route, request), _ + 1 => .ofAnswer run.frame.id (run.router.answer route request)

theorem task_id (run : Run) : run.task.id = run.frame.id := by
  unfold task
  split <;> rfl

theorem task_stage (run : Run) : run.task.stage = .active := by
  unfold task
  split <;> rfl

/-- Replies that may come in the course of a run: all of them, or some chunks and a failure in place
of a chunk that could not be sent. -/
inductive Sendable (run : Run) : List Reply → Prop
  | all : Sendable run run.task.rest
  | cut (sent : List Reply) (chunk : Bytes) (e : Error)
      (first : sent ++ [.chunk chunk] <+: run.task.rest) (cause : Outbox.Refuses e) :
      Sendable run (sent ++ [.failure e.toStatus])

structure Handles (run : Run) (route : String) (entry : Router.Entry) : Prop where
  permitted : run.free ≠ 0
  found : run.router.find? route = some entry

inductive Fails (run : Run) (route : String) (request : Bytes) (s : Status) : Prop
  | exhausted (full : run.free = 0) (status : s = .resourceExhausted "handler capacity reached")
  | unknown (missing : run.router.find? route = none)
      (status : s = .unimplemented s!"Unknown method {route}")
  | handler (entry : Router.Entry) (handles : run.Handles route entry)
      (fails : Router.Fails entry.handler request s)
  | unsent (entry : Router.Entry) (handles : run.Handles route entry) (chunks : List Bytes)
      (done : Bool) (sends : Router.Sends entry.handler request chunks done) (e : Error)
      (cause : Outbox.Refuses e) (status : s = e.toStatus)

inductive Plan (run : Run) (route : String) (request : Bytes) : List Reply → Prop
  | refused (s : Status) (fails : run.Fails route request s) : Plan run route request [.failure s]
  | answered (entry : Router.Entry) (handles : run.Handles route entry) (a : Answer)
      (answer : Router.Answered entry.handler request a) : Plan run route request a.replies

variable {run : Run} {route : String} {request : Bytes} {rs : List Reply}

theorem plan (built : run.router.Built) (hs : Route.split run.frame.payload = .ok (route, request)) :
    run.Plan route request run.task.rest := by
  unfold task
  rw [hs]
  cases hf : run.free with
  | zero => exact .refused _ (.exhausted hf rfl)
  | succ free =>
      have permitted : run.free ≠ 0 := hf ▸ Nat.succ_ne_zero free
      show run.Plan route request (run.router.answer route request).replies
      rw [Router.answer]
      cases he : run.router.find? route with
      | none => exact .refused _ (.unknown he rfl)
      | some entry => exact .answered entry ⟨permitted, he⟩ _ ((built.isHandler he).answered request)

theorem Sendable.mem (h : run.Sendable rs) {r : Reply} (hr : r ∈ rs) :
    r ∈ run.task.rest ∨ ∃ (e : Error) (chunk : Bytes), .chunk chunk ∈ run.task.rest ∧
      r = .failure e.toStatus ∧ Outbox.Refuses e := by
  cases h with
  | all => exact .inl hr
  | cut sent chunk e first cause =>
      rcases List.mem_append.1 hr with hr | hr
      · exact .inl (first.subset (List.mem_append_left _ hr))
      · exact .inr ⟨e, chunk, first.subset (List.mem_append_right _ (List.mem_singleton.2 rfl)),
          List.mem_singleton.1 hr, cause⟩

theorem Sendable.isPrefix (h : run.Sendable rs) {ds : List Reply} (hd : ds <+: rs)
    (hn : ∀ s, .failure s ∉ ds) : ds <+: run.task.rest := by
  cases h with
  | all => exact hd
  | cut sent chunk e first cause =>
      rcases List.prefix_concat_iff.1 hd with rfl | hd
      · exact absurd (List.mem_append_right _ (List.mem_singleton.2 rfl)) (hn _)
      · exact hd.trans ((List.prefix_append _ _).trans first)

theorem Sendable.cut_at (h : run.Sendable rs) {ds rest : List Reply} {chunk : Bytes}
    (hd : ds ++ .chunk chunk :: rest <+: rs) {e : Error} (cause : Outbox.Refuses e) :
    run.Sendable (ds ++ [.failure e.toStatus]) := by
  have hfirst : ds ++ [.chunk chunk] <+: rs := by
    refine .trans ⟨rest, ?_⟩ hd
    rw [List.append_assoc, List.singleton_append]
  refine .cut ds chunk e ?_ cause
  cases h with
  | all => exact hfirst
  | cut sent last e' first cause' =>
      rcases List.prefix_concat_iff.1 hfirst with he | hp
      · cases (List.append_inj' he rfl).2
      · exact hp.trans ((List.prefix_append _ _).trans first)

theorem Plan.returns (h : run.Plan route request rs) {message : Bytes}
    (hm : .response message ∈ rs) :
    ∃ entry, run.Handles route entry ∧
      Router.Returns entry.handler request message := by
  cases h with
  | refused s _ => simp at hm
  | answered entry handles a answer =>
      refine ⟨entry, handles, ?_⟩
      cases answer with
      | response m returns =>
          obtain rfl : message = m := by simpa [Answer.replies] using hm
          exact returns
      | _ => simp [Answer.replies, Answer.failure] at hm

theorem Plan.fails (h : run.Plan route request rs) {s : Status} (hs : .failure s ∈ rs) :
    run.Fails route request s := by
  cases h with
  | refused s' fails =>
      obtain rfl : s = s' := by simpa using hs
      exact fails
  | answered entry handles a answer =>
      cases answer with
      | failure s' fails =>
          obtain rfl : s = s' := by simpa [Answer.replies, Answer.failure] using hs
          exact .handler entry handles fails
      | broken chunks s' _ fails =>
          obtain rfl : s = s' := by simpa [Answer.replies] using hs
          exact .handler entry handles fails
      | _ => simp [Answer.replies] at hs

theorem isPrefix_of_chunks {cs chunks : List Bytes} {last : Option Reply}
    (hl : ∀ c, last ≠ some (.chunk c))
    (h : cs.map Reply.chunk <+: chunks.map .chunk ++ last.toList) : cs <+: chunks := by
  induction cs generalizing chunks with
  | nil => exact List.nil_prefix
  | cons c cs ih =>
      cases chunks with
      | nil =>
          cases last with
          | none => cases List.prefix_nil.1 h
          | some r => exact absurd (congrArg some (List.cons_prefix_cons.1 h).1).symm (hl c)
      | cons chunk chunks =>
          obtain ⟨hc, ht⟩ := List.cons_prefix_cons.1 h
          cases hc
          exact List.cons_prefix_cons.2 ⟨rfl, ih ht⟩

theorem eq_of_chunks_streamEnd {cs chunks : List Bytes} {last : Option Reply}
    (h : cs.map Reply.chunk ++ [.streamEnd] <+: chunks.map .chunk ++ last.toList) :
    cs = chunks ∧ last = some .streamEnd := by
  induction cs generalizing chunks with
  | nil =>
      cases chunks with
      | nil =>
          cases last with
          | none => cases List.prefix_nil.1 h
          | some r => exact ⟨rfl, congrArg some (List.cons_prefix_cons.1 h).1.symm⟩
      | cons chunk chunks => cases (List.cons_prefix_cons.1 h).1
  | cons c cs ih =>
      cases chunks with
      | nil =>
          cases last with
          | none => cases List.prefix_nil.1 h
          | some r => cases cs <;> cases List.prefix_nil.1 (List.cons_prefix_cons.1 h).2
      | cons chunk chunks =>
          obtain ⟨hc, ht⟩ := List.cons_prefix_cons.1 h
          cases hc
          obtain ⟨rfl, hl⟩ := ih ht
          exact ⟨rfl, hl⟩

theorem Plan.sends (h : run.Plan route request rs) {r : Reply} (hr : r ∈ rs)
    (hk : r.kind = .streamChunk ∨ r.kind = .streamEnd) :
    ∃ entry chunks last done, run.Handles route entry ∧
      Router.Sends entry.handler request chunks done ∧
      rs = chunks.map .chunk ++ Option.toList last ∧ (∀ c, last ≠ some (.chunk c)) ∧
      (last = some .streamEnd → done = true) := by
  cases h with
  | refused s _ =>
      obtain rfl := List.mem_singleton.1 hr
      rcases hk with hk | hk <;> cases hk
  | answered entry handles a answer =>
      cases answer with
      | endless chunks sends =>
          exact ⟨entry, chunks, none, false, handles, sends, rfl, nofun, nofun⟩
      | stream chunks sends =>
          exact ⟨entry, chunks, some .streamEnd, true, handles, sends, rfl, nofun, fun _ => rfl⟩
      | broken chunks s sends _ =>
          exact ⟨entry, chunks, some (.failure s), false, handles, sends, rfl, nofun, nofun⟩
      | silence => cases hr
      | response | failure =>
          obtain rfl := List.mem_singleton.1 hr
          rcases hk with hk | hk <;> cases hk

theorem returns_of_response (plan : run.Plan route request run.task.rest) (h : run.Sendable rs)
    {message : Bytes} (hm : .response message ∈ rs) :
    ∃ entry, run.Handles route entry ∧
      Router.Returns entry.handler request message := by
  rcases h.mem hm with hm | ⟨_, _, _, hr, _⟩
  · exact plan.returns hm
  · cases hr

theorem fails_of_failure (plan : run.Plan route request run.task.rest) (h : run.Sendable rs)
    {s : Status} (hs : .failure s ∈ rs) : run.Fails route request s := by
  rcases h.mem hs with hs | ⟨e, chunk, hc, hr, cause⟩
  · exact plan.fails hs
  · obtain ⟨entry, chunks, _, done, handles, sends, -⟩ := plan.sends hc (.inl rfl)
    cases hr
    exact .unsent entry handles chunks done sends e cause rfl

theorem sends_of_chunks (plan : run.Plan route request run.task.rest) (h : run.Sendable rs)
    {cs : List Bytes} (hne : cs ≠ []) (hc : cs.map .chunk <+: rs) :
    ∃ entry chunks done, run.Handles route entry ∧
      Router.Sends entry.handler request chunks done ∧ cs <+: chunks := by
  have ht := h.isPrefix hc (by simp)
  obtain ⟨c, hmem⟩ := List.exists_mem_of_ne_nil cs hne
  obtain ⟨entry, chunks, last, done, handles, sends, hrest, hl, -⟩ :=
    plan.sends (ht.subset (List.mem_map_of_mem hmem)) (.inl rfl)
  exact ⟨entry, chunks, done, handles, sends, isPrefix_of_chunks hl (hrest ▸ ht)⟩

theorem sends_of_streamEnd (plan : run.Plan route request run.task.rest) (h : run.Sendable rs)
    {cs : List Bytes} (hc : cs.map .chunk ++ [.streamEnd] <+: rs) :
    ∃ entry, run.Handles route entry ∧
      Router.Sends entry.handler request cs true := by
  have ht := h.isPrefix hc (by simp)
  obtain ⟨entry, chunks, last, done, handles, sends, hrest, _, hdone⟩ :=
    plan.sends (ht.subset (List.mem_append_right _ (List.mem_singleton.2 rfl))) (.inr rfl)
  obtain ⟨rfl, hl⟩ := eq_of_chunks_streamEnd (hrest ▸ ht)
  exact ⟨entry, handles, hdone hl ▸ sends⟩

end Run

end SchemaRpc
