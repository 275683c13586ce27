import SchemaRpc.Proofs.Message.Failures
import SchemaRpc.Proofs.Transport.Origins
import SchemaRpc.Proofs.Transport.Schedules

namespace SchemaRpc

theorem Items.eq {cs : List Bytes} {failed : Bool} {items : List (Except Error Bytes)}
    (h : Items cs failed items) : ∃ failure : Option Error,
      items = cs.map .ok ++ (failure.map .error).toList ∧
        (failure = none → failed = false) := by
  cases failed with
  | false => exact ⟨none, h.trans (List.append_nil _).symm, fun _ => rfl⟩
  | true =>
      obtain ⟨e, he⟩ := h
      exact ⟨some e, he, nofun⟩

namespace Call

structure Asks (c : Call) (style : Style) (path : MethodPath) (request : Bytes) : Prop where
  style : c.style = style
  route : c.route = path.route
  request : c.request = request

def result? (Resp : Type) [Typed Resp] (c : Call) : Option (Except Error Resp) :=
  match c.stage with
  | .returned result => some (result.bind (Typed.decode .replace))
  | _ => none

variable {c : Call} {Resp : Type} [Typed Resp]

instance (style : Style) (path : MethodPath) (request : Bytes) :
    Decidable (c.Asks style path request) :=
  decidable_of_iff (c.style = style ∧ c.route = path.route ∧ c.request = request)
    ⟨fun h => ⟨h.1, h.2.1, h.2.2⟩, fun h => ⟨h.style, h.route, h.request⟩⟩

theorem stage_of_result {result : Except Error Resp} (h : c.result? Resp = some result) :
    ∃ raw : Except Error Bytes, c.stage = .returned raw ∧
      raw.bind (Typed.decode .replace) = result := by
  unfold result? at h
  split at h
  · next raw hs => exact ⟨raw, hs, Option.some.inj h⟩
  · cases h

end Call

theorem Typed.status_of_bind {Resp : Type} [Typed Resp] {raw : Except Error Bytes} {s : Status}
    (h : raw.bind (Typed.decode .replace) = (.error (.status s) : Except Error Resp)) :
    raw = .error (.status s) ∨
      ∃ m, (Typed.ofFields m : Except Error Resp) = .error (.status s) := by
  cases raw with
  | error e =>
      cases h
      exact .inl rfl
  | ok message => exact .inr (Typed.ofFields_of_decode h)

theorem Session.next_eq_ended {s s' : Session} {k : Nat} {c : Call} (hc : s.calls[k]? = some c)
    (h : s.next k = (s', .ended)) :
    c.stage = .streaming ∧ c.inbox = [] ∧ s.isPending k c = false := by
  rw [Session.next, hc] at h
  simp only at h
  split at h
  · cases h
  · next hs hi =>
      cases hp : s.isPending k c with
      | true => simp only [hp] at h; cases h
      | false => exact ⟨hs, hi, rfl⟩
  · cases h

namespace Network

variable {routers : Nat → Router} {limit : UInt32} {n : Network} {k : Nat} {c : Call}

def items (Resp : Type) [Typed Resp] (n : Network) (k : Nat) : List (Except Error Resp) :=
  (n.taken.of k).map fun item => item.bind (Typed.decode .replace)

def HasEnded (n : Network) (k : Nat) : Prop :=
  ∃ c s, n.session.calls[k]? = some c ∧ c.isHeard = true ∧ n.session.next k = (s, .ended)

section Outcomes

variable (routers : Nat → Router) (n : Network) (c : Call) (path : MethodPath) (request : Bytes)

def Responded (message : Bytes) : Prop :=
  ∃ run entry, n.RanOnce routers c run ∧ run.Handles path.route entry ∧
    Router.Returns entry.handler request message

def Failed (s : Status) : Prop :=
  ∃ run, n.RanOnce routers c run ∧ run.Fails path.route request s

def Streamed (chunks : List Bytes) (done : Bool) : Prop :=
  ∃ run entry, n.RanOnce routers c run ∧ run.Handles path.route entry ∧
    Router.Sends entry.handler request chunks done

structure AnswersUnary (Resp : Type) [Typed Resp] : Prop where
  response : ∀ r : Resp, c.result? Resp = some (.ok r) →
    ∃ message, n.Responded routers c path request message ∧ Typed.decode .replace message = .ok r
  status : ∀ s, c.stage = .returned (.error (.status s)) → n.Failed routers c path request s
  origin : ∀ s, c.result? Resp = some (.error (.status s)) →
    c.stage = .returned (.error (.status s)) ∨
      ∃ m, (Typed.ofFields m : Except Error Resp) = .error (.status s)

/-- The items before any failure are the first messages that the handler of the call's own request
sent, and all of them if the stream has ended without one. -/
structure AnswersStream (k : Nat) (Resp : Type) [Typed Resp] : Prop where
  items : ∃ (cs : List Bytes) (failure : Option Error),
    n.taken.of k = cs.map .ok ++ (failure.map .error).toList ∧
    n.items Resp k = cs.map (Typed.decode .replace) ++ (failure.map .error).toList ∧
    (cs ≠ [] → ∃ chunks done, n.Streamed routers c path request chunks done ∧ cs <+: chunks) ∧
    (n.HasEnded k → failure = none → n.Streamed routers c path request cs true)
  status : ∀ s, c.stage = .returned (.error (.status s)) ∨ .error (.status s) ∈ n.taken.of k →
    n.Failed routers c path request s
  origin : ∀ s, .error (.status s) ∈ n.items Resp k → .error (.status s) ∈ n.taken.of k ∨
    ∃ m, (Typed.ofFields m : Except Error Resp) = .error (.status s)

end Outcomes

variable {path : MethodPath} {request : Bytes}

theorem Consistent.responded (h : n.Consistent routers limit) (within : n.Within limit)
    (built : ∀ i, (routers i).Built) (hc : n.session.calls[k]? = some c)
    (asks : c.Asks .unary path request) {message : Bytes}
    (stage : c.stage = .returned (.ok message)) : n.Responded routers c path request message := by
  obtain ⟨run, entry, once, handles, returns⟩ := h.returned_ok within built hc asks.style stage
  exact ⟨run, entry, once, asks.route ▸ handles, asks.request ▸ returns⟩

theorem Consistent.failed (h : n.Consistent routers limit) (within : n.Within limit)
    (built : ∀ i, (routers i).Built) (hc : n.session.calls[k]? = some c) {style : Style}
    (asks : c.Asks style path request) {s : Status}
    (told : .error (.status s) ∈ n.taken.of k ∨ c.stage = .returned (.error (.status s))) :
    n.Failed routers c path request s := by
  obtain ⟨run, once, fails⟩ := h.status within built hc told
  exact ⟨run, once, asks.route ▸ asks.request ▸ fails⟩

theorem Consistent.streamed (h : n.Consistent routers limit) (within : n.Within limit)
    (built : ∀ i, (routers i).Built) (hc : n.session.calls[k]? = some c)
    (asks : c.Asks .serverStreaming path request) : ∃ (cs : List Bytes) (failure : Option Error),
      n.taken.of k = cs.map .ok ++ (failure.map .error).toList ∧
      (cs ≠ [] → ∃ chunks done, n.Streamed routers c path request chunks done ∧ cs <+: chunks) ∧
      (n.HasEnded k → failure = none → n.Streamed routers c path request cs true) := by
  obtain ⟨rs, hrs, story⟩ := h.accounts.tells.story k c _ (Session.standing_of_call hc)
  obtain ⟨hs, hroute, hrequest⟩ := asks
  have hsent : ∀ cs : List Bytes, cs.map .chunk <+: rs → cs ≠ [] →
      ∃ chunks done, n.Streamed routers c path request chunks done ∧ cs <+: chunks := by
    intro cs hcs hne
    obtain ⟨run, entry, chunks, done, once, handles, sends, hp⟩ :=
      h.sends within built hc hrs hcs hne
    exact ⟨chunks, done, ⟨run, entry, once, hroute ▸ handles, hrequest ▸ sends⟩, hp⟩
  by_cases hended : n.HasEnded k
  · obtain ⟨d, s, hd, heard, hnext⟩ := hended
    rw [hc] at hd
    cases hd
    obtain ⟨hstage, hinbox, hpending⟩ := Session.next_eq_ended hc hnext
    have hlisten : c.IsListening := ⟨heard, fun e he => by rw [hstage] at he; cases he⟩
    obtain ⟨cs, failed, hitems, hcs, hend⟩ := story.finished hs hlisten hpending
    rw [hinbox, List.append_nil] at hitems
    obtain ⟨failure, htaken, hfailed⟩ := hitems.eq
    refine ⟨cs, failure, htaken, hsent cs hcs, fun _ hf => ?_⟩
    obtain ⟨run, entry, once, handles, sends⟩ := h.ends within built hc hrs (hend (hfailed hf))
    exact ⟨run, entry, once, hroute ▸ handles, hrequest ▸ sends⟩
  · obtain ⟨cs, failed, hcs, hitems⟩ := story.order hs
    obtain ⟨failure, htaken, _⟩ := hitems.eq
    exact ⟨cs, failure, htaken, hsent cs hcs, fun he => absurd he hended⟩

theorem calls_answered {Req Resp : Type} [Typed Req] [Typed Resp] (built : ∀ i, (routers i).Built)
    (h : Reachable routers limit n) (within : n.Within limit) (hc : n.session.calls[k]? = some c)
    (path : MethodPath) (q : Req) :
    (c.Asks .unary path (Typed.encode q) → n.AnswersUnary routers c path (Typed.encode q) Resp) ∧
    (c.Asks .serverStreaming path (Typed.encode q) →
      n.AnswersStream routers c path (Typed.encode q) k Resp) := by
  have consistent := h.consistent within
  constructor
  · intro asks
    refine ⟨fun r hr => ?_, fun s hs => ?_, fun s hr => ?_⟩
    · obtain ⟨raw, hstage, hraw⟩ := Call.stage_of_result hr
      cases raw with
      | error e => cases hraw
      | ok message => exact ⟨message, consistent.responded within built hc asks hstage, hraw⟩
    · exact consistent.failed within built hc asks (.inr hs)
    · obtain ⟨raw, hstage, hraw⟩ := Call.stage_of_result hr
      rcases Typed.status_of_bind hraw with rfl | hm
      · exact .inl hstage
      · exact .inr hm
  · intro asks
    refine ⟨?_, fun s hs => ?_, fun s hs => ?_⟩
    · obtain ⟨cs, failure, htaken, hrest⟩ := consistent.streamed within built hc asks
      refine ⟨cs, failure, htaken, ?_, hrest⟩
      rw [items, htaken, List.map_append, List.map_map]
      cases failure <;> rfl
    · exact consistent.failed within built hc asks hs.symm
    · obtain ⟨raw, htaken, hraw⟩ := List.mem_map.1 hs
      rcases Typed.status_of_bind hraw with rfl | hm
      · exact .inl htaken
      · exact .inr hm

namespace Echo

def once : UnaryMethod Status Status := ⟨⟨"echo", "Once"⟩⟩

def twice : StreamingMethod Status Status := ⟨⟨"echo", "Twice"⟩⟩

def router : Router :=
  (Router.empty.unary once .returned).serverStreaming twice fun s => ([s, s], .returned ())

def hello : Status := ⟨.notFound, "hello"⟩

def moves : List Move := [
  .register .unary once.path (Typed.encode hello),
  .register .serverStreaming twice.path (Typed.encode hello),
  .post 1 0, .post 0 0, .sessionWrites, .sessionWrites, .serverReads 4096,
  .dispatch 2, .dispatch 1, .task 0 1 0, .task 0 0 0, .task 0 0 0, .task 0 0 0,
  .serverWrites, .serverWrites, .sessionReads 4096, .route, .route, .route, .route,
  .resume 0, .next 1, .next 1]

theorem built_router : router.Built :=
  .serverStreaming (.unary .empty once _) twice _

def test (n : Network) : Bool :=
  match n.session.calls, n.session.next 1, (n.items Status 1).map Except.toOption with
  | [c, d], (_, .ended), [some first, some second] =>
    decide (n.Within FrameBuffer.defaultLimit) &&
    decide (c.Asks .unary once.path (Typed.encode hello)) &&
    decide ((c.result? Status).bind Except.toOption = some hello) &&
    decide (d.Asks .serverStreaming twice.path (Typed.encode hello)) && d.isHeard &&
    decide (first = hello ∧ second = hello)
  | _, _, _ => false

end Echo

theorem calls_answered_echo :
    ∃ n c d, Reachable (fun _ => Echo.router) FrameBuffer.defaultLimit n ∧
      n.session.calls = [c, d] ∧ c.result? Status = some (.ok Echo.hello) ∧
      (∃ message, n.Responded (fun _ => Echo.router) c Echo.once.path (Typed.encode Echo.hello)
          message ∧
        (Typed.decode .replace message : Except Error Status) = .ok Echo.hello) ∧
      (n.items Status 1).map Except.toOption = [some Echo.hello, some Echo.hello] ∧
      ∃ cs, n.taken.of 1 = cs.map .ok ∧
        n.Streamed (fun _ => Echo.router) d Echo.twice.path (Typed.encode Echo.hello) cs true := by
  have passes : (play? (fun _ => Echo.router) Echo.moves (start FrameBuffer.defaultLimit
      (.empty (.empty 4 0) (.empty 4096)) (.empty (.empty 4 0) (.empty 4096)))).any
        Echo.test = true := by
    cbv
  obtain ⟨n, reachable, ht⟩ := (Reachable.start 4 0 4096 4 0 4096).exists_of_play passes
  unfold Echo.test at ht
  split at ht
  · next c d s first second hcalls hnext hitems =>
      simp only [Bool.and_eq_true, decide_eq_true_eq] at ht
      obtain ⟨⟨⟨⟨⟨within, once⟩, result⟩, twice⟩, heard⟩, rfl, rfl⟩ := ht
      have hc : n.session.calls[0]? = some c := by rw [hcalls]; rfl
      have hd : n.session.calls[1]? = some d := by rw [hcalls]; rfl
      have hresult : c.result? Status = some (.ok Echo.hello) := by
        obtain ⟨r, hr, hok⟩ := Option.bind_eq_some_iff.1 result
        cases r with
        | ok r => cases hok; exact hr
        | error e => cases hok
      have answered : n.AnswersUnary (fun _ => Echo.router) c _ _ Status :=
        (calls_answered (fun _ => Echo.built_router) reachable within hc Echo.once.path
          Echo.hello).1 once
      have streamed : n.AnswersStream (fun _ => Echo.router) d _ _ 1 Status :=
        (calls_answered (fun _ => Echo.built_router) reachable within hd Echo.twice.path
          Echo.hello).2 twice
      obtain ⟨cs, failure, htaken, htyped, -, hend⟩ := streamed.items
      have hnone : failure = none := by
        cases failure with
        | none => rfl
        | some e =>
            rw [htyped, List.map_append] at hitems
            have hl := congrArg List.getLast? hitems
            simp [Except.toOption] at hl
      refine ⟨n, c, d, reachable, hcalls, hresult, answered.response _ hresult, hitems, cs, ?_,
        hend ⟨d, s, hd, heard, hnext⟩ hnone⟩
      rw [htaken, hnone]
      exact List.append_nil _
  · cases ht

end Network

end SchemaRpc
