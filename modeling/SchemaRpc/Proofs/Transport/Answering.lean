import Mathlib.Logic.Relation
import SchemaRpc.Proofs.Status
import SchemaRpc.Proofs.Transport.Connections

namespace SchemaRpc

namespace Router

inductive Assembled : Router → Prop
  | empty : Assembled empty
  | unary {r : Router} {Req Resp : Type} [Typed Req] [Typed Resp] (earlier : Assembled r)
      (m : UnaryMethod Req Resp) (handle : Req → Outcome Resp) : Assembled (r.unary m handle)
  | streaming {r : Router} {Req Resp : Type} [Typed Req] [Typed Resp] (earlier : Assembled r)
      (m : StreamingMethod Req Resp) (handle : Req → List Bytes × Outcome Unit) :
      Assembled (r.streaming m handle)

theorem Built.assembled {r : Router} (h : r.Built) : r.Assembled := by
  induction h with
  | empty => exact .empty
  | unary _ m handle ih => exact .unary ih m handle
  | serverStreaming _ m handle ih =>
      rw [serverStreaming_eq_streaming]
      exact .streaming ih m _

inductive Decodes : (Bytes → Answer) → Prop
  | unary {Req Resp : Type} [Typed Req] [Typed Resp] (handle : Req → Outcome Resp) :
      Decodes (decoding fun q =>
        ⟨[], Answer.finish (fun a => .response (Typed.encode a)) (handle q)⟩)
  | streaming {Req : Type} [Typed Req] (handle : Req → List Bytes × Outcome Unit) :
      Decodes (decoding fun q => ⟨(handle q).1, Answer.finish (fun _ => .streamEnd) (handle q).2⟩)

theorem Assembled.decodes {r : Router} (h : r.Assembled) {route : String} {entry : Entry}
    (found : r.find? route = some entry) : Decodes entry.handler := by
  induction h generalizing entry with
  | empty => cases found
  | unary _ m handle ih =>
      rw [Router.unary, find?_insert] at found
      split at found
      · cases found
        exact .unary handle
      · exact ih found
  | streaming _ m handle ih =>
      rw [Router.streaming, find?_insert] at found
      split at found
      · cases found
        exact .streaming handle
      · exact ih found

structure Reaches (r : Router) (free : Nat) (payload : Bytes) (handler : Bytes → Answer)
    (message : Bytes) : Prop where
  found : ∃ route entry, Route.split payload = .ok (route, message) ∧ r.find? route = some entry ∧
    entry.handler = handler
  permitted : free ≠ 0

inductive Due (r : Router) (free : Nat) (payload : Bytes) : Answer → Prop
  | malformed (e : Error) (unsplit : Route.split payload = .error e) :
      Due r free payload (.failure (.invalidArgument e.message))
  | exhausted (route : String) (message : Bytes)
      (split : Route.split payload = .ok (route, message)) (full : free = 0) :
      Due r free payload (.failure (.resourceExhausted "handler capacity reached"))
  | unknown (route : String) (message : Bytes)
      (split : Route.split payload = .ok (route, message)) (permitted : free ≠ 0)
      (missing : r.find? route = none) :
      Due r free payload (.failure (.unimplemented s!"Unknown method {route}"))
  | undecodable {Req : Type} [Typed Req] (handle : Req → Answer) (message : Bytes) (e : Error)
      (reaches : r.Reaches free payload (decoding handle) message)
      (decodes : (Typed.decode .replace message : Except Error Req) = .error e) :
      Due r free payload (.failure (.invalidArgument e.message))
  | unary {Req Resp : Type} [Typed Req] [Typed Resp] (handle : Req → Outcome Resp)
      (message : Bytes) (q : Req)
      (reaches : r.Reaches free payload (decoding fun q =>
        ⟨[], Answer.finish (fun a => .response (Typed.encode a)) (handle q)⟩) message)
      (decodes : Typed.decode .replace message = .ok q) (last : Option Reply)
      (outcome : match handle q with
        | .returned a => last = some (.response (Typed.encode a))
        | .failed s => last = some (.failure s)
        | .pending => last = none) :
      Due r free payload ⟨[], last⟩
  | streaming {Req : Type} [Typed Req] (handle : Req → List Bytes × Outcome Unit)
      (message : Bytes) (q : Req)
      (reaches : r.Reaches free payload (decoding fun q =>
        ⟨(handle q).1, Answer.finish (fun _ => .streamEnd) (handle q).2⟩) message)
      (decodes : Typed.decode .replace message = .ok q) (last : Option Reply)
      (outcome : match (handle q).2 with
        | .returned () => last = some .streamEnd
        | .failed s => last = some (.failure s)
        | .pending => last = none) :
      Due r free payload ⟨(handle q).1, last⟩

theorem due_of_reaches {r : Router} {free : Nat} {payload message : Bytes} {handler : Bytes → Answer}
    (decodes : Decodes handler) (reaches : r.Reaches free payload handler message) :
    r.Due free payload (handler message) := by
  cases decodes with
  | @unary Req Resp _ _ handle =>
      rw [decoding]
      cases hq : (Typed.decode .replace message : Except Error Req) with
      | error e => exact .undecodable _ message e reaches hq
      | ok q =>
          refine .unary handle message q reaches hq _ ?_
          cases handle q <;> rfl
  | @streaming Req _ handle =>
      rw [decoding]
      cases hq : (Typed.decode .replace message : Except Error Req) with
      | error e => exact .undecodable _ message e reaches hq
      | ok q =>
          refine .streaming handle message q reaches hq _ ?_
          cases (handle q).2 <;> rfl

end Router

theorem Run.due (run : Run) (assembled : run.router.Assembled) :
    ∃ answer, run.router.Due run.free run.frame.payload answer ∧
      run.task.rest = answer.replies ∧ run.task.finishes = answer.last.isSome := by
  unfold task
  cases hs : Route.split run.frame.payload with
  | error e => exact ⟨_, .malformed e hs, rfl, rfl⟩
  | ok parts =>
      obtain ⟨route, message⟩ := parts
      cases hf : run.free with
      | zero => exact ⟨_, .exhausted route message hs rfl, rfl, rfl⟩
      | succ free =>
          have permitted : free + 1 ≠ 0 := Nat.succ_ne_zero free
          refine ⟨run.router.answer route message, ?_, rfl, rfl⟩
          rw [Router.answer]
          cases he : run.router.find? route with
          | none => exact .unknown route message hs permitted he
          | some entry =>
              have reaches : run.router.Reaches (free + 1) run.frame.payload entry.handler message :=
                ⟨⟨route, entry, hs, he, rfl⟩, permitted⟩
              exact Router.due_of_reaches (assembled.decodes he) reaches

namespace Outbox

def Accepts (o : Outbox) (ticket now : Nat) : Prop :=
  (∀ frame e, (o.offer ticket frame now).2 ≠ .refused e) ∧
    ∀ e next, o.resume? ticket now ≠ some (.error e, next)

theorem Accepts.resume {o : Outbox} {ticket now : Nat} (h : o.Accepts ticket now)
    (answered : o.isAnswered ticket now = true) :
    ∃ w ∈ o.waiting, w.ticket = ticket ∧
      o.resume? ticket now = some (.ok (), (o.withdraw ticket).enqueue w.frame) := by
  have hsome : (o.resume? ticket now).isSome = true := by
    rw [resume?, Option.isSome_map, List.isSome_find?]
    exact answered
  obtain ⟨answer, ha⟩ := Option.isSome_iff_exists.1 hsome
  obtain ⟨w, hw, rfl, hresumed⟩ := resumed ha
  cases hresumed with
  | queued => exact ⟨w, hw, rfl, ha⟩
  | refused e => exact absurd ha (h.2 e _)

end Outbox

def Task.turnsLeft (t : Task) : Nat :=
  match t.stage with
  | .active => 2 * t.rest.length + 1
  | .waiting _ => 2 * t.rest.length + 2
  | .idle | .aborted | .ended => 0

theorem Task.abort_eq_of_stage (t : Task) (h : t.abort.stage ≠ .aborted) : t.abort = t := by
  unfold abort at h ⊢
  split
  · next live =>
      rw [if_pos live] at h
      exact absurd rfl h
  · rfl

theorem Task.turnsLeft_active {t : Task} (h : t.stage = .active) :
    t.turnsLeft = 2 * t.rest.length + 1 := by
  rw [turnsLeft, h]

theorem Task.turnsLeft_waiting {t : Task} {r : Reply} (h : t.stage = .waiting r) :
    t.turnsLeft = 2 * t.rest.length + 2 := by
  rw [turnsLeft, h]

namespace Connection

structure Pursues (c : Connection) (n : Nat) (id : UInt32) (answer : Answer) (sent : List Reply)
    (t : Task) : Prop where
  task : c.tasks[n]? = some t
  id : t.id = id
  replies : sent ++ t.unsent = answer.replies
  finishes : t.finishes = answer.last.isSome
  idle : t.stage = .idle → t.finishes = false
  ended : t.stage = .ended → t.finishes = true
  goesOn : t.stage ≠ .aborted
  inLine : ∀ r, t.stage = .waiting r → ∃ w ∈ c.outbox.waiting, w.ticket = n

variable {c c' : Connection} {n now : Nat} {id : UInt32} {answer : Answer} {sent : List Reply}
  {t : Task}

theorem pursues_goOn {u : Task} (ht : c.tasks[n]? = some t) (stage : u.stage = .active)
    (hid : u.id = id) (replies : sent ++ u.rest = answer.replies)
    (finishes : u.finishes = answer.last.isSome) (free : Nat) (o : Outbox) :
    ∃ t', ((c.withOutbox o).goOn free n u).1.Pursues n id answer sent t' ∧
      ((c.withOutbox o).goOn free n u).1.outbox = o ∧
      t'.turnsLeft ≤ 2 * u.rest.length + 1 ∧ (u.rest = [] → t'.turnsLeft = 0) := by
  have modified : ∀ t', ((c.withOutbox o).modifyTask n fun _ => t').tasks[n]? = some t' :=
    fun t' => task_of_turned rfl ht
  unfold goOn
  split
  · next more =>
      refine ⟨u, ⟨modified u, hid, ?_, finishes, ?_, ?_, ?_, ?_⟩, rfl, ?_, fun hrest => ?_⟩
      · rw [Task.unsent_active stage, replies]
      · rw [stage]; nofun
      · rw [stage]; nofun
      · rw [stage]; nofun
      · rw [stage]; nofun
      · exact Nat.le_of_eq (Task.turnsLeft_active stage)
      · rw [hrest] at more
        cases more
  · next done =>
      have hrest : u.rest = [] := by simpa using done
      have all : sent ++ [] = answer.replies := hrest ▸ replies
      split
      · next hf =>
          exact ⟨{ u with stage := .ended }, ⟨modified _, hid, all, finishes, nofun, fun _ => hf,
            nofun, nofun⟩, rfl, Nat.zero_le _, fun _ => rfl⟩
      · next hf =>
          exact ⟨{ u with stage := .idle }, ⟨modified _, hid, all, finishes,
            fun _ => eq_false_of_ne_true hf, nofun, nofun, nofun⟩, rfl, Nat.zero_le _,
            fun _ => rfl⟩

theorem InLine.stage (h : c.InLine) (ht : c.tasks[n]? = some t)
    (answered : c.outbox.isAnswered n now = true) : (∃ r, t.stage = .waiting r) ∨ t.stage = .aborted := by
  obtain ⟨w, hw, hanswer⟩ := List.any_eq_true.1 answered
  obtain ⟨u, hu, hplace⟩ := h w hw
  obtain ⟨hticket, -⟩ := Bool.and_eq_true_iff.1 hanswer
  rw [eq_of_beq hticket, ht] at hu
  cases hu
  rcases hplace with ⟨r, hr, -⟩ | ha
  · exact .inl ⟨r, hr⟩
  · exact .inr ha

theorem stage_of_canRun (inLine : c.InLine) (ht : c.tasks[n]? = some t) (goesOn : t.stage ≠ .aborted)
    (runs : c.canRun n now = true) :
    t.stage = .active ∨ (∃ r, t.stage = .waiting r) ∧ c.outbox.isAnswered n now = true := by
  rw [canRun, ht, Option.any_some, Bool.or_eq_true] at runs
  rcases runs with work | answered
  · left
    cases hs : t.stage with
    | active => rfl
    | aborted => exact absurd hs goesOn
    | _ =>
        rw [Task.isAtWork, hs] at work
        cases work
  · exact .inr ⟨(inLine.stage ht answered).resolve_right goesOn, answered⟩

theorem Pursues.finish (h : c.Pursues n id answer sent t) (hs : t.stage = .active)
    (hrest : t.rest = []) (free now : Nat) :
    ∃ t', (c.runTask free n now).1.Pursues n id answer sent t' ∧
      (c.runTask free n now).1.outbox.queue = c.outbox.queue ∧ t'.turnsLeft < t.turnsLeft := by
  have replies := h.replies
  rw [Task.unsent_active hs] at replies
  obtain ⟨t', pursues, houtbox, -, done⟩ :=
    pursues_goOn h.task hs h.id replies h.finishes free c.outbox
  simp only [runTask, h.task, hs, hrest]
  refine ⟨t', pursues, congrArg Outbox.queue houtbox, ?_⟩
  rw [done hrest, Task.turnsLeft_active hs]
  exact Nat.succ_pos _

theorem Pursues.wait (h : c.Pursues n id answer sent t) {reply : Reply} {rest : List Reply}
    (replies : sent ++ reply :: rest = answer.replies)
    (task : c'.tasks[n]? = some { t with rest := rest, stage := .waiting reply })
    (inLine : ∃ w ∈ c'.outbox.waiting, w.ticket = n) :
    c'.Pursues n id answer sent { t with rest := rest, stage := .waiting reply } where
  task := task
  id := h.id
  replies := replies
  finishes := h.finishes
  idle := nofun
  ended := nofun
  goesOn := nofun
  inLine _ _ := inLine

theorem Pursues.offer (h : c.Pursues n id answer sent t) (hs : t.stage = .active) {reply : Reply}
    {rest : List Reply} (hrest : t.rest = reply :: rest) (accepts : c.outbox.Accepts n now)
    (free : Nat) :
    ∃ t' replies, (c.runTask free n now).1.Pursues n id answer (sent ++ replies) t' ∧
      (c.runTask free n now).1.outbox.queue = c.outbox.queue ++ replies.map (·.frame id) ∧
      t'.turnsLeft < t.turnsLeft := by
  have ht := h.task
  have replies := h.replies
  rw [Task.unsent_active hs, hrest] at replies
  have hoffer := c.outbox.offered n (reply.frame t.id) now
  have taken := accepts.1 (reply.frame t.id)
  simp only [runTask, ht, hs, hrest]
  generalize c.outbox.offer n (reply.frame t.id) now = offer at hoffer taken ⊢
  cases hoffer with
  | queued =>
      -- the reply goes from what is left to what has been sent
      have replies' : (sent ++ [reply]) ++ rest = answer.replies := by
        rw [List.append_assoc, List.singleton_append, replies]
      obtain ⟨t', pursues, houtbox, hleft, -⟩ :=
        pursues_goOn (u := { t with rest := rest, stage := .active }) ht rfl h.id replies'
          h.finishes free (c.outbox.enqueue (reply.frame t.id))
      refine ⟨t', [reply], pursues, ?_, ?_⟩
      · rw [← h.id]
        exact congrArg Outbox.queue houtbox
      · change t'.turnsLeft ≤ 2 * rest.length + 1 at hleft
        rw [Task.turnsLeft_active hs, hrest, List.length_cons]
        omega
  | waits deadline =>
      refine ⟨{ t with rest := rest, stage := .waiting reply }, [], ?_, (List.append_nil _).symm, ?_⟩
      · rw [List.append_nil]
        exact h.wait replies (task_of_turned rfl ht)
          ⟨_, List.mem_append_right _ (List.mem_singleton.2 rfl), rfl⟩
      · rw [Task.turnsLeft_active hs, hrest, List.length_cons]
        change 2 * rest.length + 2 < _
        omega
  | refused e => exact absurd rfl (taken e)

theorem Pursues.answered (h : c.Pursues n id answer sent t) (inLine : c.InLine) {reply : Reply}
    (hs : t.stage = .waiting reply) (accepts : c.outbox.Accepts n now)
    (answered : c.outbox.isAnswered n now = true) (free : Nat) :
    ∃ t', (c.runTask free n now).1.Pursues n id answer (sent ++ [reply]) t' ∧
      (c.runTask free n now).1.outbox.queue = c.outbox.queue ++ [reply.frame id] ∧
      t'.turnsLeft < t.turnsLeft := by
  have ht := h.task
  obtain ⟨w, hw, hticket, hresume⟩ := accepts.resume answered
  have replies : (sent ++ [reply]) ++ t.rest = answer.replies := by
    rw [List.append_assoc, List.singleton_append, ← Task.unsent_waiting hs, h.replies]
  simp only [runTask, ht, hs, hresume]
  obtain ⟨t', pursues, houtbox, hleft, -⟩ :=
    pursues_goOn (u := t.told reply (.ok ())) ht rfl h.id replies h.finishes free
      ((c.outbox.withdraw n).enqueue w.frame)
  refine ⟨t', pursues, ?_, ?_⟩
  · rw [← h.id, ← inLine.frame hw hticket ht hs]
    exact congrArg Outbox.queue houtbox
  · rw [Task.turnsLeft_waiting hs]
    exact Nat.lt_of_le_of_lt hleft (Nat.lt_succ_self _)

theorem Pursues.turn (h : c.Pursues n id answer sent t) (inLine : c.InLine)
    (accepts : c.outbox.Accepts n now) (runs : c.canRun n now = true) (free : Nat) :
    ∃ t' replies, (c.runTask free n now).1.Pursues n id answer (sent ++ replies) t' ∧
      (c.runTask free n now).1.outbox.queue = c.outbox.queue ++ replies.map (·.frame id) ∧
      t'.turnsLeft < t.turnsLeft := by
  rcases stage_of_canRun inLine h.task h.goesOn runs with hs | ⟨⟨reply, hs⟩, answered⟩
  · cases hrest : t.rest with
    | nil =>
        obtain ⟨t', pursues, hqueue, hless⟩ := h.finish hs hrest free now
        refine ⟨t', [], (List.append_nil sent).symm ▸ pursues, ?_, hless⟩
        rw [hqueue, List.map_nil, List.append_nil]
    | cons reply rest => exact h.offer hs hrest accepts free
  · obtain ⟨t', pursues, hqueue, hless⟩ := h.answered inLine hs accepts answered free
    exact ⟨t', [reply], pursues, hqueue, hless⟩

/-- A run of a connection in which the task with the number is not stopped and the outbox accepts its
frames, with the frames that it queues and the number of its turns. -/
inductive Undisturbed (n : Nat) (c : Connection) : Connection → List Frame → Nat → Prop
  | start : Undisturbed n c c [] 0
  | turn {d : Connection} {frames : List Frame} {turns : Nat}
      (earlier : Undisturbed n c d frames turns) (free now : Nat) (accepts : d.outbox.Accepts n now)
      (runs : d.canRun n now = true) :
      Undisturbed n c (d.runTask free n now).1
        (frames ++ (d.runTask free n now).1.outbox.queue.drop d.outbox.queue.length) (turns + 1)
  | other {d d' : Connection} {frames : List Frame} {turns : Nat} {who : Option Nat}
      (earlier : Undisturbed n c d frames turns) (step : d.Step who d') (notIts : who ≠ some n)
      (goesOn : ∀ t, d'.tasks[n]? = some t → t.stage ≠ .aborted) :
      Undisturbed n c d' frames turns

theorem Pursues.step {d : Connection} {who : Option Nat} (h : c.Pursues n id answer sent t)
    (step : c.Step who d) (notIts : who ≠ some n)
    (goesOn : ∀ t, d.tasks[n]? = some t → t.stage ≠ .aborted) : d.Pursues n id answer sent t := by
  obtain ⟨task, inLine⟩ := step.other h.task notIts
  have same : d.tasks[n]? = some t := by
    rcases task with same | aborted
    · exact same
    · rw [t.abort_eq_of_stage (goesOn _ aborted)] at aborted
      exact aborted
  refine ⟨same, h.id, h.replies, h.finishes, h.idle, h.ended, h.goesOn, fun r hs => ?_⟩
  obtain ⟨w, hw, hticket⟩ := h.inLine r hs
  exact ⟨w, inLine w hw hticket, hticket⟩

theorem Undisturbed.pursues {d : Connection} {frames : List Frame} {turns : Nat}
    (run : Undisturbed n c d frames turns) (inLine : c.InLine) (start : c.Pursues n id answer [] t) :
    ∃ t' sent, d.Pursues n id answer sent t' ∧ d.InLine ∧ frames = sent.map (·.frame id) ∧
      turns + t'.turnsLeft ≤ t.turnsLeft := by
  -- each turn lowers what is left, so the turns so far and those left are never more than at first
  induction run with
  | start => exact ⟨t, [], start, inLine, rfl, Nat.le_of_eq (Nat.zero_add _)⟩
  | @turn d frames turns earlier free now accepts runs ih =>
      obtain ⟨u, sent, pursues, hline, rfl, hleft⟩ := ih
      obtain ⟨u', replies, pursues', hqueue, hless⟩ := pursues.turn hline accepts runs free
      refine ⟨u', sent ++ replies, pursues', hline.moves (moves_runTask hline free n now), ?_, ?_⟩
      · rw [hqueue, List.drop_left, List.map_append]
      · omega
  | other earlier step notIts goesOn ih =>
      obtain ⟨u, sent, pursues, hline, hframes, hleft⟩ := ih
      exact ⟨u, sent, pursues.step step notIts goesOn, step.inLine hline, hframes, hleft⟩

theorem pursues_accept (c : Connection) {router : Router} {free : Nat} {f : Frame} {answer : Answer}
    (replies : (⟨router, free, f⟩ : Run).task.rest = answer.replies)
    (finishes : (⟨router, free, f⟩ : Run).task.finishes = answer.last.isSome) :
    (c.accept router free f).1.Pursues c.tasks.length f.id answer [] (⟨router, free, f⟩ : Run).task := by
  have stage := (⟨router, free, f⟩ : Run).task_stage
  refine ⟨?_, Run.task_id _, ?_, finishes, ?_, ?_, ?_, ?_⟩
  · rw [(tasks_accept c router free f).1]
    exact List.getElem?_concat_length
  · rw [Task.unsent_active stage, List.nil_append, replies]
  · rw [stage]; nofun
  · rw [stage]; nofun
  · rw [stage]; nofun
  · rw [stage]; nofun

theorem Pursues.cases (h : c.Pursues n id answer sent t) :
    (sent = answer.replies ∧ (t.stage = .ended ↔ answer.last.isSome)) ∨
      (∀ now, c.canRun n now = true) ∨ ∃ w ∈ c.outbox.waiting, w.ticket = n := by
  have replies := h.replies
  cases hs : t.stage with
  | active =>
      right; left
      intro now
      rw [canRun, h.task, Option.any_some, Task.isAtWork, hs]
      rfl
  | waiting r => exact .inr (.inr (h.inLine r hs))
  | idle =>
      rw [Task.unsent, hs, List.append_nil] at replies
      refine .inl ⟨replies, fun ended => ?_, fun last => ?_⟩
      · cases ended
      · rw [← h.finishes, h.idle hs] at last
        cases last
  | ended =>
      rw [Task.unsent, hs, List.append_nil] at replies
      exact .inl ⟨replies, fun _ => h.finishes ▸ h.ended hs, fun _ => rfl⟩
  | aborted => exact absurd hs h.goesOn

theorem request_answered {router : Router} (assembled : router.Assembled) (h : c.Reachable)
    (free : Nat) (f : Frame) :
    (f.kind = .ok .request → ∃ answer, router.Due free f.payload answer ∧
      ∀ (d : Connection) (frames : List Frame) (turns : Nat),
        Undisturbed c.tasks.length (c.dispatch router free f).1 d frames turns →
        ∃ t, d.tasks[c.tasks.length]? = some t ∧
          frames ++ t.unsent.map (·.frame f.id) = answer.replies.map (·.frame f.id) ∧
          turns ≤ 2 * answer.replies.length + 1 ∧
          ((frames = answer.replies.map (·.frame f.id) ∧
              (t.stage = .ended ↔ answer.last.isSome)) ∨
            (∀ now, d.canRun c.tasks.length now = true) ∨
            ∃ w ∈ d.outbox.waiting, w.ticket = c.tasks.length)) ∧
    (f.kind ≠ .ok .request → c.Aborts (c.dispatch router free f).1) := by
  constructor
  · intro hf
    have hdispatch : c.dispatch router free f = c.accept router free f := by rw [dispatch, hf]
    obtain ⟨answer, due, replies, finishes⟩ := (⟨router, free, f⟩ : Run).due assembled
    refine ⟨answer, due, fun d frames turns run => ?_⟩
    rw [hdispatch] at run
    obtain ⟨t, sent, pursues, -, rfl, hturns⟩ :=
      run.pursues (h.inLine.accept router free f) (c.pursues_accept replies finishes)
    rw [Task.turnsLeft_active (Run.task_stage _), replies] at hturns
    refine ⟨t, pursues.task, ?_, by omega, ?_⟩
    · rw [← List.map_append, pursues.replies]
    · rcases pursues.cases with ⟨rfl, last⟩ | others
      · exact .inl ⟨rfl, last⟩
      · exact .inr others
  · intro hf
    refine aborts_dispatch c router free ?_
    rw [Frame.isRequest]
    split
    · next hk => exact absurd hk hf
    · rfl

namespace Countdown

def method : StreamingMethod Status Status := ⟨⟨"clock", "Countdown"⟩⟩

def router : Router := .streaming .empty method fun _ => ([[2], [1]], .returned ())

def message : Bytes := Typed.encode (⟨.ok, "go"⟩ : Status)

def request : Frame := .request 7 method.path.route message

def fresh : Connection :=
  empty FrameBuffer.defaultLimit (.empty (.empty 4 0) (.empty 4096))

def frames : List Frame :=
  [.ofKind .streamChunk 7 [2], .ofKind .streamChunk 7 [1], .ofKind .streamEnd 7 []]

def after (queue : List Frame) (rest : List Reply) (stage : Task.Stage) : Connection :=
  { fresh with
    outlet := { fresh.outlet with outbox := ⟨4, 0, queue, [], true⟩ }
    running := [(7, 0)]
    tasks := [⟨7, rest, true, stage, true, none⟩] }

def opened : Connection := (fresh.dispatch router 1 request).1

theorem split_request : Route.split request.payload = .ok (method.path.route, message) :=
  Route.split_join (by cbv) (by cbv)

theorem answer_request : router.answer method.path.route message = ⟨[[2], [1]], some .streamEnd⟩ := by
  have read : Typed.decode .replace message = .ok (⟨.ok, "go"⟩ : Status) :=
    Status.decode_encode .replace _ (by cbv)
  rw [Router.answer, router, Router.streaming, Router.find?_insert, if_pos rfl]
  simp only [Router.decoding, read]
  rfl

theorem opened_eq : opened = after [] [.chunk [2], .chunk [1], .streamEnd] .active := by
  have hf : request.kind = .ok .request := Frame.kind_ofKind ..
  rw [opened, dispatch, hf]
  simp only [accept, split_request, answer_request]
  rfl

theorem runTask_opened : (opened.runTask 0 0 0).1 =
    after (frames.take 1) [.chunk [1], .streamEnd] .active := by
  rw [opened_eq]
  rfl

theorem runTask_after : ((after (frames.take 1) [.chunk [1], .streamEnd] .active).runTask 0 0 0).1 =
      after (frames.take 2) [.streamEnd] .active ∧
    ((after (frames.take 2) [.streamEnd] .active).runTask 0 0 0).1 = after frames [] .ended :=
  ⟨rfl, rfl⟩

theorem accepts_after {queue : List Frame} {rest : List Reply} (room : queue.length < 4) :
    (after queue rest .active).outbox.Accepts 0 0 ∧ (after queue rest .active).canRun 0 0 = true := by
  have hasRoom : (after queue rest .active).outbox.hasRoom = true :=
    decide_eq_true (Nat.sub_pos_of_lt room)
  refine ⟨⟨fun frame e => ?_, nofun⟩, rfl⟩
  rw [Outbox.offer, hasRoom]
  nofun

theorem undisturbed : Undisturbed 0 opened (after frames [] .ended) frames 3 := by
  have first := Undisturbed.turn (n := 0) (c := opened) .start 0 0
    (opened_eq ▸ (accepts_after (by decide)).1) (opened_eq ▸ (accepts_after (by decide)).2)
  rw [runTask_opened] at first
  have second := first.turn 0 0 (accepts_after (by decide)).1 (accepts_after (by decide)).2
  rw [runTask_after.1] at second
  have third := second.turn 0 0 (accepts_after (by decide)).1 (accepts_after (by decide)).2
  rw [runTask_after.2] at third
  exact opened_eq ▸ third

end Countdown

theorem request_answered_countdown :
    ∃ answer, Countdown.router.Due 1 Countdown.request.payload answer ∧
      answer.replies.map (·.frame 7) = Countdown.frames ∧
      Undisturbed 0 Countdown.opened (Countdown.after Countdown.frames [] .ended)
        Countdown.frames 3 := by
  have assembled : Countdown.router.Assembled := .streaming .empty Countdown.method _
  have reachable : Countdown.fresh.Reachable := ⟨_, _, rfl, .refl⟩
  obtain ⟨answer, due, sends⟩ :=
    (request_answered assembled reachable 1 Countdown.request).1 (Frame.kind_ofKind ..)
  obtain ⟨t, ht, frames, -⟩ := sends _ _ _ Countdown.undisturbed
  refine ⟨answer, due, ?_, Countdown.undisturbed⟩
  cases ht
  exact frames.symm

end Connection

end SchemaRpc
