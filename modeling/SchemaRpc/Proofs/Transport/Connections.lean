import Mathlib.Logic.Relation
import SchemaRpc.Proofs.Transport.Network
import SchemaRpc.Proofs.Transport.Serving

namespace SchemaRpc

namespace Task

structure Continues (t t' : Task) : Prop where
  id : t'.id = t.id
  hasPermit : t'.hasPermit = t.hasPermit
  isRunning : t'.isRunning = true → t.isRunning = true

namespace Continues

variable {t t' t'' : Task}

theorem refl (t : Task) : t.Continues t :=
  ⟨rfl, rfl, fun h => h⟩

theorem trans (h : t.Continues t') (h' : t'.Continues t'') : t.Continues t'' :=
  ⟨h'.id.trans h.id, h'.hasPermit.trans h.hasPermit, fun hr => h.isRunning (h'.isRunning hr)⟩

theorem abort (t : Task) : t.Continues t.abort := by
  refine ⟨t.id_abort, ?_, fun hr => ?_⟩
  · unfold Task.abort
    split <;> rfl
  · unfold Task.abort at hr
    split at hr
    · cases hr
    · exact hr

theorem ending (t : Task) : t.Continues { t with stage := .ended } :=
  ⟨rfl, rfl, nofun⟩

end Continues

theorem isLive_of_isRunning {t : Task} (h : t.isRunning = true) : t.isLive = true := by
  rw [isLive]
  cases hs : t.stage with
  | ended => rw [isRunning, hs] at h; cases h
  | _ => rfl

theorem isRunning_abort (t : Task) : t.abort.isRunning = false := by
  unfold abort
  split
  · rfl
  · next h =>
      cases hs : t.stage with
      | ended => rw [isRunning, hs]
      | _ => simp [isLive, hs] at h

end Task

namespace Connection

variable {c c' : Connection}

theorem dispatch_request (c : Connection) (router : Router) (free : Nat) {f : Frame}
    (h : f.isRequest = true) : c.dispatch router free f = c.accept router free f := by
  unfold Frame.isRequest at h
  rw [Connection.dispatch]
  cases hk : f.kind with
  | error e => rw [hk] at h; cases h
  | ok kind =>
      cases kind with
      | request => rfl
      | _ => rw [hk] at h; cases h

theorem aborts_dispatch (c : Connection) (router : Router) (free : Nat) {f : Frame}
    (h : f.isRequest = false) : c.Aborts (c.dispatch router free f).1 := by
  unfold Frame.isRequest at h
  rw [Connection.dispatch]
  cases hk : f.kind with
  | error e => exact .refl c
  | ok kind =>
      cases kind with
      | request => rw [hk] at h; cases h
      | cancel => exact c.aborts_cancel f.id
      | _ => exact .refl c

theorem result_dispatch (c : Connection) (router : Router) (free : Nat) (f : Frame) :
    (c.dispatch router free f).1.result = c.result := by
  unfold dispatch
  split
  · unfold accept
    split <;> rfl
  · unfold cancel
    split <;> rfl
  · rfl

/-- A step of a connection, with the number of the task whose turn it is. Permits may be taken and
set free elsewhere, and routers may answer the same request differently each time. -/
inductive Step (c : Connection) : Option Nat → Connection → Prop
  | dispatch (router : Router) (free : Nat) (f : Frame) (serving : c.isServing = true) :
      Step c none (c.dispatch router free f).1
  | read (data : Bytes) : Step c none (c.read data).1
  | finish (result : Except Error Unit) (serving : c.isServing = true) : Step c none (c.finish result)
  | task (free k now : Nat) : Step c (some k) (c.runTask free k now).1
  | write {o : Outlet} (step : c.outlet.advance? c.hasSenders = some o) :
      Step c none { c with outlet := o }
  | pipe (pipe : Pipe) : Step c none { c with outlet := { c.outlet with pipe := pipe } }

abbrev Leads : Connection → Connection → Prop :=
  Relation.ReflTransGen fun c c' => ∃ who, c.Step who c'

def Reachable (c : Connection) : Prop :=
  ∃ (limit : UInt32) (outlet : Outlet), outlet.outbox.waiting = [] ∧ (empty limit outlet).Leads c

def Carries (c c' : Connection) : Prop :=
  ∀ (n : Nat) (t : Task), c.tasks[n]? = some t → ∃ t', c'.tasks[n]? = some t' ∧ t.Continues t'

theorem Carries.of_tasks (h : c'.tasks = c.tasks) : c.Carries c' := by
  intro n t ht
  exact ⟨t, h ▸ ht, .refl t⟩

theorem Carries.before (h : c.Carries c') {n : Nat} {t' : Task} (ht' : c'.tasks[n]? = some t')
    (hn : n < c.tasks.length) : ∃ t, c.tasks[n]? = some t ∧ t.Continues t' := by
  have ht : c.tasks[n]? = some c.tasks[n] := List.getElem?_eq_getElem hn
  obtain ⟨u, hu, continues⟩ := h n _ ht
  rw [ht'] at hu
  cases hu
  exact ⟨_, ht, continues⟩

theorem Aborts.carries (h : c.Aborts c') : c.Carries c' := by
  intro n t ht
  obtain ⟨t', ht', rfl | rfl⟩ := h.after ht
  · exact ⟨_, ht', .refl _⟩
  · exact ⟨_, ht', .abort t⟩

theorem carries_accept (c : Connection) (router : Router) (free : Nat) (f : Frame) :
    c.Carries (c.accept router free f).1 :=
  fun _ t ht => ⟨t, task_accept router free f ht, .refl t⟩

theorem carries_modifyTask {n : Nat} {t : Task} (ht : c.tasks[n]? = some t) (t' : Task)
    (h : t.Continues t') (after : c'.tasks = c.tasks.modify n fun _ => t') : c.Carries c' := by
  intro m u hu
  by_cases hm : m = n
  · subst hm
    rw [ht] at hu
    cases hu
    exact ⟨t', task_of_turned after ht, h⟩
  · exact ⟨u, (other_of_turned after hm).trans hu, .refl u⟩

theorem goOn_eq (c : Connection) (free n : Nat) {t u : Task} (h : t.Continues u)
    (running : t.isRunning = true) :
    ∃ t', (c.goOn free n u).1 = c.modifyTask n (fun _ => t') ∧ t.Continues t' := by
  unfold goOn
  split
  · exact ⟨u, rfl, h⟩
  · split
    · exact ⟨{ u with stage := .ended }, rfl, h.id, h.hasPermit, nofun⟩
    · exact ⟨{ u with stage := .idle }, rfl, h.id, h.hasPermit, fun _ => running⟩

structure Turns (c : Connection) (n : Nat) (c' : Connection) (o : Outbox) (t t' : Task) : Prop where
  task : c.tasks[n]? = some t
  eq : c' = (c.withOutbox o).modifyTask n fun _ => t'
  continues : t.Continues t'
  inLine : ∀ w ∈ c.outbox.waiting, w.ticket ≠ n → w ∈ o.waiting

theorem turns_goOn {n : Nat} {t u : Task} {o : Outbox} (ht : c.tasks[n]? = some t)
    (running : t.isRunning = true) (h : t.Continues u)
    (inLine : ∀ w ∈ c.outbox.waiting, w.ticket ≠ n → w ∈ o.waiting) (free : Nat) :
    ∃ o' t t', c.Turns n ((c.withOutbox o).goOn free n u).1 o' t t' := by
  obtain ⟨t', eq, continues⟩ := (c.withOutbox o).goOn_eq free n h running
  exact ⟨o, t, t', ht, eq, continues, inLine⟩

theorem runTask_eq (c : Connection) (free n now : Nat) :
    (c.runTask free n now).1 = c ∨ ∃ o t t', c.Turns n (c.runTask free n now).1 o t t' := by
  cases ht : c.tasks[n]? with
  | none => exact .inl (by simp only [runTask, ht])
  | some t =>
      cases hs : t.stage with
      | ended => exact .inl (by simp only [runTask, ht, hs])
      | idle => exact .inl (by simp only [runTask, ht, hs])
      | aborted =>
          simp only [runTask, ht, hs]
          exact .inr ⟨c.outbox.withdraw n, t, { t with stage := .ended }, ht, rfl, .ending t,
            fun w hw hne => Outbox.mem_withdraw.2 ⟨hw, hne⟩⟩
      | waiting reply =>
          have running : t.isRunning = true := by simp only [Task.isRunning, hs]
          simp only [runTask, ht, hs]
          cases hr : c.outbox.resume? n now with
          | none => exact .inl rfl
          | some answer =>
              obtain ⟨w, -, rfl, hresumed⟩ := Outbox.resumed hr
              cases hresumed with
              | queued =>
                  exact .inr (turns_goOn (u := t.told reply (.ok ()))
                    (o := (c.outbox.withdraw w.ticket).enqueue w.frame) ht running
                    ⟨rfl, rfl, fun _ => running⟩ (fun v hv hne => Outbox.mem_withdraw.2 ⟨hv, hne⟩) free)
              | refused e =>
                  exact .inr (turns_goOn (u := t.told reply (.error e)) ht running
                    ⟨rfl, rfl, fun _ => running⟩ (fun v hv hne => Outbox.mem_withdraw.2 ⟨hv, hne⟩) free)
      | active =>
          have running : t.isRunning = true := by simp only [Task.isRunning, hs]
          cases hrest : t.rest with
          | nil =>
              simp only [runTask, ht, hs, hrest]
              exact .inr (turns_goOn (o := c.outbox) ht running (.refl t) (fun w hw _ => hw) free)
          | cons reply rest =>
              have hoffer := c.outbox.offered n (reply.frame t.id) now
              simp only [runTask, ht, hs, hrest]
              generalize c.outbox.offer n (reply.frame t.id) now = answer at hoffer ⊢
              cases hoffer with
              | queued =>
                  exact .inr (turns_goOn (u := { t with rest := rest, stage := .active })
                    (o := c.outbox.enqueue (reply.frame t.id)) ht running
                    ⟨rfl, rfl, fun _ => running⟩ (fun w hw _ => hw) free)
              | waits deadline =>
                  exact .inr ⟨_, t, { t with rest := rest, stage := .waiting reply }, ht, rfl,
                    ⟨rfl, rfl, fun _ => running⟩, fun w hw _ => List.mem_append_left _ hw⟩
              | refused e =>
                  exact .inr (turns_goOn (u := t.refused reply e) ht running
                    ⟨rfl, rfl, fun _ => running⟩ (fun w hw _ => hw) free)

theorem carries_runTask (c : Connection) (free n now : Nat) : c.Carries (c.runTask free n now).1 := by
  rcases c.runTask_eq free n now with hr | ⟨o, t, t', turns⟩
  · exact .of_tasks (by rw [hr])
  · exact carries_modifyTask turns.task t' turns.continues (by rw [turns.eq]; rfl)

theorem read_cases (c : Connection) (data : Bytes) :
    ∃ buffer, (c.read data).1 = { c with incoming := buffer } ∨
      c.isServing = true ∧
        ∃ e, (c.read data).1 = { c with incoming := buffer }.finish (.error e) := by
  unfold read
  split
  · next serving =>
      split
      · next buffer _ _ => exact ⟨buffer, .inl rfl⟩
      · next buffer e _ => exact ⟨buffer, .inr ⟨serving, e, rfl⟩⟩
  · exact ⟨c.incoming, .inl rfl⟩

theorem aborts_read (c : Connection) (data : Bytes) :
    ∃ buffer, { c with incoming := buffer }.Aborts (c.read data).1 := by
  obtain ⟨buffer, hr | ⟨-, e, hr⟩⟩ := c.read_cases data
  · exact ⟨buffer, hr ▸ .refl _⟩
  · exact ⟨buffer, hr ▸ aborts_finish _ _⟩

inductive Effect (c : Connection) : Option Nat → Connection → Prop
  | accept (router : Router) (free : Nat) (f : Frame) : Effect c none (c.accept router free f).1
  | aborts {d c' : Connection} (tasks : d.tasks = c.tasks) (outlet : d.outlet = c.outlet)
      (aborts : d.Aborts c') : Effect c none c'
  | turn (free k now : Nat) : Effect c (some k) (c.runTask free k now).1
  | aside {c' : Connection} (tasks : c'.tasks = c.tasks)
      (waiting : c'.outbox.waiting = c.outbox.waiting) : Effect c none c'

theorem Step.effect {who : Option Nat} (h : c.Step who c') : c.Effect who c' := by
  cases h with
  | dispatch router free f serving =>
      cases hf : f.isRequest with
      | true => exact dispatch_request c router free hf ▸ .accept router free f
      | false => exact .aborts rfl rfl (aborts_dispatch c router free hf)
  | read data =>
      obtain ⟨buffer, aborts⟩ := c.aborts_read data
      exact .aborts (d := { c with incoming := buffer }) rfl rfl aborts
  | finish result serving => exact .aborts rfl rfl (c.aborts_finish result)
  | task free k now => exact .turn free k now
  | write step => exact .aside rfl (Outlet.waiting_of_advance? step)
  | pipe pipe => exact .aside rfl rfl

theorem Step.carries {who : Option Nat} (h : c.Step who c') : c.Carries c' := by
  cases h.effect with
  | accept router free f => exact c.carries_accept router free f
  | aborts tasks outlet aborts =>
      intro n t ht
      exact aborts.carries n t (tasks ▸ ht)
  | turn free k now => exact c.carries_runTask free k now
  | aside tasks waiting => exact .of_tasks tasks

theorem Leads.carries (h : c.Leads c') : c.Carries c' := by
  induction h with
  | refl => exact .of_tasks rfl
  | tail _ step ih =>
      -- a task that the run has carried so far is carried by one more step
      obtain ⟨who, step⟩ := step
      intro n t ht
      obtain ⟨t', ht', hc⟩ := ih n t ht
      obtain ⟨t'', ht'', hc'⟩ := step.carries n t' ht'
      exact ⟨t'', ht'', hc.trans hc'⟩

theorem Step.inLine {who : Option Nat} (h : c.Step who c') (hl : c.InLine) : c'.InLine := by
  cases h.effect with
  | accept router free f => exact hl.accept router free f
  | aborts tasks outlet aborts =>
      exact InLine.aborts (hl.congr tasks (by rw [outbox, outlet, outbox])) aborts
  | turn free k now => exact hl.moves (moves_runTask hl free k now)
  | aside tasks waiting => exact hl.congr tasks waiting

theorem Reachable.inLine (h : c.Reachable) : c.InLine := by
  obtain ⟨limit, outlet, hw, h⟩ := h
  induction h with
  | refl => exact inLine_empty hw
  | tail _ step ih =>
      obtain ⟨who, step⟩ := step
      exact step.inLine ih

theorem task_modifyTask_of_ne {m n : Nat} (hm : m ≠ n) (g : Task → Task) :
    (c.modifyTask m g).tasks[n]? = c.tasks[n]? := by
  rw [modifyTask, List.getElem?_modify]
  simp only [if_neg hm]
  cases c.tasks[n]? <;> rfl

theorem Step.other {who : Option Nat} (h : c.Step who c') {n : Nat} {t : Task}
    (ht : c.tasks[n]? = some t) (hn : who ≠ some n) :
    (c'.tasks[n]? = some t ∨ c'.tasks[n]? = some t.abort) ∧
      ∀ w ∈ c.outbox.waiting, w.ticket = n → w ∈ c'.outbox.waiting := by
  cases h.effect with
  | accept router free f =>
      refine ⟨.inl (task_accept router free f ht), fun w hw _ => ?_⟩
      rw [outbox, (tasks_accept c router free f).2.1]
      exact hw
  | aborts tasks outlet aborts =>
      -- an aborted task leaves the line only with its own next turn
      have kept : ∀ w ∈ c.outbox.waiting, w.ticket = n → w ∈ c'.outbox.waiting := fun w hw _ => by
        rw [outbox, aborts.outlet, outlet]
        exact hw
      obtain ⟨t', ht', rfl | rfl⟩ := aborts.after (tasks.symm ▸ ht)
      · exact ⟨.inl ht', kept⟩
      · exact ⟨.inr ht', kept⟩
  | turn free k now =>
      have hk : k ≠ n := fun he => hn (congrArg some he)
      rcases c.runTask_eq free k now with hr | ⟨o, u, u', turns⟩
      · rw [hr]
        exact ⟨.inl ht, fun w hw _ => hw⟩
      · rw [turns.eq]
        refine ⟨.inl ((task_modifyTask_of_ne (c := c.withOutbox o) hk _).trans ht), ?_⟩
        exact fun w hw hticket => turns.inLine w hw (hticket ▸ hk.symm)
  | aside tasks waiting => exact ⟨.inl (tasks ▸ ht), fun w hw _ => waiting ▸ hw⟩

end Connection

end SchemaRpc
