import SchemaRpc.Proofs.Transport.Channel
import SchemaRpc.Proofs.Transport.Runs

namespace SchemaRpc

namespace Task

def unsent (t : Task) : List Reply :=
  match t.stage with
  | .active => t.rest
  | .waiting r => r :: t.rest
  | .idle | .aborted | .ended => []

inductive Turn (t t' : Task) : List Reply → Prop
  | sends (r : Reply) (before : t.unsent = r :: t'.unsent) : Turn t t' [r]
  | keeps (shorter : t'.unsent <+: t.unsent) : Turn t t' []
  | fails (chunk : Bytes) (rest : List Reply) (e : Error) (cause : Outbox.Refuses e)
      (before : t.unsent = .chunk chunk :: rest) (after : t'.unsent = [.failure e.toStatus]) :
      Turn t t' []

theorem unsent_active {t : Task} (h : t.stage = .active) : t.unsent = t.rest := by
  rw [unsent, h]

theorem unsent_waiting {t : Task} {r : Reply} (h : t.stage = .waiting r) :
    t.unsent = r :: t.rest := by
  rw [unsent, h]

theorem turn_refused {t t' : Task} {reply : Reply} {rest : List Reply} {e : Error}
    (cause : Outbox.Refuses e) (before : t.unsent = reply :: rest)
    (after : t'.unsent = (t.refused reply e).rest) : t.Turn t' [] := by
  cases reply with
  | chunk m => exact .fails m rest e cause before after
  | _ => exact .keeps (after ▸ List.nil_prefix)

theorem unsent_abort (t : Task) : t.abort.unsent = [] := by
  unfold abort
  split
  · rfl
  · next h =>
      cases hs : t.stage with
      | ended => rw [unsent, hs]
      | _ => simp [isLive, hs] at h

theorem id_abort (t : Task) : t.abort.id = t.id := by
  unfold abort
  split <;> rfl

theorem abort_abort (t : Task) : t.abort.abort = t.abort := by
  unfold abort
  split <;> simp_all [isLive]

end Task

theorem filter_frames_of_ne {id other : UInt32} (h : id ≠ other) (replies : List Reply) :
    ((replies.map (·.frame id)).filter fun f => f.id == other) = [] := by
  rw [List.filter_eq_nil_iff]
  intro f hf he
  obtain ⟨r, -, rfl⟩ := List.mem_map.1 hf
  exact h (eq_of_beq he)

theorem filter_frames (id : UInt32) (replies : List Reply) :
    ((replies.map (·.frame id)).filter fun f => f.id == id) = replies.map (·.frame id) := by
  rw [List.filter_eq_self]
  intro f hf
  obtain ⟨r, -, rfl⟩ := List.mem_map.1 hf
  exact beq_self_eq_true id

namespace Task

structure Follows (t : Task) (run : Run) (replied : List Frame) : Prop where
  id : t.id = run.frame.id
  replies : ∃ rs ds : List Reply, run.Sendable rs ∧ ds ++ t.unsent <+: rs ∧
    (replied.filter fun f => f.id == t.id) = ds.map (·.frame t.id)

namespace Follows

variable {t t' : Task} {run : Run} {replied : List Frame} {replies : List Reply}

theorem turn (h : t.Follows run replied) (turn : t.Turn t' replies) (id : t'.id = t.id) :
    t'.Follows run (replied ++ replies.map (·.frame t.id)) := by
  obtain ⟨hid, rs, ds, sendable, hds, hfilter⟩ := h
  have hmore : ((replied ++ replies.map (·.frame t.id)).filter fun f => f.id == t'.id) =
      (ds ++ replies).map (·.frame t'.id) := by
    rw [id, List.filter_append, hfilter, filter_frames, List.map_append]
  refine ⟨id.trans hid, ?_⟩
  cases turn with
  | sends r hbefore =>
      refine ⟨rs, ds ++ [r], sendable, ?_, hmore⟩
      rw [List.append_assoc, List.singleton_append, ← hbefore]
      exact hds
  | keeps shorter =>
      refine ⟨rs, ds ++ [], sendable, ?_, hmore⟩
      rw [List.append_nil]
      exact .trans ((List.prefix_append_right_inj ds).2 shorter) hds
  | fails chunk rest e cause hbefore hafter =>
      rw [hbefore] at hds
      refine ⟨ds ++ [.failure e.toStatus], ds ++ [], sendable.cut_at hds cause, ⟨[], ?_⟩, hmore⟩
      rw [hafter, List.append_nil, List.append_nil]

theorem other (h : t.Follows run replied) {id : UInt32} (hne : id ≠ t.id) :
    t.Follows run (replied ++ replies.map (·.frame id)) := by
  obtain ⟨hid, rs, ds, sendable, hds, hfilter⟩ := h
  refine ⟨hid, rs, ds, sendable, hds, ?_⟩
  rw [List.filter_append, hfilter, filter_frames_of_ne hne, List.append_nil]

theorem abort (h : t.Follows run replied) : t.abort.Follows run replied := by
  obtain ⟨hid, rs, ds, sendable, hds, hfilter⟩ := h
  refine ⟨t.id_abort.trans hid, rs, ds, sendable, ?_, t.id_abort.symm ▸ hfilter⟩
  rw [t.unsent_abort]
  exact .trans ((List.prefix_append_right_inj ds).2 List.nil_prefix) hds

theorem start (fresh : ∀ f ∈ replied, f.id ≠ run.frame.id) : run.task.Follows run replied := by
  refine ⟨run.task_id, _, [], .all, ⟨[], ?_⟩, ?_⟩
  · rw [List.nil_append, List.append_nil, Task.unsent_active run.task_stage]
  · rw [List.map_nil, List.filter_eq_nil_iff, run.task_id]
    intro f hf he
    exact fresh f hf (eq_of_beq he)

end Follows

end Task

namespace Connection

def InLine (c : Connection) : Prop :=
  ∀ w ∈ c.outbox.waiting, ∃ t, c.tasks[w.ticket]? = some t ∧
    ((∃ r, t.stage = .waiting r ∧ w.frame = r.frame t.id) ∨ t.stage = .aborted)

structure Serves (c : Connection) (runs : List Run) (replied : List Frame) : Prop where
  length : c.tasks.length = runs.length
  task : ∀ (i : Nat) (t : Task) (run : Run), c.tasks[i]? = some t → runs[i]? = some run →
    t.Follows run replied
  line : c.InLine
  origin : ∀ f ∈ replied, ∃ (i : Nat) (t : Task) (r : Reply), c.tasks[i]? = some t ∧ f = r.frame t.id
  distinct : (runs.map fun run => run.frame.id).Pairwise (· ≠ ·)

inductive Moves (k : Nat) (c c' : Connection) : Prop
  | rest (same : c' = c)
  | turn (t t' : Task) (replies : List Reply) (before : c.tasks[k]? = some t)
      (after : c'.tasks = c.tasks.modify k fun _ => t') (id : t'.id = t.id) (turn : t.Turn t' replies)
      (queued : c.outlet.Queued (replies.map (·.frame t.id)) c'.outlet)
      (line : ∀ w ∈ c'.outbox.waiting, w ∈ c.outbox.waiting ∧ w.ticket ≠ k ∨
        w.ticket = k ∧ ∃ r, t'.stage = .waiting r ∧ w.frame = r.frame t.id)
      (incoming : c'.incoming = c.incoming)

variable {c c' : Connection} {k : Nat} {t : Task} {runs : List Run} {replied : List Frame}

theorem goOn_cases (c : Connection) (free k : Nat) {t : Task} (ht : t.stage = .active) :
    ∃ t', (c.goOn free k t).1 = c.modifyTask k (fun _ => t') ∧ t'.unsent = t.rest ∧ t'.id = t.id := by
  unfold goOn
  split
  · exact ⟨t, rfl, Task.unsent_active ht, rfl⟩
  · next hr =>
      have hnil : t.rest = [] := by simpa using hr
      split
      · exact ⟨{ t with stage := .ended }, rfl, hnil.symm, rfl⟩
      · exact ⟨{ t with stage := .idle }, rfl, hnil.symm, rfl⟩

theorem moves_goOn {o : Outbox} {u : Task} (replies : List Reply) (ht : c.tasks[k]? = some t)
    (free : Nat) (stage : u.stage = .active) (id : u.id = t.id)
    (turn : ∀ t', t'.unsent = u.rest → t.Turn t' replies)
    (queue : o.queue = c.outbox.queue ++ replies.map (·.frame t.id))
    (line : ∀ w ∈ o.waiting, w ∈ c.outbox.waiting ∧ w.ticket ≠ k) :
    Moves k c ((c.withOutbox o).goOn free k u).1 := by
  obtain ⟨t', hgo, hafter, hid⟩ := goOn_cases (c.withOutbox o) free k stage
  rw [hgo]
  exact .turn t t' replies ht rfl (hid.trans id) (turn t' hafter) ⟨rfl, rfl, queue⟩
    (fun w hw => .inl (line w hw)) rfl

theorem InLine.other (h : c.InLine) (ht : c.tasks[k]? = some t)
    (hs : t.stage = .active) : ∀ w ∈ c.outbox.waiting, w ∈ c.outbox.waiting ∧ w.ticket ≠ k := by
  intro w hw
  refine ⟨hw, fun he => ?_⟩
  obtain ⟨u, hu, hline⟩ := h w hw
  rw [he, ht] at hu
  cases hu
  rcases hline with ⟨r, hr, _⟩ | ha
  · rw [hs] at hr
    cases hr
  · rw [hs] at ha
    cases ha

theorem InLine.frame (h : c.InLine) {w : Outbox.Waiter} (hw : w ∈ c.outbox.waiting)
    (hticket : w.ticket = k) (ht : c.tasks[k]? = some t) {reply : Reply}
    (hs : t.stage = .waiting reply) : w.frame = reply.frame t.id := by
  obtain ⟨u, hu, hplace⟩ := h w hw
  rw [hticket, ht] at hu
  cases hu
  rcases hplace with ⟨r, hr, hf⟩ | ha
  · rw [hs] at hr
    cases hr
    exact hf
  · rw [hs] at ha
    cases ha

theorem moves_of_waiting (h : c.InLine) (ht : c.tasks[k]? = some t) {reply : Reply}
    (hs : t.stage = .waiting reply) (free now : Nat) : Moves k c (c.runTask free k now).1 := by
  have hunsent := Task.unsent_waiting hs
  simp only [runTask, ht, hs]
  cases hr : c.outbox.resume? k now with
  | none => exact .rest rfl
  | some answer =>
      obtain ⟨w, hw, rfl, hresumed⟩ := Outbox.resumed hr
      have hline : ∀ v ∈ (c.outbox.withdraw w.ticket).waiting,
          v ∈ c.outbox.waiting ∧ v.ticket ≠ w.ticket := fun v hv => Outbox.mem_withdraw.1 hv
      have hframe := h.frame hw rfl ht hs
      cases hresumed with
      | queued =>
          refine moves_goOn (u := t.told reply (.ok ())) [reply] ht free rfl rfl
            (fun t' ha => .sends reply ?_) ?_ hline
          · rw [hunsent, ha]
            rfl
          · rw [hframe]
            rfl
      | refused e cause =>
          exact moves_goOn (u := t.told reply (.error e)) [] ht free rfl rfl
            (fun t' ha => Task.turn_refused cause hunsent ha) (List.append_nil _).symm hline

theorem moves_of_active (h : c.InLine) (ht : c.tasks[k]? = some t)
    (hs : t.stage = .active) (free now : Nat) : Moves k c (c.runTask free k now).1 := by
  have hunsent := Task.unsent_active hs
  have hline := h.other ht hs
  cases hrest : t.rest with
  | nil =>
      simp only [runTask, ht, hs, hrest]
      refine moves_goOn (o := c.outbox) [] ht free hs rfl
        (fun t' ha => .keeps ?_) (List.append_nil _).symm hline
      rw [ha, hrest]
      exact List.nil_prefix
  | cons reply rest =>
      have hoffer := c.outbox.offered k (reply.frame t.id) now
      simp only [runTask, ht, hs, hrest]
      generalize c.outbox.offer k (reply.frame t.id) now = answer at hoffer ⊢
      cases hoffer with
      | queued =>
          refine moves_goOn (o := c.outbox.enqueue (reply.frame t.id))
            (u := { t with rest := rest, stage := .active }) [reply] ht free rfl rfl
            (fun t' ha => .sends reply ?_) rfl hline
          rw [hunsent, hrest, ha]
      | waits deadline =>
          refine .turn t { t with rest := rest, stage := .waiting reply } [] ht rfl rfl
            (.keeps ?_) ⟨rfl, rfl, (List.append_nil _).symm⟩ (fun w hw => ?_) rfl
          · rw [hunsent, hrest]
            exact List.prefix_refl _
          · rcases List.mem_append.1 hw with hw | hw
            · exact .inl (hline w hw)
            · obtain rfl := List.mem_singleton.1 hw
              exact .inr ⟨rfl, reply, rfl, rfl⟩
      | refused e cause =>
          exact moves_goOn (o := c.outbox) (u := t.refused reply e) [] ht free rfl rfl
            (fun t' ha => Task.turn_refused cause (hunsent.trans hrest) ha)
            (List.append_nil _).symm hline

theorem moves_runTask (h : c.InLine) (free k now : Nat) :
    Moves k c (c.runTask free k now).1 := by
  cases ht : c.tasks[k]? with
  | none => exact .rest (by simp only [runTask, ht])
  | some t =>
      cases hs : t.stage with
      | ended => exact .rest (by simp only [runTask, ht, hs])
      | idle => exact .rest (by simp only [runTask, ht, hs])
      | aborted =>
          simp only [runTask, ht, hs]
          exact .turn t { t with stage := .ended } [] ht rfl rfl (.keeps List.nil_prefix)
            ⟨rfl, rfl, (List.append_nil _).symm⟩ (fun w hw => .inl (Outbox.mem_withdraw.1 hw)) rfl
      | waiting reply => exact moves_of_waiting h ht hs free now
      | active => exact moves_of_active h ht hs free now

theorem Serves.run_of_task (h : c.Serves runs replied) {i : Nat} (ht : c.tasks[i]? = some t) :
    ∃ run, runs[i]? = some run ∧ t.id = run.frame.id := by
  have hi : i < runs.length := h.length ▸ (List.getElem?_eq_some_iff.1 ht).1
  have hr : runs[i]? = some runs[i] := List.getElem?_eq_getElem hi
  exact ⟨_, hr, (h.task i t _ ht hr).id⟩

theorem Serves.eq_of_id (h : c.Serves runs replied) {i j : Nat} {t u : Task}
    (hi : c.tasks[i]? = some t) (hj : c.tasks[j]? = some u) (he : t.id = u.id) : i = j := by
  obtain ⟨first, hfirst, htid⟩ := h.run_of_task hi
  obtain ⟨second, hsecond, huid⟩ := h.run_of_task hj
  have hd := List.pairwise_iff_getElem.1 h.distinct
  have hget : ∀ {k : Nat} {run : Run}, runs[k]? = some run →
      ∃ hk : k < (runs.map fun run => run.frame.id).length,
        (runs.map fun run => run.frame.id)[k] = run.frame.id := by
    intro k run hk
    obtain ⟨hlt, rfl⟩ := List.getElem?_eq_some_iff.1 hk
    exact ⟨by simpa using hlt, by simp⟩
  obtain ⟨hil, hi'⟩ := hget hfirst
  obtain ⟨hjl, hj'⟩ := hget hsecond
  have hid : first.frame.id = second.frame.id := htid.symm.trans (he.trans huid)
  rcases Nat.lt_trichotomy i j with hlt | heq | hlt
  · exact absurd (hi'.trans (hid.trans hj'.symm)) (hd i j hil hjl hlt)
  · exact heq
  · exact absurd (hj'.trans (hid.symm.trans hi'.symm)) (hd j i hjl hil hlt)

section Turned

variable {t' : Task} (after : c'.tasks = c.tasks.modify k fun _ => t')

include after

theorem task_of_turned (before : c.tasks[k]? = some t) : c'.tasks[k]? = some t' := by
  rw [after, List.getElem?_modify, before]
  simp

theorem other_of_turned {j : Nat} (hj : j ≠ k) : c'.tasks[j]? = c.tasks[j]? := by
  rw [after, List.getElem?_modify]
  simp only [if_neg (Ne.symm hj)]
  cases c.tasks[j]? <;> rfl

end Turned

theorem InLine.moves (h : c.InLine) (hm : Moves k c c') : c'.InLine := by
  cases hm with
  | rest same => exact same ▸ h
  | turn t t' replies before after id turn queued line incoming =>
      intro w hw
      rcases line w hw with ⟨hw, hne⟩ | ⟨ht, r, hs, hf⟩
      · obtain ⟨u, hu, hplace⟩ := h w hw
        exact ⟨u, (other_of_turned after hne).trans hu, hplace⟩
      · exact ⟨t', ht ▸ task_of_turned after before, .inl ⟨r, hs, id.symm ▸ hf⟩⟩

theorem Serves.moves (h : c.Serves runs replied) (hm : Moves k c c') :
    c'.Serves runs (replied ++ c'.outbox.queue.drop c.outbox.queue.length) := by
  have hline := h.line.moves hm
  cases hm with
  | rest same =>
      rw [same, List.drop_length, List.append_nil]
      exact h
  | turn t t' replies before after id turn queued line incoming =>
      have hqueue : c'.outbox.queue.drop c.outbox.queue.length = replies.map (·.frame t.id) := by
        have hq : c'.outbox.queue = c.outbox.queue ++ replies.map (·.frame t.id) := queued.queue
        rw [hq, List.drop_left]
      have hself := task_of_turned after before
      rw [hqueue]
      refine ⟨?_, ?_, hline, ?_, h.distinct⟩
      · rw [after, List.length_modify]
        exact h.length
      · intro i u run hu hrun
        by_cases hi : i = k
        · subst hi
          rw [hself] at hu
          cases hu
          exact (h.task i t run before hrun).turn turn id
        · rw [other_of_turned after hi] at hu
          exact (h.task i u run hu hrun).other fun he => hi (h.eq_of_id before hu he).symm
      · intro f hf
        rcases List.mem_append.1 hf with hf | hf
        · obtain ⟨i, u, r, hu, rfl⟩ := h.origin f hf
          by_cases hi : i = k
          · rw [hi, before] at hu
            cases hu
            exact ⟨k, t', r, hself, by rw [id]⟩
          · exact ⟨i, u, r, (other_of_turned after hi).trans hu, rfl⟩
        · obtain ⟨r, -, rfl⟩ := List.mem_map.1 hf
          exact ⟨k, t', r, hself, by rw [id]⟩

theorem Moves.queued (h : Moves k c c') :
    c.outlet.Queued (c'.outbox.queue.drop c.outbox.queue.length) c'.outlet ∧
      c'.incoming = c.incoming := by
  cases h with
  | rest same =>
      rw [same, List.drop_length]
      exact ⟨c.outlet.queued_nil, rfl⟩
  | turn t _ replies _ _ _ _ queued _ incoming =>
      have hq : c'.outbox.queue = c.outbox.queue ++ replies.map (·.frame t.id) := queued.queue
      rw [hq, List.drop_left]
      exact ⟨queued, incoming⟩

theorem tasks_accept (c : Connection) (router : Router) (free : Nat) (f : Frame) :
    (c.accept router free f).1.tasks = c.tasks ++ [(⟨router, free, f⟩ : Run).task] ∧
      (c.accept router free f).1.outlet = c.outlet ∧
      (c.accept router free f).1.incoming = c.incoming := by
  unfold accept Run.task
  split <;> simp only [*] <;> exact ⟨rfl, rfl, rfl⟩

theorem task_accept (router : Router) (free : Nat) (f : Frame) {i : Nat} (ht : c.tasks[i]? = some t) :
    (c.accept router free f).1.tasks[i]? = some t := by
  rw [(tasks_accept c router free f).1,
    List.getElem?_append_left (List.getElem?_eq_some_iff.1 ht).1, ht]

theorem InLine.accept (h : c.InLine) (router : Router) (free : Nat) (f : Frame) :
    (c.accept router free f).1.InLine := by
  intro w hw
  rw [outbox, (tasks_accept c router free f).2.1] at hw
  obtain ⟨t, ht, hplace⟩ := h w hw
  exact ⟨t, task_accept router free f ht, hplace⟩

theorem Serves.accept (h : c.Serves runs replied) (router : Router) (free : Nat) {f : Frame}
    (fresh : ∀ run ∈ runs, run.frame.id ≠ f.id) :
    (c.accept router free f).1.Serves (runs ++ [⟨router, free, f⟩]) replied := by
  obtain ⟨htasks, -⟩ := tasks_accept c router free f
  refine ⟨?_, ?_, h.line.accept router free f, ?_, ?_⟩
  · rw [htasks, List.length_append, List.length_append, h.length]
    rfl
  · intro i t run ht hrun
    rw [htasks, List.getElem?_append] at ht
    rw [List.getElem?_append] at hrun
    rw [h.length] at ht
    split at ht
    · next hi =>
        rw [if_pos hi] at hrun
        exact h.task i t run ht hrun
    · next hi =>
        rw [if_neg hi] at hrun
        obtain rfl := List.mem_singleton.1 (List.mem_of_getElem? ht)
        obtain rfl := List.mem_singleton.1 (List.mem_of_getElem? hrun)
        refine .start fun g hg he => ?_
        obtain ⟨j, u, r, hu, rfl⟩ := h.origin g hg
        obtain ⟨earlier, hearlier, hid⟩ := h.run_of_task hu
        exact fresh earlier (List.mem_of_getElem? hearlier) (hid.symm.trans he)
  · intro g hg
    obtain ⟨i, t, r, ht, he⟩ := h.origin g hg
    exact ⟨i, t, r, task_accept router free f ht, he⟩
  · rw [List.map_append, List.pairwise_append]
    refine ⟨h.distinct, List.pairwise_singleton _ _, fun id hid other ho => ?_⟩
    obtain ⟨run, hrun, rfl⟩ := List.mem_map.1 hid
    rw [List.mem_singleton.1 ho]
    exact fresh run hrun

structure Aborts (c c' : Connection) : Prop where
  outlet : c'.outlet = c.outlet
  incoming : c'.incoming = c.incoming
  tasks : ∀ i : Nat, c'.tasks[i]? = c.tasks[i]? ∨ c'.tasks[i]? = c.tasks[i]?.map Task.abort

namespace Aborts

theorem refl (c : Connection) : c.Aborts c :=
  ⟨rfl, rfl, fun _ => .inl rfl⟩

theorem modifyTask (c : Connection) (k : Nat) : c.Aborts (c.modifyTask k .abort) := by
  refine ⟨rfl, rfl, fun i => ?_⟩
  simp only [Connection.modifyTask, List.getElem?_modify]
  by_cases hk : k = i
  · right
    simp only [if_pos hk]
    rfl
  · left
    simp only [if_neg hk]
    cases c.tasks[i]? <;> rfl

theorem trans {c'' : Connection} (h : c.Aborts c') (hn : c'.Aborts c'') : c.Aborts c'' := by
  refine ⟨hn.outlet.trans h.outlet, hn.incoming.trans h.incoming, fun i => ?_⟩
  rcases hn.tasks i with hn | hn
  · rw [hn]
    exact h.tasks i
  · right
    rw [hn]
    rcases h.tasks i with h | h
    · rw [h]
    · rw [h, Option.map_map]
      congr 1
      funext t
      exact t.abort_abort

theorem foldl (entries : List (Nat × Nat)) (c : Connection) :
    c.Aborts (entries.foldl (fun c entry => c.modifyTask entry.2 .abort) c) := by
  induction entries generalizing c with
  | nil => exact .refl c
  | cons entry entries ih => exact (modifyTask c entry.2).trans (ih _)

end Aborts

namespace Aborts

variable (h : c.Aborts c') {i : Nat}

include h

theorem before {t' : Task} (ht : c'.tasks[i]? = some t') :
    ∃ t, c.tasks[i]? = some t ∧ (t' = t ∨ t' = t.abort) := by
  rcases h.tasks i with ha | ha
  · exact ⟨t', ha ▸ ht, .inl rfl⟩
  · rw [ha] at ht
    obtain ⟨t, hold, rfl⟩ := Option.map_eq_some_iff.1 ht
    exact ⟨t, hold, .inr rfl⟩

theorem after {t : Task} (ht : c.tasks[i]? = some t) :
    ∃ t', c'.tasks[i]? = some t' ∧ (t' = t ∨ t' = t.abort) := by
  rcases h.tasks i with ha | ha
  · exact ⟨t, ha.trans ht, .inl rfl⟩
  · exact ⟨t.abort, by rw [ha, ht]; rfl, .inr rfl⟩

theorem length : c'.tasks.length = c.tasks.length := by
  have hnone : ∀ i : Nat, c'.tasks[i]? = none ↔ c.tasks[i]? = none := by
    intro i
    rcases h.tasks i with ha | ha
    · rw [ha]
    · rw [ha, Option.map_eq_none_iff]
  simp only [List.getElem?_eq_none_iff] at hnone
  have hle := (hnone c.tasks.length).2 (Nat.le_refl _)
  have hge := (hnone c'.tasks.length).1 (Nat.le_refl _)
  omega

end Aborts

theorem InLine.aborts (h : c.InLine) (ha : c.Aborts c') : c'.InLine := by
  intro w hw
  rw [outbox, ha.outlet] at hw
  obtain ⟨t, ht, hplace⟩ := h w hw
  obtain ⟨t', ht', hcases⟩ := ha.after ht
  refine ⟨t', ht', ?_⟩
  rcases hcases with rfl | rfl
  · exact hplace
  · right
    rcases hplace with ⟨r, hs, _⟩ | hs
    · simp [Task.abort, Task.isLive, hs]
    · simp [Task.abort, Task.isLive, hs]

theorem Serves.aborts (h : c.Serves runs replied) (ha : c.Aborts c') : c'.Serves runs replied := by
  refine ⟨ha.length.trans h.length, ?_, h.line.aborts ha, ?_, h.distinct⟩
  · intro i t' run ht' hrun
    obtain ⟨t, ht, rfl | rfl⟩ := ha.before ht'
    · exact h.task i _ run ht hrun
    · exact (h.task i t run ht hrun).abort
  · intro f hf
    obtain ⟨i, t, r, ht, rfl⟩ := h.origin f hf
    obtain ⟨t', ht', rfl | rfl⟩ := ha.after ht
    · exact ⟨i, _, r, ht', rfl⟩
    · exact ⟨i, _, r, ht', by rw [t.id_abort]⟩

theorem aborts_cancel (c : Connection) (id : UInt32) : c.Aborts (c.cancel id) := by
  unfold cancel
  split
  · next k _ =>
      have ha := Aborts.modifyTask c k
      exact ⟨ha.outlet, ha.incoming, ha.tasks⟩
  · exact .refl c

theorem aborts_finish (c : Connection) (result : Except Error Unit) : c.Aborts (c.finish result) :=
  have ha := Aborts.foldl c.running c
  ⟨ha.outlet, ha.incoming, ha.tasks⟩

theorem InLine.congr (h : c.InLine) (tasks : c'.tasks = c.tasks)
    (waiting : c'.outbox.waiting = c.outbox.waiting) : c'.InLine := by
  intro w hw
  rw [tasks]
  exact h w (waiting ▸ hw)

theorem Serves.congr (h : c.Serves runs replied) (tasks : c'.tasks = c.tasks)
    (waiting : c'.outbox.waiting = c.outbox.waiting) : c'.Serves runs replied where
  length := tasks ▸ h.length
  task i t run ht := h.task i t run (tasks ▸ ht)
  line := h.line.congr tasks waiting
  origin := by
    rw [tasks]
    exact h.origin
  distinct := h.distinct

theorem inLine_empty {limit : UInt32} {outlet : Outlet} (h : outlet.outbox.waiting = []) :
    (empty limit outlet).InLine := by
  intro w hw
  change w ∈ outlet.outbox.waiting at hw
  rw [h] at hw
  cases hw

theorem serves_empty {limit : UInt32} {outlet : Outlet} (h : outlet.outbox.waiting = []) :
    (empty limit outlet).Serves [] [] where
  length := rfl
  task _ _ _ := nofun
  line := inLine_empty h
  origin := nofun
  distinct := List.Pairwise.nil

end Connection

end SchemaRpc
