import Mathlib.Algebra.GroupWithZero.Nat
import Mathlib.Data.List.Basic
import SchemaRpc.Proofs.Transport.Orphans
import SchemaRpc.Server

namespace SchemaRpc

namespace Task

/-- A handler has its permit until its task ends. An aborted task ends when it is dropped. -/
def holdsPermit (t : Task) : Bool :=
  t.isLive && t.hasPermit

theorem holdsPermit_abort (t : Task) : t.abort.holdsPermit = t.holdsPermit := by
  unfold abort
  split
  · next live => rw [holdsPermit, holdsPermit, live]; rfl
  · rfl

theorem permits_eq {t : Task} (live : t.isLive = true) : t.permits = t.holdsPermit.toNat := by
  rw [permits, holdsPermit, live]
  cases t.hasPermit <;> rfl

end Task

namespace Connection

def handlers (c : Connection) : Nat :=
  c.tasks.countP Task.holdsPermit

def Balances (c : Connection) (free : Nat) (after : Connection × Nat) : Prop :=
  after.2 + after.1.handlers = free + c.handlers

variable {c c' : Connection} {n : Nat} {t : Task}

theorem handlers_turned (ht : c.tasks[n]? = some t) (t' : Task) :
    (c.modifyTask n fun _ => t').handlers + t.holdsPermit.toNat =
      c.handlers + t'.holdsPermit.toNat := by
  obtain ⟨hn, rfl⟩ := List.getElem?_eq_some_iff.1 ht
  have hset : c.tasks.modify n (fun _ => t') = c.tasks.set n t' := by
    rw [List.modify_eq_set_getElem?, ht]
    rfl
  have hpos : c.tasks[n].holdsPermit = true → 0 < c.tasks.countP Task.holdsPermit := fun h =>
    List.countP_pos_iff.2 ⟨_, List.getElem_mem hn, h⟩
  rw [handlers, handlers, modifyTask, hset, List.countP_set hn]
  cases hold : c.tasks[n].holdsPermit with
  | false => cases t'.holdsPermit <;> rfl
  | true =>
      have := hpos hold
      cases t'.holdsPermit <;> simp only [Bool.toNat_true, Bool.toNat_false] <;> grind

theorem handlers_spawn (c : Connection) (t : Task) :
    (c.spawn t).handlers = c.handlers + t.holdsPermit.toNat := by
  rw [handlers, spawn, List.countP_append, List.countP_singleton, handlers]
  cases t.holdsPermit <;> rfl

theorem handlers_aborts (h : c.Aborts c') : c'.handlers = c.handlers := by
  have hsame : c'.tasks.map Task.holdsPermit = c.tasks.map Task.holdsPermit := by
    refine List.ext_getElem? fun i => ?_
    rw [List.getElem?_map, List.getElem?_map]
    rcases h.tasks i with hi | hi
    · rw [hi]
    · rw [hi, Option.map_map]
      exact congrArg (Option.map · c.tasks[i]?) (funext Task.holdsPermit_abort)
  have hcount : ∀ c : Connection, c.handlers = (c.tasks.map Task.holdsPermit).countP id := fun c => by
    rw [List.countP_map]
    rfl
  rw [hcount, hsame, ← hcount]

theorem balances_endTask (ht : c.tasks[n]? = some t) (live : t.isLive = true) {u : Task}
    (permit : u.hasPermit = t.hasPermit) (free : Nat) : c.Balances free (c.endTask free n u) := by
  have hcount := handlers_turned ht { u with stage := .ended }
  have hends : Task.holdsPermit { u with stage := .ended } = false := rfl
  have hpermits : u.permits = t.holdsPermit.toNat := by
    rw [← Task.permits_eq live, Task.permits, permit, Task.permits]
  rw [hends, Bool.toNat_false] at hcount
  simp only [Balances, endTask, hpermits]
  omega

theorem balances_turned (ht : c.tasks[n]? = some t) (live : t.isLive = true) {u : Task}
    (alive : u.isLive = true) (permit : u.hasPermit = t.hasPermit) (free : Nat) :
    c.Balances free (c.modifyTask n fun _ => u, free) := by
  have hcount := handlers_turned ht u
  have hsame : u.holdsPermit = t.holdsPermit := by
    rw [Task.holdsPermit, alive, permit, Task.holdsPermit, live]
  rw [hsame] at hcount
  simp only [Balances]
  omega

theorem balances_goOn (ht : c.tasks[n]? = some t) (live : t.isLive = true) {u : Task}
    (alive : u.isLive = true) (permit : u.hasPermit = t.hasPermit) (free : Nat) :
    c.Balances free (c.goOn free n u) := by
  unfold goOn
  split
  · exact balances_turned ht live alive permit free
  · split
    · exact balances_endTask ht live permit free
    · exact balances_turned (u := { u with stage := .idle }) ht live rfl permit free

theorem balances_runTask (c : Connection) (free n now : Nat) :
    c.Balances free (c.runTask free n now) := by
  unfold runTask
  cases ht : c.tasks[n]? with
  | none => rfl
  | some t =>
      have still : ∀ o : Outbox, (c.withOutbox o).tasks[n]? = some t := fun _ => ht
      cases hs : t.stage with
      | ended => simp only [hs]; rfl
      | idle => simp only [hs]; rfl
      | aborted =>
          have live : t.isLive = true := by rw [Task.isLive, hs]
          simp only [hs]
          exact balances_endTask (still _) live rfl free
      | waiting reply =>
          have live : t.isLive = true := by rw [Task.isLive, hs]
          simp only [hs]
          split
          · rfl
          · next result outbox _ =>
              cases result with
              | ok done =>
                  exact balances_goOn (u := t.told reply (.ok done)) (still outbox) live rfl rfl free
              | error e =>
                  exact balances_goOn (u := t.told reply (.error e)) (still outbox) live rfl rfl free
      | active =>
          have live : t.isLive = true := by rw [Task.isLive, hs]
          cases hrest : t.rest with
          | nil =>
              simp only [hs, hrest]
              exact balances_goOn ht live live rfl free
          | cons reply rest =>
              simp only [hs, hrest]
              generalize c.outbox.offer n (reply.frame t.id) now = answer
              obtain ⟨outbox, offer⟩ := answer
              cases offer with
              | queued =>
                  exact balances_goOn (u := { t with stage := .active, rest := rest }) (still outbox)
                    live rfl rfl free
              | waits =>
                  exact balances_turned (u := { t with stage := .waiting reply, rest := rest })
                    (still outbox) live rfl rfl free
              | refused e =>
                  exact balances_goOn (u := t.refused reply e) (still outbox) live rfl rfl free

theorem balances_accept (c : Connection) (router : Router) (free : Nat) (f : Frame) :
    c.Balances free (c.accept router free f) := by
  have htidy : ∀ t : Task, (c.tidy.spawn t).handlers = c.handlers + t.holdsPermit.toNat :=
    c.tidy.handlers_spawn
  unfold accept
  split
  · simp only [Balances, htidy]
    rfl
  · simp only [Balances, htidy]
    rfl
  · next route request free _ =>
      have hstart := htidy (.ofAnswer f.id (router.answer route request))
      have hnew : (Task.ofAnswer f.id (router.answer route request)).holdsPermit = true := rfl
      rw [hnew, Bool.toNat_true] at hstart
      change free + (c.tidy.spawn _).handlers = _
      omega

theorem balances_dispatch (c : Connection) (router : Router) (free : Nat) (f : Frame) :
    c.Balances free (c.dispatch router free f) := by
  unfold dispatch
  split
  · exact c.balances_accept router free f
  · exact congrArg (free + ·) (handlers_aborts (c.aborts_cancel f.id))
  · rfl

theorem handlers_read (c : Connection) (data : Bytes) : (c.read data).1.handlers = c.handlers := by
  obtain ⟨buffer, aborts⟩ := c.aborts_read data
  exact handlers_aborts (c := { c with incoming := buffer }) aborts

end Connection

namespace Server

def handlers (s : Server) : Nat :=
  (s.connections.map Connection.handlers).sum

inductive Step (s : Server) : Server → Prop
  | connect (limit : UInt32) (outlet : Outlet) : Step s (s.connect (.empty limit outlet))
  | dispatch (i : Nat) (f : Frame) : Step s (s.dispatch i f)
  | read (i : Nat) (data : Bytes) : Step s (s.read i data).1
  | finish (i : Nat) (result : Except Error Unit) :
      Step s (s.update i fun c free => (c.finish result, free))
  | task (i k now : Nat) : Step s (s.runTask i k now)
  | outlet (i : Nat) (outlet : Outlet) :
      Step s (s.update i fun c free => ({ c with outlet := outlet }, free))
  | answers (router : Router) : Step s { s with router := router }

inductive Reachable (limit : Nat) : Server → Prop
  | start (router : Router) : Reachable limit (empty router limit)
  | step {s s' : Server} (h : Reachable limit s) (step : s.Step s') : Reachable limit s'

variable {s s' : Server} {c : Connection} {i limit : Nat}

theorem update_eq (hc : s.connections[i]? = some c)
    (step : Connection → Nat → Connection × Nat) :
    s.update i step =
      { s with
        free := (step c s.free).2
        connections := s.connections.set i (step c s.free).1 } := by
  rw [update, hc]

theorem sum_handlers_set {connections : List Connection} (hc : connections[i]? = some c)
    (c' : Connection) :
    ((connections.set i c').map Connection.handlers).sum + c.handlers =
      (connections.map Connection.handlers).sum + c'.handlers := by
  induction connections generalizing i with
  | nil => cases hc
  | cons first rest ih =>
      cases i with
      | zero =>
          cases hc
          simp only [List.set_cons_zero, List.map_cons, List.sum_cons]
          omega
      | succ i =>
          have := ih (i := i) (by simpa using hc)
          simp only [List.set_cons_succ, List.map_cons, List.sum_cons]
          omega

theorem balances_update (i : Nat) {step : Connection → Nat → Connection × Nat}
    (h : ∀ (c : Connection) (free : Nat), c.Balances free (step c free)) :
    (s.update i step).free + (s.update i step).handlers = s.free + s.handlers := by
  cases hc : s.connections[i]? with
  | none => rw [update, hc]
  | some c =>
      have hstep : (step c s.free).2 + (step c s.free).1.handlers = s.free + c.handlers := h c s.free
      have hsum := sum_handlers_set hc (step c s.free).1
      rw [update_eq hc]
      simp only [handlers]
      omega

theorem Step.balances (step : s.Step s') : s'.free + s'.handlers = s.free + s.handlers := by
  cases step with
  | connect limit outlet =>
      have hnew : (Connection.empty limit outlet).handlers = 0 := rfl
      simp only [Server.connect, handlers, List.map_append, List.sum_append, List.map_singleton,
        List.sum_singleton, hnew, Nat.add_zero]
  | dispatch i f => exact balances_update i fun c free => c.balances_dispatch s.router free f
  | read i data =>
      have hread : (s.read i data).1 = s.update i fun c free => ((c.read data).1, free) := by
        rw [Server.read, update]
        cases s.connections[i]? <;> rfl
      rw [hread]
      exact balances_update i fun c free => congrArg (free + ·) (c.handlers_read data)
  | finish i result =>
      exact balances_update i fun c free =>
        congrArg (free + ·) (Connection.handlers_aborts (c.aborts_finish result))
  | task i k now => exact balances_update i fun c free => c.balances_runTask free k now
  | outlet i outlet => exact balances_update i fun c free => rfl
  | answers router => rfl

theorem Reachable.balances (h : s.Reachable limit) : s.free + s.handlers = limit := by
  induction h with
  | start router => rfl
  | step _ step ih => exact step.balances.trans ih

def Spawns (s : Server) (i : Nat) (f : Frame) (t : Task) : Prop :=
  ∃ c c', s.connections[i]? = some c ∧ (s.dispatch i f).connections[i]? = some c' ∧
    c'.tasks = c.tasks ++ [t]

theorem spawns_iff (hc : s.connections[i]? = some c) {f : Frame} {new t : Task}
    (hnew : (c.dispatch s.router s.free f).1.tasks = c.tasks ++ [new]) :
    s.Spawns i f t ↔ t = new := by
  have hi := (List.getElem?_eq_some_iff.1 hc).1
  have hafter : (s.dispatch i f).connections[i]? = some (c.dispatch s.router s.free f).1 := by
    rw [dispatch, update_eq hc]
    exact List.getElem?_set_self hi
  constructor
  · rintro ⟨d, d', hd, hd', htasks⟩
    rw [hc] at hd
    rw [hafter] at hd'
    cases hd
    cases hd'
    rw [hnew] at htasks
    exact (List.singleton_inj.1 (List.append_cancel_left htasks)).symm
  · rintro rfl
    exact ⟨c, _, hc, hafter, hnew⟩

theorem tasks_dispatch (c : Connection) (router : Router) (free : Nat) {f : Frame} {route : String}
    {request : Bytes} (hf : f.kind = .ok .request)
    (readable : Route.split f.payload = .ok (route, request)) :
    (c.dispatch router free f).1.tasks = c.tasks ++
      [if free = 0 then .refusal f.id Connection.exhausted
        else .ofAnswer f.id (router.answer route request)] := by
  rw [Connection.dispatch, hf]
  cases free with
  | zero => simp only [Connection.accept, readable]; rfl
  | succ free => simp only [Connection.accept, readable]; rfl

theorem free_dispatch (c : Connection) (router : Router) (free : Nat) {f : Frame}
    (h : f.kind = .ok .request → ∃ e, Route.split f.payload = .error e) :
    (c.dispatch router free f).2 = free := by
  unfold Connection.dispatch
  split
  · next hf =>
      obtain ⟨e, he⟩ := h hf
      simp only [Connection.accept, he]
  · rfl
  · rfl

theorem limit_exact (h : s.Reachable limit) :
    s.handlers ≤ limit ∧ s.free + s.handlers = limit ∧
    ∀ (i : Nat) (f : Frame), i < s.connections.length →
      (∀ (route : String) (request : Bytes), f.kind = .ok .request →
        Route.split f.payload = .ok (route, request) →
          (s.Spawns i f (.refusal f.id Connection.exhausted) ↔ s.handlers = limit) ∧
          (s.Spawns i f (.ofAnswer f.id (s.router.answer route request)) ↔ s.handlers < limit)) ∧
      ((f.kind = .ok .request → ∃ e, Route.split f.payload = .error e) →
        (s.dispatch i f).free = s.free ∧ (s.dispatch i f).handlers = s.handlers) := by
  have total := h.balances
  refine ⟨by omega, total, fun i f hi => ?_⟩
  have hc : s.connections[i]? = some s.connections[i] := List.getElem?_eq_getElem hi
  constructor
  · intro route request hf readable
    have htasks := tasks_dispatch s.connections[i] s.router s.free hf readable
    have hdistinct : Task.refusal f.id Connection.exhausted ≠
        Task.ofAnswer f.id (s.router.answer route request) := fun he =>
      Bool.false_ne_true (congrArg Task.hasPermit he)
    rw [spawns_iff hc htasks, spawns_iff hc htasks]
    split
    · next hfree => exact ⟨iff_of_true rfl (by omega), iff_of_false hdistinct.symm (by omega)⟩
    · next hfree => exact ⟨iff_of_false hdistinct (by omega), iff_of_true rfl (by omega)⟩
  · intro other
    have hfree : (s.dispatch i f).free = s.free := by
      rw [dispatch, update_eq hc]
      exact free_dispatch _ _ _ other
    have hafter := (h.step (.dispatch i f)).balances
    exact ⟨hfree, by omega⟩

namespace Contention

open Connection.Overlap (fresh request split_request)

def opened : Server :=
  ((empty Connection.Overlap.router 1).connect fresh).connect fresh

def full : Server :=
  opened.dispatch 0 request

theorem reachable_full : full.Reachable 1 :=
  .step (.step (.step (.start _) (.connect _ _)) (.connect _ _)) (.dispatch 0 request)

theorem handlers_full : full.handlers = 1 := by
  have hf : request.kind = .ok .request := Frame.kind_ofKind ..
  have hc : opened.connections[0]? = some fresh := rfl
  simp only [full, dispatch, update_eq hc, Connection.dispatch, hf, Connection.accept, split_request]
  rfl

end Contention

theorem limit_exact_contention :
    Contention.full.handlers = 1 ∧
      Contention.full.Spawns 1 Connection.Overlap.request
        (.refusal 1 Connection.exhausted) := by
  have htwo : Contention.full.connections.length = 2 := by
    rw [Contention.full, dispatch, update_eq (c := Connection.Overlap.fresh) rfl, List.length_set]
    rfl
  obtain ⟨-, -, exact⟩ := limit_exact Contention.reachable_full
  obtain ⟨readable, -⟩ := exact 1 Connection.Overlap.request (by omega)
  obtain ⟨refused, -⟩ := readable _ _ (Frame.kind_ofKind ..) Connection.Overlap.split_request
  exact ⟨Contention.handlers_full, refused.2 Contention.handlers_full⟩

end Server

end SchemaRpc
