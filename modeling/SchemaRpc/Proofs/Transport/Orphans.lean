import Mathlib.Logic.Relation
import SchemaRpc.Proofs.Status
import SchemaRpc.Proofs.Transport.Connections

namespace SchemaRpc.Connection

def Handles (c : Connection) (n : Nat) (id : UInt32) : Prop :=
  ∃ t, c.tasks[n]? = some t ∧ t.id = id ∧ t.hasPermit = true ∧ t.isRunning = true

/-- A later request with the id has come to a handler. -/
def Displaced (c : Connection) (n : Nat) (id : UInt32) : Prop :=
  ∃ m t, n < m ∧ c.tasks[m]? = some t ∧ t.id = id ∧ t.hasPermit = true

structure Tracks (c : Connection) : Prop where
  ascending : Assoc.Ascending c.running
  latest : ∀ {key n : Nat}, Assoc.get? key c.running = some n →
    ∃ t, c.tasks[n]? = some t ∧ t.id.toNat = key ∧ ¬ c.Displaced n t.id
  listed : ∀ {n : Nat} {id : UInt32}, c.Handles n id →
    Assoc.get? id.toNat c.running = some n ∨ c.Displaced n id
  ended : c.isServing = false → c.running = []

variable {c c' : Connection} {n : Nat} {id : UInt32}

theorem Handles.lt (h : c.Handles n id) : n < c.tasks.length := by
  obtain ⟨t, ht, -⟩ := h
  exact (List.getElem?_eq_some_iff.1 ht).1

theorem Handles.before (h : c'.Handles n id) (hc : c.Carries c') (hn : n < c.tasks.length) :
    c.Handles n id := by
  obtain ⟨t', ht', rfl, hp, hr⟩ := h
  obtain ⟨t, ht, continues⟩ := hc.before ht' hn
  exact ⟨t, ht, continues.id.symm, continues.hasPermit.symm.trans hp, continues.isRunning hr⟩

theorem Displaced.carries (h : c.Displaced n id) (hc : c.Carries c') : c'.Displaced n id := by
  obtain ⟨m, t, hm, ht, rfl, hp⟩ := h
  obtain ⟨t', ht', continues⟩ := hc m t ht
  exact ⟨m, t', hm, ht', continues.id, continues.hasPermit.trans hp⟩

theorem Displaced.before (h : c'.Displaced n id) (hc : c.Carries c')
    (hl : c'.tasks.length = c.tasks.length) : c.Displaced n id := by
  obtain ⟨m, t', hm, ht', rfl, hp⟩ := h
  obtain ⟨t, ht, continues⟩ := hc.before ht' (hl ▸ (List.getElem?_eq_some_iff.1 ht').1)
  exact ⟨m, t, hm, ht, continues.id.symm, continues.hasPermit.symm.trans hp⟩

theorem Tracks.shrink (h : c.Tracks) (hc : c.Carries c') (hl : c'.tasks.length = c.tasks.length)
    (ascending : Assoc.Ascending c'.running)
    (fewer : ∀ {key m : Nat}, Assoc.get? key c'.running = some m → Assoc.get? key c.running = some m)
    (kept : ∀ {m : Nat} {id : UInt32}, c'.Handles m id → Assoc.get? id.toNat c.running = some m →
      Assoc.get? id.toNat c'.running = some m)
    (ended : c'.isServing = false → c'.running = []) : c'.Tracks where
  ascending := ascending
  latest hm := by
    obtain ⟨t, ht, hkey, hd⟩ := h.latest (fewer hm)
    obtain ⟨t', ht', continues⟩ := hc _ t ht
    exact ⟨t', ht', continues.id.symm ▸ hkey, fun hd' => hd (continues.id ▸ hd'.before hc hl)⟩
  listed hm := by
    rcases h.listed (hm.before hc (hl ▸ hm.lt)) with hget | hd
    · exact .inl (kept hm hget)
    · exact .inr (hd.carries hc)
  ended := ended

theorem Tracks.congr (h : c.Tracks) (hc : c.Carries c') (hl : c'.tasks.length = c.tasks.length)
    (running : c'.running = c.running) (result : c'.result = c.result) : c'.Tracks := by
  refine h.shrink hc hl (running ▸ h.ascending) (running ▸ id) (fun _ => running ▸ id) fun hs => ?_
  rw [isServing, result] at hs
  exact running ▸ h.ended hs

theorem Tracks.tidy (h : c.Tracks) : c.tidy.Tracks := by
  have ascending : Assoc.Ascending c.tidy.running := List.Pairwise.filter _ h.ascending
  refine h.shrink (.of_tasks rfl) rfl ascending (fun hm => ?_) (fun hm hget => ?_) fun hs => ?_
  · exact Assoc.get?_eq_some_of_mem h.ascending
      (List.mem_filter.1 (Assoc.mem_of_get?_eq_some hm)).1
  · obtain ⟨t, ht, -, -, hr⟩ := hm
    refine Assoc.get?_eq_some_of_mem ascending
      (List.mem_filter.2 ⟨Assoc.mem_of_get?_eq_some hget, ?_⟩)
    change c.tasks[_]? = some t at ht
    rw [hasEnded, ht, Option.any_some, Task.isLive_of_isRunning hr]
    rfl
  · rw [Connection.tidy, h.ended hs]
    rfl

theorem carries_spawn (c : Connection) (t : Task) : c.Carries (c.spawn t) := by
  intro m u hu
  refine ⟨u, ?_, .refl u⟩
  rw [spawn, List.getElem?_append_left (List.getElem?_eq_some_iff.1 hu).1]
  exact hu

theorem task_spawn {t u : Task} {m : Nat} (h : (c.spawn t).tasks[m]? = some u) :
    c.tasks[m]? = some u ∨ m = c.tasks.length ∧ u = t := by
  rcases Nat.lt_or_ge m c.tasks.length with hlt | hge
  · rw [spawn, List.getElem?_append_left hlt] at h
    exact .inl h
  · rw [spawn, List.getElem?_append_right hge] at h
    obtain ⟨hm, rfl⟩ := List.getElem?_eq_some_iff.1 h
    rw [List.length_singleton] at hm
    exact .inr ⟨by omega, List.getElem_singleton _⟩

theorem Displaced.of_spawn {t : Task} (h : (c.spawn t).Displaced n id)
    (ht : t.hasPermit = false ∨ t.id ≠ id) : c.Displaced n id := by
  obtain ⟨m, u, hm, hu, rfl, hp⟩ := h
  rcases task_spawn hu with hu | ⟨-, rfl⟩
  · exact ⟨m, u, hm, hu, rfl, hp⟩
  · rcases ht with ht | ht
    · rw [hp] at ht
      cases ht
    · exact absurd rfl ht

theorem Tracks.spawn (h : c.Tracks) {t : Task} (ht : t.hasPermit = false) :
    (c.spawn t).Tracks where
  ascending := h.ascending
  latest hm := by
    obtain ⟨u, hu, hkey, hd⟩ := h.latest hm
    obtain ⟨u', hu', continues⟩ := c.carries_spawn t _ u hu
    exact ⟨u', hu', continues.id.symm ▸ hkey, fun hd' => hd (continues.id ▸ hd'.of_spawn (.inl ht))⟩
  listed {m id} hm := by
    have hlt : m < c.tasks.length := by
      obtain ⟨u, hu, -, hp, -⟩ := hm
      rcases task_spawn hu with hu | ⟨-, rfl⟩
      · exact (List.getElem?_eq_some_iff.1 hu).1
      · rw [ht] at hp
        cases hp
    rcases h.listed (hm.before (c.carries_spawn t) hlt) with hget | hd
    · exact .inl hget
    · exact .inr (hd.carries (c.carries_spawn t))
  ended := h.ended

theorem Tracks.start (h : c.Tracks) {t : Task} (ht : t.hasPermit = true)
    (serving : c.isServing = true) : (c.start t).Tracks where
  -- under its id the new task takes the place of an older one, which is displaced from then on
  ascending := Assoc.ascending_insert h.ascending
  latest {key m} hm := by
    rw [Connection.start, Assoc.get?_insert] at hm
    split at hm
    · next hkey =>
        cases hm
        refine ⟨t, List.getElem?_concat_length, hkey.symm, ?_⟩
        rintro ⟨m, u, hlt, hu, -⟩
        rcases task_spawn hu with hu | ⟨rfl, -⟩
        · exact Nat.lt_asymm hlt (List.getElem?_eq_some_iff.1 hu).1
        · exact Nat.lt_irrefl _ hlt
    · next hkey =>
        obtain ⟨u, hu, rfl, hd⟩ := h.latest hm
        obtain ⟨u', hu', continues⟩ := c.carries_spawn t _ u hu
        refine ⟨u', hu', congrArg _ continues.id, fun hd' => hd ?_⟩
        rw [continues.id] at hd'
        exact hd'.of_spawn (.inr fun he => hkey (congrArg _ he.symm))
  listed {m id} hm := by
    rw [Connection.start, Assoc.get?_insert]
    rcases Nat.lt_or_ge m c.tasks.length with hlt | hge
    · by_cases hid : t.id = id
      · exact .inr ⟨_, t, hlt, List.getElem?_concat_length, hid, ht⟩
      · rw [if_neg fun he => hid (UInt32.toNat_inj.1 he).symm]
        rcases h.listed (hm.before (c.carries_spawn t) hlt) with hget | hd
        · exact .inl hget
        · exact .inr (hd.carries (c.carries_spawn t))
    · obtain ⟨u, hu, rfl, -⟩ := hm
      rcases task_spawn hu with hu | ⟨rfl, rfl⟩
      · exact absurd (List.getElem?_eq_some_iff.1 hu).1 (Nat.not_lt.2 hge)
      · rw [if_pos rfl]
        exact .inl rfl
  ended hs := by
    change c.isServing = false at hs
    rw [serving] at hs
    cases hs

theorem Tracks.accept (h : c.Tracks) (serving : c.isServing = true) (router : Router) (free : Nat)
    (f : Frame) : (c.accept router free f).1.Tracks := by
  unfold Connection.accept
  split
  · exact h.tidy.spawn rfl
  · exact h.tidy.spawn rfl
  · exact h.tidy.start rfl serving

theorem not_handles_abort (c : Connection) (n : Nat) (id : UInt32) :
    ¬ (c.modifyTask n .abort).Handles n id := by
  rintro ⟨t, ht, -, -, hr⟩
  rw [modifyTask, List.getElem?_modify] at ht
  obtain ⟨u, -, rfl⟩ := Option.map_eq_some_iff.1 ht
  rw [if_pos rfl, u.isRunning_abort] at hr
  cases hr

theorem not_handles_foldl {entries : List (Nat × Nat)} {key : Nat} (h : (key, n) ∈ entries) :
    ¬ (entries.foldl (fun c entry => c.modifyTask entry.2 .abort) c).Handles n id := by
  induction entries generalizing c with
  | nil => cases h
  | cons entry entries ih =>
      rcases List.mem_cons.1 h with rfl | h
      · intro hn
        have ha := Aborts.foldl entries (c.modifyTask n .abort)
        exact not_handles_abort c n id (hn.before ha.carries (ha.length ▸ hn.lt))
      · exact ih h

theorem task_foldl_of_ne {entries : List (Nat × Nat)} (h : ∀ entry ∈ entries, entry.2 ≠ n) :
    (entries.foldl (fun c entry => c.modifyTask entry.2 .abort) c).tasks[n]? = c.tasks[n]? := by
  induction entries generalizing c with
  | nil => rfl
  | cons entry entries ih =>
      have hne := h entry List.mem_cons_self
      exact (ih fun e he => h e (List.mem_cons_of_mem _ he)).trans (task_modifyTask_of_ne hne _)

section

variable (h : c.Tracks)

include h

theorem Tracks.ne_of_displaced {key m : Nat} (hget : Assoc.get? key c.running = some m)
    (hn : c.Handles n id) (hd : c.Displaced n id) : m ≠ n := by
  rintro rfl
  obtain ⟨t, ht, -, hlatest⟩ := h.latest hget
  obtain ⟨u, hu, rfl, -⟩ := hn
  rw [ht] at hu
  cases hu
  exact hlatest hd

theorem Tracks.handles_cancel :
    (c.cancel id).Handles n id ↔ c.Handles n id ∧ c.Displaced n id := by
  have ha := c.aborts_cancel id
  constructor
  · intro hn
    have hold := hn.before ha.carries (ha.length ▸ hn.lt)
    refine ⟨hold, (h.listed hold).resolve_left fun hget => ?_⟩
    rw [cancel, hget] at hn
    exact c.not_handles_abort n id hn
  · rintro ⟨hn, hd⟩
    unfold cancel
    split
    · next m hget =>
        have hne := h.ne_of_displaced hget hn hd
        obtain ⟨t, ht, rest⟩ := hn
        exact ⟨t, (task_modifyTask_of_ne hne _).trans ht, rest⟩
    · exact hn

theorem Tracks.handles_finish (result : Except Error Unit) :
    (c.finish result).Handles n id ↔ c.Handles n id ∧ c.Displaced n id := by
  have ha := c.aborts_finish result
  constructor
  · intro hn
    have hold := hn.before ha.carries (ha.length ▸ hn.lt)
    refine ⟨hold, (h.listed hold).resolve_left fun hget => ?_⟩
    exact not_handles_foldl (Assoc.mem_of_get?_eq_some hget) hn
  · rintro ⟨hn, hd⟩
    have hne : ∀ entry ∈ c.running, entry.2 ≠ n := fun entry he =>
      h.ne_of_displaced (Assoc.get?_eq_some_of_mem h.ascending he) hn hd
    obtain ⟨t, ht, rest⟩ := hn
    exact ⟨t, (task_foldl_of_ne hne).trans ht, rest⟩

theorem Tracks.cancel (cancelled : UInt32) : (c.cancel cancelled).Tracks := by
  have ha := c.aborts_cancel cancelled
  have running : (c.cancel cancelled).running = Assoc.erase cancelled.toNat c.running := by
    unfold Connection.cancel
    split
    · rfl
    · next hget =>
        refine Assoc.ext h.ascending (Assoc.ascending_erase h.ascending) fun key => ?_
        rw [Assoc.get?_erase h.ascending]
        split
        · next hkey => rw [hkey, hget]
        · rfl
  have result : (c.cancel cancelled).result = c.result := by
    unfold Connection.cancel
    split <;> rfl
  refine h.shrink ha.carries ha.length ?_ (fun {key m} hm => ?_) (fun {m i} hm hget => ?_) fun hs => ?_
  · exact running ▸ Assoc.ascending_erase h.ascending
  · rw [running, Assoc.get?_erase h.ascending] at hm
    split at hm
    · cases hm
    · exact hm
  · rw [running, Assoc.get?_erase h.ascending, if_neg, hget]
    -- what goes on after its id has been cancelled was displaced, so it was not in the table
    intro hi
    obtain rfl := UInt32.toNat_inj.1 hi
    obtain ⟨hold, hd⟩ := h.handles_cancel.1 hm
    exact h.ne_of_displaced hget hold hd rfl
  · rw [isServing, result] at hs
    rw [running, h.ended hs]
    rfl

theorem Tracks.finish (result : Except Error Unit) : (c.finish result).Tracks := by
  have ha := c.aborts_finish result
  refine h.shrink ha.carries ha.length List.Pairwise.nil nofun (fun hm hget => ?_) fun _ => rfl
  obtain ⟨hold, hd⟩ := (h.handles_finish result).1 hm
  exact absurd rfl (h.ne_of_displaced hget hold hd)

end

theorem Tracks.step {who : Option Nat} (h : c.Tracks) (step : c.Step who c') : c'.Tracks := by
  cases step with
  | dispatch router free f serving =>
      unfold Connection.dispatch
      split
      · exact h.accept serving router free f
      · exact h.cancel f.id
      · exact h
  | read data =>
      obtain ⟨buffer, hr | ⟨-, e, hr⟩⟩ := c.read_cases data
      · exact hr ▸ h.congr (.of_tasks rfl) rfl rfl rfl
      · have hb : Tracks { c with incoming := buffer } := h.congr (.of_tasks rfl) rfl rfl rfl
        exact hr ▸ hb.finish (.error e)
  | finish result serving => exact h.finish result
  | task free k now =>
      have hc := c.carries_runTask free k now
      rcases c.runTask_eq free k now with hr | ⟨o, t, t', turns⟩
      · exact hr.symm ▸ h
      · rw [turns.eq] at hc ⊢
        exact h.congr hc (List.length_modify ..) rfl rfl
  | write step => exact h.congr (.of_tasks rfl) rfl rfl rfl
  | pipe pipe => exact h.congr (.of_tasks rfl) rfl rfl rfl

theorem tracks_empty (limit : UInt32) (outlet : Outlet) : (empty limit outlet).Tracks where
  ascending := List.Pairwise.nil
  latest := nofun
  listed := by
    rintro n id ⟨t, ht, -⟩
    cases ht
  ended _ := rfl

theorem Reachable.tracks (h : c.Reachable) : c.Tracks := by
  obtain ⟨limit, outlet, -, h⟩ := h
  induction h with
  | refl => exact tracks_empty limit outlet
  | tail _ step ih =>
      obtain ⟨who, step⟩ := step
      exact ih.step step

theorem handlers_stopped (h : c.Reachable) :
    (∀ (router : Router) (free : Nat) (f : Frame), f.kind = .ok .cancel → ∀ n,
      ((c.dispatch router free f).1.Handles n f.id ↔ c.Handles n f.id ∧ c.Displaced n f.id) ∧
      ∀ d, (c.dispatch router free f).1.Leads d → n < c.tasks.length → d.Handles n f.id →
        c.Displaced n f.id) ∧
    (∀ (result : Except Error Unit) (n : Nat) (id : UInt32),
      (c.finish result).Handles n id ↔ c.Handles n id ∧ c.Displaced n id) ∧
    (c.isServing = false → ∀ (n : Nat) (id : UInt32), c.Handles n id → c.Displaced n id) := by
  have tracks := h.tracks
  refine ⟨fun router free f hf n => ?_, fun result n id => tracks.handles_finish result, ?_⟩
  · have hdispatch : (c.dispatch router free f).1 = c.cancel f.id := by rw [dispatch, hf]
    rw [hdispatch]
    refine ⟨tracks.handles_cancel, fun d hd hn hh => ?_⟩
    have hlength : n < (c.cancel f.id).tasks.length := by
      rw [(c.aborts_cancel f.id).length]
      exact hn
    exact (tracks.handles_cancel.1 (hh.before (Leads.carries hd) hlength)).2
  · intro hs n id hn
    refine (tracks.listed hn).resolve_left fun hget => ?_
    rw [tracks.ended hs] at hget
    cases hget

namespace Overlap

def wait : UnaryMethod Status Status := ⟨⟨"clock", "Wait"⟩⟩

def router : Router := .unary .empty wait fun _ => .pending

def message : Bytes := Typed.encode (⟨.ok, "forever"⟩ : Status)

def request : Frame := .request 1 wait.path.route message

def cancel : Frame := .ofKind .cancel 1 []

def fresh : Connection :=
  empty FrameBuffer.defaultLimit (.empty (.empty 4 0) (.empty 4096))

def twice : Connection :=
  ((fresh.dispatch router 2 request).1.dispatch router 1 request).1

theorem reachable_twice : twice.Reachable := by
  have serving : (fresh.dispatch router 2 request).1.isServing = true := by
    rw [isServing, result_dispatch]
    rfl
  refine ⟨FrameBuffer.defaultLimit, .empty (.empty 4 0) (.empty 4096), rfl, ?_⟩
  exact .tail (.single ⟨none, .dispatch router 2 request rfl⟩)
    ⟨none, .dispatch router 1 request serving⟩

theorem split_request : Route.split request.payload = .ok (wait.path.route, message) :=
  Route.split_join (by cbv) (by cbv)

theorem answer_request : router.answer wait.path.route message = ⟨[], none⟩ := by
  have read : Typed.decode .replace message = .ok (⟨.ok, "forever"⟩ : Status) :=
    Status.decode_encode .replace _ (by cbv)
  rw [Router.answer, router, Router.unary, Router.find?_insert, if_pos rfl]
  simp only [Router.decoding, read]
  rfl

theorem tasks_twice : twice.tasks =
    [⟨1, [], false, .active, true, none⟩, ⟨1, [], false, .active, true, none⟩] := by
  have hf : request.kind = .ok .request := Frame.kind_ofKind ..
  simp only [twice, dispatch, hf, accept, split_request, answer_request]
  rfl

theorem handles_twice : twice.Handles 0 1 ∧ twice.Handles 1 1 ∧ twice.Displaced 0 1 := by
  rw [Handles, Handles, Displaced, tasks_twice]
  exact ⟨⟨_, rfl, rfl, rfl, rfl⟩, ⟨_, rfl, rfl, rfl, rfl⟩, 1, _, Nat.zero_lt_one, rfl, rfl, rfl⟩

theorem not_displaced_twice : ¬ twice.Displaced 1 1 := by
  rintro ⟨m, t, hm, ht, -⟩
  rw [tasks_twice] at ht
  have hlt := (List.getElem?_eq_some_iff.1 ht).1
  exact Nat.not_lt.2 hm hlt

end Overlap

theorem handlers_stopped_overlap :
    (Overlap.twice.dispatch Overlap.router 0 Overlap.cancel).1.Handles 0 1 ∧
      ¬ (Overlap.twice.dispatch Overlap.router 0 Overlap.cancel).1.Handles 1 1 := by
  obtain ⟨first, second, displaced⟩ := Overlap.handles_twice
  have stopped := (handlers_stopped Overlap.reachable_twice).1 Overlap.router 0 Overlap.cancel
    (Frame.kind_ofKind ..)
  exact ⟨(stopped 0).1.2 ⟨first, displaced⟩, fun h => Overlap.not_displaced_twice ((stopped 1).1.1 h).2⟩

theorem handlers_escape :
    (¬ ∀ c : Connection, c.Reachable → ∀ (router : Router) (free : Nat) (f : Frame),
      f.kind = .ok .cancel → ∀ n, ¬ (c.dispatch router free f).1.Handles n f.id) ∧
    (¬ ∀ c : Connection, c.Reachable → c.isServing = false →
      ∀ (n : Nat) (id : UInt32), ¬ c.Handles n id) := by
  have reachable := Overlap.reachable_twice
  have tracks := reachable.tracks
  obtain ⟨first, -, displaced⟩ := Overlap.handles_twice
  constructor
  · intro h
    refine h _ reachable Overlap.router 0 Overlap.cancel (Frame.kind_ofKind ..) 0 ?_
    rw [dispatch, Overlap.cancel, Frame.kind_ofKind]
    exact tracks.handles_cancel.2 ⟨first, displaced⟩
  · intro h
    obtain ⟨limit, outlet, hw, leads⟩ := reachable
    have serving : Overlap.twice.isServing = true := by
      rw [isServing, Overlap.twice, result_dispatch, result_dispatch]
      rfl
    refine h (Overlap.twice.finish (.ok ())) ⟨limit, outlet, hw, .tail leads ?_⟩ rfl 0 1 ?_
    · exact ⟨none, .finish (.ok ()) serving⟩
    · exact (tracks.handles_finish (.ok ())).2 ⟨first, displaced⟩

end SchemaRpc.Connection
