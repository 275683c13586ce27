import Mathlib.Data.List.Nodup
import Mathlib.Data.List.Perm.Subperm
import SchemaRpc.Proofs.Transport.Lifetime

namespace SchemaRpc

namespace Session

def IsFree (taken : UInt32 → Bool) (id : UInt32) : Prop :=
  id ≠ 0 ∧ taken id = false

inductive Seeks (taken : UInt32 → Bool) : UInt32 → Nat → UInt32 → Prop
  | found {counter : UInt32} (free : IsFree taken counter) : Seeks taken counter 1 counter
  | next {counter id : UInt32} {tries : Nat} (busy : ¬IsFree taken counter)
      (rest : Seeks taken (counter + 1) tries id) : Seeks taken counter (tries + 1) id

instance (taken : UInt32 → Bool) (id : UInt32) : Decidable (IsFree taken id) :=
  inferInstanceAs (Decidable (_ ∧ _))

variable {taken : UInt32 → Bool} {counter id id' : UInt32} {tries tries' passed bound : Nat}

theorem freshId?_of_free (free : IsFree taken counter) :
    freshId? taken (bound + 1) counter = some counter := by
  rw [freshId?]
  simp [free.1, free.2]

theorem freshId?_of_busy (busy : ¬IsFree taken counter) :
    freshId? taken (bound + 1) counter = freshId? taken bound (counter + 1) := by
  have busy : counter = 0 ∨ taken counter = true := by
    simpa only [IsFree, not_and_or, not_not, Bool.not_eq_false] using busy
  rw [freshId?]
  simp [busy]

theorem freshId?_eq_some_iff :
    freshId? taken bound counter = some id ↔ ∃ tries ≤ bound, Seeks taken counter tries id := by
  constructor
  · intro h
    induction bound generalizing counter with
    | zero => cases h
    | succ bound ih =>
        by_cases free : IsFree taken counter
        · rw [freshId?_of_free free] at h
          cases h
          exact ⟨1, Nat.le_add_left 1 bound, .found free⟩
        · rw [freshId?_of_busy free] at h
          obtain ⟨tries, within, rest⟩ := ih h
          exact ⟨tries + 1, Nat.succ_le_succ within, .next free rest⟩
  · rintro ⟨tries, within, seeks⟩
    induction seeks generalizing bound with
    | found free =>
        obtain ⟨bound, rfl⟩ := Nat.exists_eq_add_of_le' within
        exact freshId?_of_free free
    | next busy rest ih =>
        obtain ⟨bound, rfl⟩ := Nat.exists_eq_add_of_le' (Nat.le_of_add_left_le within)
        rw [freshId?_of_busy busy]
        exact ih (by omega)

namespace Seeks

theorem unique (h : Seeks taken counter tries id) (h' : Seeks taken counter tries' id') :
    tries = tries' ∧ id = id' := by
  induction h generalizing tries' with
  | found free =>
      cases h' with
      | found => exact ⟨rfl, rfl⟩
      | next busy => exact absurd free busy
  | next busy rest ih =>
      cases h' with
      | found free => exact absurd free busy
      | next busy' rest' =>
          obtain ⟨rfl, rfl⟩ := ih rest'
          exact ⟨rfl, rfl⟩

theorem isFree (h : Seeks taken counter tries id) : IsFree taken id := by
  induction h with
  | found free => exact free
  | next _ _ ih => exact ih

end Seeks

theorem add_ofNat_zero (counter : UInt32) : counter + .ofNat 0 = counter :=
  UInt32.add_zero counter

theorem add_one_add_ofNat (counter : UInt32) (passed : Nat) :
    counter + 1 + .ofNat passed = counter + .ofNat (passed + 1) := by
  rw [UInt32.add_assoc, Nat.add_comm passed 1, UInt32.ofNat_add]
  rfl

theorem Seeks.passes (h : Seeks taken counter tries id) :
    ∃ passed, tries = passed + 1 ∧ id = counter + .ofNat passed ∧
      ∀ i < passed, ¬IsFree taken (counter + .ofNat i) := by
  induction h with
  | @found counter free => exact ⟨0, rfl, (add_ofNat_zero counter).symm, nofun⟩
  | @next counter id tries busy rest ih =>
      obtain ⟨passed, rfl, rfl, before⟩ := ih
      refine ⟨passed + 1, rfl, add_one_add_ofNat counter passed, fun i hi => ?_⟩
      cases i with
      | zero => rwa [add_ofNat_zero]
      | succ i =>
          rw [← add_one_add_ofNat]
          exact before i (Nat.lt_of_succ_lt_succ hi)

theorem exists_seeks (free : IsFree taken (counter + .ofNat passed)) :
    ∃ id, ∃ tries ≤ passed + 1, Seeks taken counter tries id := by
  induction passed generalizing counter with
  | zero =>
      rw [add_ofNat_zero] at free
      exact ⟨counter, 1, Nat.le_refl 1, .found free⟩
  | succ passed ih =>
      by_cases here : IsFree taken counter
      · exact ⟨counter, 1, by omega, .found here⟩
      · rw [← add_one_add_ofNat] at free
        obtain ⟨id, tries, within, seeks⟩ := ih free
        exact ⟨id, tries + 1, Nat.succ_le_succ within, .next here seeks⟩

def distance (counter id : UInt32) : Nat :=
  (id - counter).toNat

theorem add_distance (counter id : UInt32) : counter + .ofNat (distance counter id) = id := by
  rw [distance, UInt32.ofNat_toNat, UInt32.add_comm, UInt32.sub_add_cancel]

theorem distance_add_le (counter : UInt32) (passed : Nat) :
    distance counter (counter + .ofNat passed) ≤ passed := by
  rw [distance, UInt32.add_comm, UInt32.add_sub_cancel, UInt32.toNat_ofNat']
  exact Nat.mod_le _ _

theorem Seeks.first (h : Seeks taken counter tries id) (free : IsFree taken id') :
    distance counter id ≤ distance counter id' := by
  obtain ⟨passed, -, rfl, before⟩ := h.passes
  refine Nat.le_trans (distance_add_le counter passed) (Nat.le_of_not_lt fun nearer => ?_)
  refine before _ nearer ?_
  rwa [add_distance]

theorem add_ofNat_injective (counter : UInt32) {i j : Nat} (hi : i < 4294967296) (hj : j < 4294967296)
    (same : (counter + .ofNat i).toNat = (counter + .ofNat j).toNat) : i = j := by
  rw [UInt32.toNat_add, UInt32.toNat_add, UInt32.toNat_ofNat', UInt32.toNat_ofNat'] at same
  omega

def ahead (counter : UInt32) (n : Nat) : List Nat :=
  (List.range n).map fun i => (counter + .ofNat i).toNat

theorem mem_ahead {n key : Nat} :
    key ∈ ahead counter n ↔ ∃ i < n, (counter + .ofNat i).toNat = key := by
  simp only [ahead, List.mem_map, List.mem_range]

theorem nodup_ahead (counter : UInt32) {n : Nat} (h : n ≤ 4294967296) : (ahead counter n).Nodup := by
  refine List.nodup_range.map_on fun i hi j hj same => ?_
  rw [List.mem_range] at hi hj
  exact add_ofNat_injective counter (by omega) (by omega) same

theorem exists_notMem (counter : UInt32) (keys : List Nat) (few : keys.length < 4294967295) :
    ∃ passed ≤ keys.length + 1, counter + .ofNat passed ≠ 0 ∧
      (counter + .ofNat passed).toNat ∉ keys := by
  by_contra none
  -- so they are all among the reserved id and the keys, of which there is one less
  have covered : ahead counter (keys.length + 2) ⊆ 0 :: keys := by
    intro key hkey
    obtain ⟨i, hi, rfl⟩ := mem_ahead.1 hkey
    by_contra out
    rw [List.mem_cons, not_or] at out
    refine none ⟨i, by omega, fun zero => out.1 ?_, out.2⟩
    rw [zero]
    rfl
  have nodup : (ahead counter (keys.length + 2)).Nodup := nodup_ahead counter (by omega)
  have within := (List.subperm_of_subset nodup covered).length_le
  simp only [ahead, List.length_map, List.length_range, List.length_cons] at within
  omega

variable {s s' : Session}

theorem isTaken_eq_false_iff : s.isTaken id = false ↔ id.toNat ∉ s.pending.map Prod.fst := by
  rw [isTaken, ← Assoc.get?_eq_none_iff, Option.isSome_eq_false_iff, Option.isNone_iff_eq_none]

structure Allocates (s s' : Session) (tries : Nat) (id : UInt32) : Prop where
  seeks : Seeks s.isTaken s.nextId tries id
  soon : tries ≤ s.pending.length + 2
  positive : id ≠ 0
  new : id.toNat ∉ s.pending.map Prod.fst
  first : ∀ other, IsFree s.isTaken other → distance s.nextId id ≤ distance s.nextId other
  counter : s'.nextId = s.nextId + .ofNat tries
  table : s'.pending.Perm ((id.toNat, s.calls.length) :: s.pending)

theorem exists_seeks_of_few (few : s.pending.length < 4294967295) :
    ∃ id, ∃ tries ≤ s.pending.length + 2, Seeks s.isTaken s.nextId tries id := by
  obtain ⟨passed, within, positive, new⟩ :=
    exists_notMem s.nextId (s.pending.map Prod.fst) (by rwa [List.length_map])
  rw [List.length_map] at within
  have free : IsFree s.isTaken (s.nextId + .ofNat passed) := ⟨positive, isTaken_eq_false_iff.2 new⟩
  obtain ⟨id, tries, soon, seeks⟩ := exists_seeks free
  exact ⟨id, tries, by omega, seeks⟩

theorem allocates_enter (seeks : Seeks s.isTaken s.nextId tries id)
    (soon : tries ≤ s.pending.length + 2) (style : Style) (route : String) (request : Bytes) :
    Allocates s (s.enter style route request id) tries id where
  seeks := seeks
  soon := soon
  positive := seeks.isFree.1
  new := isTaken_eq_false_iff.1 seeks.isFree.2
  first _ free := seeks.first free
  counter := by
    obtain ⟨passed, rfl, rfl, -⟩ := seeks.passes
    rw [UInt32.ofNat_add, ← UInt32.add_assoc]
    rfl
  table := Assoc.perm_insert (Assoc.get?_eq_none_iff.2 (isTaken_eq_false_iff.1 seeks.isFree.2))

theorem Confined.absent {j key : Nat} (h : Confined j s s') (before : Assoc.get? key s.pending = none) :
    Assoc.get? key s'.pending = none := by
  refine Option.eq_none_iff_forall_ne_some.2 fun k has => ?_
  cases before.symm.trans (h.kept has)

theorem reserved_register (h : Assoc.get? 0 s.pending = none) (style : Style) (route : String)
    (request : Bytes) : Assoc.get? 0 (s.register style route request).pending = none := by
  unfold register
  split
  · exact h
  · split
    · exact h
    · next id found =>
        obtain ⟨tries, -, seeks⟩ := freshId?_eq_some_iff.1 found
        have apart : 0 ≠ id.toNat := fun zero => seeks.isFree.1 (UInt32.toNat_inj.1 zero.symm)
        exact Assoc.get?_insert.trans ((if_neg apart).trans h)

theorem Effect.reserved (h : Assoc.get? 0 s.pending = none) (effect : Effect s s') :
    Assoc.get? 0 s'.pending = none := by
  cases effect with
  | turned k turn =>
      cases turn with
      | rest same nothing => rwa [same]
      | turn c c' before after moved confined isClosed others own => exact confined.absent h
  | registered style route request same => exact same ▸ reserved_register h style route request
  | aside alike => rwa [alike.pending]
  | failed mid alike same =>
      rw [same, mid.pending_failPending]
      rfl

end Session

namespace Lifetime

variable {n m : Lifetime}

theorem Step.reserved (orderly : n.Orderly) (h : Assoc.get? 0 n.session.pending = none)
    (step : n.Step m) : Assoc.get? 0 m.session.pending = none := by
  cases step with
  | session step => exact (step.effect orderly.linked orderly.line).reserved h
  | next k took =>
      have confined := Session.confined_next orderly.linked k
      rw [took] at confined
      exact confined.absent h
  | route f =>
      cases Session.routed_route orderly.linked f with
      | rest same => rwa [same]
      | came k c item before pending after confined isClosed outlet still => exact confined.absent h
  | read data => exact (n.session.effect_read data).reserved h
  | drain => rfl
  | _ => exact h

theorem Reachable.reserved (h : n.Reachable) : Assoc.get? 0 n.session.pending = none := by
  obtain ⟨room, patience, size, run⟩ := h
  induction run with
  | refl => rfl
  | tail before step ih =>
      have orderly := (orderly_start room patience size).run before
      exact step.reserved orderly ih

theorem ids_fresh :
    (∀ (s : Session) (style : Style) (route : String) (request : Bytes), s.isClosed = false →
      s.pending.length < 4294967295 → ∃ tries id,
        s.register style route request = s.enter style route request id ∧
        s.Allocates (s.register style route request) tries id) ∧
    ∀ n : Lifetime, n.Reachable →
      (∀ entry ∈ n.session.pending, ∃ id : UInt32, id ≠ 0 ∧ id.toNat = entry.1) ∧
      (n.session.pending.map Prod.fst).Nodup := by
  refine ⟨fun s style route request opened few => ?new, fun n h => ⟨fun entry hm => ?positive, ?nodup⟩⟩
  case new =>
    obtain ⟨id, tries, soon, seeks⟩ := Session.exists_seeks_of_few few
    have registers : s.register style route request = s.enter style route request id := by
      rw [Session.register, if_neg (by simp [opened]),
        Session.freshId?_eq_some_iff.2 ⟨tries, soon, seeks⟩]
      rfl
    exact ⟨tries, id, registers, registers ▸ Session.allocates_enter seeks soon style route request⟩
  case positive =>
    have linked := h.orderly.linked
    -- the entry leads to a call with an id of 32 bits, and nothing is kept at the reserved one
    have found := Assoc.get?_eq_some_of_mem linked.ascending hm
    obtain ⟨id, -, hkey⟩ := linked.points found
    refine ⟨id, ?_, hkey⟩
    rintro rfl
    rw [← hkey, UInt32.toNat_zero, h.reserved] at found
    cases found
  case nodup => exact List.pairwise_map.2 (h.orderly.linked.ascending.imp Nat.ne_of_lt)

namespace Wrapping

def session : Session :=
  { Session.start (.empty (.empty 4 0) (.empty 4096)) with
    nextId := 4294967295
    pending := [(1, 0), (4294967295, 1)]
    calls := [.new .unary "" [] 1, .new .unary "" [] 4294967295] }

theorem seeks : Session.Seeks session.isTaken session.nextId 4 2 :=
  .next (by decide) (.next (by decide) (.next (by decide) (.found (by decide))))

def asked : Lifetime :=
  ⟨((start 4 0 4096).session.register .unary (MethodPath.mk "clock" "Now").route []).register
    .serverStreaming (MethodPath.mk "clock" "Countdown").route [], [], []⟩

theorem reachable_asked : asked.Reachable := by
  have registered := Relation.ReflTransGen.single
    (Step.session (n := start 4 0 4096) (.register .unary ⟨"clock", "Now"⟩ []))
  exact ⟨4, 0, 4096, registered.tail (.session (.register .serverStreaming ⟨"clock", "Countdown"⟩ []))⟩

end Wrapping

theorem ids_fresh_wrapping :
    (Wrapping.session.isClosed = false ∧ Wrapping.session.pending.length < 4294967295 ∧
      Wrapping.session.Allocates (Wrapping.session.register .unary "" []) 4 2 ∧
      (Wrapping.session.register .unary "" []).pending = [(1, 0), (2, 2), (4294967295, 1)]) ∧
    Wrapping.asked.Reachable ∧ Wrapping.asked.session.pending = [(1, 0), (2, 1)] ∧
      (∀ entry ∈ Wrapping.asked.session.pending, ∃ id : UInt32, id ≠ 0 ∧ id.toNat = entry.1) ∧
      (Wrapping.asked.session.pending.map Prod.fst).Nodup := by
  have opened : Wrapping.session.isClosed = false := rfl
  have few : Wrapping.session.pending.length < 4294967295 := by decide
  obtain ⟨tries, id, -, allocates⟩ := ids_fresh.1 Wrapping.session .unary "" [] opened few
  obtain ⟨rfl, rfl⟩ := allocates.seeks.unique Wrapping.seeks
  exact ⟨⟨opened, few, allocates, by decide⟩, Wrapping.reachable_asked, rfl,
    ids_fresh.2 Wrapping.asked Wrapping.reachable_asked⟩

end Lifetime

end SchemaRpc
