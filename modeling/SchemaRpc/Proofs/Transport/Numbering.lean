import SchemaRpc.Proofs.Transport.Channel
import SchemaRpc.Session

namespace SchemaRpc.Session

def ids (s : Session) : List UInt32 :=
  s.calls.map Call.id

def registered (s : Session) : Nat :=
  s.ids.countP (· != 0)

structure Numbered (s : Session) : Prop where
  positive : s.nextId ≠ 0
  bound : s.nextId.toNat ≤ s.registered + 1
  below : ∀ id ∈ s.ids, id.toNat < s.nextId.toNat
  distinct : s.ids.Pairwise fun a b => a = b → a = 0
  ascending : Assoc.Ascending s.pending
  points : ∀ key k, Assoc.get? key s.pending = some k →
    ∃ id : UInt32, s.ids[k]? = some id ∧ id ≠ 0 ∧ id.toNat = key

def standing (s : Session) (k : Nat) : Option (Call × Bool) :=
  s.calls[k]?.map fun c => (c, s.isPending k c)

variable {s s' : Session} {k : Nat} {c : Call} {p : Bool}

theorem call_of_standing (h : s.standing k = some (c, p)) : s.calls[k]? = some c := by
  obtain ⟨c', hc, he⟩ := Option.map_eq_some_iff.1 h
  cases he
  exact hc

theorem standing_of_call (h : s.calls[k]? = some c) : s.standing k = some (c, s.isPending k c) := by
  rw [standing, h]
  rfl

theorem standing_eq_none : s.standing k = none ↔ s.calls[k]? = none :=
  Option.map_eq_none_iff

theorem pending_of_standing (h : s.standing k = some (c, true)) :
    Assoc.get? c.id.toNat s.pending = some k := by
  have hp := standing_of_call (call_of_standing h)
  rw [h] at hp
  have ht : s.isPending k c = true := (Prod.mk.inj (Option.some.inj hp)).2.symm
  simpa [isPending] using ht

theorem standing_start (outlet : Outlet) (k : Nat) : (start outlet).standing k = none :=
  rfl

theorem id_of_call (h : s.calls[k]? = some c) : s.ids[k]? = some c.id := by
  rw [ids, List.getElem?_map, h]
  rfl

theorem ids_modifyCall (s : Session) (k : Nat) {f : Call → Call} (hf : ∀ c, (f c).id = c.id) :
    (s.modifyCall k f).ids = s.ids := by
  refine List.ext_getElem? fun j => ?_
  simp only [ids, modifyCall, List.getElem?_map, List.getElem?_modify]
  cases s.calls[j]? with
  | none => rfl
  | some c => by_cases hj : k = j <;> simp [hj, hf]

namespace Numbered

theorem congr (h : s.Numbered) (next : s'.nextId = s.nextId) (ids : s'.ids = s.ids)
    (ascending : Assoc.Ascending s'.pending)
    (pending : ∀ key k, Assoc.get? key s'.pending = some k → Assoc.get? key s.pending = some k) :
    s'.Numbered where
  positive := next ▸ h.positive
  bound := by
    rw [next, registered, ids]
    exact h.bound
  below := by
    rw [ids, next]
    exact h.below
  distinct := by
    rw [ids]
    exact h.distinct
  ascending := ascending
  points key k hk := by
    rw [ids]
    exact h.points key k (pending key k hk)

theorem eq_of_id (h : s.Numbered) {i j : Nat} {c d : Call} (hi : s.calls[i]? = some c)
    (hj : s.calls[j]? = some d) (he : c.id = d.id) (hc : c.id ≠ 0) : i = j := by
  obtain ⟨hil, hi⟩ := List.getElem?_eq_some_iff.1 (id_of_call hi)
  obtain ⟨hjl, hj⟩ := List.getElem?_eq_some_iff.1 (id_of_call hj)
  have hd := List.pairwise_iff_getElem.1 h.distinct
  rcases Nat.lt_trichotomy i j with hlt | heq | hlt
  · exact absurd (hi ▸ hd i j hil hjl hlt (by rw [hi, hj, he])) hc
  · exact heq
  · exact absurd (he ▸ hj ▸ hd j i hjl hil hlt (by rw [hi, hj, he])) hc

theorem call_of_pending (h : s.Numbered) {id : UInt32} (hp : Assoc.get? id.toNat s.pending = some k) :
    ∃ c, s.standing k = some (c, true) ∧ c.id = id ∧ id ≠ 0 := by
  obtain ⟨id', hid, hne, hkey⟩ := h.points _ _ hp
  obtain rfl := UInt32.toNat_inj.1 hkey
  rw [ids, List.getElem?_map] at hid
  obtain ⟨c, hc, rfl⟩ := Option.map_eq_some_iff.1 hid
  refine ⟨c, ?_, rfl, hne⟩
  rw [standing_of_call hc, isPending, hp]
  simp

theorem id_ne_zero (h : s.Numbered) (hc : s.standing k = some (c, true)) : c.id ≠ 0 := by
  obtain ⟨-, -, -, hne⟩ := h.call_of_pending (pending_of_standing hc)
  exact hne

end Numbered

structure Acts (k : Nat) (s s' : Session) (frames : List Frame) : Prop where
  numbered : s'.Numbered
  others : ∀ j, j ≠ k → s'.standing j = s.standing j
  queued : s.outlet.Queued frames s'.outlet
  incoming : s'.incoming = s.incoming

namespace Acts

theorem refl (h : s.Numbered) (k : Nat) : Acts k s s [] :=
  ⟨h, fun _ _ => rfl, s.outlet.queued_nil, rfl⟩

theorem trans {s'' : Session} {frames more : List Frame} (h : Acts k s s' frames)
    (hn : Acts k s' s'' more) : Acts k s s'' (frames ++ more) :=
  ⟨hn.numbered, fun j hj => (hn.others j hj).trans (h.others j hj), h.queued.trans hn.queued,
    hn.incoming.trans h.incoming⟩

theorem modifyCall (h : s.Numbered) (k : Nat) {f : Call → Call} (hf : ∀ c, (f c).id = c.id) :
    Acts k s (s.modifyCall k f) [] where
  numbered := h.congr rfl (ids_modifyCall s k hf) h.ascending fun _ _ hk => hk
  others j hj := by
    simp only [standing, Session.modifyCall, List.getElem?_modify, if_neg (Ne.symm hj)]
    cases s.calls[j]? <;> rfl
  queued := s.outlet.queued_nil
  incoming := rfl

theorem release (h : s.Numbered) (hc : s.calls[k]? = some c) : Acts k s (s.release c.id) [] where
  numbered := by
    refine h.congr rfl rfl (Assoc.ascending_erase h.ascending) fun key j hj => ?_
    change Assoc.get? key (Assoc.erase c.id.toNat s.pending) = some j at hj
    rw [Assoc.get?_erase h.ascending] at hj
    split at hj
    · cases hj
    · exact hj
  others j hj := by
    simp only [standing, Session.release]
    cases hd : s.calls[j]? with
    | none => rfl
    | some d =>
        simp only [Option.map_some, isPending, Assoc.get?_erase h.ascending]
        split
        · next he =>
            have hn : Assoc.get? d.id.toNat s.pending ≠ some j := by
              intro hp
              obtain ⟨-, -, -, hne⟩ := h.call_of_pending hp
              exact hj (h.eq_of_id hd hc (UInt32.toNat_inj.1 he) hne)
            simp [hn]
        · rfl
  queued := s.outlet.queued_nil
  incoming := rfl

theorem withOutbox (h : s.Numbered) (k : Nat) {o : Outbox} {frames : List Frame}
    (hq : o.queue = s.outbox.queue ++ frames) : Acts k s (s.withOutbox o) frames where
  numbered := h.congr rfl rfl h.ascending fun _ _ hk => hk
  others _ _ := rfl
  queued := ⟨rfl, rfl, hq⟩
  incoming := rfl

end Acts

theorem standing_modifyCall {f : Call → Call} (hf : ∀ c, (f c).id = c.id)
    (h : s.standing k = some (c, p)) : (s.modifyCall k f).standing k = some (f c, p) := by
  have hc := call_of_standing h
  have hp : s.isPending k c = p := by
    rw [standing_of_call hc] at h
    exact (Prod.mk.inj (Option.some.inj h)).2
  have hm : (s.modifyCall k f).calls[k]? = some (f c) := by
    simp [modifyCall, hc]
  rw [standing_of_call hm, isPending, hf]
  exact congrArg (fun p => some (f c, p)) hp

theorem standing_release (h : s.Numbered) (hc : s.calls[k]? = some c) :
    (s.release c.id).standing k = some (c, false) := by
  have hr : (s.release c.id).calls[k]? = some c := hc
  rw [standing_of_call hr, isPending]
  simp [release, Assoc.get?_erase h.ascending]

theorem getElem?_append_of_eq_some {α : Type} {l : List α} {i : Nat} {a : α} (h : l[i]? = some a)
    (more : List α) : (l ++ more)[i]? = some a := by
  rw [List.getElem?_append_left (List.getElem?_eq_some_iff.1 h).1, h]

theorem register_eq (h : s.Numbered) (style : Style) (route : String) (request : Bytes) :
    s.register style route request = { s with calls := s.calls ++ [.rejected style route request] } ∨
    s.register style route request =
      { s with
        nextId := s.nextId + 1
        pending := Assoc.insert s.nextId.toNat s.calls.length s.pending
        calls := s.calls ++ [.new style route request s.nextId] } := by
  unfold register
  split
  · exact .inl rfl
  · have hfree : s.isTaken s.nextId = false := by
      rw [isTaken]
      cases hp : Assoc.get? s.nextId.toNat s.pending with
      | none => rfl
      | some j =>
          obtain ⟨c, hc, hid, -⟩ := h.call_of_pending hp
          have := h.below c.id (List.mem_of_getElem? (id_of_call (call_of_standing hc)))
          rw [hid] at this
          omega
    have hf : freshId? s.isTaken (s.pending.length + 2) s.nextId = some s.nextId := by
      rw [freshId?]
      simp [h.positive, hfree]
    rw [hf]
    exact .inr rfl

theorem Numbered.rejected (h : s.Numbered) (style : Style) (route : String) (request : Bytes) :
    Numbered { s with calls := s.calls ++ [.rejected style route request] } := by
  have hids : ids { s with calls := s.calls ++ [.rejected style route request] } = s.ids ++ [0] :=
    List.map_append
  refine ⟨h.positive, ?_, ?_, ?_, h.ascending, ?_⟩
  · rw [registered, hids, List.countP_append]
    exact Nat.le_trans h.bound (Nat.add_le_add_right (Nat.le_add_right _ _) 1)
  · intro id hid
    rw [hids, List.mem_append, List.mem_singleton] at hid
    rcases hid with hid | rfl
    · exact h.below id hid
    · have := mt (UInt32.toNat_inj (b := 0)).1 h.positive
      simpa [Nat.pos_iff_ne_zero] using this
  · rw [hids, List.pairwise_append]
    refine ⟨h.distinct, List.pairwise_singleton _ _, fun a _ b hb hab => ?_⟩
    rw [hab, List.mem_singleton.1 hb]
  · intro key j hj
    obtain ⟨id, hid, hne, hkey⟩ := h.points key j hj
    exact ⟨id, hids ▸ getElem?_append_of_eq_some hid _, hne, hkey⟩

theorem Numbered.new (h : s.Numbered) {next : Session}
    (hnext : next.nextId = s.nextId + 1)
    (hpending : next.pending = Assoc.insert s.nextId.toNat s.calls.length s.pending)
    (hids : next.ids = s.ids ++ [s.nextId]) (few : next.registered < 4294967295) :
    next.Numbered := by
  have hbound := h.bound
  have hcount : next.registered = s.registered + 1 := by
    rw [registered, hids, List.countP_append, List.countP_singleton, registered]
    simp [h.positive]
  have hid : next.nextId.toNat = s.nextId.toNat + 1 := by
    rw [hnext, UInt32.toNat_add]
    exact Nat.mod_eq_of_lt (by simp; omega)
  refine ⟨?_, ?_, ?_, ?_, ?_, ?_⟩
  · intro hz
    rw [hz] at hid
    cases hid
  · omega
  · intro id hm
    rw [hids, List.mem_append, List.mem_singleton] at hm
    rcases hm with hm | rfl
    · have := h.below id hm
      omega
    · omega
  · rw [hids, List.pairwise_append]
    refine ⟨h.distinct, List.pairwise_singleton _ _, fun a ha b hb hab => ?_⟩
    have := h.below a ha
    rw [hab, List.mem_singleton.1 hb] at this
    omega
  · rw [hpending]
    exact Assoc.ascending_insert h.ascending
  · intro key j hj
    rw [hids]
    rw [hpending, Assoc.get?_insert] at hj
    split at hj
    · next hkey =>
        cases hj
        refine ⟨s.nextId, ?_, h.positive, hkey.symm⟩
        simp [ids]
    · obtain ⟨id, hm, hne, hkey⟩ := h.points key j hj
      exact ⟨id, getElem?_append_of_eq_some hm _, hne, hkey⟩

theorem Numbered.register (h : s.Numbered) (style : Style) (route : String) (request : Bytes)
    (few : (s.register style route request).registered < 4294967295) :
    (s.register style route request).Numbered := by
  rcases register_eq h style route request with he | he
  · rw [he]
    exact h.rejected style route request
  · rw [he] at few ⊢
    exact h.new rfl rfl List.map_append few

theorem standing_register (h : s.Numbered) (style : Style) (route : String) (request : Bytes) :
    (∀ j, j ≠ s.calls.length → (s.register style route request).standing j = s.standing j) ∧
    ((s.register style route request).standing s.calls.length =
        some (.rejected style route request, false) ∨
      (s.register style route request).standing s.calls.length =
        some (.new style route request s.nextId, true)) := by
  rcases register_eq h style route request with he | he
  · rw [he]
    constructor
    · intro j hj
      simp only [standing]
      rcases Nat.lt_or_gt_of_ne hj with hlt | hgt
      · rw [List.getElem?_append_left hlt]
        rfl
      · rw [List.getElem?_eq_none (by simp; omega), List.getElem?_eq_none (by omega)]
        rfl
    · left
      rw [standing_of_call (c := .rejected style route request) (by simp)]
      have hp : Assoc.get? 0 s.pending ≠ some s.calls.length := by
        intro hp
        obtain ⟨id, -, hne, hz⟩ := h.points _ _ hp
        exact hne (UInt32.toNat_inj.1 hz)
      simpa [isPending, Call.rejected] using hp
  · rw [he]
    constructor
    · intro j hj
      simp only [standing]
      rcases Nat.lt_or_gt_of_ne hj with hlt | hgt
      · rw [List.getElem?_append_left hlt]
        cases hc : s.calls[j]? with
        | none => rfl
        | some c =>
            have := h.below c.id (List.mem_of_getElem? (id_of_call hc))
            simp only [Option.map_some, isPending, Assoc.get?_insert, if_neg (Nat.ne_of_lt this)]
      · rw [List.getElem?_eq_none (by simp; omega), List.getElem?_eq_none (by omega)]
        rfl
    · right
      rw [standing_of_call (c := .new style route request s.nextId) (by simp)]
      simp [isPending, Call.new, Assoc.get?_insert]

end SchemaRpc.Session
