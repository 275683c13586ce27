import SchemaRpc.Proofs.Transport.Growth

namespace SchemaRpc.Session

structure Linked (s : Session) : Prop where
  ascending : Assoc.Ascending s.pending
  points : ∀ {key k : Nat}, Assoc.get? key s.pending = some k →
    ∃ id : UInt32, s.ids[k]? = some id ∧ id.toNat = key

variable {s s' s'' : Session} {j : Nat} {c : Call}

theorem Linked.congr (h : s.Linked) (ids : s'.ids = s.ids) (ascending : Assoc.Ascending s'.pending)
    (fewer : ∀ {key k : Nat}, Assoc.get? key s'.pending = some k → Assoc.get? key s.pending = some k) :
    s'.Linked where
  ascending := ascending
  points hk := ids ▸ h.points (fewer hk)

theorem Linked.call (h : s.Linked) {id : UInt32} {k : Nat}
    (hk : Assoc.get? id.toNat s.pending = some k) : ∃ c, s.calls[k]? = some c ∧ c.id = id := by
  obtain ⟨id', hid, hkey⟩ := h.points hk
  obtain rfl := UInt32.toNat_inj.1 hkey
  rw [ids, List.getElem?_map] at hid
  exact Option.map_eq_some_iff.1 hid

structure Confined (j : Nat) (s s' : Session) : Prop where
  linked : s'.Linked
  ids : s'.ids = s.ids
  others : ∀ i, i ≠ j → s'.calls[i]? = s.calls[i]?
  entries : ∀ key, Assoc.get? key s'.pending = Assoc.get? key s.pending ∨
    Assoc.get? key s'.pending = none ∧ ∃ id : UInt32, s.ids[j]? = some id ∧ id.toNat = key

namespace Confined

theorem refl (h : s.Linked) (j : Nat) : Confined j s s :=
  ⟨h, rfl, fun _ _ => rfl, fun _ => .inl rfl⟩

theorem trans (h : Confined j s s') (hn : Confined j s' s'') : Confined j s s'' := by
  refine ⟨hn.linked, hn.ids.trans h.ids, fun i hi => (hn.others i hi).trans (h.others i hi), ?_⟩
  intro key
  rcases hn.entries key with hkey | ⟨hnone, hid⟩
  · rw [hkey]
    exact h.entries key
  · exact .inr ⟨hnone, h.ids ▸ hid⟩

theorem kept {key k : Nat} (h : Confined j s s') (has : Assoc.get? key s'.pending = some k) :
    Assoc.get? key s.pending = some k := by
  rcases h.entries key with same | ⟨none, -⟩
  · rw [← same, has]
  · cases none.symm.trans has

theorem modifyCall (h : s.Linked) (j : Nat) {g : Call → Call} (hg : ∀ c, (g c).id = c.id) :
    Confined j s (s.modifyCall j g) := by
  have hids := ids_modifyCall s j hg
  refine ⟨h.congr hids h.ascending fun hk => hk, hids, fun i hi => ?_, fun _ => .inl rfl⟩
  simp only [Session.modifyCall, List.getElem?_modify, if_neg (Ne.symm hi)]
  cases s.calls[i]? <;> rfl

theorem release (h : s.Linked) (hc : s.calls[j]? = some c) : Confined j s (s.release c.id) := by
  have hget : ∀ key, Assoc.get? key (s.release c.id).pending =
      if key = c.id.toNat then none else Assoc.get? key s.pending :=
    fun key => Assoc.get?_erase h.ascending
  refine ⟨h.congr rfl (Assoc.ascending_erase h.ascending) fun {key k} hk => ?_, rfl,
    fun _ _ => rfl, fun key => ?_⟩
  · rw [hget] at hk
    split at hk
    · cases hk
    · exact hk
  · rw [hget]
    split
    · next hkey => exact .inr ⟨rfl, c.id, id_of_call hc, hkey.symm⟩
    · exact .inl rfl

theorem withOutbox (h : s.Linked) (j : Nat) (o : Outbox) : Confined j s (s.withOutbox o) :=
  ⟨h.congr rfl h.ascending fun hk => hk, rfl, fun _ _ => rfl, fun _ => .inl rfl⟩

end Confined

theorem confined_refuse (h : s.Linked) (j : Nat) (e : Error) : Confined j s (s.refuse j e) := by
  unfold refuse
  cases hc : s.calls[j]? with
  | none => exact .refl h j
  | some c =>
      have hr := Confined.release h hc
      exact hr.trans (.modifyCall hr.linked j fun _ => rfl)

theorem confined_post (h : s.Linked) (j now : Nat) : Confined j s (s.post j now) := by
  unfold post
  split
  · exact .refl h j
  · next c _ =>
      have ho := Confined.withOutbox h j (s.outbox.offer j c.frame now).1
      split
      · simp only
        split
        · exact ho.trans (.modifyCall ho.linked j (g := .sent) fun _ => rfl)
        · exact ho.trans (.modifyCall ho.linked j fun _ => rfl)
        · exact ho.trans (confined_refuse ho.linked j _)
      · exact .refl h j

theorem confined_resumeSending (h : s.Linked) (j now : Nat) :
    Confined j s (s.resumeSending j now) := by
  unfold resumeSending
  split
  · exact .refl h j
  · next o _ =>
      have ho := Confined.withOutbox h j o
      exact ho.trans (.modifyCall ho.linked j (g := .sent) fun _ => rfl)
  · next o _ =>
      have ho := Confined.withOutbox h j o
      exact ho.trans (confined_refuse ho.linked j _)

theorem confined_dropGuard (h : s.Linked) (j : Nat) : Confined j s (s.dropGuard j) := by
  unfold dropGuard
  cases hc : s.calls[j]? with
  | none => exact .refl h j
  | some c =>
      simp only
      split
      · exact .refl h j
      · have hm := Confined.modifyCall h j (g := fun c => { c with isGuarded := false }) fun _ => rfl
        split
        · have hcall : (s.modifyCall j fun c => { c with isGuarded := false }).calls[j]? =
              some { c with isGuarded := false } := by
            simp [Session.modifyCall, hc]
          have hr := hm.trans (.release hm.linked hcall)
          exact hr.trans (.withOutbox hr.linked j _)
        · exact hm

theorem confined_giveBack (h : s.Linked) (j : Nat) (result : Except Error Bytes) :
    Confined j s (s.giveBack j result) := by
  have hd := confined_dropGuard h j
  exact hd.trans (.modifyCall hd.linked j fun _ => rfl)

theorem confined_resume (h : s.Linked) (j : Nat) : Confined j s (s.resume j) := by
  unfold resume
  split
  · exact .refl h j
  · split
    · exact confined_giveBack h j _
    · exact confined_giveBack h j _
    · split
      · exact .refl h j
      · exact confined_giveBack h j _
    · exact .refl h j

theorem confined_next (h : s.Linked) (j : Nat) : Confined j s (s.next j).1 := by
  unfold next
  split
  · exact .refl h j
  · split
    · exact .modifyCall h j fun _ => rfl
    · exact .refl h j
    · exact .refl h j

theorem confined_dropReceiver (h : s.Linked) (j : Nat) : Confined j s (s.dropReceiver j) :=
  .modifyCall h j fun _ => rfl

theorem confined_drop (h : s.Linked) (j : Nat) : Confined j s (s.drop j) := by
  unfold drop
  split
  · exact .refl h j
  · exact .refl h j
  · exact .refl h j
  · have hr := confined_dropReceiver h j
    have hd := hr.trans (confined_dropGuard hr.linked j)
    exact hd.trans (.modifyCall hd.linked j fun _ => rfl)
  · have hw := Confined.withOutbox h j (s.outbox.withdraw j)
    have hd := hw.trans (confined_dropGuard hw.linked j)
    exact hd.trans (.modifyCall hd.linked j fun _ => rfl)

theorem confined_deliver (h : s.Linked) (j : Nat) (item : Except Error Bytes) :
    Confined j s (s.deliver j item) :=
  .modifyCall h j fun c => c.id_deliver item

theorem confined_endCall (h : s.Linked) (hc : s.calls[j]? = some c) (kind : FrameKind) {f : Frame}
    (hid : f.id = c.id) : Confined j s (s.endCall j c kind f) := by
  have hr : Confined j s (s.release f.id) := hid ▸ Confined.release h hc
  unfold endCall
  simp only
  split
  · exact hr.trans (confined_deliver hr.linked j _)
  · exact hr

theorem confined_route (h : s.Linked) {f : Frame}
    (hj : Assoc.get? f.id.toNat s.pending = some j) : Confined j s (s.route f) := by
  obtain ⟨c, hc, hid⟩ := h.call hj
  unfold route
  rw [hj]
  split
  · exact .refl h j
  · exact .refl h j
  · exact .refl h j
  · exact .refl h j
  · next hsome =>
      cases hsome
      rw [hc]
      simp only
      split
      · split
        · exact confined_deliver h j _
        · exact hid ▸ Confined.release h hc
      · exact confined_endCall h hc _ hid.symm

theorem route_of_unknown {f : Frame} (h : Assoc.get? f.id.toNat s.pending = none) :
    s.route f = s := by
  unfold route
  rw [h]
  split <;> first | rfl | contradiction

theorem route_elsewhere (h : s.Linked) {f : Frame} {k : Nat}
    (hne : Assoc.get? f.id.toNat s.pending ≠ some k) :
    (s.route f).calls[k]? = s.calls[k]? ∧
      ∀ key, Assoc.get? key (s.route f).pending = some k ↔ Assoc.get? key s.pending = some k := by
  cases hj : Assoc.get? f.id.toNat s.pending with
  | none =>
      rw [route_of_unknown hj]
      exact ⟨rfl, fun _ => Iff.rfl⟩
  | some j =>
      have hjk : j ≠ k := fun he => hne (he ▸ hj)
      have confined := confined_route h hj
      refine ⟨confined.others k hjk.symm, fun key => ?_⟩
      rcases confined.entries key with hsame | ⟨hnone, id, hid, rfl⟩
      · rw [hsame]
      · obtain ⟨d, hd, hdid⟩ := h.call hj
        rw [id_of_call hd, Option.some_inj] at hid
        rw [hnone, ← hid, hdid, hj, Option.some_inj]
        exact ⟨nofun, fun he => absurd he hjk⟩

theorem not_taken_of_freshId? {taken : UInt32 → Bool} {tries : Nat} {id id' : UInt32}
    (h : freshId? taken tries id = some id') : taken id' = false := by
  induction tries generalizing id with
  | zero => cases h
  | succ tries ih =>
      rw [freshId?] at h
      split at h
      · exact ih h
      · next hfree =>
          cases h
          simp only [Bool.or_eq_true, decide_eq_true_eq, not_or, Bool.not_eq_true] at hfree
          exact hfree.2

def enter (s : Session) (style : Style) (route : String) (request : Bytes) (id : UInt32) : Session :=
  { s with
    nextId := id + 1
    pending := Assoc.insert id.toNat s.calls.length s.pending
    calls := s.calls ++ [.new style route request id] }

theorem register_cases (s : Session) (style : Style) (route : String) (request : Bytes) :
    s.register style route request = { s with calls := s.calls ++ [.rejected style route request] } ∨
      s.register style route request = s ∨
      ∃ id : UInt32, Assoc.get? id.toNat s.pending = none ∧
        s.register style route request = s.enter style route request id := by
  unfold register
  split
  · exact .inl rfl
  · split
    · exact .inr (.inl rfl)
    · next id hid =>
        have hfree : (Assoc.get? id.toNat s.pending).isSome = false := not_taken_of_freshId? hid
        have hnone := Option.isNone_iff_eq_none.1 (Option.isSome_eq_false_iff.1 hfree)
        exact .inr (.inr ⟨id, hnone, rfl⟩)

theorem Linked.extend (h : s.Linked) (ids : s.ids <+: s'.ids) (pending : s'.pending = s.pending) :
    s'.Linked where
  ascending := pending ▸ h.ascending
  points hk := by
    obtain ⟨id, hid, hkey⟩ := h.points (pending ▸ hk)
    obtain ⟨more, hmore⟩ := ids
    exact ⟨id, hmore ▸ getElem?_append_of_eq_some hid more, hkey⟩

theorem Linked.enter (h : s.Linked) (style : Style) (route : String) (request : Bytes)
    (id : UInt32) : (s.enter style route request id).Linked where
  ascending := Assoc.ascending_insert h.ascending
  points {key k} hk := by
    have hids : (s.enter style route request id).ids = s.ids ++ [id] := List.map_append
    rw [Session.enter, Assoc.get?_insert] at hk
    rw [hids]
    split at hk
    · next hkey =>
        cases hk
        refine ⟨id, ?_, hkey.symm⟩
        have hlength : s.ids.length = s.calls.length := List.length_map _
        rw [← hlength]
        exact List.getElem?_concat_length
    · obtain ⟨id', hid, hkey⟩ := h.points hk
      exact ⟨id', getElem?_append_of_eq_some hid _, hkey⟩

theorem Linked.register (h : s.Linked) (style : Style) (route : String) (request : Bytes) :
    (s.register style route request).Linked := by
  rcases s.register_cases style route request with he | he | ⟨id, -, he⟩
  · rw [he]
    exact h.extend ((List.prefix_append _ _).map _) rfl
  · rw [he]
    exact h
  · rw [he]
    exact h.enter style route request id

theorem Linked.failPending (h : s.Linked) : s.failPending.Linked := by
  rw [failPending_eq]
  exact h.congr (ids_of_bare (bare_tellAll _ _ s)) List.Pairwise.nil nofun

theorem Linked.endInput (h : s.Linked) : s.endInput.Linked := by
  unfold Session.endInput
  split
  · exact Linked.failPending (s := { s with isReading := false }) ⟨h.ascending, h.points⟩
  · exact h

theorem Linked.read (h : s.Linked) (data : Bytes) : (s.read data).1.Linked := by
  unfold Session.read
  split
  · split
    · exact ⟨h.ascending, h.points⟩
    · next buffer _ _ => exact Linked.endInput (s := { s with incoming := buffer }) ⟨h.ascending, h.points⟩
  · exact h

theorem Linked.route (h : s.Linked) (f : Frame) : (s.route f).Linked := by
  cases hj : Assoc.get? f.id.toNat s.pending with
  | none => exact (route_of_unknown hj).symm ▸ h
  | some j => exact (confined_route h hj).linked

theorem Linked.step (h : s.Linked) (step : s.Step s') : s'.Linked := by
  cases step with
  | register style path request => exact h.register style path.route request
  | post k now => exact (confined_post h k now).linked
  | resumeSending k now => exact (confined_resumeSending h k now).linked
  | resume k => exact (confined_resume h k).linked
  | dropReceiver k c found held => exact (confined_dropReceiver h k).linked
  | dropGuard k c found held unheard => exact (confined_dropGuard h k).linked
  | drop k => exact (confined_drop h k).linked
  | close =>
      exact Linked.failPending (s := { s with isReading := false, outlet := s.outlet.abort })
        ⟨h.ascending, h.points⟩
  | abandon => exact ⟨h.ascending, h.points⟩
  | endInput => exact h.endInput

inductive Reachable : Session → Prop
  | start (outlet : Outlet) : Reachable (start outlet)
  | step {s s' : Session} (h : Reachable s) (step : s.Step s') : Reachable s'
  | next {s : Session} (h : Reachable s) (k : Nat) : Reachable (s.next k).1
  | route {s : Session} (h : Reachable s) (f : Frame) : Reachable (s.route f)
  | read {s : Session} (h : Reachable s) (data : Bytes) : Reachable (s.read data).1
  | outlet {s : Session} (h : Reachable s) (outlet : Outlet) : Reachable { s with outlet := outlet }

theorem Reachable.linked (h : s.Reachable) : s.Linked := by
  induction h with
  | start outlet => exact ⟨List.Pairwise.nil, nofun⟩
  | step _ step ih => exact ih.step step
  | next _ k ih => exact (confined_next ih k).linked
  | route _ f ih => exact ih.route f
  | read _ data ih => exact ih.read data
  | outlet _ outlet ih => exact ⟨ih.ascending, ih.points⟩

end SchemaRpc.Session
