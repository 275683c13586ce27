import SchemaRpc.Proofs.Transport.Fragments

namespace SchemaRpc.FrameBuffer

variable {limit id : UInt32} {flags : UInt8} {payload : Bytes} {kind : FrameKind} {frames : List Frame}

theorem refuses_oversized (named : FrameKind.ofFlags? flags = some kind) (hid : id ≠ 0)
    (long : limit.toNat < payload.length % 4294967296) :
    ((empty limit).extend (Frame.ofFlags flags id payload).encode).Refuses
      (Header.tooLarge (.ofNat payload.length) limit) :=
  .header ((Frame.check_ofFlags named hid).trans (if_pos long))

theorem drains_begun (limit : UInt32) (named : FrameKind.ofFlags? flags = some kind) (hid : id ≠ 0)
    (taken rest : Bytes) (length : taken.length = (taken ++ rest).length % 4294967296)
    (short : taken.length ≤ limit.toNat) :
    ((empty limit).extend (Frame.ofFlags flags id (taken ++ rest)).encode).Drains
      [.ofFlags flags id taken] ((empty limit).extend rest) := by
  have check : (Frame.ofFlags flags id (taken ++ rest)).header.check limit = .ok () :=
    (Frame.check_ofFlags named hid).trans (if_neg (length ▸ Nat.not_lt.2 short))
  have cut : UInt32.ofNat taken.length = .ofNat (taken ++ rest).length := by
    rw [← UInt32.toNat_inj, UInt32.toNat_ofNat', UInt32.toNat_ofNat', length, Nat.mod_mod]
  have first : Frame.ofFlags flags id taken =
      ⟨(Frame.ofFlags flags id (taken ++ rest)).header, taken⟩ := by
    rw [Frame.ofFlags, cut, Frame.ofFlags]
  rw [first]
  exact .move (.header check)
    (.move (.payload (length.trans (Frame.toNat_length_ofFlags flags id _).symm)) (.stop _))

theorem drains_cut (limit : UInt32) (named : FrameKind.ofFlags? flags = some kind) (hid : id ≠ 0)
    (short : payload.length % 4294967296 ≤ limit.toNat) :
    ((empty limit).extend (Frame.ofFlags flags id payload).encode).Drains
      [.ofFlags flags id (payload.take (payload.length % 4294967296))]
      ((empty limit).extend (payload.drop (payload.length % 4294967296))) := by
  have length : (payload.take (payload.length % 4294967296)).length = payload.length % 4294967296 :=
    List.length_take_of_le (Nat.mod_le _ _)
  have drains := drains_begun limit named hid
    (payload.take (payload.length % 4294967296)) (payload.drop (payload.length % 4294967296))
  rw [List.take_append_drop] at drains
  exact drains length (Nat.le_trans (Nat.le_of_eq length) short)

theorem oversized_read (named : FrameKind.ofFlags? flags = some kind) (hid : id ≠ 0) :
    (payload.length ≤ limit.toNat →
      (empty limit).push (Frame.ofFlags flags id payload).encode =
        (empty limit, .ok [Frame.ofFlags flags id payload])) ∧
    (limit.toNat < payload.length % 4294967296 → ∃ held,
      (empty limit).push (Frame.ofFlags flags id payload).encode =
        (held, .error (Header.tooLarge (.ofNat payload.length) limit)) ∧
      ∀ more, (held.push more).2 = .error (Header.tooLarge (.ofNat payload.length) limit)) ∧
    (limit.toNat < payload.length → payload.length % 4294967296 ≤ limit.toNat →
      4294967296 ≤ payload.length ∧
      (empty limit).push (Frame.ofFlags flags id payload).encode =
        (((empty limit).push (payload.drop (payload.length % 4294967296))).1,
          ((empty limit).push (payload.drop (payload.length % 4294967296))).2.map
            (.ofFlags flags id (payload.take (payload.length % 4294967296)) :: ·))) := by
  refine ⟨fun short => ?whole, fun long => ?refused, fun long short => ⟨?beyond, ?cut⟩⟩
  case whole =>
    have hmod : payload.length % 4294967296 = payload.length :=
      Nat.mod_eq_of_lt (Nat.lt_of_le_of_lt short limit.toNat_lt)
    have drains := drains_cut limit named hid (hmod.symm ▸ short)
    rw [hmod, List.take_length, List.drop_length, extend_nil] at drains
    exact drains.drain_of_stuck (stuck_empty limit)
  case refused =>
    have refuses := refuses_oversized named hid long
    refine ⟨_, refuses.drain, fun more => ?_⟩
    rw [push_eq, (refuses.extend more).drain]
  case beyond =>
    refine Nat.le_of_not_lt fun few => ?_
    rw [Nat.mod_eq_of_lt few] at short
    exact absurd long (Nat.not_lt.2 short)
  case cut => exact (drains_cut limit named hid short).drain

theorem oversized_read_edge :
    (empty 4).push (Frame.ofFlags 7 9 [1, 2, 3, 4]).encode =
      (empty 4, .ok [Frame.ofFlags 7 9 [1, 2, 3, 4]]) ∧
    (∃ held, (empty 4).push (Frame.ofFlags 7 9 [1, 2, 3, 4, 5]).encode =
      (held, .error (Header.tooLarge 5 4)) ∧
      ∀ more, (held.push more).2 = .error (Header.tooLarge 5 4)) ∧
    (empty 4).push (Frame.ofFlags 7 9 (List.replicate 4294967296 0)).encode =
      (((empty 4).push (List.replicate 4294967296 0)).1,
        ((empty 4).push (List.replicate 4294967296 0)).2.map (Frame.ofFlags 7 9 [] :: ·)) := by
  have named : FrameKind.ofFlags? 7 = some .error := rfl
  have length : (List.replicate 4294967296 (0 : UInt8)).length = 4294967296 := List.length_replicate
  have beyond := (@oversized_read 4 9 7 (List.replicate 4294967296 0) .error named (by decide)).2.2
    (by rw [length]; decide) (by rw [length]; decide)
  rw [length, Nat.mod_self, List.take_zero, List.drop_zero] at beyond
  exact ⟨(oversized_read named (by decide)).1 (by decide),
    (oversized_read named (by decide)).2.1 (by decide), beyond.2⟩

theorem push_nested (named : FrameKind.ofFlags? flags = some kind) (hid : id ≠ 0)
    (passes : ∀ f ∈ frames, f.Passes limit)
    (wrapped : (frames.flatMap Frame.encode).length % 4294967296 = 0) :
    (empty limit).push (Frame.ofFlags flags id (frames.flatMap Frame.encode)).encode =
      (empty limit, .ok (.ofFlags flags id [] :: frames)) := by
  have begun := drains_cut limit named hid (wrapped ▸ Nat.zero_le _)
  rw [wrapped, List.take_zero, List.drop_zero] at begun
  have nested := Drains.whole passes []
  rw [List.append_nil] at nested
  exact (begun.trans nested).drain_of_stuck (stuck_empty limit)

/-- A cancellation that takes up 16 bytes. -/
def inner : Frame := .ofKind .cancel 7 [0, 0, 0, 0, 0, 0, 0]

theorem frames_slip_through :
    FrameKind.ofFlags? 0 = some .request ∧
      (16 : UInt32).toNat < ((List.replicate 268435456 inner).flatMap Frame.encode).length ∧
      (empty 16).push
          (Frame.ofFlags 0 1 ((List.replicate 268435456 inner).flatMap Frame.encode)).encode =
        (empty 16, .ok (.ofFlags 0 1 [] :: List.replicate 268435456 inner)) := by
  have named : FrameKind.ofFlags? 0 = some .request := rfl
  have length : ((List.replicate 268435456 inner).flatMap Frame.encode).length = 4294967296 := by
    simp only [List.length_flatMap, List.map_replicate, List.sum_replicate_nat]
    rfl
  have passes : ∀ f ∈ List.replicate 268435456 inner, f.Passes 16 := by
    intro f hf
    rw [List.eq_of_mem_replicate hf]
    exact Frame.passes_ofKind .cancel (by decide) (by decide)
  refine ⟨named, ?_, push_nested named (by decide) passes ?_⟩
  · rw [length]
    decide
  · rw [length]

end SchemaRpc.FrameBuffer
