import Mathlib.Algebra.GroupWithZero.Nat
import Mathlib.Control.Monad.Basic
import SchemaRpc.Proofs.Transport.Fragments

namespace SchemaRpc

theorem Header.length_le_of_check {h : Header} {limit : UInt32} (check : h.check limit = .ok ()) :
    h.length.toNat ≤ limit.toNat := by
  unfold Header.check at check
  split at check
  · cases check
  · split at check
    · cases check
    · next within => exact UInt32.le_iff_toNat_le.1 (UInt32.not_lt.1 within)

theorem Frame.length_flatMap_encode (frames : List Frame) :
    (frames.flatMap Frame.encode).length = (frames.map Frame.size).sum := by
  simp only [List.length_flatMap, Frame.length_encode]

namespace FrameBuffer

/-- The bytes of the header behind which a payload is awaited. They have left the buffer. -/
def announced (b : FrameBuffer) : Nat :=
  match b.phase with
  | .header => 0
  | .payload _ => Header.size

variable {b next last : FrameBuffer} {limit : UInt32} {data : Bytes} {cut before after : List Bytes}
  {frames : List Frame} {answers : List (List Frame)}

theorem length_held (b : FrameBuffer) : b.held.length = b.announced + b.length := by
  obtain ⟨limit, bytes, phase⟩ := b
  cases phase with
  | header => exact (Nat.zero_add _).symm
  | payload h => exact (List.length_append).trans (congrArg (· + _) h.length_encode)

theorem drains_of_push (pushed : b.push data = (next, .ok frames)) :
    (b.extend data).Drains frames next ∧ next.advance = .stuck := by
  obtain ⟨taken, mid, drains, stuck | ⟨e, refuses⟩⟩ := drains_cases (b.extend data)
  · rw [push_eq, drains.drain_of_stuck stuck] at pushed
    cases pushed
    exact ⟨drains, stuck⟩
  · rw [push_eq, drains.drain_of_refuses refuses] at pushed
    cases pushed

theorem drains_of_feed (settled : b.advance = .stuck)
    (fed : b.feed cut = (last, answers.map .ok)) :
    (b.extend cut.flatten).Drains answers.flatten last ∧ last.advance = .stuck := by
  induction cut generalizing b answers with
  | nil =>
      obtain ⟨rfl, none⟩ := Prod.mk.inj fed
      obtain rfl := List.map_eq_nil_iff.1 none.symm
      rw [List.flatten_nil, extend_nil]
      exact ⟨.stop b, settled⟩
  | cons data rest ih =>
      obtain ⟨hlast, hanswers⟩ := Prod.mk.inj fed
      obtain ⟨frames, others, rfl, first, later⟩ := List.map_eq_cons_iff.1 hanswers.symm
      obtain ⟨drains, stuck⟩ := drains_of_push (Prod.ext rfl first.symm)
      -- what a push takes it still takes with all later bytes behind it
      obtain ⟨more, done⟩ := ih stuck (Prod.ext hlast later.symm)
      rw [List.flatten_cons, ← extend_extend]
      exact ⟨(drains.extend rest.flatten).trans more, done⟩

theorem feed_of_append (fed : b.feed (before ++ after) = (last, answers.map .ok)) :
    ∃ mid given rest, answers = given ++ rest ∧ b.feed before = (mid, given.map .ok) ∧
      mid.feed after = (last, rest.map .ok) := by
  rw [feed_append] at fed
  obtain ⟨hlast, hanswers⟩ := Prod.mk.inj fed
  obtain ⟨given, rest, rfl, first, later⟩ := List.map_eq_append_iff.1 hanswers.symm
  exact ⟨_, given, rest, rfl, Prod.ext rfl first.symm, Prod.ext hlast later.symm⟩

structure Balanced (limit : UInt32) (pushed : Nat) (frames : List Frame) (b : FrameBuffer) : Prop where
  conserved : pushed = (frames.map Frame.size).sum + b.announced + b.length
  passes : ∀ f ∈ frames, f.Passes limit ∧ f.payload.length ≤ limit.toNat
  header : b.phase = .header → b.length < Header.size
  payload : ∀ h, b.phase = .payload h → b.length < h.length.toNat ∧ h.length.toNat ≤ limit.toNat
  waits : b.push [] = (b, .ok [])
  bounded : Header.size ≤ limit.toNat → b.length < limit.toNat

theorem Sane.length_le {h : Header} (sane : b.Sane) (hp : b.phase = .payload h) :
    h.length.toNat ≤ b.limit.toNat :=
  Header.length_le_of_check (sane h hp)

theorem length_lt_of_header (stuck : b.advance = .stuck) (hp : b.phase = .header) :
    b.length < Header.size := by
  rcases stuck_cases stuck with ⟨-, short⟩ | ⟨h, hp', -⟩
  · exact short
  · cases hp.symm.trans hp'

theorem length_lt_of_payload {h : Header} (stuck : b.advance = .stuck) (hp : b.phase = .payload h) :
    b.length < h.length.toNat := by
  rcases stuck_cases stuck with ⟨hp', -⟩ | ⟨h', hp', short⟩
  · cases hp.symm.trans hp'
  · cases hp.symm.trans hp'
    exact short

theorem Drains.balanced (drains : Drains ⟨limit, data, .header⟩ frames b)
    (stuck : b.advance = .stuck) : Balanced limit data.length frames b := by
  obtain ⟨passes, sane, rfl⟩ := drains.passes (sane_header limit data)
  have held : data.length = (frames.flatMap Frame.encode).length + b.held.length := by
    rw [← List.length_append, ← drains.held]
    rfl
  have payload : ∀ h, b.phase = .payload h →
      b.length < h.length.toNat ∧ h.length.toNat ≤ b.limit.toNat := fun h hp =>
    ⟨length_lt_of_payload stuck hp, sane.length_le hp⟩
  refine ⟨?conserved, fun f hf => ⟨passes f hf, ?fits⟩, length_lt_of_header stuck, payload, ?waits,
    fun room => ?bounded⟩
  case conserved => rw [held, Frame.length_flatMap_encode, length_held, Nat.add_assoc]
  case fits =>
    rw [(passes f hf).length]
    exact Header.length_le_of_check (passes f hf).check
  case waits => rw [push_eq, extend_nil, FrameBuffer.drain_of_stuck stuck]
  case bounded =>
    cases hp : b.phase with
    | header => exact Nat.lt_of_lt_of_le (length_lt_of_header stuck hp) room
    | payload h => exact Nat.lt_of_lt_of_le (payload h hp).1 (payload h hp).2

theorem bytes_accounted (fed : (empty limit).feed cut = (last, answers.map .ok)) :
    ∀ before, before <+: cut → ∃ b given, (empty limit).feed before = (b, given.map .ok) ∧
      given <+: answers ∧ Balanced limit before.flatten.length given.flatten b := by
  rintro before ⟨after, rfl⟩
  obtain ⟨b, given, rest, rfl, fed, -⟩ := feed_of_append fed
  obtain ⟨drains, stuck⟩ := drains_of_feed (stuck_empty limit) fed
  exact ⟨b, given, fed, List.prefix_append _ _, drains.balanced stuck⟩

theorem feed_begun :
    (empty 16).feed [(Frame.ofKind .cancel 1 []).encode ++ [1, 0, 0, 0], [2, 0, 0, 0, 2, 8], []] =
      (⟨16, [8], .payload ⟨1, 2, 2⟩⟩, [[Frame.ofKind .cancel 1 []], [], []].map .ok) := by
  decide +kernel

theorem bytes_accounted_begun :
    (empty 16).feed [(Frame.ofKind .cancel 1 []).encode ++ [1, 0, 0, 0], [2, 0, 0, 0, 2, 8], []] =
        (⟨16, [8], .payload ⟨1, 2, 2⟩⟩, [[Frame.ofKind .cancel 1 []], [], []].map .ok) ∧
      Balanced 16 19 [.ofKind .cancel 1 []] ⟨16, [8], .payload ⟨1, 2, 2⟩⟩ := by
  obtain ⟨b, given, fed, -, balanced⟩ := bytes_accounted feed_begun _ (List.prefix_refl _)
  rw [feed_begun] at fed
  obtain ⟨rfl, answers⟩ := Prod.mk.inj fed
  obtain rfl := (List.map_inj_right fun _ _ => Except.ok.inj).1 answers
  exact ⟨feed_begun, balanced⟩

end FrameBuffer

end SchemaRpc
