import SchemaRpc.Outlet
import SchemaRpc.Proofs.Transport.Framing

namespace SchemaRpc

namespace Outlet

def isLive (o : Outlet) : Bool :=
  o.pipe.isOpen &&
    match o.writer with
    | .idle | .writing _ => true
    | .aborted | .stopped _ => false

structure Queued (o : Outlet) (frames : List Frame) (next : Outlet) : Prop where
  writer : next.writer = o.writer
  pipe : next.pipe = o.pipe
  queue : next.outbox.queue = o.outbox.queue ++ frames

variable {o next : Outlet} {frames : List Frame}

theorem queued_nil (o : Outlet) : o.Queued [] o :=
  ⟨rfl, rfl, (List.append_nil _).symm⟩

theorem Queued.trans {more : List Frame} {last : Outlet} (h : o.Queued frames next)
    (hn : next.Queued more last) : o.Queued (frames ++ more) last :=
  ⟨hn.writer.trans h.writer, hn.pipe.trans h.pipe, by
    rw [hn.queue, h.queue, List.append_assoc]⟩

theorem Queued.isLive (h : o.Queued frames next) : next.isLive = o.isLive := by
  rw [Outlet.isLive, h.writer, h.pipe, Outlet.isLive]

theorem Queued.stream (h : o.Queued frames next) :
    next.stream = o.stream ++ frames.flatMap Frame.encode := by
  rw [Outlet.stream, h.writer, h.pipe, h.queue, List.flatMap_append, ← List.append_assoc,
    Outlet.stream]

theorem isLive_of_advance? {senders : Bool} (h : o.advance? senders = some next) :
    o.isLive = true ∧ next.isLive = true ∧ next.stream = o.stream ∨
      next.isLive = false ∧ next.pipe.bytes = o.pipe.bytes := by
  by_cases hn : next.isLive = true
  · have hs : next.writer.isStopped = false := by
      cases hw : next.writer with
      | stopped r => simp [isLive, hw] at hn
      | _ => rfl
    refine .inl ⟨?_, hn, stream_of_advance? h hs⟩
    unfold advance? at h
    split at h
    · cases h
    · cases h
      simp [isLive, stop] at hn
    · next hw =>
        split at h
        · split at h
          · cases h
          · cases h
            simp [isLive, stop] at hn
        · cases h
          simpa [isLive, hw, takeBatch] using hn
    · next hw =>
        cases h
        simpa [isLive, hw] using hn
    · next hw =>
        split at h
        · cases h
          simp [isLive, stop] at hn
        · split at h
          · cases h
          · cases h
            simpa [isLive, hw, Pipe.write] using hn
  · refine .inr ⟨by simpa using hn, ?_⟩
    unfold advance? at h
    split at h
    · cases h
    · cases h; rfl
    · split at h
      · split at h <;> cases h
        rfl
      · cases h; rfl
    · cases h; rfl
    · split at h
      · cases h; rfl
      · next ho =>
          split at h
          · cases h
          · cases h
            -- the pipe is open and the writer still writes
            simp [isLive] at hn ho
            simp [ho] at hn

theorem waiting_of_advance? {senders : Bool} (h : o.advance? senders = some next) : next.outbox.waiting = o.outbox.waiting := by
  unfold advance? at h
  split at h
  · cases h
  · cases h; rfl
  · split at h
    · split at h <;> cases h
      rfl
    · cases h; rfl
  · cases h; rfl
  · split at h
    · cases h; rfl
    · split at h
      · cases h
      · cases h; rfl

end Outlet

inductive Delivers (o : Outlet) (b : FrameBuffer) (sent received : List Frame) : Prop
  | whole (coming : List Frame) (live : o.isLive = true) (bytes : b.Awaits o.stream coming)
      (order : received ++ coming = sent)
  | broken (coming : List Frame) (lost : Bytes) (dead : o.isLive = false)
      (bytes : b.Awaits (o.pipe.bytes ++ lost) coming) (order : received ++ coming <+: sent)

namespace Delivers

variable {o next : Outlet} {b : FrameBuffer} {sent received frames : List Frame}

theorem isPrefix (h : Delivers o b sent received) : received <+: sent := by
  cases h with
  | whole coming _ _ order => exact ⟨coming, order⟩
  | broken coming _ _ _ order => exact (List.prefix_append received coming).trans order

theorem queued (h : Delivers o b sent received) (hq : o.Queued frames next) :
    Delivers next b (sent ++ frames) received := by
  cases h with
  | whole coming live bytes order =>
      refine .whole (coming ++ frames) (hq.isLive.trans live) ?_ ?_
      · rw [hq.stream]
        exact bytes.append frames
      · rw [← List.append_assoc, order]
  | broken coming lost dead bytes order =>
      refine .broken coming lost (hq.isLive.trans dead) (hq.pipe ▸ bytes) ?_
      exact order.trans (List.prefix_append sent frames)

theorem interrupted (h : Delivers o b sent received) (dead : next.isLive = false)
    (pipe : next.pipe.bytes = o.pipe.bytes) : Delivers next b sent received := by
  cases h with
  | whole coming _ bytes order =>
      rw [Outlet.stream, List.append_assoc, ← pipe] at bytes
      exact .broken coming _ dead bytes (order ▸ List.prefix_refl _)
  | broken coming lost _ bytes order => exact .broken coming lost dead (pipe ▸ bytes) order

theorem abort (h : Delivers o b sent received) : Delivers o.abort b sent received := by
  unfold Outlet.abort
  split
  · exact h
  · exact h.interrupted (by simp [Outlet.isLive]) rfl

theorem advance {senders : Bool} (h : Delivers o b sent received)
    (ha : o.advance? senders = some next) : Delivers next b sent received := by
  rcases Outlet.isLive_of_advance? ha with ⟨hl, hn, hs⟩ | ⟨hn, hp⟩
  · cases h with
    | whole coming _ bytes order => exact .whole coming hn (hs ▸ bytes) order
    | broken _ _ dead _ _ => rw [hl] at dead; cases dead
  · exact h.interrupted hn hp

theorem hangUp (h : Delivers o b sent received) :
    Delivers { o with pipe := o.pipe.hangUp } b sent received := by
  have dead : ({ o with pipe := o.pipe.hangUp } : Outlet).isLive = false := rfl
  cases h with
  | whole coming _ bytes order => exact .broken coming o.stream dead bytes (order ▸ List.prefix_refl _)
  | broken coming lost _ bytes order =>
      exact .broken coming (o.pipe.bytes ++ lost) dead bytes order

theorem read (h : Delivers o b sent received) (hp : ∀ f ∈ sent, f.Passes b.limit) (n : Nat) :
    ∃ buffer taken, b.push (o.pipe.read n).2 = (buffer, .ok taken) ∧ buffer.limit = b.limit ∧
      Delivers { o with pipe := (o.pipe.read n).1 } buffer sent (received ++ taken) := by
  have hbytes := o.pipe.bytes_read n
  cases h with
  | whole coming live bytes order =>
      have hs : (o.pipe.read n).2 ++ ({ o with pipe := (o.pipe.read n).1 } : Outlet).stream =
          o.stream := by
        rw [Outlet.stream, Outlet.stream, ← hbytes]
        simp only [List.append_assoc]
      rw [← hs] at bytes
      obtain ⟨buffer, taken, rest, hpush, rfl, ha, hl⟩ :=
        bytes.push fun f hf => hp f (order ▸ List.mem_append_right _ hf)
      refine ⟨buffer, taken, hpush, hl, .whole rest live ha ?_⟩
      rw [List.append_assoc, order]
  | broken coming lost dead bytes order =>
      rw [← hbytes, List.append_assoc] at bytes
      obtain ⟨buffer, taken, rest, hpush, rfl, ha, hl⟩ :=
        bytes.push fun f hf => hp f (order.subset (List.mem_append_right _ hf))
      refine ⟨buffer, taken, hpush, hl, .broken rest lost dead ha ?_⟩
      rwa [List.append_assoc]

theorem start {pipe : Pipe} {outbox : Outbox} {limit : UInt32} (hp : pipe.isOpen = true)
    (hb : pipe.bytes = []) (hq : outbox.queue = []) :
    Delivers (.empty outbox pipe) (.empty limit) [] [] := by
  refine .whole [] ?_ ?_ rfl
  · rw [Outlet.isLive, Outlet.empty, hp]
    rfl
  · rw [Outlet.stream, Outlet.empty, hb, hq]
    exact FrameBuffer.awaits_empty limit

end Delivers

end SchemaRpc
