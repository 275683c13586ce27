import SchemaRpc.Outbox
import SchemaRpc.Pipe

/-!
The way out of one side of a connection: frames go from the outbox through a writer into a pipe.
The writer joins what is queued, up to 64 frames, and writes it all before it looks again. Whatever
the batches are, the pipe gets the frames' encodings in the order of the queue.
-/
namespace SchemaRpc

inductive Writer where
  | idle
  | writing (rest : Bytes)
  | aborted
  | stopped (result : Except Error Unit)
deriving Repr, Inhabited

namespace Writer

def batchLimit : Nat := 64

def isStopped : Writer → Bool
  | .stopped _ => true
  | _ => false

def rest : Writer → Bytes
  | .writing rest => rest
  | _ => []

def effort : Writer → Nat
  | .stopped _ => 0
  | .idle | .aborted => 1
  | .writing rest => 2 + rest.length

end Writer

structure Outlet where
  outbox : Outbox
  writer : Writer
  pipe : Pipe
deriving Repr, Inhabited

namespace Outlet

def empty (outbox : Outbox) (pipe : Pipe) : Outlet :=
  ⟨outbox, .idle, pipe⟩

def stop (o : Outlet) (result : Except Error Unit) : Outlet :=
  { o with writer := .stopped result, outbox := o.outbox.close }

/-- Tells the writer to stop. Until it does, frames are still queued. -/
def abort (o : Outlet) : Outlet :=
  if o.writer.isStopped then o else { o with writer := .aborted }

def takeBatch (o : Outlet) : Outlet :=
  { o with
    writer := .writing ((o.outbox.queue.take Writer.batchLimit).flatMap Frame.encode)
    outbox := { o.outbox with queue := o.outbox.queue.drop Writer.batchLimit } }

def stream (o : Outlet) : Bytes :=
  o.pipe.bytes ++ o.writer.rest ++ o.outbox.queue.flatMap Frame.encode

/-- The writer's next step, if it can go on. It is done when nothing is queued and nobody is left
who might send; it fails when it writes and the reading end is gone. -/
def advance? (o : Outlet) (senders : Bool) : Option Outlet :=
  match o.writer with
  | .stopped _ => none
  | .aborted => some (o.stop (.error .connectionClosed))
  | .idle =>
    if o.outbox.queue.isEmpty then
      if senders then none else some (o.stop (.ok ()))
    else some o.takeBatch
  | .writing [] => some { o with writer := .idle }
  | .writing rest =>
    if !o.pipe.isOpen then some (o.stop (.error .io))
    else if o.pipe.room = 0 then none
    else
      let (pipe, left) := o.pipe.write rest
      some { o with pipe := pipe, writer := .writing left }

def canAdvance (o : Outlet) (senders : Bool) : Bool :=
  match o.writer with
  | .stopped _ => false
  | .idle => !o.outbox.queue.isEmpty || !senders
  | .writing rest => rest.isEmpty || !o.pipe.isOpen || o.pipe.room != 0
  | .aborted => true

theorem isSome_advance? (o : Outlet) (senders : Bool) :
    (o.advance? senders).isSome = o.canAdvance senders := by
  unfold advance? canAdvance
  cases o.writer with
  | stopped r => rfl
  | aborted => rfl
  | idle => cases o.outbox.queue.isEmpty <;> cases senders <;> simp
  | writing rest =>
    cases rest with
    | nil => rfl
    | cons b rest =>
      cases o.pipe.isOpen <;> by_cases hr : o.pipe.room = 0 <;> simp [hr]

theorem effort_stop (o : Outlet) (result : Except Error Unit) (h : o.writer.isStopped = false) :
    (o.stop result).outbox.queue.length < o.outbox.queue.length ∨
      (o.stop result).outbox.queue.length = o.outbox.queue.length ∧
        (o.stop result).writer.effort < o.writer.effort := by
  show 0 < o.outbox.queue.length ∨ 0 = o.outbox.queue.length ∧ 0 < o.writer.effort
  cases hw : o.writer with
  | stopped r => simp [hw, Writer.isStopped] at h
  | idle | aborted => simp only [Writer.effort]; omega
  | writing rest => simp only [Writer.effort]; omega

theorem effort_of_advance? {o next : Outlet} {senders : Bool} (h : o.advance? senders = some next) :
    next.outbox.queue.length < o.outbox.queue.length ∨
      next.outbox.queue.length = o.outbox.queue.length ∧ next.writer.effort < o.writer.effort := by
  unfold advance? at h
  split at h
  · cases h
  · next hw =>
      cases h
      exact effort_stop o _ (by rw [hw]; rfl)
  · next hw =>
      split at h
      · split at h
        · cases h
        · cases h
          exact effort_stop o _ (by rw [hw]; rfl)
      · next hq =>
          cases h
          have : o.outbox.queue.length ≠ 0 := by
            simpa [List.isEmpty_iff] using hq
          simp only [takeBatch, List.length_drop, Writer.batchLimit]
          omega
  · next hw =>
      cases h
      simp [hw, Writer.effort]
  · next rest hr hw =>
      split at h
      · cases h
        exact effort_stop o _ (by rw [hw]; rfl)
      · split at h
        · cases h
        · next hroom =>
            cases h
            have : rest.length ≠ 0 := by
              simpa using hr
            refine .inr ⟨rfl, ?_⟩
            rw [hw]
            show 2 + (rest.drop o.pipe.room).length < 2 + rest.length
            rw [List.length_drop]
            omega

theorem stream_takeBatch (o : Outlet) (h : o.writer.rest = []) : o.takeBatch.stream = o.stream := by
  show o.pipe.bytes ++ (o.outbox.queue.take Writer.batchLimit).flatMap Frame.encode ++
    (o.outbox.queue.drop Writer.batchLimit).flatMap Frame.encode = o.stream
  rw [List.append_assoc, ← List.flatMap_append, List.take_append_drop, stream, h, List.append_nil]

theorem stream_of_advance? {o next : Outlet} {senders : Bool} (h : o.advance? senders = some next)
    (hn : next.writer.isStopped = false) : next.stream = o.stream := by
  unfold advance? at h
  split at h
  · cases h
  · cases h
    cases hn
  · next hw =>
      split at h
      · split at h
        · cases h
        · cases h
          cases hn
      · cases h
        exact stream_takeBatch o (by rw [hw]; rfl)
  · next hw =>
      cases h
      simp [stream, hw, Writer.rest]
  · next rest _ hw =>
      split at h
      · cases h
        cases hn
      · split at h
        · cases h
        · cases h
          show o.pipe.bytes ++ rest.take o.pipe.room ++ rest.drop o.pipe.room ++ _ = _
          rw [stream, hw, List.append_assoc o.pipe.bytes, List.take_append_drop]
          rfl

def run (o : Outlet) (senders : Bool) : Outlet :=
  match _h : o.advance? senders with
  | none => o
  | some next => next.run senders
termination_by (o.outbox.queue.length, o.writer.effort)
decreasing_by
  cases effort_of_advance? _h with
  | inl h => exact Prod.Lex.left _ _ h
  | inr h => exact h.1 ▸ Prod.Lex.right _ h.2

end Outlet

end SchemaRpc
