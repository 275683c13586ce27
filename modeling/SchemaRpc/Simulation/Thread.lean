import SchemaRpc.Frame.Buffer
import SchemaRpc.Outlet

/-!
One side of a connection on a thread of its own, with virtual time. The reader, the writer and the
workers of the side take turns: whoever becomes able to go on joins the end of a line, and goes on
as far as possible when its turn comes. The far end acts before the turns of a cycle. Time passes
only when nobody can go on. A thread gets to rest because every turn leaves less to do.
-/
namespace SchemaRpc.Simulation

inductive Actor where
  | reader
  | writer
  | worker (n : Nat)
deriving DecidableEq, Repr

class Side (σ : Type) where
  outlet : σ → Outlet
  withOutlet : σ → Outlet → σ
  hasSenders : σ → Bool
  isReading : σ → Bool
  read : σ → Bytes → σ × List Frame
  dispatch : σ → Frame → σ
  endInput : σ → σ
  workers : σ → List Nat
  canWork : σ → Nat → Nat → Bool
  work : σ → Nat → Nat → σ
  backlog : σ → Nat

structure Thread (σ : Type) where
  side : σ
  incoming : Pipe
  ready : List Actor
  resting : List Actor
  now : Nat
  isConnected : Bool
  heard : FrameBuffer
  hasHeardEnd : Bool

structure Remaining where
  input : Nat
  backlog : Nat
  waiting : Nat
  queued : Nat
  effort : Nat
  written : Nat
  turns : Nat

namespace Remaining

def stages (r : Remaining) : Nat × Nat × Nat × Nat × Nat × Nat × Nat :=
  (r.input, r.backlog, r.waiting, r.queued, r.effort, r.written, r.turns)

abbrev Less (a b : Remaining) : Prop :=
  a.input < b.input ∨ a.input = b.input ∧
  (a.backlog < b.backlog ∨ a.backlog = b.backlog ∧
  (a.waiting < b.waiting ∨ a.waiting = b.waiting ∧
  (a.queued < b.queued ∨ a.queued = b.queued ∧
  (a.effort < b.effort ∨ a.effort = b.effort ∧
  (a.written < b.written ∨ a.written = b.written ∧ a.turns < b.turns)))))

theorem Less.lex {a b : Remaining} (h : a.Less b) :
    Prod.Lex (· < ·) (Prod.Lex (· < ·) (Prod.Lex (· < ·) (Prod.Lex (· < ·) (Prod.Lex (· < ·)
      (Prod.Lex (· < ·) (· < ·)))))) a.stages b.stages := by
  simpa only [stages, Prod.lex_def] using h

end Remaining

namespace Thread

variable {σ : Type} [Side σ]

def cycleLength : Nat := 61

def stepLimit : Nat := 128

def start (side : σ) (starters : List Actor) : Thread σ :=
  ⟨side, .empty (Side.outlet side).pipe.limit, starters, [], 0, true,
    .empty FrameBuffer.defaultLimit, false⟩

def outlet (t : Thread σ) : Outlet := Side.outlet t.side

def line (t : Thread σ) : List Outbox.Waiter := t.outlet.outbox.waiting

def isAble (t : Thread σ) : Actor → Bool
  | .reader => Side.isReading t.side && (!t.incoming.bytes.isEmpty || !t.isConnected)
  | .writer => t.outlet.canAdvance (Side.hasSenders t.side)
  | .worker n => Side.canWork t.side n t.now

def able (t : Thread σ) : List Actor :=
  [.reader, .writer].filter t.isAble ++
    (t.line.filter fun w => t.outlet.outbox.hasAnswer w t.now).map (fun w => .worker w.ticket) ++
    (Side.workers t.side).map .worker

def enlist (t : Thread σ) : Thread σ :=
  { t with
    ready := t.able.foldl
      (fun ready a => if ready.contains a || t.resting.contains a then ready else ready ++ [a])
      t.ready }

def act (t : Thread σ) (f : σ → σ) : Thread σ :=
  { t with side := f t.side }.enlist

def withOutlet (t : Thread σ) (o : Outlet) : Thread σ :=
  t.act fun side => Side.withOutlet side o

def readPiece (t : Thread σ) (piece : Bytes) : Thread σ :=
  if Side.isReading t.side then
    let (side, frames) := Side.read t.side piece
    frames.foldl (fun t f => t.act fun side => Side.dispatch side f)
      { t with side := side, incoming := (t.incoming.read piece.length).1 }
  else t

def runReader (t : Thread σ) : Thread σ :=
  let t := (Pipe.pieces Pipe.readSize t.incoming.bytes).foldl readPiece t
  if t.isConnected then t else { t with side := Side.endInput t.side }

def runWorker (n : Nat) : Nat → Thread σ → Thread σ
  | 0, t => t
  | steps + 1, t =>
    if t.isAble (.worker n) then runWorker n steps { t with side := Side.work t.side n t.now }
    else t

def run (t : Thread σ) : Actor → Thread σ
  | .reader => t.runReader
  | .writer => t.withOutlet (t.outlet.run (Side.hasSenders t.side))
  | .worker n => t.runWorker n stepLimit

def turn (t : Thread σ) : Thread σ :=
  match t.ready with
  | [] => t
  | a :: _ =>
    let t := (t.run a).enlist
    { t with
      ready := t.ready.tail
      resting := if t.isAble a then t.resting ++ [a] else t.resting }

def cycle (t : Thread σ) : Thread σ :=
  let t := (List.range cycleLength).foldl (fun t _ => t.turn) t
  { t with ready := t.ready ++ t.resting, resting := [] }

def remaining (t : Thread σ) : Remaining where
  input := t.incoming.bytes.length + (Side.isReading t.side).toNat
  backlog := Side.backlog t.side
  waiting := t.line.length
  queued := t.outlet.outbox.queue.length
  effort := t.outlet.writer.effort
  written := t.outlet.pipe.bytes.length
  turns := t.ready.length + 2 * t.resting.length

def settle (t : Thread σ) : Thread σ :=
  let next := t.cycle
  if _h : next.remaining.Less t.remaining then next.settle else next
termination_by t.remaining.stages
decreasing_by exact _h.lex

def alarm (t : Thread σ) (after latest : Nat) : Nat :=
  ((t.line.map (·.deadline)).filter fun d => decide (after < d)).foldl min latest

def await (isDone : σ → Bool) (latest : Nat) (t : Thread σ) : Thread σ :=
  if _h : t.now < latest then
    let settled := t.settle
    if isDone settled.side then settled
    else
      await isDone latest
        { settled with now := max (t.now + 1) (settled.alarm t.now latest) }.enlist
  else t
termination_by latest - t.now
decreasing_by
  show latest - max (t.now + 1) (t.settle.alarm t.now latest) < latest - t.now
  omega

def sleep (t : Thread σ) (ms : Nat) : Thread σ :=
  t.await (fun _ => false) (t.now + ms)

def deliver (t : Thread σ) (data : Bytes) : Thread σ :=
  if !t.isConnected || (!Side.isReading t.side && t.outlet.writer.isStopped) then t
  else
    let (incoming, left) := t.incoming.write data
    let written := { t with incoming := incoming }.enlist
    if left.isEmpty then written
    else
      let next := written.cycle
      if _h : left.length < data.length ∨
          left.length = data.length ∧ next.remaining.Less t.remaining then next.deliver left
      else next
termination_by (data.length, t.remaining.stages)
decreasing_by
  cases _h with
  | inl h => exact Prod.Lex.left _ _ h
  | inr h => exact h.1 ▸ Prod.Lex.right _ h.2.lex

def read (t : Thread σ) (n : Nat) : Thread σ × Bytes :=
  let (pipe, bytes) := t.outlet.pipe.read n
  (t.withOutlet { t.outlet with pipe := pipe }, bytes)

def listen (pause : Thread σ → Thread σ) (got : List Bytes) (t : Thread σ) : Thread σ × Bytes :=
  if t.outlet.pipe.bytes.isEmpty then (t, got.reverse.flatten)
  else
    let (heard, bytes) := t.read t.outlet.pipe.bytes.length
    let next := pause heard
    if _h : next.remaining.Less t.remaining then next.listen pause (bytes :: got)
    else (next, (bytes :: got).reverse.flatten)
termination_by t.remaining.stages
decreasing_by exact _h.lex

def flush (t : Thread σ) : Thread σ × Bytes :=
  t.settle.listen settle []

/-- What follows an action: a millisecond passes, and a listener reads, with a millisecond after
each read. The frames are those that it gets to know. -/
def follow (t : Thread σ) (listening : Bool) : Thread σ × List Frame :=
  let t := t.sleep 1
  if listening && t.isConnected then
    let (t, bytes) := t.listen (·.sleep 1) []
    let (heard, frames) := t.heard.push bytes
    ({ t with
        heard := heard
        hasHeardEnd := t.hasHeardEnd || t.outlet.writer.isStopped },
      frames.toOption.getD [])
  else (t, [])

def hangUp (t : Thread σ) : Thread σ :=
  { t with isConnected := false }.withOutlet { t.outlet with pipe := t.outlet.pipe.hangUp }

end Thread

end SchemaRpc.Simulation
