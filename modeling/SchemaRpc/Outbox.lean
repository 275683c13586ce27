import SchemaRpc.Frame

/-!
Bounded queues of frames on their way out. A sender that finds no room waits in line, and a place
that becomes free belongs to the first in line: nobody overtakes a waiting sender.
-/
namespace SchemaRpc

structure Outbox.Waiter where
  ticket : Nat
  frame : Frame
  deadline : Nat
deriving DecidableEq, Repr

structure Outbox where
  capacity : Nat
  patience : Nat
  queue : List Frame
  waiting : List Outbox.Waiter
  isOpen : Bool
deriving DecidableEq, Repr, Inhabited

namespace Outbox

def defaultCapacity : Nat := 1024

def defaultPatience : Nat := 5000

def empty (capacity patience : Nat) : Outbox :=
  ⟨max capacity 1, patience, [], [], true⟩

def room (o : Outbox) : Nat :=
  o.capacity - o.queue.length

def hasRoom (o : Outbox) : Bool :=
  decide (o.waiting.length < o.room)

def enqueue (o : Outbox) (frame : Frame) : Outbox :=
  { o with queue := o.queue ++ [frame] }

inductive Offer where
  | queued
  | waits
  | refused (e : Error)
deriving DecidableEq, Repr

def offer (o : Outbox) (ticket : Nat) (frame : Frame) (now : Nat) : Outbox × Offer :=
  if !o.isOpen then (o, .refused .connectionClosed)
  else if o.hasRoom then (o.enqueue frame, .queued)
  else if o.patience = 0 then (o, .refused .backpressureTimeout)
  else ({ o with waiting := o.waiting ++ [⟨ticket, frame, now + o.patience⟩] }, .waits)

def post (o : Outbox) (frame : Frame) : Outbox × Except Error Unit :=
  if !o.isOpen then (o, .error .connectionClosed)
  else if o.hasRoom then (o.enqueue frame, .ok ())
  else (o, .error .backpressureTimeout)

def owners (o : Outbox) : List Waiter :=
  o.waiting.take o.room

def withdraw (o : Outbox) (ticket : Nat) : Outbox :=
  { o with waiting := o.waiting.filter fun w => w.ticket != ticket }

/-- Frames that are still queued are lost; those in line are refused one after the other. -/
def close (o : Outbox) : Outbox :=
  { o with queue := [], isOpen := false }

def hasAnswer (o : Outbox) (w : Waiter) (now : Nat) : Bool :=
  !o.isOpen || o.owners.contains w || decide (w.deadline ≤ now)

def isAnswered (o : Outbox) (ticket now : Nat) : Bool :=
  o.waiting.any fun w => w.ticket == ticket && o.hasAnswer w now

/-- What a sender in line is told once there is an answer. An owner of a place takes it, however
late it is. -/
def answer (o : Outbox) (w : Waiter) : Except Error Unit × Outbox :=
  let left := o.withdraw w.ticket
  if !o.isOpen then (.error .connectionClosed, left)
  else if o.owners.contains w then (.ok (), left.enqueue w.frame)
  else (.error .backpressureTimeout, left)

def resume? (o : Outbox) (ticket now : Nat) : Option (Except Error Unit × Outbox) :=
  (o.waiting.find? fun w => w.ticket == ticket && o.hasAnswer w now).map o.answer

end Outbox

end SchemaRpc
