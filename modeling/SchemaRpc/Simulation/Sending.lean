import SchemaRpc.Simulation.Thread

namespace SchemaRpc.Simulation

structure Sending where
  outlet : Outlet
  isOwned : Bool
  done : List (Nat × Except Error Unit)
deriving Repr

namespace Sending

def start (outlet : Outlet) : Sending :=
  ⟨outlet, true, []⟩

def withOutbox (s : Sending) (outbox : Outbox) : Sending :=
  { s with outlet := { s.outlet with outbox := outbox } }

def finish (s : Sending) (ticket : Nat) (result : Except Error Unit) : Sending :=
  { s with done := s.done ++ [(ticket, result)] }

def send (s : Sending) (ticket : Nat) (frame : Frame) (now : Nat) : Sending :=
  let (outbox, offer) := s.outlet.outbox.offer ticket frame now
  let s := s.withOutbox outbox
  match offer with
  | .queued => s.finish ticket (.ok ())
  | .waits => s
  | .refused e => s.finish ticket (.error e)

def trySend (s : Sending) (ticket : Nat) (frame : Frame) : Sending :=
  let (outbox, result) := s.outlet.outbox.post frame
  (s.withOutbox outbox).finish ticket result

def resume (s : Sending) (ticket now : Nat) : Sending :=
  match s.outlet.outbox.resume? ticket now with
  | some (result, outbox) => (s.withOutbox outbox).finish ticket result
  | none => s

def disown (s : Sending) : Sending :=
  { s with isOwned := false }

def clear (s : Sending) : Sending :=
  { s with done := [] }

def hasDone (s : Sending) (ticket : Nat) : Bool :=
  s.done.any fun d => d.1 == ticket

instance : Side Sending where
  outlet := Sending.outlet
  withOutlet s outlet := { s with outlet := outlet }
  hasSenders s := s.isOwned || !s.outlet.outbox.waiting.isEmpty
  isReading _ := false
  read s _ := (s, [])
  dispatch s _ := s
  endInput s := s
  workers _ := []
  canWork s ticket now := s.outlet.outbox.isAnswered ticket now
  work := resume
  backlog _ := 0

def thread (outlet : Outlet) : Thread Sending :=
  .start (.start outlet) [.writer]

def awaitAnswer (t : Thread Sending) (ticket : Nat) : Thread Sending :=
  t.await (·.hasDone ticket) (t.now + t.outlet.outbox.patience + 1)

end Sending

end SchemaRpc.Simulation
