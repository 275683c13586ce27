import SchemaRpc.Session
import SchemaRpc.Simulation.Thread

namespace SchemaRpc

def Call.stepsLeft (c : Call) : Nat :=
  match c.stage with
  | .registered => 3
  | .sending => 2
  | .unsent _ | .awaiting => 1
  | .streaming | .returned _ | .dropped => 0

instance : Simulation.Side Session where
  outlet := Session.outlet
  withOutlet s outlet := { s with outlet := outlet }
  hasSenders := Session.hasSenders
  isReading := Session.isReading
  read := Session.read
  dispatch := Session.route
  endInput := Session.endInput
  workers s := s.calls.zipIdx.filterMap fun (c, n) => if s.isAtWork n c then some n else none
  canWork := Session.canProceed
  work := Session.proceed
  backlog s := s.calls.foldl (fun steps c => steps + c.stepsLeft) 0

namespace Simulation

structure Calling where
  thread : Thread Session
  isListening : Bool

namespace Calling

def start (outlet : Outlet) : Calling :=
  ⟨.start (.start outlet) [.writer, .reader], true⟩

def session (c : Calling) : Session := c.thread.side

def act (c : Calling) (f : Session → Session) : Calling :=
  { c with thread := c.thread.act f }

def call (c : Calling) (style : Style) (path : MethodPath) (request : Bytes) : Calling :=
  c.act fun s => s.register style path.route request

def drop (c : Calling) (n : Nat) : Calling :=
  c.act fun s => s.drop n

def next (c : Calling) (n : Nat) : Calling × Session.Next :=
  let (session, next) := c.session.next n
  (c.act fun _ => session, next)

def send (c : Calling) (data : Bytes) : Calling :=
  { c with thread := c.thread.deliver data }

def close (c : Calling) : Calling :=
  c.act Session.close

def hangUp (c : Calling) : Calling :=
  { c with thread := c.thread.hangUp }

def listen (c : Calling) (listening : Bool) : Calling :=
  { c with isListening := listening }

def wait (c : Calling) (ms : Nat) : Calling :=
  { c with thread := c.thread.sleep ms }

def returnedSince (c : Calling) (before : List Call) : List Nat :=
  let hasReturned (call : Call) : Bool := call.outcome?.isSome
  ((before.zipWithAll fun old new => !old.any hasReturned && new.any hasReturned)
    c.session.calls).zipIdx.filterMap fun (isNew, n) => if isNew then some n else none

def turn (c : Calling) (action : Calling → Calling) : Calling × List Frame × List Nat :=
  let before := c.session.calls
  let c := action c
  let (thread, frames) := c.thread.follow c.isListening
  let c := { c with thread := thread }
  (c, frames, c.returnedSince before)

end Calling

end Simulation

end SchemaRpc
