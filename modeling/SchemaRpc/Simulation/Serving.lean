import SchemaRpc.Server
import SchemaRpc.Simulation.Thread

namespace SchemaRpc

def Task.stepsLeft (t : Task) : Nat :=
  let rest := t.rest.foldl (fun steps r => steps + if r.isFinal then 3 else 5) 0
  match t.stage with
  | .ended | .idle => 0
  | .aborted => 1
  | .active => rest + 1
  | .waiting r => rest + if r.isFinal then 3 else 5

def Server.client (s : Server) : Connection :=
  s.connections.head?.getD default

instance : Simulation.Side Server where
  outlet s := s.client.outlet
  withOutlet s outlet := s.update 0 fun c free => ({ c with outlet := outlet }, free)
  hasSenders s := s.client.hasSenders
  isReading s := s.client.isServing
  read s data := s.read 0 data
  dispatch s f := s.dispatch 0 f
  endInput s := s.endInput 0
  workers s := s.client.tasks.zipIdx.filterMap fun (t, n) => if t.isAtWork then some n else none
  canWork s n now := s.client.canRun n now
  work s n now := s.runTask 0 n now
  backlog s := s.client.tasks.foldl (fun steps t => steps + t.stepsLeft) 0

namespace Simulation

abbrev Serving := Thread Server

namespace Serving

def start (router : Router) (handlers : Nat) (limit : UInt32) (outlet : Outlet) : Serving :=
  Thread.start ((Server.empty router handlers).connect (.empty limit outlet)) [.reader, .writer]

def answer (s : Serving) (id : UInt32) (a : Answer) : Serving × Option (Except Error Unit) :=
  let n := s.side.client.tasks.length
  let s : Serving := s.act fun server =>
    server.update 0 fun c free => (c.start (.ofAnswer id a), free)
  let s : Serving :=
    s.await (fun server => server.client.hasEnded n) (s.now + 2 * s.outlet.outbox.patience + 1)
  let result (t : Task) : Option (Except Error Unit) :=
    if t.isLive then none
    else some (t.failure.elim (.ok ()) .error)
  (s, s.side.client.tasks[n]?.bind result)

end Serving

end Simulation

end SchemaRpc
