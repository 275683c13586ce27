import SchemaRpc.Connection

namespace SchemaRpc

structure Server where
  router : Router
  free : Nat
  connections : List Connection

namespace Server

def defaultHandlers : Nat := 256

def empty (router : Router) (handlers : Nat) : Server :=
  ⟨router, handlers, []⟩

def connect (s : Server) (c : Connection) : Server :=
  { s with connections := s.connections ++ [c] }

def update (s : Server) (i : Nat) (step : Connection → Nat → Connection × Nat) : Server :=
  match s.connections[i]? with
  | some c =>
    let (c, free) := step c s.free
    { s with free := free, connections := s.connections.set i c }
  | none => s

def dispatch (s : Server) (i : Nat) (f : Frame) : Server :=
  s.update i fun c free => c.dispatch s.router free f

def read (s : Server) (i : Nat) (data : Bytes) : Server × List Frame :=
  match s.connections[i]? with
  | some c =>
    let (c, frames) := c.read data
    ({ s with connections := s.connections.set i c }, frames)
  | none => (s, [])

def endInput (s : Server) (i : Nat) : Server :=
  s.update i fun c free => (c.endInput, free)

def runTask (s : Server) (i n now : Nat) : Server :=
  s.update i fun c free => c.runTask free n now

end Server

end SchemaRpc
