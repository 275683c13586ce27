import SchemaRpc.Transport

namespace SchemaRpc.Simulation

abbrev Events := List String

structure Script where
  /-- Without replies a request is its own answer. -/
  replies : Option (List (Except Error Bytes))
  refuses : Bool
  failing : List String

namespace Script

def note (event : String) : StateM Events Unit :=
  modify (event :: ·)

def attempt (s : Script) (event : String) : StateM Events (Except Error Unit) := do
  note event
  return if s.failing.contains event then .error (.protocol event) else .ok ()

def noteCall (address : String) (path : MethodPath) (request : Bytes) : StateM Events Unit :=
  note s!"{address} {path.route} {request.hex}"

def stream (s : Script) (request : Bytes) : Except Error (List (Except Error Bytes)) :=
  match s.replies, s.refuses with
  | some (.error e :: _), true => .error e
  | some replies, _ => .ok replies
  | none, _ => .ok [.ok request]

def transport (s : Script) (address : String) : Transport Events where
  connect := s.attempt s!"connect {address}"
  close := s.attempt s!"close {address}"
  unary path request := do
    noteCall address path request
    return (s.replies.bind List.head?).getD (.ok request)
  serverStreaming path request := do
    noteCall address path request
    return s.stream request

end Script

end SchemaRpc.Simulation
