import SchemaRpc.Frame
import SchemaRpc.Message.Binary

namespace SchemaRpc.Route

def join (route : String) (message : Bytes) : Bytes :=
  (Utf8.encode route).withLength ++ message

def malformed (route : String) : Error :=
  .protocol s!"Malformed route '{route}'"

def split (payload : Bytes) : Except Error (String × Bytes) :=
  match Reader.delimited payload with
  | .error e _ => .error e
  | .ok name message =>
    match Utf8.decode name with
    | .error fault => .error (.invalidUtf8 fault)
    | .ok route => if route.startsWith "/" then .ok (route, message) else .error (malformed route)

end SchemaRpc.Route

namespace SchemaRpc.Frame

def request (id : UInt32) (route : String) (message : Bytes) : Frame :=
  ofKind .request id (Route.join route message)

end SchemaRpc.Frame
