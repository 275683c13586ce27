import SchemaRpc.Method

namespace SchemaRpc

structure Transport (σ : Type) where
  connect : StateM σ (Except Error Unit)
  close : StateM σ (Except Error Unit)
  unary : MethodPath → Bytes → StateM σ (Except Error Bytes)
  serverStreaming : MethodPath → Bytes → StateM σ (Except Error (List (Except Error Bytes)))

namespace Transport

variable {σ : Type}

def disabled : Transport σ where
  connect := pure (.ok ())
  close := pure (.ok ())
  unary path _ := pure (.error (.serviceDisabled path.service))
  serverStreaming path _ := pure (.error (.serviceDisabled path.service))

def closed : Transport σ where
  connect := pure (.error .io)
  close := pure (.ok ())
  unary _ _ := pure (.error .notConnected)
  serverStreaming _ _ := pure (.error .notConnected)

variable {Req Resp : Type} [Typed Req] [Typed Resp]

def call (t : Transport σ) (m : UnaryMethod Req Resp) (request : Req) :
    StateM σ (Except Error Resp) := do
  match ← t.unary m.path (Typed.encode request) with
  | .ok response => return Typed.decode .replace response
  | .error e => return .error e

/-- Every item is read on its own; one that cannot be read does not end the stream. -/
def stream (t : Transport σ) (m : StreamingMethod Req Resp) (request : Req) :
    StateM σ (Except Error (List (Except Error Resp))) := do
  match ← t.serverStreaming m.path (Typed.encode request) with
  | .ok items => return .ok (items.map fun item => item.bind (Typed.decode .replace))
  | .error e => return .error e

end Transport

end SchemaRpc
