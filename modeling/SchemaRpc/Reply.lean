import SchemaRpc.Frame
import SchemaRpc.Typed.Status

namespace SchemaRpc

inductive Reply where
  | response (message : Bytes)
  | chunk (message : Bytes)
  | streamEnd
  | failure (s : Status)
deriving DecidableEq, Repr

namespace Reply

def kind : Reply → FrameKind
  | .response _ => .response
  | .chunk _ => .streamChunk
  | .streamEnd => .streamEnd
  | .failure _ => .error

def payload : Reply → Bytes
  | .response message => message
  | .chunk message => message
  | .streamEnd => []
  | .failure s => Typed.encode s

def frame (r : Reply) (id : UInt32) : Frame :=
  .ofKind r.kind id r.payload

def isFinal : Reply → Bool
  | .chunk _ => false
  | _ => true

end Reply

inductive Outcome (α : Type) where
  | returned (a : α)
  | failed (s : Status)
  | pending
deriving DecidableEq, Repr

structure Answer where
  chunks : List Bytes
  last : Option Reply
deriving DecidableEq, Repr

namespace Answer

def failure (s : Status) : Answer :=
  ⟨[], some (.failure s)⟩

def replies (a : Answer) : List Reply :=
  a.chunks.map .chunk ++ a.last.toList

def finish {α : Type} (reply : α → Reply) : Outcome α → Option Reply
  | .returned a => some (reply a)
  | .failed s => some (.failure s)
  | .pending => none

end Answer

end SchemaRpc
