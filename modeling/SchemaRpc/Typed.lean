import SchemaRpc.Message.Json

namespace SchemaRpc

/-- A type whose values are messages of one type. `entries` gives the values of fields that are
set, and `ofFields` reads a message that is known to have the right type. -/
class Typed (α : Type) extends Inhabited α where
  schema : Schema
  name : String
  entries : α → List (Nat × Value)
  ofFields : Message → Except Error α

namespace Typed

variable {α : Type} [Typed α]

def toMessage (x : α) : Message :=
  (entries x).foldl (fun m p => m.put (schema α) p.1 p.2) (Message.zero ((schema α).find (name α)))

def wrongType (expected found : String) : Error :=
  .schema s!"expected {expected}, got {found}"

def ofMessage (m : Message) : Except Error α :=
  if m.type = name α then ofFields m else .error (wrongType (name α) m.type)

def ofPartial (m : Message) : Except Error α :=
  ofMessage (m.completed (schema α))

def encode (x : α) : Bytes :=
  (toMessage x).encode (schema α)

def decode (rule : GroupRule) (bytes : Bytes) : Except Error α := do
  ofMessage (← Message.decode (schema α) rule (name α) bytes)

def toJson (x : α) : Json :=
  (toMessage x).toJson (schema α)

def ofJson (rule : GroupRule) (json : Json) : Except Error α := do
  ofMessage (← Message.ofJson (schema α) rule (name α) json)

def ofJsonText (rule : GroupRule) (text : String) : Except Error α := do
  ofMessage (← Message.ofJsonText (schema α) rule (name α) text)

def at? (α : Type) [Typed α] (m : Message) (n : Nat) : Except Error (Option α) :=
  match m.messageAt? n with
  | some nested => (ofMessage nested).map some
  | none => .ok none

def listAt (α : Type) [Typed α] (m : Message) (n : Nat) : Except Error (List α) :=
  (m.messagesAt n).mapM ofMessage

def optional (n : Nat) (v : Option Value) : List (Nat × Value) :=
  (v.map fun v => (n, v)).toList

end Typed

namespace Field

def text (name jsonName : String) (n : Nat) : Field :=
  single name jsonName n (.scalar .string)

def flag (name jsonName : String) (n : Nat) : Field :=
  single name jsonName n (.scalar .bool)

def nested (name jsonName : String) (n : Nat) (type : String) : Field :=
  single name jsonName n (.message type)

end Field

end SchemaRpc
