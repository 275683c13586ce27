import SchemaRpc.Value

/-!
Operations on messages: reading and checked writing of fields, and completion. A complete message
stores every scalar, enum and repeated field; messages, instants and group members are stored only
when set. At most one member of an optional group is stored.
-/
namespace SchemaRpc

namespace Message

def empty (type : String) : Message :=
  ⟨type, []⟩

def get? (m : Message) (n : Nat) : Option Value :=
  Assoc.get? n m.fields

def has (m : Message) (n : Nat) : Bool :=
  (m.get? n).isSome

def insert (m : Message) (n : Nat) (v : Value) : Message :=
  { m with fields := Assoc.insert n v m.fields }

def clear (m : Message) (n : Nat) : Message :=
  { m with fields := Assoc.erase n m.fields }

def initial? (f : Field) : Option Value :=
  match f.cardinality with
  | .repeated => some (.list [])
  | .single => f.kind.zero?
  | .optionalGroup _ => none

def zero (t : MessageType) : Message :=
  t.fields.foldl
    (fun m f =>
      match initial? f with
      | some v => m.insert f.number v
      | none => m)
    (empty t.name)

section Reading

variable (s : Schema) (m : Message)

def messageType : MessageType :=
  s.find m.type

def getNamed? (name : String) : Option Value :=
  match (m.messageType s).fieldNamed? name with
  | some f => m.get? f.number
  | none => none

def which? (group : String) : Option Field :=
  ((m.messageType s).groupMembers group).find? fun f => m.has f.number

def stored : List (Field × Value) :=
  (m.messageType s).fields.filterMap fun f => (m.get? f.number).map fun v => (f, v)

end Reading

section Writing

variable (s : Schema) (m : Message)

def noField (n : Nat) : Error :=
  .schema s!"{m.type} has no field {n}"

def noFieldNamed (name : String) : Error :=
  .schema s!"{m.type} has no field '{name}'"

def noRepeatedField (n : Nat) : Error :=
  .schema s!"{m.type} has no repeated field {n}"

def cannotHold (f : Field) (v : Value) : Error :=
  .schema s!"{m.type}.{f.name} ({f.cardinality.display}, {f.kind.display}) cannot hold {v.kindName}"

def siblings (f : Field) : List Field :=
  match f.group? with
  | some group => ((m.messageType s).groupMembers group).filter fun g => g.number != f.number
  | none => []

def store (f : Field) (v : Value) : Message :=
  ((m.siblings s f).foldl (fun m g => m.clear g.number) m).insert f.number v

def displaces (f : Field) : Bool :=
  (m.siblings s f).any fun g => m.has g.number

def append (f : Field) (v : Value) : Message :=
  match m.get? f.number with
  | some (.list items) => m.insert f.number (.list (items ++ [v]))
  | _ => m.insert f.number (.list [v])

def set (n : Nat) (v : Value) : Except Error Message :=
  match (m.messageType s).field? n with
  | none => .error (m.noField n)
  | some f =>
    if f.accepts v then .ok (m.store s f (f.normalized v)) else .error (m.cannotHold f v)

def setNamed (name : String) (v : Value) : Except Error Message :=
  match (m.messageType s).fieldNamed? name with
  | none => .error (m.noFieldNamed name)
  | some f => m.set s f.number v

def push (n : Nat) (v : Value) : Except Error Message :=
  match (m.messageType s).field? n with
  | none => .error (m.noRepeatedField n)
  | some f =>
    if f.isRepeated then
      if v.fits f.kind then .ok (m.append f (v.normalized f.kind)) else .error (m.cannotHold f v)
    else .error (m.noRepeatedField n)

/-- Stores a value that is known to fit; a field the type does not have is left out. -/
def put (n : Nat) (v : Value) : Message :=
  match (m.messageType s).field? n with
  | none => m
  | some f => m.store s f (f.normalized v)

end Writing

def overlay (base : Message) (entries : List (Nat × Value)) : Message :=
  entries.foldl (fun m p => m.insert p.1 p.2) base

end Message

section Completion

variable (s : Schema)

mutual

def Value.completed : Value → Value
  | .message m => .message m.completed
  | .list items => .list (completedItems items)
  | v => v

def Message.completed : Message → Message
  | ⟨type, fields⟩ => (Message.zero (s.find type)).overlay (completedFields fields)

def completedFields : List (Nat × Value) → List (Nat × Value)
  | [] => []
  | (n, v) :: rest => (n, v.completed) :: completedFields rest

def completedItems : List Value → List Value
  | [] => []
  | v :: rest => v.completed :: completedItems rest

end

end Completion

namespace Message

section Typed

variable (m : Message) (n : Nat)

def stringAt : String :=
  match m.get? n with
  | some (.string text) => text
  | _ => ""

def boolAt : Bool :=
  match m.get? n with
  | some (.bool b) => b
  | _ => false

def int32At : Int32 :=
  match m.get? n with
  | some (.int32 v) => v
  | _ => 0

def uint32At : UInt32 :=
  match m.get? n with
  | some (.uint32 v) => v
  | _ => 0

def integerAt : SafeInt :=
  match m.get? n with
  | some (.integer v) => v
  | _ => .zero

def floatAt : UInt32 :=
  match m.get? n with
  | some (.float bits) => bits
  | _ => 0

def doubleAt : UInt64 :=
  match m.get? n with
  | some (.double bits) => bits
  | _ => 0

def bytesAt : Bytes :=
  match m.get? n with
  | some (.bytes data) => data
  | _ => []

def enumAt : Int32 :=
  match m.get? n with
  | some (.enumeration v) => v
  | _ => 0

def timestampAt? : Option Instant :=
  match m.get? n with
  | some (.timestamp t) => some t
  | _ => none

def messageAt? : Option Message :=
  match m.get? n with
  | some (.message nested) => some nested
  | _ => none

def itemsAt : List Value :=
  match m.get? n with
  | some (.list items) => items
  | _ => []

def stringsAt : List String :=
  (m.itemsAt n).filterMap fun v =>
    match v with
    | .string text => some text
    | _ => none

def messagesAt : List Message :=
  (m.itemsAt n).filterMap fun v =>
    match v with
    | .message nested => some nested
    | _ => none

end Typed

end Message

end SchemaRpc
