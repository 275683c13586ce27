import SchemaRpc.Message
import SchemaRpc.Text.Utf8
import SchemaRpc.Timestamp

namespace SchemaRpc

inductive GroupRule where
  | replace
  | refuse
deriving DecidableEq, Repr

def Bytes.withLength (body : Bytes) : Bytes :=
  Varint.encodeNat body.length ++ body

inductive Written where
  | one (isDefault : Bool) (payload : Bytes)
  | run (payloads : List Bytes)
deriving DecidableEq, Repr

namespace Field

def record (f : Field) (payload : Bytes) : Bytes :=
  f.tag.encode ++ payload

/-- The records of a field. Default values are left out, except in optional groups. A list has a
record for each element if the field is repeated; in any other field it stands as a bare tag. -/
def encode (f : Field) : Written → Bytes
  | .one isDefault payload =>
    if isDefault && f.group?.isNone then [] else f.record payload
  | .run payloads =>
    if f.isRepeated then payloads.flatMap f.record
    else if payloads.isEmpty && f.group?.isNone then []
    else f.tag.encode

end Field

def MessageType.encode (t : MessageType) (written : List (Nat × Written)) : Bytes :=
  t.fields.flatMap fun f =>
    match Assoc.get? f.number written with
    | some w => f.encode w
    | none => []

section Writing

variable (s : Schema)

mutual

/-- The payload of one element. Negative numbers take all 64 bits. -/
def Value.payload : Value → Bytes
  | .bool b => Varint.encodeNat b.toNat
  | .int32 n => Varint.encode (SafeInt.wire n.toInt)
  | .uint32 n => Varint.encodeNat n.toNat
  | .integer n => Varint.encode n.toWire
  | .float bits => Bytes.littleEndian 4 bits.toNat
  | .double bits => Bytes.littleEndian 8 bits.toNat
  | .string text => (Utf8.encode text).withLength
  | .bytes data => data.withLength
  | .enumeration n => Varint.encode (SafeInt.wire n.toInt)
  | .timestamp t => (Timestamp.ofInstant t).encode.withLength
  | .message m => m.encode.withLength
  | .list _ => []

def Value.written : Value → Written
  | .list items => .run (payloads items)
  | .message m => .one false m.encode.withLength
  | v => .one v.isDefault v.payload

def Message.encode : Message → Bytes
  | ⟨type, fields⟩ => (s.find type).encode (writtenFields fields)

def writtenFields : List (Nat × Value) → List (Nat × Written)
  | [] => []
  | (n, v) :: rest => (n, v.written) :: writtenFields rest

def payloads : List Value → List Bytes
  | [] => []
  | v :: rest => v.payload :: payloads rest

end

end Writing

def lowInt32 (v : UInt64) : Int32 :=
  v.toUInt32.toInt32

inductive Meaning where
  | unknown
  | element (f : Field)
  | run (f : Field) (body : Bytes)

def MessageType.meaning (t : MessageType) (r : Record) : Meaning :=
  match t.field? r.number with
  | none => .unknown
  | some f =>
    if r.payload.kind = f.wireKind then .element f
    else
      match r.payload with
      | .delimited body => if f.isRepeated && f.kind.isPackable then .run f body else .unknown
      | _ => .unknown

def Kind.element (nested : String → Bytes → Except Error Message) :
    Kind → Payload → Except Error Value
  | .scalar .bool, .varint v => .ok (.bool (v != 0))
  | .scalar .int32, .varint v => .ok (.int32 (lowInt32 v))
  | .scalar .uint32, .varint v => .ok (.uint32 v.toUInt32)
  | .scalar .int64, .varint v => (SafeInt.ofSigned v).map .integer
  | .scalar .uint64, .varint v => (SafeInt.ofUnsigned v).map .integer
  | .scalar .float, .fixed32 bits => .ok (.float bits)
  | .scalar .double, .fixed64 bits => .ok (.double bits)
  | .scalar .string, .delimited body =>
    match Utf8.decode body with
    | .ok text => .ok (.string text)
    | .error fault => .error (.invalidUtf8 fault)
  | .scalar .bytes, .delimited body => .ok (.bytes body)
  | .enumeration e, .varint v => .ok (.enumeration (e.normalize (lowInt32 v)))
  | .message name, .delimited body => (nested name body).map .message
  | .timestamp, .delimited body => do
    let t ← Timestamp.decode body
    return .timestamp (← t.toInstant)
  | _, p => .error (.invalidWireKind p.kind.number)

namespace Message

section Reading

variable (s : Schema) (rule : GroupRule)

def keep (m : Message) (f : Field) (v : Value) : Except Error Message :=
  match f.cardinality with
  | .repeated => .ok (m.append f v)
  | .single => .ok (m.store s f v)
  | .optionalGroup group =>
    if rule = .refuse ∧ m.displaces s f = true then .error (.groupConflict m.type group)
    else .ok (m.store s f v)

def absorb (nested : String → Bytes → Except Error Message) (m : Message) (r : Record) :
    Except Error Message :=
  match (m.messageType s).meaning r with
  | .unknown => .ok m
  | .element f =>
    match f.kind.element nested r.payload with
    | .ok v => m.keep s rule f v
    | .error e => .error e
  | .run f body =>
    foldRun f.tag
      (fun m p =>
        match f.kind.element nested p with
        | .ok v => .ok (m.append f v)
        | .error e => .error e)
      m body

def decodeWithin : Nat → String → Bytes → Except Error Message
  | 0, type, _ => .error (.malformed (Error.nestedTooDeep type))
  | levels + 1, type, bytes =>
    foldRecords (absorb s rule (decodeWithin levels)) (zero (s.find type)) bytes

def decode (type : String) (bytes : Bytes) : Except Error Message :=
  decodeWithin s rule (Error.nestingLimit + 1) type bytes

end Reading

end Message

end SchemaRpc
