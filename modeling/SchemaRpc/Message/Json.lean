import SchemaRpc.Json.Parser
import SchemaRpc.Message.Binary
import SchemaRpc.Text.Base64
import SchemaRpc.Text.Blank

namespace SchemaRpc

structure Shown where
  isDefault : Bool
  json : Kind → Json

def MessageType.toJson (t : MessageType) (shown : List (Nat × Shown)) : Json :=
  .object (t.fields.foldl
    (fun members f =>
      match Assoc.get? f.number shown with
      | some v =>
        if v.isDefault && f.group?.isNone then members
        else Json.setMember f.jsonName (v.json f.kind) members
      | none => members)
    [])

/-- The double that the shortest decimal of a binary32 number reads as. -/
def widened (bits : UInt32) : UInt64 :=
  let negative := FloatFormat.binary32.isNegative bits.toNat
  UInt64.ofNat <|
    match FloatFormat.binary32.magnitude bits.toNat with
    | .finite significand exponent =>
      let d := FloatFormat.binary32.shortest .up significand exponent
      FloatFormat.binary64.ofDecimal negative (if significand = 0 then 0 else d.digits) d.exponent
    | .infinite => FloatFormat.binary64.withSign negative FloatFormat.binary64.infinity
    | .nan => FloatFormat.binary64.quietNaN

section Writing

variable (s : Schema)

mutual

def Value.toJson : Value → Kind → Json
  | .bool b, _ => .bool b
  | .int32 n, _ => .int n.toInt
  | .uint32 n, _ => .int n.toNat
  | .integer n, _ => .int n.toInt
  | .float bits, _ => Json.ofDouble (widened bits)
  | .double bits, _ => Json.ofDouble bits
  | .string text, _ => .string text
  | .bytes data, _ => .string (Base64.encode data)
  | .enumeration n, k =>
    match k with
    | .enumeration e => .string (e.nameOf n)
    | _ => .int n.toInt
  | .timestamp t, _ => .string t.text
  | .message m, _ => m.toJson
  | .list items, k => .array (itemsToJson items k)

def Message.toJson : Message → Json
  | ⟨type, fields⟩ => (s.find type).toJson (shownFields fields)

def shownFields : List (Nat × Value) → List (Nat × Shown)
  | [] => []
  | (n, v) :: rest => (n, ⟨v.isDefault, fun k => v.toJson k⟩) :: shownFields rest

def itemsToJson : List Value → Kind → List Json
  | [], _ => []
  | v :: rest, k => v.toJson k :: itemsToJson rest k

end

end Writing

namespace Field

variable (f : Field)

def expects (what : String) (json : Json) : Error :=
  .invalidJson s!"{f.name} expects {what}, got {json.render}"

def cannotHold (n : Int) : Error :=
  .invalidJson s!"{f.name} cannot hold {n}"

def integer (json : Json) : Except Error Int :=
  match json with
  | .int n => .ok n
  | .double bits =>
    match FloatFormat.binary64.toInt? bits.toNat with
    | some n => .ok (SafeInt.clamp n)
    | none => .error (f.expects "an integer" json)
  | .string text =>
    match Decimal.parseInt? (Blank.trimChars text.toList) with
    | some n => if SafeInt.clamp n = n then .ok n else .error (f.expects "an integer" json)
    | none => .error (f.expects "an integer" json)
  | _ => .error (f.expects "an integer" json)

def bounded (low high : Int) (json : Json) : Except Error Int :=
  match f.integer json with
  | .ok n => if low ≤ n ∧ n ≤ high then .ok n else .error (f.cannotHold n)
  | .error e => .error e

def double (json : Json) : Except Error Nat :=
  match json with
  | .int n => .ok (FloatFormat.binary64.ofInt n)
  | .double bits => .ok bits.toNat
  | .string "NaN" => .ok FloatFormat.binary64.quietNaN
  | .string "Infinity" => .ok FloatFormat.binary64.infinity
  | .string "-Infinity" => .ok (FloatFormat.binary64.withSign true FloatFormat.binary64.infinity)
  | .string text =>
    match FloatFormat.binary64.parse? (Blank.trim text) with
    | some bits => .ok bits
    | none => .error (f.expects "a number" json)
  | _ => .error (f.expects "a number" json)

def scalarOfJson (scalar : Scalar) (json : Json) : Except Error Value :=
  match scalar with
  | .bool =>
    match json with
    | .bool b => .ok (.bool b)
    | _ => .error (f.expects "a boolean" json)
  | .int32 => do return .int32 (Int32.ofInt (← f.bounded (-2147483648) 2147483647 json))
  | .uint32 => do return .uint32 (UInt32.ofNat (← f.bounded 0 4294967295 json).toNat)
  | .int64 => do return .integer (← SafeInt.ofInt (← f.integer json))
  | .uint64 => do
    let n ← f.integer json
    if n < 0 then throw (f.cannotHold n)
    return .integer (← SafeInt.ofInt n)
  | .float => do
    return .float (UInt32.ofNat (FloatFormat.binary64.convert .binary32 (← f.double json)))
  | .double => do return .double (UInt64.ofNat (← f.double json))
  | .string =>
    match json with
    | .string text => .ok (.string text)
    | _ => .error (f.expects "a string" json)
  | .bytes =>
    match json with
    | .string text =>
      match Base64.decode? text with
      | some data => .ok (.bytes data)
      | none => .error (.invalidBase64 f.name)
    | _ => .error (f.expects "a base64 string" json)

def elementOfJson (nested : String → Json → Except Error Message) (json : Json) :
    Except Error Value :=
  match f.kind with
  | .scalar scalar => f.scalarOfJson scalar json
  | .enumeration e =>
    match json with
    | .string name => .ok (.enumeration (e.numberOf name))
    | .int _ | .double _ => do
      return .enumeration (Int32.ofInt (← f.bounded (-2147483648) 2147483647 json))
    | _ => .error (f.expects "an enum name or number" json)
  | .message name => (nested name json).map .message
  | .timestamp =>
    match json with
    | .string text => (Instant.ofText text).map .timestamp
    | _ => .error (f.expects "an RFC 3339 string" json)

def ofJson (nested : String → Json → Except Error Message) (json : Json) : Except Error Value :=
  if f.isRepeated then
    match json with
    | .array items => do return .list (← items.mapM (f.elementOfJson nested))
    | _ => .error (f.expects "an array" json)
  else f.elementOfJson nested json

end Field

namespace Message

section Reading

variable (s : Schema) (rule : GroupRule)

/-- Takes a member of an object into a message. Keys that name no field and nulls are passed
over. -/
def absorbMember (nested : String → Json → Except Error Message) (m : Message)
    (member : String × Json) : Except Error Message :=
  match (m.messageType s).fieldNamed? member.1, member.2 with
  | none, _ => .ok m
  | some _, .null => .ok m
  | some f, json =>
    match f.ofJson nested json with
    | .error e => .error e
    | .ok v =>
      match f.group? with
      | some group =>
        if rule = .refuse ∧ (m.which? s group).any (·.number != f.number) then
          .error (.groupConflict m.type group)
        else m.set s f.number v
      | none => m.set s f.number v

def ofJsonWithin : Nat → String → Json → Except Error Message
  | 0, type, _ => .error (.invalidJson (Error.nestedTooDeep type))
  | levels + 1, type, json =>
    match json with
    | .object members => members.foldlM (absorbMember s rule (ofJsonWithin levels)) (zero (s.find type))
    | _ => .error (.invalidJson s!"{type} expects an object")

def ofJson (type : String) (json : Json) : Except Error Message :=
  ofJsonWithin s rule (Error.nestingLimit + 1) type json

def ofJsonText (type : String) (text : String) : Except Error Message :=
  match Json.parse? text with
  | some json => ofJson s rule type json
  | none => .error .json

end Reading

end Message

end SchemaRpc
