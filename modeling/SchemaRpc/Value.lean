import SchemaRpc.Assoc
import SchemaRpc.Instant
import SchemaRpc.Number.Notation
import SchemaRpc.SafeInt
import SchemaRpc.Schema

namespace SchemaRpc

mutual

inductive Value where
  | bool (b : Bool)
  | int32 (n : Int32)
  | uint32 (n : UInt32)
  | integer (n : SafeInt)
  | float (bits : UInt32)
  | double (bits : UInt64)
  | string (text : String)
  | bytes (data : Bytes)
  | enumeration (n : Int32)
  | timestamp (t : Instant)
  | message (m : Message)
  | list (items : List Value)

structure Message where
  type : String
  fields : List (Nat × Value)

end

instance : Inhabited Value := ⟨.bool false⟩

instance : Inhabited Message := ⟨⟨"", []⟩⟩

def Scalar.zero : Scalar → Value
  | .bool => .bool false
  | .int32 => .int32 0
  | .uint32 => .uint32 0
  | .int64 | .uint64 => .integer .zero
  | .float => .float 0
  | .double => .double 0
  | .string => .string ""
  | .bytes => .bytes []

def Kind.zero? : Kind → Option Value
  | .scalar s => some s.zero
  | .enumeration _ => some (.enumeration 0)
  | .message _ | .timestamp => none

namespace Value

/-- Whether a single field leaves the value out. Negative zero is written. -/
def isDefault : Value → Bool
  | .bool b => !b
  | .int32 n => n == 0
  | .uint32 n => n == 0
  | .integer n => n.toInt == 0
  | .float bits => bits == 0
  | .double bits => bits == 0
  | .string text => text.isEmpty
  | .bytes data => data.isEmpty
  | .enumeration n => n == 0
  | .timestamp _ => false
  | .message _ => false
  | .list items => items.isEmpty

def kindName : Value → String
  | .bool _ => "bool"
  | .int32 _ => "int32"
  | .uint32 _ => "uint32"
  | .integer _ => "int64"
  | .float _ => "float"
  | .double _ => "double"
  | .string _ => "string"
  | .bytes _ => "bytes"
  | .enumeration _ => "enum"
  | .timestamp _ => "timestamp"
  | .message _ => "message"
  | .list _ => "list"

def fits : Value → Kind → Bool
  | .bool _, .scalar .bool => true
  | .int32 _, .scalar .int32 => true
  | .uint32 _, .scalar .uint32 => true
  | .integer _, .scalar .int64 => true
  | .integer n, .scalar .uint64 => decide (0 ≤ n.toInt)
  | .float _, .scalar .float => true
  | .double _, .scalar .double => true
  | .string _, .scalar .string => true
  | .bytes _, .scalar .bytes => true
  | .enumeration _, .enumeration _ => true
  | .timestamp _, .timestamp => true
  | .message m, .message name => m.type == name
  | _, _ => false

/-- The stored form of an element: enum numbers are declared ones, instants whole milliseconds. -/
def normalized : Value → Kind → Value
  | .enumeration n, .enumeration e => .enumeration (e.normalize n)
  | .timestamp t, .timestamp => .timestamp t.truncated
  | v, _ => v

end Value

def Field.accepts (f : Field) : Value → Bool
  | .list items => f.isRepeated && items.all (·.fits f.kind)
  | v => !f.isRepeated && v.fits f.kind

def Field.normalized (f : Field) (v : Value) : Value :=
  match f.cardinality, v with
  | .repeated, .list items => .list (items.map (·.normalized f.kind))
  | _, v => v.normalized f.kind

mutual

/-- Equality of what values stand for: a NaN differs from itself, and zeros are equal. -/
def Value.same : Value → Value → Bool
  | .bool a, .bool b => a == b
  | .int32 a, .int32 b => a == b
  | .uint32 a, .uint32 b => a == b
  | .integer a, .integer b => a.toInt == b.toInt
  | .float a, .float b => FloatFormat.binary32.numericEq a.toNat b.toNat
  | .double a, .double b => FloatFormat.binary64.numericEq a.toNat b.toNat
  | .string a, .string b => a == b
  | .bytes a, .bytes b => a == b
  | .enumeration a, .enumeration b => a == b
  | .timestamp a, .timestamp b => a == b
  | .message a, .message b => a.same b
  | .list a, .list b => sameItems a b
  | _, _ => false

def Message.same : Message → Message → Bool
  | ⟨type, fields⟩, other => type == other.type && sameFields fields other.fields

def sameFields : List (Nat × Value) → List (Nat × Value) → Bool
  | [], [] => true
  | (n, v) :: rest, (k, w) :: others => n == k && v.same w && sameFields rest others
  | _, _ => false

def sameItems : List Value → List Value → Bool
  | [], [] => true
  | v :: rest, w :: others => v.same w && sameItems rest others
  | _, _ => false

end

end SchemaRpc
