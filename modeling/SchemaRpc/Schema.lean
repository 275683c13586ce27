import SchemaRpc.Text.Quoted
import SchemaRpc.Wire.Tag

namespace SchemaRpc

inductive Scalar where
  | bool
  | int32
  | uint32
  | int64
  | uint64
  | float
  | double
  | string
  | bytes
deriving DecidableEq, Repr

namespace Scalar

def name : Scalar → String
  | .bool => "Bool"
  | .int32 => "Int32"
  | .uint32 => "UInt32"
  | .int64 => "Int64"
  | .uint64 => "UInt64"
  | .float => "Float"
  | .double => "Double"
  | .string => "String"
  | .bytes => "Bytes"

def wireKind : Scalar → WireKind
  | .bool | .int32 | .uint32 | .int64 | .uint64 => .varint
  | .float => .fixed32
  | .double => .fixed64
  | .string | .bytes => .delimited

end Scalar

structure EnumType where
  name : String
  values : List (String × Int32)
deriving DecidableEq, Repr

namespace EnumType

/-- What every undeclared number is stored as. -/
def unrecognized : Int32 := -1

def unrecognizedName : String := "UNRECOGNIZED"

def declares (e : EnumType) (n : Int32) : Bool :=
  e.values.any fun v => v.2 == n

def normalize (e : EnumType) (n : Int32) : Int32 :=
  if e.declares n then n else unrecognized

def nameOf (e : EnumType) (n : Int32) : String :=
  match e.values.find? fun v => v.2 == n with
  | some v => v.1
  | none => unrecognizedName

def numberOf (e : EnumType) (name : String) : Int32 :=
  match e.values.find? fun v => v.1 == name with
  | some v => v.2
  | none => unrecognized

theorem normalize_of_declares {e : EnumType} {n : Int32} (h : e.declares n = true) :
    e.normalize n = n := by
  rw [normalize, if_pos h]

theorem normalize_eq (e : EnumType) (n : Int32) :
    e.declares (e.normalize n) = true ∨ e.normalize n = unrecognized := by
  rw [normalize]
  split
  · next h => exact .inl h
  · exact .inr rfl

theorem normalize_normalize (e : EnumType) (n : Int32) :
    e.normalize (e.normalize n) = e.normalize n := by
  cases normalize_eq e n with
  | inl h => exact normalize_of_declares h
  | inr h =>
      rw [h, normalize]
      split <;> rfl

end EnumType

inductive Kind where
  | scalar (s : Scalar)
  | enumeration (e : EnumType)
  | message (name : String)
  | timestamp
deriving DecidableEq, Repr

namespace Kind

def display : Kind → String
  | .scalar s => s!"Scalar({s.name})"
  | .enumeration e => s!"Enum({e.name})"
  | .message name => s!"Message({name})"
  | .timestamp => "Timestamp"

def wireKind : Kind → WireKind
  | .scalar s => s.wireKind
  | .enumeration _ => .varint
  | .message _ | .timestamp => .delimited

def isMessageLike : Kind → Bool
  | .message _ | .timestamp => true
  | _ => false

def isPackable (k : Kind) : Bool :=
  decide (k.wireKind ≠ .delimited)

end Kind

inductive Cardinality where
  | single
  | repeated
  | optionalGroup (group : String)
deriving DecidableEq, Repr

def Cardinality.display : Cardinality → String
  | .single => "Single"
  | .repeated => "Repeated"
  | .optionalGroup group => s!"OptionalGroup({Quoted.ofString group})"

structure Field where
  name : String
  jsonName : String
  number : Nat
  kind : Kind
  cardinality : Cardinality
deriving DecidableEq, Repr

namespace Field

def single (name jsonName : String) (number : Nat) (kind : Kind) : Field :=
  ⟨name, jsonName, number, kind, .single⟩

def repeated (f : Field) : Field :=
  { f with cardinality := .repeated }

def inGroup (f : Field) (group : String) : Field :=
  { f with cardinality := .optionalGroup group }

def isRepeated (f : Field) : Bool :=
  decide (f.cardinality = .repeated)

def group? (f : Field) : Option String :=
  match f.cardinality with
  | .optionalGroup group => some group
  | _ => none

def wireKind (f : Field) : WireKind :=
  f.kind.wireKind

def tag (f : Field) : Tag :=
  ⟨f.number, f.wireKind⟩

def isNamed (f : Field) (name : String) : Bool :=
  f.name == name || f.jsonName == name

end Field

structure MessageType where
  name : String
  fields : List Field
deriving DecidableEq, Repr

namespace MessageType

def field? (t : MessageType) (number : Nat) : Option Field :=
  t.fields.find? fun f => f.number == number

def fieldNamed? (t : MessageType) (name : String) : Option Field :=
  t.fields.find? fun f => f.isNamed name

def groupMembers (t : MessageType) (group : String) : List Field :=
  t.fields.filter fun f => f.group? == some group

def invalidNumber (t : MessageType) (f : Field) : Error :=
  .schema s!"{t.name}.{f.name} has invalid number {f.number}"

def collision (t : MessageType) (f earlier : Field) : Error :=
  .schema s!"{t.name}.{f.name} collides with {t.name}.{earlier.name}"

def checkFrom (t : MessageType) (earlier : List Field) : List Field → Except Error Unit
  | [] => .ok ()
  | f :: rest =>
    if f.number = 0 ∨ Tag.maxNumber < f.number then .error (t.invalidNumber f)
    else
      match earlier.find? fun e => e.number == f.number || e.name == f.name with
      | some e => .error (t.collision f e)
      | none => t.checkFrom (earlier ++ [f]) rest

/-- Field numbers are in range, and numbers and schema names are unique. -/
def check (t : MessageType) : Except Error Unit :=
  t.checkFrom [] t.fields

theorem field?_eq_some {t : MessageType} {n : Nat} {f : Field} (h : t.field? n = some f) :
    f ∈ t.fields ∧ f.number = n :=
  ⟨List.mem_of_find?_eq_some h, by simpa using List.find?_some h⟩

theorem fieldNamed?_eq_some {t : MessageType} {name : String} {f : Field}
    (h : t.fieldNamed? name = some f) : f ∈ t.fields :=
  List.mem_of_find?_eq_some h

end MessageType

structure Schema where
  types : List MessageType
deriving DecidableEq, Repr

namespace Schema

/-- The type of a name; a name without a type has no fields. -/
def find (s : Schema) (name : String) : MessageType :=
  (s.types.find? fun t => t.name == name).getD ⟨name, []⟩

@[simp] theorem name_find (s : Schema) (name : String) : (s.find name).name = name := by
  rw [find]
  cases h : s.types.find? fun t => t.name == name with
  | none => rfl
  | some t => simpa using List.find?_some h

end Schema

end SchemaRpc
