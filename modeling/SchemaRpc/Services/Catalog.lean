import SchemaRpc.Typed

namespace SchemaRpc.Catalog

def schema : Schema := ⟨[
  ⟨"catalog.Catalog", [
    .text "namespace" "namespace" 1,
    .text "name" "name" 2,
    .text "public_name" "publicName" 3,
    (Field.nested "fields" "fields" 4 "catalog.FieldSchema").repeated,
    .single "created" "created" 100 .timestamp,
    .single "updated" "updated" 101 .timestamp,
    .single "version" "version" 102 (.scalar .int64)]⟩,
  ⟨"catalog.FieldSchema", [
    .text "name" "name" 1,
    (Field.nested "int_schema" "intSchema" 2 "catalog.IntSchema").inGroup "data",
    (Field.nested "float_schema" "floatSchema" 3 "catalog.FloatSchema").inGroup "data",
    (Field.nested "string_schema" "stringSchema" 4 "catalog.StringSchema").inGroup "data",
    (Field.nested "bool_schema" "boolSchema" 5 "catalog.BoolSchema").inGroup "data",
    .flag "required" "required" 6]⟩,
  ⟨"catalog.IntSchema", [
    .single "min" "min" 1 (.scalar .int64),
    .single "max" "max" 2 (.scalar .int64)]⟩,
  ⟨"catalog.FloatSchema", [
    .single "min" "min" 1 (.scalar .double),
    .single "max" "max" 2 (.scalar .double)]⟩,
  ⟨"catalog.StringSchema", [
    .single "max_length" "maxLength" 1 (.scalar .uint32),
    .text "pattern" "pattern" 2]⟩,
  ⟨"catalog.BoolSchema", [
    .flag "default_value" "defaultValue" 1]⟩,
  ⟨"catalog.GetCatalogRequest", [
    .text "namespace" "namespace" 1,
    .text "name" "name" 2]⟩,
  ⟨"catalog.CreateCatalogRequest", [
    .nested "catalog" "catalog" 1 "catalog.Catalog"]⟩,
  ⟨"catalog.ListCatalogsRequest", [
    .text "namespace" "namespace" 1,
    .single "limit" "limit" 2 (.scalar .uint32)]⟩]⟩

structure IntSchema where
  min : SafeInt
  max : SafeInt
deriving DecidableEq, Repr, Inhabited

structure FloatSchema where
  min : UInt64
  max : UInt64
deriving DecidableEq, Repr, Inhabited

structure StringSchema where
  maxLength : UInt32
  pattern : String
deriving DecidableEq, Repr, Inhabited

structure BoolSchema where
  defaultValue : Bool
deriving DecidableEq, Repr, Inhabited

inductive FieldData where
  | int (s : IntSchema)
  | float (s : FloatSchema)
  | string (s : StringSchema)
  | bool (s : BoolSchema)
deriving DecidableEq, Repr

structure FieldSchema where
  name : String
  data : Option FieldData
  required : Bool
deriving DecidableEq, Repr, Inhabited

end Catalog

structure Catalog where
  ns : String
  name : String
  publicName : String
  fields : List Catalog.FieldSchema
  created : Option Instant
  updated : Option Instant
  version : SafeInt
deriving DecidableEq, Repr, Inhabited

namespace Catalog

structure GetCatalogRequest where
  ns : String
  name : String
deriving DecidableEq, Repr, Inhabited

structure CreateCatalogRequest where
  catalog : Option Catalog
deriving DecidableEq, Repr, Inhabited

structure ListCatalogsRequest where
  ns : String
  limit : UInt32
deriving DecidableEq, Repr, Inhabited

instance : Typed IntSchema where
  schema := schema
  name := "catalog.IntSchema"
  entries x := [(1, .integer x.min), (2, .integer x.max)]
  ofFields m := .ok ⟨m.integerAt 1, m.integerAt 2⟩

instance : Typed FloatSchema where
  schema := schema
  name := "catalog.FloatSchema"
  entries x := [(1, .double x.min), (2, .double x.max)]
  ofFields m := .ok ⟨m.doubleAt 1, m.doubleAt 2⟩

instance : Typed StringSchema where
  schema := schema
  name := "catalog.StringSchema"
  entries x := [(1, .uint32 x.maxLength), (2, .string x.pattern)]
  ofFields m := .ok ⟨m.uint32At 1, m.stringAt 2⟩

instance : Typed BoolSchema where
  schema := schema
  name := "catalog.BoolSchema"
  entries x := [(1, .bool x.defaultValue)]
  ofFields m := .ok ⟨m.boolAt 1⟩

def FieldData.entry : FieldData → Nat × Value
  | .int s => (2, .message (Typed.toMessage s))
  | .float s => (3, .message (Typed.toMessage s))
  | .string s => (4, .message (Typed.toMessage s))
  | .bool s => (5, .message (Typed.toMessage s))

def FieldData.ofFields (m : Message) : Except Error (Option FieldData) :=
  match (m.which? schema "data").map (·.number) with
  | some 2 => (Typed.at? IntSchema m 2).map (·.map .int)
  | some 3 => (Typed.at? FloatSchema m 3).map (·.map .float)
  | some 4 => (Typed.at? StringSchema m 4).map (·.map .string)
  | some 5 => (Typed.at? BoolSchema m 5).map (·.map .bool)
  | _ => .ok none

instance : Typed FieldSchema where
  schema := schema
  name := "catalog.FieldSchema"
  entries x := [(1, .string x.name), (6, .bool x.required)] ++ (x.data.map (·.entry)).toList
  ofFields m := do return ⟨m.stringAt 1, ← FieldData.ofFields m, m.boolAt 6⟩

instance : Typed Catalog where
  schema := schema
  name := "catalog.Catalog"
  entries x :=
    [(1, .string x.ns), (2, .string x.name), (3, .string x.publicName),
      (4, .list (x.fields.map fun f => .message (Typed.toMessage f))), (102, .integer x.version)] ++
    Typed.optional 100 (x.created.map .timestamp) ++ Typed.optional 101 (x.updated.map .timestamp)
  ofFields m := do
    return ⟨m.stringAt 1, m.stringAt 2, m.stringAt 3, ← Typed.listAt FieldSchema m 4,
      m.timestampAt? 100, m.timestampAt? 101, m.integerAt 102⟩

instance : Typed GetCatalogRequest where
  schema := schema
  name := "catalog.GetCatalogRequest"
  entries x := [(1, .string x.ns), (2, .string x.name)]
  ofFields m := .ok ⟨m.stringAt 1, m.stringAt 2⟩

instance : Typed CreateCatalogRequest where
  schema := schema
  name := "catalog.CreateCatalogRequest"
  entries x := Typed.optional 1 (x.catalog.map fun c => .message (Typed.toMessage c))
  ofFields m := do return ⟨← Typed.at? Catalog m 1⟩

instance : Typed ListCatalogsRequest where
  schema := schema
  name := "catalog.ListCatalogsRequest"
  entries x := [(1, .string x.ns), (2, .uint32 x.limit)]
  ofFields m := .ok ⟨m.stringAt 1, m.uint32At 2⟩

end Catalog

end SchemaRpc
