import SchemaRpc.Typed

namespace SchemaRpc.Lambda

def schema : Schema := ⟨[
  ⟨"lambda.InvokeRequest", [
    .text "namespace" "namespace" 1,
    .text "name" "name" 2,
    .single "payload" "payload" 3 (.scalar .bytes)]⟩,
  ⟨"lambda.InvokeResponse", [
    .single "payload" "payload" 1 (.scalar .bytes),
    .single "duration_ms" "durationMs" 2 (.scalar .uint64)]⟩]⟩

structure InvokeRequest where
  ns : String
  name : String
  payload : Bytes
deriving DecidableEq, Repr, Inhabited

structure InvokeResponse where
  payload : Bytes
  durationMs : SafeInt
deriving DecidableEq, Repr, Inhabited

instance : Typed InvokeRequest where
  schema := schema
  name := "lambda.InvokeRequest"
  entries x := [(1, .string x.ns), (2, .string x.name), (3, .bytes x.payload)]
  ofFields m := .ok ⟨m.stringAt 1, m.stringAt 2, m.bytesAt 3⟩

instance : Typed InvokeResponse where
  schema := schema
  name := "lambda.InvokeResponse"
  entries x := [(1, .bytes x.payload), (2, .integer x.durationMs)]
  ofFields m := .ok ⟨m.bytesAt 1, m.integerAt 2⟩

end SchemaRpc.Lambda
