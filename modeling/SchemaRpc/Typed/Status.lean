import SchemaRpc.Typed

namespace SchemaRpc

def StatusCode.enumType : EnumType :=
  ⟨"protostub.StatusCode", StatusCode.all.map fun c => (c.symbol, Int32.ofNat c.number)⟩

namespace Status

def schema : Schema := ⟨[
  ⟨"protostub.Status", [
    .single "code" "code" 1 (.enumeration StatusCode.enumType),
    .text "message" "message" 2]⟩]⟩

instance : Typed Status where
  schema := schema
  name := "protostub.Status"
  entries s := [(1, .enumeration (Int32.ofNat s.code.number)), (2, .string s.text)]
  ofFields m := .ok ⟨StatusCode.ofInt (m.enumAt 1).toInt, m.stringAt 2⟩

end Status

end SchemaRpc
