import SchemaRpc.Json.Parser
import SchemaRpc.SafeInt

namespace SchemaRpc.SafeInt

def toJson (s : SafeInt) : Json :=
  .int s.toInt

def ofJson (json : Json) : Except Error SafeInt :=
  match json with
  | .int n => (ofInt? n).elim (.error .json) .ok
  | _ => .error .json

def ofJsonText (text : String) : Except Error SafeInt :=
  match Json.parse? text with
  | some json => ofJson json
  | none => .error .json

theorem ofJson_toJson (s : SafeInt) : ofJson s.toJson = .ok s := by
  simp [toJson, ofJson, ofInt?_toInt]

end SchemaRpc.SafeInt
