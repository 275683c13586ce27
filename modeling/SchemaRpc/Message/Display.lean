import SchemaRpc.Message

namespace SchemaRpc

def MessageType.display (t : MessageType) (texts : List (Nat × String)) : String :=
  let entries := t.fields.filterMap fun f =>
    (Assoc.get? f.number texts).map fun text => Quoted.ofString f.name ++ ": " ++ text
  "\x7b" ++ ", ".intercalate entries ++ "\x7d as " ++ t.name

variable (s : Schema)

mutual

def Value.display : Value → String
  | .bool b => s!"Bool({b})"
  | .int32 n => s!"I32({n.toInt})"
  | .uint32 n => s!"U32({n.toNat})"
  | .integer n => s!"I64(SafeInt({n.toInt}))"
  | .float bits => "F32(" ++ NumberStyle.display.text .binary32 bits.toNat ++ ")"
  | .double bits => "F64(" ++ NumberStyle.display.text .binary64 bits.toNat ++ ")"
  | .string text => s!"String({Quoted.ofString text})"
  | .bytes data => s!"Bytes({Quoted.ofBytes data})"
  | .enumeration n => s!"Enum({n.toInt})"
  | .timestamp t => s!"Timestamp({t.display})"
  | .message m => "Message(" ++ m.display ++ ")"
  | .list items => "List([" ++ ", ".intercalate (displayItems items) ++ "])"

def Message.display : Message → String
  | ⟨type, fields⟩ => (s.find type).display (displayFields fields)

def displayFields : List (Nat × Value) → List (Nat × String)
  | [] => []
  | (n, v) :: rest => (n, v.display) :: displayFields rest

def displayItems : List Value → List String
  | [] => []
  | v :: rest => v.display :: displayItems rest

end

end SchemaRpc
