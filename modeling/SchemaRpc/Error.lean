import SchemaRpc.Status
import SchemaRpc.Text.Utf8

namespace SchemaRpc

inductive Error where
  | io
  | json
  | truncated (needed remaining : Nat)
  | varintOverflow
  | invalidWireKind (kind : Nat)
  | invalidFieldNumber (number : Nat)
  | invalidUtf8 (fault : Utf8.Fault)
  | malformed (what : String)
  | integerOverflow (n : Int)
  | schema (what : String)
  | invalidJson (what : String)
  | invalidBase64 (field : String)
  | timestamp (what : String)
  | timestampText
  | groupConflict (message group : String)
  | protocol (what : String)
  | status (status : Status)
  | serviceDisabled (service : String)
  | connectionClosed
  | notConnected
  | backpressureTimeout
deriving DecidableEq, Repr, Inhabited

namespace Error

def message : Error → String
  | .io => "I/O error"
  | .json => "JSON error"
  | .truncated needed remaining => s!"Truncated input: needed {needed} bytes, {remaining} remaining"
  | .varintOverflow => "Varint overflows 64 bits"
  | .invalidWireKind kind => s!"Invalid wire kind: {kind}"
  | .invalidFieldNumber number => s!"Invalid field number: {number}"
  | .invalidUtf8 fault => s!"Invalid UTF-8 in string field: {fault.message}"
  | .malformed what => s!"Malformed message: {what}"
  | .integerOverflow n => s!"Integer {n} exceeds the safe integer range"
  | .schema what => s!"Schema error: {what}"
  | .invalidJson what => s!"Invalid JSON: {what}"
  | .invalidBase64 field => s!"{field}:"
  | .timestamp what => s!"Invalid timestamp: {what}"
  | .timestampText => "Invalid timestamp"
  | .groupConflict message group => s!"Conflicting alternatives for group '{group}' in {message}"
  | .protocol what => s!"Protocol error: {what}"
  | .status s => s!"Call failed: {s.display}"
  | .serviceDisabled service => s!"Service {service} is not connected (disabled in stub)"
  | .connectionClosed => "Connection closed"
  | .notConnected => "Not connected"
  | .backpressureTimeout => "Backpressure timeout"

def toStatus : Error → Status
  | .status s => s
  | e => .internal e.message

def statusCode? : Error → Option StatusCode
  | .status s => some s.code
  | _ => none

def nestingLimit : Nat := 100

def nestedTooDeep (type : String) : String :=
  s!"{type} nested deeper than {nestingLimit}"

end Error

end SchemaRpc
