import SchemaRpc.Instant
import SchemaRpc.SafeInt
import SchemaRpc.Wire.Record

namespace SchemaRpc

def Instant.ofText (text : String) : Except Error Instant :=
  match Instant.parse? text with
  | some t => .ok t.truncated
  | none => .error .timestampText

structure Timestamp where
  seconds : Int
  nanos : Int
deriving DecidableEq, Repr

namespace Timestamp

def minSeconds : Int := -62135596800

def maxSeconds : Int := 253402300799

def maxNanos : Int := 999999999

def ofInstant (t : Instant) : Timestamp :=
  ⟨t.millis / 1000, t.millis % 1000 * 1000000⟩

def secondsOutOfRange (seconds : Int) : Error :=
  .timestamp s!"{seconds} seconds is out of range"

def nanosOutOfRange (nanos : Int) : Error :=
  .timestamp s!"{nanos} nanos is out of range"

def toInstant (t : Timestamp) : Except Error Instant :=
  if t.seconds < minSeconds ∨ maxSeconds < t.seconds then .error (secondsOutOfRange t.seconds)
  else if t.nanos < 0 ∨ maxNanos < t.nanos then .error (nanosOutOfRange t.nanos)
  else .ok (Instant.ofMillis (t.seconds * 1000 + t.nanos / 1000000))

def encodeField (number : Nat) (n : Int) : Bytes :=
  if n = 0 then []
  else Tag.encode ⟨number, .varint⟩ ++ Varint.encode (SafeInt.wire n)

def encode (t : Timestamp) : Bytes :=
  encodeField 1 t.seconds ++ encodeField 2 t.nanos

/-- Takes in one record; the low 32 bits of a second field are the nanoseconds. -/
def absorb (t : Timestamp) (r : Record) : Except Error Timestamp :=
  match r.number, r.payload with
  | 1, .varint v =>
    match SafeInt.ofSigned v with
    | .ok seconds => .ok { t with seconds := seconds.toInt }
    | .error e => .error e
  | 2, .varint v => .ok { t with nanos := Int.bmod v.toNat 4294967296 }
  | _, _ => .ok t

def decode (bytes : Bytes) : Except Error Timestamp :=
  foldRecords absorb ⟨0, 0⟩ bytes

end Timestamp

end SchemaRpc
