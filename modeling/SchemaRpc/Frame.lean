import SchemaRpc.Error

namespace SchemaRpc

inductive FrameKind where
  | request
  | cancel
  | response
  | streamChunk
  | streamEnd
  | error
deriving DecidableEq, Repr

namespace FrameKind

def name : FrameKind → String
  | .request => "Request"
  | .cancel => "Cancel"
  | .response => "Response"
  | .streamChunk => "StreamChunk"
  | .streamEnd => "StreamEnd"
  | .error => "Error"

def flags : FrameKind → UInt8
  | .request => 0x00
  | .cancel => 0x10
  | .response => 0x01
  | .streamChunk => 0x05
  | .streamEnd => 0x0D
  | .error => 0x03

/-- An error may carry the stream flag. -/
def ofFlags? (flags : UInt8) : Option FrameKind :=
  if flags = 0x00 then some .request
  else if flags = 0x10 then some .cancel
  else if flags = 0x01 then some .response
  else if flags = 0x05 then some .streamChunk
  else if flags = 0x0D then some .streamEnd
  else if flags = 0x03 ∨ flags = 0x07 then some .error
  else none

theorem ofFlags?_flags (k : FrameKind) : ofFlags? k.flags = some k := by
  cases k <;> decide

end FrameKind

/-- The length is that of the payload as far as 32 bits hold it. -/
structure Header where
  flags : UInt8
  id : UInt32
  length : UInt32
deriving DecidableEq, Repr

namespace Header

def size : Nat := 9

def reservedBits : UInt8 := 0xE0

def hasFlag (h : Header) (flag : UInt8) : Bool :=
  h.flags &&& flag != 0

def isResponse (h : Header) : Bool := h.hasFlag 0x01

def isError (h : Header) : Bool := h.hasFlag 0x02

def isStream (h : Header) : Bool := h.hasFlag 0x04

def isStreamEnd (h : Header) : Bool := h.hasFlag 0x08

def isCancel (h : Header) : Bool := h.hasFlag 0x10

def invalidFlags (flags : UInt8) : Error :=
  .protocol ("Invalid flag combination 0x" ++
    String.ofList [Nat.digitChar (flags.toNat / 16), Nat.digitChar (flags.toNat % 16)])

/-- The kind that the flags name, apart from reserved bits. -/
def kind (h : Header) : Except Error FrameKind :=
  let flags := h.flags &&& ~~~reservedBits
  match FrameKind.ofFlags? flags with
  | some kind => .ok kind
  | none => .error (invalidFlags flags)

def idReserved : Error := .protocol "Request ID 0 is reserved"

def tooLarge (length limit : UInt32) : Error :=
  .protocol s!"Payload size {length} exceeds maximum {limit}"

def bitsReserved : Error := .protocol "Reserved flag bits must be 0"

def check (h : Header) (limit : UInt32) : Except Error Unit :=
  if h.id = 0 then .error idReserved
  else if limit < h.length then .error (tooLarge h.length limit)
  else if h.flags &&& reservedBits ≠ 0 then .error bitsReserved
  else h.kind.map fun _ => ()

def encode (h : Header) : Bytes :=
  h.flags :: Bytes.bigEndian 4 h.id.toNat ++ Bytes.bigEndian 4 h.length.toNat

def split? : Bytes → Option (Header × Bytes)
  | flags :: i₀ :: i₁ :: i₂ :: i₃ :: l₀ :: l₁ :: l₂ :: l₃ :: rest =>
    some (⟨flags, .ofNat (Bytes.ofBigEndian [i₀, i₁, i₂, i₃]),
      .ofNat (Bytes.ofBigEndian [l₀, l₁, l₂, l₃])⟩, rest)
  | _ => none

theorem length_of_split? {bytes rest : Bytes} {h : Header} (hs : split? bytes = some (h, rest)) :
    bytes.length = size + rest.length := by
  unfold split? at hs
  split at hs
  · cases hs
    simp only [List.length_cons, size]
    omega
  · cases hs

end Header

structure Frame where
  header : Header
  payload : Bytes
deriving DecidableEq, Repr

namespace Frame

def ofFlags (flags : UInt8) (id : UInt32) (payload : Bytes) : Frame :=
  ⟨⟨flags, id, .ofNat payload.length⟩, payload⟩

def ofKind (kind : FrameKind) (id : UInt32) (payload : Bytes) : Frame :=
  ofFlags kind.flags id payload

def id (f : Frame) : UInt32 := f.header.id

def kind (f : Frame) : Except Error FrameKind := f.header.kind

def size (f : Frame) : Nat := Header.size + f.payload.length

def encode (f : Frame) : Bytes := f.header.encode ++ f.payload

theorem kind_ofKind (kind : FrameKind) (id : UInt32) (payload : Bytes) :
    (ofKind kind id payload).kind = .ok kind := by
  have h : kind.flags &&& ~~~Header.reservedBits = kind.flags := by cases kind <;> decide
  simp [Frame.kind, ofKind, ofFlags, Header.kind, h, FrameKind.ofFlags?_flags]

end Frame

end SchemaRpc
