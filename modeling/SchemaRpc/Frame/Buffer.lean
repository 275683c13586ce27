import SchemaRpc.Frame

/-!
Frames out of bytes that arrive in pieces. Every header is checked before its payload is waited
for. Frames that were complete before a header is refused in the same push are lost with it, and
the refused header stays, so that every later push fails in the same way.
-/
namespace SchemaRpc

inductive FrameBuffer.Phase where
  | header
  | payload (h : Header)
deriving DecidableEq, Repr, Inhabited

structure FrameBuffer where
  limit : UInt32
  bytes : Bytes
  phase : FrameBuffer.Phase
deriving DecidableEq, Repr, Inhabited

namespace FrameBuffer

def defaultLimit : UInt32 := 64 * 1024 * 1024

def empty (limit : UInt32) : FrameBuffer :=
  ⟨limit, [], .header⟩

inductive Progress where
  | stuck
  | refused (e : Error)
  | moved (frames : List Frame) (next : FrameBuffer)

def advance (b : FrameBuffer) : Progress :=
  match b.phase with
  | .header =>
    match Header.split? b.bytes with
    | none => .stuck
    | some (h, rest) =>
      match h.check b.limit with
      | .error e => .refused e
      | .ok () => .moved [] { b with bytes := rest, phase := .payload h }
  | .payload h =>
    match b.bytes.take? h.length.toNat with
    | none => .stuck
    | some (payload, rest) => .moved [⟨h, payload⟩] { b with bytes := rest, phase := .header }

def effort (b : FrameBuffer) : Nat :=
  2 * b.bytes.length + (match b.phase with | .header => 0 | .payload _ => 1)

theorem effort_lt_of_advance {b next : FrameBuffer} {frames : List Frame}
    (h : b.advance = .moved frames next) : next.effort < b.effort := by
  unfold advance at h
  split at h
  · next hp =>
      split at h
      · cases h
      · next hs =>
          split at h
          · cases h
          · cases h
            have := Header.length_of_split? hs
            simp only [effort, hp, Header.size] at this ⊢
            omega
  · next hp =>
      split at h
      · cases h
      · next payload rest hs =>
          cases h
          have := (Bytes.take?_eq_some_iff.1 hs).2
          simp only [effort, hp, this, List.length_append]
          omega

def drain (b : FrameBuffer) : FrameBuffer × Except Error (List Frame) :=
  match _h : b.advance with
  | .stuck => (b, .ok [])
  | .refused e => (b, .error e)
  | .moved frames next =>
    let (last, more) := drain next
    (last, more.map (frames ++ ·))
termination_by b.effort
decreasing_by exact effort_lt_of_advance _h

def push (b : FrameBuffer) (data : Bytes) : FrameBuffer × Except Error (List Frame) :=
  drain { b with bytes := b.bytes ++ data }

def length (b : FrameBuffer) : Nat :=
  b.bytes.length

end FrameBuffer

end SchemaRpc
