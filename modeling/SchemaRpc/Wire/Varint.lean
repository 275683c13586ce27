import SchemaRpc.Bytes

/-!
Base-128 varints: groups of seven bits, the lowest first; all bytes but the last have the high
bit set. At most ten bytes, of which the tenth may only carry the 64th bit.
-/
namespace SchemaRpc.Varint

def maxLength : Nat := 10

def encodeNat (n : Nat) : Bytes :=
  if n < 128 then [UInt8.ofNat n]
  else UInt8.ofNat (128 + n % 128) :: encodeNat (n / 128)

def encode (v : UInt64) : Bytes :=
  encodeNat v.toNat

def length (v : UInt64) : Nat :=
  v.toNat.log2 / 7 + 1

inductive Fault where
  | truncated
  | overflow
deriving DecidableEq, Repr

def decodeFrom (place : Nat) : Bytes → Except Fault (Nat × Bytes)
  | [] => .error .truncated
  | b :: rest =>
    if place = 9 ∧ 1 < b.toNat then .error .overflow
    else if b.toNat < 128 then .ok (b.toNat, rest)
    else
      match decodeFrom (place + 1) rest with
      | .error e => .error e
      | .ok (high, rest) => .ok (b.toNat % 128 + 128 * high, rest)

def decode (bytes : Bytes) : Except Fault (UInt64 × Bytes) :=
  match decodeFrom 0 bytes with
  | .error e => .error e
  | .ok (n, rest) => .ok (UInt64.ofNat n, rest)

theorem length_lt_of_decodeFrom {place n : Nat} {bytes rest : Bytes}
    (h : decodeFrom place bytes = .ok (n, rest)) : rest.length < bytes.length := by
  induction bytes generalizing place n rest with
  | nil => simp [decodeFrom] at h
  | cons b tail ih =>
      rw [decodeFrom] at h
      split at h
      · simp at h
      · split at h
        · simp only [Except.ok.injEq, Prod.mk.injEq] at h
          simp [← h.2]
        · split at h
          · simp at h
          · next _ high left hr =>
              simp only [Except.ok.injEq, Prod.mk.injEq] at h
              have := ih hr
              simp only [← h.2, List.length_cons]
              omega

theorem length_lt_of_decode {v : UInt64} {bytes rest : Bytes}
    (h : decode bytes = .ok (v, rest)) : rest.length < bytes.length := by
  rw [decode] at h
  split at h
  · simp at h
  · next n left hn =>
      simp only [Except.ok.injEq, Prod.mk.injEq] at h
      exact h.2 ▸ length_lt_of_decodeFrom hn

end SchemaRpc.Varint
