import SchemaRpc.Proofs.Wire.Reading

namespace SchemaRpc

namespace Varint

def digits : Bytes → Nat
  | [] => 0
  | b :: rest => b.toNat % 128 + 128 * digits rest

def Continues (bytes : Bytes) : Prop :=
  ∀ b ∈ bytes, 128 ≤ b.toNat

instance (bytes : Bytes) : Decidable (Continues bytes) :=
  List.decidableBAll _ bytes

/-- After nine bytes there is a tenth that says more than the 64th bit. -/
def Overflows (bytes : Bytes) : Prop :=
  Continues (bytes.take 9) ∧ ∃ last, bytes[9]? = some last ∧ 1 < last.toNat

variable {place left n : Nat} {bytes : Bytes} {b : UInt8}

theorem continues_cons : Continues (b :: bytes) ↔ 128 ≤ b.toNat ∧ Continues bytes :=
  List.forall_mem_cons

theorem Spelled.digits_eq (h : Spelled place n bytes) : digits bytes = n := by
  induction h with
  | last low fits =>
      rw [digits, digits]
      omega
  | more flagged room rest ih => rw [digits, ih]

theorem Spelled.length_le (h : Spelled place n bytes) (hp : place + left = 9) :
    bytes.length ≤ left + 1 := by
  induction h generalizing left with
  | last low fits => exact Nat.le_add_left 1 left
  | @more place high b bytes flagged room rest ih =>
      obtain ⟨left, rfl⟩ : ∃ l, left = l + 1 := ⟨left - 1, by omega⟩
      have hp' : place + 1 + left = 9 := by omega
      rw [List.length_cons]
      exact Nat.succ_le_succ (ih hp')

theorem length_encodeNat_of_lt (h : n < 128) : (encodeNat n).length = 1 := by
  rw [encodeNat, if_pos h]
  rfl

theorem length_encodeNat_of_ge (h : 128 ≤ n) :
    (encodeNat n).length = (encodeNat (n / 128)).length + 1 := by
  rw [encodeNat, if_neg (Nat.not_lt.2 h)]
  rfl

theorem Spelled.length_encodeNat_le (h : Spelled place n bytes) :
    (encodeNat n).length ≤ bytes.length := by
  induction h with
  | last low fits => exact Nat.le_of_eq (length_encodeNat_of_lt low)
  | @more place high b bytes flagged room rest ih =>
      rw [List.length_cons]
      rcases Nat.lt_or_ge (b.toNat % 128 + 128 * high) 128 with small | large
      · rw [length_encodeNat_of_lt small]
        exact Nat.le_add_left 1 _
      · have hhigh : (b.toNat % 128 + 128 * high) / 128 = high := by omega
        rw [length_encodeNat_of_ge large, hhigh]
        exact Nat.add_le_add_right ih 1

theorem log2_of_ge (h : 128 ≤ n) : n.log2 = (n / 128).log2 + 7 := by
  have hd : n / 128 ≠ 0 := by omega
  have hn : n ≠ 0 := by omega
  have hle := Nat.log2_self_le hd
  have hlt : n / 128 < _ := Nat.lt_log2_self
  rw [Nat.log2_eq_iff hn]
  rw [Nat.pow_succ] at hlt
  simp only [Nat.pow_succ]
  constructor <;> omega

theorem log2_lt (h : n < 128) : n.log2 < 7 := by
  by_cases hn : n = 0
  · subst hn
    decide
  · exact (Nat.log2_lt hn).2 h

theorem length_encodeNat (n : Nat) : (encodeNat n).length = n.log2 / 7 + 1 := by
  induction n using Nat.strongRecOn with
  | ind n ih =>
      rcases Nat.lt_or_ge n 128 with small | large
      · have := log2_lt small
        rw [length_encodeNat_of_lt small]
        omega
      · rw [length_encodeNat_of_ge large, ih (n / 128) (by omega), log2_of_ge large]
        omega

theorem length_encode (v : UInt64) : (encode v).length = length v :=
  length_encodeNat v.toNat

theorem decodeFrom_truncated_iff (hp : place + left = 9) :
    decodeFrom place bytes = .error .truncated ↔ bytes.length ≤ left ∧ Continues bytes := by
  induction bytes generalizing place left with
  | nil => simp [decodeFrom, Continues]
  | cons b rest ih =>
      rw [decodeFrom, continues_cons, List.length_cons]
      split
      · next full =>
          exact iff_of_false (by simp) fun h => by omega
      · next fits =>
          split
          · next low => exact iff_of_false (by simp) fun h => by omega
          · next high =>
              obtain ⟨left, rfl⟩ : ∃ l, left = l + 1 := ⟨left - 1, by omega⟩
              have hp' : place + 1 + left = 9 := by omega
              have hrest := ih hp'
              rw [Nat.add_le_add_iff_right, and_iff_right (Nat.not_lt.1 high), ← hrest]
              cases decodeFrom (place + 1) rest with
              | ok found => simp
              | error e => simp

theorem decodeFrom_overflow_iff (hp : place + left = 9) :
    decodeFrom place bytes = .error .overflow ↔
      Continues (bytes.take left) ∧ ∃ last, bytes[left]? = some last ∧ 1 < last.toNat := by
  induction bytes generalizing place left with
  | nil => simp [decodeFrom]
  | cons b rest ih =>
      rw [decodeFrom]
      split
      · next full =>
          obtain rfl : left = 0 := by omega
          exact iff_of_true rfl ⟨by simp [Continues], b, rfl, full.2⟩
      · next fits =>
          cases left with
          | zero =>
              have low : b.toNat < 128 := by omega
              rw [if_pos low]
              refine iff_of_false (by simp) ?_
              rintro ⟨-, last, hlast, large⟩
              cases hlast
              exact fits ⟨hp, large⟩
          | succ left =>
              have hp' : place + 1 + left = 9 := by omega
              have hrest := ih hp'
              rw [List.take_succ_cons, List.getElem?_cons_succ, continues_cons, and_assoc, ← hrest]
              split
              · next low => exact iff_of_false (by simp) fun h => by omega
              · next high =>
                  rw [and_iff_right (Nat.not_lt.1 high)]
                  cases decodeFrom (place + 1) rest with
                  | ok found => simp
                  | error e => simp

theorem decode_truncated_iff :
    decode bytes = .error .truncated ↔ bytes.length < maxLength ∧ Continues bytes := by
  have hp : 0 + 9 = 9 := rfl
  rw [maxLength, Nat.lt_succ_iff, ← decodeFrom_truncated_iff hp, decode]
  cases decodeFrom 0 bytes with
  | ok found => simp
  | error e => simp

theorem decode_overflow_iff : decode bytes = .error .overflow ↔ Overflows bytes := by
  have hp : 0 + 9 = 9 := rfl
  rw [Overflows, ← decodeFrom_overflow_iff hp, decode]
  cases decodeFrom 0 bytes with
  | ok found => simp
  | error e => simp

end Varint

namespace Reader

open Varint (Continues Overflows digits)

theorem varint_eq_error_iff {bytes left : Bytes} {e : Error} :
    varint bytes = .error e left ↔ left = bytes ∧
      (e = .truncated (bytes.length + 1) bytes.length ∧ bytes.length < Varint.maxLength ∧
          Continues bytes ∨
        e = .varintOverflow ∧ Overflows bytes) := by
  rw [← Varint.decode_truncated_iff, ← Varint.decode_overflow_iff, varint]
  cases Varint.decode bytes with
  | ok found => simp
  | error fault => cases fault <;> simp [eq_comm, and_comm]

theorem varint_classified (v : UInt64) (rest bytes : Bytes) :
    varint (Varint.encode v ++ rest) = .ok v rest ∧
      (Varint.encode v).length = Varint.length v ∧
      1 ≤ Varint.length v ∧ Varint.length v ≤ Varint.maxLength ∧
      (∀ w left, varint bytes = .ok w left → ∃ used, bytes = used ++ left ∧
        Varint.length w ≤ used.length ∧ used.length ≤ Varint.maxLength ∧ w.toNat = digits used) ∧
      ∀ e left, varint bytes = .error e left ↔ left = bytes ∧
        (e = .truncated (bytes.length + 1) bytes.length ∧ bytes.length < Varint.maxLength ∧
            Continues bytes ∨
          e = .varintOverflow ∧ Overflows bytes) := by
  have written := Varint.spelled_encode v
  have hlength := Varint.length_encode v
  have hp : 0 + 9 = 9 := rfl
  refine ⟨?_, hlength, Nat.le_add_left 1 _, hlength ▸ written.length_le hp, ?_,
    fun e left => varint_eq_error_iff⟩
  · have := reads_varint written rest
    rwa [UInt64.ofNat_toNat] at this
  · intro w left h
    obtain ⟨used, hb, spelled⟩ := spelled_of_varint h
    refine ⟨used, hb, ?_, spelled.length_le hp, spelled.digits_eq.symm⟩
    rw [← Varint.length_encode w]
    exact spelled.length_encodeNat_le

theorem varint_classified_padded :
    varint [172, 130, 0, 8] = .ok 300 [8] ∧
      (∃ used, [172, 130, 0, 8] = used ++ [8] ∧ Varint.length 300 ≤ used.length ∧
        used.length ≤ Varint.maxLength ∧ (300 : UInt64).toNat = digits used) ∧
      varint (List.replicate 9 255 ++ [2]) =
        .error .varintOverflow (List.replicate 9 255 ++ [2]) := by
  obtain ⟨-, -, -, -, accepts, -⟩ := varint_classified 300 [8] [172, 130, 0, 8]
  obtain ⟨-, -, -, -, -, refuses⟩ := varint_classified 0 [] (List.replicate 9 255 ++ [2])
  exact ⟨rfl, accepts 300 [8] rfl, (refuses _ _).2 ⟨rfl, .inr ⟨rfl, by decide, 2, rfl, by decide⟩⟩⟩

end Reader

end SchemaRpc
