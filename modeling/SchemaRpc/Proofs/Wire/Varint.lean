import SchemaRpc.Wire.Varint

namespace SchemaRpc.Varint

/-- The bytes of a number whose first byte stands at `place`; a number may have several. -/
inductive Spelled : Nat → Nat → Bytes → Prop
  | last {place : Nat} {b : UInt8} (low : b.toNat < 128) (fits : place = 9 → b.toNat ≤ 1) :
      Spelled place b.toNat [b]
  | more {place high : Nat} {b : UInt8} {bytes : Bytes} (flagged : 128 ≤ b.toNat)
      (room : place ≠ 9) (rest : Spelled (place + 1) high bytes) :
      Spelled place (b.toNat % 128 + 128 * high) (b :: bytes)

def capacity : Nat → Nat
  | 0 => 2
  | left + 1 => 128 * capacity left

theorem capacity_pos (left : Nat) : 0 < capacity left := by
  induction left with
  | zero => decide
  | succ left ih => simp only [capacity]; omega

theorem Spelled.lt_capacity {place n left : Nat} {bytes : Bytes} (h : Spelled place n bytes)
    (hp : place + left = 9) : n < capacity left := by
  induction h generalizing left with
  | last low fits =>
      cases left with
      | zero =>
          have := fits hp
          simp only [capacity]
          omega
      | succ left =>
          have := capacity_pos left
          simp only [capacity]
          omega
  | @more place _ _ _ flagged room rest ih =>
      cases left with
      | zero => exact absurd hp room
      | succ left =>
          have hl : place + 1 + left = 9 := by omega
          have := ih hl
          simp only [capacity]
          omega

theorem Spelled.lt_word {n : Nat} {bytes : Bytes} (h : Spelled 0 n bytes) :
    n < 18446744073709551616 := by
  have hp : 0 + 9 = 9 := rfl
  exact h.lt_capacity hp

theorem decodeFrom_of_spelled {place n : Nat} {used : Bytes} (h : Spelled place n used)
    (rest : Bytes) : decodeFrom place (used ++ rest) = .ok (n, rest) := by
  induction h with
  | @last place b low fits =>
      have hn : ¬(place = 9 ∧ 1 < b.toNat) := by
        rintro ⟨hp, hb⟩
        have := fits hp
        omega
      rw [List.singleton_append, decodeFrom, if_neg hn, if_pos low]
  | @more place high b bytes flagged room _ ih =>
      have hn : ¬(place = 9 ∧ 1 < b.toNat) := fun h => room h.1
      rw [List.cons_append, decodeFrom, if_neg hn, if_neg (by omega), ih]

theorem spelled_of_decodeFrom {place n : Nat} {bytes rest : Bytes}
    (h : decodeFrom place bytes = .ok (n, rest)) :
    ∃ used, bytes = used ++ rest ∧ Spelled place n used := by
  induction bytes generalizing place n rest with
  | nil => cases h
  | cons b tail ih =>
      rw [decodeFrom] at h
      split at h
      · cases h
      · next hn =>
          split at h
          · next low =>
              cases h
              refine ⟨[b], rfl, .last low fun hp => ?_⟩
              exact Nat.le_of_not_lt fun hb => hn ⟨hp, hb⟩
          · next high =>
              split at h
              · cases h
              · next m left hr =>
                  cases h
                  obtain ⟨used, rfl, hu⟩ := ih hr
                  refine ⟨b :: used, rfl, .more (by omega) (fun hp => ?_) hu⟩
                  exact hn ⟨hp, by omega⟩

theorem spelled_encodeNat {place left n : Nat} (hp : place + left = 9) (hn : n < capacity left) :
    Spelled place n (encodeNat n) := by
  induction left generalizing place n with
  | zero =>
      have hb : (UInt8.ofNat n).toNat = n := by
        simp only [capacity] at hn
        rw [UInt8.toNat_ofNat']
        omega
      have low : n < 128 := by
        simp only [capacity] at hn
        omega
      rw [encodeNat, if_pos low]
      have : Spelled place (UInt8.ofNat n).toNat [UInt8.ofNat n] := .last (by omega) fun _ => by
        simp only [capacity] at hn
        omega
      rwa [hb] at this
  | succ left ih =>
      rw [encodeNat]
      split
      · next low =>
          have hb : (UInt8.ofNat n).toNat = n := by
            rw [UInt8.toNat_ofNat']
            omega
          have : Spelled place (UInt8.ofNat n).toNat [UInt8.ofNat n] := .last (by omega) (by omega)
          rwa [hb] at this
      · next high =>
          have hb : (UInt8.ofNat (128 + n % 128)).toNat = 128 + n % 128 := by
            rw [UInt8.toNat_ofNat']
            omega
          have hrest : Spelled (place + 1) (n / 128) (encodeNat (n / 128)) := by
            refine ih (by omega) ?_
            simp only [capacity] at hn
            omega
          have hv : (UInt8.ofNat (128 + n % 128)).toNat % 128 + 128 * (n / 128) = n := by omega
          have : Spelled place ((UInt8.ofNat (128 + n % 128)).toNat % 128 + 128 * (n / 128))
              (UInt8.ofNat (128 + n % 128) :: encodeNat (n / 128)) :=
            .more (by omega) (by omega) hrest
          rwa [hv] at this

theorem spelled_encodeNat_of_lt {n : Nat} (h : n < 18446744073709551616) :
    Spelled 0 n (encodeNat n) := by
  have hp : 0 + 9 = 9 := rfl
  exact spelled_encodeNat hp h

theorem lt_capacity_of_decodeFrom {place left n : Nat} {rest : Bytes} {found : Nat × Bytes}
    (hp : place + left = 9) (h : decodeFrom place (encodeNat n ++ rest) = .ok found) :
    n < capacity left := by
  induction left generalizing place n found with
  | zero =>
      rw [encodeNat] at h
      split at h
      · next low =>
          have hb : (UInt8.ofNat n).toNat = n := by
            rw [UInt8.toNat_ofNat']
            omega
          rw [List.singleton_append, decodeFrom] at h
          split at h
          · cases h
          · simp only [capacity]
            omega
      · next high =>
          have hb : 1 < (UInt8.ofNat (128 + n % 128)).toNat := by
            rw [UInt8.toNat_ofNat']
            omega
          rw [List.cons_append, decodeFrom, if_pos ⟨hp, hb⟩] at h
          cases h
  | succ left ih =>
      have := capacity_pos left
      rw [encodeNat] at h
      split at h
      · simp only [capacity]
        omega
      · next high =>
          have hb : ¬(UInt8.ofNat (128 + n % 128)).toNat < 128 := by
            rw [UInt8.toNat_ofNat']
            omega
          rw [List.cons_append, decodeFrom, if_neg (by omega), if_neg hb] at h
          split at h
          · cases h
          · next hr =>
              have := ih (by omega) hr
              simp only [capacity]
              omega

theorem lt_word_of_decode {n : Nat} {rest : Bytes} {found : UInt64 × Bytes}
    (h : decode (encodeNat n ++ rest) = .ok found) : n < 18446744073709551616 := by
  have hp : 0 + 9 = 9 := rfl
  rw [decode] at h
  split at h
  · cases h
  · next hn => exact lt_capacity_of_decodeFrom hp hn

theorem spelled_encode (v : UInt64) : Spelled 0 v.toNat (encode v) :=
  spelled_encodeNat_of_lt v.toNat_lt

theorem decode_of_spelled {n : Nat} {used : Bytes} (h : Spelled 0 n used) (rest : Bytes) :
    decode (used ++ rest) = .ok (.ofNat n, rest) := by
  rw [decode, decodeFrom_of_spelled h]

theorem spelled_of_decode {v : UInt64} {bytes rest : Bytes} (h : decode bytes = .ok (v, rest)) :
    ∃ used, bytes = used ++ rest ∧ Spelled 0 v.toNat used := by
  rw [decode] at h
  split at h
  · cases h
  · next n left hn =>
      cases h
      obtain ⟨used, hb, hu⟩ := spelled_of_decodeFrom hn
      refine ⟨used, hb, ?_⟩
      rwa [UInt64.toNat_ofNat_of_lt' hu.lt_word]

end SchemaRpc.Varint
