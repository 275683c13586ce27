import SchemaRpc.Message.Binary

namespace SchemaRpc

namespace SafeInt

theorem toNat_wire (n : Int) : ((wire n).toNat : Int) = n % 18446744073709551616 := by
  have h : (n % wordCount).toNat < UInt64.size := by
    show (n % 18446744073709551616).toNat < 18446744073709551616
    omega
  rw [wire, UInt64.toNat_ofNat_of_lt' h]
  show ((n % 18446744073709551616).toNat : Int) = _
  omega

theorem signed_wire {n : Int} (hl : -9223372036854775808 ≤ n) (hh : n < 9223372036854775808) :
    signed (wire n) = n := by
  rw [signed, toNat_wire, wordCount, Int.bmod_def]
  omega

theorem ofSigned_wire {n : Int} (hl : -9007199254740991 ≤ n) (hh : n ≤ 9007199254740991) :
    ofSigned (wire n) = .ok ⟨n, hl, hh⟩ := by
  rw [ofSigned, signed_wire (by omega) (by omega)]
  exact ofInt_eq_ok_iff.2 rfl

theorem ofSigned_toWire (n : SafeInt) : ofSigned n.toWire = .ok n :=
  ofSigned_wire n.lower n.upper

theorem ofUnsigned_toWire {n : SafeInt} (h : 0 ≤ n.toInt) : ofUnsigned n.toWire = .ok n := by
  have hu := n.upper
  rw [ofUnsigned, toWire, toNat_wire]
  refine ofInt_eq_ok_iff.2 ?_
  omega

end SafeInt

theorem toUInt32_ofNat (n : UInt32) : (UInt64.ofNat n.toNat).toUInt32 = n := by
  have h := n.toNat_lt
  have hn : (UInt64.ofNat n.toNat).toNat = n.toNat :=
    UInt64.toNat_ofNat_of_lt' (Nat.lt_trans h (by decide))
  apply UInt32.toNat_inj.1
  rw [UInt64.toNat_toUInt32, hn]
  exact Nat.mod_eq_of_lt h

theorem lowInt32_wire (n : Int32) : lowInt32 (SafeInt.wire n.toInt) = n := by
  have h := SafeInt.toNat_wire n.toInt
  have hl := n.le_toInt
  have hh := n.toInt_lt
  have ht : (lowInt32 (SafeInt.wire n.toInt)).toInt =
      ((SafeInt.wire n.toInt).toUInt32.toNat : Int).bmod 4294967296 :=
    BitVec.toInt_eq_toNat_bmod _
  apply Int32.toInt_inj.1
  rw [ht, UInt64.toNat_toUInt32, Int.bmod_def]
  omega

end SchemaRpc
