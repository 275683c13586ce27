import SchemaRpc.Proofs.Wire.Encoding
import SchemaRpc.Proofs.Wire.Integer

namespace SchemaRpc

namespace Instant

def InCalendar (t : Instant) : Prop :=
  -8334601228800 ≤ t.seconds ∧ t.seconds ≤ 8210266876799

def InRange (t : Instant) : Prop :=
  Timestamp.minSeconds * 1000 ≤ t.millis ∧ t.millis ≤ Timestamp.maxSeconds * 1000 + 999

instance (t : Instant) : Decidable t.InRange :=
  inferInstanceAs (Decidable (_ ∧ _))

example : (ofMillis (Timestamp.minSeconds * 1000)).text = "0001-01-01T00:00:00.000Z" ∧
    (ofMillis (Timestamp.maxSeconds * 1000 + 999)).text = "9999-12-31T23:59:59.999Z" := by
  decide

theorem truncated_of_inRange {t : Instant} (h : t.InRange) : t.truncated = ofMillis t.millis := by
  refine if_pos (Int.le_trans h.2 ?_)
  decide

end Instant

namespace Timestamp

theorem records_encodeField {number : Nat} {n : Int} (positive : 0 < number)
    (small : number ≤ Tag.maxNumber) :
    Records (if n = 0 then [] else [⟨number, .varint (SafeInt.wire n)⟩]) (encodeField number n) := by
  rw [encodeField]
  split
  · exact .nil
  · exact .single (Payload.Spelled.reads_record (.varint (Varint.spelled_encode _)) positive small)

theorem absorb_nanos {n : Int} (t : Timestamp) (hl : -2147483648 ≤ n) (hh : n < 2147483648) :
    absorb t ⟨2, .varint (SafeInt.wire n)⟩ = .ok { t with nanos := n } := by
  have hn : Int.bmod (SafeInt.wire n).toNat 4294967296 = n := by
    rw [SafeInt.toNat_wire, Int.bmod_def]
    omega
  simp only [absorb, hn]

theorem absorb_seconds {n : Int} (t : Timestamp) (hl : -9007199254740991 ≤ n)
    (hh : n ≤ 9007199254740991) :
    absorb t ⟨1, .varint (SafeInt.wire n)⟩ = .ok { t with seconds := n } := by
  simp only [absorb, SafeInt.ofSigned_wire hl hh]

theorem decode_encode {t : Timestamp}
    (hs : -9007199254740991 ≤ t.seconds ∧ t.seconds ≤ 9007199254740991)
    (hn : -2147483648 ≤ t.nanos ∧ t.nanos < 2147483648) : decode t.encode = .ok t := by
  have h := (records_encodeField (n := t.seconds) (by decide : 0 < 1) (by decide)).append
    (records_encodeField (n := t.nanos) (by decide : 0 < 2) (by decide))
  have hseconds : (if t.seconds = 0 then [] else
      [(⟨1, .varint (SafeInt.wire t.seconds)⟩ : Record)]).foldlM absorb ⟨0, 0⟩ =
      .ok ⟨t.seconds, 0⟩ := by
    split
    · next hz => rw [hz]; rfl
    · rw [List.foldlM_cons, absorb_seconds _ hs.1 hs.2]
      rfl
  have hnanos : (if t.nanos = 0 then [] else
      [(⟨2, .varint (SafeInt.wire t.nanos)⟩ : Record)]).foldlM absorb ⟨t.seconds, 0⟩ = .ok t := by
    split
    · next hz => rw [← hz]; rfl
    · rw [List.foldlM_cons, absorb_nanos _ hn.1 hn.2]
      rfl
  rw [decode, encode, foldRecords_eq_foldlM h, List.foldlM_append, hseconds]
  exact hnanos

theorem toInstant_ofInstant (t : Instant) :
    (ofInstant t).toInstant =
      if t.InRange then .ok (.ofMillis t.millis) else .error (secondsOutOfRange (t.millis / 1000)) := by
  have hr : t.InRange ↔ ¬(t.millis / 1000 < minSeconds ∨ maxSeconds < t.millis / 1000) := by
    simp only [Instant.InRange, minSeconds, maxSeconds]
    omega
  rw [toInstant, ofInstant]
  simp only
  split
  · next hs => rw [if_neg fun h => hr.1 h hs]
  · next hs =>
      rw [if_pos (hr.2 hs), if_neg]
      · congr 2
        omega
      · simp only [maxNanos]
        omega

theorem decode_ofInstant {t : Instant} (h : t.InCalendar) :
    decode (ofInstant t).encode = .ok (ofInstant t) := by
  obtain ⟨hl, hh⟩ := h
  have := t.nanoseconds_lt
  refine decode_encode ?_ ?_
  · show -9007199254740991 ≤ t.millis / 1000 ∧ t.millis / 1000 ≤ 9007199254740991
    simp only [Instant.millis]
    omega
  · show -2147483648 ≤ t.millis % 1000 * 1000000 ∧ t.millis % 1000 * 1000000 < 2147483648
    omega

end Timestamp

end SchemaRpc
