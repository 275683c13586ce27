import SchemaRpc.Message.Binary
import SchemaRpc.Proofs.Wire.Grammar

namespace SchemaRpc

theorem Tag.spelled_encode {t : Tag} (positive : 0 < t.number) (small : t.number ≤ maxNumber) :
    t.Spelled t.encode where
  positive := positive
  small := small
  key := by
    have hk : t.kind.number < 8 := by cases t.kind <;> decide
    have hs : t.number ≤ 536870911 := small
    refine Varint.spelled_encodeNat_of_lt ?_
    rw [key]
    omega

namespace Payload

inductive Spelled : Payload → Bytes → Prop
  | varint {v : UInt64} {bytes : Bytes} (h : Varint.Spelled 0 v.toNat bytes) :
      Spelled (.varint v) bytes
  | fixed64 (v : UInt64) : Spelled (.fixed64 v) (Bytes.littleEndian 8 v.toNat)
  | delimited {len body : Bytes} (h : Varint.Spelled 0 body.length len) :
      Spelled (.delimited body) (len ++ body)
  | fixed32 (v : UInt32) : Spelled (.fixed32 v) (Bytes.littleEndian 4 v.toNat)

theorem spelled_withLength {body : Bytes} (h : body.length < 18446744073709551616) :
    Spelled (.delimited body) body.withLength :=
  .delimited (Varint.spelled_encodeNat_of_lt h)

variable {p : Payload} {bytes : Bytes}

theorem Spelled.kind (h : p.Spelled bytes) : p.kind.Spelled bytes := by
  cases h with
  | varint h => exact .varint h
  | fixed64 v => exact .fixed64 (Bytes.length_littleEndian 8 _)
  | delimited h => exact .delimited h
  | fixed32 v => exact .fixed32 (Bytes.length_littleEndian 4 _)

theorem Spelled.reads (h : p.Spelled bytes) (number : Nat) :
    (Reader.plainPayload ⟨number, p.kind⟩).Reads p bytes := by
  cases h with
  | @varint v bytes h =>
      have := (Reader.reads_varint h).map Payload.varint
      rwa [UInt64.ofNat_toNat] at this
  | fixed64 v =>
      have hv : v.toNat % Bytes.span 8 = v.toNat := Nat.mod_eq_of_lt v.toNat_lt
      have := (Reader.reads_fixed64 (Bytes.length_littleEndian 8 v.toNat)).map Payload.fixed64
      rwa [Bytes.ofLittleEndian_littleEndian, hv, UInt64.ofNat_toNat] at this
  | delimited h => exact (Reader.reads_delimited h).map Payload.delimited
  | fixed32 v =>
      have hv : v.toNat % Bytes.span 4 = v.toNat := Nat.mod_eq_of_lt v.toNat_lt
      have := (Reader.reads_fixed32 (Bytes.length_littleEndian 4 v.toNat)).map Payload.fixed32
      rwa [Bytes.ofLittleEndian_littleEndian, hv, UInt32.ofNat_toNat] at this

theorem Spelled.reads_record {number : Nat} (h : p.Spelled bytes) (positive : 0 < number)
    (small : number ≤ Tag.maxNumber) :
    Reader.record.Reads ⟨number, p⟩ (Tag.encode ⟨number, p.kind⟩ ++ bytes) :=
  Reader.reads_record_plain (Tag.spelled_encode positive small) h.kind (h.reads number)

end Payload

theorem Records.flatMap {α : Type} {xs : List α} {records : α → List Record} {bytes : α → Bytes}
    (h : ∀ x ∈ xs, Records (records x) (bytes x)) :
    Records (xs.flatMap records) (xs.flatMap bytes) := by
  induction xs with
  | nil => exact .nil
  | cons x rest ih =>
      rw [List.flatMap_cons, List.flatMap_cons]
      exact (h x List.mem_cons_self).append (ih fun y hy => h y (List.mem_cons_of_mem _ hy))

end SchemaRpc
