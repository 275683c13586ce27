import Mathlib.Data.List.Nodup
import SchemaRpc.Message.Json
import SchemaRpc.Proofs.Message.Conformance
import SchemaRpc.Proofs.Text.Base64
import SchemaRpc.Proofs.Text.Instant

namespace SchemaRpc

namespace EnumType

structure Legible (e : EnumType) : Prop where
  distinct : (e.values.map Prod.fst).Nodup
  unrecognized : ∀ v ∈ e.values, v.1 = unrecognizedName → v.2 = unrecognized

instance (e : EnumType) : Decidable e.Legible :=
  decidable_of_iff
    ((e.values.map Prod.fst).Nodup ∧ ∀ v ∈ e.values, v.1 = unrecognizedName → v.2 = unrecognized)
    ⟨fun h => ⟨h.1, h.2⟩, fun h => ⟨h.distinct, h.unrecognized⟩⟩

variable {e : EnumType} {n : Int32}

theorem numberOf_of_mem (h : (e.values.map Prod.fst).Nodup) {v : String × Int32}
    (hv : v ∈ e.values) : e.numberOf v.1 = v.2 := by
  rw [numberOf]
  cases hf : e.values.find? fun w => w.1 == v.1 with
  | none => simpa using List.find?_eq_none.1 hf v hv
  | some w =>
      have hn : w.1 = v.1 := by simpa using List.find?_some hf
      rw [List.inj_on_of_nodup_map h (List.mem_of_find?_eq_some hf) hv hn]

theorem numberOf_nameOf (h : e.Legible) (hn : e.declares n = true ∨ n = unrecognized) :
    e.numberOf (e.nameOf n) = n := by
  rw [nameOf]
  cases hf : e.values.find? fun v => v.2 == n with
  | some v =>
      have hv : v.2 = n := by simpa using List.find?_some hf
      exact (numberOf_of_mem h.distinct (List.mem_of_find?_eq_some hf)).trans hv
  | none =>
      have hnot : e.declares n = false := by
        simpa [declares] using hf
      obtain rfl := hn.resolve_left (by simp [hnot])
      rw [numberOf]
      cases hu : e.values.find? fun v => v.1 == unrecognizedName with
      | none => rfl
      | some v =>
          have hv : v.1 = unrecognizedName := by simpa using List.find?_some hu
          exact h.unrecognized v (List.mem_of_find?_eq_some hu) hv

end EnumType

def Kind.Legible : Kind → Prop
  | .enumeration e => e.Legible
  | _ => True

instance : DecidablePred Kind.Legible
  | .enumeration e => inferInstanceAs (Decidable e.Legible)
  | .scalar _ | .message _ | .timestamp => inferInstanceAs (Decidable True)

namespace FloatFormat

theorem eq_withSign_of_infinite {bits : Nat} (hb : bits < 18446744073709551616)
    (h : binary64.magnitude bits = .infinite) :
    bits = binary64.withSign (binary64.isNegative bits) binary64.infinity := by
  have hsign : binary64.signBit = 9223372036854775808 := rfl
  have hinf : binary64.infinity = 9218868437227405312 := rfl
  have hparts : bits % 4503599627370496 = 0 ∧ bits / 4503599627370496 % 2048 = 2047 := by
    have hfraction : pow2 binary64.fraction = 4503599627370496 := rfl
    have hexponent : pow2 binary64.exponent = 2048 := rfl
    simp only [magnitude, hfraction, hexponent] at h
    split at h
    · next he =>
        split at h
        · next hf => exact ⟨hf, he⟩
        · cases h
    · split at h <;> cases h
  simp only [withSign, isNegative, hsign, hinf, decide_eq_true_eq]
  split <;> omega

end FloatFormat

theorem widened_zero : widened 0 = 0 := by
  have hzero : FloatFormat.binary32.magnitude (0 : UInt32).toNat =
      .finite 0 FloatFormat.binary32.least := rfl
  have hsign : FloatFormat.binary32.isNegative (0 : UInt32).toNat = false := rfl
  simp only [widened, hzero, hsign, FloatFormat.ofDecimal, FloatFormat.withSign]
  rfl

namespace Field

variable {f : Field}

theorem double_ofDouble {bits : UInt64} (h : FloatFormat.binary64.isNaN bits.toNat = false) :
    f.double (Json.ofDouble bits) = .ok bits.toNat := by
  rw [Json.ofDouble]
  cases hm : FloatFormat.binary64.magnitude bits.toNat with
  | nan => rw [FloatFormat.isNaN, hm] at h; cases h
  | finite significand exponent => rfl
  | infinite =>
      have hw := FloatFormat.eq_withSign_of_infinite bits.toNat_lt hm
      rw [hw]
      cases FloatFormat.binary64.isNegative bits.toNat <;> rfl

end Field

/-- An element that JSON can spell, apart from what is nested in it. Numbers of binary32 are written with
the digits of their own width; only zero is considered. -/
def Value.Plain : Value → Prop
  | .float bits => bits = 0
  | .double bits => FloatFormat.binary64.isNaN bits.toNat = false
  | .timestamp t => t.InRange
  | _ => True

section Elements

variable {s : Schema} {nested : String → Json → Except Error Message} {f : Field} {v : Value}

theorem Field.bounded_int {low high n : Int} (hl : low ≤ n) (hh : n ≤ high) :
    f.bounded low high (.int n) = .ok n := by
  rw [bounded, integer]
  exact if_pos ⟨hl, hh⟩

theorem Field.elementOfJson_toJson (h : v.Admissible f.kind) (plain : v.Plain)
    (legible : f.kind.Legible)
    (inner : ∀ m, v = .message m → nested m.type (m.toJson s) = .ok (m.completed s)) :
    f.elementOfJson nested (v.toJson s f.kind) = .ok (v.completed s) := by
  generalize hk : f.kind = k at h legible
  unfold Value.Admissible at h
  split at h
  case h_13 => cases h
  all_goals simp only [Field.elementOfJson, hk, Value.toJson, Field.scalarOfJson]
  case h_2 n =>
      have := n.toInt_lt
      have := n.le_toInt
      rw [Field.bounded_int (by omega) (by omega)]
      exact congrArg (Except.ok ∘ Value.int32) n.ofInt_toInt
  case h_3 n =>
      have := n.toNat_lt
      rw [Field.bounded_int (by omega) (by omega)]
      exact congrArg (Except.ok ∘ Value.uint32) n.ofNat_toNat
  case h_4 n =>
      change Except.bind (SafeInt.ofInt n.toInt) _ = _
      rw [SafeInt.ofInt_eq_ok_iff.2 rfl]
      rfl
  case h_5 n =>
      change (if n.toInt < 0 then _ else Except.bind (SafeInt.ofInt n.toInt) _) = _
      rw [if_neg (by omega), SafeInt.ofInt_eq_ok_iff.2 rfl]
      rfl
  case h_6 bits =>
      cases plain
      rw [widened_zero, Field.double_ofDouble rfl]
      rfl
  case h_7 bits =>
      rw [Field.double_ofDouble plain]
      exact congrArg (Except.ok ∘ Value.double) bits.ofNat_toNat
  case h_9 data =>
      rw [Base64.decode?_encode]
      rfl
  case h_10 n e =>
      rw [EnumType.numberOf_nameOf legible h]
      rfl
  case h_11 t =>
      rw [Instant.ofText_text h.1 plain]
      rfl
  case h_12 m name =>
      cases h
      rw [inner m rfl, Value.completed]
      rfl
  all_goals rfl

end Elements

end SchemaRpc
