namespace SchemaRpc

abbrev Bytes := List UInt8

namespace Bytes

def takeOnto : Nat → Bytes → Bytes → Option (Bytes × Bytes)
  | 0, rest, taken => some (taken.reverse, rest)
  | _ + 1, [], _ => none
  | n + 1, b :: rest, taken => takeOnto n rest (b :: taken)

def take? (n : Nat) (bytes : Bytes) : Option (Bytes × Bytes) :=
  takeOnto n bytes []

theorem takeOnto_eq (n : Nat) (bytes taken : Bytes) :
    takeOnto n bytes taken =
      if n ≤ bytes.length then some (taken.reverse ++ bytes.take n, bytes.drop n) else none := by
  induction n generalizing bytes taken with
  | zero => simp [takeOnto]
  | succ n ih =>
      cases bytes with
      | nil => simp [takeOnto]
      | cons b rest => simp [takeOnto, ih]

theorem take?_eq (n : Nat) (bytes : Bytes) :
    take? n bytes = if n ≤ bytes.length then some (bytes.take n, bytes.drop n) else none := by
  simp [take?, takeOnto_eq]

theorem take?_eq_some_iff {n : Nat} {bytes taken rest : Bytes} :
    take? n bytes = some (taken, rest) ↔ taken.length = n ∧ bytes = taken ++ rest := by
  rw [take?_eq]
  constructor
  · intro h
    split at h
    · cases h
      exact ⟨by simp; omega, by simp⟩
    · cases h
  · rintro ⟨hn, rfl⟩
    simp [← hn]

def littleEndian : Nat → Nat → Bytes
  | 0, _ => []
  | width + 1, n => UInt8.ofNat n :: littleEndian width (n / 256)

def ofLittleEndian : Bytes → Nat
  | [] => 0
  | b :: rest => b.toNat + 256 * ofLittleEndian rest

def bigEndian (width n : Nat) : Bytes :=
  (littleEndian width n).reverse

def ofBigEndian (bytes : Bytes) : Nat :=
  ofLittleEndian bytes.reverse

def hex (bytes : Bytes) : String :=
  String.ofList (bytes.flatMap fun b =>
    [Nat.digitChar (b.toNat / 16), Nat.digitChar (b.toNat % 16)])

@[simp] theorem length_littleEndian (width n : Nat) : (littleEndian width n).length = width := by
  induction width generalizing n with
  | zero => rfl
  | succ width ih => simp [littleEndian, ih]

@[simp] theorem length_bigEndian (width n : Nat) : (bigEndian width n).length = width := by
  simp [bigEndian]

def span : Nat → Nat
  | 0 => 1
  | width + 1 => 256 * span width

theorem ofLittleEndian_littleEndian (width n : Nat) :
    ofLittleEndian (littleEndian width n) = n % span width := by
  induction width generalizing n with
  | zero => simp [littleEndian, ofLittleEndian, span, Nat.mod_one]
  | succ width ih =>
      simp only [littleEndian, ofLittleEndian, ih, span]
      rw [Nat.mod_mul]
      rfl

theorem ofBigEndian_bigEndian (width n : Nat) :
    ofBigEndian (bigEndian width n) = n % span width := by
  simp [ofBigEndian, bigEndian, ofLittleEndian_littleEndian]

theorem ofLittleEndian_lt (bytes : Bytes) : ofLittleEndian bytes < span bytes.length := by
  induction bytes with
  | nil => exact Nat.zero_lt_one
  | cons b rest ih =>
      have := b.toNat_lt
      simp only [ofLittleEndian, List.length_cons, span]
      omega

theorem littleEndian_ofLittleEndian (bytes : Bytes) :
    littleEndian bytes.length (ofLittleEndian bytes) = bytes := by
  induction bytes with
  | nil => rfl
  | cons b rest ih =>
      have := b.toNat_lt
      have hfirst : UInt8.ofNat (b.toNat + 256 * ofLittleEndian rest) = b := by
        apply UInt8.toNat_inj.1
        rw [UInt8.toNat_ofNat']
        omega
      have hrest : (b.toNat + 256 * ofLittleEndian rest) / 256 = ofLittleEndian rest := by omega
      rw [ofLittleEndian, List.length_cons, littleEndian, hfirst, hrest, ih]

theorem ofBigEndian_lt (bytes : Bytes) : ofBigEndian bytes < span bytes.length := by
  rw [ofBigEndian, ← List.length_reverse]
  exact ofLittleEndian_lt _

theorem bigEndian_ofBigEndian (bytes : Bytes) :
    bigEndian bytes.length (ofBigEndian bytes) = bytes := by
  rw [bigEndian, ofBigEndian, ← List.length_reverse, littleEndian_ofLittleEndian,
    List.reverse_reverse]

end Bytes

end SchemaRpc
