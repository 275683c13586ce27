import SchemaRpc.Text.Utf8

namespace SchemaRpc.Utf8

theorem toNat_ofNat {n : Nat} (h : n < 256) : (UInt8.ofNat n).toNat = n := by
  rw [UInt8.toNat_ofNat']
  omega

theorem lead_one : ∀ n < 0x80, lead (UInt8.ofNat n) = .one := by decide

theorem lead_two : ∀ n < 32, 2 ≤ n → lead (UInt8.ofNat (0xC0 + n)) = .two := by decide

theorem lead_three : ∀ n < 16, lead (UInt8.ofNat (0xE0 + n)) =
    .three (if n = 0 then 0xA0 else 0x80) (if n = 13 then 0x9F else 0xBF) := by decide

theorem lead_four : ∀ n < 5, lead (UInt8.ofNat (0xF0 + n)) =
    .four (if n = 0 then 0x90 else 0x80) (if n = 4 then 0x8F else 0xBF) := by decide

theorem within_ofNat (low high : Nat) {n : Nat} (hl : low ≤ n) (hh : n ≤ high) (hb : high < 256) :
    within (UInt8.ofNat low) (UInt8.ofNat high) (UInt8.ofNat n) = true := by
  simp only [within, UInt8.le_iff_toNat_le, Bool.and_eq_true, decide_eq_true_eq]
  rw [toNat_ofNat (by omega), toNat_ofNat hb, toNat_ofNat (by omega)]
  exact ⟨hl, hh⟩

theorem tail_ofNat (n : Nat) : tail (UInt8.ofNat (0x80 + n % 64)) = true :=
  within_ofNat 0x80 0xBF (by omega) (by omega) (by decide)

theorem bits_ofNat (n : Nat) : bits (UInt8.ofNat (0x80 + n % 64)) = n % 64 := by
  rw [bits, toNat_ofNat (by omega)]
  omega

theorem decodeFrom_encodeChar (c : Char) (index : Nat) (rest : Bytes) :
    decodeFrom index (encodeChar c ++ rest) =
      (c :: ·) <$> decodeFrom (index + (encodeChar c).length) rest := by
  have hc : Char.ofNat c.toNat = c := Char.ofNat_toNat c
  have hv : c.toNat < 0xD800 ∨ 0xDFFF < c.toNat ∧ c.toNat < 0x110000 := c.valid
  rw [encodeChar]
  split
  · next h =>
      rw [List.singleton_append, decodeFrom.eq_def]
      simp only [lead_one _ h]
      rw [toNat_ofNat (by omega), hc]
      rfl
  · split
    · next h₁ h =>
        have hlow : 2 ≤ c.toNat / 64 := by omega
        have hhigh : c.toNat / 64 < 32 := by omega
        rw [List.cons_append, List.singleton_append, decodeFrom.eq_def]
        simp only [lead_two _ hhigh hlow]
        rw [if_pos (tail_ofNat _), bits_ofNat, toNat_ofNat (by omega)]
        have he : (0xC0 + c.toNat / 64) % 32 * 64 + c.toNat % 64 = c.toNat := by omega
        rw [he, hc]
        rfl
    · split
      · next h₁ h₂ h =>
          have hhigh : c.toNat / 4096 < 16 := by omega
          rw [List.cons_append, List.cons_append, List.singleton_append, decodeFrom.eq_def]
          simp only [lead_three _ hhigh]
          have hw : within (if c.toNat / 4096 = 0 then 0xA0 else 0x80)
              (if c.toNat / 4096 = 13 then 0x9F else 0xBF)
              (UInt8.ofNat (0x80 + c.toNat / 64 % 64)) = true := by
            split
            · rw [if_neg (by omega)]
              exact within_ofNat 0xA0 0xBF (by omega) (by omega) (by decide)
            · split
              · exact within_ofNat 0x80 0x9F (by omega) (by omega) (by decide)
              · exact within_ofNat 0x80 0xBF (by omega) (by omega) (by decide)
          rw [if_pos hw, if_pos (tail_ofNat _), bits_ofNat, bits_ofNat, toNat_ofNat (by omega)]
          have he : ((0xE0 + c.toNat / 4096) % 16 * 64 + c.toNat / 64 % 64) * 64 +
              c.toNat % 64 = c.toNat := by omega
          rw [he, hc]
          rfl
      · next h₁ h₂ h₃ =>
          have hhigh : c.toNat / 262144 < 5 := by omega
          rw [List.cons_append, List.cons_append, List.cons_append, List.singleton_append,
            decodeFrom.eq_def]
          simp only [lead_four _ hhigh]
          have hw : within (if c.toNat / 262144 = 0 then 0x90 else 0x80)
              (if c.toNat / 262144 = 4 then 0x8F else 0xBF)
              (UInt8.ofNat (0x80 + c.toNat / 4096 % 64)) = true := by
            split
            · rw [if_neg (by omega)]
              exact within_ofNat 0x90 0xBF (by omega) (by omega) (by decide)
            · split
              · exact within_ofNat 0x80 0x8F (by omega) (by omega) (by decide)
              · exact within_ofNat 0x80 0xBF (by omega) (by omega) (by decide)
          rw [if_pos hw, if_pos (tail_ofNat _), if_pos (tail_ofNat _), bits_ofNat, bits_ofNat,
            bits_ofNat, toNat_ofNat (by omega)]
          have he : (((0xF0 + c.toNat / 262144) % 8 * 64 + c.toNat / 4096 % 64) * 64 +
              c.toNat / 64 % 64) * 64 + c.toNat % 64 = c.toNat := by omega
          rw [he, hc]
          rfl

theorem decodeFrom_encode (text : List Char) (index : Nat) :
    decodeFrom index (text.flatMap encodeChar) = .ok text := by
  induction text generalizing index with
  | nil => rfl
  | cons c rest ih =>
      rw [List.flatMap_cons, decodeFrom_encodeChar, ih]
      rfl

theorem decode_encode (text : String) : decode (encode text) = .ok text := by
  rw [decode, encode, decodeFrom_encode]
  exact congrArg _ String.ofList_toList

theorem toNat_charOfNat {n : Nat} (h : n < 0xD800 ∨ 0xDFFF < n ∧ n < 0x110000) :
    (Char.ofNat n).toNat = n := by
  rw [Char.ofNat, dif_pos h]
  rfl

theorem ofNat_eq {b : UInt8} {n : Nat} (h : n = b.toNat) : UInt8.ofNat n = b := by
  rw [h, UInt8.ofNat_toNat]

theorem within_iff {low high b : UInt8} :
    within low high b = true ↔ low.toNat ≤ b.toNat ∧ b.toNat ≤ high.toNat := by
  simp only [within, Bool.and_eq_true, decide_eq_true_eq, UInt8.le_iff_toNat_le]

theorem tail_iff {b : UInt8} : tail b = true ↔ 0x80 ≤ b.toNat ∧ b.toNat ≤ 0xBF :=
  within_iff

def Lead.Announced (a : UInt8) : Lead → Prop
  | .one => a.toNat < 0x80
  | .two => 0xC2 ≤ a.toNat ∧ a.toNat < 0xE0
  | .three low high => (0xE0 ≤ a.toNat ∧ a.toNat < 0xF0) ∧ (0x80 ≤ low.toNat ∧ high.toNat ≤ 0xBF) ∧
      (a.toNat = 0xE0 → 0xA0 ≤ low.toNat) ∧ (a.toNat = 0xED → high.toNat ≤ 0x9F)
  | .four low high => (0xF0 ≤ a.toNat ∧ a.toNat < 0xF5) ∧ (0x80 ≤ low.toNat ∧ high.toNat ≤ 0xBF) ∧
      (a.toNat = 0xF0 → 0x90 ≤ low.toNat) ∧ (a.toNat = 0xF4 → high.toNat ≤ 0x8F)
  | .invalid => True

theorem announced_lead (a : UInt8) : (lead a).Announced a := by
  unfold lead
  repeat' split
  all_goals
    simp only [Lead.Announced, UInt8.lt_iff_toNat_lt, ← UInt8.toNat_inj, UInt8.reduceToNat] at *
  all_goals omega

variable {a b c d low high : UInt8}

theorem encodeChar_one (ha : Lead.one.Announced a) :
    encodeChar (Char.ofNat a.toNat) = [a] := by
  have ha : a.toNat < 0x80 := ha
  have hn := toNat_charOfNat (n := a.toNat) (by omega)
  rw [encodeChar, hn, if_pos ha, ofNat_eq rfl]

theorem encodeChar_two (ha : Lead.two.Announced a) (hb : tail b = true) :
    encodeChar (Char.ofNat (a.toNat % 32 * 64 + bits b)) = [a, b] := by
  obtain ⟨hal, hah⟩ := ha
  obtain ⟨hbl, hbh⟩ := tail_iff.1 hb
  have hn := toNat_charOfNat (n := a.toNat % 32 * 64 + b.toNat % 64) (by omega)
  rw [bits, encodeChar, hn, if_neg (by omega), if_pos (by omega), ofNat_eq (b := a) (by omega),
    ofNat_eq (b := b) (by omega)]

theorem encodeChar_three (ha : (Lead.three low high).Announced a) (hb : within low high b = true)
    (hc : tail c = true) :
    encodeChar (Char.ofNat ((a.toNat % 16 * 64 + bits b) * 64 + bits c)) = [a, b, c] := by
  obtain ⟨⟨hal, hah⟩, ⟨hl, hh⟩, hshort, hsurrogate⟩ := ha
  obtain ⟨hbl, hbh⟩ := within_iff.1 hb
  obtain ⟨hcl, hch⟩ := tail_iff.1 hc
  simp only [bits]
  have hn := toNat_charOfNat (n := (a.toNat % 16 * 64 + b.toNat % 64) * 64 + c.toNat % 64)
    (by omega)
  rw [encodeChar, hn, if_neg (by omega), if_neg (by omega), if_pos (by omega),
    ofNat_eq (b := a) (by omega), ofNat_eq (b := b) (by omega), ofNat_eq (b := c) (by omega)]

theorem encodeChar_four (ha : (Lead.four low high).Announced a) (hb : within low high b = true)
    (hc : tail c = true) (hd : tail d = true) :
    encodeChar (Char.ofNat (((a.toNat % 8 * 64 + bits b) * 64 + bits c) * 64 + bits d)) =
      [a, b, c, d] := by
  obtain ⟨⟨hal, hah⟩, ⟨hl, hh⟩, hshort, hlast⟩ := ha
  obtain ⟨hbl, hbh⟩ := within_iff.1 hb
  obtain ⟨hcl, hch⟩ := tail_iff.1 hc
  obtain ⟨hdl, hdh⟩ := tail_iff.1 hd
  simp only [bits]
  have hn := toNat_charOfNat
    (n := ((a.toNat % 8 * 64 + b.toNat % 64) * 64 + c.toNat % 64) * 64 + d.toNat % 64) (by omega)
  rw [encodeChar, hn, if_neg (by omega), if_neg (by omega), if_neg (by omega),
    ofNat_eq (b := a) (by omega), ofNat_eq (b := b) (by omega), ofNat_eq (b := c) (by omega),
    ofNat_eq (b := d) (by omega)]

theorem encode_cons_of_decode {x : Char} {parsed : Except Fault (List Char)} {text : List Char}
    {bytes : Bytes} (h : (x :: ·) <$> parsed = .ok text)
    (ih : ∀ t, parsed = .ok t → t.flatMap encodeChar = bytes) :
    text.flatMap encodeChar = encodeChar x ++ bytes := by
  cases parsed with
  | error e => cases h
  | ok t =>
    cases h
    rw [List.flatMap_cons, ih t rfl]

theorem flatMap_encodeChar_of_decodeFrom {index : Nat} {bytes : Bytes} {text : List Char}
    (h : decodeFrom index bytes = .ok text) : text.flatMap encodeChar = bytes := by
  fun_induction decodeFrom index bytes generalizing text with
  | case1 => cases h; rfl
  | case3 index a rest hl ih =>
    rw [encode_cons_of_decode h @ih, encodeChar_one (hl ▸ announced_lead a), List.singleton_append]
  | case5 index a hl b rest hb ih =>
    rw [encode_cons_of_decode h @ih, encodeChar_two (hl ▸ announced_lead a) hb]
    rfl
  | case9 index a low high hl b hb c rest hc ih =>
    rw [encode_cons_of_decode h @ih, encodeChar_three (hl ▸ announced_lead a) hb hc]
    rfl
  | case15 index a low high hl b hb c hc d rest hd ih =>
    rw [encode_cons_of_decode h @ih, encodeChar_four (hl ▸ announced_lead a) hb hc hd]
    rfl
  | _ => cases h

theorem encode_of_decode {bytes : Bytes} {text : String} (h : decode bytes = .ok text) :
    encode text = bytes := by
  rw [decode] at h
  cases hd : decodeFrom 0 bytes with
  | error e => rw [hd] at h; cases h
  | ok t =>
    rw [hd] at h
    cases h
    rw [encode, String.toList_ofList, flatMap_encodeChar_of_decodeFrom hd]

theorem encode_injective {text other : String} (h : encode text = encode other) :
    text = other := by
  have : decode (encode text) = .ok other := by rw [h, decode_encode]
  rw [decode_encode] at this
  exact Except.ok.inj this

end SchemaRpc.Utf8
