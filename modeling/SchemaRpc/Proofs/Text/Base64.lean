import SchemaRpc.Text.Base64

namespace SchemaRpc.Base64

def sextets : Bytes → List Nat
  | [] => []
  | [a] => [a.toNat / 4, a.toNat % 4 * 16]
  | [a, b] => [a.toNat / 4, a.toNat % 4 * 16 + b.toNat / 16, b.toNat % 16 * 4]
  | a :: b :: c :: rest =>
    a.toNat / 4 :: (a.toNat % 4 * 16 + b.toNat / 16) :: (b.toNat % 16 * 4 + c.toNat / 64) ::
      c.toNat % 64 :: sextets rest

def padding : Bytes → List Char
  | [] => []
  | [_] => ['=', '=']
  | [_, _] => ['=']
  | _ :: _ :: _ :: rest => padding rest

theorem value?_digit : ∀ n < 64, standard.value? (digit n) = some n := by
  decide

theorem digit_ne_pad : ∀ n < 64, digit n ≠ '=' := by
  decide

theorem encodeChars_eq (bytes : Bytes) :
    encodeChars bytes = (sextets bytes).map digit ++ padding bytes := by
  fun_induction encodeChars bytes with
  | case1 => rfl
  | case2 a => rfl
  | case3 a b => rfl
  | case4 a b c rest ih => simp [sextets, padding, ih]

theorem sextets_lt (bytes : Bytes) : ∀ n ∈ sextets bytes, n < 64 := by
  fun_induction sextets bytes with
  | case1 => simp
  | case2 a =>
      have := a.toNat_lt
      simp only [List.mem_cons, List.not_mem_nil, or_false, forall_eq_or_imp, forall_eq]
      omega
  | case3 a b =>
      have := a.toNat_lt
      have := b.toNat_lt
      simp only [List.mem_cons, List.not_mem_nil, or_false, forall_eq_or_imp, forall_eq]
      omega
  | case4 a b c rest ih =>
      have := a.toNat_lt
      have := b.toNat_lt
      have := c.toNat_lt
      simp only [List.mem_cons, forall_eq_or_imp]
      refine ⟨by omega, by omega, by omega, by omega, ih⟩

theorem joinDigits_sextets (bytes : Bytes) : joinDigits (sextets bytes) = some bytes := by
  have joined (a : UInt8) {n : Nat} (h : n = a.toNat) : UInt8.ofNat n = a := by
    rw [h, UInt8.ofNat_toNat]
  fun_induction sextets bytes with
  | case1 => rfl
  | case2 a =>
      have := a.toNat_lt
      rw [joinDigits, if_pos (by omega), joined a (by omega)]
  | case3 a b =>
      have := a.toNat_lt
      have := b.toNat_lt
      rw [joinDigits, if_pos (by omega), joined a (by omega), joined b (by omega)]
  | case4 a b c rest ih =>
      have := a.toNat_lt
      have := b.toNat_lt
      have := c.toNat_lt
      rw [joinDigits, ih, joined a (by omega), joined b (by omega), joined c (by omega)]
      rfl

theorem padding_cases (bytes : Bytes) :
    padding bytes = [] ∨ padding bytes = ['='] ∨ padding bytes = ['=', '='] := by
  fun_induction padding bytes with
  | case1 => exact .inl rfl
  | case2 a => exact .inr (.inr rfl)
  | case3 a b => exact .inr (.inl rfl)
  | case4 a b c rest ih => exact ih

theorem length_encodeChars (bytes : Bytes) : (encodeChars bytes).length % 4 = 0 := by
  fun_induction encodeChars bytes with
  | case1 => rfl
  | case2 a => simp
  | case3 a b => simp
  | case4 a b c rest ih =>
      simp only [List.length_cons]
      omega

theorem unpad?_encodeChars (bytes : Bytes) :
    unpad? (encodeChars bytes) = some ((sextets bytes).map digit) := by
  have hbody : ∀ c ∈ (sextets bytes).map digit, decide (c ≠ '=') = true := by
    intro c hc
    obtain ⟨n, hn, rfl⟩ := List.mem_map.1 hc
    exact decide_eq_true (digit_ne_pad n (sextets_lt bytes n hn))
  have hlength := length_encodeChars bytes
  rw [encodeChars_eq] at hlength ⊢
  unfold unpad?
  rw [List.takeWhile_append_of_pos hbody, List.dropWhile_append_of_pos hbody]
  rcases padding_cases bytes with hp | hp | hp <;> simp [hp] at hlength ⊢ <;> exact hlength

theorem mapM_value?_digit {ns : List Nat} (h : ∀ n ∈ ns, n < 64) :
    (ns.map digit).mapM standard.value? = some ns := by
  induction ns with
  | nil => rfl
  | cons n rest ih =>
      have hn := value?_digit n (h n List.mem_cons_self)
      have hrest := ih fun k hk => h k (List.mem_cons_of_mem _ hk)
      simp [hn, hrest]

theorem decode?_encode (bytes : Bytes) : decode? (encode bytes) = some bytes := by
  have h : standard.decode? (encode bytes) = some bytes := by
    simp [Alphabet.decode?, encode, unpad?_encodeChars, mapM_value?_digit (sextets_lt bytes),
      joinDigits_sextets]
  rw [decode?, h]
  rfl

end SchemaRpc.Base64
