import Mathlib.Data.List.Basic
import Mathlib.Data.List.TakeWhile
import Mathlib.Data.Nat.Cast.Order.Ring
import Mathlib.Tactic.IntervalCases
import SchemaRpc.Message.Json

namespace SchemaRpc

namespace Decimal

def AreDigits (digits : List Char) : Prop :=
  digits ≠ [] ∧ ∀ c ∈ digits, c.isDigit = true

inductive Numeral : Int → List Char → Prop
  | plain {digits} (h : AreDigits digits) : Numeral (Nat.ofDigitChars 10 digits 0) digits
  | plus {digits} (h : AreDigits digits) : Numeral (Nat.ofDigitChars 10 digits 0) ('+' :: digits)
  | minus {digits} (h : AreDigits digits) : Numeral (-Nat.ofDigitChars 10 digits 0) ('-' :: digits)

variable {digits text : List Char} {n : Int}

theorem ofDigits_eq (digits : List Char) : ofDigits digits = Nat.ofDigitChars 10 digits 0 := rfl

theorem areDigits_toDigits (n : Nat) : AreDigits (Nat.toDigits 10 n) :=
  ⟨Nat.toDigits_ne_nil, fun _ hc => Nat.isDigit_of_mem_toDigits (by decide) (by decide) hc⟩

theorem AreDigits.all (h : AreDigits digits) : digits ≠ [] ∧ digits.all isDigit = true :=
  ⟨h.1, List.all_eq_true.2 h.2⟩

theorem AreDigits.splitSign (h : AreDigits digits) : splitSign digits = (false, digits) := by
  obtain ⟨-, h⟩ := h
  unfold Decimal.splitSign
  split
  · exact absurd (h '-' List.mem_cons_self) (by decide)
  · exact absurd (h '+' List.mem_cons_self) (by decide)
  · rfl

theorem Numeral.parseInt? (h : Numeral n text) : parseInt? text = some n := by
  cases h with
  | plain h => rw [Decimal.parseInt?, h.splitSign]; exact if_pos h.all
  | plus h => exact if_pos h.all
  | minus h => exact if_pos h.all

theorem not_isBlank_of_isDigit {c : Char} (h : c.isDigit = true) : Blank.isBlank c = false := by
  have hr : 48 ≤ c.toNat ∧ c.toNat ≤ 57 := by
    simp only [Char.isDigit, Bool.and_eq_true, decide_eq_true_eq, ge_iff_le,
      UInt32.le_iff_toNat_le] at h
    exact h
  simp only [Blank.isBlank, Bool.or_eq_false_iff, Bool.and_eq_false_iff, decide_eq_false_iff_not,
    beq_eq_false_iff_ne]
  omega

theorem Numeral.not_isBlank (h : Numeral n text) : ∀ c ∈ text, Blank.isBlank c = false := by
  have signed {sign : Char} {digits : List Char} (hs : Blank.isBlank sign = false)
      (h : AreDigits digits) : ∀ c ∈ sign :: digits, Blank.isBlank c = false :=
    List.forall_mem_cons.2 ⟨hs, fun c hc => not_isBlank_of_isDigit (h.2 c hc)⟩
  cases h with
  | plain h => exact fun c hc => not_isBlank_of_isDigit (h.2 c hc)
  | plus h => exact signed rfl h
  | minus h => exact signed rfl h

end Decimal

theorem Blank.trimChars_between {before text after : List Char}
    (hb : ∀ c ∈ before, isBlank c = true) (ha : ∀ c ∈ after, isBlank c = true)
    (h : ∀ c ∈ text, isBlank c = false) : trimChars (before ++ text ++ after) = text := by
  have hstart : (before ++ text ++ after).dropWhile isBlank = (text ++ after).dropWhile isBlank := by
    rw [List.append_assoc, List.dropWhile_append_of_pos hb]
  have hrest : ((text ++ after).dropWhile isBlank).reverse.dropWhile isBlank = text.reverse := by
    cases text with
    | nil => simp [List.dropWhile_eq_nil_iff.2 ha]
    | cons c rest =>
        rw [List.cons_append, List.dropWhile_cons_of_neg (by simp [h c List.mem_cons_self]),
          ← List.cons_append, List.reverse_append,
          List.dropWhile_append_of_pos fun d hd => ha d (List.mem_reverse.1 hd)]
        cases hr : (c :: rest).reverse with
        | nil => rfl
        | cons last others =>
            have hl : last ∈ c :: rest := List.mem_reverse.1 (hr ▸ List.mem_cons_self)
            exact List.dropWhile_cons_of_neg (by simp [h last hl])
  rw [trimChars, hstart, hrest, List.reverse_reverse]

theorem Decimal.head?_toDigits {n : Nat} (positive : 0 < n) :
    (Nat.toDigits 10 n).head? ≠ some '0' := by
  induction n using Nat.strongRecOn with
  | ind n ih =>
      by_cases hn : n < 10
      · rw [Nat.toDigits_of_lt_base hn]
        interval_cases n <;> decide
      · rw [Nat.toDigits_of_base_le (by decide) (Nat.le_of_not_lt hn),
          List.head?_append_of_ne_nil _ Nat.toDigits_ne_nil]
        exact ih (n / 10) (by omega) (by omega)

namespace Json

theorem toList_render_int (n : Int) :
    (render (.int n)).toList = (if n < 0 then ['-'] else []) ++ Nat.toDigits 10 n.natAbs := by
  rw [render]
  cases n with
  | ofNat n => simp [toString, Int.repr_eq_if]
  | negSucc n => simp [toString, Int.repr_eq_if]

namespace Token

variable {digits : List Char}

theorem ofChars?_digits (negative : Bool) (h : Decimal.AreDigits digits)
    (lead : ¬(digits.head? = some '0' ∧ digits.length ≠ 1)) :
    Numeral.ofChars? ((if negative then ['-'] else []) ++ digits) =
      some ⟨negative, digits, none, none⟩ := by
  have htake : digits.takeWhile Decimal.isDigit = digits := List.takeWhile_eq_self_iff.2 h.2
  have hdrop : digits.dropWhile Decimal.isDigit = [] := List.dropWhile_eq_nil_iff.2 h.2
  have hsign : ∀ rest, digits = '-' :: rest → False := by
    rintro rest rfl
    exact absurd (h.2 '-' List.mem_cons_self) (by decide)
  cases negative with
  | true => simp [Numeral.ofChars?, htake, hdrop, h.1, lead]
  | false => simp [Numeral.ofChars?, htake, hdrop, h.1, lead]

theorem isNumeric_render_int (n : Int) : ∀ c ∈ (render (.int n)).toList, c = '-' ∨ c.isDigit = true := by
  rw [toList_render_int]
  intro c hc
  rcases List.mem_append.1 hc with hc | hc
  · split at hc
    · exact .inl (List.mem_singleton.1 hc)
    · cases hc
  · exact .inr ((Decimal.areDigits_toDigits _).2 c hc)

theorem value?_digits {n : Int} (hl : -9223372036854775808 ≤ n) (hh : n < 18446744073709551616) :
    Numeral.value? ⟨decide (n < 0), Nat.toDigits 10 n.natAbs, none, none⟩ = some (.int n) := by
  have hn : (if decide (n < 0) = true then -(n.natAbs : Int) else n.natAbs) = n := by
    simp only [decide_eq_true_eq]
    split <;> omega
  simp only [Numeral.value?, Decimal.ofDigits_eq, Nat.ofDigitChars_ten_toDigits, hn]
  exact if_pos ⟨rfl, rfl, hl, hh, by simp only [decide_eq_true_eq]; omega⟩

theorem plain?_int {n : Int} (hl : -9223372036854775808 ≤ n) (hh : n < 18446744073709551616) :
    plain? (render (.int n)).toList = some (.atom (.int n)) := by
  have hword : words.lookup (render (.int n)) = none := by
    have other {word : String} {c : Char} (hc : c ∈ word.toList) (h : c.isDigit = false ∧ c ≠ '-') :
        render (.int n) ≠ word := by
      rintro rfl
      rcases isNumeric_render_int n c hc with rfl | hd
      · exact h.2 rfl
      · exact absurd hd (by simp [h.1])
    refine List.lookup_eq_none_iff.2 fun p hp => bne_iff_ne.2 ?_
    simp only [words, List.mem_cons, List.not_mem_nil, or_false] at hp
    rcases hp with rfl | rfl | rfl
    · exact other (c := 'u') (by decide) (by decide)
    · exact other (c := 'u') (by decide) (by decide)
    · exact other (c := 'a') (by decide) (by decide)
  have hlead : ¬((Nat.toDigits 10 n.natAbs).head? = some '0' ∧
      (Nat.toDigits 10 n.natAbs).length ≠ 1) := by
    rcases Nat.eq_zero_or_pos n.natAbs with hz | hp
    · rw [hz]
      decide
    · exact fun h => Decimal.head?_toDigits hp h.1
  have hparts := ofChars?_digits (decide (n < 0)) (Decimal.areDigits_toDigits n.natAbs) hlead
  simp only [decide_eq_true_eq] at hparts
  rw [plain?, String.ofList_toList, hword, toList_render_int, hparts]
  simp [value?_digits hl hh]

theorem not_isBlank_of_isDigit {c : Char} (h : c.isDigit = true) : isBlank c = false := by
  simp only [isBlank, Bool.or_eq_false_iff, beq_eq_false_iff_ne]
  refine ⟨⟨⟨?_, ?_⟩, ?_⟩, ?_⟩ <;>
    · rintro rfl
      exact absurd h (by decide)

theorem isPlain_of_isDigit {c : Char} (h : c.isDigit = true) : isPlain c = true := by
  have hd : Decimal.isDigit c = true := h
  simp [isPlain, isNumeric, hd]

theorem scan_run {c : Char} {run : List Char} {t : Token} (hb : isBlank c = false) (hq : c ≠ '"')
    (hp : ∀ d ∈ c :: run, isPlain d = true) (ht : plain? (c :: run) = some t) :
    scan (c :: run) = some [t] := by
  obtain ⟨hc, hrun⟩ := List.forall_mem_cons.1 hp
  have htake : run.takeWhile isPlain = run := List.takeWhile_eq_self_iff.2 hrun
  have hdrop : run.dropWhile isPlain = [] := List.dropWhile_eq_nil_iff.2 hrun
  rw [scan]
  simp [hb, hq, hc, htake, hdrop, ht, scan]

end Token

theorem parse?_render_int {n : Int} (hl : -9223372036854775808 ≤ n)
    (hh : n < 18446744073709551616) : parse? (render (.int n)) = some (.int n) := by
  have hscan : Token.scan (render (.int n)).toList = some [.atom (.int n)] := by
    have ht := Token.plain?_int hl hh
    have hnumeric := Token.isNumeric_render_int n
    cases hr : (render (.int n)).toList with
    | nil => rw [hr] at ht; cases ht
    | cons c run =>
        rw [hr] at ht hnumeric
        have hc := hnumeric c List.mem_cons_self
        refine Token.scan_run ?_ ?_ (fun d hd => ?_) ht
        · rcases hc with rfl | hc
          · rfl
          · exact Token.not_isBlank_of_isDigit hc
        · rintro rfl
          exact absurd hc (by decide)
        · rcases hnumeric d hd with rfl | hd
          · rfl
          · exact Token.isPlain_of_isDigit hd
  rw [parse?, parseAll?, hscan]
  rfl

end Json

end SchemaRpc
