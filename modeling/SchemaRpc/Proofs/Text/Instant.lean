import Mathlib.Algebra.GroupWithZero.Nat
import Mathlib.Data.Char
import Mathlib.Data.Option.Basic
import SchemaRpc.Proofs.Calendar
import SchemaRpc.Proofs.Timestamp

namespace SchemaRpc

namespace Instant

def places : Nat → Nat → List Char
  | 0, _ => []
  | width + 1, n => places width (n / 10) ++ [Nat.digitChar (n % 10)]

theorem places_zero (width : Nat) : places width 0 = List.replicate width '0' := by
  induction width with
  | zero => rfl
  | succ width ih => simp [places, ih, List.replicate_succ']

theorem toList_pad {width n : Nat} (h : n < 10 ^ width) (positive : 0 < width) :
    (pad width n).toList = places width n := by
  have hp : (pad width n).toList =
      List.replicate (width - (Nat.toDigits 10 n).length) '0' ++ Nat.toDigits 10 n := by
    simp [pad, Nat.repr_eq_ofList_toDigits]
  rw [hp]
  clear hp
  induction width generalizing n with
  | zero => omega
  | succ width ih =>
      by_cases hn : n < 10
      · rw [Nat.toDigits_of_lt_base hn, places, Nat.div_eq_of_lt hn, Nat.mod_eq_of_lt hn,
          places_zero]
        rfl
      · have hw : 0 < width := by
          rcases Nat.eq_zero_or_pos width with rfl | hw
          · omega
          · exact hw
        have hd : n / 10 < 10 ^ width := by
          rw [Nat.pow_succ] at h
          omega
        rw [Nat.toDigits_of_base_le (by decide) (Nat.le_of_not_lt hn), places, ← ih hd hw,
          List.length_append, List.length_singleton, Nat.add_sub_add_right, List.append_assoc]

end Instant

namespace Scan

variable {α β : Type} {text rest : List Char}

theorem bind_eq {x : Scan α} {f : α → Scan β} {a : α} (h : x text = some (a, rest)) :
    (x >>= f) text = f a rest := by
  simp [bind, StateT.bind, h]

theorem pure_eq (a : α) (text : List Char) : (pure a : Scan α) text = some (a, text) := rfl

theorem char_cons {accept : Char → Bool} {c : Char} (h : accept c = true) (rest : List Char) :
    char accept (c :: rest) = some (c, rest) := by
  rw [char, if_pos h]

theorem isDigit_digitChar : ∀ d < 10,
    (decide ('0' ≤ Nat.digitChar d) && decide (Nat.digitChar d ≤ '9')) = true := by
  decide

theorem digit_digitChar {d : Nat} (h : d < 10) (rest : List Char) :
    digit (Nat.digitChar d :: rest) = some (d, rest) := by
  rw [digit, bind_eq (char_cons (isDigit_digitChar d h) rest), pure_eq,
    Nat.toNat_digitChar_sub_48_of_lt_ten h]

theorem literal_cons (c : Char) (rest : List Char) : literal c (c :: rest) = some ((), rest) := by
  have h : char (· == c) (c :: rest) = some (c, rest) := char_cons (beq_self_eq_true c) rest
  rw [literal, bind_eq h, pure_eq]

theorem number_places {width n : Nat} (h : n < 10 ^ width) (rest : List Char) :
    number width (Instant.places width n ++ rest) = some (n, rest) := by
  have hrun : ∀ (width n : Nat) (rest : List Char),
      number width (Instant.places width n ++ rest) = some (n % 10 ^ width, rest) := by
    intro width
    induction width with
    | zero => intro n rest; rw [Nat.pow_zero, Nat.mod_one]; rfl
    | succ width ih =>
        intro n rest
        have hfirst := ih (n / 10) (Nat.digitChar (n % 10) :: rest)
        have hlast : (digit >>= fun d => pure (10 * (n / 10 % 10 ^ width) + d))
            (Nat.digitChar (n % 10) :: rest) = some (10 * (n / 10 % 10 ^ width) + n % 10, rest) :=
          bind_eq (digit_digitChar (Nat.mod_lt n (by decide : 0 < 10)) rest)
        rw [Instant.places, List.append_assoc, List.singleton_append]
        rw [number] at hfirst ⊢
        rw [List.replicate_succ', List.foldlM_append, bind_eq hfirst, List.foldlM_cons,
          bind_eq hlast, List.foldlM_nil, pure_eq, Nat.pow_succ', Nat.mod_mul, Nat.add_comm]
  rw [hrun, Nat.mod_eq_of_lt h]

theorem numberIn_places {width n low high : Nat} (h : n < 10 ^ width) (hl : low ≤ n)
    (hh : n ≤ high) (rest : List Char) :
    numberIn width low high (Instant.places width n ++ rest) = some (n, rest) := by
  rw [numberIn, bind_eq (number_places h rest), if_pos ⟨hl, hh⟩, pure_eq]

theorem nanoseconds_places {n : Nat} (h : n < 1000) :
    nanoseconds ('.' :: (Instant.places 3 n ++ ['Z'])) = some (n * 1000000, ['Z']) := by
  have hd : ∀ k, k % 10 < 10 := fun k => Nat.mod_lt k (by decide)
  have hdigits : digits (Instant.places 3 n ++ ['Z']) =
      some ([n / 100 % 10, n / 10 % 10, n % 10], ['Z']) := by
    simp only [digits, Instant.places, List.nil_append, List.cons_append, List.takeWhile_cons,
      List.dropWhile_cons, isDigit_digitChar _ (hd _), if_true]
    simp [Nat.div_div_eq_div_mul, Nat.toNat_digitChar_sub_48_of_lt_ten, hd]
  rw [nanoseconds]
  simp [hdigits]
  omega

theorem offset_utc : offset ['Z'] = some (0, []) := by
  rw [offset, bind_eq (char_cons rfl []), if_pos (.inl rfl), pure_eq]

end Scan

namespace Instant

theorem eq_of_parts {t : Instant} {seconds : Int} {nanos : Nat} {h : nanos < 2000000000}
    (hs : seconds = t.seconds) (hn : nanos = t.nanoseconds) : ⟨seconds, nanos, h⟩ = t := by
  cases hs
  cases hn
  rfl

theorem daysInMonth_lt (year : Int) (month : Nat) : Date.daysInMonth year month < 100 := by
  unfold Date.daysInMonth
  split
  · split <;> decide
  · split <;> decide

structure Shows (t : Instant) (date : Date) (hour minute second milli : Nat) : Prop where
  ofDays : Date.ofDays (t.seconds / 86400) = date
  exist : date.Exists
  years : 1 ≤ date.year ∧ date.year ≤ 9999
  hours : hour < 24
  minutes : minute < 60
  seconds : second < 60
  millis : milli < 1000
  time : (t.seconds % 86400).toNat = hour * 3600 + minute * 60 + second
  nanoseconds : t.nanoseconds = milli * 1000000

variable {t : Instant} {date : Date} {hour minute second milli : Nat}

theorem exists_shows (whole : t.truncated = t) (h : t.InRange) :
    ∃ date hour minute second milli, t.Shows date hour minute second milli := by
  have hm : t = ofMillis t.millis := whole.symm.trans (truncated_of_inRange h)
  obtain ⟨hl, hh⟩ := h
  generalize t.millis = n at hm hl hh
  subst hm
  simp only [Timestamp.minSeconds, Timestamp.maxSeconds] at hl hh
  have hs : (ofMillis n).seconds = n / 1000 := rfl
  obtain ⟨second, hsecond⟩ : ∃ second, second = (n / 1000 % 86400).toNat := ⟨_, rfl⟩
  exact ⟨_, second / 3600, second / 60 % 60, second % 60, (n % 1000).toNat, rfl,
    Date.exists_ofDays _, Date.year_ofDays (by omega) (by omega), by omega, by omega, by omega,
    by omega, by omega, rfl⟩

theorem Shows.toList_text (h : t.Shows date hour minute second milli) :
    t.text.toList = places 4 date.year.toNat ++ '-' :: (places 2 date.month ++ '-' ::
      (places 2 date.day ++ 'T' :: (places 2 hour ++ ':' :: (places 2 minute ++ ':' ::
        (places 2 second ++ '.' :: (places 3 milli ++ ['Z'])))))) := by
  have hyear : yearText date.year = pad 4 date.year.toNat := if_pos (by have := h.years; omega)
  have hleap : t.isLeapSecond = false := by
    have := h.millis
    have := h.nanoseconds
    exact decide_eq_false (by omega)
  have hmilli : t.fraction / 1000000 = milli := by
    have := h.millis
    have := h.nanoseconds
    simp only [fraction]
    omega
  have hday := daysInMonth_lt date.year date.month
  obtain ⟨hdate, ⟨hmonth, hdays⟩, hy, hhour, hminute, hsecond, hms, htime, -⟩ := h
  have hh : (hour * 3600 + minute * 60 + second) / 3600 = hour := by omega
  have hm : (hour * 3600 + minute * 60 + second) / 60 % 60 = minute := by omega
  have hs : (hour * 3600 + minute * 60 + second) % 60 = second := by omega
  have two {n : Nat} (hn : n < 100) : (pad 2 n).toList = places 2 n := toList_pad hn (by decide)
  have three : (pad 3 milli).toList = places 3 milli := toList_pad hms (by decide)
  have four : (pad 4 date.year.toNat).toList = places 4 date.year.toNat :=
    toList_pad (by omega) (by decide)
  rw [text, secondText, hdate, htime, hyear, hleap, hmilli, hh, hm, hs]
  rw [Bool.toNat_false, Nat.add_zero]
  simp only [String.toList_append, four, three, two (n := date.month) (by omega),
    two (n := date.day) (by omega), two (n := hour) (by omega), two (n := minute) (by omega),
    two (n := second) (by omega)]
  simp

theorem Shows.scan_text (h : t.Shows date hour minute second milli) :
    scan t.text.toList = some (t, []) := by
  have htext := h.toList_text
  have hday := daysInMonth_lt date.year date.month
  obtain ⟨hdate, ⟨hmonth, hdays⟩, hy, hhour, hminute, hsecond, hms, htime, hnanos⟩ := h
  have hyear : ((date.year.toNat : Nat) : Int) = date.year := by omega
  rw [htext, scan]
  rw [Scan.bind_eq (Scan.number_places (by omega) _), Scan.bind_eq (Scan.literal_cons ..)]
  rw [Scan.bind_eq (Scan.numberIn_places (by omega) hmonth.1 hmonth.2 _),
    Scan.bind_eq (Scan.literal_cons ..), hyear]
  rw [Scan.bind_eq (Scan.numberIn_places (by omega) hdays.1 hdays.2 _),
    Scan.bind_eq (Scan.char_cons rfl _)]
  rw [Scan.bind_eq (Scan.numberIn_places (by omega) (by omega) (by omega) _),
    Scan.bind_eq (Scan.literal_cons ..)]
  rw [Scan.bind_eq (Scan.numberIn_places (by omega) (by omega) (by omega) _),
    Scan.bind_eq (Scan.literal_cons ..)]
  rw [Scan.bind_eq (Scan.numberIn_places (by omega) (by omega) (by omega) _)]
  rw [Scan.bind_eq (Scan.nanoseconds_places hms), Scan.bind_eq Scan.offset_utc, Scan.pure_eq]
  rw [if_neg (by omega), ofParts, dif_pos (by omega)]
  have hdays : Date.toDays ⟨date.year, date.month, date.day⟩ = t.seconds / 86400 := by
    rw [← Date.toDays_ofDays (t.seconds / 86400), hdate]
  rw [hdays]
  exact congrArg (fun t => some (t, [])) (eq_of_parts (by omega) hnanos.symm)

theorem ofText_text (whole : t.truncated = t) (h : t.InRange) : ofText t.text = .ok t := by
  obtain ⟨date, hour, minute, second, milli, hs⟩ := exists_shows whole h
  rw [ofText, parse?, hs.scan_text]
  exact congrArg _ whole

end Instant

end SchemaRpc
