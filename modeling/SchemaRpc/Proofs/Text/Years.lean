import Mathlib.Data.List.TakeWhile
import Mathlib.Tactic.Ring
import SchemaRpc.Proofs.Text.Instant

namespace SchemaRpc

namespace Scan

variable {α β : Type} {x : Scan α} {text rest : List Char}

theorem bind_eq_some {f : α → Scan β} {b : β} (h : (x >>= f) text = some (b, rest)) :
    ∃ a middle, x text = some (a, middle) ∧ f a middle = some (b, rest) := by
  obtain ⟨⟨a, middle⟩, hx, hf⟩ := Option.bind_eq_some_iff.1 h
  exact ⟨a, middle, hx, hf⟩

theorem accept_of_char {accept : Char → Bool} {c : Char} (h : char accept text = some (c, rest)) :
    accept c = true := by
  cases text with
  | nil => cases h
  | cons d tail =>
      simp only [char] at h
      split at h
      · next hd => cases h; exact hd
      · cases h

theorem lt_of_isDigit {c : Char} (h : (decide ('0' ≤ c) && decide (c ≤ '9')) = true) :
    c.toNat - 48 < 10 := by
  have hc : c ≤ '9' := of_decide_eq_true (Bool.and_eq_true_iff.1 h).2
  have : c.toNat ≤ 57 := hc
  omega

theorem digit_lt {d : Nat} (h : digit text = some (d, rest)) : d < 10 := by
  obtain ⟨c, middle, hc, hd⟩ := bind_eq_some h
  cases hd
  exact lt_of_isDigit (accept_of_char hc)

theorem number_lt {width n : Nat} (h : number width text = some (n, rest)) : n < 10 ^ width := by
  have hrun : ∀ (width first n : Nat) (text : List Char),
      (List.replicate width ()).foldlM (m := Scan) (fun n () => do return 10 * n + (← digit)) first text =
        some (n, rest) → n < (first + 1) * 10 ^ width := by
    intro width
    induction width with
    | zero =>
        intro first n text h
        cases h
        omega
    | succ width ih =>
        intro first n text h
        rw [List.replicate_succ, List.foldlM_cons] at h
        obtain ⟨next, middle, hnext, h⟩ := bind_eq_some h
        obtain ⟨d, _, hd, hpure⟩ := bind_eq_some hnext
        cases hpure
        have hlt := digit_lt hd
        calc n < (10 * first + d + 1) * 10 ^ width := ih _ _ _ h
          _ ≤ (first + 1) * 10 * 10 ^ width := Nat.mul_le_mul_right _ (by omega)
          _ = (first + 1) * 10 ^ (width + 1) := by rw [Nat.pow_succ']; ring
  simpa using hrun width 0 n text h

theorem numberIn_bounds {width low high n : Nat}
    (h : numberIn width low high text = some (n, rest)) : low ≤ n ∧ n ≤ high := by
  obtain ⟨k, middle, -, h⟩ := bind_eq_some h
  split at h
  · next hk => cases h; exact hk
  · cases h

theorem foldl_places_lt {places : List Nat} (h : ∀ d ∈ places, d < 10) (first : Nat) :
    places.foldl (fun n d => 10 * n + d) first < (first + 1) * 10 ^ places.length := by
  induction places generalizing first with
  | nil => simp
  | cons d rest ih =>
      have hd := h d List.mem_cons_self
      rw [List.foldl_cons, List.length_cons]
      calc rest.foldl (fun n d => 10 * n + d) (10 * first + d)
          < (10 * first + d + 1) * 10 ^ rest.length :=
            ih (fun x hx => h x (List.mem_cons_of_mem _ hx)) _
        _ ≤ (first + 1) * 10 * 10 ^ rest.length := Nat.mul_le_mul_right _ (by omega)
        _ = (first + 1) * 10 ^ (rest.length + 1) := by rw [Nat.pow_succ']; ring

theorem digits_lt {places : List Nat} (h : digits text = some (places, rest)) :
    ∀ d ∈ places, d < 10 := by
  cases h
  intro d hd
  obtain ⟨c, hc, rfl⟩ := List.mem_map.1 hd
  exact lt_of_isDigit (List.mem_takeWhile_imp (p := fun c => decide ('0' ≤ c) && decide (c ≤ '9')) hc)

theorem nanoseconds_lt {n : Nat} (h : nanoseconds text = some (n, rest)) : n < 1000000000 := by
  unfold nanoseconds at h
  split at h
  · next tail =>
      obtain ⟨⟨places, left⟩, hplaces, h⟩ := Option.bind_eq_some_iff.1 h
      have hlt := digits_lt hplaces
      simp only at h
      split at h
      · cases h
      · cases h
        have hlen : ((places ++ List.replicate 9 0).take 9).length = 9 := by simp
        have hdigits : ∀ d ∈ (places ++ List.replicate 9 0).take 9, d < 10 := by
          intro d hd
          rcases List.mem_append.1 (List.mem_of_mem_take hd) with hd | hd
          · exact hlt d hd
          · rw [List.eq_of_mem_replicate hd]
            decide
        have := foldl_places_lt hdigits 0
        rwa [hlen] at this
  · cases h
    decide

theorem offset_bounds {minutes : Int} (h : offset text = some (minutes, rest)) :
    -1439 ≤ minutes ∧ minutes ≤ 1439 := by
  obtain ⟨c, _, -, h⟩ := bind_eq_some h
  split at h
  · cases h
    decide
  · obtain ⟨hours, _, hhours, h⟩ := bind_eq_some h
    obtain ⟨_, _, -, h⟩ := bind_eq_some h
    obtain ⟨mins, _, hmins, h⟩ := bind_eq_some h
    have := numberIn_bounds hhours
    have := numberIn_bounds hmins
    cases h
    split <;> omega

end Scan

namespace Instant

def InText (t : Instant) : Prop :=
  -62167305540000 ≤ t.millis ∧ t.millis ≤ 253402387140999

variable {t : Instant}

theorem millis_ofParts {seconds : Int} {nanos : Nat} (h : nanos < 2000000000) :
    (ofParts seconds nanos).millis = seconds * 1000 + (nanos / 1000000 : Nat) := by
  rw [ofParts, dif_pos h, millis]

theorem inText_of_scan {text rest : List Char} (h : scan text = some (t, rest)) : t.InText := by
  obtain ⟨year, _, hyear, h⟩ := Scan.bind_eq_some h
  obtain ⟨_, _, -, h⟩ := Scan.bind_eq_some h
  obtain ⟨month, _, hmonth, h⟩ := Scan.bind_eq_some h
  obtain ⟨_, _, -, h⟩ := Scan.bind_eq_some h
  obtain ⟨day, _, hday, h⟩ := Scan.bind_eq_some h
  obtain ⟨_, _, -, h⟩ := Scan.bind_eq_some h
  obtain ⟨hour, _, hhour, h⟩ := Scan.bind_eq_some h
  obtain ⟨_, _, -, h⟩ := Scan.bind_eq_some h
  obtain ⟨minute, _, hminute, h⟩ := Scan.bind_eq_some h
  obtain ⟨_, _, -, h⟩ := Scan.bind_eq_some h
  obtain ⟨second, _, hsecond, h⟩ := Scan.bind_eq_some h
  obtain ⟨nanos, _, hnanos, h⟩ := Scan.bind_eq_some h
  obtain ⟨offset, _, hoffset, h⟩ := Scan.bind_eq_some h
  have hyear := Scan.number_lt hyear
  have hmonth := Scan.numberIn_bounds hmonth
  have hday := Scan.numberIn_bounds hday
  have hhour := Scan.numberIn_bounds hhour
  have hminute := Scan.numberIn_bounds hminute
  have hsecond := Scan.numberIn_bounds hsecond
  have hnanos := Scan.nanoseconds_lt hnanos
  have hoffset := Scan.offset_bounds hoffset
  have hlength : Date.daysInMonth year month ≤ 31 := by
    unfold Date.daysInMonth
    split <;> split <;> decide
  have hdays := Date.toDays_bounds (d := ⟨year, month, day⟩) (by simp only; omega) hmonth
    ⟨hday.1, Nat.le_trans hday.2 hlength⟩
  cases h
  unfold InText
  split
  · rw [millis_ofParts (by omega)]
    omega
  · rw [millis_ofParts (by omega)]
    omega

theorem inText_of_ofText {text : String} (h : ofText text = .ok t) :
    t = .ofMillis t.millis ∧ t.InText := by
  unfold ofText parse? at h
  split at h
  · next u hu =>
      split at hu
      · next hs =>
          cases hu
          cases h
          obtain ⟨hl, hh⟩ := inText_of_scan hs
          have hm : u.truncated = .ofMillis u.millis := if_pos (Int.le_trans hh (by decide))
          rw [hm, InText, millis_ofMillis]
          exact ⟨rfl, hl, hh⟩
      · cases hu
  · cases h

end Instant

end SchemaRpc
