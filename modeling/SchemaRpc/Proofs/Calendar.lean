import SchemaRpc.Instant

namespace SchemaRpc.Date

structure Exists (d : Date) : Prop where
  month : 1 ≤ d.month ∧ d.month ≤ 12
  day : 1 ≤ d.day ∧ d.day ≤ daysInMonth d.year d.month

def ofMarch (year day : Int) : Date :=
  let month := (5 * day + 2) / 153
  let dayOfMonth := (day - (153 * month + 2) / 5 + 1).toNat
  if month < 10 then ⟨year, (month + 3).toNat, dayOfMonth⟩
  else ⟨year + 1, (month - 9).toNat, dayOfMonth⟩

def daysBefore (year : Int) : Int :=
  365 * year + year / 4 - year / 100

structure Split (day century four year rest : Int) : Prop where
  sum : day = 36524 * century + 1461 * four + 365 * year + rest
  centuries : 0 ≤ century ∧ century ≤ 3
  fours : 0 ≤ four ∧ four ≤ 24
  years : 0 ≤ year ∧ year ≤ 3
  days : 0 ≤ rest ∧ rest ≤ 365
  leap : rest = 365 → year = 3 ∧ (four = 24 → century = 3)

variable {day century four year rest : Int}

theorem exists_split (hl : 0 ≤ day) (hh : day < 146097) :
    ∃ century four year rest, Split day century four year rest := by
  by_cases hlast : day = 146096
  · exact ⟨3, 24, 3, 365, by omega, by omega, by omega, by omega, by omega, by omega⟩
  · by_cases hleap : day % 36524 % 1461 = 1460
    · exact ⟨day / 36524, day % 36524 / 1461, 3, 365, by omega, by omega, by omega, by omega,
        by omega, by omega⟩
    · exact ⟨day / 36524, day % 36524 / 1461, day % 36524 % 1461 / 365,
        day % 36524 % 1461 % 365, by omega, by omega, by omega, by omega, by omega, by omega⟩

theorem Split.daysBefore (h : Split day century four year rest) :
    day = Date.daysBefore (100 * century + 4 * four + year) + rest := by
  obtain ⟨hday, hcentury, hfour, hyear, -, -⟩ := h
  unfold Date.daysBefore
  omega

theorem Split.yearOfEra (h : Split day century four year rest) :
    (day - day / 1460 + day / 36524 - day / 146096) / 365 = 100 * century + 4 * four + year := by
  obtain ⟨hday, hcentury, hfour, hyear, hrest, hleap⟩ := h
  -- the last day of an era would begin another century
  have hin : 1461 * four + 365 * year + rest < 36524 ∨ day = 146096 ∧ century = 3 := by omega
  have hc : day / 36524 - day / 146096 = century := by
    rcases hin with hin | ⟨rfl, rfl⟩
    · have : day / 36524 = century := by omega
      have : day / 146096 = 0 := by omega
      omega
    · rfl
  have hf : 25 * century + four ≤ day / 1460 ∧ day / 1460 ≤ 25 * century + four + 1 := by omega
  omega

theorem Split.isLeap (h : Split day century four year rest) (hr : rest = 365) (era : Int) :
    isLeap (100 * century + 4 * four + year + era * 400 + 1) = true := by
  obtain ⟨-, hcentury, hfour, -, -, hleap⟩ := h
  obtain ⟨rfl, hlast⟩ := hleap hr
  simp only [Date.isLeap, Bool.and_eq_true, Bool.or_eq_true, beq_iff_eq, bne_iff_ne]
  omega

theorem ofDays_cases (days : Int) :
    ∃ era year day : Int, (0 ≤ year ∧ year ≤ 399) ∧ (0 ≤ day ∧ day ≤ 365) ∧
      days = era * 146097 + daysBefore year + day - 719468 ∧
      (day = 365 → isLeap (year + era * 400 + 1) = true) ∧
      ofDays days = ofMarch (year + era * 400) day := by
  obtain ⟨century, four, year, rest, h⟩ := exists_split
    (by omega : 0 ≤ (days + 719468) % 146097) (by omega)
  have hbefore := h.daysBefore
  have hyear := h.yearOfEra
  have hrest : (days + 719468) % 146097 - daysBefore (100 * century + 4 * four + year) = rest := by
    omega
  refine ⟨(days + 719468) / 146097, 100 * century + 4 * four + year, rest, ?_, h.days, by omega,
    fun hr => h.isLeap hr _, ?_⟩
  · have := h.centuries
    have := h.fours
    have := h.years
    omega
  · simp only [ofDays, ofMarch, hyear]
    rw [← daysBefore, hrest]

theorem toDays_ofMarch (era : Int) (hy : 0 ≤ year ∧ year ≤ 399) (hd : 0 ≤ day ∧ day ≤ 365) :
    (ofMarch (year + era * 400) day).toDays = era * 146097 + daysBefore year + day - 719468 := by
  have hera : (year + era * 400) / 400 = era := by omega
  have hyear : (year + era * 400) % 400 = year := by omega
  simp only [ofMarch, toDays, daysBefore]
  split
  · next hm =>
      have hn : ¬((5 * day + 2) / 153 + 3).toNat ≤ 2 := by omega
      simp only [hn, if_false, hera, hyear]
      omega
  · next hm =>
      have hn : ((5 * day + 2) / 153 - 9).toNat ≤ 2 := by omega
      simp only [hn, if_true, Int.add_sub_cancel, hera, hyear]
      omega

theorem toDays_ofDays (days : Int) : (ofDays days).toDays = days := by
  obtain ⟨era, year, day, hy, hd, hdays, -, he⟩ := ofDays_cases days
  rw [he, toDays_ofMarch era hy hd, hdays]

theorem toDays_bounds {d : Date} (years : 0 ≤ d.year ∧ d.year ≤ 9999)
    (months : 1 ≤ d.month ∧ d.month ≤ 12) (days : 1 ≤ d.day ∧ d.day ≤ 31) :
    -719528 ≤ d.toDays ∧ d.toDays ≤ 2932896 := by
  obtain ⟨y, m, n⟩ := d
  simp only at years months days
  by_cases hm : m ≤ 2
  · simp only [toDays, hm, if_true]
    omega
  · simp only [toDays, hm, if_false]
    omega

theorem exists_ofMarch (hd : 0 ≤ day ∧ day ≤ 365) (leap : day = 365 → isLeap (year + 1) = true) :
    (ofMarch year day).Exists := by
  obtain ⟨month, hm⟩ : ∃ month, month = (5 * day + 2) / 153 := ⟨_, rfl⟩
  have hmonth : 0 ≤ month ∧ month ≤ 11 := by omega
  constructor
  · simp only [ofMarch, ← hm]
    split <;> simp only <;> omega
  · simp only [ofMarch, ← hm]
    split
    · next hlt =>
        refine ⟨by simp only; omega, ?_⟩
        simp only [daysInMonth]
        split
        · omega
        · split <;> omega
    · next hlt =>
        refine ⟨by simp only; omega, ?_⟩
        simp only [daysInMonth]
        split
        · split
          · omega
          · next hleap =>
              have := mt leap hleap
              omega
        · split <;> omega

theorem exists_ofDays (days : Int) : (ofDays days).Exists := by
  obtain ⟨era, year, day, -, hd, -, hleap, he⟩ := ofDays_cases days
  rw [he]
  exact exists_ofMarch hd hleap

theorem year_ofDays {days : Int} (hl : -719162 ≤ days) (hh : days ≤ 2932896) :
    1 ≤ (ofDays days).year ∧ (ofDays days).year ≤ 9999 := by
  obtain ⟨era, year, day, hy, hd, hdays, -, he⟩ := ofDays_cases days
  unfold daysBefore at hdays
  have hera : 0 ≤ era ∧ era ≤ 24 := by omega
  rw [he]
  simp only [ofMarch]
  split <;> simp only <;> omega

end SchemaRpc.Date
