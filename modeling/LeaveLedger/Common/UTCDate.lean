import LeaveLedger.Common.CalendarDate

/-!
# Common — The calendar date of a time value

The fields of a time value are those of the date whose number is its day
(`utcDate`), a day later is the next date, and the first ten characters of
its ISO text are the date written out, as long as the year has four digits.
-/

namespace LeaveLedger

open Js Lib Calendar

/-! ## The fields -/

theorem dayFromYear_eq (y : ℤ) : dayFromYear y = yearStart y := rfl

/-- The year of a day begins at the day or before and ends after it. -/
theorem yearFromDay_spec (n : ℤ) :
    yearStart (yearFromDay n) ≤ n ∧ n < yearStart (yearFromDay n + 1) := by
  show dayFromYear (yearFromDay n) ≤ n ∧ n < dayFromYear (yearFromDay n + 1)
  unfold yearFromDay
  dsimp only
  generalize hq : 400 * n / 146097 = q
  have hbelow : dayFromYear (1970 + q - 1) ≤ n := by
    unfold dayFromYear
    omega
  have habove : n < dayFromYear (1970 + q + 1 + 1) := by
    unfold dayFromYear
    omega
  split_ifs with h₁ h₂
  · exact ⟨hbelow, by rw [sub_add_cancel]; exact h₁⟩
  · exact ⟨h₂, habove⟩
  · exact ⟨not_lt.mp h₁, not_le.mp h₂⟩

/-- Every day has a date. -/
theorem exists_date (n : ℤ) : ∃ c : Date, c.dayNumber = n := by
  let newYear : Date :=
    { year := yearFromDay n, month := 1, day := 1
      month_mem := by omega
      day_mem := by have := monthLength_pos (yearFromDay n) 1; omega }
  refine Date.exists_dayNumber (a := newYear) ?_
  have hstart := (yearFromDay_spec n).1
  unfold Date.dayNumber
  simp only [newYear, daysBefore_one]
  omega

/-- A date lies in its year. -/
theorem dayNumber_mem_year (c : Date) :
    yearStart c.year ≤ c.dayNumber ∧ c.dayNumber < yearStart (c.year + 1) := by
  have hm := c.month_mem
  have hd := c.day_mem
  have hend := yearStart_succ c.year
  have hmonth : daysBefore c.year c.month + monthLength c.year c.month
      ≤ daysBefore c.year 12 + monthLength c.year 12 := by
    rcases Int.lt_or_eq_of_le hm.2 with hlt | heq
    · have h12 := @daysBefore_mono c.year _ _ hm.1 hlt (le_refl 12)
      have hpos := monthLength_pos c.year 12
      omega
    · rw [heq]
  have hbefore : 0 ≤ daysBefore c.year c.month := by
    unfold daysBefore
    split_ifs <;> omega
  unfold Date.dayNumber
  omega

theorem yearFromDay_dayNumber (c : Date) : yearFromDay c.dayNumber = c.year := by
  obtain ⟨h₁, h₂⟩ := yearFromDay_spec c.dayNumber
  obtain ⟨h₃, h₄⟩ := dayNumber_mem_year c
  rcases lt_trichotomy (yearFromDay c.dayNumber) c.year with hlt | heq | hgt
  · have := yearStart_mono (show yearFromDay c.dayNumber + 1 ≤ c.year by omega)
    omega
  · exact heq
  · have := yearStart_mono (show c.year + 1 ≤ yearFromDay c.dayNumber by omega)
    omega

theorem daysBeforeMonth_eq (y : ℤ) {m : ℤ} (h₁ : 1 ≤ m) (h₂ : m ≤ 12) :
    daysBeforeMonth (inLeapYear y) (m - 1) = daysBefore y m := by
  rw [inLeapYear_eq]
  unfold daysBeforeMonth daysBefore
  interval_cases m <;> cases leap y <;> decide

/-- The table of the months with its numbers. -/
theorem monthFromYearDay_table (l : Bool) (r : ℤ) :
    monthFromYearDay l r =
      let feb : ℤ := if l then 29 else 28
      if r < 31 then 0 else if r < 31 + feb then 1 else if r < 62 + feb then 2
      else if r < 92 + feb then 3 else if r < 123 + feb then 4 else if r < 153 + feb then 5
      else if r < 184 + feb then 6 else if r < 215 + feb then 7 else if r < 245 + feb then 8
      else if r < 276 + feb then 9 else if r < 306 + feb then 10 else 11 := by
  cases l <;> rfl

/-- The table of the months, read at a day of a month. -/
theorem monthFromYearDay_eq (y : ℤ) {m d : ℤ} (h₁ : 1 ≤ m) (h₂ : m ≤ 12) (hd : 1 ≤ d)
    (hd' : d ≤ monthLength y m) :
    monthFromYearDay (inLeapYear y) (daysBefore y m + d - 1) = m - 1 := by
  rw [inLeapYear_eq, monthFromYearDay_table]
  unfold monthLength at hd'
  unfold daysBefore
  generalize leap y = l at hd' ⊢
  interval_cases m <;> cases l <;> norm_num at hd' ⊢ <;> grind

variable {c : Date} {t : ℤ}

theorem getUTCFullYear_eq (h : t / msPerDay = c.dayNumber) : getUTCFullYear t = c.year := by
  rw [getUTCFullYear, h, yearFromDay_dayNumber]

theorem dayOfYear_eq (h : t / msPerDay = c.dayNumber) :
    dayOfYear t = daysBefore c.year c.month + c.day - 1 := by
  rw [dayOfYear, h, yearFromDay_dayNumber, dayFromYear_eq, Date.dayNumber]
  omega

theorem getUTCMonth_eq (h : t / msPerDay = c.dayNumber) : getUTCMonth t = c.month - 1 := by
  rw [getUTCMonth, getUTCFullYear_eq h, dayOfYear_eq h]
  exact monthFromYearDay_eq c.year c.month_mem.1 c.month_mem.2 c.day_mem.1 c.day_mem.2

theorem getUTCDate_eq (h : t / msPerDay = c.dayNumber) : getUTCDate t = c.day := by
  rw [getUTCDate, getUTCFullYear_eq h, getUTCMonth_eq h, dayOfYear_eq h,
    daysBeforeMonth_eq c.year c.month_mem.1 c.month_mem.2]
  omega

/-- The date of a time value on the UTC calendar. -/
def utcDate (t : ℤ) : Date where
  year := getUTCFullYear t
  month := getUTCMonth t + 1
  day := getUTCDate t
  month_mem := by
    obtain ⟨c, hc⟩ := exists_date (t / msPerDay)
    have := c.month_mem
    rw [getUTCMonth_eq hc.symm]
    omega
  day_mem := by
    obtain ⟨c, hc⟩ := exists_date (t / msPerDay)
    rw [getUTCDate_eq hc.symm, getUTCMonth_eq hc.symm, getUTCFullYear_eq hc.symm,
      sub_add_cancel]
    exact c.day_mem

theorem utcDate_eq (h : t / msPerDay = c.dayNumber) : utcDate t = c := by
  ext
  · exact getUTCFullYear_eq h
  · show getUTCMonth t + 1 = c.month
    rw [getUTCMonth_eq h, sub_add_cancel]
  · exact getUTCDate_eq h

@[simp] theorem dayNumber_utcDate (t : ℤ) : (utcDate t).dayNumber = t / msPerDay := by
  obtain ⟨c, hc⟩ := exists_date (t / msPerDay)
  rw [utcDate_eq hc.symm, hc]

/-- **A day later**: `setUTCDate(getUTCDate() + 1)` carries over the ends of months
and years. -/
theorem setUTCDate_next (t : ℤ) : setUTCDate t (getUTCDate t + 1) = timeClip (t + msPerDay) := by
  have hday : (utcDate t).dayNumber = t / msPerDay := dayNumber_utcDate t
  have hmake := makeDay_eq (utcDate t)
  have hmonth : (utcDate t).month - 1 = getUTCMonth t := add_sub_cancel_right _ _
  rw [hday, hmonth] at hmake
  have hstep : makeDay (getUTCFullYear t) (getUTCMonth t) (getUTCDate t + 1)
      = makeDay (getUTCFullYear t) (getUTCMonth t) (getUTCDate t) + 1 := by
    unfold makeDay
    dsimp only
    omega
  have hsplit := Int.mul_ediv_add_emod t msPerDay
  unfold setUTCDate
  rw [hstep,
    show makeDay (getUTCFullYear t) (getUTCMonth t) (getUTCDate t) = t / msPerDay from hmake]
  congr 1
  unfold msPerDay at hsplit ⊢
  omega

/-! ## The text -/

/-- `YYYY-MM-DD`. -/
def dateText (c : Date) : List Char :=
  padded 4 c.year.toNat ++ '-' :: (padded 2 c.month.toNat ++ '-' :: padded 2 c.day.toNat)

/-- The first ten characters of the ISO text: in a year that takes a sign and six digits
they end with the month. -/
def sliceText (c : Date) : List Char :=
  if 0 ≤ c.year ∧ c.year ≤ 9999 then dateText c
  else (if c.year < 0 then '-' else '+') :: (padded 6 c.year.natAbs
    ++ '-' :: padded 2 c.month.toNat)

/-- `toISOString().slice(0, 10)`. -/
theorem take_toISOString (t : ℤ) : (toISOString t).take 10 = sliceText (utcDate t) := by
  have hyear : getUTCFullYear t = (utcDate t).year := rfl
  have hmonth : getUTCMonth t + 1 = (utcDate t).month := rfl
  have hday : getUTCDate t = (utcDate t).day := rfl
  unfold toISOString sliceText isoYearText dateText
  dsimp only
  rw [hyear, hmonth, hday]
  split
  · simp [List.take_append, List.take_of_length_le]
  · simp [List.take_append, List.take_of_length_le]

theorem padded_inj {n k k' : ℕ} (hk : k < 10 ^ n) (hk' : k' < 10 ^ n)
    (h : padded n k = padded n k') : k = k' := by
  have hread := foldlM_padded hk
  rw [h, foldlM_padded hk'] at hread
  exact (Option.some.inj hread).symm

/-- A string names a date of a year of four digits if it is its text. -/
theorem calendarDate_iff {s : String} (hyear : 0 ≤ c.year ∧ c.year ≤ 9999) :
    calendarDate s = some c ↔ s.toList = dateText c := by
  have hm := c.month_mem
  have hd := c.day_mem
  have hlength : monthLength c.year c.month ≤ 31 := by
    unfold monthLength
    split_ifs <;> omega
  constructor
  · intro h
    obtain ⟨y1, y2, y3, y4, m1, m2, d1, d2, hs, y, m, d, hy, hm', hd', hcy, hcm, hcd⟩ :=
      calendarDate_eq_some h
    have hy4 := ((fixedDigits_iff (by decide)).mp hy).1
    have hm2 := ((fixedDigits_iff (by decide)).mp hm').1
    have hd2 := ((fixedDigits_iff (by decide)).mp hd').1
    rw [hs, dateText, hcy, hcm, hcd, Int.toNat_natCast, Int.toNat_natCast, Int.toNat_natCast,
      ← hy4, ← hm2, ← hd2]
    rfl
  · intro h
    have hy4 : fixedDigits 4 (padded 4 c.year.toNat) = some c.year.toNat :=
      (fixedDigits_iff (by decide)).mpr ⟨rfl, by omega⟩
    have hm2 : fixedDigits 2 (padded 2 c.month.toNat) = some c.month.toNat :=
      (fixedDigits_iff (by decide)).mpr ⟨rfl, by omega⟩
    have hd2 : fixedDigits 2 (padded 2 c.day.toNat) = some c.day.toNat :=
      (fixedDigits_iff (by decide)).mpr ⟨rfl, by omega⟩
    obtain ⟨y1, y2, y3, y4, hy⟩ : ∃ y1 y2 y3 y4, padded 4 c.year.toNat = [y1, y2, y3, y4] :=
      ⟨_, _, _, _, rfl⟩
    obtain ⟨m1, m2, hm'⟩ : ∃ m1 m2, padded 2 c.month.toNat = [m1, m2] := ⟨_, _, rfl⟩
    obtain ⟨d1, d2, hd'⟩ : ∃ d1 d2, padded 2 c.day.toNat = [d1, d2] := ⟨_, _, rfl⟩
    rw [hy] at hy4
    rw [hm'] at hm2
    rw [hd'] at hd2
    rw [dateText, hy, hm', hd'] at h
    unfold calendarDate
    simp only [h, List.cons_append, List.nil_append, hy4, hm2, hd2, Option.bind_some]
    have hfields : ((1 ≤ (c.month.toNat : ℤ) ∧ (c.month.toNat : ℤ) ≤ 12)
        ∧ 1 ≤ (c.day.toNat : ℤ)
          ∧ (c.day.toNat : ℤ) ≤ monthLength c.year.toNat c.month.toNat) := by
      rw [Int.toNat_of_nonneg hyear.1, Int.toNat_of_nonneg (by omega),
        Int.toNat_of_nonneg (by omega)]
      exact ⟨hm, hd⟩
    rw [dif_pos hfields, Option.some_inj]
    ext
    · exact Int.toNat_of_nonneg hyear.1
    · exact Int.toNat_of_nonneg (by omega)
    · exact Int.toNat_of_nonneg (by omega)

/-- The weekday of a date. -/
def weekday (c : Date) : ℤ := (c.dayNumber + 4) % 7

theorem getUTCDay_eq (t : ℤ) : getUTCDay t = weekday (utcDate t) := by
  rw [weekday, dayNumber_utcDate]
  rfl

theorem dateText_inj {a b : Date} (ha : 0 ≤ a.year ∧ a.year ≤ 9999)
    (hb : 0 ≤ b.year ∧ b.year ≤ 9999) (h : dateText a = dateText b) : a = b := by
  have hread := (@calendarDate_iff a (String.ofList (dateText a)) ha).mpr
    (String.toList_ofList)
  have hread' := (@calendarDate_iff b (String.ofList (dateText a)) hb).mpr
    (by rw [String.toList_ofList, h])
  exact Option.some.inj (hread.symm.trans hread')

/-- The text of a year of four digits begins with a digit. -/
theorem dateText_ne {sign : Char} (hsign : isDigit sign = false) (l : List Char) :
    dateText c ≠ sign :: l := by
  intro h
  have hmem : (padded 4 c.year.toNat).head? = some sign := by
    have hhead := congrArg List.head? h
    rw [dateText, List.head?_append_of_ne_nil _ (by simp [← List.length_eq_zero_iff])] at hhead
    exact hhead
  have hdigit := isDigit_padded sign (List.mem_of_head? hmem)
  rw [hsign] at hdigit
  cases hdigit

theorem signText_inj {a b : Date} (ha : a.year.natAbs < 1000000) (hb : b.year.natAbs < 1000000)
    (h : (if a.year < 0 then '-' else '+') :: (padded 6 a.year.natAbs
        ++ '-' :: padded 2 a.month.toNat)
      = (if b.year < 0 then '-' else '+') :: (padded 6 b.year.natAbs
        ++ '-' :: padded 2 b.month.toNat)) : a.year = b.year ∧ a.month = b.month := by
  have ham := a.month_mem
  have hbm := b.month_mem
  obtain ⟨hsign, hrest⟩ := List.cons.inj h
  obtain ⟨hyear, hmonth⟩ := List.append_inj hrest (by simp)
  have habs := padded_inj ha hb hyear
  have hmonth' := padded_inj (n := 2) (by omega) (by omega) (List.cons.inj hmonth).2
  have hneg : a.year < 0 ↔ b.year < 0 := by
    by_cases h₁ : a.year < 0 <;> by_cases h₂ : b.year < 0 <;> simp [h₁, h₂] at hsign ⊢
  omega

/-- Two dates have one sliced text if they are one date or, in a year that takes six
digits, in one month. -/
theorem sliceText_eq_iff {a b : Date} (ha : a.year.natAbs < 1000000)
    (hb : b.year.natAbs < 1000000) :
    sliceText a = sliceText b ↔ a.year = b.year ∧ a.month = b.month
      ∧ (0 ≤ a.year ∧ a.year ≤ 9999 → a.day = b.day) := by
  have hsign : ∀ y : ℤ, isDigit (if y < 0 then '-' else '+') = false := by
    intro y
    split <;> decide
  unfold sliceText
  by_cases hya : 0 ≤ a.year ∧ a.year ≤ 9999
  · by_cases hyb : 0 ≤ b.year ∧ b.year ≤ 9999
    · rw [if_pos hya, if_pos hyb]
      constructor
      · intro h
        rw [dateText_inj hya hyb h]
        exact ⟨rfl, rfl, fun _ => rfl⟩
      · rintro ⟨hyear, hmonth, hday⟩
        unfold dateText
        rw [hyear, hmonth, hday hya]
    · rw [if_pos hya, if_neg hyb]
      refine iff_of_false (dateText_ne (hsign _) _) ?_
      rintro ⟨hyear, -⟩
      exact hyb (hyear ▸ hya)
  · by_cases hyb : 0 ≤ b.year ∧ b.year ≤ 9999
    · rw [if_neg hya, if_pos hyb]
      refine iff_of_false (fun h => dateText_ne (hsign _) _ h.symm) ?_
      rintro ⟨hyear, -⟩
      exact hya (hyear ▸ hyb)
    · rw [if_neg hya, if_neg hyb]
      constructor
      · intro h
        obtain ⟨hyear, hmonth⟩ := signText_inj ha hb h
        exact ⟨hyear, hmonth, fun h => absurd h hya⟩
      · rintro ⟨hyear, hmonth, -⟩
        rw [hyear, hmonth]

/-- The years that time values reach. -/
theorem year_bound (h : -maxTime ≤ t ∧ t ≤ maxTime) : (utcDate t).year.natAbs < 1000000 := by
  have hmem := dayNumber_mem_year (utcDate t)
  rw [dayNumber_utcDate] at hmem
  unfold maxTime at h
  unfold yearStart msPerDay at hmem
  omega

end LeaveLedger
