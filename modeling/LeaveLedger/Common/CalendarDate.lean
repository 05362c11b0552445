import LeaveLedger.Common.DateUtil
import LeaveLedger.Js.DateFields
import LeaveLedger.Lib.Calendar
import Mathlib.Data.List.TakeWhile
import Mathlib.Tactic.IntervalCases

/-!
# Common — Calendar dates as strings

`calendarDate` reads a string `YYYY-MM-DD` as the date it names. The two
readings of the code agree with it: `new Date(s + 'T00:00:00Z')` always,
and the pieces handed to `Date.UTC` from the year 100 on, where it no
longer takes a year for one of the twentieth century.
-/

namespace LeaveLedger

open Js Lib Calendar

/-- The date that a string `YYYY-MM-DD` names. -/
def calendarDate (s : String) : Option Date :=
  match s.toList with
  | [y1, y2, y3, y4, '-', m1, m2, '-', d1, d2] =>
      (fixedDigits 4 [y1, y2, y3, y4]).bind fun y =>
        (fixedDigits 2 [m1, m2]).bind fun m =>
          (fixedDigits 2 [d1, d2]).bind fun d =>
            if h : (1 ≤ (m : ℤ) ∧ (m : ℤ) ≤ 12) ∧ 1 ≤ (d : ℤ) ∧ (d : ℤ) ≤ monthLength y m then
              some ⟨y, m, d, h.1, h.2⟩
            else none
  | _ => none

example : (calendarDate "2030-02-28").isSome = true := by decide +kernel
example : calendarDate "2030-02-29" = none := by decide +kernel

/-! ## Numerals -/

theorem isSpace_of_isDigit {c : Char} (h : isDigit c = true) : isSpace c = false := by
  have h' : 48 ≤ c.toNat ∧ c.toNat ≤ 57 := by simpa [isDigit] using h
  simp only [isSpace, Bool.or_eq_false_iff, Bool.and_eq_false_iff, decide_eq_false_iff_not,
    beq_eq_false_iff_ne, ne_eq]
  omega

theorem trim_digits {cs : List Char} (h : ∀ c ∈ cs, isDigit c = true) : trim cs = cs :=
  trim_of_all fun c hc => isSpace_of_isDigit (h c hc)

theorem decimalLiteral_digits {cs : List Char} {n : ℕ} (h : ∀ c ∈ cs, isDigit c = true)
    (hn : radixNumeral 10 cs = some n) : decimalLiteral cs = some (n : ℚ) := by
  have htake : cs.takeWhile isDigit = cs := List.takeWhile_eq_self_iff.mpr h
  have hdrop : cs.dropWhile isDigit = [] := List.dropWhile_eq_nil_iff.mpr h
  unfold decimalLiteral
  simp [htake, hdrop, hn]

/-- `Number` of a numeral. -/
theorem toNumber_digits {cs : List Char} {n : ℕ} (h : ∀ c ∈ cs, isDigit c = true)
    (hn : radixNumeral 10 cs = some n) : toNumber cs = some (n : ℚ) := by
  have hno : ∀ c, isDigit c = false → c ∉ cs := fun c hc hmem => by
    rw [h c hmem] at hc
    cases hc
  unfold toNumber
  rw [trim_digits h]
  split
  · cases hn
  · exact absurd (by simp) (hno 'x' (by decide))
  · exact absurd (by simp) (hno 'X' (by decide))
  · exact absurd (by simp) (hno 'o' (by decide))
  · exact absurd (by simp) (hno 'O' (by decide))
  · exact absurd (by simp) (hno 'b' (by decide))
  · exact absurd (by simp) (hno 'B' (by decide))
  · exact absurd (by simp) (hno '+' (by decide))
  · exact absurd (by simp) (hno '-' (by decide))
  · exact decimalLiteral_digits h hn

theorem fixedDigits_spec {k n : ℕ} {cs : List Char} (h : fixedDigits k cs = some n) :
    cs.length = k ∧ (∀ c ∈ cs, isDigit c = true) ∧ radixNumeral 10 cs = some n := by
  unfold fixedDigits at h
  split at h
  · rename_i hcs
    exact ⟨hcs.1, List.all_eq_true.mp hcs.2, h⟩
  · cases h

/-- A numeral has fewer than one more digit. -/
theorem radixNumeral_lt {cs : List Char} {n : ℕ} (h : ∀ c ∈ cs, isDigit c = true)
    (hn : radixNumeral 10 cs = some n) : n < 10 ^ cs.length := by
  cases cs with
  | nil => cases hn
  | cons c rest =>
      rw [radixNumeral_eq (List.cons_ne_nil c rest)] at hn
      exact (eq_padded h hn).2

/-! ## Reading a date -/

/-- The characters of a string that names a date, and its three numerals. -/
theorem calendarDate_eq_some {s : String} {c : Date} (h : calendarDate s = some c) :
    ∃ y1 y2 y3 y4 m1 m2 d1 d2, s.toList = [y1, y2, y3, y4, '-', m1, m2, '-', d1, d2]
      ∧ ∃ y m d : ℕ, fixedDigits 4 [y1, y2, y3, y4] = some y ∧ fixedDigits 2 [m1, m2] = some m
        ∧ fixedDigits 2 [d1, d2] = some d ∧ c.year = y ∧ c.month = m ∧ c.day = d := by
  unfold calendarDate at h
  split at h
  · rename_i y1 y2 y3 y4 m1 m2 d1 d2 hs
    obtain ⟨y, hy, h⟩ := Option.bind_eq_some_iff.mp h
    obtain ⟨m, hm, h⟩ := Option.bind_eq_some_iff.mp h
    obtain ⟨d, hd, h⟩ := Option.bind_eq_some_iff.mp h
    split at h
    · cases h
      exact ⟨y1, y2, y3, y4, m1, m2, d1, d2, hs, y, m, d, hy, hm, hd, rfl, rfl, rfl⟩
    · cases h
  · cases h

/-- A year of four digits. -/
theorem year_of_calendarDate {s : String} {c : Date} (h : calendarDate s = some c) :
    0 ≤ c.year ∧ c.year ≤ 9999 := by
  obtain ⟨y1, y2, y3, y4, m1, m2, d1, d2, -, y, m, d, hy, -, -, hyear, -, -⟩ :=
    calendarDate_eq_some h
  obtain ⟨-, hdigits, hn⟩ := fixedDigits_spec hy
  have hlt := radixNumeral_lt hdigits hn
  simp only [List.length_cons, List.length_nil] at hlt
  omega

theorem inLeapYear_eq (y : ℤ) : inLeapYear y = leap y := by
  have h4 : y % 400 = 0 → y % 4 = 0 := by omega
  rw [Bool.eq_iff_iff, leap_iff]
  simp only [inLeapYear, Bool.or_eq_true, Bool.and_eq_true, beq_iff_eq, bne_iff_ne, ne_eq]
  tauto

/-- `MakeDay` of the fields of a date. -/
theorem makeDay_eq (c : Date) : makeDay c.year (c.month - 1) c.day = c.dayNumber := by
  have hm := c.month_mem
  have hcarry : (c.month - 1) / 12 = 0 := by omega
  have hmod : (c.month - 1) % 12 = c.month - 1 := by omega
  have hbefore : daysBeforeMonth (leap c.year) (c.month - 1) = daysBefore c.year c.month := by
    unfold daysBeforeMonth daysBefore
    generalize c.month = m at hm
    obtain ⟨h1, h2⟩ := hm
    interval_cases m <;> cases leap c.year <;> decide
  unfold makeDay Date.dayNumber
  simp only [hcarry, hmod, add_zero, inLeapYear_eq, hbefore]
  rfl

theorem toInteger_intCast (n : ℤ) : toInteger (n : ℚ) = n := by
  simp [toInteger]

theorem ne_hyphen_of_isDigit {c : Char} (h : isDigit c = true) : (c == '-') = false := by
  rw [beq_eq_false_iff_ne]
  rintro rfl
  revert h
  decide

/-- `Date.UTC` of the pieces of a string that names a date: a year below 100 is
taken for one of the twentieth century. -/
theorem utcOfDate_eq {s : String} {c : Date} (h : calendarDate s = some c) :
    utcOfDate s = timeClip
      (makeDay (if c.year ≤ 99 then 1900 + c.year else c.year) (c.month - 1) c.day * msPerDay) := by
  have hyear := year_of_calendarDate h
  obtain ⟨y1, y2, y3, y4, m1, m2, d1, d2, hs, y, m, d, hy, hm, hd, hcy, hcm, hcd⟩ :=
    calendarDate_eq_some h
  obtain ⟨-, hydig, hyn⟩ := fixedDigits_spec hy
  obtain ⟨-, hmdig, hmn⟩ := fixedDigits_spec hm
  obtain ⟨-, hddig, hdn⟩ := fixedDigits_spec hd
  have hsplit : s.toList.splitOn '-' = [[y1, y2, y3, y4], [m1, m2], [d1, d2]] := by
    have hy' := fun x hx => ne_hyphen_of_isDigit (hydig x hx)
    have hm' := fun x hx => ne_hyphen_of_isDigit (hmdig x hx)
    have hd' := fun x hx => ne_hyphen_of_isDigit (hddig x hx)
    simp only [List.mem_cons, List.not_mem_nil, or_false, forall_eq_or_imp, forall_eq]
      at hy' hm' hd'
    rw [hs]
    simp [List.splitOn, List.splitOnP_cons_eq_if_modifyHead, hy', hm', hd']
  unfold utcOfDate
  rw [hsplit]
  simp only [List.map_cons, List.map_nil, List.getElem?_cons_zero, List.getElem?_cons_succ,
    Option.join_some, toNumber_digits hydig hyn, toNumber_digits hmdig hmn,
    toNumber_digits hddig hdn, Option.map_some, dateUTC, Option.bind_some]
  have hty : toInteger (y : ℚ) = c.year := by
    rw [hcy]
    exact toInteger_intCast y
  have htm : toInteger ((m : ℚ) - 1) = c.month - 1 := by
    have hcast : (m : ℚ) - 1 = ((m - 1 : ℤ) : ℚ) := by push_cast; rfl
    rw [hcm, hcast]
    exact toInteger_intCast _
  have htd : toInteger (d : ℚ) = c.day := by
    rw [hcd]
    exact toInteger_intCast d
  rw [hty, htm, htd]
  by_cases h99 : c.year ≤ 99
  · rw [if_pos h99, if_pos ⟨hyear.1, h99⟩]
  · rw [if_neg h99, if_neg fun h => h99 h.2]

/-- The reading of the ISO parser. -/
theorem midnightUTC_eq {s : String} {c : Date} (h : calendarDate s = some c) :
    midnightUTC s = timeClip (c.dayNumber * msPerDay) := by
  have hmonth := c.month_mem
  have hday : 1 ≤ c.day ∧ c.day ≤ 31 := by
    have hd := c.day_mem
    unfold monthLength at hd
    split_ifs at hd <;> omega
  obtain ⟨y1, y2, y3, y4, m1, m2, d1, d2, hs, y, m, d, hy, hm, hd, hcy, hcm, hcd⟩ :=
    calendarDate_eq_some h
  obtain ⟨-, hydig, -⟩ := fixedDigits_spec hy
  have hsign : y1 ≠ '+' ∧ y1 ≠ '-' := by
    have h1 := hydig y1 (by simp)
    constructor
    · rintro rfl; revert h1; decide
    · rintro rfl; revert h1; decide
  have hyear : isoYear s.toList = some ((y : ℤ), ['-', m1, m2, '-', d1, d2]) := by
    rw [hs]
    unfold isoYear
    split
    · rename_i heq
      exact absurd (List.cons.inj heq).1 hsign.1
    · rename_i heq
      exact absurd (List.cons.inj heq).1 hsign.2
    · simp [hy]
  have hfield : ∀ {hi n : ℕ} {a b : Char} {r : List Char}, fixedDigits 2 [a, b] = some n →
      1 ≤ n ∧ n ≤ hi → isoField hi ('-' :: a :: b :: r) = some ((n : ℤ), r) := by
    intro hi n a b r hn hrange
    simp [isoField, hn, hrange]
  unfold midnightUTC
  rw [hyear]
  simp only [Option.bind_some, hfield hm (show 1 ≤ m ∧ m ≤ 12 by omega),
    hfield hd (show 1 ≤ d ∧ d ≤ 31 by omega), if_true]
  rw [← hcy, ← hcm, ← hcd, makeDay_eq]

/-! ## The days of a year of four digits -/

/-- A day of a month is one of at most 366. -/
theorem dayOfYear_le (l : Bool) (y : ℤ) {m : ℤ} (h1 : 1 ≤ m) (h2 : m ≤ 12) :
    daysBeforeMonth l (m - 1) + monthLength y m
      ≤ if l = true ∨ leap y = true then 366 else 365 := by
  unfold monthLength
  interval_cases m <;> cases l <;> cases leap y <;> decide

theorem dayNumber_bounds {c : Date} (h : 0 ≤ c.year ∧ c.year ≤ 9999) :
    -1000000 ≤ c.dayNumber ∧ c.dayNumber ≤ 4000000 := by
  have hm := c.month_mem
  have hd := c.day_mem
  have hlength : monthLength c.year c.month ≤ 31 := by
    unfold monthLength
    split_ifs <;> omega
  have hbefore : 0 ≤ daysBefore c.year c.month ∧ daysBefore c.year c.month ≤ 366 := by
    unfold daysBefore
    split_ifs <;> omega
  unfold Date.dayNumber yearStart
  omega

theorem timeClip_dayNumber {c : Date} (h : 0 ≤ c.year ∧ c.year ≤ 9999) :
    timeClip (c.dayNumber * msPerDay) = some (c.dayNumber * msPerDay) := by
  have hb := dayNumber_bounds h
  unfold timeClip msPerDay
  rw [if_pos]
  omega

/-- From the year 100 on `Date.UTC` agrees. -/
theorem utcOfDate_of_calendarDate {s : String} {c : Date} (h : calendarDate s = some c)
    (hyear : 100 ≤ c.year) : utcOfDate s = some (c.dayNumber * msPerDay) := by
  rw [utcOfDate_eq h, if_neg (by omega), makeDay_eq,
    timeClip_dayNumber (year_of_calendarDate h)]

/-- The days requested between two dates. -/
theorem calculateDaysRequested_of_calendarDate {s e : String} {a b : Date}
    (hs : calendarDate s = some a) (he : calendarDate e = some b) (ha : 100 ≤ a.year)
    (hb : 100 ≤ b.year) (hle : a ≤ b) :
    calculateDaysRequested s e = some (b.dayNumber + 1 - a.dayNumber) := by
  have hnum := Date.dayNumber_le_iff.mpr hle
  simp only [calculateDaysRequested, utcOfDate_of_calendarDate hs ha,
    utcOfDate_of_calendarDate he hb, Option.bind_some, Option.map_some, Option.some.injEq,
    msPerDay]
  omega

theorem midnightUTC_of_calendarDate {s : String} {c : Date} (h : calendarDate s = some c) :
    midnightUTC s = some (c.dayNumber * msPerDay) := by
  rw [midnightUTC_eq h, timeClip_dayNumber (year_of_calendarDate h)]

/-- 2000-01-01. -/
def millennium : ℤ := 10957 * msPerDay

/-- A year below 100 is taken for one before 2000. -/
theorem utcOfDate_lt_millennium {s : String} {c : Date} {t : ℤ} (h : calendarDate s = some c)
    (hyear : c.year ≤ 99) (ht : utcOfDate s = some t) : t < millennium := by
  have hm := c.month_mem
  have hd := c.day_mem
  rw [utcOfDate_eq h, if_pos hyear] at ht
  unfold timeClip at ht
  split at ht
  · cases ht
    have hday := dayOfYear_le (inLeapYear (1900 + c.year)) c.year hm.1 hm.2
    have hcarry : (c.month - 1) / 12 = 0 := by omega
    have hmod : (c.month - 1) % 12 = c.month - 1 := by omega
    simp only [makeDay, hcarry, hmod, add_zero, dayFromYear, millennium, msPerDay]
    by_cases h99 : c.year = 99
    · -- neither 99 nor 1999 is a leap year
      have h1 : inLeapYear (1900 + c.year) = false := by rw [h99]; decide
      have h2 : leap c.year = false := by rw [h99]; decide
      rw [if_neg (by simp [h1, h2])] at hday
      omega
    · have h366 : daysBeforeMonth (inLeapYear (1900 + c.year)) (c.month - 1) + c.day ≤ 366 := by
        split_ifs at hday <;> omega
      omega
  · cases ht

end LeaveLedger
