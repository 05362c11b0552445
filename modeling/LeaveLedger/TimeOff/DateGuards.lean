import LeaveLedger.Ledger.Booking

/-!
# TimeOff — The date guards and the day count

`createRequest` reads its two dates twice: the guard of the start date and
`calculateDaysRequested` split them at the hyphens, the guard of the range
hands them to `new Date`. A text that only one of the two can read slips
past the second guard, since a comparison with `NaN` is false.
-/

namespace LeaveLedger

open Js Lib Calendar

/-- The UTC day number of a date text, read as `datesOverlap` reads it. -/
def utcDay (s : String) : Option ℤ := (utcOfDate s).map (· / msPerDay)

/-- `new Date` and the pieces at the hyphens name the same time. -/
def ReadAlike (s : String) : Prop := midnightUTC s = utcOfDate s

/-- The day of the pieces of `s` is not after that of the pieces of `e`. -/
def InOrder (s e : String) : Prop := ∃ a b, utcDay s = some a ∧ utcDay e = some b ∧ a ≤ b

/-- `calculateDaysRequested` counts the days from the start to the end. -/
def DaysCounted (startDate endDate : String) : Prop :=
  ∃ a b n, utcDay startDate = some a ∧ utcDay endDate = some b ∧ a ≤ b
    ∧ calculateDaysRequested startDate endDate = some n ∧ 1 ≤ n ∧ n = b - a + 1

/-! ## Days -/

/-- `Date.UTC` of a date is the start of a day. -/
theorem dvd_of_utcOfDate {s : String} {t : ℤ} (h : utcOfDate s = some t) : msPerDay ∣ t := by
  obtain ⟨y, -, h⟩ := Option.bind_eq_some_iff.mp h
  obtain ⟨m, -, h⟩ := Option.bind_eq_some_iff.mp h
  obtain ⟨d, -, h⟩ := Option.bind_eq_some_iff.mp h
  simp only [timeClip, Option.ite_none_right_eq_some, Option.some.injEq] at h
  obtain ⟨-, rfl⟩ := h
  exact dvd_mul_left _ _

theorem utcDay_eq_some {s : String} {a : ℤ} :
    utcDay s = some a ↔ utcOfDate s = some (a * msPerDay) := by
  constructor
  · intro h
    obtain ⟨t, ht, rfl⟩ := Option.map_eq_some_iff.mp h
    rw [ht, Int.ediv_mul_cancel (dvd_of_utcOfDate ht)]
  · intro h
    have hpos : msPerDay ≠ 0 := by decide
    rw [utcDay, h, Option.map_some, Int.mul_ediv_cancel _ hpos]

/-- The days that `datesOverlap` compares. -/
theorem datesOverlap_eq_true {s1 e1 s2 e2 : String} :
    datesOverlap s1 e1 s2 e2 = true ↔ ∃ a1 b1 a2 b2, utcDay s1 = some a1 ∧ utcDay e1 = some b1
      ∧ utcDay s2 = some a2 ∧ utcDay e2 = some b2 ∧ a1 ≤ b2 ∧ a2 ≤ b1 := by
  have hday : ∀ {a b : ℤ}, a * msPerDay ≤ b * msPerDay ↔ a ≤ b := by
    intro a b
    simp only [msPerDay]
    omega
  constructor
  · intro h
    unfold datesOverlap at h
    split at h
    · next t1 u1 t2 u2 h1 h2 h3 h4 =>
      obtain ⟨a1, rfl⟩ := dvd_of_utcOfDate h1
      obtain ⟨b1, rfl⟩ := dvd_of_utcOfDate h2
      obtain ⟨a2, rfl⟩ := dvd_of_utcOfDate h3
      obtain ⟨b2, rfl⟩ := dvd_of_utcOfDate h4
      simp only [mul_comm msPerDay] at h h1 h2 h3 h4
      rw [Bool.and_eq_true, decide_eq_true_eq, decide_eq_true_eq, hday, hday] at h
      exact ⟨a1, b1, a2, b2, utcDay_eq_some.mpr h1, utcDay_eq_some.mpr h2,
        utcDay_eq_some.mpr h3, utcDay_eq_some.mpr h4, h.1, h.2⟩
    · cases h
  · rintro ⟨a1, b1, a2, b2, h1, h2, h3, h4, hle, hle'⟩
    rw [utcDay_eq_some] at h1 h2 h3 h4
    simp only [datesOverlap, h1, h2, h3, h4, Bool.and_eq_true, decide_eq_true_eq]
    exact ⟨hday.mpr hle, hday.mpr hle'⟩

/-- The count of two days that are in order. -/
theorem calculateDaysRequested_eq {s e : String} {a b : ℤ} (ha : utcDay s = some a)
    (hb : utcDay e = some b) (hle : a ≤ b) : calculateDaysRequested s e = some (b - a + 1) := by
  rw [utcDay_eq_some] at ha hb
  simp only [calculateDaysRequested, ha, hb, Option.bind_some, Option.map_some,
    Option.some.injEq, msPerDay]
  omega

/-! ## The guards -/

/-- A start date that is not in the past is one that the pieces name. -/
theorem utcDay_of_isNotInPast {now : ℤ} {s : String} (h : isNotInPast now s = true) :
    ∃ a, utcDay s = some a := by
  unfold isNotInPast at h
  split at h
  · next t ht => exact ⟨_, by rw [utcDay, ht, Option.map_some]⟩
  · cases h

/-- The guard of the range orders what both read alike. -/
theorem inOrder_of_readAlike {dto : CreateTimeOffRequestDto} {a b : ℤ}
    (hends : endsBeforeStart dto = false) (hs : ReadAlike dto.startDate)
    (he : ReadAlike dto.endDate) (ha : utcDay dto.startDate = some a)
    (hb : utcDay dto.endDate = some b) : a ≤ b := by
  have hstart := hs.trans (utcDay_eq_some.mp ha)
  have hend := he.trans (utcDay_eq_some.mp hb)
  simp only [endsBeforeStart, hstart, hend, decide_eq_false_iff_not, not_lt, msPerDay] at hends
  omega

/-- **The day count**: for all texts that pass the guards of `createRequest`, the days
requested are the days from the start to the end exactly when the end date can be read
at its hyphens and, unless `new Date` reads both texts the same way, is not before the
start. -/
theorem days_counted_iff (now : ℤ) (dto : CreateTimeOffRequestDto)
    (hpast : isNotInPast now dto.startDate = true) (hends : endsBeforeStart dto = false) :
    DaysCounted dto.startDate dto.endDate
      ↔ (utcDay dto.endDate).isSome
        ∧ (¬ (ReadAlike dto.startDate ∧ ReadAlike dto.endDate) →
          InOrder dto.startDate dto.endDate) := by
  constructor
  · rintro ⟨a, b, n, ha, hb, hle, -, -, -⟩
    exact ⟨by rw [hb]; rfl, fun _ => ⟨a, b, ha, hb, hle⟩⟩
  · rintro ⟨hsome, horder⟩
    obtain ⟨a, ha⟩ := utcDay_of_isNotInPast hpast
    obtain ⟨b, hb⟩ := Option.isSome_iff_exists.mp hsome
    have hle : a ≤ b := by
      by_cases halike : ReadAlike dto.startDate ∧ ReadAlike dto.endDate
      · exact inOrder_of_readAlike hends halike.1 halike.2 ha hb
      · obtain ⟨a', b', ha', hb', hle⟩ := horder halike
        rw [ha] at ha'
        rw [hb] at hb'
        cases ha'
        cases hb'
        exact hle
    exact ⟨a, b, b - a + 1, ha, hb, hle, calculateDaysRequested_eq ha hb hle, by omega, rfl⟩

/-- A range in the form that the payload is documented to have. -/
def plainRange : CreateTimeOffRequestDto :=
  ⟨"EMP001", "LOC001", .vacation, "2030-01-30", "2030-02-02", none⟩

theorem days_counted_iff_plain :
    isNotInPast 0 plainRange.startDate = true ∧ endsBeforeStart plainRange = false
      ∧ (utcDay plainRange.endDate).isSome = true
      ∧ InOrder plainRange.startDate plainRange.endDate
      ∧ DaysCounted plainRange.startDate plainRange.endDate := by
  have hpast : isNotInPast 0 plainRange.startDate = true := by decide +kernel
  have hends : endsBeforeStart plainRange = false := by decide +kernel
  have hday : (utcDay plainRange.endDate).isSome = true := by decide +kernel
  have horder : InOrder plainRange.startDate plainRange.endDate :=
    ⟨21944, 21947, by decide +kernel, by decide +kernel, by decide⟩
  exact ⟨hpast, hends, hday, horder,
    (days_counted_iff 0 plainRange hpast hends).mpr ⟨hday, fun _ => horder⟩⟩

/-- An end date without a day passes both guards, and the days requested are `NaN`. Without
leading zeros a range may end before it starts, and one day is counted. -/
theorem days_not_counted :
    (isNotInPast 0 "2030-01-05" = true
      ∧ endsBeforeStart ⟨"EMP001", "LOC001", .vacation, "2030-01-05", "2030-02", none⟩ = false
      ∧ calculateDaysRequested "2030-01-05" "2030-02" = none
      ∧ ¬ DaysCounted "2030-01-05" "2030-02")
    ∧ isNotInPast 0 "2030-1-5" = true
      ∧ endsBeforeStart ⟨"EMP001", "LOC001", .vacation, "2030-1-5", "2030-1-1", none⟩ = false
      ∧ calculateDaysRequested "2030-1-5" "2030-1-1" = some 1
      ∧ ¬ DaysCounted "2030-1-5" "2030-1-1" := by
  have hnan : calculateDaysRequested "2030-01-05" "2030-02" = none := by decide +kernel
  have hone : calculateDaysRequested "2030-1-5" "2030-1-1" = some 1 := by decide +kernel
  refine ⟨⟨by decide +kernel, by decide +kernel, hnan, ?_⟩, by decide +kernel, by decide +kernel,
    hone, ?_⟩
  · rintro ⟨a, b, n, -, -, -, hn, -, -⟩
    rw [hnan] at hn
    cases hn
  · rintro ⟨a, b, n, ha, hb, hle, -, -, -⟩
    have hstart : utcDay "2030-1-5" = some 21919 := by decide +kernel
    have hend : utcDay "2030-1-1" = some 21915 := by decide +kernel
    rw [hstart] at ha
    rw [hend] at hb
    cases ha
    cases hb
    omega

/-- Two dates `YYYY-MM-DD` of the calendar are always counted. -/
theorem Dated.counted {startDate endDate : String} {days : ℚ} {a b : Date}
    (h : Dated startDate endDate days a b) : DaysCounted startDate endDate := by
  have ha := utcDay_eq_some.mpr h.utcStart
  have hb := utcDay_eq_some.mpr h.utcEnd
  have hle := Date.dayNumber_le_iff.mpr h.le
  exact ⟨_, _, _, ha, hb, hle, calculateDaysRequested_eq ha hb hle, by omega, rfl⟩

end LeaveLedger
