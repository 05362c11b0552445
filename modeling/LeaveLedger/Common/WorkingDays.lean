import LeaveLedger.Common.UTCDate

/-!
# Common — Working days

`calculateWorkingDays` of `common/utils/date.util`, and the loop that it
shares with `countBusinessDays`: it steps a date by `setUTCDate` and looks at
its weekday and at the first ten characters of its text. The loop counts the
dates from the first to the last on which the time of day that it started
with is not too late (`countDays_eq`).
-/

namespace LeaveLedger

open Js Lib

/-- The days from `current` on that `counts` takes by their weekday and text, up to the
time `last`; none for an invalid date. -/
def countDays (counts : ℤ → List Char → Bool) (last : ℤ) : Option ℤ → ℕ
  | none => 0
  | some current =>
      if current ≤ last then
        (if counts (getUTCDay current) ((toISOString current).take 10) then 1 else 0)
          + countDays counts last (setUTCDate current (getUTCDate current + 1))
      else 0
termination_by current => current.elim 0 fun current => (last + 1 - current).toNat
decreasing_by
  rw [setUTCDate_next]
  cases hnext : timeClip (current + msPerDay) with
  | none =>
      simp only [Option.elim]
      omega
  | some t =>
      obtain ⟨-, -, rfl⟩ := timeClip_eq_some.mp hnext
      simp only [Option.elim, msPerDay]
      omega

/-- `calculateWorkingDays`. A date that is `NaN` is not before any other. -/
def calculateWorkingDays (startDate endDate : String) (weekendDays : List ℤ := [0, 6])
    (holidays : List String := []) : ℕ :=
  match utcOfDate endDate with
  | none => 0
  | some last =>
      countDays
        (fun dayOfWeek isoString =>
          !weekendDays.contains dayOfWeek && !holidays.contains (String.ofList isoString))
        last (utcOfDate startDate)

/-! ## The loop -/

/-- **The loop counts dates**: those from the date of `t` on whose time, at the time of
day of `t`, is at most `last`. -/
theorem countDays_eq (counts : ℤ → List Char → Bool) {last t : ℤ} (hlast : last ≤ maxTime)
    (ht : -maxTime ≤ t) :
    countDays counts last (some t)
      = Date.count (fun d => counts (weekday d) (sliceText d) = true) (utcDate t)
          (utcDate (last - t % msPerDay)) := by
  generalize hcurrent : some t = current
  fun_induction countDays counts last current generalizing t with
  | case1 => cases hcurrent
  | case2 u hle ih =>
      obtain rfl : t = u := Option.some.inj hcurrent
      have hday : utcDate t ≤ utcDate (last - t % msPerDay) := by
        rw [← Date.dayNumber_le_iff, dayNumber_utcDate, dayNumber_utcDate]
        unfold msPerDay
        omega
      have hrest : countDays counts last (setUTCDate t (getUTCDate t + 1))
          = Date.count (fun d => counts (weekday d) (sliceText d) = true) (utcDate t).next
              (utcDate (last - t % msPerDay)) := by
        cases hnext : timeClip (t + msPerDay) with
        | none =>
            -- the day after is out of range, so the last one is reached
            have hout : maxTime < t + msPerDay := by
              by_contra hin
              have hclip := timeClip_eq_some.mpr
                ⟨show -maxTime ≤ t + msPerDay by unfold msPerDay; omega, not_lt.mp hin, rfl⟩
              rw [hnext] at hclip
              cases hclip
            rw [setUTCDate_next, hnext, countDays, Date.count_of_lt]
            rw [← Date.dayNumber_lt_iff, Date.dayNumber_next, dayNumber_utcDate,
              dayNumber_utcDate]
            unfold msPerDay at hout ⊢
            omega
        | some t' =>
            obtain ⟨hlow, -, rfl⟩ := timeClip_eq_some.mp hnext
            have hdate : utcDate (t + msPerDay) = (utcDate t).next := by
              refine utcDate_eq ?_
              rw [Date.dayNumber_next, dayNumber_utcDate]
              unfold msPerDay
              omega
            have htime : (t + msPerDay) % msPerDay = t % msPerDay := Int.add_emod_right _ _
            have hstep := ih hlow (by rw [setUTCDate_next, hnext])
            rw [hdate, htime] at hstep
            exact hstep
      rw [hrest, getUTCDay_eq, take_toISOString, Date.count_next hday]
  | case3 u hgt =>
      obtain rfl : t = u := Option.some.inj hcurrent
      rw [Date.count_of_lt]
      rw [← Date.dayNumber_lt_iff, dayNumber_utcDate, dayNumber_utcDate]
      unfold msPerDay
      omega

/-! ## Working dates -/

/-- The date is no weekend day and no holiday. -/
def WorkingDate (weekendDays : List ℤ) (holidays : List String) (d : Date) : Prop :=
  weekday d ∉ weekendDays ∧ ∀ h ∈ holidays, calendarDate h ≠ some d

/-- The text of a date of four digits is among the holidays if one of them names it. -/
theorem contains_sliceText {holidays : List String} {d : Date}
    (hyear : 0 ≤ d.year ∧ d.year ≤ 9999) :
    holidays.contains (String.ofList (sliceText d)) = true
      ↔ ∃ h ∈ holidays, calendarDate h = some d := by
  rw [List.contains_iff_mem, sliceText, if_pos hyear]
  constructor
  · intro hmem
    exact ⟨_, hmem, (calendarDate_iff hyear).mpr String.toList_ofList⟩
  · rintro ⟨h, hmem, hdate⟩
    rw [← (calendarDate_iff hyear).mp hdate, String.ofList_toList]
    exact hmem

/-- A date between two others has a year between theirs. -/
theorem year_mem {a b d : Date} (had : a ≤ d) (hdb : d ≤ b) :
    a.year ≤ d.year ∧ d.year ≤ b.year := by
  have hle : ∀ {x y : Date}, x ≤ y → x.year ≤ y.year := by
    intro x y hxy
    by_contra hlt
    exact absurd hxy (not_le.mpr (Date.lt_iff.mpr (Or.inl (not_le.mp hlt))))
  exact ⟨hle had, hle hdb⟩

/-- The date at midnight. -/
theorem utcDate_midnight (c : Date) : utcDate (c.dayNumber * msPerDay) = c := by
  refine utcDate_eq ?_
  unfold msPerDay
  omega

theorem midnight_mem {c : Date} (h : 0 ≤ c.year ∧ c.year ≤ 9999) :
    -maxTime ≤ c.dayNumber * msPerDay ∧ c.dayNumber * msPerDay ≤ maxTime := by
  obtain ⟨hlow, hhigh, -⟩ := timeClip_eq_some.mp (timeClip_dayNumber h)
  exact ⟨hlow, hhigh⟩

variable {s e : String} {a b : Date}

/-- **Exactly the working dates are counted.** -/
theorem calculateWorkingDays_eq (hs : calendarDate s = some a) (he : calendarDate e = some b)
    (ha : 100 ≤ a.year) (hb : 100 ≤ b.year) (weekendDays : List ℤ) (holidays : List String) :
    calculateWorkingDays s e weekendDays holidays
      = Date.count (WorkingDate weekendDays holidays) a b := by
  have hyeara := year_of_calendarDate hs
  have hyearb := year_of_calendarDate he
  have htime : a.dayNumber * msPerDay % msPerDay = 0 := Int.mul_emod_left _ _
  rw [calculateWorkingDays, utcOfDate_of_calendarDate hs ha, utcOfDate_of_calendarDate he hb]
  dsimp only
  rw [countDays_eq _ (midnight_mem hyearb).2 (midnight_mem hyeara).1, htime, sub_zero,
    utcDate_midnight, utcDate_midnight]
  refine Date.count_congr fun d had hdb => ?_
  have hyear := year_mem had hdb
  rw [Bool.and_eq_true, Bool.not_eq_true', Bool.not_eq_true', ← Bool.not_eq_true,
    ← Bool.not_eq_true, contains_sliceText (by omega), List.contains_iff_mem, WorkingDate]
  simp only [not_exists, not_and, ne_eq]

/-- Without weekends and holidays all dates are, as `calculateDaysRequested` counts them. -/
theorem calculateDaysRequested_eq_workingDays (hs : calendarDate s = some a)
    (he : calendarDate e = some b) (ha : 100 ≤ a.year) (hb : 100 ≤ b.year) (hle : a ≤ b) :
    calculateDaysRequested s e = some (calculateWorkingDays s e [] [] : ℤ) := by
  have hevery : ∀ d, a ≤ d → d ≤ b → WorkingDate [] [] d := by
    intro d _ _
    exact ⟨List.not_mem_nil, fun h hmem => absurd hmem List.not_mem_nil⟩
  have hnum := Date.dayNumber_le_iff.mpr hle
  rw [calculateDaysRequested_of_calendarDate hs he ha hb hle,
    calculateWorkingDays_eq hs he ha hb, Date.count_true hevery, Date.ncard_Icc,
    Int.toNat_of_nonneg (by omega)]

end LeaveLedger
