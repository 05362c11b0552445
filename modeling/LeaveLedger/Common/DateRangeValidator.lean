import LeaveLedger.Common.WorkingDays
import LeaveLedger.Js.DateParse

/-!
# Common — DateRangeValidator

`countBusinessDays` of `common/utils/date-range-validator.util`. Its loop
carries the time of day of the start along, so that the last date is missed
where the start is later in the day than the end; and it holds the first ten
characters of a date against those of the holidays, which in a year of six
digits are the same for a whole month. Otherwise it counts the business days
of the range.
-/

namespace LeaveLedger

open Js Lib

/-- `current > end`, which no `NaN` is. -/
def isAfter : Option ℤ → Option ℤ → Bool
  | some current, some last => last < current
  | _, _ => false

/-- `holidays.map((h) => new Date(h).toISOString().slice(0, 10))`, none where it throws
a RangeError. -/
def holidayTexts (host : DateHost) : List String → Option (List (List Char))
  | [] => some []
  | h :: holidays =>
      (dateParse host h).bind fun t =>
        (holidayTexts host holidays).map fun texts => (toISOString t).take 10 :: texts

/-- `countBusinessDays`, none where it throws. -/
def countBusinessDays (host : DateHost) (startDate endDate : String)
    (holidays : List String := []) : Option ℕ :=
  let current := dateParse host startDate
  let last := dateParse host endDate
  if isAfter current last then some 0
  else
    (holidayTexts host holidays).map fun holidaySet =>
      match last with
      | none => 0
      | some last =>
          countDays (fun day dateStr => day != 0 && day != 6 && !holidaySet.contains dateStr)
            last current

/-! ## Holidays -/

theorem dateParse_mem {host : DateHost} {s : String} {t : ℤ} (h : dateParse host s = some t) :
    -maxTime ≤ t ∧ t ≤ maxTime := by
  have hclip : ∃ u, timeClip u = some t := by
    unfold dateParse at h
    split at h
    · exact ⟨_, h⟩
    · obtain ⟨u, -, hu⟩ := Option.bind_eq_some_iff.mp h
      exact ⟨u, hu⟩
  obtain ⟨u, hu⟩ := hclip
  obtain ⟨hlow, hhigh, rfl⟩ := timeClip_eq_some.mp hu
  exact ⟨hlow, hhigh⟩

variable {host : DateHost} {holidays : List String}

/-- There are texts where every holiday is a date, and they are those of the dates. -/
theorem holidayTexts_spec (hvalid : ∀ h ∈ holidays, dateParse host h ≠ none) :
    ∃ texts, holidayTexts host holidays = some texts
      ∧ ∀ x, x ∈ texts ↔ ∃ h ∈ holidays, ∃ t, dateParse host h = some t
          ∧ x = sliceText (utcDate t) := by
  induction holidays with
  | nil => exact ⟨[], rfl, by simp⟩
  | cons h rest ih =>
      obtain ⟨texts, htexts, hmem⟩ := ih fun x hx => hvalid x (List.mem_cons_of_mem h hx)
      obtain ⟨t, ht⟩ := Option.ne_none_iff_exists'.mp (hvalid h List.mem_cons_self)
      refine ⟨sliceText (utcDate t) :: texts, ?_, fun x => ?_⟩
      · rw [holidayTexts, ht, htexts, Option.bind_some, Option.map_some, take_toISOString]
      · rw [List.mem_cons, hmem]
        simp [ht]

theorem holidayTexts_none {h : String} (hmem : h ∈ holidays) (hinvalid : dateParse host h = none) :
    holidayTexts host holidays = none := by
  induction holidays with
  | nil => cases hmem
  | cons h' rest ih =>
      rw [holidayTexts]
      rcases List.mem_cons.mp hmem with rfl | hmem
      · rw [hinvalid]
        rfl
      · rw [ih hmem]
        cases dateParse host h' <;> rfl

/-- A date that is neither Saturday, Sunday nor the date of a holiday. -/
def BusinessDate (host : DateHost) (holidays : List String) (d : Date) : Prop :=
  weekday d ≠ 0 ∧ weekday d ≠ 6
    ∧ ∀ h ∈ holidays, ∀ t, dateParse host h = some t → utcDate t ≠ d

/-- What the loop takes for one: the text is not that of a holiday. -/
def TakenDate (host : DateHost) (holidays : List String) (d : Date) : Prop :=
  weekday d ≠ 0 ∧ weekday d ≠ 6
    ∧ ∀ h ∈ holidays, ∀ t, dateParse host h = some t → sliceText (utcDate t) ≠ sliceText d

theorem TakenDate.business {d : Date} (h : TakenDate host holidays d) :
    BusinessDate host holidays d := by
  refine ⟨h.1, h.2.1, fun x hx t ht heq => h.2.2 x hx t ht ?_⟩
  rw [heq]

/-! ## The count -/

variable {startDate endDate : String} {s e : ℤ}

/-- The last date that the loop reaches. -/
def lastDate (s e : ℤ) : Date := utcDate (e - s % msPerDay)

theorem dayNumber_lastDate (s e : ℤ) :
    (lastDate s e).dayNumber
      = if e % msPerDay < s % msPerDay then e / msPerDay - 1 else e / msPerDay := by
  rw [lastDate, dayNumber_utcDate]
  unfold msPerDay
  split <;> omega

/-- **What is counted**: the dates up to the last one reached that are taken for business
days. -/
theorem countBusinessDays_eq (hs : dateParse host startDate = some s)
    (he : dateParse host endDate = some e)
    (hvalid : s ≤ e → ∀ h ∈ holidays, dateParse host h ≠ none) :
    countBusinessDays host startDate endDate holidays
      = some (Date.count (TakenDate host holidays) (utcDate s) (lastDate s e)) := by
  have hafter : isAfter (some s) (some e) = decide (e < s) := rfl
  unfold countBusinessDays
  simp only [hs, he, hafter, decide_eq_true_eq]
  split
  · rename_i hlt
    rw [Date.count_of_lt]
    rw [← Date.dayNumber_lt_iff, dayNumber_lastDate, dayNumber_utcDate]
    unfold msPerDay
    split <;> omega
  · rename_i hle
    obtain ⟨texts, htexts, hmem⟩ := holidayTexts_spec (hvalid (not_lt.mp hle))
    rw [htexts, Option.map_some, countDays_eq _ (dateParse_mem he).2 (dateParse_mem hs).1]
    refine congrArg some (Date.count_congr fun d _ _ => ?_)
    rw [Bool.and_eq_true, Bool.and_eq_true, bne_iff_ne, bne_iff_ne, Bool.not_eq_true',
      ← Bool.not_eq_true, List.contains_iff_mem, hmem, and_assoc, TakenDate]
    simp only [not_exists, not_and, ne_eq, eq_comm]

/-- A business day of a year of six digits has a holiday in its month. -/
def MonthTaken (host : DateHost) (holidays : List String) (d : Date) : Prop :=
  (d.year < 0 ∨ 9999 < d.year)
    ∧ ∃ h ∈ holidays, ∃ t, dateParse host h = some t
        ∧ (utcDate t).year = d.year ∧ (utcDate t).month = d.month

theorem takenDate_iff {d : Date} (hyear : d.year.natAbs < 1000000)
    (h : BusinessDate host holidays d) :
    TakenDate host holidays d ↔ ¬ MonthTaken host holidays d := by
  constructor
  · rintro htaken ⟨hlong, x, hx, t, ht, hy, hm⟩
    refine htaken.2.2 x hx t ht ?_
    refine (sliceText_eq_iff (year_bound (dateParse_mem ht)) hyear).mpr ⟨hy, hm, fun hshort => ?_⟩
    omega
  · intro hmonth
    refine ⟨h.1, h.2.1, fun x hx t ht heq => ?_⟩
    obtain ⟨hy, hm, hd⟩ := (sliceText_eq_iff (year_bound (dateParse_mem ht)) hyear).mp heq
    by_cases hshort : 0 ≤ (utcDate t).year ∧ (utcDate t).year ≤ 9999
    · exact h.2.2 x hx t ht (Date.ext hy hm (hd hshort))
    · exact hmonth ⟨by omega, x, hx, t, ht, hy, hm⟩

/-- Only the last date can be missed. -/
theorem le_lastDate_iff {d : Date} (hd : d ≤ utcDate e) :
    d ≤ lastDate s e ↔ ¬ (d = utcDate e ∧ e % msPerDay < s % msPerDay) := by
  have hnum := Date.dayNumber_le_iff.mpr hd
  rw [dayNumber_utcDate] at hnum
  have heq : d = utcDate e ↔ d.dayNumber = e / msPerDay := by
    rw [← dayNumber_utcDate]
    exact Date.dayNumber_strictMono.injective.eq_iff.symm
  rw [heq, ← Date.dayNumber_le_iff, dayNumber_lastDate]
  split <;> omega

/-- **When the business days of the range are counted**: unless a holiday that is no date
stops the function, the start is later in the day than the end, which is a business day, or
a business day of a year of six digits has a holiday in its month. -/
theorem countBusinessDays_eq_iff (hs : dateParse host startDate = some s)
    (he : dateParse host endDate = some e) :
    countBusinessDays host startDate endDate holidays
        = some (Date.count (BusinessDate host holidays) (utcDate s) (utcDate e))
      ↔ (s ≤ e → ∀ h ∈ holidays, dateParse host h ≠ none)
        ∧ ¬ (utcDate s ≤ utcDate e ∧ BusinessDate host holidays (utcDate e)
            ∧ e % msPerDay < s % msPerDay)
        ∧ ∀ d, utcDate s ≤ d → d ≤ utcDate e → BusinessDate host holidays d →
            ¬ MonthTaken host holidays d := by
  have hyear : ∀ d, utcDate s ≤ d → d ≤ utcDate e → d.year.natAbs < 1000000 := by
    intro d hsd hde
    have hbetween := year_mem hsd hde
    have hsyear := year_bound (dateParse_mem hs)
    have heyear := year_bound (dateParse_mem he)
    omega
  have hlast : lastDate s e ≤ utcDate e := by
    rw [← Date.dayNumber_le_iff, dayNumber_lastDate, dayNumber_utcDate]
    split <;> omega
  have hcount : Date.count (TakenDate host holidays) (utcDate s) (lastDate s e)
        = Date.count (BusinessDate host holidays) (utcDate s) (utcDate e)
      ↔ ¬ (utcDate s ≤ utcDate e ∧ BusinessDate host holidays (utcDate e)
            ∧ e % msPerDay < s % msPerDay)
        ∧ ∀ d, utcDate s ≤ d → d ≤ utcDate e → BusinessDate host holidays d →
            ¬ MonthTaken host holidays d := by
    rw [Date.count_eq_iff hlast fun d _ _ h => h.business]
    constructor
    · intro hall
      refine ⟨fun hmissed => ?_, fun d hsd hde hd => ?_⟩
      · have hreached := (hall _ hmissed.1 le_rfl hmissed.2.1).1
        exact (le_lastDate_iff le_rfl).mp hreached ⟨rfl, hmissed.2.2⟩
      · exact (takenDate_iff (hyear d hsd hde) hd).mp (hall d hsd hde hd).2
    · rintro ⟨hmissed, hmonth⟩ d hsd hde hd
      refine ⟨(le_lastDate_iff hde).mpr ?_,
        (takenDate_iff (hyear d hsd hde) hd).mpr (hmonth d hsd hde hd)⟩
      rintro ⟨rfl, hlate⟩
      exact hmissed ⟨hsd, hd, hlate⟩
  by_cases hvalid : s ≤ e → ∀ h ∈ holidays, dateParse host h ≠ none
  · rw [countBusinessDays_eq hs he hvalid, Option.some_inj, hcount]
    exact (and_iff_right hvalid).symm
  · refine iff_of_false (fun hcounted => ?_) fun h => hvalid h.1
    push Not at hvalid
    obtain ⟨hle, x, hx, hinvalid⟩ := hvalid
    have hafter : isAfter (some s) (some e) = false := decide_eq_false (not_lt.mpr hle)
    unfold countBusinessDays at hcounted
    simp only [hs, he, hafter, holidayTexts_none hx hinvalid] at hcounted
    cases hcounted

/-- A host in UTC that reads the ISO forms only. -/
def utcHost : DateHost := ⟨id, fun _ => none⟩

/-- Monday to Friday are business days. -/
theorem businessDate_of_week {monday d : Date} (hmonday : weekday monday = 1) (hle : monday ≤ d)
    (hlt : d.dayNumber < monday.dayNumber + 5) : BusinessDate host [] d := by
  have hnum := Date.dayNumber_le_iff.mpr hle
  unfold weekday at hmonday
  refine ⟨?_, ?_, fun h hmem => absurd hmem List.not_mem_nil⟩
  · unfold weekday
    omega
  · unfold weekday
    omega

/-- From ten o'clock on a Monday to nine o'clock on the Friday: the loop ends a day early. -/
theorem friday_missed :
    dateParse utcHost "2026-06-01T10:00:00Z" = some 1780308000000
    ∧ dateParse utcHost "2026-06-05T09:00:00Z" = some 1780650000000
    ∧ countBusinessDays utcHost "2026-06-01T10:00:00Z" "2026-06-05T09:00:00Z" = some 4
    ∧ Date.count (BusinessDate utcHost []) (utcDate 1780308000000) (utcDate 1780650000000) = 5 := by
  have hs : dateParse utcHost "2026-06-01T10:00:00Z" = some 1780308000000 := by decide +kernel
  have he : dateParse utcHost "2026-06-05T09:00:00Z" = some 1780650000000 := by decide +kernel
  have hmonday : weekday (utcDate 1780308000000) = 1 := by decide +kernel
  refine ⟨hs, he, by decide +kernel, ?_⟩
  rw [Date.count_true, Date.ncard_Icc, dayNumber_utcDate, dayNumber_utcDate]
  · decide
  · intro d hle hd
    have hnum := Date.dayNumber_le_iff.mpr hd
    refine businessDate_of_week hmonday hle ?_
    rw [dayNumber_utcDate] at hnum ⊢
    unfold msPerDay at hnum ⊢
    omega

/-- At equal times of day the Friday is counted. -/
theorem friday_counted :
    countBusinessDays utcHost "2026-06-01T10:00:00Z" "2026-06-05T10:00:00Z"
      = some (Date.count (BusinessDate utcHost []) (utcDate 1780308000000)
          (utcDate 1780653600000)) := by
  have hs : dateParse utcHost "2026-06-01T10:00:00Z" = some 1780308000000 := by decide +kernel
  have he : dateParse utcHost "2026-06-05T10:00:00Z" = some 1780653600000 := by decide +kernel
  refine (countBusinessDays_eq_iff hs he).mpr ⟨fun _ h hmem => absurd hmem List.not_mem_nil, ?_, ?_⟩
  · rintro ⟨-, -, hlate⟩
    revert hlate
    decide
  · rintro d - - - ⟨-, h, hmem, -⟩
    exact List.not_mem_nil hmem

/-! ## Dates as strings -/

theorem dateParse_of_calendarDate {s : String} {c : Date} (h : calendarDate s = some c) :
    dateParse host s = some (c.dayNumber * msPerDay) := by
  refine dateParse_of_midnightUTC (midnightUTC_of_calendarDate h) fun hT => ?_
  rw [(calendarDate_iff (year_of_calendarDate h)).mp h, dateText] at hT
  have hdigit : ∀ {n k : ℕ}, 'T' ∉ padded n k := by
    intro n k hmem
    have := isDigit_padded 'T' hmem
    revert this
    decide
  simp [hdigit] at hT

/-- Holidays that are dates are held against the dates they name. -/
theorem takenDate_iff_workingDate (hholidays : ∀ h ∈ holidays, (calendarDate h).isSome)
    {d : Date} (hyear : 0 ≤ d.year ∧ d.year ≤ 9999) :
    TakenDate host holidays d ↔ WorkingDate [0, 6] holidays d := by
  have hweekday : weekday d ∉ [0, 6] ↔ weekday d ≠ 0 ∧ weekday d ≠ 6 := by simp
  rw [TakenDate, WorkingDate, hweekday, and_assoc]
  refine and_congr_right fun _ => and_congr_right fun _ => forall₂_congr fun h hmem => ?_
  obtain ⟨c, hc⟩ := Option.isSome_iff_exists.mp (hholidays h hmem)
  have hcyear := year_of_calendarDate hc
  rw [dateParse_of_calendarDate hc, hc]
  constructor
  · intro htext hcd
    obtain rfl := Option.some.inj hcd
    exact htext _ rfl (by rw [utcDate_midnight])
  · rintro hne t ht htext
    obtain rfl := Option.some.inj ht
    rw [utcDate_midnight, sliceText, sliceText, if_pos hcyear, if_pos hyear] at htext
    exact hne (congrArg some (dateText_inj hcyear hyear htext))

variable {s e : String} {a b : Date}

theorem countBusinessDays_eq_workingDays (hs : calendarDate s = some a)
    (he : calendarDate e = some b) (ha : 100 ≤ a.year) (hb : 100 ≤ b.year)
    (hholidays : ∀ h ∈ holidays, (calendarDate h).isSome) :
    countBusinessDays host s e holidays = some (calculateWorkingDays s e [0, 6] holidays) := by
  have hvalid : ∀ h ∈ holidays, dateParse host h ≠ none := by
    intro h hmem
    obtain ⟨c, hc⟩ := Option.isSome_iff_exists.mp (hholidays h hmem)
    rw [dateParse_of_calendarDate hc]
    exact Option.some_ne_none _
  have htime : a.dayNumber * msPerDay % msPerDay = 0 := Int.mul_emod_left _ _
  have hyeara := year_of_calendarDate hs
  have hyearb := year_of_calendarDate he
  rw [countBusinessDays_eq (dateParse_of_calendarDate hs) (dateParse_of_calendarDate he)
    fun _ => hvalid, lastDate, htime, sub_zero, utcDate_midnight, utcDate_midnight,
    calculateWorkingDays_eq hs he ha hb]
  refine congrArg some (Date.count_congr fun d had hdb => ?_)
  have hyear := year_mem had hdb
  exact takenDate_iff_workingDate hholidays (by omega)

/-- **Three functions, one calendar**: the working dates of a range are counted, adjacent
ranges add up, without weekends and holidays all days are counted, and with Saturday and
Sunday the business days. -/
theorem workingDays_counted (hs : calendarDate s = some a) (he : calendarDate e = some b)
    (ha : 100 ≤ a.year) (hb : 100 ≤ b.year) :
    (∀ weekendDays holidays, calculateWorkingDays s e weekendDays holidays
        = {d | d ∈ Set.Icc a b ∧ WorkingDate weekendDays holidays d}.ncard)
    ∧ (∀ m m' c, calendarDate m = some c → calendarDate m' = some c.next → 100 ≤ c.year →
        a ≤ c.next → c ≤ b → ∀ weekendDays holidays,
        calculateWorkingDays s e weekendDays holidays
          = calculateWorkingDays s m weekendDays holidays
            + calculateWorkingDays m' e weekendDays holidays)
    ∧ (a ≤ b → calculateDaysRequested s e = some (calculateWorkingDays s e [] [] : ℤ))
    ∧ ∀ host holidays, (∀ h ∈ holidays, (calendarDate h).isSome) →
        countBusinessDays host s e holidays
          = some (calculateWorkingDays s e [0, 6] holidays) := by
  refine ⟨fun weekendDays holidays => calculateWorkingDays_eq hs he ha hb weekendDays holidays,
    fun m m' c hm hm' hc hac hcb weekendDays holidays => ?_,
    calculateDaysRequested_eq_workingDays hs he ha hb,
    fun host holidays hholidays => countBusinessDays_eq_workingDays hs he ha hb hholidays⟩
  have hnext := year_mem (Date.lt_next c).le (le_refl c.next)
  rw [calculateWorkingDays_eq hs he ha hb, calculateWorkingDays_eq hs hm ha hc,
    calculateWorkingDays_eq hm' he (by omega) hb, Date.count_append hac hcb]

/-- From the end of a February with 29 days into March, with a holiday. -/
theorem workingDays_counted_leap :
    calculateDaysRequested "2028-02-28" "2028-03-03"
      = some (calculateWorkingDays "2028-02-28" "2028-03-03" [] [] : ℤ)
    ∧ countBusinessDays utcHost "2028-02-28" "2028-03-03" ["2028-02-29"]
      = some (calculateWorkingDays "2028-02-28" "2028-03-03" [0, 6] ["2028-02-29"])
    ∧ calculateWorkingDays "2028-02-28" "2028-03-03" [5, 6] ["2028-02-29"]
      = calculateWorkingDays "2028-02-28" "2028-02-29" [5, 6] ["2028-02-29"]
        + calculateWorkingDays "2028-03-01" "2028-03-03" [5, 6] ["2028-02-29"] := by
  let a : Date := ⟨2028, 2, 28, by decide, by decide⟩
  let b : Date := ⟨2028, 3, 3, by decide, by decide⟩
  let c : Date := ⟨2028, 2, 29, by decide, by decide⟩
  have hs : calendarDate "2028-02-28" = some a := by decide +kernel
  have he : calendarDate "2028-03-03" = some b := by decide +kernel
  have hc : calendarDate "2028-02-29" = some c := by decide +kernel
  have hc' : calendarDate "2028-03-01" = some c.next := by decide +kernel
  obtain ⟨-, hadjacent, hall, hbusiness⟩ :=
    workingDays_counted hs he (show 100 ≤ a.year by decide) (show 100 ≤ b.year by decide)
  refine ⟨hall (by decide), hbusiness utcHost ["2028-02-29"] fun h hmem => ?_, ?_⟩
  · rw [List.mem_singleton.mp hmem, hc]
    rfl
  · exact hadjacent _ _ c hc hc' (by decide) (by decide) (by decide) [5, 6] ["2028-02-29"]

end LeaveLedger
