import LeaveLedger.Js.Date

/-!
# Common — Date utilities

`common/utils/date.util`: the day arithmetic of a request. Every function
splits its strings at the hyphens, converts the pieces with `Number` and
compares `Date.UTC` values, so a piece that is not a number makes the
value `NaN` (`none` here) and every comparison with it false.
-/

namespace LeaveLedger

open Js

/-- `Date.UTC(y, m - 1, d)` of `[y, m, d] = s.split('-').map(Number)`. -/
def utcOfDate (s : String) : Option ℤ :=
  let parts := (s.toList.splitOn '-').map toNumber
  dateUTC (parts[0]?).join ((parts[1]?).join.map fun m => m - 1) (parts[2]?).join

/-- Calendar days between two dates, both included, at least 1; `none` is
`NaN`. -/
def calculateDaysRequested (startDate endDate : String) : Option ℤ :=
  (utcOfDate startDate).bind fun s => (utcOfDate endDate).map fun e =>
    let diffMs := e - s
    -- Math.round(diffMs / msPerDay), halves rounded up
    let days := (2 * diffMs + msPerDay) / (2 * msPerDay) + 1
    max days 1

/-- The date is today or later on the UTC calendar at `now`. -/
def isNotInPast (now : ℤ) (dateStr : String) : Bool :=
  match utcOfDate dateStr with
  | some target => utcToday now ≤ target
  | none => false

/-- `[start1, end1]` and `[start2, end2]` share a day. -/
def datesOverlap (start1 end1 start2 end2 : String) : Bool :=
  match utcOfDate start1, utcOfDate end1, utcOfDate start2, utcOfDate end2 with
  | some s1, some e1, some s2, some e2 => s1 ≤ e2 && s2 ≤ e1
  | _, _, _, _ => false

/-- `isStale`: no timestamp, or one older than the threshold. -/
def isStale (now : ℤ) (timestamp : Option ℤ) (thresholdMs : ℤ) : Bool :=
  match timestamp with
  | none => true
  | some t => thresholdMs < now - t

theorem calculateDaysRequested_pos {s e : String} {n : ℤ}
    (h : calculateDaysRequested s e = some n) : 1 ≤ n := by
  unfold calculateDaysRequested at h
  cases hs : utcOfDate s with
  | none => simp [hs] at h
  | some a =>
      cases he : utcOfDate e with
      | none => simp [hs, he] at h
      | some b =>
          simp only [hs, he, Option.bind_some, Option.map_some, Option.some.injEq] at h
          omega

example : calculateDaysRequested "2030-01-30" "2030-02-02" = some 4 := by decide +kernel
example : calculateDaysRequested "2030-01-05" "2030-01-10T00:00:00Z" = none := by
  decide +kernel

end LeaveLedger
