import LeaveLedger.Js.Number

/-!
# Js — Dates

Time values are integers, milliseconds since the epoch; `none` is `NaN`,
the time value of an invalid date. `dateUTC` is `Date.UTC(y, m, d)` with
its two-digit years and its carry of out-of-range months and days, and
`midnightUTC` the time value of `new Date(s + 'T00:00:00Z')`.
-/

namespace LeaveLedger.Js

def msPerDay : ℤ := 86400000

def inLeapYear (y : ℤ) : Bool :=
  (y % 4 == 0 && y % 100 != 0) || y % 400 == 0

/-- The day number of the first day of year `y`. -/
def dayFromYear (y : ℤ) : ℤ :=
  365 * (y - 1970) + (y - 1969) / 4 - (y - 1901) / 100 + (y - 1601) / 400

/-- Days of a year before month `m`, months counted from 0. -/
def daysBeforeMonth (leap : Bool) (m : ℤ) : ℤ :=
  let feb : ℤ := if leap then 29 else 28
  if m ≤ 0 then 0
  else if m = 1 then 31
  else if m = 2 then 31 + feb
  else if m = 3 then 62 + feb
  else if m = 4 then 92 + feb
  else if m = 5 then 123 + feb
  else if m = 6 then 153 + feb
  else if m = 7 then 184 + feb
  else if m = 8 then 215 + feb
  else if m = 9 then 245 + feb
  else if m = 10 then 276 + feb
  else 306 + feb

/-- `MakeDay`: the day number of a year, a month and a day of the month,
months beyond a year carried into the year. -/
def makeDay (year month date : ℤ) : ℤ :=
  let y := year + month / 12
  dayFromYear y + daysBeforeMonth (inLeapYear y) (month % 12) + date - 1

/-- `TimeClip`: time values stop at 100,000,000 days on both sides. -/
def timeClip (t : ℤ) : Option ℤ :=
  if t.natAbs ≤ 8640000000000000 then some t else none

/-- `Date.UTC(year, month, date)` of three numbers, `none` for `NaN`. -/
def dateUTC (year month date : Option ℚ) : Option ℤ :=
  year.bind fun y => month.bind fun m => date.bind fun d =>
    let yi := toInteger y
    let fullYear := if 0 ≤ yi ∧ yi ≤ 99 then 1900 + yi else yi
    timeClip (makeDay fullYear (toInteger m) (toInteger d) * msPerDay)

/-- UTC midnight of the day of `now`. -/
def utcToday (now : ℤ) : ℤ := now / msPerDay * msPerDay

/-! ## Parsing an ISO date -/

/-- A numeral of exactly `n` digits. -/
def fixedDigits (n : ℕ) (cs : List Char) : Option ℕ :=
  if cs.length = n ∧ cs.all isDigit then radixNumeral 10 cs else none

/-- The year of an ISO date, and the text after it: four digits, or a sign
and six, where `-000000` is not a year. -/
def isoYear : List Char → Option (ℤ × List Char)
  | '+' :: cs => (fixedDigits 6 (cs.take 6)).map fun n => ((n : ℤ), cs.drop 6)
  | '-' :: cs => (fixedDigits 6 (cs.take 6)).bind fun n =>
      if n = 0 then none else some (-(n : ℤ), cs.drop 6)
  | cs => (fixedDigits 4 (cs.take 4)).map fun n => ((n : ℤ), cs.drop 4)

/-- The month or day after a hyphen and the text after it; a missing one is 1. -/
def isoField (hi : ℕ) : List Char → Option (ℤ × List Char)
  | [] => some (1, [])
  | '-' :: cs => (fixedDigits 2 (cs.take 2)).bind fun n =>
      if 1 ≤ n ∧ n ≤ hi then some ((n : ℤ), cs.drop 2) else none
  | _ => none

/-- `new Date(s + 'T00:00:00Z').getTime()`: `s` is one of the date forms
`YYYY`, `YYYY-MM` and `YYYY-MM-DD`, and any other text an invalid date.
The day of the month is only held against 31. -/
def midnightUTC (s : String) : Option ℤ :=
  (isoYear s.toList).bind fun (y, r) =>
    (isoField 12 r).bind fun (m, r) =>
      (isoField 31 r).bind fun (d, r) =>
        if r = [] then timeClip (makeDay y (m - 1) d * msPerDay) else none

example : midnightUTC "1970-01-02" = some msPerDay := by decide +kernel
example : midnightUTC "2030-01-05T10:00:00Z" = none := by decide +kernel

end LeaveLedger.Js
