import LeaveLedger.Js.Date
import Mathlib.Data.List.TakeWhile

/-!
# Js — new Date(s)

The time value of `new Date(s)`. The ISO forms are read here: a date form
alone, in UTC, or one with a time and a zone. What the runtime makes of any
other text is its own, and so is its local time, which a time without a zone
is taken for.
-/

namespace LeaveLedger.Js

/-- The time value of a local time, and of a text that is in no ISO form. -/
structure DateHost where
  utc : ℤ → ℤ
  legacy : String → Option ℤ

/-- The day number of a date form. -/
def isoDay (cs : List Char) : Option ℤ :=
  (isoYear cs).bind fun (y, r) =>
    (isoField 12 r).bind fun (m, r) =>
      (isoField 31 r).bind fun (d, r) => if r = [] then some (makeDay y (m - 1) d) else none

/-- Minutes or seconds after a colon, and the text after them. -/
def isoSixty : List Char → Option (ℕ × List Char)
  | ':' :: cs => (fixedDigits 2 (cs.take 2)).bind fun n =>
      if n ≤ 59 then some (n, cs.drop 2) else none
  | _ => none

/-- Seconds and milliseconds, which may be missing, and the text after them. -/
def isoSeconds (cs : List Char) : Option (ℕ × List Char) :=
  match isoSixty cs with
  | none => some (0, cs)
  | some (s, '.' :: r) => (fixedDigits 3 (r.take 3)).map fun ms => (1000 * s + ms, r.drop 3)
  | some (s, r) => some (1000 * s, r)

/-- A time of day in milliseconds, and the text after it. Midnight may be 24:00. -/
def isoClock (cs : List Char) : Option (ℕ × List Char) :=
  (fixedDigits 2 (cs.take 2)).bind fun h =>
    (isoSixty (cs.drop 2)).bind fun (m, r) =>
      (isoSeconds r).bind fun (ms, r) =>
        let time := (60 * h + m) * 60000 + ms
        if h ≤ 23 ∨ time = 86400000 then some (time, r) else none

/-- The time value of a time in the zone that is written behind it. -/
def isoZone (host : DateHost) (t : ℤ) : List Char → Option ℤ
  | [] => some (host.utc t)
  | ['Z'] => some t
  | sign :: cs =>
      (fixedDigits 2 (cs.take 2)).bind fun h =>
        (isoSixty (cs.drop 2)).bind fun (m, r) =>
          let offset : ℤ := (60 * h + m) * 60000
          if r = [] ∧ h ≤ 23 then
            if sign = '+' then some (t - offset)
            else if sign = '-' then some (t + offset)
            else none
          else none

/-- The time of a text in one of the ISO forms. -/
def isoTime (host : DateHost) (s : String) : Option ℤ :=
  match s.toList.dropWhile (· ≠ 'T') with
  | [] => (isoDay s.toList).map fun n => n * msPerDay
  | _ :: r =>
      (isoDay (s.toList.takeWhile (· ≠ 'T'))).bind fun n =>
        (isoClock r).bind fun (ms, r) => isoZone host (n * msPerDay + ms) r

/-- `new Date(s).getTime()`, `none` for `NaN`. -/
def dateParse (host : DateHost) (s : String) : Option ℤ :=
  match isoTime host s with
  | some t => timeClip t
  | none => (host.legacy s).bind timeClip

example : dateParse ⟨id, fun _ => none⟩ "2026-06-01T10:00:00.250+02:00" = some 1780300800250 := by
  decide +kernel

/-- Without a time the text is read as a date at midnight. -/
theorem dateParse_of_midnightUTC {host : DateHost} {s : String} {t : ℤ} (h : midnightUTC s = some t)
    (hT : 'T' ∉ s.toList) : dateParse host s = some t := by
  have hdrop : s.toList.dropWhile (· ≠ 'T') = [] := by
    rw [List.dropWhile_eq_nil_iff]
    intro c hc
    exact decide_eq_true fun heq => hT (heq ▸ hc)
  have hday : midnightUTC s = (isoDay s.toList).bind fun n => timeClip (n * msPerDay) := by
    unfold midnightUTC isoDay
    simp only [Option.bind_assoc]
    congr 1
    funext ⟨y, r⟩
    congr 1
    funext ⟨m, r⟩
    congr 1
    funext ⟨d, r⟩
    dsimp only
    split <;> rfl
  rw [hday] at h
  obtain ⟨n, hn, ht⟩ := Option.bind_eq_some_iff.mp h
  unfold dateParse isoTime
  simp only [hdrop, hn, Option.map_some]
  exact ht

end LeaveLedger.Js
