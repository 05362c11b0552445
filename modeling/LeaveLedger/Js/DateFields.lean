import LeaveLedger.Js.Date
import Mathlib.Data.List.Induction
import Mathlib.Tactic.IntervalCases

/-!
# Js — The fields of a date

What the methods of a date read from its time value, and what `setUTCDate`
and `toISOString` make of them. Time values that are not `NaN` lie between
`-8640000000000000` and `8640000000000000`.
-/

namespace LeaveLedger.Js

def maxTime : ℤ := 8640000000000000

theorem timeClip_eq_some {t t' : ℤ} :
    timeClip t = some t' ↔ -maxTime ≤ t ∧ t ≤ maxTime ∧ t' = t := by
  unfold timeClip maxTime
  split
  · rw [Option.some_inj]
    omega
  · simp only [reduceCtorEq, false_iff]
    omega

/-! ## Year, month and day -/

/-- The year that day number `n` is in: the quotient by the mean length of a year
is next to it. -/
def yearFromDay (n : ℤ) : ℤ :=
  let y := 1970 + 400 * n / 146097
  if n < dayFromYear y then y - 1
  else if dayFromYear (y + 1) ≤ n then y + 1
  else y

/-- The month, counted from 0, of day `r` of a year, counted from 0. -/
def monthFromYearDay (leap : Bool) (r : ℤ) : ℤ :=
  if r < daysBeforeMonth leap 1 then 0
  else if r < daysBeforeMonth leap 2 then 1
  else if r < daysBeforeMonth leap 3 then 2
  else if r < daysBeforeMonth leap 4 then 3
  else if r < daysBeforeMonth leap 5 then 4
  else if r < daysBeforeMonth leap 6 then 5
  else if r < daysBeforeMonth leap 7 then 6
  else if r < daysBeforeMonth leap 8 then 7
  else if r < daysBeforeMonth leap 9 then 8
  else if r < daysBeforeMonth leap 10 then 9
  else if r < daysBeforeMonth leap 11 then 10
  else 11

def dayOfYear (t : ℤ) : ℤ := t / msPerDay - dayFromYear (yearFromDay (t / msPerDay))

def getUTCFullYear (t : ℤ) : ℤ := yearFromDay (t / msPerDay)

def getUTCMonth (t : ℤ) : ℤ := monthFromYearDay (inLeapYear (getUTCFullYear t)) (dayOfYear t)

def getUTCDate (t : ℤ) : ℤ :=
  dayOfYear t - daysBeforeMonth (inLeapYear (getUTCFullYear t)) (getUTCMonth t) + 1

/-- Sunday is 0, and 1970-01-01 was a Thursday. -/
def getUTCDay (t : ℤ) : ℤ := (t / msPerDay + 4) % 7

/-- `setUTCDate(date)`: the time value then, at the same time of day. -/
def setUTCDate (t date : ℤ) : Option ℤ :=
  timeClip (makeDay (getUTCFullYear t) (getUTCMonth t) date * msPerDay + t % msPerDay)

/-! ## The text of a date -/

/-- The last `n` decimal digits of `k`. -/
def padded : ℕ → ℕ → List Char
  | 0, _ => []
  | n + 1, k => padded n (k / 10) ++ [(k % 10).digitChar]

@[simp] theorem length_padded (n k : ℕ) : (padded n k).length = n := by
  induction n generalizing k with
  | zero => rfl
  | succ n ih => rw [padded, List.length_append, ih, List.length_singleton]

theorem digitChar_spec {d : ℕ} (h : d < 10) :
    isDigit d.digitChar = true ∧ digitVal d.digitChar = some d := by
  interval_cases d <;> decide

theorem eq_digitChar {c : Char} {d : ℕ} (hc : isDigit c = true) (hd : digitVal c = some d) :
    c = d.digitChar := by
  have hrange : 48 ≤ c.toNat ∧ c.toNat ≤ 57 := by simpa [isDigit] using hc
  have hval : c.toNat - 48 = d := by
    unfold digitVal at hd
    rw [if_pos hc] at hd
    exact Option.some.inj hd
  obtain ⟨n, hn, hn'⟩ : ∃ n : ℕ, c.toNat = 48 + n ∧ n < 10 := ⟨c.toNat - 48, by omega, by omega⟩
  have hdn : d = n := by omega
  rw [← Char.ofNat_toNat c, hn, hdn]
  interval_cases n <;> rfl

theorem isDigit_padded {n k : ℕ} : ∀ c ∈ padded n k, isDigit c = true := by
  induction n generalizing k with
  | zero => intro c hc; cases hc
  | succ n ih =>
      intro c hc
      rcases List.mem_append.mp hc with hc | hc
      · exact ih c hc
      · rw [List.mem_singleton.mp hc]
        exact (digitChar_spec (Nat.mod_lt k (by decide))).1

/-- One digit of `radixNumeral`. -/
def readDigit (acc : ℕ) (c : Char) : Option ℕ :=
  (digitVal c).bind fun d => if d < 10 then some (acc * 10 + d) else none

theorem radixNumeral_eq {cs : List Char} (h : cs ≠ []) :
    radixNumeral 10 cs = cs.foldlM readDigit 0 := by
  cases cs with
  | nil => exact absurd rfl h
  | cons c cs => rfl

theorem foldlM_padded {n k : ℕ} (h : k < 10 ^ n) : (padded n k).foldlM readDigit 0 = some k := by
  induction n generalizing k with
  | zero =>
      rw [pow_zero, Nat.lt_one_iff] at h
      rw [h]
      rfl
  | succ n ih =>
      have hlt : k / 10 < 10 ^ n := by
        rw [pow_succ] at h
        omega
      rw [padded, List.foldlM_append, ih hlt]
      have hdigit := (digitChar_spec (Nat.mod_lt k (by decide : 0 < 10))).2
      have hmod : k % 10 < 10 := Nat.mod_lt k (by decide)
      have hstep : readDigit (k / 10) (k % 10).digitChar = some k := by
        rw [readDigit, hdigit, Option.bind_some, if_pos hmod]
        exact congrArg some (by omega)
      simp [hstep]

theorem eq_padded {cs : List Char} {k : ℕ} (hdigits : ∀ c ∈ cs, isDigit c = true)
    (h : cs.foldlM readDigit 0 = some k) : cs = padded cs.length k ∧ k < 10 ^ cs.length := by
  induction cs using List.reverseRecOn generalizing k with
  | nil =>
      cases h
      exact ⟨rfl, by simp⟩
  | append_singleton cs c ih =>
      rw [List.foldlM_append] at h
      obtain ⟨a, ha, hc⟩ := Option.bind_eq_some_iff.mp h
      have hread : readDigit a c = some k := by simpa using hc
      obtain ⟨d, hd, hval⟩ := Option.bind_eq_some_iff.mp hread
      split at hval
      · have hk : a * 10 + d = k := Option.some.inj hval
        obtain ⟨hcs, hlt⟩ := ih (fun x hx => hdigits x (List.mem_append_left _ hx)) ha
        have hchar := eq_digitChar (hdigits c (by simp)) hd
        rw [List.length_append, List.length_singleton, padded, show k / 10 = a by omega,
          show k % 10 = d by omega, ← hcs, hchar, pow_succ]
        exact ⟨rfl, by omega⟩
      · cases hval

/-- **A numeral of fixed length is the padded text of its value.** -/
theorem fixedDigits_iff {n k : ℕ} {cs : List Char} (hn : 0 < n) :
    fixedDigits n cs = some k ↔ cs = padded n k ∧ k < 10 ^ n := by
  have hpos : ∀ {cs : List Char}, cs.length = n → cs ≠ [] := by
    rintro cs hlength rfl
    rw [List.length_nil] at hlength
    omega
  unfold fixedDigits
  constructor
  · intro h
    split at h
    · rename_i hcs
      obtain ⟨hlength, hall⟩ := hcs
      have hdigits := List.all_eq_true.mp hall
      rw [radixNumeral_eq (hpos hlength)] at h
      have hpadded := eq_padded hdigits h
      rw [hlength] at hpadded
      exact hpadded
    · cases h
  · rintro ⟨rfl, hk⟩
    have hlength := length_padded n k
    rw [if_pos ⟨hlength, List.all_eq_true.mpr isDigit_padded⟩, radixNumeral_eq (hpos hlength),
      foldlM_padded hk]

/-- Four digits, or a sign and six. -/
def isoYearText (y : ℤ) : List Char :=
  if 0 ≤ y ∧ y ≤ 9999 then padded 4 y.toNat
  else (if y < 0 then '-' else '+') :: padded 6 y.natAbs

def toISOString (t : ℤ) : List Char :=
  let ms := (t % msPerDay).toNat
  isoYearText (getUTCFullYear t) ++ '-' :: (padded 2 (getUTCMonth t + 1).toNat
    ++ '-' :: (padded 2 (getUTCDate t).toNat
    ++ 'T' :: (padded 2 (ms / 3600000) ++ ':' :: (padded 2 (ms / 60000 % 60)
    ++ ':' :: (padded 2 (ms / 1000 % 60) ++ '.' :: (padded 3 (ms % 1000) ++ ['Z']))))))

example : String.ofList (toISOString 951869045678) = "2000-03-01T00:04:05.678Z" := by
  decide +kernel
example : String.ofList (toISOString maxTime) = "+275760-09-13T00:00:00.000Z" := by
  decide +kernel

end LeaveLedger.Js
