import Mathlib

/-!
# Lib — The Gregorian calendar

A `Date` is a year, a month and a day that the calendar has, ordered as
written. `dayNumber` counts the days from 1970-01-01, and `dayNumber_next`
and `dayNumber_lt` say what makes it a count: the next date has the next
number, and a later date a greater one. So the number of dates from one to
another is a difference of day numbers (`ncard_Icc`).
-/

namespace LeaveLedger.Lib

namespace Calendar

def leap (year : ℤ) : Bool := year % 4 = 0 && (year % 100 ≠ 0 || year % 400 = 0)

def monthLength (year month : ℤ) : ℤ :=
  if month = 2 then (if leap year then 29 else 28)
  else if month = 4 ∨ month = 6 ∨ month = 9 ∨ month = 11 then 30
  else 31

/-- Days of a year before a month. -/
def daysBefore (year month : ℤ) : ℤ :=
  (if month ≤ 2 then 31 * (month - 1) else (153 * (month - 3) + 2) / 5 + 59)
    + (if 2 < month ∧ leap year then 1 else 0)

/-- The day number of the first day of a year. -/
def yearStart (year : ℤ) : ℤ :=
  365 * (year - 1970) + (year - 1969) / 4 - (year - 1901) / 100 + (year - 1601) / 400

theorem leap_iff (year : ℤ) :
    leap year = true ↔ year % 4 = 0 ∧ (year % 100 ≠ 0 ∨ year % 400 = 0) := by
  simp [leap]

theorem monthLength_pos (year month : ℤ) : 28 ≤ monthLength year month := by
  unfold monthLength
  split
  · split <;> omega
  · split <;> omega

/-- The months follow each other. -/
theorem daysBefore_succ {year month : ℤ} (h1 : 1 ≤ month) (h2 : month < 12) :
    daysBefore year (month + 1) = daysBefore year month + monthLength year month := by
  unfold daysBefore monthLength
  interval_cases month <;> cases leap year <;> decide

theorem daysBefore_one (year : ℤ) : daysBefore year 1 = 0 := by
  simp [daysBefore]

/-- December ends the year. -/
theorem yearStart_succ (year : ℤ) :
    yearStart (year + 1) = yearStart year + daysBefore year 12 + monthLength year 12 := by
  -- the three quotients step at the multiples of 4, 100 and 400
  have h4 : (year + 1 - 1969) / 4 = (year - 1969) / 4 + if year % 4 = 0 then 1 else 0 := by
    split_ifs <;> omega
  have h100 : (year + 1 - 1901) / 100 = (year - 1901) / 100 + if year % 100 = 0 then 1 else 0 := by
    split_ifs <;> omega
  have h400 : (year + 1 - 1601) / 400 = (year - 1601) / 400 + if year % 400 = 0 then 1 else 0 := by
    split_ifs <;> omega
  have hlast : daysBefore year 12 + monthLength year 12
      = 365 + if leap year = true then 1 else 0 := by
    unfold daysBefore monthLength
    cases leap year <;> decide
  have hcount : ((if year % 4 = 0 then 1 else 0) - (if year % 100 = 0 then 1 else 0)
      + if year % 400 = 0 then 1 else 0 : ℤ) = if leap year = true then 1 else 0 := by
    simp only [leap_iff]
    split_ifs <;> omega
  unfold yearStart
  rw [h4, h100, h400]
  omega

theorem yearStart_mono {y y' : ℤ} (h : y ≤ y') : yearStart y ≤ yearStart y' := by
  unfold yearStart
  omega

theorem daysBefore_mono {year m m' : ℤ} (h1 : 1 ≤ m) (h : m < m') (h2 : m' ≤ 12) :
    daysBefore year m + monthLength year m ≤ daysBefore year m' := by
  rw [← daysBefore_succ h1 (by omega)]
  unfold daysBefore
  cases hleap : leap year with
  | true => simp only [and_true]; split_ifs <;> omega
  | false => simp only [Bool.false_eq_true, and_false]; split_ifs <;> omega

end Calendar

open Calendar

/-- A date of the calendar. -/
@[ext] structure Date where
  year : ℤ
  month : ℤ
  day : ℤ
  month_mem : 1 ≤ month ∧ month ≤ 12
  day_mem : 1 ≤ day ∧ day ≤ monthLength year month
  deriving DecidableEq

namespace Date

/-- The fields in the order they are compared. -/
def fields (d : Date) : ℤ ×ₗ ℤ ×ₗ ℤ := toLex (d.year, toLex (d.month, d.day))

theorem fields_injective : Function.Injective fields := by
  intro a b h
  have h' : (a.year, toLex (a.month, a.day)) = (b.year, toLex (b.month, b.day)) := h
  obtain ⟨hy, hmd⟩ := Prod.mk.inj h'
  obtain ⟨hm, hd⟩ := Prod.mk.inj (show (a.month, a.day) = (b.month, b.day) from hmd)
  exact Date.ext hy hm hd

instance : LinearOrder Date := LinearOrder.lift' fields fields_injective

theorem lt_iff {a b : Date} :
    a < b ↔ a.year < b.year
      ∨ a.year = b.year ∧ (a.month < b.month ∨ a.month = b.month ∧ a.day < b.day) := by
  show fields a < fields b ↔ _
  rw [Prod.Lex.lt_iff]
  show a.year < b.year ∨ a.year = b.year ∧ toLex (a.month, a.day) < toLex (b.month, b.day) ↔ _
  rw [Prod.Lex.lt_iff]
  rfl

/-- Days from 1970-01-01. -/
def dayNumber (d : Date) : ℤ := yearStart d.year + daysBefore d.year d.month + d.day - 1

/-- The date that follows. -/
def next (d : Date) : Date :=
  if hday : d.day < monthLength d.year d.month then
    { d with day := d.day + 1, day_mem := by have := d.day_mem; omega }
  else if hmonth : d.month < 12 then
    { year := d.year, month := d.month + 1, day := 1
      month_mem := by have := d.month_mem; omega
      day_mem := by have := monthLength_pos d.year (d.month + 1); omega }
  else
    { year := d.year + 1, month := 1, day := 1
      month_mem := by omega
      day_mem := by have := monthLength_pos (d.year + 1) 1; omega }

theorem dayNumber_next (d : Date) : d.next.dayNumber = d.dayNumber + 1 := by
  have hm := d.month_mem
  have hd := d.day_mem
  unfold next dayNumber
  split
  · simp only
    omega
  · rename_i hday
    have hlast : d.day = monthLength d.year d.month := by omega
    split
    · rename_i hmonth
      simp only [daysBefore_succ hm.1 hmonth]
      omega
    · rename_i hmonth
      have hdec : d.month = 12 := by omega
      simp only [yearStart_succ, daysBefore_one, hdec] at hlast ⊢
      omega

/-- A later date has a greater number. -/
theorem dayNumber_lt {a b : Date} (h : a < b) : a.dayNumber < b.dayNumber := by
  have ham := a.month_mem
  have had := a.day_mem
  have hbm := b.month_mem
  have hbd := b.day_mem
  unfold dayNumber
  rcases lt_iff.mp h with hy | ⟨hy, hm | ⟨hm, hd⟩⟩
  · -- the year ends before the later one begins
    have hstart := yearStart_mono (show a.year + 1 ≤ b.year by omega)
    have hend := yearStart_succ a.year
    have hmonth : daysBefore a.year a.month + monthLength a.year a.month
        ≤ daysBefore a.year 12 + monthLength a.year 12 := by
      rcases Int.lt_or_eq_of_le ham.2 with hlt | heq
      · have h12 := @daysBefore_mono a.year _ _ ham.1 hlt (le_refl 12)
        have hpos := monthLength_pos a.year 12
        omega
      · rw [heq]
    have hbefore : 0 ≤ daysBefore b.year b.month := by
      unfold daysBefore
      split_ifs <;> omega
    omega
  · have hmonth := @daysBefore_mono a.year _ _ ham.1 hm hbm.2
    rw [← hy]
    omega
  · rw [← hy, ← hm]
    omega

theorem dayNumber_strictMono : StrictMono dayNumber := fun _ _ h => dayNumber_lt h

theorem dayNumber_le_iff {a b : Date} : a.dayNumber ≤ b.dayNumber ↔ a ≤ b :=
  dayNumber_strictMono.le_iff_le

theorem dayNumber_lt_iff {a b : Date} : a.dayNumber < b.dayNumber ↔ a < b :=
  dayNumber_strictMono.lt_iff_lt

theorem dayNumber_iterate (d : Date) (n : ℕ) : (next^[n] d).dayNumber = d.dayNumber + n := by
  induction n with
  | zero => simp
  | succ n ih =>
      rw [Function.iterate_succ_apply', dayNumber_next, ih]
      push_cast
      omega

/-- No number is left out. -/
theorem exists_dayNumber {a : Date} {n : ℤ} (h : a.dayNumber ≤ n) :
    ∃ d : Date, d.dayNumber = n := by
  refine ⟨next^[(n - a.dayNumber).toNat] a, ?_⟩
  rw [dayNumber_iterate]
  omega

theorem image_Icc (a b : Date) :
    dayNumber '' Set.Icc a b = Set.Icc a.dayNumber b.dayNumber := by
  ext n
  constructor
  · rintro ⟨d, ⟨h1, h2⟩, rfl⟩
    exact ⟨dayNumber_le_iff.mpr h1, dayNumber_le_iff.mpr h2⟩
  · rintro ⟨h1, h2⟩
    obtain ⟨d, rfl⟩ := exists_dayNumber h1
    exact ⟨d, ⟨dayNumber_le_iff.mp h1, dayNumber_le_iff.mp h2⟩, rfl⟩

/-- The number of dates from `a` to `b`. -/
theorem ncard_Icc (a b : Date) :
    (Set.Icc a b).ncard = (b.dayNumber + 1 - a.dayNumber).toNat := by
  rw [← Set.ncard_image_of_injective _ dayNumber_strictMono.injective, image_Icc,
    ← Finset.coe_Icc, Set.ncard_coe_finset, Int.card_Icc]

/-! ## Counting dates -/

theorem lt_next (d : Date) : d < d.next := by
  rw [← dayNumber_lt_iff, dayNumber_next]
  omega

theorem next_le_iff {a b : Date} : a.next ≤ b ↔ a < b := by
  rw [← dayNumber_le_iff, ← dayNumber_lt_iff, dayNumber_next]
  omega

theorem finite_Icc (a b : Date) : (Set.Icc a b).Finite := by
  refine Set.Finite.of_finite_image ?_ dayNumber_strictMono.injective.injOn
  rw [image_Icc]
  exact Set.finite_Icc _ _

/-- The number of dates from `a` to `b` that satisfy `p`. -/
noncomputable def count (p : Date → Prop) (a b : Date) : ℕ := {d | d ∈ Set.Icc a b ∧ p d}.ncard

theorem finite_count (p : Date → Prop) (a b : Date) : {d | d ∈ Set.Icc a b ∧ p d}.Finite :=
  (finite_Icc a b).subset fun _ h => h.1

variable {p q : Date → Prop} {a b c : Date}

theorem count_of_lt (h : b < a) : count p a b = 0 := by
  have hempty : {d | d ∈ Set.Icc a b ∧ p d} = ∅ := by
    ext d
    simp only [Set.mem_ofPred_eq, Set.mem_Icc, Set.mem_empty_iff_false, iff_false]
    intro hd
    exact absurd (hd.1.1.trans hd.1.2) (not_le.mpr h)
  rw [count, hempty, Set.ncard_empty]

theorem count_congr (h : ∀ d, a ≤ d → d ≤ b → (p d ↔ q d)) : count p a b = count q a b := by
  have hset : {d | d ∈ Set.Icc a b ∧ p d} = {d | d ∈ Set.Icc a b ∧ q d} := by
    ext d
    exact and_congr_right fun hd => h d hd.1 hd.2
  rw [count, count, hset]

/-- Every date. -/
theorem count_true (h : ∀ d, a ≤ d → d ≤ b → p d) : count p a b = (Set.Icc a b).ncard := by
  have hset : {d | d ∈ Set.Icc a b ∧ p d} = Set.Icc a b := by
    ext d
    exact and_iff_left_of_imp fun hd => h d hd.1 hd.2
  rw [count, hset]

/-- Adjacent ranges add up. -/
theorem count_append (hac : a ≤ c.next) (hcb : c ≤ b) :
    count p a b = count p a c + count p c.next b := by
  have hset : {d | d ∈ Set.Icc a b ∧ p d}
      = {d | d ∈ Set.Icc a c ∧ p d} ∪ {d | d ∈ Set.Icc c.next b ∧ p d} := by
    ext d
    simp only [Set.mem_union, Set.mem_ofPred_eq, Set.mem_Icc, next_le_iff]
    constructor
    · rintro ⟨⟨had, hdb⟩, hp⟩
      rcases le_or_gt d c with hdc | hcd
      · exact Or.inl ⟨⟨had, hdc⟩, hp⟩
      · exact Or.inr ⟨⟨hcd, hdb⟩, hp⟩
    · rintro (⟨⟨had, hdc⟩, hp⟩ | ⟨⟨hcd, hdb⟩, hp⟩)
      · exact ⟨⟨had, hdc.trans hcb⟩, hp⟩
      · exact ⟨⟨hac.trans (next_le_iff.mpr hcd), hdb⟩, hp⟩
  have hdisjoint : Disjoint {d | d ∈ Set.Icc a c ∧ p d} {d | d ∈ Set.Icc c.next b ∧ p d} := by
    rw [Set.disjoint_left]
    rintro d ⟨⟨-, hdc⟩, -⟩ ⟨⟨hcd, -⟩, -⟩
    exact absurd hdc (not_le.mpr (next_le_iff.mp hcd))
  rw [count, hset, Set.ncard_union_eq hdisjoint (finite_count p a c) (finite_count p c.next b)]
  rfl

theorem count_self [Decidable (p a)] : count p a a = if p a then 1 else 0 := by
  unfold count
  split
  · rename_i hp
    have hset : {d | d ∈ Set.Icc a a ∧ p d} = {a} := by
      ext d
      rw [Set.Icc_self]
      exact and_iff_left_of_imp fun hd => hd ▸ hp
    rw [hset, Set.ncard_singleton]
  · rename_i hp
    have hset : {d | d ∈ Set.Icc a a ∧ p d} = ∅ := by
      rw [Set.eq_empty_iff_forall_notMem]
      rintro d ⟨hd, hpd⟩
      rw [Set.Icc_self, Set.mem_singleton_iff] at hd
      exact hp (hd ▸ hpd)
    rw [hset, Set.ncard_empty]

/-- The first date, and those after it. -/
theorem count_next [Decidable (p a)] (h : a ≤ b) :
    count p a b = (if p a then 1 else 0) + count p a.next b := by
  rw [count_append (lt_next a).le h, count_self]

/-- A part of the range and fewer of its dates give the same count only if nothing
is left out. -/
theorem count_eq_iff (hcb : c ≤ b) (hqp : ∀ d, a ≤ d → d ≤ c → q d → p d) :
    count q a c = count p a b ↔ ∀ d, a ≤ d → d ≤ b → p d → d ≤ c ∧ q d := by
  have hsub : {d | d ∈ Set.Icc a c ∧ q d} ⊆ {d | d ∈ Set.Icc a b ∧ p d} := by
    rintro d ⟨hd, hq⟩
    exact ⟨⟨hd.1, hd.2.trans hcb⟩, hqp d hd.1 hd.2 hq⟩
  constructor
  · intro h d had hdb hp
    have hset := Set.eq_of_subset_of_ncard_le hsub (Nat.le_of_eq h.symm) (finite_count p a b)
    have hmem : d ∈ {d | d ∈ Set.Icc a c ∧ q d} := by
      rw [hset]
      exact ⟨⟨had, hdb⟩, hp⟩
    exact ⟨hmem.1.2, hmem.2⟩
  · intro h
    have hset : {d | d ∈ Set.Icc a c ∧ q d} = {d | d ∈ Set.Icc a b ∧ p d} := by
      refine Set.Subset.antisymm hsub ?_
      rintro d ⟨hd, hp⟩
      have hin := h d hd.1 hd.2 hp
      exact ⟨⟨hd.1, hin.1⟩, hin.2⟩
    rw [count, count, hset]

end Date

end LeaveLedger.Lib
