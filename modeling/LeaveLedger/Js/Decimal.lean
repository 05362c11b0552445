import LeaveLedger.Js.Number
import Mathlib

/-!
# Js — The text of a number

A finite number is printed from the shortest run of digits that names it
and the place of its decimal point. So it is given here by these: a
significand that does not end in zero and an exponent of ten. `text` lays
them out, and `decode` reads digits and point back off the layout: no two
numbers share their text.
-/

namespace LeaveLedger.Js

/-- A finite number `± significand · 10 ^ exponent`, in the one way it can be
given without a trailing zero. -/
structure Decimal where
  negative : Bool
  significand : ℕ
  exponent : ℤ
  canonical : significand % 10 ≠ 0 ∨ significand = 0 ∧ exponent = 0 ∧ negative = false

/-- `String(x)`. -/
def Decimal.text (x : Decimal) : List Char :=
  if x.significand = 0 then ['0']
  else
    let digits := Nat.toDigits 10 x.significand
    (if x.negative then ['-'] else []) ++ layout digits (digits.length + x.exponent)

/-! ## Reading it back -/

/-- What stands before and behind the first `c`. -/
def cutAt (c : Char) (t : List Char) : List Char × List Char :=
  (t.takeWhile (· ≠ c), (t.dropWhile (· ≠ c)).tail)

theorem cutAt_append {c : Char} {a b : List Char} (h : c ∉ a) : cutAt c (a ++ c :: b) = (a, b) := by
  have hne : ∀ x ∈ a, decide (x ≠ c) = true := by
    intro x hx
    exact decide_eq_true fun heq => h (heq ▸ hx)
  unfold cutAt
  rw [List.takeWhile_append_of_pos hne, List.dropWhile_append_of_pos hne]
  simp

def readExponent : List Char → ℤ
  | '-' :: ds => -(Nat.ofDigitChars 10 ds 0 : ℤ)
  | '+' :: ds => Nat.ofDigitChars 10 ds 0
  | _ => 0

theorem readExponent_text (m : ℤ) : readExponent (exponentText m) = m := by
  unfold exponentText
  split
  · rw [readExponent, Nat.ofDigitChars_ten_toDigits]
    omega
  · rw [readExponent, Nat.ofDigitChars_ten_toDigits]
    omega

/-- The digits and the place of the point, read off a layout. -/
def decode (t : List Char) : List Char × ℤ :=
  if 'e' ∈ t then
    (((cutAt 'e' t).1).filter (· ≠ '.'), readExponent (cutAt 'e' t).2 + 1)
  else if '.' ∈ t then
    if (cutAt '.' t).1 = ['0'] then
      ((cutAt '.' t).2.dropWhile (· = '0'), -(((cutAt '.' t).2.takeWhile (· = '0')).length : ℤ))
    else ((cutAt '.' t).1 ++ (cutAt '.' t).2, (cutAt '.' t).1.length)
  else (t.rdropWhile (· = '0'), t.length)

/-- Digits as a significand has them. -/
structure Digits (ds : List Char) : Prop where
  ne_nil : ds ≠ []
  digit : ∀ c ∈ ds, c.isDigit
  first : ds.head? ≠ some '0'
  last : ds.getLast? ≠ some '0'

theorem Digits.not_mem {ds : List Char} (h : Digits ds) {c : Char} (hc : c.isDigit = false) :
    c ∉ ds := by
  intro hmem
  rw [h.digit c hmem] at hc
  cases hc

theorem Digits.rdropWhile_zeros {ds : List Char} (h : Digits ds) (m : ℕ) :
    (ds ++ List.replicate m '0').rdropWhile (· = '0') = ds := by
  induction m with
  | zero =>
      rw [List.replicate_zero, List.append_nil, List.rdropWhile_eq_self_iff]
      intro hne hlast
      refine h.last ?_
      rw [List.getLast?_eq_some_getLast hne, of_decide_eq_true hlast]
  | succ m ih =>
      rw [List.replicate_succ', ← List.append_assoc, List.rdropWhile_concat_pos]
      · exact ih
      · simp

theorem Digits.zeros_before {ds : List Char} (h : Digits ds) (m : ℕ) :
    (List.replicate m '0' ++ ds).dropWhile (· = '0') = ds
    ∧ (List.replicate m '0' ++ ds).takeWhile (· = '0') = List.replicate m '0' := by
  have hzeros : ∀ c ∈ List.replicate m '0', decide (c = '0') = true := by
    intro c hc
    exact decide_eq_true (List.eq_of_mem_replicate hc)
  rw [List.dropWhile_append_of_pos hzeros, List.takeWhile_append_of_pos hzeros]
  obtain ⟨hne, -, hfirst, -⟩ := h
  cases ds with
  | nil => exact absurd rfl hne
  | cons d rest =>
      have hd : d ≠ '0' := fun heq => hfirst (congrArg some heq)
      simp [hd]

theorem Digits.take_ne_zero {ds : List Char} (h : Digits ds) {m : ℕ} (hm : 0 < m) :
    ds.take m ≠ ['0'] := by
  obtain ⟨hne, -, hfirst, -⟩ := h
  cases ds with
  | nil => exact absurd rfl hne
  | cons d rest =>
      obtain ⟨k, rfl⟩ := Nat.exists_eq_succ_of_ne_zero (Nat.pos_iff_ne_zero.mp hm)
      rw [List.take_succ_cons]
      intro heq
      exact hfirst (congrArg some (List.cons.inj heq).1)

theorem filter_mantissaText {ds : List Char} (h : '.' ∉ ds) :
    (mantissaText ds).filter (· ≠ '.') = ds := by
  have hkeep : ∀ {l : List Char}, '.' ∉ l → l.filter (· ≠ '.') = l := by
    intro l hl
    rw [List.filter_eq_self]
    intro c hc
    exact decide_eq_true fun heq => hl (heq ▸ hc)
  cases ds with
  | nil => rfl
  | cons d rest =>
      cases rest with
      | nil => exact hkeep h
      | cons d' rest =>
          have hskip : (mantissaText (d :: d' :: rest)).filter (· ≠ '.')
              = (d :: d' :: rest).filter (· ≠ '.') := by
            simp [mantissaText, List.filter_cons]
          rw [hskip, hkeep h]

theorem not_mem_mantissaText {ds : List Char} {c : Char} (h : c ∉ ds) (hc : c ≠ '.') :
    c ∉ mantissaText ds := by
  cases ds with
  | nil => exact h
  | cons d rest =>
      cases rest with
      | nil => exact h
      | cons d' rest =>
          simp only [mantissaText, List.mem_cons, not_or] at h ⊢
          exact ⟨h.1, hc, h.2⟩

/-- **The round trip**: a layout gives its digits and its point back. -/
theorem decode_layout {ds : List Char} (h : Digits ds) (n : ℤ) :
    decode (layout ds n) = (ds, n) := by
  have he : 'e' ∉ ds := h.not_mem rfl
  have hdot : '.' ∉ ds := h.not_mem rfl
  have hpos : 0 < ds.length := List.length_pos_iff.mpr h.ne_nil
  unfold layout
  split_ifs with hwhole hpoint hsmall
  · -- all the digits stand before the point
    obtain ⟨m, hm⟩ : ∃ m, (n - ds.length).toNat = m := ⟨_, rfl⟩
    have hmem : ∀ c, c ∉ ds → c ≠ '0' → c ∉ ds ++ List.replicate m '0' := by
      intro c hc hzero
      rw [List.mem_append, not_or]
      exact ⟨hc, fun h => hzero (List.eq_of_mem_replicate h)⟩
    rw [hm, decode, if_neg (hmem 'e' he (by decide)), if_neg (hmem '.' hdot (by decide)),
      h.rdropWhile_zeros, List.length_append, List.length_replicate]
    refine Prod.ext rfl ?_
    show ((ds.length + m : ℕ) : ℤ) = n
    omega
  · -- the point stands among the digits
    obtain ⟨m, hm⟩ : ∃ m, n.toNat = m := ⟨_, rfl⟩
    have hlt : m < ds.length := by omega
    have htake : ∀ {c : Char}, c ∉ ds → c ∉ ds.take m := fun hc h => hc (List.mem_of_mem_take h)
    have hdrop : ∀ {c : Char}, c ∉ ds → c ∉ ds.drop m := fun hc h => hc (List.mem_of_mem_drop h)
    have hnoe : 'e' ∉ ds.take m ++ '.' :: ds.drop m := by
      rw [List.mem_append, List.mem_cons]
      rintro (h | h | h)
      · exact htake he h
      · cases h
      · exact hdrop he h
    have hsome : '.' ∈ ds.take m ++ '.' :: ds.drop m := by simp
    rw [hm, decode, if_neg hnoe, if_pos hsome, cutAt_append (htake hdot),
      if_neg (h.take_ne_zero (by omega)), List.take_append_drop, List.length_take]
    refine Prod.ext rfl ?_
    show ((min m ds.length : ℕ) : ℤ) = n
    omega
  · -- zeros stand between the point and the digits
    obtain ⟨m, hm⟩ : ∃ m, (-n).toNat = m := ⟨_, rfl⟩
    have hdigits : ∀ {c : Char}, c ∉ ds → c ≠ '0' → c ∉ List.replicate m '0' ++ ds := by
      intro c hc hzero
      rw [List.mem_append, not_or]
      exact ⟨fun h => hzero (List.eq_of_mem_replicate h), hc⟩
    have hnoe : 'e' ∉ '0' :: '.' :: (List.replicate m '0' ++ ds) := by
      rw [List.mem_cons, List.mem_cons]
      rintro (h | h | h)
      · cases h
      · cases h
      · exact hdigits he (by decide) h
    have hcut : cutAt '.' ('0' :: '.' :: (List.replicate m '0' ++ ds))
        = (['0'], List.replicate m '0' ++ ds) := cutAt_append (a := ['0']) (by decide)
    obtain ⟨hdropped, htaken⟩ := h.zeros_before m
    rw [hm, decode, if_neg hnoe, if_pos (by simp), hcut, if_pos rfl, hdropped, htaken,
      List.length_replicate]
    refine Prod.ext rfl ?_
    show -(m : ℤ) = n
    omega
  · -- one digit before the point and an exponent
    have hnot : 'e' ∉ mantissaText ds := not_mem_mantissaText he (by decide)
    have hsome : 'e' ∈ mantissaText ds ++ 'e' :: exponentText (n - 1) := by simp
    rw [decode, if_pos hsome, cutAt_append hnot, filter_mantissaText hdot, readExponent_text]
    refine Prod.ext rfl ?_
    show n - 1 + 1 = n
    omega

/-! ## The text of a number -/

theorem digitChar_ne_zero {d : ℕ} (h : d % 10 ≠ 0) : (d % 10).digitChar ≠ '0' := by
  have hall : ∀ m < 10, m ≠ 0 → m.digitChar ≠ '0' := by decide
  exact hall _ (Nat.mod_lt _ (by decide)) h

theorem toDigits_head {s : ℕ} (hs : 0 < s) : (Nat.toDigits 10 s).head? ≠ some '0' := by
  induction s using Nat.strongRecOn with
  | ind s ih =>
      by_cases hlt : s < 10
      · rw [Nat.toDigits_of_lt_base hlt, List.head?_cons]
        have hne := digitChar_ne_zero (d := s) (by omega)
        rw [Nat.mod_eq_of_lt hlt] at hne
        exact fun h => hne (Option.some.inj h)
      · rw [Nat.toDigits_of_base_le (by decide) (not_lt.mp hlt),
          List.head?_append_of_ne_nil _ Nat.toDigits_ne_nil]
        exact ih (s / 10) (by omega) (by omega)

theorem toDigits_last {s : ℕ} (hs : s % 10 ≠ 0) : (Nat.toDigits 10 s).getLast? ≠ some '0' := by
  have hlast : (Nat.toDigits 10 s).getLast? = some (s % 10).digitChar := by
    by_cases hlt : s < 10
    · rw [Nat.toDigits_of_lt_base hlt, Nat.mod_eq_of_lt hlt]
      rfl
    · rw [Nat.toDigits_of_base_le (by decide) (not_lt.mp hlt), List.getLast?_concat]
  rw [hlast]
  exact fun h => digitChar_ne_zero hs (Option.some.inj h)

theorem digits_toDigits {s : ℕ} (hs : s % 10 ≠ 0) : Digits (Nat.toDigits 10 s) where
  ne_nil := Nat.toDigits_ne_nil
  digit c hc := Nat.isDigit_of_mem_toDigits (by decide) (by decide) hc
  first := toDigits_head (by omega)
  last := toDigits_last hs

/-- A layout begins with a digit. -/
theorem layout_head {ds : List Char} (h : Digits ds) (n : ℤ) :
    ∃ c rest, layout ds n = c :: rest ∧ c.isDigit := by
  unfold layout
  obtain ⟨d, rest, rfl⟩ := List.exists_cons_of_ne_nil h.ne_nil
  have hd := h.digit d List.mem_cons_self
  split_ifs with hwhole hpoint hsmall
  · exact ⟨d, _, rfl, hd⟩
  · obtain ⟨m, hm⟩ : ∃ m, n.toNat = m + 1 := ⟨n.toNat - 1, by omega⟩
    rw [hm]
    exact ⟨d, _, rfl, hd⟩
  · exact ⟨'0', _, rfl, rfl⟩
  · cases rest with
    | nil => exact ⟨d, _, rfl, hd⟩
    | cons d' rest => exact ⟨d, _, rfl, hd⟩

/-- The text of a number that is not zero. -/
theorem Decimal.text_of_ne {x : Decimal} (hx : x.significand ≠ 0) :
    ∃ n : ℤ, n = (Nat.toDigits 10 x.significand).length + x.exponent
      ∧ Digits (Nat.toDigits 10 x.significand)
      ∧ x.text = (if x.negative then ['-'] else [])
        ++ layout (Nat.toDigits 10 x.significand) n := by
  refine ⟨_, rfl, digits_toDigits ?_, if_neg hx⟩
  rcases x.canonical with h | h
  · exact h
  · exact absurd h.1 hx

theorem Decimal.text_chars (x : Decimal) : ∀ c ∈ x.text, isNumberChar c := by
  intro c hc
  by_cases hx : x.significand = 0
  · rw [Decimal.text, if_pos hx] at hc
    rw [List.mem_singleton.mp hc]
    rfl
  · obtain ⟨n, -, hdigits, htext⟩ := Decimal.text_of_ne hx
    rw [htext] at hc
    rcases List.mem_append.mp hc with hc | hc
    · split at hc
      · rw [List.mem_singleton.mp hc]
        rfl
      · cases hc
    · exact layout_chars hdigits.digit n c hc

/-- A text begins with a digit or a sign. -/
theorem Decimal.text_head (x : Decimal) :
    ∃ c rest, x.text = c :: rest
      ∧ (c.isDigit ∧ x.negative = false ∨ c = '-' ∧ x.negative = true) := by
  by_cases hx : x.significand = 0
  · refine ⟨'0', [], if_pos hx, Or.inl ⟨rfl, ?_⟩⟩
    rcases x.canonical with h | h
    · rw [hx] at h
      exact absurd rfl h
    · exact h.2.2
  · obtain ⟨n, -, hdigits, htext⟩ := Decimal.text_of_ne hx
    obtain ⟨c, rest, hlayout, hc⟩ := layout_head hdigits n
    rw [htext]
    cases hneg : x.negative with
    | true => exact ⟨'-', _, rfl, Or.inr ⟨rfl, rfl⟩⟩
    | false => exact ⟨c, rest, hlayout, Or.inl ⟨hc, rfl⟩⟩

/-- Texts that are equal have the same sign. -/
theorem Decimal.negative_of_text {x y : Decimal} (h : x.text = y.text) :
    x.negative = y.negative := by
  obtain ⟨c, rest, hx, hxc⟩ := x.text_head
  obtain ⟨d, rest', hy, hyd⟩ := y.text_head
  rw [hx, hy] at h
  obtain ⟨rfl, -⟩ := List.cons.inj h
  rcases hxc with ⟨hc, hxn⟩ | ⟨rfl, hxn⟩
  · rcases hyd with ⟨-, hyn⟩ | ⟨rfl, -⟩
    · rw [hxn, hyn]
    · cases hc
  · rcases hyd with ⟨hd, -⟩ | ⟨-, hyn⟩
    · cases hd
    · rw [hxn, hyn]

/-- Zero shares its text with no other number. -/
theorem Decimal.text_ne_zero {x : Decimal} (hx : x.significand ≠ 0) : x.text ≠ ['0'] := by
  obtain ⟨n, -, hdigits, htext⟩ := Decimal.text_of_ne hx
  rw [htext]
  cases x.negative with
  | true =>
      intro h
      cases (List.cons.inj h).1
  | false =>
      intro h
      have hdecode := decode_layout hdigits n
      rw [show layout (Nat.toDigits 10 x.significand) n = ['0'] from h] at hdecode
      exact hdigits.ne_nil (congrArg Prod.fst hdecode).symm

/-- **No two numbers share their text.** -/
theorem Decimal.text_injective : Function.Injective Decimal.text := by
  intro x y h
  have hneg := Decimal.negative_of_text h
  have hsame : x.significand = y.significand ∧ x.exponent = y.exponent := by
    by_cases hx : x.significand = 0
    · by_cases hy : y.significand = 0
      · refine ⟨hx.trans hy.symm, ?_⟩
        rcases x.canonical with hxc | hxc
        · rw [hx] at hxc
          exact absurd rfl hxc
        · rcases y.canonical with hyc | hyc
          · rw [hy] at hyc
            exact absurd rfl hyc
          · exact hxc.2.1.trans hyc.2.1.symm
      · rw [Decimal.text, if_pos hx] at h
        exact absurd h.symm (Decimal.text_ne_zero hy)
    · by_cases hy : y.significand = 0
      · rw [show y.text = ['0'] from if_pos hy] at h
        exact absurd h (Decimal.text_ne_zero hx)
      · obtain ⟨n, hn, hdigits, hxt⟩ := Decimal.text_of_ne hx
        obtain ⟨m, hm, hdigits', hyt⟩ := Decimal.text_of_ne hy
        rw [hxt, hyt, hneg, List.append_cancel_left_eq] at h
        have hdecode := congrArg decode h
        rw [decode_layout hdigits, decode_layout hdigits'] at hdecode
        obtain ⟨hds, hpoint⟩ := Prod.mk.inj hdecode
        have hvalue := congrArg (fun ds => Nat.ofDigitChars 10 ds 0) hds
        simp only [Nat.ofDigitChars_ten_toDigits] at hvalue
        refine ⟨hvalue, ?_⟩
        rw [hds] at hn
        omega
  obtain ⟨nx, sx, ex, cx⟩ := x
  obtain ⟨ny, sy, ey, cy⟩ := y
  obtain ⟨rfl, rfl⟩ := hsame
  obtain rfl : nx = ny := hneg
  rfl

/-! ## Natural numbers -/

/-- Take up to `fuel` zeros at the end of a number into an exponent. -/
def stripZeros : ℕ → ℕ → ℕ → ℕ × ℕ
  | 0, n, e => (n, e)
  | fuel + 1, n, e => if n % 10 = 0 then stripZeros fuel (n / 10) (e + 1) else (n, e)

theorem stripZeros_canonical {fuel n : ℕ} (hn : 0 < n) (hfuel : n < 10 ^ fuel) (e : ℕ) :
    (stripZeros fuel n e).1 % 10 ≠ 0 := by
  induction fuel generalizing n e with
  | zero => omega
  | succ fuel ih =>
      rw [stripZeros]
      split
      · refine ih (by omega) ?_ (e + 1)
        rw [Nat.pow_succ] at hfuel
        omega
      · assumption

theorem lt_pow_length (n : ℕ) : n < 10 ^ (Nat.toDigits 10 n).length :=
  (Nat.length_toDigits_le_iff (by decide) Nat.length_toDigits_pos).mp (Nat.le_refl _)

/-- A natural number as a number of the runtime. -/
def Decimal.ofNat (n : ℕ) : Decimal :=
  let stripped := stripZeros (Nat.toDigits 10 n).length n 0
  if hn : 0 < n then
    ⟨false, stripped.1, stripped.2, Or.inl (stripZeros_canonical hn (lt_pow_length n) 0)⟩
  else ⟨false, 0, 0, Or.inr ⟨rfl, rfl, rfl⟩⟩

example : (Decimal.ofNat 1200).text = "1200".toList := by decide +kernel
example : (⟨true, 15, -8, by decide⟩ : Decimal).text = "-1.5e-7".toList := by decide +kernel

end LeaveLedger.Js
