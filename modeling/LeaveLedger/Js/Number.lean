import Mathlib.Algebra.Order.Field.Rat
import Mathlib.Data.List.DropRight
import Mathlib.Data.Rat.Floor

/-!
# Js — Numbers

The numbers of the program are read as exact rationals: every balance,
day count and millisecond the services compute with is a sum or a
difference of finite decimals. `toNumber` is the conversion `Number(s)`
of a string; it answers `none` where JavaScript has `NaN` or an
infinity, which every caller here passes on to `Date.UTC`, where both
give `NaN`.
-/

namespace LeaveLedger.Js

/-- White space and line terminators, which `Number` trims. -/
def isSpace (c : Char) : Bool :=
  let n := c.toNat
  (9 ≤ n && n ≤ 13) || n == 32 || n == 0xA0 || n == 0x1680
    || (0x2000 ≤ n && n ≤ 0x200A) || n == 0x2028 || n == 0x2029 || n == 0x202F
    || n == 0x205F || n == 0x3000 || n == 0xFEFF

def isDigit (c : Char) : Bool := 48 ≤ c.toNat && c.toNat ≤ 57

/-- The value of a digit in bases up to 16. -/
def digitVal (c : Char) : Option ℕ :=
  let n := c.toNat
  if isDigit c then some (n - 48)
  else if 97 ≤ n && n ≤ 102 then some (n - 87)
  else if 65 ≤ n && n ≤ 70 then some (n - 55)
  else none

/-- A non-empty numeral in the given base. -/
def radixNumeral (base : ℕ) : List Char → Option ℕ
  | [] => none
  | cs => cs.foldlM (fun acc c =>
      (digitVal c).bind fun d => if d < base then some (acc * base + d) else none) 0

/-- The exponent after `e`: an optional sign and digits. -/
def exponent : List Char → Option ℤ
  | '+' :: cs => (radixNumeral 10 cs).map Int.ofNat
  | '-' :: cs => (radixNumeral 10 cs).map fun n => -Int.ofNat n
  | cs => (radixNumeral 10 cs).map Int.ofNat

/-- An unsigned decimal literal: digits, a fraction, an exponent, with at
least one digit before the exponent. -/
def decimalLiteral (cs : List Char) : Option ℚ :=
  let whole := cs.takeWhile isDigit
  let afterWhole := cs.dropWhile isDigit
  let frac := match afterWhole with
    | '.' :: r => r.takeWhile isDigit
    | _ => []
  let rest := match afterWhole with
    | '.' :: r => r.dropWhile isDigit
    | r => r
  (radixNumeral 10 (whole ++ frac)).bind fun n =>
    let mantissa : ℚ := (n : ℚ) / 10 ^ frac.length
    match rest with
    | [] => some mantissa
    | c :: e => if c = 'e' ∨ c = 'E' then (exponent e).map fun x => mantissa * 10 ^ x else none

/-- The string without white space at either end. -/
def trim (cs : List Char) : List Char :=
  ((cs.dropWhile isSpace).reverse.dropWhile isSpace).reverse

theorem dropWhile_of_all {p : Char → Bool} {cs : List Char} (h : ∀ c ∈ cs, p c = false) :
    cs.dropWhile p = cs := by
  cases cs with
  | nil => rfl
  | cons c rest => rw [List.dropWhile_cons, h c List.mem_cons_self]; rfl

/-- Nothing is trimmed where there is no white space. -/
theorem trim_of_all {cs : List Char} (h : ∀ c ∈ cs, isSpace c = false) : trim cs = cs := by
  unfold trim
  rw [dropWhile_of_all h, dropWhile_of_all fun c hc => h c (List.mem_reverse.mp hc),
    List.reverse_reverse]

/-- `Number(s)`, `none` for `NaN` and the infinities. -/
def toNumber (s : List Char) : Option ℚ :=
  match trim s with
  | [] => some 0
  | '0' :: 'x' :: r | '0' :: 'X' :: r => (radixNumeral 16 r).map fun n : ℕ => (n : ℚ)
  | '0' :: 'o' :: r | '0' :: 'O' :: r => (radixNumeral 8 r).map fun n : ℕ => (n : ℚ)
  | '0' :: 'b' :: r | '0' :: 'B' :: r => (radixNumeral 2 r).map fun n : ℕ => (n : ℚ)
  | '+' :: r => decimalLiteral r
  | '-' :: r => (decimalLiteral r).map fun q => -q
  | r => decimalLiteral r

example : toNumber " 2030 ".toList = some 2030 := by decide +kernel
example : toNumber "05T10:00".toList = none := by decide +kernel

/-- `ToIntegerOrInfinity` of a finite number: rounding toward zero. -/
def toInteger (q : ℚ) : ℤ := q.num.tdiv q.den

/-! ## Rendering -/

/-- The exponent behind `e`, with its sign. -/
def exponentText (m : ℤ) : List Char :=
  (if m < 0 then '-' else '+') :: Nat.toDigits 10 m.natAbs

/-- One digit before the point. -/
def mantissaText : List Char → List Char
  | [] => []
  | [d] => [d]
  | d :: rest => d :: '.' :: rest

/-- The digits with the decimal point behind the first `n` of them, in one of the four ways of
`Number.prototype.toString`. -/
def layout (digits : List Char) (n : ℤ) : List Char :=
  if digits.length ≤ n ∧ n ≤ 21 then
    digits ++ List.replicate (n - digits.length).toNat '0'
  else if 0 < n ∧ n ≤ 21 then digits.take n.toNat ++ '.' :: digits.drop n.toNat
  else if -6 < n ∧ n ≤ 0 then '0' :: '.' :: (List.replicate (-n).toNat '0' ++ digits)
  else mantissaText digits ++ 'e' :: exponentText (n - 1)

/-- The characters of a number. -/
def isNumberChar (c : Char) : Bool := c.isDigit || c = '.' || c = 'e' || c = '+' || c = '-'

theorem isNumberChar_of_digit {c : Char} (h : c.isDigit) : isNumberChar c := by
  simp [isNumberChar, h]

theorem exponentText_chars (m : ℤ) : ∀ c ∈ exponentText m, isNumberChar c := by
  intro c hc
  rcases List.mem_cons.mp hc with rfl | hc
  · split <;> rfl
  · exact isNumberChar_of_digit (Nat.isDigit_of_mem_toDigits (by decide) (by decide) hc)

theorem mantissaText_chars {ds : List Char} (h : ∀ c ∈ ds, isNumberChar c) :
    ∀ c ∈ mantissaText ds, isNumberChar c := by
  cases ds with
  | nil => exact h
  | cons d rest =>
      cases rest with
      | nil => exact h
      | cons d' rest =>
          intro c hc
          rcases List.mem_cons.mp hc with rfl | hc
          · exact h _ List.mem_cons_self
          · rcases List.mem_cons.mp hc with rfl | hc
            · rfl
            · exact h c (List.mem_cons_of_mem _ hc)

theorem layout_chars {ds : List Char} (h : ∀ c ∈ ds, c.isDigit) (n : ℤ) :
    ∀ c ∈ layout ds n, isNumberChar c := by
  have hds : ∀ c ∈ ds, isNumberChar c := fun c hc => isNumberChar_of_digit (h c hc)
  have hzeros : ∀ (m : ℕ), ∀ c ∈ List.replicate m '0', isNumberChar c := by
    intro m c hc
    rw [List.eq_of_mem_replicate hc]
    rfl
  unfold layout
  intro c hc
  split_ifs at hc
  · rcases List.mem_append.mp hc with hc | hc
    · exact hds c hc
    · exact hzeros _ c hc
  · rcases List.mem_append.mp hc with hc | hc
    · exact hds c (List.mem_of_mem_take hc)
    · rcases List.mem_cons.mp hc with rfl | hc
      · rfl
      · exact hds c (List.mem_of_mem_drop hc)
  · rcases List.mem_cons.mp hc with rfl | hc
    · rfl
    · rcases List.mem_cons.mp hc with rfl | hc
      · rfl
      · rcases List.mem_append.mp hc with hc | hc
        · exact hzeros _ c hc
        · exact hds c hc
  · rcases List.mem_append.mp hc with hc | hc
    · exact mantissaText_chars hds c hc
    · rcases List.mem_cons.mp hc with rfl | hc
      · rfl
      · exact exponentText_chars _ c hc

/-- The digits of the fraction `num / den < 1`, as many as `fuel` allows. -/
def fractionDigits (den : ℕ) : ℕ → ℕ → List Char
  | 0, _ => []
  | _ + 1, 0 => []
  | fuel + 1, num => Nat.toDigits 10 (num * 10 / den) ++ fractionDigits den fuel (num * 10 % den)

theorem fractionDigits_digits (den fuel : ℕ) :
    ∀ num, ∀ c ∈ fractionDigits den fuel num, c.isDigit := by
  induction fuel with
  | zero =>
      intro num c hc
      cases hc
  | succ fuel ih =>
      intro num c hc
      cases num with
      | zero => cases hc
      | succ num =>
          rcases List.mem_append.mp hc with hc | hc
          · exact Nat.isDigit_of_mem_toDigits (by decide) (by decide) hc
          · exact ih _ c hc

/-- The digits of a number before the decimal point and behind it. -/
def numberDigits (q : ℚ) : List Char × List Char :=
  let n := q.num.natAbs
  (Nat.toDigits 10 (n / q.den), fractionDigits q.den (max 17 q.den.log2) (n % q.den))

/-- `String(q)` for a number with a last decimal. -/
def numberText (q : ℚ) : String :=
  let (whole, fraction) := numberDigits q
  -- the significant digits: no zero at either end
  let digits := (whole ++ fraction).dropWhile (· = '0')
  let zeros : ℤ := (whole ++ fraction).length - digits.length
  if q = 0 then "0"
  else String.ofList ((if q < 0 then ['-'] else [])
    ++ layout (digits.rdropWhile (· = '0')) (whole.length - zeros))

theorem numberText_chars (q : ℚ) : ∀ c ∈ (numberText q).toList, isNumberChar c := by
  have hdigits : ∀ c ∈ (numberDigits q).1 ++ (numberDigits q).2, c.isDigit := by
    intro c hc
    rcases List.mem_append.mp hc with hc | hc
    · exact Nat.isDigit_of_mem_toDigits (by decide) (by decide) hc
    · exact fractionDigits_digits _ _ _ c hc
  intro c hc
  simp only [numberText] at hc
  split at hc
  · rw [List.mem_singleton.mp hc]
    rfl
  · rw [String.toList_ofList] at hc
    rcases List.mem_append.mp hc with hc | hc
    · split at hc
      · rw [List.mem_singleton.mp hc]
        rfl
      · cases hc
    · refine layout_chars (fun c hc => hdigits c ?_) _ c hc
      exact List.dropWhile_subset _ ((List.rdropWhile_prefix _ _).subset hc)

example : numberText (5 / 2) = "2.5" ∧ numberText (-1 / 20) = "-0.05"
    ∧ numberText (10 ^ 21) = "1e+21" ∧ numberText (1 / 10 ^ 7) = "1e-7" := by
  decide +kernel

end LeaveLedger.Js
