import LeaveLedger.Js.Number

/-!
# Js — parseInt

`parseInt(s)` of a string: the longest numeral it begins with, after white
space and a sign. `none` is `NaN`.
-/

namespace LeaveLedger.Js

/-- The digits after the sign: hexadecimal after `0x`, decimal otherwise. -/
def leadingNumeral : List Char → Option ℕ
  | '0' :: 'x' :: r | '0' :: 'X' :: r => radixNumeral 16 (r.takeWhile fun c => (digitVal c).isSome)
  | r =>
      let digits := r.takeWhile Char.isDigit
      if digits = [] then none else some (Nat.ofDigitChars 10 digits 0)

def parseInt (s : String) : Option ℤ :=
  match s.toList.dropWhile isSpace with
  | '-' :: r => (leadingNumeral r).map fun n : ℕ => -(n : ℤ)
  | '+' :: r => (leadingNumeral r).map fun n : ℕ => (n : ℤ)
  | r => (leadingNumeral r).map fun n : ℕ => (n : ℤ)

example : parseInt " 10 items" = some 10 := by decide +kernel
example : parseInt "items" = none := by decide +kernel

/-! ## A numeral that was printed -/

theorem isSpace_of_isDigit {c : Char} (h : c.isDigit) : isSpace c = false := by
  have hrange : 48 ≤ c.toNat ∧ c.toNat ≤ 57 := by
    simpa [Char.isDigit, UInt32.le_iff_toNat_le] using h
  simp only [isSpace]
  grind

theorem leadingNumeral_digits {ds : List Char} (hne : ds ≠ []) (hds : ∀ c ∈ ds, c.isDigit) :
    leadingNumeral ds = some (Nat.ofDigitChars 10 ds 0) := by
  have hall : ds.takeWhile Char.isDigit = ds := by
    conv_lhs => rw [← List.append_nil ds]
    rw [List.takeWhile_append_of_pos hds, List.takeWhile_nil, List.append_nil]
  unfold leadingNumeral
  split
  · exact absurd (hds 'x' (by simp)) (by decide)
  · exact absurd (hds 'X' (by simp)) (by decide)
  · simp only [hall, hne, if_false]

/-- A number comes back from its text. -/
theorem parseInt_toString (n : ℕ) : parseInt (toString n) = some (n : ℤ) := by
  have hdigits : ∀ c ∈ Nat.toDigits 10 n, c.isDigit := by
    intro c hc
    exact Nat.isDigit_of_mem_toDigits (by decide) (by decide) hc
  have hread := leadingNumeral_digits Nat.toDigits_ne_nil hdigits
  rw [Nat.ofDigitChars_ten_toDigits] at hread
  unfold parseInt
  rw [Nat.toString_eq_repr, Nat.toList_repr]
  obtain ⟨c, ds, hcons⟩ : ∃ c ds, Nat.toDigits 10 n = c :: ds :=
    List.exists_cons_of_ne_nil Nat.toDigits_ne_nil
  rw [hcons] at hdigits hread ⊢
  have hdigit : c.isDigit := hdigits c List.mem_cons_self
  rw [List.dropWhile_cons_of_neg (by simp [isSpace_of_isDigit hdigit])]
  split
  · rename_i heq
    cases heq
    exact absurd hdigit (by decide)
  · rename_i heq
    cases heq
    exact absurd hdigit (by decide)
  · rw [hread]
    rfl

end LeaveLedger.Js
