import Mathlib.Data.List.Basic

/-!
# Lib — Walking through pages

A list read page by page: pages of at most `size` elements, the next one
`stride` further on, until the end is passed. With a stride of the page
size the pages make up the list again; with a longer one what lies between
the pages is never read.
-/

namespace LeaveLedger.Lib

variable {α : Type}

/-- What is read, with at most `fuel` pages. -/
def strided (size stride : ℕ) : ℕ → List α → List α
  | 0, _ => []
  | fuel + 1, l =>
      l.take size ++ (if l.length ≤ stride then [] else strided size stride fuel (l.drop stride))

variable {size stride fuel : ℕ} {l : List α}

theorem strided_map {β : Type} (f : α → β) :
    strided size stride fuel (l.map f) = (strided size stride fuel l).map f := by
  induction fuel generalizing l with
  | zero => rfl
  | succ fuel ih =>
      rw [strided, strided, ← List.map_take, ← List.map_drop, ih, List.length_map]
      split <;> simp

/-- Pages without gaps make up the list. -/
theorem strided_self (hpos : 0 < size) (hfuel : l.length < fuel) :
    strided size size fuel l = l := by
  induction fuel generalizing l with
  | zero => omega
  | succ fuel ih =>
      rw [strided]
      by_cases hend : l.length ≤ size
      · simp [hend, List.take_of_length_le hend]
      · have hrest : (l.drop size).length < fuel := by
          rw [List.length_drop]
          omega
        rw [if_neg hend, ih hrest, List.take_append_drop]

/-- A list that fits on one page is read at once. -/
theorem strided_of_le (hle : l.length ≤ size) (hstride : size ≤ stride) :
    strided size stride (fuel + 1) l = l := by
  simp [strided, Nat.le_trans hle hstride, List.take_of_length_le hle]

theorem length_strided_le (hstride : size ≤ stride) :
    (strided size stride fuel l).length ≤ l.length := by
  induction fuel generalizing l with
  | zero => simp [strided]
  | succ fuel ih =>
      rw [strided]
      split
      · simp only [List.append_nil, List.length_take]
        omega
      · have hrest := ih (l := l.drop stride)
        simp only [List.length_append, List.length_take, List.length_drop] at hrest ⊢
        omega

/-- A gap behind the first page is never read. -/
theorem length_strided_lt (hstride : size < stride) (hlong : size < l.length) :
    (strided size stride fuel l).length < l.length := by
  cases fuel with
  | zero => simp [strided]; omega
  | succ fuel =>
      rw [strided]
      split
      · simp only [List.append_nil, List.length_take]
        omega
      · have hrest : (strided size stride fuel (l.drop stride)).length
            ≤ (l.drop stride).length := length_strided_le (Nat.le_of_lt hstride)
        simp only [List.length_append, List.length_take, List.length_drop] at hrest ⊢
        omega

/-- **Pages** that do not overlap make up the list exactly when there are no gaps
between them, or nothing behind the first one. -/
theorem strided_perm_iff (hpos : 0 < size) (hstride : size ≤ stride) (hfuel : l.length < fuel) :
    (strided size stride fuel l).Perm l ↔ stride = size ∨ l.length ≤ size := by
  constructor
  · intro h
    by_contra hnot
    rw [not_or] at hnot
    have hlt : (strided size stride fuel l).length < l.length :=
      length_strided_lt (by omega) (Nat.not_le.mp hnot.2)
    rw [h.length_eq] at hlt
    omega
  · rintro (rfl | hle)
    · rw [strided_self hpos hfuel]
    · obtain ⟨n, rfl⟩ : ∃ n, fuel = n + 1 := ⟨fuel - 1, by omega⟩
      rw [strided_of_le hle hstride]

end LeaveLedger.Lib
