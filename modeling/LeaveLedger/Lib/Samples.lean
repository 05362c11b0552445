import Mathlib.Data.List.Sort
import Mathlib.Data.List.DropRight
import Mathlib.Order.Bounds.Basic

/-!
# Lib — Samples

The last elements of a list that grows at its end, and ranks in a sorted
list: the element at position `i` is the least one that more than `i`
elements do not exceed.
-/

namespace LeaveLedger.Lib

/-! ## Sliding windows -/

section
variable {α : Type*}

/-- A full ring buffer shifts when it is pushed to. -/
theorem rtake_concat {n : ℕ} (hn : 0 < n) (l : List α) (x : α) :
    (if n < (l.rtake n ++ [x]).length then (l.rtake n ++ [x]).tail else l.rtake n ++ [x])
      = (l ++ [x]).rtake n := by
  unfold List.rtake
  rw [← List.drop_append_of_le_length (Nat.sub_le l.length n)]
  have hlength : ((l ++ [x]).drop (l.length - n)).length = l.length + 1 - (l.length - n) := by
    simp
  rw [hlength, List.length_append, List.length_singleton]
  split
  case isTrue hfull =>
    rw [← List.drop_one, List.drop_drop]
    congr 1
    omega
  case isFalse hroom =>
    congr 1
    omega

theorem length_rtake (n : ℕ) (l : List α) : (l.rtake n).length = min n l.length := by
  simp only [List.rtake, List.length_drop]
  omega

end

/-! ## Ranks -/

section
variable {α : Type*} [LinearOrder α] {l : List α} {i : ℕ} {x : α}

/-- The elements up to a position do not exceed the one there. -/
theorem lt_countP_getElem (hsorted : l.SortedLE) (hi : i < l.length) :
    i < l.countP (· ≤ l[i]) := by
  have hall : ∀ y ∈ l.take (i + 1), decide (y ≤ l[i]) = true := by
    intro y hy
    obtain ⟨j, hj, rfl⟩ := List.getElem_of_mem hy
    rw [List.length_take] at hj
    rw [List.getElem_take, decide_eq_true_eq]
    exact hsorted.getElem_le_getElem_of_le (by omega)
  have htake : (l.take (i + 1)).countP (· ≤ l[i]) = i + 1 := by
    rw [List.countP_eq_length.mpr hall, List.length_take]
    omega
  have hmono := (List.take_sublist (i + 1) l).countP_le (p := (· ≤ l[i]))
  omega

/-- What more elements do not exceed than come before a position is not below the one
there. -/
theorem getElem_le_of_lt_countP (hsorted : l.SortedLE) (hi : i < l.length)
    (hx : i < l.countP (· ≤ x)) : l[i] ≤ x := by
  by_contra hlt
  have hdrop : (l.drop i).countP (· ≤ x) = 0 := by
    rw [List.countP_eq_zero]
    intro y hy
    obtain ⟨j, hj, rfl⟩ := List.getElem_of_mem hy
    rw [List.getElem_drop, decide_eq_true_eq]
    intro hle
    exact hlt ((hsorted.getElem_le_getElem_of_le (by omega)).trans hle)
  have htake : (l.take i).countP (· ≤ x) ≤ i := by
    have hlen := List.countP_le_length (p := (· ≤ x)) (l := l.take i)
    rw [List.length_take] at hlen
    omega
  have hsplit : l.countP (· ≤ x) = (l.take i).countP (· ≤ x) + (l.drop i).countP (· ≤ x) := by
    rw [← List.countP_append, List.take_append_drop]
  omega

/-- **Order statistics**: the element at position `i` of a sorted list. -/
theorem isLeast_getElem (hsorted : l.SortedLE) (hi : i < l.length) :
    IsLeast {x | x ∈ l ∧ i < l.countP (· ≤ x)} l[i] := by
  constructor
  · exact ⟨List.getElem_mem hi, lt_countP_getElem hsorted hi⟩
  · rintro x ⟨-, hx⟩
    exact getElem_le_of_lt_countP hsorted hi hx

/-- A list and its sorted copy have the same ranks. -/
theorem isLeast_insertionSort (hi : i < (l.insertionSort (· ≤ ·)).length) :
    IsLeast {x | x ∈ l ∧ i < l.countP (· ≤ x)} (l.insertionSort (· ≤ ·))[i] := by
  have hperm := List.perm_insertionSort (· ≤ ·) l
  have hleast := isLeast_getElem (List.sortedLE_insertionSort (l := l)) hi
  simpa only [hperm.mem_iff, hperm.countP_eq] using hleast

end

end LeaveLedger.Lib
