import LeaveLedger.Common.CustomComparator
import Mathlib.Data.List.Perm.Basic

/-!
# Queue — The array is a heap for every comparator

What the sifts, the rebuild and the search for the worst entry do to the
array of a priority queue whose comparator goes by a rank in some order. An
array is read through `rankAt`, the rank at each position with `⊤` behind
the end, and each of them keeps the entries it was given.
-/

namespace LeaveLedger

open Lib.BinaryHeap ExtNumber

variable {T κ : Type}

/-- The rank at position `i`, above all ranks where there is no entry. -/
def rankAt (rank : Entry T → κ) (heap : Array (Entry T)) (i : ℕ) : WithTop κ :=
  match heap[i]? with
  | some e => (rank e : WithTop κ)
  | none => ⊤

variable {rank : Entry T → κ} {heap : Array (Entry T)} {i j : ℕ}

theorem rankAt_of_some {e : Entry T} (h : heap[i]? = some e) : rankAt rank heap i = rank e := by
  unfold rankAt
  rw [h]

theorem rankAt_of_le (h : heap.size ≤ i) : rankAt rank heap i = ⊤ := by
  unfold rankAt
  rw [Array.getElem?_eq_none h]

theorem exists_entry (h : i < heap.size) : ∃ e, heap[i]? = some e :=
  ⟨heap[i], Array.getElem?_eq_getElem h⟩

theorem lt_size_of_some {e : Entry T} (h : heap[i]? = some e) : i < heap.size :=
  (Array.getElem?_eq_some_iff.mp h).1

theorem rankAt_push_lt (e : Entry T) (hi : i < heap.size) :
    rankAt rank (heap.push e) i = rankAt rank heap i := by
  unfold rankAt
  rw [Array.getElem?_push_lt hi, Array.getElem?_eq_getElem hi]

theorem rankAt_swap (hi : i < heap.size) (hj : j < heap.size) :
    rankAt rank (heap.swapIfInBounds i j) = rankAt rank heap ∘ Equiv.swap i j := by
  funext k
  have hswap : heap.swapIfInBounds i j = heap.swap i j hi hj := by
    rw [Array.swapIfInBounds_def, dif_pos hi, dif_pos hj]
  simp only [rankAt, Function.comp_apply, hswap, Array.getElem?_swap hi hj]
  by_cases hkj : k = j
  · subst hkj
    rw [Equiv.swap_apply_right, if_pos rfl, Array.getElem?_eq_getElem hi]
  · by_cases hki : k = i
    · subst hki
      rw [Equiv.swap_apply_left, if_neg (Ne.symm hkj), if_pos rfl, Array.getElem?_eq_getElem hj]
    · rw [Equiv.swap_apply_of_ne_of_ne hki hkj, if_neg (Ne.symm hkj), if_neg (Ne.symm hki)]

theorem perm_swap (heap : Array (Entry T)) (i j : ℕ) :
    (heap.swapIfInBounds i j).toList.Perm heap.toList := by
  rw [Array.swapIfInBounds_def]
  split
  · split
    · exact (Array.swap_perm _ _).toList
    · exact List.Perm.refl _
  · exact List.Perm.refl _

/-! ## Comparisons -/

variable [LinearOrder κ] {compare : Entry T → Entry T → Option ExtNumber}

/-- The three tests that the code makes of a comparison go by the rank. -/
structure RanksBy (compare : Entry T → Entry T → Option ExtNumber) (rank : Entry T → κ) :
    Prop where
  neg_iff : ∀ {a b}, isNegative (compare a b) = true ↔ rank a < rank b
  pos_iff : ∀ {a b}, isPositive (compare a b) = true ↔ rank b < rank a
  nonneg_iff : ∀ {a b}, isNonNegative (compare a b) = true ↔ rank b ≤ rank a

/-- The default comparator goes by priority and insertion number. -/
theorem comparator_ranksBy : RanksBy (comparator (T := T)) Entry.key :=
  ⟨comparator_neg_iff, comparator_pos_iff, comparator_nonneg_iff⟩

theorem RanksBy.compareAt_neg_iff (hrank : RanksBy compare rank) (hi : i < heap.size)
    (hj : j < heap.size) :
    isNegative (compareAtBy compare heap i j) = true
      ↔ rankAt rank heap i < rankAt rank heap j := by
  obtain ⟨a, ha⟩ := exists_entry hi
  obtain ⟨b, hb⟩ := exists_entry hj
  rw [rankAt_of_some ha, rankAt_of_some hb, WithTop.coe_lt_coe, ← hrank.neg_iff]
  simp only [compareAtBy, ha, hb]

theorem RanksBy.compareAt_pos_iff (hrank : RanksBy compare rank) (hi : i < heap.size)
    (hj : j < heap.size) :
    isPositive (compareAtBy compare heap i j) = true
      ↔ rankAt rank heap j < rankAt rank heap i := by
  obtain ⟨a, ha⟩ := exists_entry hi
  obtain ⟨b, hb⟩ := exists_entry hj
  rw [rankAt_of_some ha, rankAt_of_some hb, WithTop.coe_lt_coe, ← hrank.pos_iff]
  simp only [compareAtBy, ha, hb]

/-! ## _siftUp -/

theorem perm_siftUpBy (compare : Entry T → Entry T → Option ExtNumber) (heap : Array (Entry T))
    (idx : ℕ) : (siftUpBy compare heap idx).toList.Perm heap.toList := by
  fun_induction siftUpBy compare heap idx with
  | case1 heap idx hpos hneg ih => exact ih.trans (perm_swap _ _ _)
  | case2 heap idx hpos hneg => exact List.Perm.refl _
  | case3 heap idx hpos => exact List.Perm.refl _

/-- `_siftUp` restores the order where only the entry it starts from may be less
than its parent. -/
theorem RanksBy.siftUp_heap (hrank : RanksBy compare rank) (idx : ℕ) (hidx : idx < heap.size)
    (h : UpTo (rankAt rank heap) idx) :
    HeapFrom (rankAt rank (siftUpBy compare heap idx)) 0 := by
  fun_induction siftUpBy compare heap idx with
  | case1 heap idx hpos hneg ih =>
      have hparent : parent idx < heap.size := Nat.lt_trans (parent_lt hpos) hidx
      refine ih (by rw [Array.size_swapIfInBounds]; exact hparent) ?_
      rw [rankAt_swap hidx hparent]
      exact h.swap hpos ((hrank.compareAt_neg_iff hidx hparent).mp hneg)
  | case2 heap idx hpos hneg =>
      have hparent : parent idx < heap.size := Nat.lt_trans (parent_lt hpos) hidx
      refine h.heap fun _ => ?_
      rw [hrank.compareAt_neg_iff hidx hparent] at hneg
      exact not_lt.mp hneg
  | case3 heap idx hpos => exact h.heap fun hpos' => absurd hpos' hpos

/-! ## _siftDown -/

theorem size_siftDownBy (compare : Entry T → Entry T → Option ExtNumber)
    (heap : Array (Entry T)) (idx : ℕ) : (siftDownBy compare heap idx).size = heap.size := by
  fun_induction siftDownBy compare heap idx with
  | case1 heap idx h => rfl
  | case2 heap idx h ih => rw [ih, Array.size_swapIfInBounds]

theorem perm_siftDownBy (compare : Entry T → Entry T → Option ExtNumber)
    (heap : Array (Entry T)) (idx : ℕ) :
    (siftDownBy compare heap idx).toList.Perm heap.toList := by
  fun_induction siftDownBy compare heap idx with
  | case1 heap idx h => exact List.Perm.refl _
  | case2 heap idx h ih => exact ih.trans (perm_swap _ _ _)

/-- One of the two comparisons of `smallest`: the candidate `j` against `m`. -/
theorem RanksBy.candidate_least (hrank : RanksBy compare rank) {m : ℕ} (hm : m < heap.size)
    (j : ℕ) :
    ∃ k, (if j < heap.size ∧ isNegative (compareAtBy compare heap j m) then j else m) = k
      ∧ k < heap.size ∧ rankAt rank heap k ≤ rankAt rank heap m
      ∧ rankAt rank heap k ≤ rankAt rank heap j
      ∧ (k = m ∨ rankAt rank heap k < rankAt rank heap m) := by
  by_cases hj : j < heap.size
  · by_cases hneg : isNegative (compareAtBy compare heap j m) = true
    · have hlt := (hrank.compareAt_neg_iff hj hm).mp hneg
      exact ⟨j, if_pos ⟨hj, hneg⟩, hj, hlt.le, le_rfl, Or.inr hlt⟩
    · refine ⟨m, if_neg fun h => hneg h.2, hm, le_rfl, ?_, Or.inl rfl⟩
      rw [hrank.compareAt_neg_iff hj hm] at hneg
      exact not_lt.mp hneg
  · refine ⟨m, if_neg fun h => hj h.1, hm, le_rfl, ?_, Or.inl rfl⟩
    rw [rankAt_of_le (not_lt.mp hj)]
    exact le_top

/-- At `smallest` stands the least of the ranks of `idx` and its children. -/
theorem RanksBy.smallest_least (hrank : RanksBy compare rank) {idx : ℕ}
    (hidx : idx < heap.size) :
    (∀ c, 0 < c → parent c = idx →
        rankAt rank heap (smallestBy compare heap idx) ≤ rankAt rank heap c)
    ∧ (smallestBy compare heap idx = idx
      ∨ rankAt rank heap (smallestBy compare heap idx) < rankAt rank heap idx) := by
  obtain ⟨m, hm, hmsize, hmidx, hmleft, hmcase⟩ := hrank.candidate_least hidx (2 * idx + 1)
  obtain ⟨k, hk, -, hkm, hkright, hkcase⟩ := hrank.candidate_least hmsize (2 * idx + 2)
  have hsmallest : smallestBy compare heap idx = k := by
    unfold smallestBy
    dsimp only
    rw [hm, hk]
  rw [hsmallest]
  constructor
  · intro c hc hparent
    rcases (parent_eq_iff hc).mp hparent with rfl | rfl
    · exact hkm.trans hmleft
    · exact hkright
  · rcases hkcase with rfl | hlt
    · exact hmcase
    · exact Or.inr (hlt.trans_le hmidx)

/-- `_siftDown` restores the order where only the entry it starts from may be
greater than its children. -/
theorem RanksBy.siftDown_heap (hrank : RanksBy compare rank) {lo : ℕ} (idx : ℕ)
    (hidx : idx < heap.size) (h : DownAt (rankAt rank heap) lo idx) :
    HeapFrom (rankAt rank (siftDownBy compare heap idx)) lo := by
  fun_induction siftDownBy compare heap idx with
  | case1 heap idx hstop =>
      refine h.heap fun c hc hparent => ?_
      have hleast := (hrank.smallest_least hidx).1 c hc hparent
      rw [hstop] at hleast
      exact hleast
  | case2 heap idx hmove ih =>
      obtain ⟨hleast, hlt⟩ := hrank.smallest_least hidx
      obtain ⟨hchild, hsize⟩ := (smallestBy_cases compare heap idx).resolve_left hmove
      have hpos : 0 < smallestBy compare heap idx := by omega
      refine ih (by rw [Array.size_swapIfInBounds]; exact hsize) ?_
      rw [rankAt_swap hidx hsize]
      exact h.swap hpos ((parent_eq_iff hpos).mpr hchild) hleast (hlt.resolve_left hmove)

/-! ## _buildHeap -/

theorem perm_buildHeapBy (compare : Entry T → Entry T → Option ExtNumber)
    (heap : Array (Entry T)) : (buildHeapBy compare heap).toList.Perm heap.toList := by
  have hbelow : ∀ (n : ℕ) (heap : Array (Entry T)),
      (siftDownBelowBy compare heap n).toList.Perm heap.toList := by
    intro n
    induction n with
    | zero => exact fun _ => List.Perm.refl _
    | succ n ih => exact fun heap => (ih _).trans (perm_siftDownBy compare heap n)
  exact hbelow _ heap

theorem RanksBy.siftDownBelow_heap (hrank : RanksBy compare rank) {n : ℕ} (hn : n ≤ heap.size)
    (h : HeapFrom (rankAt rank heap) n) :
    HeapFrom (rankAt rank (siftDownBelowBy compare heap n)) 0 := by
  induction n generalizing heap with
  | zero => exact h
  | succ n ih =>
      refine ih (by rw [size_siftDownBy]; omega) ?_
      exact hrank.siftDown_heap n hn h.downAt

/-- `_buildHeap` makes a heap of any array: behind the first half there are leaves
only. -/
theorem RanksBy.buildHeap_heap (hrank : RanksBy compare rank) (heap : Array (Entry T)) :
    HeapFrom (rankAt rank (buildHeapBy compare heap)) 0 := by
  refine hrank.siftDownBelow_heap (Nat.div_le_self _ _) ?_
  intro c hc hleaf
  have hsize : heap.size ≤ c := by
    unfold parent at hleaf
    omega
  rw [rankAt_of_le hsize]
  exact le_top

/-! ## _findMaxIndex -/

/-- The loop keeps the greatest rank seen so far. -/
theorem RanksBy.findMaxFrom_greatest (hrank : RanksBy compare rank) {maxIdx : ℕ} (i : ℕ)
    (hmax : maxIdx < heap.size) :
    findMaxFromBy compare heap maxIdx i < heap.size
    ∧ rankAt rank heap maxIdx ≤ rankAt rank heap (findMaxFromBy compare heap maxIdx i)
    ∧ ∀ l, i ≤ l → l < heap.size →
        rankAt rank heap l ≤ rankAt rank heap (findMaxFromBy compare heap maxIdx i) := by
  fun_induction findMaxFromBy compare heap maxIdx i with
  | case1 maxIdx i hi ih =>
      by_cases hpos : isPositive (compareAtBy compare heap i maxIdx) = true
      · have hlt := (hrank.compareAt_pos_iff hi hmax).mp hpos
        simp only [hpos, if_true] at ih ⊢
        obtain ⟨hsize, hle, hrest⟩ := ih hi
        refine ⟨hsize, hlt.le.trans hle, fun l hil hl => ?_⟩
        rcases Nat.eq_or_lt_of_le hil with rfl | hlt'
        · exact hle
        · exact hrest l hlt' hl
      · simp only [hpos] at ih ⊢
        obtain ⟨hsize, hle, hrest⟩ := ih hmax
        refine ⟨hsize, hle, fun l hil hl => ?_⟩
        rcases Nat.eq_or_lt_of_le hil with rfl | hlt'
        · rw [hrank.compareAt_pos_iff hi hmax] at hpos
          exact (not_lt.mp hpos).trans hle
        · exact hrest l hlt' hl
  | case2 maxIdx i hi =>
      refine ⟨hmax, le_rfl, fun l hil hl => ?_⟩
      omega

/-- **The worst entry is a leaf**: the search through the leaves finds the greatest
rank of the whole heap. -/
theorem RanksBy.findMaxIndex_greatest (hrank : RanksBy compare rank) (hne : 0 < heap.size)
    (h : HeapFrom (rankAt rank heap) 0) :
    findMaxIndexBy compare heap < heap.size
    ∧ ∀ i, i < heap.size →
        rankAt rank heap i ≤ rankAt rank heap (findMaxIndexBy compare heap) := by
  have hhalf : heap.size / 2 < heap.size := by omega
  obtain ⟨hsize, hfirst, hrest⟩ := hrank.findMaxFrom_greatest (heap.size / 2 + 1) hhalf
  refine ⟨hsize, fun i hi => ?_⟩
  obtain ⟨l, hleaf, hl, hle⟩ := h.exists_leaf hi
  rcases Nat.eq_or_lt_of_le hleaf with rfl | hlt
  · exact hle.trans hfirst
  · exact hle.trans (hrest l hlt hl)

/-! ## An entry at the end, an entry at the root -/

/-- A new entry at the end may only be less than its parent. -/
theorem upTo_push (h : HeapFrom (rankAt rank heap) 0) (e : Entry T) :
    UpTo (rankAt rank (heap.push e)) heap.size := by
  have hout : ∀ c, heap.size < c → rankAt rank (heap.push e) c = ⊤ := by
    intro c hc
    exact rankAt_of_le (by rw [Array.size_push]; omega)
  constructor
  · intro c hc hne
    rcases Nat.lt_or_gt_of_ne hne with hlt | hgt
    · have hp := parent_lt hc
      rw [rankAt_push_lt e hlt, rankAt_push_lt e (by omega)]
      exact h c hc (Nat.zero_le _)
    · rw [hout c hgt]
      exact le_top
  · intro _ c hc hparent
    have hp := parent_lt hc
    rw [hout c (by omega)]
    exact le_top

/-- What is left in the array when the last entry has taken the place of the root. -/
theorem perm_dequeue {last : Entry T} (hback : heap.back? = some last) (hsize : heap.size ≠ 1) :
    (heap.pop.setIfInBounds 0 last).toList.Perm heap.toList.tail := by
  obtain ⟨entries⟩ := heap
  cases entries with
  | nil => cases hback
  | cons first rest =>
      have hne : rest ≠ [] := by
        rintro rfl
        exact hsize rfl
      have hlast : rest.getLast hne = last := by
        simpa [List.getLast?_cons, List.getLast?_eq_some_getLast hne] using hback
      have hleft : ((⟨first :: rest⟩ : Array (Entry T)).pop.setIfInBounds 0 last).toList
          = last :: rest.dropLast := by
        simp [List.dropLast_cons_of_ne_nil hne]
      rw [hleft]
      show (last :: rest.dropLast).Perm rest
      conv_rhs => rw [← List.dropLast_append_getLast hne, hlast]
      exact (List.perm_append_singleton _ _).symm

/-- Only the entry that has taken the place of the root may be out of order. -/
theorem downAt_dequeue (h : HeapFrom (rankAt rank heap) 0) (last : Entry T) :
    DownAt (rankAt rank (heap.pop.setIfInBounds 0 last)) 0 0 := by
  have hkeep : ∀ c, 0 < c → c < heap.size - 1 →
      rankAt rank (heap.pop.setIfInBounds 0 last) c = rankAt rank heap c := by
    intro c hc hlt
    unfold rankAt
    rw [Array.getElem?_setIfInBounds_ne (by omega), Array.getElem?_pop, if_pos hlt]
  refine ⟨Nat.le_refl 0, fun c hc _ hne => ?_, fun hpos => absurd hpos (lt_irrefl 0)⟩
  have hp := parent_lt hc
  by_cases hlt : c < heap.size - 1
  · rw [hkeep c hc hlt, hkeep _ (Nat.pos_of_ne_zero hne) (by omega)]
    exact h c hc (Nat.zero_le _)
  · rw [rankAt_of_le (i := c) (by rw [Array.size_setIfInBounds, Array.size_pop]; omega)]
    exact le_top

end LeaveLedger
