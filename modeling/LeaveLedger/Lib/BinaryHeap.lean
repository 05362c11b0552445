import Mathlib

/-!
# Lib — The order of a binary heap

A heap seen as what stands at each position: `f i` is the key at position
`i`, and a position that is not in use has a key above all others. Nothing
here depends on how long the heap is.

`HeapFrom f lo` says that every child of a position from `lo` on is at
least its parent. The two sifts repair one position each; `UpTo` and
`DownAt` are what holds while they are under way, a swap with the parent
or the least child carries them along, and where no swap is needed the
order is restored.
-/

namespace LeaveLedger.Lib.BinaryHeap

variable {κ : Type} [LinearOrder κ] {f : ℕ → κ}

def parent (c : ℕ) : ℕ := (c - 1) / 2

theorem parent_lt {c : ℕ} (h : 0 < c) : parent c < c := by
  unfold parent
  omega

theorem parent_eq_iff {c i : ℕ} (h : 0 < c) : parent c = i ↔ c = 2 * i + 1 ∨ c = 2 * i + 2 := by
  unfold parent
  omega

/-- The children of the positions from `lo` on are in order. -/
def HeapFrom (f : ℕ → κ) (lo : ℕ) : Prop := ∀ c, 0 < c → lo ≤ parent c → f (parent c) ≤ f c

/-- The root is least. -/
theorem HeapFrom.root_le (h : HeapFrom f 0) (i : ℕ) : f 0 ≤ f i := by
  induction i using Nat.strongRecOn with
  | ind i ih =>
      by_cases hi : 0 < i
      · exact (ih (parent i) (parent_lt hi)).trans (h i hi (Nat.zero_le _))
      · rw [Nat.eq_zero_of_not_pos hi]

/-- Below every position in use there is a leaf, which is at least as great. -/
theorem HeapFrom.exists_leaf (h : HeapFrom f 0) {n i : ℕ} (hi : i < n) :
    ∃ l, n / 2 ≤ l ∧ l < n ∧ f i ≤ f l := by
  by_cases hleaf : n / 2 ≤ i
  · exact ⟨i, hleaf, hi, le_rfl⟩
  · have hchild : 2 * i + 1 < n := by omega
    obtain ⟨l, hl, hln, hle⟩ := h.exists_leaf hchild
    have hparent : parent (2 * i + 1) = i := (parent_eq_iff (by omega)).mpr (Or.inl rfl)
    have hup := h (2 * i + 1) (by omega) (Nat.zero_le _)
    rw [hparent] at hup
    exact ⟨l, hl, hln, hup.trans hle⟩
termination_by n - i

/-! ## Sifting up -/

/-- In order but for position `i`, which may be less than its parent. -/
structure UpTo (f : ℕ → κ) (i : ℕ) : Prop where
  others : ∀ c, 0 < c → c ≠ i → f (parent c) ≤ f c
  below : 0 < i → ∀ c, 0 < c → parent c = i → f (parent i) ≤ f c

theorem UpTo.heap {i : ℕ} (h : UpTo f i) (hi : 0 < i → f (parent i) ≤ f i) : HeapFrom f 0 := by
  intro c hc _
  by_cases hci : c = i
  · subst hci
    exact hi hc
  · exact h.others c hc hci

/-- A swap with the parent moves the place that is out of order up. -/
theorem UpTo.swap {i : ℕ} (h : UpTo f i) (hi : 0 < i) (hlt : f i < f (parent i)) :
    UpTo (f ∘ Equiv.swap i (parent i)) (parent i) := by
  have hp := parent_lt hi
  have hswap : ∀ c, c ≠ i → c ≠ parent i → (f ∘ Equiv.swap i (parent i)) c = f c := by
    intro c h₁ h₂
    rw [Function.comp_apply, Equiv.swap_apply_of_ne_of_ne h₁ h₂]
  have hati : (f ∘ Equiv.swap i (parent i)) i = f (parent i) := by
    rw [Function.comp_apply, Equiv.swap_apply_left]
  have hatp : (f ∘ Equiv.swap i (parent i)) (parent i) = f i := by
    rw [Function.comp_apply, Equiv.swap_apply_right]
  constructor
  · intro c hc hcp
    by_cases hci : c = i
    · subst hci
      rw [hatp, hati]
      exact hlt.le
    · rw [hswap c hci hcp]
      by_cases hpi : parent c = i
      · rw [hpi, hati]
        exact h.below hi c hc hpi
      · by_cases hpp : parent c = parent i
        · rw [hpp, hatp]
          have hle := h.others c hc hci
          rw [hpp] at hle
          exact hlt.le.trans hle
        · rw [hswap _ hpi hpp]
          exact h.others c hc hci
  · intro hp0 c hc hcp
    have hpp := parent_lt hp0
    rw [hswap (parent (parent i)) (by omega) (by omega)]
    have hup := h.others (parent i) hp0 (by omega)
    by_cases hci : c = i
    · rw [hci, hati]
      exact hup
    · have hc' := parent_lt hc
      rw [hswap c hci (by omega)]
      have hle := h.others c hc hci
      rw [hcp] at hle
      exact hup.trans hle

/-! ## Sifting down -/

/-- In order from `lo` on but for position `i`, which may be greater than its
children. -/
structure DownAt (f : ℕ → κ) (lo i : ℕ) : Prop where
  from_le : lo ≤ i
  others : ∀ c, 0 < c → lo ≤ parent c → parent c ≠ i → f (parent c) ≤ f c
  below : 0 < i → lo ≤ parent i → ∀ c, 0 < c → parent c = i → f (parent i) ≤ f c

theorem DownAt.heap {lo i : ℕ} (h : DownAt f lo i)
    (hi : ∀ c, 0 < c → parent c = i → f i ≤ f c) : HeapFrom f lo := by
  intro c hc hlo
  by_cases hpi : parent c = i
  · rw [hpi]
    exact hi c hc hpi
  · exact h.others c hc hlo hpi

/-- A swap with the least child moves the place that is out of order down. -/
theorem DownAt.swap {lo i s : ℕ} (h : DownAt f lo i) (hs : 0 < s) (hsi : parent s = i)
    (hleast : ∀ c, 0 < c → parent c = i → f s ≤ f c) (hlt : f s < f i) :
    DownAt (f ∘ Equiv.swap i s) lo s := by
  have hp := parent_lt hs
  rw [hsi] at hp
  have hswap : ∀ c, c ≠ i → c ≠ s → (f ∘ Equiv.swap i s) c = f c := by
    intro c h₁ h₂
    rw [Function.comp_apply, Equiv.swap_apply_of_ne_of_ne h₁ h₂]
  have hati : (f ∘ Equiv.swap i s) i = f s := by
    rw [Function.comp_apply, Equiv.swap_apply_left]
  have hats : (f ∘ Equiv.swap i s) s = f i := by
    rw [Function.comp_apply, Equiv.swap_apply_right]
  refine ⟨Nat.le_trans h.from_le (Nat.le_of_lt hp), ?_, ?_⟩
  · intro c hc hlo hps
    have hc' := parent_lt hc
    by_cases hpi : parent c = i
    · rw [hpi, hati]
      by_cases hcs : c = s
      · rw [hcs, hats]
        exact hlt.le
      · rw [hswap c (by omega) hcs]
        exact hleast c hc hpi
    · rw [hswap _ hpi hps]
      by_cases hci : c = i
      · rw [hci, hati]
        rw [hci] at hlo hc
        exact h.below hc hlo s hs hsi
      · have hcs : c ≠ s := by
          rintro rfl
          exact hpi hsi
        rw [hswap c hci hcs]
        exact h.others c hc hlo hpi
  · intro _ _ c hc hcs
    have hc' := parent_lt hc
    rw [hsi, hati, hswap c (by omega) (by omega)]
    have hle := h.others c hc (by have := h.from_le; omega) (by omega)
    rw [hcs] at hle
    exact hle

/-- Below `lo` there is one position less to care for. -/
theorem HeapFrom.downAt {lo : ℕ} (h : HeapFrom f (lo + 1)) : DownAt f lo lo := by
  refine ⟨Nat.le_refl lo, ?_, ?_⟩
  · intro c hc hlo hne
    exact h c hc (by omega)
  · intro hpos hlo
    have := parent_lt hpos
    omega

end LeaveLedger.Lib.BinaryHeap
