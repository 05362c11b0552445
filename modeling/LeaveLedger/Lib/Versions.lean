import Mathlib.Data.List.Nodup

/-!
# Lib — Rows with a version

Rows that are only added, or replaced by one with a higher version, are
identified by their key and their version for all time. `Later` says that
of two states of the rows, and composes, so it holds between any two
moments of a run as soon as it holds across each write.
-/

namespace LeaveLedger.Lib

variable {α κ : Type}

/-- Each row of `l` is still in `l'`, as it was or with a higher version. -/
def Later (id : α → κ) (version : α → ℕ) (l l' : List α) : Prop :=
  ∀ a ∈ l, ∃ a' ∈ l', id a' = id a ∧ (a' = a ∨ version a < version a')

namespace Later

variable {id : α → κ} {version : α → ℕ} {l l' l'' : List α}

theorem refl (l : List α) : Later id version l l := fun a ha => ⟨a, ha, rfl, .inl rfl⟩

theorem trans (h : Later id version l l') (h' : Later id version l' l'') :
    Later id version l l'' := by
  intro a ha
  obtain ⟨b, hb, hid, hb'⟩ := h a ha
  obtain ⟨c, hc, hid', hc'⟩ := h' b hb
  refine ⟨c, hc, hid'.trans hid, ?_⟩
  rcases hb' with rfl | hlt
  · exact hc'
  · rcases hc' with rfl | hlt'
    · exact .inr hlt
    · exact .inr (Nat.lt_trans hlt hlt')

theorem append (l m : List α) : Later id version l (l ++ m) :=
  fun a ha => ⟨a, List.mem_append_left m ha, rfl, .inl rfl⟩

end Later

end LeaveLedger.Lib
