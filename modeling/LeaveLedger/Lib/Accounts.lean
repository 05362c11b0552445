import Mathlib.Algebra.Group.Defs
import Mathlib.Algebra.BigOperators.Group.List.Basic

/-!
# Lib — The account of a run

A machine holds something, its steps bring more of it in and let some of it
go. What is held, brought in and let go is counted in a commutative monoid:
as a number of days, say, or as the things themselves, in no order. A step
settles when nothing is made or lost in it; then neither is in a run.
-/

namespace LeaveLedger.Lib

section
variable {σ ι M : Type*} [AddCommMonoid M]

/-- The sum of `part` over the steps of a run from a state. -/
def along (step : σ → ι → σ) (part : σ → ι → M) : σ → List ι → M
  | _, [] => 0
  | s, i :: is => part s i + along step part (step s i) is

/-- What a step leaves and what goes in it are what there was and what comes. -/
def Settles (step : σ → ι → σ) (held : σ → M) (came went : σ → ι → M) : Prop :=
  ∀ s i, held (step s i) + went s i = held s + came s i

variable {step : σ → ι → σ} {held : σ → M} {came went : σ → ι → M}

/-- **Steps that settle make a run that settles**, as long as they keep what they need for
it. -/
theorem settles_run {I : σ → Prop} (hkeep : ∀ s i, I s → I (step s i))
    (hsettles : ∀ s i, I s → held (step s i) + went s i = held s + came s i) {s : σ} (hs : I s)
    (is : List ι) :
    held (is.foldl step s) + along step went s is = held s + along step came s is := by
  induction is generalizing s with
  | nil => simp [along]
  | cons i is ih =>
      calc held (is.foldl step (step s i)) + (went s i + along step went (step s i) is)
          = (held (is.foldl step (step s i)) + along step went (step s i) is) + went s i := by
            rw [add_comm (went s i), add_assoc]
        _ = (held (step s i) + went s i) + along step came (step s i) is := by
            rw [ih (hkeep s i hs), add_right_comm]
        _ = held s + (came s i + along step came (step s i) is) := by
            rw [hsettles s i hs, add_assoc]

theorem Settles.run (h : Settles step held came went) (s : σ) (is : List ι) :
    held (is.foldl step s) + along step went s is = held s + along step came s is :=
  settles_run (I := fun _ => True) (fun _ _ _ => trivial) (fun s i _ => h s i) trivial is

/-- What does not depend on the states is summed over the steps alone. -/
theorem along_of_step (part : ι → M) (s : σ) (is : List ι) :
    along step (fun _ i => part i) s is = (is.map part).sum := by
  induction is generalizing s with
  | nil => simp [along]
  | cons i is ih => simp [along, ih]

end

end LeaveLedger.Lib
