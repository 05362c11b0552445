import Mathlib.Logic.Basic
import Mathlib.Data.List.Basic

/-!
# Lib — Machines and their runs

A machine is a partial step function `step : σ → κ → Option σ`: the
state after the action named by the label, `none` when the action is
not enabled. Runs are label lists, so that a run is data: it can be
evaluated, split at a step, and quantified over.

The rules below package the inductions over runs once. `run_induct`
carries an invariant through a run, `run_meets` carries one that needs
a condition `C` on every step taken, and `meets_iff` goes from a whole
run to the single steps of it.
-/

namespace LeaveLedger.Lib

variable {σ κ : Type}

/-- The state after the actions `ls`, `none` as soon as one is not enabled. -/
def run (step : σ → κ → Option σ) : σ → List κ → Option σ
  | s, [] => some s
  | s, l :: ls => (step s l).bind fun s' => run step s' ls

/-- Every step that the run of `ls` from `s` takes meets `C` in the state
it is taken from. -/
def Meets (step : σ → κ → Option σ) (C : σ → κ → Prop) : σ → List κ → Prop
  | _, [] => True
  | s, l :: ls => C s l ∧ ∀ s', step s l = some s' → Meets step C s' ls

variable {step : σ → κ → Option σ}

instance Meets.decidable {C : σ → κ → Prop} [∀ s l, Decidable (C s l)] :
    ∀ s ls, Decidable (Meets step C s ls)
  | _, [] => isTrue trivial
  | s, l :: ls =>
      match h : step s l with
      | none => decidable_of_iff (C s l) (by simp [Meets, h])
      | some s' =>
          have : Decidable (Meets step C s' ls) := Meets.decidable s' ls
          decidable_of_iff (C s l ∧ Meets step C s' ls) (by simp [Meets, h])

@[simp] theorem run_nil (s : σ) : run step s [] = some s := rfl

@[simp] theorem run_cons (s : σ) (l : κ) (ls : List κ) :
    run step s (l :: ls) = (step s l).bind fun s' => run step s' ls := rfl

theorem run_append (s : σ) (ls ls' : List κ) :
    run step s (ls ++ ls') = (run step s ls).bind fun s' => run step s' ls' := by
  induction ls generalizing s with
  | nil => rfl
  | cons l ls ih =>
      simp only [List.cons_append, run_cons]
      cases step s l with
      | none => rfl
      | some s' => exact ih s'

theorem run_cons_some {s s'' : σ} {l : κ} {ls : List κ}
    (h : run step s (l :: ls) = some s'') :
    ∃ s', step s l = some s' ∧ run step s' ls = some s'' := by
  simpa [Option.bind_eq_some_iff] using h

theorem run_append_some {s s'' : σ} {ls ls' : List κ}
    (h : run step s (ls ++ ls') = some s'') :
    ∃ s', run step s ls = some s' ∧ run step s' ls' = some s'' := by
  rw [run_append] at h
  simpa [Option.bind_eq_some_iff] using h

theorem run_snoc_some {s s'' : σ} {l : κ} {ls : List κ}
    (h : run step s (ls ++ [l]) = some s'') :
    ∃ s', run step s ls = some s' ∧ step s' l = some s'' := by
  obtain ⟨s', h₁, h₂⟩ := run_append_some h
  obtain ⟨s₁, h₃, h₄⟩ := run_cons_some h₂
  cases h₄
  exact ⟨s', h₁, h₃⟩

/-- Every prefix of a run is a run. -/
theorem run_take {s s' : σ} {ls : List κ} (h : run step s ls = some s') (n : ℕ) :
    ∃ s₁, run step s (ls.take n) = some s₁ ∧ run step s₁ (ls.drop n) = some s' := by
  rw [← List.take_append_drop n ls] at h
  exact run_append_some h

/-- **The invariant rule**: what every step keeps, every run keeps. -/
theorem run_induct {I : σ → Prop}
    (hstep : ∀ s l s', I s → step s l = some s' → I s') :
    ∀ {ls : List κ} {s s' : σ}, I s → run step s ls = some s' → I s' := by
  intro ls
  induction ls with
  | nil => intro s s' hI h; cases h; exact hI
  | cons l ls ih =>
      intro s s' hI h
      obtain ⟨s₁, h₁, h₂⟩ := run_cons_some h
      exact ih (hstep s l s₁ hI h₁) h₂

/-- A run meets a condition when its first step does and the rest does. -/
theorem meets_cons_iff {C : σ → κ → Prop} {s s' : σ} {l : κ} {ls : List κ}
    (h : step s l = some s') :
    Meets step C s (l :: ls) ↔ C s l ∧ Meets step C s' ls := by
  constructor
  · rintro ⟨hC, hrest⟩
    exact ⟨hC, hrest s' h⟩
  · rintro ⟨hC, hrest⟩
    refine ⟨hC, fun s₂ h₂ => ?_⟩
    rw [h] at h₂
    cases h₂
    exact hrest

/-- **The invariant rule under a condition**: what every step meeting `C`
keeps, every run of such steps keeps. -/
theorem run_meets {I : σ → Prop} {C : σ → κ → Prop}
    (hstep : ∀ s l s', I s → C s l → step s l = some s' → I s') :
    ∀ {ls : List κ} {s s' : σ}, I s → Meets step C s ls →
      run step s ls = some s' → I s' := by
  intro ls
  induction ls with
  | nil => intro s s' hI _ h; cases h; exact hI
  | cons l ls ih =>
      intro s s' hI hC h
      obtain ⟨s₁, h₁, h₂⟩ := run_cons_some h
      exact ih (hstep s l s₁ hI hC.1 h₁) (hC.2 s₁ h₁) h₂

/-- What the invariant and the condition of a step give, every step of such a
run has. -/
theorem Meets.of_inv {I : σ → Prop} {C D : σ → κ → Prop}
    (hstep : ∀ s l s', I s → C s l → step s l = some s' → I s')
    (hD : ∀ s l, I s → C s l → D s l) :
    ∀ {ls : List κ} {s : σ}, I s → Meets step C s ls → Meets step D s ls := by
  intro ls
  induction ls with
  | nil => intro s _ _; trivial
  | cons l ls ih =>
      intro s hI hC
      exact ⟨hD s l hI hC.1, fun s' h => ih (hstep s l s' hI hC.1 h) (hC.2 s' h)⟩

theorem Meets.mono {C D : σ → κ → Prop} (hCD : ∀ s l, C s l → D s l) {ls : List κ} {s : σ}
    (h : Meets step C s ls) : Meets step D s ls :=
  h.of_inv (I := fun _ => True) (fun _ _ _ _ _ _ => trivial) (fun s l _ => hCD s l) trivial

/-- `Meets` says what it should: the condition holds at every step that a
prefix of the run leads to. -/
theorem meets_iff {C : σ → κ → Prop} {s : σ} {ls : List κ} :
    Meets step C s ls ↔
      ∀ pre l post s', ls = pre ++ l :: post → run step s pre = some s' → C s' l := by
  induction ls generalizing s with
  | nil => simp [Meets]
  | cons l ls ih =>
      constructor
      · rintro ⟨hC, hrest⟩ pre l' post s' heq hrun
        cases pre with
        | nil => cases heq; cases hrun; exact hC
        | cons l₀ pre =>
            obtain ⟨rfl, rfl⟩ := List.cons.inj heq
            obtain ⟨s₁, h₁, h₂⟩ := run_cons_some hrun
            exact ih.mp (hrest s₁ h₁) pre l' post s' rfl h₂
      · intro h
        refine ⟨h [] l ls s rfl rfl, fun s₁ h₁ => ih.mpr ?_⟩
        intro pre l' post s' heq hrun
        refine h (l :: pre) l' post s' (by rw [heq]; rfl) ?_
        rw [run_cons, h₁]
        exact hrun

theorem meets_append {C : σ → κ → Prop} {s s' : σ} {ls ls' : List κ}
    (hrun : run step s ls = some s') :
    Meets step C s (ls ++ ls') ↔ Meets step C s ls ∧ Meets step C s' ls' := by
  induction ls generalizing s with
  | nil => cases hrun; simp [Meets]
  | cons l ls ih =>
      obtain ⟨s₁, h₁, h₂⟩ := run_cons_some hrun
      rw [List.cons_append, meets_cons_iff h₁, meets_cons_iff h₁, ih h₂, and_assoc]

/-! ## Machines that answer -/

section answers
variable {τ ρ : Type} {exec : κ → σ → Option (ρ × σ)} {exec' : κ → τ → Option (ρ × τ)}

/-- The answers to the actions `ls`, each from the state the one before left, none as
soon as one has no answer. -/
def answers (exec : κ → σ → Option (ρ × σ)) : List κ → σ → Option (List ρ)
  | [], _ => some []
  | l :: ls, s => (exec l s).bind fun r => (answers exec ls r.2).map (r.1 :: ·)

/-- **The simulation rule**: machines that answer alike from related states, and stay
related, give the same answers to any actions. -/
theorem answers_of_simulation {R : σ → τ → Prop}
    (hsim : ∀ l s t, R s t →
      ∃ r s' t', exec l s = some (r, s') ∧ exec' l t = some (r, t') ∧ R s' t') :
    ∀ {ls : List κ} {s : σ} {t : τ}, R s t →
      ∃ rs, answers exec ls s = some rs ∧ answers exec' ls t = some rs := by
  intro ls
  induction ls with
  | nil => intro s t _; exact ⟨[], rfl, rfl⟩
  | cons l ls ih =>
      intro s t hR
      obtain ⟨r, s', t', hs, ht, hR'⟩ := hsim l s t hR
      obtain ⟨rs, hrs, hrs'⟩ := ih hR'
      exact ⟨r :: rs, by simp [answers, hs, hrs], by simp [answers, ht, hrs']⟩

end answers

/-! ## What a list ends with -/

/-- How many elements at the end of the list satisfy `p` in a row. -/
def streak {α : Type} (p : α → Bool) (l : List α) : ℕ := (l.reverse.takeWhile p).length

@[simp] theorem streak_nil {α : Type} (p : α → Bool) : streak p ([] : List α) = 0 := rfl

@[simp] theorem streak_snoc {α : Type} (p : α → Bool) (l : List α) (x : α) :
    streak p (l ++ [x]) = if p x then streak p l + 1 else 0 := by
  unfold streak
  rw [List.reverse_append, List.reverse_singleton, List.singleton_append, List.takeWhile_cons]
  split <;> simp

theorem streak_le_length {α : Type} (p : α → Bool) (l : List α) : streak p l ≤ l.length := by
  have h := (List.takeWhile_prefix p (l := l.reverse)).length_le
  rw [List.length_reverse] at h
  exact h

/-- The last `n` elements satisfy `p` when the streak is that long. -/
theorem of_mem_last {α : Type} {p : α → Bool} {l : List α} {n : ℕ} (h : n ≤ streak p l) :
    ∀ x ∈ l.drop (l.length - n), p x := by
  intro x hx
  have hlast : x ∈ l.reverse.take n := by
    rw [List.take_reverse, List.mem_reverse]
    exact hx
  have hpre : l.reverse.take n <+: l.reverse.takeWhile p := by
    refine List.prefix_of_prefix_length_le (List.take_prefix _ _) (List.takeWhile_prefix p) ?_
    exact Nat.le_trans (List.length_take_le _ _) h
  exact List.all_eq_true.mp List.all_takeWhile x (hpre.subset hlast)

/-! ## Single steps of a run -/

/-- At position `n` of the run of `ls` from `s`, the action `l` goes from `s₁`
to `s₂`. -/
structure StepAt (step : σ → κ → Option σ) (s : σ) (ls : List κ) (n : ℕ) (s₁ : σ) (l : κ)
    (s₂ : σ) : Prop where
  before : run step s (ls.take n) = some s₁
  label : ls[n]? = some l
  step : step s₁ l = some s₂

theorem StepAt.after {s s₁ s₂ s' : σ} {l : κ} {ls : List κ} {n : ℕ}
    (h : StepAt step s ls n s₁ l s₂) (hrun : run step s ls = some s') :
    run step s₂ (ls.drop (n + 1)) = some s' := by
  obtain ⟨s₀, h₀, h₁⟩ := run_take hrun n
  rw [h.before] at h₀
  cases h₀
  obtain ⟨hlt, hl⟩ := List.getElem?_eq_some_iff.mp h.label
  rw [List.drop_eq_getElem_cons hlt, hl] at h₁
  obtain ⟨s₃, h₃, h₄⟩ := run_cons_some h₁
  rw [h.step] at h₃
  cases h₃
  exact h₄

/-- A step of a run is one of its prefixes. -/
theorem StepAt.take {s s₁ s₂ : σ} {l : κ} {ls : List κ} {m n : ℕ} (hlt : m < n)
    (h : StepAt step s ls m s₁ l s₂) : StepAt step s (ls.take n) m s₁ l s₂ := by
  refine ⟨?_, ?_, h.step⟩
  · rw [List.take_take, Nat.min_eq_left (Nat.le_of_lt hlt)]
    exact h.before
  · rw [List.getElem?_take_of_lt hlt]
    exact h.label

/-- Between two steps of a run there is a run. -/
theorem StepAt.between {s s₁ s₂ s₃ s₄ : σ} {l l' : κ} {ls : List κ} {m n : ℕ} (hlt : m < n)
    (hm : StepAt step s ls m s₁ l s₂) (hn : StepAt step s ls n s₃ l' s₄) :
    ∃ mid, run step s₂ mid = some s₃ :=
  ⟨_, (hm.take hlt).after hn.before⟩

/-- A run that meets a condition meets it up to a step, in it, and after it. -/
theorem Meets.at {C : σ → κ → Prop} {s s₁ s₂ : σ} {l : κ} {ls : List κ} {n : ℕ}
    (h : Meets step C s ls) (hn : StepAt step s ls n s₁ l s₂) :
    Meets step C s (ls.take n) ∧ C s₁ l ∧ Meets step C s₂ (ls.drop (n + 1)) := by
  obtain ⟨hlt, hl⟩ := List.getElem?_eq_some_iff.mp hn.label
  rw [← List.take_append_drop n ls, meets_append hn.before, List.drop_eq_getElem_cons hlt, hl,
    meets_cons_iff hn.step] at h
  exact h

/-- And between two steps. -/
theorem Meets.between {C : σ → κ → Prop} {s s₁ s₂ s₃ s₄ : σ} {l l' : κ} {ls : List κ} {m n : ℕ}
    (h : Meets step C s ls) (hlt : m < n) (hm : StepAt step s ls m s₁ l s₂)
    (hn : StepAt step s ls n s₃ l' s₄) :
    ∃ mid, run step s₂ mid = some s₃ ∧ Meets step C s₂ mid :=
  ⟨_, (hm.take hlt).after hn.before, ((h.at hn).1.at (hm.take hlt)).2.2⟩

/-- The last step of a run that is one action longer. -/
theorem stepAt_last {s s₁ s₂ : σ} {l : κ} {ls : List κ} (h₁ : run step s ls = some s₁)
    (h₂ : step s₁ l = some s₂) : StepAt step s (ls ++ [l]) ls.length s₁ l s₂ :=
  ⟨by rw [List.take_left']; exacts [h₁, rfl], by simp, h₂⟩

/-- A step of a run is one of every longer run. -/
theorem StepAt.append {s s₁ s₂ : σ} {l : κ} {ls : List κ} {n : ℕ}
    (h : StepAt step s ls n s₁ l s₂) (ls' : List κ) : StepAt step s (ls ++ ls') n s₁ l s₂ := by
  have hlt : n < ls.length := (List.getElem?_eq_some_iff.mp h.label).1
  refine ⟨?_, ?_, h.step⟩
  · rw [List.take_append_of_le_length (Nat.le_of_lt hlt)]
    exact h.before
  · rw [List.getElem?_append_left hlt]
    exact h.label

/-! ## Parties that are added and replaced

The parties of a machine are a list in its state: a new one comes to the end, a
step of one replaces it.
-/

section
variable {α : Type} {l : List α} {i j : ℕ} {a b : α}

theorem getElem?_concat_cases (h : (l ++ [a])[j]? = some b) :
    l[j]? = some b ∨ j = l.length ∧ b = a := by
  rw [List.getElem?_append] at h
  split at h
  · exact Or.inl h
  · rw [List.getElem?_singleton] at h
    split at h
    · exact Or.inr ⟨by omega, (Option.some.inj h).symm⟩
    · cases h

theorem getElem?_set_cases (hi : i < l.length) (h : (l.set i a)[j]? = some b) :
    j = i ∧ b = a ∨ j ≠ i ∧ l[j]? = some b := by
  by_cases hij : j = i
  · subst hij
    rw [List.getElem?_set_self hi] at h
    exact Or.inl ⟨rfl, (Option.some.inj h).symm⟩
  · rw [List.getElem?_set_ne (Ne.symm hij)] at h
    exact Or.inr ⟨hij, h⟩

section
variable {β : Type} {f : α → Option β}

/-- The places of the parties in an order, when one party changes and keeps its place. -/
theorem filterMap_set_same (ha : l[i]? = some a) (h : f b = f a) :
    (l.set i b).filterMap f = l.filterMap f := by
  induction l generalizing i with
  | nil => rfl
  | cons x l ih =>
      cases i with
      | zero =>
          obtain rfl : x = a := Option.some.inj ha
          rw [List.set_cons_zero, List.filterMap_cons, List.filterMap_cons, h]
      | succ i =>
          rw [List.set_cons_succ, List.filterMap_cons, List.filterMap_cons, ih ha]

/-- Or takes one. -/
theorem filterMap_set_some {c : β} (ha : l[i]? = some a) (hnone : f a = none)
    (h : f b = some c) : (l.filterMap f ++ [c]).Perm ((l.set i b).filterMap f) := by
  induction l generalizing i with
  | nil => cases ha
  | cons x l ih =>
      cases i with
      | zero =>
          obtain rfl : x = a := Option.some.inj ha
          rw [List.set_cons_zero, List.filterMap_cons_none hnone, List.filterMap_cons_some h]
          exact List.perm_append_singleton c _
      | succ i =>
          rw [List.set_cons_succ]
          cases hx : f x with
          | none =>
              rw [List.filterMap_cons_none hx, List.filterMap_cons_none hx]
              exact ih ha
          | some y =>
              rw [List.filterMap_cons_some hx, List.filterMap_cons_some hx, List.cons_append]
              exact (ih ha).cons y

end

end

end LeaveLedger.Lib
