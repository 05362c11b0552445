import LeaveLedger.Lib.Machine

/-!
# Lib — Transcripts

A machine that answers every action leaves a transcript behind: each
action with its answer, and the state at the end. A specification is a
relation `spec t l r t'`: in its state `t` the action `l` may be answered
with `r`, which takes it to `t'`. It need not be a function, so it can
leave open what the machine decides.

`Allowed` says that a specification admits a transcript as a whole, and
`allowed_of_simulation` gives that for every run of a machine from what
one action does. What is then proved of the specification alone
(`Allowed.keeps`) is a fact about the machine.
-/

namespace LeaveLedger.Lib

variable {σ τ κ ρ : Type} {exec : κ → σ → Option (ρ × σ)} {spec : τ → κ → ρ → τ → Prop}

/-- The actions `ls` with their answers, and the state after the last one; none as soon
as one has no answer. -/
def transcript (exec : κ → σ → Option (ρ × σ)) : List κ → σ → Option (List (κ × ρ) × σ)
  | [], s => some ([], s)
  | l :: ls, s => (exec l s).bind fun x =>
      (transcript exec ls x.2).map fun rest => ((l, x.1) :: rest.1, rest.2)

@[simp] theorem transcript_nil (s : σ) : transcript exec [] s = some ([], s) := rfl

theorem transcript_cons {l : κ} {ls : List κ} {s s' s'' : σ} {r : ρ} {h : List (κ × ρ)}
    (hstep : exec l s = some (r, s')) (hrest : transcript exec ls s' = some (h, s'')) :
    transcript exec (l :: ls) s = some ((l, r) :: h, s'') := by
  simp [transcript, hstep, hrest]

/-- A transcript answers the actions in their order. -/
theorem transcript_actions {ls : List κ} {s s' : σ} {h : List (κ × ρ)}
    (hrun : transcript exec ls s = some (h, s')) : h.map Prod.fst = ls := by
  induction ls generalizing s h with
  | nil =>
      cases hrun
      rfl
  | cons l ls ih =>
      obtain ⟨x, -, hrun⟩ := Option.bind_eq_some_iff.mp hrun
      obtain ⟨rest, hrest, heq⟩ := Option.map_eq_some_iff.mp hrun
      cases heq
      simp [ih hrest]

/-- The specification admits these answers one after the other, from the state `t` to the
state `t'`. -/
inductive Allowed (spec : τ → κ → ρ → τ → Prop) : τ → List (κ × ρ) → τ → Prop where
  | nil (t : τ) : Allowed spec t [] t
  | cons {t t' t'' : τ} {l : κ} {r : ρ} {h : List (κ × ρ)} (hstep : spec t l r t')
      (hrest : Allowed spec t' h t'') : Allowed spec t ((l, r) :: h) t''

namespace Allowed

variable {t t' t'' : τ} {h h' : List (κ × ρ)}

theorem cons_inv {l : κ} {r : ρ} (hall : Allowed spec t ((l, r) :: h) t'') :
    ∃ t', spec t l r t' ∧ Allowed spec t' h t'' := by
  cases hall with
  | cons hstep hrest => exact ⟨_, hstep, hrest⟩

theorem append_inv (hall : Allowed spec t (h ++ h') t'') :
    ∃ t', Allowed spec t h t' ∧ Allowed spec t' h' t'' := by
  induction h generalizing t with
  | nil => exact ⟨t, .nil t, hall⟩
  | cons x h ih =>
      obtain ⟨l, r⟩ := x
      obtain ⟨t₁, hstep, hrest⟩ := hall.cons_inv
      obtain ⟨t₂, hfirst, hsecond⟩ := ih hrest
      exact ⟨t₂, .cons hstep hfirst, hsecond⟩

/-- **The invariant rule**: what every admitted answer to one of the actions keeps, every
admitted transcript of such actions keeps. -/
theorem keeps_where {I : τ → Prop} {P : κ → Prop}
    (hstep : ∀ t l r t', P l → I t → spec t l r t' → I t') (hall : Allowed spec t h t')
    (hP : ∀ x ∈ h, P x.1) (ht : I t) : I t' := by
  induction hall with
  | nil t => exact ht
  | cons hspec _ ih =>
      exact ih (fun x hx => hP x (List.mem_cons_of_mem _ hx))
        (hstep _ _ _ _ (hP _ List.mem_cons_self) ht hspec)

theorem keeps {I : τ → Prop} (hstep : ∀ t l r t', I t → spec t l r t' → I t')
    (hall : Allowed spec t h t') (ht : I t) : I t' :=
  hall.keeps_where (P := fun _ => True) (fun t l r t' _ => hstep t l r t') (fun _ _ => trivial) ht

/-- Up to an answer, at it, and after it. -/
theorem at_answer {l : κ} {r : ρ} (hall : Allowed spec t (h ++ (l, r) :: h') t'') :
    ∃ t₁ t₂, Allowed spec t h t₁ ∧ spec t₁ l r t₂ ∧ Allowed spec t₂ h' t'' := by
  obtain ⟨t₁, hbefore, hrest⟩ := hall.append_inv
  obtain ⟨t₂, hstep, hafter⟩ := hrest.cons_inv
  exact ⟨t₁, t₂, hbefore, hstep, hafter⟩

end Allowed

/-- **The refinement rule**: where the relation `R` takes every action from related states
to related states, with an answer that the specification admits, all transcripts of actions
that have `P` are admitted. -/
theorem allowed_of_relation {R : σ → τ → Prop} {P : κ → Prop}
    (hsim : ∀ l s t, P l → R s t → ∃ r s' t', exec l s = some (r, s') ∧ R s' t' ∧ spec t l r t')
    (ls : List κ) (hP : ∀ l ∈ ls, P l) {s : σ} {t : τ} (hR : R s t) :
    ∃ h s' t', transcript exec ls s = some (h, s') ∧ R s' t' ∧ Allowed spec t h t' := by
  induction ls generalizing s t with
  | nil => exact ⟨[], s, t, rfl, hR, .nil t⟩
  | cons l ls ih =>
      obtain ⟨r, s₁, t₁, hexec, hR₁, hspec⟩ := hsim l s t (hP l List.mem_cons_self) hR
      obtain ⟨h, s₂, t₂, hrest, hR₂, hall⟩ :=
        ih (fun l' hl' => hP l' (List.mem_cons_of_mem l hl')) hR₁
      exact ⟨(l, r) :: h, s₂, t₂, transcript_cons hexec hrest, hR₂, .cons hspec hall⟩

/-- The refinement rule for a machine that keeps `I`, with a function for the relation. -/
theorem allowed_of_simulation {I : σ → Prop} {abs : σ → τ}
    (hsim : ∀ l s, I s → ∃ r s', exec l s = some (r, s') ∧ I s' ∧ spec (abs s) l r (abs s'))
    (ls : List κ) {s : σ} (hs : I s) :
    ∃ h s', transcript exec ls s = some (h, s') ∧ I s' ∧ Allowed spec (abs s) h (abs s') := by
  have hrelated : ∀ l s t, True → (I s ∧ abs s = t) →
      ∃ r s' t', exec l s = some (r, s') ∧ (I s' ∧ abs s' = t') ∧ spec t l r t' := by
    intro l s t _ hst
    obtain ⟨hs, rfl⟩ := hst
    obtain ⟨r, s', hexec, hs', hspec⟩ := hsim l s hs
    exact ⟨r, s', abs s', hexec, ⟨hs', rfl⟩, hspec⟩
  obtain ⟨h, s', t', hrun, ⟨hs', rfl⟩, hall⟩ :=
    allowed_of_relation hrelated ls (fun _ _ => trivial) ⟨hs, rfl⟩
  exact ⟨h, s', hrun, hs', hall⟩

end LeaveLedger.Lib
