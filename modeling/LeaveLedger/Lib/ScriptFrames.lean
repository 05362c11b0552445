import LeaveLedger.Lib.Script
import Mathlib.Order.Defs.Unbundled

/-!
# Lib — What a script carries from part to part

`Script.Carries R` says that whenever the script returns, the state it
started from and the one it leaves are related by `R`. For a reflexive and
transitive `R` this is closed under the combinators, so a frame condition
of a long script is read off its parts. Runs that throw are not looked at.

What a part may return or throw, whatever it is answered, is what the part
after it may count on (`asks_bind_of`, `asks_handle_of`).
-/

namespace LeaveLedger.Lib

namespace Script

variable {S : Sig} {ε α β σ : Type} {exec : (o : S.Op) → σ → Option (S.Res o × σ)}
  {R : σ → σ → Prop}

def Carries (R : σ → σ → Prop) (exec : (o : S.Op) → σ → Option (S.Res o × σ))
    (p : Script S ε α) : Prop :=
  ∀ s a s', p.Returns exec s a s' → R s s'

theorem carries_fail (e : ε) : (fail e : Script S ε α).Carries R exec :=
  fun _ _ _ h => absurd h returns_fail

theorem carries_done [Std.Refl R] (a : α) : (done a : Script S ε α).Carries R exec := by
  intro s b s' h
  obtain ⟨-, rfl⟩ := returns_done.mp h
  exact Std.Refl.refl _

theorem carries_bind [IsTrans σ R] {p : Script S ε α} {f : α → Script S ε β}
    (hp : p.Carries R exec) (hf : ∀ a, (f a).Carries R exec) : (p.bind f).Carries R exec := by
  intro s b s'' h
  obtain ⟨a, s', hfirst, hrest⟩ := returns_bind.mp h
  exact IsTrans.trans _ _ _ (hp s a s' hfirst) (hf a s' b s'' hrest)

theorem carries_ite {c : Prop} [Decidable c] {p q : Script S ε α} (hp : p.Carries R exec)
    (hq : q.Carries R exec) : (if c then p else q).Carries R exec := by
  by_cases h : c
  · rw [if_pos h]
    exact hp
  · rw [if_neg h]
    exact hq

/-! ## After a part that yields something -/

/-- Whatever it is answered, the script returns what `Q` admits and throws what `E` admits. -/
abbrev Gives (Q : α → Prop) (E : ε → Prop) (p : Script S ε α) : Prop :=
  p.Yields (fun _ _ => True) Q E

section gives
variable {P : S.Op → Prop} {Q : α → Prop} {E : ε → Prop} {p : Script S ε α}

theorem gives_any (p : Script S ε α) : p.Gives (fun _ => True) fun _ => True := by
  induction p with
  | done a => trivial
  | fail e => trivial
  | await o k ih => exact fun r _ => ih r

theorem gives_handle {ε' : Type} {F : ε' → Prop} {h : ε → Script S ε' α} (hp : p.Gives Q E)
    (hh : ∀ e, E e → (h e).Gives Q F) : (p.handle h).Gives Q F := by
  induction p with
  | done a => exact hp
  | fail e => exact hh e hp
  | await o k ih => exact fun r hr => ih r (hp r hr)

theorem asks_bind_of {f : α → Script S ε β} (hp : p.Asks P) (hgives : p.Gives Q E)
    (hf : ∀ a, Q a → (f a).Asks P) : (p.bind f).Asks P := by
  induction p with
  | done a => exact hf a hgives
  | fail e => trivial
  | await o k ih => exact ⟨hp.1, fun r => ih r (hp.2 r) (hgives r trivial)⟩

theorem asks_handle_of {ε' : Type} {h : ε → Script S ε' α} (hp : p.Asks P)
    (hgives : p.Gives Q E) (hh : ∀ e, E e → (h e).Asks P) : (p.handle h).Asks P := by
  induction p with
  | done a => trivial
  | fail e => exact hh e hgives
  | await o k ih => exact ⟨hp.1, fun r => ih r (hp.2 r) (hgives r trivial)⟩

variable {G : (o : S.Op) → S.Res o → Prop}

theorem eventually_handle {ε' : Type} {F : ε' → Prop} {h : ε → Script S ε' α}
    (hp : p.Eventually G P Q E) (hh : ∀ e, E e → (h e).Eventually G P Q F) :
    (p.handle h).Eventually G P Q F := by
  induction p with
  | done a => exact hp
  | fail e => exact hh e hp
  | await o k ih => exact hp.imp id fun h r hr => ih r (h r hr)

/-- What a script asks for before it ends, it asks for before what comes finally. -/
theorem Eventually.ensure {fin : Script S ε Unit}
    (hp : p.Eventually G P (fun _ => False) fun _ => False) :
    (p.ensure fin).Eventually G P (fun _ => False) fun _ => False := by
  induction p with
  | done a => exact hp.elim
  | fail e => exact hp.elim
  | await o k ih => exact hp.imp id fun h r hr => ih r (h r hr)

end gives

end Script

end LeaveLedger.Lib
