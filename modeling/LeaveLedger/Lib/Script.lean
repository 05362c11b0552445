import Mathlib.Logic.Basic

/-!
# Lib — Scripts: programs that await effects

A `Script` is an `async` function seen from outside: it is finished with
a result, it has failed with an exception, or it awaits the answer to
one operation and goes on from there. What an operation does is not part
of the script. One handler runs it to the end (`Script.run`); another may
let scripts take turns, one operation at a time, or roll some of them
back. The program is written once and every reading of it is about the
same text.

`Script.Always P` says that every operation a script can still ask for,
together with what it does next, satisfies `P`, and `Script.Yields G Q E`
what it returns and throws as long as the answers satisfy `G`. Both are
inherited by what remains after an answer, so a fact proved once of a
whole program holds at every point of every interleaving.
-/

namespace LeaveLedger.Lib

/-- What a program may ask for, and the type of the answer. -/
structure Sig where
  Op : Type
  Res : Op → Type

/-- A program over the effects of `S` that throws `ε` or returns `α`. -/
inductive Script (S : Sig) (ε α : Type) where
  | done (a : α)
  | fail (e : ε)
  | await (o : S.Op) (k : S.Res o → Script S ε α)

namespace Script

variable {S : Sig} {ε α β : Type}

/-- Ask for one operation and return its answer. -/
def ask (o : S.Op) : Script S ε (S.Res o) := .await o .done

def bind : Script S ε α → (α → Script S ε β) → Script S ε β
  | .done a, f => f a
  | .fail e, _ => .fail e
  | .await o k, f => .await o fun r => (k r).bind f

/-- `try p catch e => h e`. -/
def attempt : Script S ε α → (ε → Script S ε α) → Script S ε α
  | .done a, _ => .done a
  | .fail e, h => h e
  | .await o k, h => .await o fun r => (k r).attempt h

/-- `try p catch e => h e` where what is caught and what is thrown on are errors of
two kinds. -/
def handle {ε' : Type} : Script S ε α → (ε → Script S ε' α) → Script S ε' α
  | .done a, _ => .done a
  | .fail e, h => h e
  | .await o k, h => .await o fun r => (k r).handle h

/-- `try p finally fin`. -/
def ensure : Script S ε α → Script S ε Unit → Script S ε α
  | .done a, fin => fin.bind fun _ => .done a
  | .fail e, fin => fin.bind fun _ => .fail e
  | .await o k, fin => .await o fun r => (k r).ensure fin

/-- The script asks for nothing any more. -/
def isOver : Script S ε α → Bool
  | .done _ => true
  | .fail _ => true
  | .await _ _ => false

/-- What the script has returned. -/
def answer? : Script S ε α → Option α
  | .done a => some a
  | .fail _ => none
  | .await _ _ => none

theorem answer?_eq_some {p : Script S ε α} {a : α} : p.answer? = some a ↔ p = .done a := by
  cases p <;> simp [answer?]

instance : Monad (Script S ε) where
  pure := .done
  bind := bind

instance : MonadExcept ε (Script S ε) where
  throw := .fail
  tryCatch := attempt

@[simp] theorem pure_eq (a : α) : (pure a : Script S ε α) = .done a := rfl
@[simp] theorem throw_eq (e : ε) : (throw e : Script S ε α) = .fail e := rfl
@[simp] theorem bind_eq (p : Script S ε α) (f : α → Script S ε β) :
    (p >>= f) = p.bind f := rfl
@[simp] theorem tryCatch_eq (p : Script S ε α) (h : ε → Script S ε α) :
    tryCatch p h = p.attempt h := rfl

@[simp] theorem bind_done (a : α) (f : α → Script S ε β) :
    (done a : Script S ε α).bind f = f a := rfl
@[simp] theorem bind_fail (e : ε) (f : α → Script S ε β) :
    (fail e : Script S ε α).bind f = .fail e := rfl
@[simp] theorem bind_await (o : S.Op) (k : S.Res o → Script S ε α)
    (f : α → Script S ε β) :
    (await o k).bind f = .await o fun r => (k r).bind f := rfl
theorem bind_assoc {γ : Type} (p : Script S ε α) (f : α → Script S ε β) (g : β → Script S ε γ) :
    (p.bind f).bind g = p.bind fun a => (f a).bind g := by
  induction p with
  | done a => rfl
  | fail e => rfl
  | await o k ih => simp only [bind_await, ih]

@[simp] theorem ask_bind (o : S.Op) (f : S.Res o → Script S ε β) :
    (ask o).bind f = .await o f := rfl
@[simp] theorem attempt_done (a : α) (h : ε → Script S ε α) :
    (done a : Script S ε α).attempt h = .done a := rfl
@[simp] theorem attempt_fail (e : ε) (h : ε → Script S ε α) :
    (fail e : Script S ε α).attempt h = h e := rfl
@[simp] theorem attempt_await (o : S.Op) (k : S.Res o → Script S ε α)
    (h : ε → Script S ε α) :
    (await o k).attempt h = .await o fun r => (k r).attempt h := rfl
@[simp] theorem handle_done {ε' : Type} (a : α) (h : ε → Script S ε' α) :
    (done a : Script S ε α).handle h = .done a := rfl
@[simp] theorem handle_fail {ε' : Type} (e : ε) (h : ε → Script S ε' α) :
    (fail e : Script S ε α).handle h = h e := rfl
@[simp] theorem handle_await {ε' : Type} (o : S.Op) (k : S.Res o → Script S ε α)
    (h : ε → Script S ε' α) :
    (await o k).handle h = .await o fun r => (k r).handle h := rfl
@[simp] theorem ensure_done (a : α) (fin : Script S ε Unit) :
    (done a : Script S ε α).ensure fin = fin.bind fun _ => .done a := rfl
@[simp] theorem ensure_fail (e : ε) (fin : Script S ε Unit) :
    (fail e : Script S ε α).ensure fin = fin.bind fun _ => .fail e := rfl
@[simp] theorem ensure_await (o : S.Op) (k : S.Res o → Script S ε α)
    (fin : Script S ε Unit) :
    (await o k).ensure fin = .await o fun r => (k r).ensure fin := rfl

/-! ## Running a script to its end -/

/-- What the handler `exec` makes of a whole script: its result and the
state after it, `none` if an operation is never answered. -/
def run {σ : Type} (exec : (o : S.Op) → σ → Option (S.Res o × σ)) :
    Script S ε α → σ → Option (Except ε α × σ)
  | .done a, s => some (.ok a, s)
  | .fail e, s => some (.error e, s)
  | .await o k, s => (exec o s).bind fun r => (k r.1).run exec r.2

section
variable {σ : Type} {exec : (o : S.Op) → σ → Option (S.Res o × σ)}

@[simp] theorem run_done (a : α) (s : σ) :
    (done a : Script S ε α).run exec s = some (.ok a, s) := rfl
@[simp] theorem run_fail (e : ε) (s : σ) :
    (fail e : Script S ε α).run exec s = some (.error e, s) := rfl
@[simp] theorem run_await (o : S.Op) (k : S.Res o → Script S ε α) (s : σ) :
    (await o k).run exec s = (exec o s).bind fun r => (k r.1).run exec r.2 := rfl

theorem run_bind (p : Script S ε α) (f : α → Script S ε β) (s : σ) :
    (p.bind f).run exec s = (p.run exec s).bind fun r =>
      match r.1 with
      | .ok a => (f a).run exec r.2
      | .error e => some (.error e, r.2) := by
  induction p generalizing s with
  | done a => rfl
  | fail e => rfl
  | await o k ih =>
      simp only [bind_await, run_await, ih]
      cases exec o s <;> rfl

theorem run_attempt (p : Script S ε α) (h : ε → Script S ε α) (s : σ) :
    (p.attempt h).run exec s = (p.run exec s).bind fun r =>
      match r.1 with
      | .ok a => some (.ok a, r.2)
      | .error e => (h e).run exec r.2 := by
  induction p generalizing s with
  | done a => rfl
  | fail e => rfl
  | await o k ih =>
      simp only [attempt_await, run_await, ih]
      cases exec o s <;> rfl

theorem run_handle {ε' : Type} (p : Script S ε α) (h : ε → Script S ε' α) (s : σ) :
    (p.handle h).run exec s = (p.run exec s).bind fun r =>
      match r.1 with
      | .ok a => some (.ok a, r.2)
      | .error e => (h e).run exec r.2 := by
  induction p generalizing s with
  | done a => rfl
  | fail e => rfl
  | await o k ih =>
      simp only [handle_await, run_await, ih]
      cases exec o s <;> rfl

theorem run_ensure (p : Script S ε α) (fin : Script S ε Unit) (s : σ) :
    (p.ensure fin).run exec s = (p.run exec s).bind fun r =>
      (fin.run exec r.2).bind fun f =>
        match f.1 with
        | .ok _ => some (r.1, f.2)
        | .error e => some (.error e, f.2) := by
  induction p generalizing s with
  | done a =>
      simp only [ensure_done, run_bind, run_done, Option.bind_some]
      rcases fin.run exec s with _ | ⟨_ | _, s'⟩ <;> rfl
  | fail e =>
      simp only [ensure_fail, run_bind, run_fail, Option.bind_some]
      rcases fin.run exec s with _ | ⟨_ | _, s'⟩ <;> rfl
  | await o k ih =>
      simp only [ensure_await, run_await, ih]
      cases exec o s <;> rfl

end

/-- Run to its end by `exec` from `s`, the script returns `a` and leaves `s'`. -/
def Returns {σ : Type} (exec : (o : S.Op) → σ → Option (S.Res o × σ))
    (p : Script S ε α) (s : σ) (a : α) (s' : σ) : Prop :=
  p.run exec s = some (.ok a, s')

section
variable {σ : Type} {exec : (o : S.Op) → σ → Option (S.Res o × σ)}

@[simp] theorem returns_done {a b : α} {s s' : σ} :
    (done a : Script S ε α).Returns exec s b s' ↔ b = a ∧ s' = s := by
  simp [Returns, eq_comm]

@[simp] theorem returns_fail {e : ε} {b : α} {s s' : σ} :
    ¬ (fail e : Script S ε α).Returns exec s b s' := by
  simp [Returns]

@[simp] theorem returns_ask {o : S.Op} {r : S.Res o} {s s' : σ} :
    (ask o : Script S ε _).Returns exec s r s' ↔ exec o s = some (r, s') := by
  unfold Returns ask
  rw [run_await]
  cases exec o s with
  | none => simp
  | some x => simp [Prod.ext_iff]

/-- **The sequence rule**: a bind returns exactly when both halves do. -/
theorem returns_bind {p : Script S ε α} {f : α → Script S ε β} {s s'' : σ} {b : β} :
    (p.bind f).Returns exec s b s'' ↔
      ∃ a s', p.Returns exec s a s' ∧ (f a).Returns exec s' b s'' := by
  unfold Returns
  rw [run_bind]
  cases p.run exec s with
  | none => simp
  | some r =>
      obtain ⟨res, s₁⟩ := r
      cases res with
      | error e => simp
      | ok a =>
          simp only [Option.bind_some, Option.some.injEq, Prod.mk.injEq, Except.ok.injEq]
          constructor
          · intro h
            exact ⟨a, s₁, ⟨rfl, rfl⟩, h⟩
          · rintro ⟨_, _, ⟨rfl, rfl⟩, h⟩
            exact h

theorem Returns.bind {p : Script S ε α} {f : α → Script S ε β} {s s' s'' : σ} {a : α} {b : β}
    (h : p.Returns exec s a s') (hf : (f a).Returns exec s' b s'') :
    (p.bind f).Returns exec s b s'' :=
  returns_bind.mpr ⟨a, s', h, hf⟩

theorem Returns.attempt {p : Script S ε α} {s s' : σ} {a : α} (h : p.Returns exec s a s')
    (handler : ε → Script S ε α) : (p.attempt handler).Returns exec s a s' := by
  unfold Returns at h ⊢
  rw [run_attempt, h]
  rfl

theorem Returns.ensure {p : Script S ε α} {fin : Script S ε Unit} {s s' s'' : σ} {a : α}
    (h : p.Returns exec s a s') (hfin : fin.Returns exec s' () s'') :
    (p.ensure fin).Returns exec s a s'' := by
  unfold Returns at h hfin ⊢
  rw [run_ensure, h]
  simp only [Option.bind_some, hfin]

end

/-! ## Facts about everything a script can still do -/

/-- Every operation the script can still ask for satisfies `P`, together
with its continuation. -/
def Always (P : (o : S.Op) → (S.Res o → Script S ε α) → Prop) :
    Script S ε α → Prop
  | .done _ => True
  | .fail _ => True
  | .await o k => P o k ∧ ∀ r, (k r).Always P

/-- **Partial correctness**: as long as every answer satisfies `G`, the script
returns only what `Q` admits and throws only what `E` admits. -/
def Yields (G : (o : S.Op) → S.Res o → Prop) (Q : α → Prop) (E : ε → Prop) :
    Script S ε α → Prop
  | .done a => Q a
  | .fail e => E e
  | .await o k => ∀ r, G o r → (k r).Yields G Q E

section
variable {P Q : (o : S.Op) → (S.Res o → Script S ε α) → Prop}

@[simp] theorem always_done (a : α) : (done a : Script S ε α).Always P := trivial
@[simp] theorem always_fail (e : ε) : (fail e : Script S ε α).Always P := trivial
@[simp] theorem always_await (o : S.Op) (k : S.Res o → Script S ε α) :
    (await o k).Always P ↔ P o k ∧ ∀ r, (k r).Always P := Iff.rfl
theorem Always.mono {p : Script S ε α} (hPQ : ∀ o k, P o k → Q o k)
    (h : p.Always P) : p.Always Q := by
  induction p with
  | done a => trivial
  | fail e => trivial
  | await o k ih => exact ⟨hPQ o k h.1, fun r => ih r (h.2 r)⟩

theorem always_bind {P : (o : S.Op) → (S.Res o → Script S ε α) → Prop}
    {P' : (o : S.Op) → (S.Res o → Script S ε β) → Prop} {p : Script S ε α}
    {f : α → Script S ε β} (hP : ∀ o k, P o k → P' o fun r => (k r).bind f)
    (hp : p.Always P) (hf : ∀ a, (f a).Always P') : (p.bind f).Always P' := by
  induction p with
  | done a => exact hf a
  | fail e => trivial
  | await o k ih => exact ⟨hP o k hp.1, fun r => ih r (hp.2 r)⟩

theorem always_attempt {P P' : (o : S.Op) → (S.Res o → Script S ε α) → Prop}
    {p : Script S ε α} {h : ε → Script S ε α}
    (hP : ∀ o k, P o k → P' o fun r => (k r).attempt h)
    (hp : p.Always P) (hh : ∀ e, (h e).Always P') : (p.attempt h).Always P' := by
  induction p with
  | done a => trivial
  | fail e => exact hh e
  | await o k ih => exact ⟨hP o k hp.1, fun r => ih r (hp.2 r)⟩

theorem always_ensure {P P' : (o : S.Op) → (S.Res o → Script S ε α) → Prop}
    {p : Script S ε α} {fin : Script S ε Unit}
    (hP : ∀ o k, P o k → P' o fun r => (k r).ensure fin)
    (hp : p.Always P) (hdone : ∀ a : α, (fin.bind fun _ => done a).Always P')
    (hfail : ∀ e, (fin.bind fun _ => (fail e : Script S ε α)).Always P') :
    (p.ensure fin).Always P' := by
  induction p with
  | done a => exact hdone a
  | fail e => exact hfail e
  | await o k ih => exact ⟨hP o k hp.1, fun r => ih r (hp.2 r)⟩

section
variable {G : (o : S.Op) → S.Res o → Prop} {Q : α → Prop} {E : ε → Prop}

@[simp] theorem yields_done (a : α) : (done a : Script S ε α).Yields G Q E ↔ Q a := Iff.rfl
@[simp] theorem yields_fail (e : ε) : (fail e : Script S ε α).Yields G Q E ↔ E e := Iff.rfl
@[simp] theorem yields_await (o : S.Op) (k : S.Res o → Script S ε α) :
    (await o k).Yields G Q E ↔ ∀ r, G o r → (k r).Yields G Q E := Iff.rfl

theorem yields_bind {R : β → Prop} {p : Script S ε α} {f : α → Script S ε β}
    (hp : p.Yields G Q E) (hf : ∀ a, Q a → (f a).Yields G R E) : (p.bind f).Yields G R E := by
  induction p with
  | done a => exact hf a hp
  | fail e => exact hp
  | await o k ih => exact fun r hr => ih r (hp r hr)

theorem yields_attempt {F : ε → Prop} {p : Script S ε α} {h : ε → Script S ε α}
    (hp : p.Yields G Q F) (hh : ∀ e, F e → (h e).Yields G Q E) : (p.attempt h).Yields G Q E := by
  induction p with
  | done a => exact hp
  | fail e => exact hh e hp
  | await o k ih => exact fun r hr => ih r (hp r hr)

theorem yields_ensure {p : Script S ε α} {fin : Script S ε Unit} (hp : p.Yields G Q E)
    (hfin : fin.Yields G (fun _ => True) E) : (p.ensure fin).Yields G Q E := by
  induction p with
  | done a => exact yields_bind hfin fun _ _ => hp
  | fail e => exact yields_bind hfin fun _ _ => hp
  | await o k ih => exact fun r hr => ih r (hp r hr)

theorem Yields.mono {G' : (o : S.Op) → S.Res o → Prop} {Q' : α → Prop} {E' : ε → Prop}
    {p : Script S ε α} (h : p.Yields G Q E) (hG : ∀ o r, G' o r → G o r)
    (hQ : ∀ a, Q a → Q' a) (hE : ∀ e, E e → E' e) : p.Yields G' Q' E' := by
  induction p with
  | done a => exact hQ a h
  | fail e => exact hE e h
  | await o k ih => exact fun r hr => ih r (h r (hG o r hr))

end

/-- **Progress**: however it is answered within `G`, the script asks for an
operation in `P` before it ends, unless it ends with what `Q` or `E` admits. -/
def Eventually (G : (o : S.Op) → S.Res o → Prop) (P : S.Op → Prop) (Q : α → Prop)
    (E : ε → Prop) : Script S ε α → Prop
  | .done a => Q a
  | .fail e => E e
  | .await o k => P o ∨ ∀ r, G o r → (k r).Eventually G P Q E

section
variable {G : (o : S.Op) → S.Res o → Prop} {P : S.Op → Prop} {Q : α → Prop} {E : ε → Prop}

theorem Eventually.mono {Q' : α → Prop} {E' : ε → Prop} {p : Script S ε α}
    (h : p.Eventually G P Q E) (hQ : ∀ a, Q a → Q' a) (hE : ∀ e, E e → E' e) :
    p.Eventually G P Q' E' := by
  induction p with
  | done a => exact hQ a h
  | fail e => exact hE e h
  | await o k ih => exact h.imp id fun h r hr => ih r (h r hr)

theorem eventually_any (p : Script S ε α) :
    p.Eventually G P (fun _ => True) (fun _ => True) := by
  induction p with
  | done a => trivial
  | fail e => trivial
  | await o k ih => exact Or.inr fun r _ => ih r

theorem eventually_bind {R : β → Prop} {p : Script S ε α} {f : α → Script S ε β}
    (hp : p.Eventually G P Q E) (hf : ∀ a, Q a → (f a).Eventually G P R E) :
    (p.bind f).Eventually G P R E := by
  induction p with
  | done a => exact hf a hp
  | fail e => exact hp
  | await o k ih => exact hp.imp id fun h r hr => ih r (h r hr)

theorem eventually_attempt {F : ε → Prop} {p : Script S ε α} {h : ε → Script S ε α}
    (hp : p.Eventually G P Q F) (hh : ∀ e, F e → (h e).Eventually G P Q E) :
    (p.attempt h).Eventually G P Q E := by
  induction p with
  | done a => exact hp
  | fail e => exact hh e hp
  | await o k ih => exact hp.imp id fun h r hr => ih r (h r hr)

/-- What a `finally` block asks for, every way through the `try` block comes to. -/
theorem eventually_ensure {p : Script S ε α} {fin : Script S ε Unit}
    (hfin : fin.Eventually G P (fun _ => False) (fun _ => False)) :
    (p.ensure fin).Eventually G P Q E := by
  have hstop : ∀ {β : Type} {f : Unit → Script S ε β} {Q : β → Prop},
      (fin.bind f).Eventually G P Q E := fun {_ _ _} =>
    eventually_bind (hfin.mono (fun _ h => h) fun _ h => h.elim) fun _ h => h.elim
  induction p with
  | done a => exact hstop
  | fail e => exact hstop
  | await o k ih => exact Or.inr fun r _ => ih r

theorem eventually_ite {c : Prop} [Decidable c] {p q : Script S ε α}
    (hp : p.Eventually G P Q E) (hq : q.Eventually G P Q E) :
    (if c then p else q).Eventually G P Q E := by
  split
  · exact hp
  · exact hq

/-- What is still to come is not used up by another operation. -/
theorem Eventually.after {o : S.Op} {k : S.Res o → Script S ε α} {r : S.Res o}
    (h : (await o k).Eventually G P Q E) (ho : ¬ P o) (hr : G o r) : (k r).Eventually G P Q E :=
  h.elim (fun hP => absurd hP ho) fun h => h r hr

end

/-- Every operation the script can still ask for satisfies `P`, whatever it
does with the answer. -/
def Asks (P : S.Op → Prop) (p : Script S ε α) : Prop := p.Always fun o _ => P o

@[simp] theorem asks_done {P : S.Op → Prop} (a : α) : (done a : Script S ε α).Asks P := trivial
@[simp] theorem asks_fail {P : S.Op → Prop} (e : ε) : (fail e : Script S ε α).Asks P := trivial
@[simp] theorem asks_await {P : S.Op → Prop} (o : S.Op) (k : S.Res o → Script S ε α) :
    (await o k).Asks P ↔ P o ∧ ∀ r, (k r).Asks P := Iff.rfl

theorem asks_bind {P : S.Op → Prop} {p : Script S ε α} {f : α → Script S ε β}
    (hp : p.Asks P) (hf : ∀ a, (f a).Asks P) : (p.bind f).Asks P := by
  induction p with
  | done a => exact hf a
  | fail e => trivial
  | await o k ih => exact ⟨hp.1, fun r => ih r (hp.2 r)⟩

theorem asks_attempt {P : S.Op → Prop} {p : Script S ε α} {h : ε → Script S ε α}
    (hp : p.Asks P) (hh : ∀ e, (h e).Asks P) : (p.attempt h).Asks P := by
  induction p with
  | done a => trivial
  | fail e => exact hh e
  | await o k ih => exact ⟨hp.1, fun r => ih r (hp.2 r)⟩

theorem asks_handle {ε' : Type} {P : S.Op → Prop} {p : Script S ε α} {h : ε → Script S ε' α}
    (hp : p.Asks P) (hh : ∀ e, (h e).Asks P) : (p.handle h).Asks P := by
  induction p with
  | done a => trivial
  | fail e => exact hh e
  | await o k ih => exact ⟨hp.1, fun r => ih r (hp.2 r)⟩

theorem asks_ensure {P : S.Op → Prop} {p : Script S ε α} {fin : Script S ε Unit}
    (hp : p.Asks P) (hfin : fin.Asks P) : (p.ensure fin).Asks P := by
  induction p with
  | done a => exact asks_bind hfin fun _ => trivial
  | fail e => exact asks_bind hfin fun _ => trivial
  | await o k ih => exact ⟨hp.1, fun r => ih r (hp.2 r)⟩

theorem asks_ite {P : S.Op → Prop} {c : Prop} [Decidable c] {p q : Script S ε α}
    (hp : p.Asks P) (hq : q.Asks P) : (if c then p else q).Asks P := by
  split
  · exact hp
  · exact hq

theorem Asks.mono {P Q : S.Op → Prop} {p : Script S ε α} (hPQ : ∀ o, P o → Q o)
    (h : p.Asks P) : p.Asks Q :=
  Always.mono (fun o _ => hPQ o) h

/-- **The run rule**: if every operation the script may ask for keeps `I`,
running the script keeps `I`. -/
theorem run_keeps {σ : Type} {exec : (o : S.Op) → σ → Option (S.Res o × σ)}
    {I : σ → Prop}
    (hexec : ∀ o k s r s', P o k → I s → exec o s = some (r, s') → I s') :
    ∀ {p : Script S ε α}, p.Always P → ∀ {s s' : σ} {res : Except ε α},
      I s → p.run exec s = some (res, s') → I s' := by
  intro p
  induction p with
  | done a => intro _ s s' res hI h; cases h; exact hI
  | fail e => intro _ s s' res hI h; cases h; exact hI
  | await o k ih =>
      intro hp s s' res hI h
      rw [run_await] at h
      obtain ⟨⟨r, s₁⟩, h₁, h₂⟩ := Option.bind_eq_some_iff.mp h
      exact ih r (hp.2 r) (hexec o k s r s₁ hp.1 hI h₁) h₂

end

end Script

end LeaveLedger.Lib
