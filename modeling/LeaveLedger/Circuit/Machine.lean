import LeaveLedger.Common.CircuitBreaker
import LeaveLedger.Lib.Machine
import Mathlib.Data.List.Induction
import Mathlib.Tactic.SplitIfs

/-!
# Circuit — Concurrent calls of one breaker

Calls start and settle in any order while the clock moves on. A call that
started before the circuit changed its state settles like every other, so
`onSuccess` and `onFailure` can come at any time in any state.

`breaker_safe` has the invariant of the breaker, the meaning of its failure
count, and the window after an opening in which no call goes out.
-/

namespace LeaveLedger

open Lib

/-- A call that invoked its function and has not settled. -/
structure BreakerCall where
  id : ℕ
  startedAt : ℚ
  /-- how often the circuit had opened when the call started -/
  openings : ℕ
  deriving DecidableEq

structure BreakerSystem where
  breaker : CircuitBreaker
  now : ℚ
  inFlight : List BreakerCall
  /-- how many calls have invoked their function -/
  invoked : ℕ
  /-- how often the circuit has opened -/
  openings : ℕ
  deriving DecidableEq

inductive BreakerLabel where
  /-- the clock moves to `t` -/
  | tick (t : ℚ)
  /-- a call is made, with or without a function of its own -/
  | call (hasFunction : Bool)
  /-- the call `id` settles -/
  | settle (id : ℕ) (outcome : CircuitBreaker.Outcome)
  | reset
  deriving DecidableEq

namespace BreakerSystem

def initial (now : ℚ) : BreakerSystem := ⟨.initial, now, [], 0, 0⟩

/-- The breaker changes to `b`; an opening is counted. -/
def update (s : BreakerSystem) (b : CircuitBreaker) : BreakerSystem :=
  { s with
    breaker := b
    openings := if s.breaker.state ≠ .opened ∧ b.state = .opened then s.openings + 1
      else s.openings }

/-- The call of that id in flight. -/
def find (s : BreakerSystem) (id : ℕ) : Option BreakerCall :=
  s.inFlight.find? fun c => c.id = id

def settled (s : BreakerSystem) (id : ℕ) : BreakerSystem :=
  { s with inFlight := s.inFlight.filter fun c => c.id ≠ id }

/-- A call that invokes its function. -/
def letOut (s : BreakerSystem) : BreakerSystem :=
  { s with
    inFlight := s.inFlight ++ [⟨s.invoked, s.now, s.openings⟩]
    invoked := s.invoked + 1 }

def step (cfg : BreakerConfig) (s : BreakerSystem) : BreakerLabel → Option BreakerSystem
  | .tick t => if s.now ≤ t then some { s with now := t } else none
  | .call hasFunction =>
      match s.breaker.call cfg s.now hasFunction with
      | (.invoke, b) => some (s.update b).letOut
      | (_, b) => some (s.update b)
  | .settle id outcome =>
      (s.find id).bind fun c =>
        -- the timer of a call fires when its time is up
        if outcome = .timedOut ∧ s.now < c.startedAt + cfg.timeout then none
        else some ((s.settled id).update (s.breaker.settle cfg s.now outcome))
  | .reset => some (s.update s.breaker.reset)

@[simp] theorem update_breaker (s : BreakerSystem) (b : CircuitBreaker) :
    (s.update b).breaker = b := rfl
@[simp] theorem update_now (s : BreakerSystem) (b : CircuitBreaker) :
    (s.update b).now = s.now := rfl
@[simp] theorem update_inFlight (s : BreakerSystem) (b : CircuitBreaker) :
    (s.update b).inFlight = s.inFlight := rfl
@[simp] theorem update_invoked (s : BreakerSystem) (b : CircuitBreaker) :
    (s.update b).invoked = s.invoked := rfl
@[simp] theorem letOut_breaker (s : BreakerSystem) : s.letOut.breaker = s.breaker := rfl
@[simp] theorem letOut_now (s : BreakerSystem) : s.letOut.now = s.now := rfl
@[simp] theorem letOut_openings (s : BreakerSystem) : s.letOut.openings = s.openings := rfl
@[simp] theorem settled_breaker (s : BreakerSystem) (id : ℕ) :
    (s.settled id).breaker = s.breaker := rfl
@[simp] theorem settled_now (s : BreakerSystem) (id : ℕ) : (s.settled id).now = s.now := rfl
@[simp] theorem settled_openings (s : BreakerSystem) (id : ℕ) :
    (s.settled id).openings = s.openings := rfl

/-- What one step can do, every case with its guard. -/
inductive StepCase (cfg : BreakerConfig) (s : BreakerSystem) : BreakerLabel → BreakerSystem → Prop
  | tick {t : ℚ} (hle : s.now ≤ t) : StepCase cfg s (.tick t) { s with now := t }
  /-- a call answers without its function -/
  | answered {hasFunction : Bool}
      (hcall : (s.breaker.call cfg s.now hasFunction).1 ≠ .invoke) :
      StepCase cfg s (.call hasFunction) s
  /-- the circuit is not open and the call goes out -/
  | admitted {hasFunction : Bool}
      (hcall : (s.breaker.call cfg s.now hasFunction).1 = .invoke)
      (hstate : s.breaker.state ≠ .opened) : StepCase cfg s (.call hasFunction) s.letOut
  /-- the cooldown is over: the call goes out and the circuit is half-open -/
  | probed {hasFunction : Bool}
      (hcall : (s.breaker.call cfg s.now hasFunction).1 = .invoke)
      (hstate : s.breaker.state = .opened)
      (hcooldown : cfg.cooldownMs ≤ s.breaker.elapsed cfg s.now) :
      StepCase cfg s (.call hasFunction)
        (s.update { s.breaker with state := .halfOpen }).letOut
  | settled {c : BreakerCall} {outcome : CircuitBreaker.Outcome} (hc : s.find c.id = some c) :
      StepCase cfg s (.settle c.id outcome)
        ((s.settled c.id).update (s.breaker.settle cfg s.now outcome))
  | reset : StepCase cfg s .reset (s.update s.breaker.reset)

theorem update_self (s : BreakerSystem) : s.update s.breaker = s := by
  unfold update
  split_ifs with h
  · exact absurd h.2 h.1
  · rfl

theorem step_cases {cfg : BreakerConfig} {s s' : BreakerSystem} {l : BreakerLabel}
    (h : step cfg s l = some s') : StepCase cfg s l s' := by
  cases l with
  | tick t =>
      simp only [step, Option.ite_none_right_eq_some] at h
      obtain ⟨hle, heq⟩ := h
      cases heq
      exact .tick hle
  | call hasFunction =>
      have hcases := CircuitBreaker.call_cases cfg s.now s.breaker hasFunction
      simp only [step] at h
      generalize hcall : s.breaker.call cfg s.now hasFunction = r at h hcases
      obtain ⟨admission, b⟩ := r
      rcases hcases with ⟨hne, hb⟩ | ⟨heq, hstate, hb⟩ | ⟨heq, hstate, hcooldown, hb⟩
      · have hs : s' = s := by
          cases admission <;> simp_all [update_self]
        rw [hs]
        exact .answered (by rw [hcall]; exact hne)
      · dsimp only at heq hb
        subst heq hb
        cases h
        rw [update_self]
        exact .admitted (by rw [hcall]) hstate
      · dsimp only at heq hb
        subst heq hb
        cases h
        exact .probed (by rw [hcall]) hstate hcooldown
  | settle id outcome =>
      simp only [step, Option.bind_eq_some_iff, Option.ite_none_left_eq_some] at h
      obtain ⟨c, hc, -, heq⟩ := h
      cases heq
      have hid : c.id = id := by simpa using List.find?_some hc
      subst hid
      exact .settled hc
  | reset =>
      cases h
      exact .reset

/-- A call that answers without its function changes nothing. -/
theorem step_answered {cfg : BreakerConfig} {s : BreakerSystem} {hasFunction : Bool}
    (hne : (s.breaker.call cfg s.now hasFunction).1 ≠ .invoke) :
    step cfg s (.call hasFunction) = some s := by
  have hsame : (s.breaker.call cfg s.now hasFunction).2 = s.breaker := by
    rcases CircuitBreaker.call_cases cfg s.now s.breaker hasFunction with
      ⟨-, heq⟩ | ⟨hinvoke, -⟩ | ⟨hinvoke, -⟩
    · exact heq
    · exact absurd hinvoke hne
    · exact absurd hinvoke hne
  simp only [step]
  generalize s.breaker.call cfg s.now hasFunction = r at hne hsame ⊢
  obtain ⟨admission, b⟩ := r
  dsimp only at hsame
  subst hsame
  cases admission with
  | invoke => exact absurd rfl hne
  | noFunction => exact congrArg some (update_self s)
  | failFast err => exact congrArg some (update_self s)
  | fallback err => exact congrArg some (update_self s)

/-! ## Safety -/

/-- What a label means to the failure count: `true` for a failed completion,
`false` for a successful one and for a reset. -/
def mark : BreakerLabel → Option Bool
  | .settle _ .success => some false
  | .settle _ _ => some true
  | .reset => some false
  | _ => none

/-- The failed completions since the last successful completion or reset. -/
def failuresSince (ls : List BreakerLabel) : ℕ := streak id (ls.filterMap mark)

theorem failuresSince_snoc (ls : List BreakerLabel) (l : BreakerLabel) :
    failuresSince (ls ++ [l]) =
      match mark l with
      | none => failuresSince ls
      | some true => failuresSince ls + 1
      | some false => 0 := by
  unfold failuresSince
  cases hm : mark l with
  | none => simp [List.filterMap_append, hm]
  | some failed => cases failed <;> simp [List.filterMap_append, hm]

variable {cfg : BreakerConfig}

theorem step_valid {s s' : BreakerSystem} {l : BreakerLabel}
    (hthreshold : 1 ≤ cfg.failureThreshold) (hv : s.breaker.Valid cfg)
    (h : step cfg s l = some s') : s'.breaker.Valid cfg := by
  cases step_cases h with
  | tick => exact hv
  | answered => exact hv
  | admitted => exact hv
  | probed hcall hstate =>
      exact ⟨fun hc => by simp at hc, fun hc => by simp at hc,
        fun _ => hv.openedAt (by rw [hstate]; simp)⟩
  | settled => exact hv.settle hthreshold
  | reset => exact CircuitBreaker.Valid.reset hthreshold _

theorem step_failureCount {s s' : BreakerSystem} {l : BreakerLabel}
    (h : step cfg s l = some s') :
    s'.breaker.failureCount =
      match mark l with
      | none => s.breaker.failureCount
      | some true => s.breaker.failureCount + 1
      | some false => 0 := by
  cases step_cases h with
  | tick => rfl
  | answered => rfl
  | admitted => rfl
  | probed => rfl
  | @settled c outcome => cases outcome <;> simp [mark, CircuitBreaker.settle]
  | reset => rfl

/-! ## The window after an opening -/

/-- The circuit is open, and its cooldown does not end before `u`. -/
def StaysOpen (cfg : BreakerConfig) (u now : ℚ) (b : CircuitBreaker) : Prop :=
  b.state = .opened ∧ ∃ t, b.openedAt = some t ∧ b.nextAttemptAt = some (t + cfg.cooldownMs)
    ∧ t ≤ now ∧ u ≤ t + cfg.cooldownMs

theorem StaysOpen.call_ne_invoke {u now : ℚ} {b : CircuitBreaker}
    (hcooldown : 0 < cfg.cooldownMs) (hopen : StaysOpen cfg u now b) (hnow : now < u)
    (hasFunction : Bool) : (b.call cfg now hasFunction).1 ≠ .invoke := by
  obtain ⟨hstate, t, ht, hnext, -, hle⟩ := hopen
  intro hinvoke
  rcases CircuitBreaker.call_cases cfg now b hasFunction with
    ⟨hne, -⟩ | ⟨-, hne, -⟩ | ⟨-, -, helapsed, -⟩
  · exact hne hinvoke
  · exact hne hstate
  · rw [CircuitBreaker.elapsed_eq hcooldown ht hnext] at helapsed
    linarith

/-- A late failure can only move the end of the cooldown to a later time, a late
success leaves the circuit open. -/
theorem StaysOpen.settle {u now : ℚ} {b : CircuitBreaker} (h : StaysOpen cfg u now b)
    (outcome : CircuitBreaker.Outcome) : StaysOpen cfg u now (b.settle cfg now outcome) := by
  obtain ⟨hstate, t, ht, hnext, hpast, hle⟩ := h
  have hfailure : StaysOpen cfg u now (b.onFailure cfg now) := by
    unfold CircuitBreaker.onFailure
    dsimp only
    split
    · exact ⟨rfl, now, rfl, rfl, le_refl now, by linarith⟩
    · exact ⟨hstate, t, ht, hnext, hpast, hle⟩
  cases outcome with
  | success =>
      show StaysOpen cfg u now b.onSuccess
      have hne : ¬ b.state = .halfOpen := by rw [hstate]; simp
      unfold CircuitBreaker.onSuccess
      rw [if_neg hne]
      exact ⟨hstate, t, ht, hnext, hpast, hle⟩
  | failure => exact hfailure
  | timedOut => exact hfailure

/-- Only a reset ends the window before its time. -/
theorem step_staysOpen {u : ℚ} {s s' : BreakerSystem} {l : BreakerLabel}
    (hcooldown : 0 < cfg.cooldownMs) (hu : s.now < u → StaysOpen cfg u s.now s.breaker)
    (hl : l ≠ .reset) (h : step cfg s l = some s') :
    s'.now < u → StaysOpen cfg u s'.now s'.breaker := by
  intro hnow
  cases step_cases h with
  | tick hle =>
      obtain ⟨hstate, t, ht, hnext, hpast, hlate⟩ := hu (lt_of_le_of_lt hle hnow)
      exact ⟨hstate, t, ht, hnext, le_trans hpast hle, hlate⟩
  | answered => exact hu hnow
  | admitted hcall => exact absurd hcall ((hu hnow).call_ne_invoke hcooldown hnow _)
  | probed hcall => exact absurd hcall ((hu hnow).call_ne_invoke hcooldown hnow _)
  | settled => exact (hu hnow).settle _
  | reset => exact absurd rfl hl

/-- Where the circuit opens, it opens now. -/
theorem step_opens {s s' : BreakerSystem} {l : BreakerLabel} (h : step cfg s l = some s')
    (hbefore : s.breaker.state ≠ .opened) (hafter : s'.breaker.state = .opened) :
    StaysOpen cfg (s'.now + cfg.cooldownMs) s'.now s'.breaker := by
  have hfailure : (s.breaker.onFailure cfg s.now).state = .opened →
      StaysOpen cfg (s.now + cfg.cooldownMs) s.now (s.breaker.onFailure cfg s.now) := by
    intro hopened
    unfold CircuitBreaker.onFailure at hopened ⊢
    dsimp only at hopened ⊢
    split_ifs at hopened ⊢ with hcond
    · exact ⟨rfl, s.now, rfl, rfl, le_refl _, le_refl _⟩
    · exact absurd hopened hbefore
  cases step_cases h with
  | tick => exact absurd hafter hbefore
  | answered => exact absurd hafter hbefore
  | admitted => exact absurd hafter hbefore
  | probed hcall hstate => exact absurd hstate hbefore
  | @settled c outcome =>
      cases outcome with
      | success =>
          have hopened : s.breaker.onSuccess.state = .opened := hafter
          rw [CircuitBreaker.onSuccess_state] at hopened
          split at hopened
          · cases hopened
          · exact absurd hopened hbefore
      | failure => exact hfailure hafter
      | timedOut => exact hfailure hafter
  | reset => cases hafter

/-- **Safety of the breaker**, for every order of calls, settlements, resets and
clock moves: the fields fit the state, the failure count is the number of
failures in a row, and after an opening no call goes out before the cooldown is
over, unless the breaker is reset. -/
theorem breaker_safe (cfg : BreakerConfig) (hthreshold : 1 ≤ cfg.failureThreshold)
    (hcooldown : 0 < cfg.cooldownMs) (t₀ : ℚ) :
    (∀ ls s, run (step cfg) (initial t₀) ls = some s →
      (s.breaker.state = .closed →
        (s.breaker.failureCount : ℚ) < cfg.failureThreshold ∧ s.breaker.openedAt = none)
      ∧ (s.breaker.state = .opened →
        ∃ t, s.breaker.openedAt = some t ∧ s.breaker.nextAttemptAt = some (t + cfg.cooldownMs))
      ∧ s.breaker.failureCount = failuresSince ls)
    ∧ ∀ pre l mid s₁ s₂ s₃, run (step cfg) (initial t₀) pre = some s₁ →
      step cfg s₁ l = some s₂ → s₁.breaker.state ≠ .opened → s₂.breaker.state = .opened →
      run (step cfg) s₂ mid = some s₃ → .reset ∉ mid → s₃.now < s₂.now + cfg.cooldownMs →
      ∀ hasFunction, (s₃.breaker.call cfg s₃.now hasFunction).1 ≠ .invoke
        ∧ step cfg s₃ (.call hasFunction) = some s₃ := by
  constructor
  · intro ls s hrun
    have hvalid : s.breaker.Valid cfg :=
      run_induct (I := fun s : BreakerSystem => s.breaker.Valid cfg)
        (fun _ _ _ hv h => step_valid hthreshold hv h)
        (CircuitBreaker.valid_initial hthreshold) hrun
    refine ⟨fun hc => ⟨hvalid.closed_count hc, hvalid.closed_openedAt hc⟩,
      fun ho => hvalid.openedAt (by rw [ho]; simp), ?_⟩
    -- the count follows the labels from the front of the run to its end
    clear hvalid
    induction ls using List.reverseRecOn generalizing s with
    | nil => cases hrun; rfl
    | append_singleton ls l ih =>
        obtain ⟨s', hrun', hstep⟩ := run_snoc_some hrun
        rw [failuresSince_snoc, step_failureCount hstep, ih s' hrun']
  · intro pre l mid s₁ s₂ s₃ _ hstep hbefore hafter hmid hreset hnow hasFunction
    have hopen : s₃.now < s₂.now + cfg.cooldownMs →
        StaysOpen cfg (s₂.now + cfg.cooldownMs) s₃.now s₃.breaker := by
      refine run_meets (C := fun _ l => l ≠ .reset)
        (I := fun s : BreakerSystem => s.now < s₂.now + cfg.cooldownMs →
          StaysOpen cfg (s₂.now + cfg.cooldownMs) s.now s.breaker)
        (fun _ _ _ hu hl h => step_staysOpen hcooldown hu hl h)
        (fun _ => step_opens hstep hbefore hafter) ?_ hmid
      rw [meets_iff]
      rintro pre' l' post' s' rfl - rfl
      exact hreset (by simp)
    have hne := (hopen hnow).call_ne_invoke hcooldown hnow hasFunction
    exact ⟨hne, step_answered hne⟩

/-- A breaker that opens with two failures in a row. -/
def sampleConfig : BreakerConfig :=
  .new true { name := some "HCM", failureThreshold := some 2, resetTimeoutMs := some 30000 }

/-- Three calls overlap, two fail and open the circuit, the third succeeds in the
open circuit: it clears the count, and the next call still has to wait. -/
theorem breaker_safe_late_success : ∃ s₁ s₂ s₃,
    run (step sampleConfig) (initial 0)
      [.call true, .call true, .call true, .settle 0 .failure] = some s₁
    ∧ step sampleConfig s₁ (.settle 1 .failure) = some s₂
    ∧ run (step sampleConfig) s₂ [.tick 20000, .settle 2 .success] = some s₃
    ∧ s₃.breaker.failureCount = 0
    ∧ (s₃.breaker.call sampleConfig s₃.now true).1 ≠ .invoke := by
  have hruns : ((run (step sampleConfig) (initial 0)
      [.call true, .call true, .call true, .settle 0 .failure]).bind fun s₁ =>
        (step sampleConfig s₁ (.settle 1 .failure)).bind fun s₂ =>
          (run (step sampleConfig) s₂ [.tick 20000, .settle 2 .success]).map fun s₃ =>
            (s₁.breaker.state, s₂.breaker.state, s₂.now, s₃.now, s₃.breaker.failureCount))
      = some (.closed, .opened, 0, 20000, 0) := by
    decide +kernel
  simp only [Option.bind_eq_some_iff, Option.map_eq_some_iff, Prod.mk.injEq] at hruns
  obtain ⟨s₁, h₁, s₂, h₂, s₃, h₃, hclosed, hopened, hopening, hnow, hcount⟩ := hruns
  have hsafe := breaker_safe sampleConfig (by decide +kernel) (by decide +kernel) 0
  refine ⟨s₁, s₂, s₃, h₁, h₂, h₃, hcount, ?_⟩
  refine (hsafe.2 _ _ _ s₁ s₂ s₃ h₁ h₂ ?_ hopened h₃ (by decide) ?_ true).1
  · rw [hclosed]
    decide
  · rw [hnow, hopening]
    decide +kernel

end BreakerSystem
end LeaveLedger
