import LeaveLedger.Common.CircuitBreakerState
import LeaveLedger.Lib.Machine

/-!
# Circuit — Two circuit breakers, one behaviour

Attempts one after another: each asks, runs if it is admitted, and reports
how it went before the next one asks. `CircuitBreaker` asks and reports in
`call`, the state machine through its methods. They keep different times:
the one when it opened and when it may be tried again, the other when its
state changed last. While a circuit is open these say the same (`Agree`),
and at no other time does anything depend on them.
-/

namespace LeaveLedger

open Lib

/-- An attempt, with the times at which it asks and reports. -/
structure CircuitAttempt where
  askedAt : ℚ
  reportedAt : ℚ
  outcome : CircuitBreaker.Outcome

/-- What is seen of an attempt: whether it was admitted, and the state and the failure
count after it. -/
abbrev CircuitAnswer := Bool × CircuitState × ℕ

/-- An attempt as a `call` with a function. -/
def CircuitBreaker.attempt (cfg : BreakerConfig) (a : CircuitAttempt) (b : CircuitBreaker) :
    Option (CircuitAnswer × CircuitBreaker) :=
  let (admission, asked) := b.call cfg a.askedAt true
  let admitted := decide (admission = .invoke)
  let after := if admitted then asked.settle cfg a.reportedAt a.outcome else asked
  some ((admitted, after.state, after.failureCount), after)

def CircuitBreakerStateMachine.report (now : ℚ) (outcome : CircuitBreaker.Outcome)
    (m : CircuitBreakerStateMachine) : CircuitBreakerStateMachine :=
  match outcome with
  | .success => m.recordSuccess now
  | .failure | .timedOut => m.recordFailure now

/-- An attempt that asks with `canExecute` and reports to the state machine. -/
def CircuitBreakerStateMachine.attempt (a : CircuitAttempt) (m : CircuitBreakerStateMachine) :
    Option (CircuitAnswer × CircuitBreakerStateMachine) :=
  let (admitted, asked) := m.canExecute a.askedAt
  let after := if admitted then asked.report a.reportedAt a.outcome else asked
  some ((admitted, after.state, after.failureCount), after)

/-! ## The simulation -/

/-- The two circuits agree between attempts: while they are open, on when they opened. -/
structure Agree (cfg : BreakerConfig) (b : CircuitBreaker) (m : CircuitBreakerStateMachine) :
    Prop where
  failureThreshold : m.failureThreshold = cfg.failureThreshold
  cooldownMs : m.cooldownMs = cfg.cooldownMs
  state : m.state = b.state
  failureCount : m.failureCount = b.failureCount
  settled : b.state ≠ .halfOpen
  openedAt : b.state = .opened → b.openedAt = some m.lastStateChange
    ∧ b.nextAttemptAt = some (m.lastStateChange + cfg.cooldownMs)

variable {cfg : BreakerConfig} {b : CircuitBreaker} {m : CircuitBreakerStateMachine}

/-- They agree while an attempt is under way: neither is open. -/
structure AgreeUnderway (cfg : BreakerConfig) (b : CircuitBreaker)
    (m : CircuitBreakerStateMachine) : Prop where
  failureThreshold : m.failureThreshold = cfg.failureThreshold
  cooldownMs : m.cooldownMs = cfg.cooldownMs
  state : m.state = b.state
  failureCount : m.failureCount = b.failureCount
  running : b.state ≠ .opened

/-- **Asking**: both admit the attempt, which is then under way, or both refuse it and
stay as they are. -/
theorem Agree.ask (h : Agree cfg b m) (hcooldown : 0 < cfg.cooldownMs) (now : ℚ) :
    (∃ b' m', b.call cfg now true = (.invoke, b') ∧ m.canExecute now = (true, m')
        ∧ AgreeUnderway cfg b' m')
    ∨ ((b.call cfg now true).1 ≠ .invoke ∧ (b.call cfg now true).2 = b
        ∧ m.canExecute now = (false, m)) := by
  by_cases hopen : b.state = .opened
  · obtain ⟨hat, hnext⟩ := h.openedAt hopen
    have helapsed : b.elapsed cfg now = now - m.lastStateChange :=
      CircuitBreaker.elapsed_eq hcooldown hat hnext
    have hmopen : m.state = .opened := h.state.trans hopen
    by_cases hover : cfg.cooldownMs ≤ now - m.lastStateChange
    · have hrem : ¬ 0 < cfg.cooldownMs - b.elapsed cfg now := by
        rw [helapsed]
        linarith
      left
      refine ⟨{ b with state := .halfOpen }, _, ?_,
        CircuitBreakerStateMachine.canExecute_probe hmopen (by rw [h.cooldownMs]; exact hover), ?_⟩
      · simp [CircuitBreaker.call, hopen, hrem]
      · exact ⟨h.failureThreshold, h.cooldownMs, rfl, h.failureCount, by simp⟩
    · have hrem : 0 < cfg.cooldownMs - b.elapsed cfg now := by
        rw [helapsed]
        linarith
      right
      refine ⟨?_, ?_, CircuitBreakerStateMachine.canExecute_wait hmopen
        (by rw [h.cooldownMs]; exact not_le.mp hover)⟩
      · simp only [CircuitBreaker.call, hopen, hrem, if_true, Bool.not_true, Bool.false_and]
        cases cfg.fallback <;> simp
      · simp [CircuitBreaker.call, hopen, hrem]
  · left
    have hmopen : m.state ≠ .opened := by
      rw [h.state]
      exact hopen
    refine ⟨b, m, ?_, CircuitBreakerStateMachine.canExecute_closed hmopen, ?_⟩
    · simp [CircuitBreaker.call, hopen]
    · exact ⟨h.failureThreshold, h.cooldownMs, h.state, h.failureCount, hopen⟩

theorem AgreeUnderway.success (h : AgreeUnderway cfg b m) (now : ℚ) :
    Agree cfg b.onSuccess (m.recordSuccess now) := by
  have hclosed : b.onSuccess.state = .closed := by
    rw [CircuitBreaker.onSuccess_state]
    cases hstate : b.state with
    | closed => rfl
    | opened => exact absurd hstate h.running
    | halfOpen => rfl
  refine ⟨h.failureThreshold, h.cooldownMs, hclosed.symm, ?_, by simp [hclosed],
    fun hopen => ?_⟩
  · simp [CircuitBreakerStateMachine.recordSuccess]
  · rw [hclosed] at hopen
    cases hopen

theorem AgreeUnderway.failure (h : AgreeUnderway cfg b m) (now : ℚ) :
    Agree cfg (b.onFailure cfg now) (m.recordFailure now) := by
  unfold CircuitBreaker.onFailure CircuitBreakerStateMachine.recordFailure
  simp only [h.failureThreshold, h.failureCount, h.state]
  by_cases htrip : b.state = .halfOpen ∨ cfg.failureThreshold ≤ (b.failureCount + 1 : ℕ)
  · rw [if_pos htrip, if_pos htrip.symm]
    refine ⟨rfl, h.cooldownMs, rfl, rfl, by simp, fun _ => ⟨rfl, rfl⟩⟩
  · rw [if_neg htrip, if_neg fun hor => htrip hor.symm]
    rw [not_or] at htrip
    exact ⟨rfl, h.cooldownMs, rfl, rfl, htrip.1, fun hopen => absurd hopen h.running⟩

/-- **One attempt**: both circuits answer alike and still agree. -/
theorem Agree.attempt (hcooldown : 0 < cfg.cooldownMs) (a : CircuitAttempt) (h : Agree cfg b m) :
    ∃ r b' m', b.attempt cfg a = some (r, b') ∧ m.attempt a = some (r, m') ∧ Agree cfg b' m' := by
  rcases h.ask hcooldown a.askedAt with ⟨b', m', hcall, hask, hunder⟩ | ⟨hcall, hsame, hask⟩
  · have hreport : Agree cfg (b'.settle cfg a.reportedAt a.outcome)
        (m'.report a.reportedAt a.outcome) := by
      cases a.outcome with
      | success => exact hunder.success a.reportedAt
      | failure => exact hunder.failure a.reportedAt
      | timedOut => exact hunder.failure a.reportedAt
    refine ⟨(true, (b'.settle cfg a.reportedAt a.outcome).state,
      (b'.settle cfg a.reportedAt a.outcome).failureCount), _, _, ?_, ?_, hreport⟩
    · simp [CircuitBreaker.attempt, hcall]
    · simp [CircuitBreakerStateMachine.attempt, hask, hreport.state, hreport.failureCount]
  · refine ⟨(false, b.state, b.failureCount), b, m, ?_, ?_, h⟩
    · simp [CircuitBreaker.attempt, hcall, hsame]
    · simp [CircuitBreakerStateMachine.attempt, hask, h.state, h.failureCount]

/-- **The two circuit breakers agree**: given the same threshold and cooldown, they admit
the same attempts of every sequence, and have the same state and failure count after each. -/
theorem breakers_agree (fn : Bool) {opts : BreakerOptions} {threshold cooldown : ℚ}
    (hthreshold : opts.failureThreshold = some threshold)
    (hcooldown : (opts.resetTimeoutMs.orElse fun _ => opts.cooldownMs) = some cooldown)
    (hthreshold' : 1 ≤ threshold) (hcooldown' : 1 ≤ cooldown) (start : ℚ)
    (attempts : List CircuitAttempt) :
    ∃ rs, answers (CircuitBreaker.attempt (BreakerConfig.new fn opts)) attempts .initial = some rs
      ∧ answers CircuitBreakerStateMachine.attempt attempts
          (.new (some threshold) (some cooldown) start) = some rs := by
  have hcfg : (BreakerConfig.new fn opts).failureThreshold = threshold
      ∧ (BreakerConfig.new fn opts).cooldownMs = cooldown := by
    unfold BreakerConfig.new
    rw [hthreshold, hcooldown]
    exact ⟨rfl, rfl⟩
  have hpos : 0 < (BreakerConfig.new fn opts).cooldownMs := by
    rw [hcfg.2]
    linarith
  refine answers_of_simulation (R := Agree (BreakerConfig.new fn opts))
    (fun a _ _ h => h.attempt hpos a) ?_
  refine ⟨?_, ?_, rfl, rfl, by simp [CircuitBreaker.initial], fun hopen => ?_⟩
  · rw [hcfg.1]
    simp [CircuitBreakerStateMachine.new, CircuitBreaker.numberOr, (by linarith : threshold ≠ 0)]
  · rw [hcfg.2]
    simp [CircuitBreakerStateMachine.new, CircuitBreaker.numberOr, (by linarith : cooldown ≠ 0)]
  · cases hopen

/-- Two failures open both circuits, and the third attempt is admitted exactly at the end
of the cooldown. -/
theorem breakers_agree_cooldown :
    ∃ rs, answers
        (CircuitBreaker.attempt
          (.new false { failureThreshold := some 2, cooldownMs := some 1000 }))
        [⟨0, 10, .failure⟩, ⟨20, 50, .timedOut⟩, ⟨1049, 1049, .success⟩, ⟨1050, 1060, .success⟩]
        .initial = some rs
      ∧ answers CircuitBreakerStateMachine.attempt
        [⟨0, 10, .failure⟩, ⟨20, 50, .timedOut⟩, ⟨1049, 1049, .success⟩, ⟨1050, 1060, .success⟩]
        (.new (some 2) (some 1000) 0) = some rs :=
  breakers_agree false rfl rfl (by norm_num) (by norm_num) 0 _

end LeaveLedger
