import Mathlib.Data.Rat.Floor
import Mathlib.Algebra.Order.Field.Rat
import Mathlib.Tactic.Linarith

/-!
# Common — CircuitBreaker

`common/utils/circuit-breaker.util`. The method `call` is split where it
waits: `call` is what it does before it hands its function to
`_withTimeout`, `onSuccess` and `onFailure` are what it does when that
promise settles. Between the two any other call can start or settle.

`_halfOpenInFlight` is set by the constructor and read by no method, so it
has no field here; `_failures` repeats `_failureCount`.
-/

namespace LeaveLedger

inductive CircuitState where
  | closed | opened | halfOpen
  deriving DecidableEq

/-- The options of the constructor, `none` where one is missing. -/
structure BreakerOptions where
  name : Option String := none
  failureThreshold : Option ℚ := none
  resetTimeoutMs : Option ℚ := none
  cooldownMs : Option ℚ := none
  timeout : Option ℚ := none
  fallback : Bool := false

/-- What a breaker keeps of its options. -/
structure BreakerConfig where
  /-- a default function is bound -/
  fn : Bool
  name : String
  failureThreshold : ℚ
  cooldownMs : ℚ
  timeout : ℚ
  fallback : Bool

/-- The constructor, with or without a default function. -/
def BreakerConfig.new (fn : Bool) (opts : BreakerOptions) : BreakerConfig where
  fn := fn
  name :=
    -- the empty string is falsy
    match opts.name with
    | none | some "" => if fn then "CircuitBreaker" else "default"
    | some name => name
  failureThreshold := opts.failureThreshold.getD 5
  cooldownMs := (opts.resetTimeoutMs.orElse fun _ => opts.cooldownMs).getD 30000
  timeout := opts.timeout.getD 10000
  fallback := opts.fallback

structure CircuitBreaker where
  state : CircuitState
  failureCount : ℕ
  openedAt : Option ℚ
  nextAttemptAt : Option ℚ
  successCount : ℕ
  deriving DecidableEq

namespace CircuitBreaker

def initial : CircuitBreaker := ⟨.closed, 0, none, none, 0⟩

/-- `CircuitBreakerOpenError`, with the code `CIRCUIT_OPEN`. -/
structure OpenError where
  circuitName : String
  cooldownRemainingMs : ℚ
  deriving DecidableEq

/-- How `call` goes on. -/
inductive Admission where
  /-- no function was given and none is bound: a `TypeError` -/
  | noFunction
  | failFast (err : OpenError)
  /-- the fallback answers in place of the function -/
  | fallback (err : OpenError)
  /-- the function is handed to `_withTimeout` -/
  | invoke
  deriving DecidableEq

/-- `x || y` of a number or `null`: zero counts as missing. -/
def numberOr (x : Option ℚ) (y : ℚ) : ℚ :=
  match x with
  | some q => if q = 0 then y else q
  | none => y

/-- The milliseconds since the circuit opened. -/
def elapsed (cfg : BreakerConfig) (now : ℚ) (b : CircuitBreaker) : ℚ :=
  now - numberOr b.openedAt
    (match b.nextAttemptAt with
     | some q => if q = 0 then now else q - cfg.cooldownMs
     | none => now)

/-- `call` up to its first `await`, with or without a function argument. -/
def call (cfg : BreakerConfig) (now : ℚ) (hasFunction : Bool) (b : CircuitBreaker) :
    Admission × CircuitBreaker :=
  if !hasFunction && !cfg.fn then (.noFunction, b)
  else if b.state = .opened then
    let remaining := cfg.cooldownMs - b.elapsed cfg now
    if 0 < remaining then
      let err : OpenError := ⟨cfg.name, remaining⟩
      (if cfg.fallback then .fallback err else .failFast err, b)
    else (.invoke, { b with state := .halfOpen })
  else (.invoke, b)

/-- `_onSuccess`. -/
def onSuccess (b : CircuitBreaker) : CircuitBreaker :=
  if b.state = .halfOpen then ⟨.closed, 0, none, none, b.successCount + 1⟩
  else { b with failureCount := 0, successCount := b.successCount + 1 }

/-- `_onFailure`: the error itself is not looked at. -/
def onFailure (cfg : BreakerConfig) (now : ℚ) (b : CircuitBreaker) : CircuitBreaker :=
  let failureCount := b.failureCount + 1
  if b.state = .halfOpen ∨ cfg.failureThreshold ≤ failureCount then
    { b with
      state := .opened
      failureCount := failureCount
      openedAt := some now
      nextAttemptAt := some (now + cfg.cooldownMs) }
  else { b with failureCount := failureCount }

/-- `reset`. -/
def reset (b : CircuitBreaker) : CircuitBreaker :=
  ⟨.closed, 0, none, none, b.successCount⟩

/-- What an invoked call comes to: its function answered, its function threw,
or the timer of `_withTimeout` was first. -/
inductive Outcome where
  | success | failure | timedOut
  deriving DecidableEq

/-- `call` after its `await`. -/
def settle (cfg : BreakerConfig) (now : ℚ) (outcome : Outcome) (b : CircuitBreaker) :
    CircuitBreaker :=
  match outcome with
  | .success => b.onSuccess
  | .failure | .timedOut => b.onFailure cfg now

/-! ## What each method does to the state -/

variable {cfg : BreakerConfig} {now : ℚ} {b : CircuitBreaker}

@[simp] theorem onSuccess_failureCount : b.onSuccess.failureCount = 0 := by
  unfold onSuccess
  split <;> rfl

@[simp] theorem onFailure_failureCount :
    (b.onFailure cfg now).failureCount = b.failureCount + 1 := by
  unfold onFailure
  dsimp only
  split <;> rfl

@[simp] theorem reset_state : b.reset.state = .closed := rfl
@[simp] theorem reset_failureCount : b.reset.failureCount = 0 := rfl
@[simp] theorem reset_openedAt : b.reset.openedAt = none := rfl

/-- A success closes a half-open circuit and leaves every other one as it is. -/
theorem onSuccess_state :
    b.onSuccess.state = if b.state = .halfOpen then .closed else b.state := by
  unfold onSuccess
  split <;> rfl

theorem onFailure_state :
    (b.onFailure cfg now).state =
      if b.state = .halfOpen ∨ cfg.failureThreshold ≤ (b.failureCount + 1 : ℕ) then .opened
      else b.state := by
  unfold onFailure
  dsimp only
  split <;> rfl

/-- Only a call enters the half-open state, and every outcome ends it. -/
theorem settle_state_ne_halfOpen {outcome : Outcome} :
    (b.settle cfg now outcome).state ≠ .halfOpen := by
  have hfailure : (b.onFailure cfg now).state ≠ .halfOpen := by
    rw [onFailure_state]
    by_cases h : b.state = .halfOpen
    · simp [h]
    · split <;> simp [h]
  cases outcome with
  | success =>
      show b.onSuccess.state ≠ .halfOpen
      rw [onSuccess_state]
      by_cases h : b.state = .halfOpen <;> simp [h]
  | failure => exact hfailure
  | timedOut => exact hfailure

/-- A call answers without its function, or the circuit is not open to it and it
invokes its function. -/
theorem call_cases (cfg : BreakerConfig) (now : ℚ) (b : CircuitBreaker) (hasFunction : Bool) :
    ((b.call cfg now hasFunction).1 ≠ .invoke ∧ (b.call cfg now hasFunction).2 = b) ∨
    ((b.call cfg now hasFunction).1 = .invoke ∧ b.state ≠ .opened
      ∧ (b.call cfg now hasFunction).2 = b) ∨
    ((b.call cfg now hasFunction).1 = .invoke ∧ b.state = .opened
      ∧ cfg.cooldownMs ≤ b.elapsed cfg now
      ∧ (b.call cfg now hasFunction).2 = { b with state := .halfOpen }) := by
  unfold call
  dsimp only
  by_cases hfn : (!hasFunction && !cfg.fn) = true
  · simp [hfn]
  · by_cases hopen : b.state = .opened
    · by_cases hrem : 0 < cfg.cooldownMs - b.elapsed cfg now
      · left
        rw [if_neg hfn, if_pos hopen, if_pos hrem]
        cases cfg.fallback <;> simp
      · right; right
        rw [if_neg hfn, if_pos hopen, if_neg hrem]
        exact ⟨rfl, hopen, by linarith, rfl⟩
    · right; left
      rw [if_neg hfn, if_neg hopen]
      exact ⟨rfl, hopen, rfl⟩

/-! ## The invariant -/

/-- What holds of a breaker at all times. -/
structure Valid (cfg : BreakerConfig) (b : CircuitBreaker) : Prop where
  closed_count : b.state = .closed → (b.failureCount : ℚ) < cfg.failureThreshold
  closed_openedAt : b.state = .closed → b.openedAt = none
  openedAt : b.state ≠ .closed →
    ∃ t, b.openedAt = some t ∧ b.nextAttemptAt = some (t + cfg.cooldownMs)

theorem valid_initial (hthreshold : 1 ≤ cfg.failureThreshold) : Valid cfg initial :=
  ⟨fun _ => by simp only [initial]; push_cast; linarith, fun _ => rfl, fun h => absurd rfl h⟩

theorem Valid.onSuccess (hthreshold : 1 ≤ cfg.failureThreshold) (h : Valid cfg b) :
    Valid cfg b.onSuccess := by
  unfold CircuitBreaker.onSuccess
  split
  · exact ⟨fun _ => by push_cast; linarith, fun _ => rfl, fun hc => absurd rfl hc⟩
  · exact ⟨fun _ => by push_cast; linarith, h.closed_openedAt, h.openedAt⟩

theorem Valid.onFailure (h : Valid cfg b) : Valid cfg (b.onFailure cfg now) := by
  unfold CircuitBreaker.onFailure
  dsimp only
  split
  · exact ⟨fun hc => by simp at hc, fun hc => by simp at hc, fun _ => ⟨now, rfl, rfl⟩⟩
  · next hno =>
    rw [not_or, not_le] at hno
    exact ⟨fun _ => hno.2, h.closed_openedAt, h.openedAt⟩

theorem Valid.reset (hthreshold : 1 ≤ cfg.failureThreshold) (b : CircuitBreaker) :
    Valid cfg b.reset :=
  ⟨fun _ => by rw [reset_failureCount]; push_cast; linarith, fun _ => rfl,
    fun hc => absurd rfl hc⟩

theorem Valid.settle {outcome : Outcome} (hthreshold : 1 ≤ cfg.failureThreshold)
    (h : Valid cfg b) : Valid cfg (b.settle cfg now outcome) := by
  cases outcome with
  | success => exact h.onSuccess hthreshold
  | failure => exact h.onFailure
  | timedOut => exact h.onFailure

/-- With a cooldown the time since the opening is what it says, also for a
circuit that opened at time zero. -/
theorem elapsed_eq {t : ℚ} (hcooldown : 0 < cfg.cooldownMs) (ht : b.openedAt = some t)
    (hnext : b.nextAttemptAt = some (t + cfg.cooldownMs)) : b.elapsed cfg now = now - t := by
  unfold elapsed numberOr
  rw [ht, hnext]
  by_cases h0 : t = 0
  · subst h0
    have hne : (0 : ℚ) + cfg.cooldownMs ≠ 0 := by linarith
    simp [hcooldown.ne']
  · simp [h0]

end CircuitBreaker

end LeaveLedger
