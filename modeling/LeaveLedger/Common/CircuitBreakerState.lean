import LeaveLedger.Common.CircuitBreaker

/-!
# Common — CircuitBreakerStateMachine

`common/utils/circuit-breaker-state.util`: a circuit that is asked before
each attempt and told its outcome. It keeps the time of the last change of
state, and passes from open to half-open when somebody asks for its state.
-/

namespace LeaveLedger

structure CircuitBreakerStateMachine where
  failureThreshold : ℚ
  cooldownMs : ℚ
  state : CircuitState
  failureCount : ℕ
  lastStateChange : ℚ

namespace CircuitBreakerStateMachine

/-- The constructor at time `now`; an option that is missing or zero has its default. -/
def new (failureThreshold cooldownMs : Option ℚ) (now : ℚ) : CircuitBreakerStateMachine where
  failureThreshold := CircuitBreaker.numberOr failureThreshold 3
  cooldownMs := CircuitBreaker.numberOr cooldownMs 5000
  state := .closed
  failureCount := 0
  lastStateChange := now

def getState (now : ℚ) (m : CircuitBreakerStateMachine) :
    CircuitState × CircuitBreakerStateMachine :=
  if m.state = .opened ∧ m.cooldownMs ≤ now - m.lastStateChange then
    (.halfOpen, { m with state := .halfOpen, lastStateChange := now })
  else (m.state, m)

def recordSuccess (now : ℚ) (m : CircuitBreakerStateMachine) : CircuitBreakerStateMachine :=
  { m with failureCount := 0, state := .closed, lastStateChange := now }

def recordFailure (now : ℚ) (m : CircuitBreakerStateMachine) : CircuitBreakerStateMachine :=
  let failureCount := m.failureCount + 1
  if m.failureThreshold ≤ failureCount ∨ m.state = .halfOpen then
    { m with failureCount := failureCount, state := .opened, lastStateChange := now }
  else { m with failureCount := failureCount }

def canExecute (now : ℚ) (m : CircuitBreakerStateMachine) : Bool × CircuitBreakerStateMachine :=
  let (state, m) := m.getState now
  (state ≠ .opened, m)

/-! ## What each method does -/

variable {now : ℚ} {m : CircuitBreakerStateMachine}

/-- Only an open circuit whose cooldown is not over refuses. -/
theorem canExecute_closed (h : m.state ≠ .opened) : m.canExecute now = (true, m) := by
  simp [canExecute, getState, h]

theorem canExecute_wait (h : m.state = .opened) (hwait : now - m.lastStateChange < m.cooldownMs) :
    m.canExecute now = (false, m) := by
  simp [canExecute, getState, h, not_le.mpr hwait]

theorem canExecute_probe (h : m.state = .opened)
    (hover : m.cooldownMs ≤ now - m.lastStateChange) :
    m.canExecute now = (true, { m with state := .halfOpen, lastStateChange := now }) := by
  simp [canExecute, getState, h, hover]

end CircuitBreakerStateMachine

end LeaveLedger
