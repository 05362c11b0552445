import LeaveLedger.Hcm.HcmService
import LeaveLedger.Lib.Attempts
import Mathlib

/-!
# Common — Retry loops

The three loops of the repository that try again: `withRetry` and
`retryWithBackoff` of `common/utils/retry.util`, and `executeWithRetry` of
`common/utils/exponential-backoff.util`. They count their attempts from one
or from zero, test for the last one in different ways and wait differently. The
call of an attempt comes to `fn attempt`, and the draw of `Math.random` after
it is `random attempt`. Numbers are exact.
-/

namespace LeaveLedger

open Js Lib

namespace Retry

/-- What `Math.random` returns. -/
abbrev Draw := { x : ℚ // 0 ≤ x ∧ x < 1 }

variable {ε α : Type}

/-- `value || default` of a number. -/
def orNumber (value : Option ℚ) (default : ℚ) : ℚ :=
  match value with
  | none => default
  | some v => if v = 0 then default else v

/-! ## withRetry -/

/-- The options of `withRetry`; its callback is not part of it. -/
structure RetryOptions where
  maxAttempts : ℕ := 3
  baseDelayMs : ℚ := 1000
  maxDelayMs : ℚ := 10000
  jitter : Bool := true

/-- The delay after an attempt. -/
def RetryOptions.actualDelay (o : RetryOptions) (attempt : ℕ) (draw : Draw) : ℚ :=
  let exponentialDelay := o.baseDelayMs * 2 ^ (attempt - 1)
  let cappedDelay := min exponentialDelay o.maxDelayMs
  if o.jitter then cappedDelay * (0.5 + draw * 0.5) else cappedDelay

/-- The `for` of `withRetry` from `attempt` on, with `left` rounds to go. -/
def RetryOptions.loop (o : RetryOptions) (fn : ℕ → Except HttpError α) (random : ℕ → Draw) :
    ℕ → ℕ → Option HttpError → Tries HttpError α ℚ
  | 0, _, lastError => .none lastError
  | left + 1, attempt, _ =>
      match fn attempt with
      | .ok a => .last (.ok a)
      | .error err =>
          if attempt = o.maxAttempts ∨ isRetryable err = false then .last (.error err)
          else (o.loop fn random left (attempt + 1) (some err)).after
            (o.actualDelay attempt (random attempt))

def withRetry (o : RetryOptions) (fn : ℕ → Except HttpError α) (random : ℕ → Draw) :
    Tries HttpError α ℚ :=
  o.loop fn random o.maxAttempts 1 none

/-! ## retryWithBackoff -/

structure BackoffOptions (ε : Type) where
  maxAttempts : Option ℕ := none
  initialDelayMs : Option ℚ := none
  backoffFactor : Option ℚ := none
  maxDelayMs : Option ℚ := none
  shouldRetry : ε → Bool := fun _ => true

/-- `options.maxAttempts || 3`. -/
def BackoffOptions.attempts (o : BackoffOptions ε) : ℕ :=
  match o.maxAttempts with
  | none | some 0 => 3
  | some n => n

/-- The delay after an attempt. -/
def BackoffOptions.jitterDelay (o : BackoffOptions ε) (attempt : ℕ) (draw : Draw) : ℚ :=
  let initialDelayMs := orNumber o.initialDelayMs 100
  let backoffFactor := orNumber o.backoffFactor 2
  let maxDelayMs := orNumber o.maxDelayMs 5000
  let baseDelay := min maxDelayMs (initialDelayMs * backoffFactor ^ (attempt - 1))
  ⌊draw * baseDelay⌋

/-- The `while` of `retryWithBackoff` after `attempt` attempts, with `left` rounds to go. An
attempt is counted before it is made. -/
def BackoffOptions.loop (o : BackoffOptions ε) (fn : ℕ → Except ε α) (random : ℕ → Draw) :
    ℕ → ℕ → Option ε → Tries ε α ℚ
  | 0, _, lastError => .none lastError
  | left + 1, attempt, _ =>
      match fn (attempt + 1) with
      | .ok a => .last (.ok a)
      | .error err =>
          if o.attempts ≤ attempt + 1 ∨ o.shouldRetry err = false then .last (.error err)
          else (o.loop fn random left (attempt + 1) (some err)).after
            (o.jitterDelay (attempt + 1) (random (attempt + 1)))

def retryWithBackoff (o : BackoffOptions ε) (fn : ℕ → Except ε α) (random : ℕ → Draw) :
    Tries ε α ℚ :=
  o.loop fn random o.attempts 0 none

/-! ## ExponentialBackoff -/

structure ExponentialBackoff where
  baseDelayMs : ℚ
  maxDelayMs : ℚ
  factor : ℚ
  jitter : Bool

def ExponentialBackoff.new (baseDelayMs maxDelayMs factor : Option ℚ) (jitter : Option Bool) :
    ExponentialBackoff where
  baseDelayMs := orNumber baseDelayMs 100
  maxDelayMs := orNumber maxDelayMs 5000
  factor := orNumber factor 2
  jitter := jitter.getD true

/-- `calculateDelay`, from the first attempt on. -/
def ExponentialBackoff.calculateDelay (b : ExponentialBackoff) (attempt : ℕ) (draw : Draw) : ℚ :=
  let exponential := min b.maxDelayMs (b.baseDelayMs * b.factor ^ attempt)
  if b.jitter then ⌊draw * exponential⌋ else ⌊exponential⌋

/-- The `for` of `executeWithRetry` from `attempt` on, with `left` rounds to go. It leaves the
last round with `break` and throws the last error after it. -/
def ExponentialBackoff.loop (b : ExponentialBackoff) (fn : ℕ → Except ε α) (random : ℕ → Draw)
    (maxAttempts : ℕ) : ℕ → ℕ → Option ε → Tries ε α ℚ
  | 0, _, lastError => .none lastError
  | left + 1, attempt, _ =>
      match fn attempt with
      | .ok a => .last (.ok a)
      | .error err =>
          if attempt = maxAttempts - 1 then .last (.error err)
          else (b.loop fn random maxAttempts left (attempt + 1) (some err)).after
            (b.calculateDelay attempt (random attempt))

def executeWithRetry (b : ExponentialBackoff) (fn : ℕ → Except ε α) (random : ℕ → Draw)
    (maxAttempts : ℕ := 3) : Tries ε α ℚ :=
  b.loop fn random maxAttempts maxAttempts 0 none

/-! ## The loops -/

/-- `withRetry` numbers its calls from one. -/
theorem RetryOptions.loop_tries (o : RetryOptions) (fn : ℕ → Except HttpError α)
    (random : ℕ → Draw) (left attempt : ℕ) (lastError : Option HttpError)
    (hleft : attempt + left = o.maxAttempts) :
    TriesOf isRetryable (left + 1) (fun i => fn (attempt + i))
      (fun i => o.actualDelay (attempt + i) (random (attempt + i)))
      (o.loop fn random (left + 1) attempt lastError) := by
  induction left generalizing attempt lastError with
  | zero =>
      refine .round (fun a (ha : fn attempt = .ok a) => ?_)
        (fun err (herr : fn attempt = .error err) _ => ?_)
        fun _ _ h => absurd rfl h
      · simp [loop, ha]
      · simp [loop, herr, ← hleft]
  | succ left ih =>
      have hlast : attempt ≠ o.maxAttempts := by omega
      refine .round (fun a (ha : fn attempt = .ok a) => ?_)
        (fun err (herr : fn attempt = .error err) h => ?_)
        fun err (herr : fn attempt = .error err) _ h => ?_
      · simp [loop, ha]
      · rcases h with h | h
        · cases h
        · simp [loop, herr, h]
      · have hrest := ih (attempt + 1) (some err) (by omega)
        simp only [Nat.add_right_comm attempt 1] at hrest
        exact ⟨_, hrest, by simp [loop, herr, hlast, h]⟩

theorem BackoffOptions.loop_tries (o : BackoffOptions ε) (fn : ℕ → Except ε α)
    (random : ℕ → Draw) (left attempt : ℕ) (lastError : Option ε)
    (hleft : attempt + left + 1 = o.attempts) :
    TriesOf o.shouldRetry (left + 1) (fun i => fn (attempt + 1 + i))
      (fun i => o.jitterDelay (attempt + 1 + i) (random (attempt + 1 + i)))
      (o.loop fn random (left + 1) attempt lastError) := by
  induction left generalizing attempt lastError with
  | zero =>
      have hlast : o.attempts ≤ attempt + 1 := by omega
      refine .round (fun a (ha : fn (attempt + 1) = .ok a) => ?_)
        (fun err (herr : fn (attempt + 1) = .error err) _ => ?_)
        fun _ _ h => absurd rfl h
      · simp [loop, ha]
      · simp [loop, herr, hlast]
  | succ left ih =>
      have hlast : ¬ o.attempts ≤ attempt + 1 := by omega
      refine .round (fun a (ha : fn (attempt + 1) = .ok a) => ?_)
        (fun err (herr : fn (attempt + 1) = .error err) h => ?_)
        fun err (herr : fn (attempt + 1) = .error err) _ h => ?_
      · simp [loop, ha]
      · rcases h with h | h
        · cases h
        · simp [loop, herr, h]
      · have hrest := ih (attempt + 1) (some err) (by omega)
        simp only [Nat.add_right_comm (attempt + 1) 1] at hrest
        exact ⟨_, hrest, by simp [loop, herr, hlast, h]⟩

/-- `executeWithRetry` numbers its calls from zero. -/
theorem ExponentialBackoff.loop_tries (b : ExponentialBackoff) (fn : ℕ → Except ε α)
    (random : ℕ → Draw) (maxAttempts left attempt : ℕ) (lastError : Option ε)
    (hleft : attempt + left + 1 = maxAttempts) :
    TriesOf (fun _ => true) (left + 1) (fun i => fn (attempt + i))
      (fun i => b.calculateDelay (attempt + i) (random (attempt + i)))
      (b.loop fn random maxAttempts (left + 1) attempt lastError) := by
  induction left generalizing attempt lastError with
  | zero =>
      have hlast : attempt = maxAttempts - 1 := by omega
      refine .round (fun a (ha : fn attempt = .ok a) => ?_)
        (fun err (herr : fn attempt = .error err) _ => ?_)
        fun _ _ h => absurd rfl h
      · simp [loop, ha]
      · simp [loop, herr, ← hlast]
  | succ left ih =>
      have hlast : attempt ≠ maxAttempts - 1 := by omega
      refine .round (fun a (ha : fn attempt = .ok a) => ?_)
        (fun err (herr : fn attempt = .error err) h => ?_)
        fun err (herr : fn attempt = .error err) _ _ => ?_
      · simp [loop, ha]
      · rcases h with h | h
        · cases h
        · cases h
      · have hrest := ih (attempt + 1) (some err) (by omega)
        simp only [Nat.add_right_comm attempt 1] at hrest
        exact ⟨_, hrest, by simp [loop, herr, hlast]⟩

/-! ## The delays -/

theorem draw_mul_bounds (draw : Draw) {x : ℚ} (hx : 0 ≤ x) :
    0 ≤ (⌊draw * x⌋ : ℚ) ∧ (⌊draw * x⌋ : ℚ) ≤ x := by
  have hlower : 0 ≤ (draw : ℚ) * x := mul_nonneg draw.2.1 hx
  have hupper : (draw : ℚ) * x ≤ x := mul_le_of_le_one_left hx draw.2.2.le
  have hfloor : 0 ≤ ⌊(draw : ℚ) * x⌋ := Int.floor_nonneg.mpr hlower
  exact ⟨by exact_mod_cast hfloor, (Int.floor_le _).trans hupper⟩

/-- `withRetry` waits at least half of what it would wait without jitter. -/
theorem RetryOptions.actualDelay_bounds (o : RetryOptions) (hbase : 0 ≤ o.baseDelayMs)
    (hmax : 0 ≤ o.maxDelayMs) (attempt : ℕ) (draw : Draw) :
    min (o.baseDelayMs * 2 ^ (attempt - 1)) o.maxDelayMs / 2 ≤ o.actualDelay attempt draw
      ∧ o.actualDelay attempt draw ≤ o.maxDelayMs := by
  have hcapped : 0 ≤ min (o.baseDelayMs * 2 ^ (attempt - 1)) o.maxDelayMs :=
    le_min (by positivity) hmax
  have hcap : min (o.baseDelayMs * 2 ^ (attempt - 1)) o.maxDelayMs ≤ o.maxDelayMs :=
    min_le_right _ _
  have hdraw := draw.2
  unfold RetryOptions.actualDelay
  simp only
  split
  · constructor
    · nlinarith
    · nlinarith
  · constructor
    · linarith
    · exact hcap

theorem BackoffOptions.jitterDelay_bounds (o : BackoffOptions ε)
    (hinitial : 0 ≤ orNumber o.initialDelayMs 100) (hfactor : 0 ≤ orNumber o.backoffFactor 2)
    (hmax : 0 ≤ orNumber o.maxDelayMs 5000) (attempt : ℕ) (draw : Draw) :
    0 ≤ o.jitterDelay attempt draw ∧ o.jitterDelay attempt draw ≤ orNumber o.maxDelayMs 5000 := by
  have hbase : 0 ≤ min (orNumber o.maxDelayMs 5000)
      (orNumber o.initialDelayMs 100 * orNumber o.backoffFactor 2 ^ (attempt - 1)) :=
    le_min hmax (by positivity)
  obtain ⟨hlower, hupper⟩ := draw_mul_bounds draw hbase
  exact ⟨hlower, hupper.trans (min_le_left _ _)⟩

theorem ExponentialBackoff.delay_bounds (b : ExponentialBackoff) (hbase : 0 ≤ b.baseDelayMs)
    (hfactor : 0 ≤ b.factor) (hmax : 0 ≤ b.maxDelayMs) (attempt : ℕ) (draw : Draw) :
    0 ≤ b.calculateDelay attempt draw ∧ b.calculateDelay attempt draw ≤ b.maxDelayMs := by
  have hexponential : 0 ≤ min b.maxDelayMs (b.baseDelayMs * b.factor ^ attempt) :=
    le_min hmax (by positivity)
  unfold ExponentialBackoff.calculateDelay
  simp only
  split
  · obtain ⟨hlower, hupper⟩ := draw_mul_bounds draw hexponential
    exact ⟨hlower, hupper.trans (min_le_left _ _)⟩
  · have hfloor := Int.floor_nonneg.mpr hexponential
    exact ⟨by exact_mod_cast hfloor, (Int.floor_le _).trans (min_le_left _ _)⟩

/-! ## The loop of the service -/

/-- The answers to a script that only makes calls, one after the other. -/
def fed (outcome : ℕ → HttpOutcome) : (o : SvcOp) → ℕ → Option (SvcSig.Res o × ℕ)
  | .http _, n => some (outcome n, n + 1)
  | _, _ => none

theorem run_http {β : Type} (outcome : ℕ → HttpOutcome) (request : HttpRequest)
    (f : HttpOutcome → Svc β) (n : ℕ) :
    ((Svc.http request).bind f).run (fed outcome) n
      = (f (outcome n)).run (fed outcome) (n + 1) := rfl

/-- The attempts of a call of `HcmService`, which does not count them, are those of such a
loop. -/
theorem service_tries (request : HttpRequest) (outcome : ℕ → HttpOutcome) (left n : ℕ) :
    ∃ t : Tries HttpError Json Unit,
      TriesOf isRetryable (left + 1) (fun i => outcome (n + i)) (fun _ => ()) t
        ∧ ∃ r, (LeaveLedger.withRetry request left).run (fed outcome) n = some (.ok r, n + t.calls)
          ∧ t.result = r.mapError some := by
  induction left generalizing n with
  | zero =>
      refine ⟨.last (outcome n), ?_, outcome n, rfl, rfl⟩
      exact TriesOf.last Nat.one_pos fun h => absurd h (Nat.lt_irrefl 1)
  | succ left ih =>
      rw [LeaveLedger.withRetry, Script.bind_eq, run_http]
      cases hfirst : outcome n with
      | ok data =>
          refine ⟨.last (.ok data), ?_, .ok data, rfl, rfl⟩
          exact .round (fun a ha => by simp_all) (fun err herr => by simp_all)
            fun err herr => by simp_all
      | error err =>
          cases hretry : isRetryable err with
          | true =>
              obtain ⟨t, htries, r, hrun, hresult⟩ := ih (n + 1)
              simp only [Nat.add_right_comm n 1] at htries
              refine ⟨t.after (), .after hfirst hretry htries, r, ?_, hresult⟩
              simp only [hretry, if_true, hrun, Tries.after, Nat.add_assoc, Nat.add_comm 1]
          | false =>
              refine ⟨.last (.error err), ?_, .error err, by simp [hretry, Tries.last], rfl⟩
              exact .round (fun a ha => by simp_all) (fun err' herr _ => by simp_all)
                fun err' herr _ h => by simp_all

/-! ## Agreement -/

theorem withRetry_tries (o : RetryOptions) (outcome : ℕ → Except HttpError α) (random : ℕ → Draw)
    {left : ℕ} (hleft : o.maxAttempts = left + 1) :
    TriesOf isRetryable (left + 1) outcome
      (fun i => o.actualDelay (i + 1) (random (i + 1)))
      (withRetry o (fun attempt => outcome (attempt - 1)) random) := by
  have htries := o.loop_tries (fun attempt => outcome (attempt - 1)) random left 1 none (by omega)
  simp only [Nat.add_comm 1, Nat.add_sub_cancel] at htries
  rw [withRetry, hleft]
  exact htries

theorem retryWithBackoff_tries (o : BackoffOptions ε) (outcome : ℕ → Except ε α)
    (random : ℕ → Draw) {left : ℕ} (hleft : o.attempts = left + 1) :
    TriesOf o.shouldRetry (left + 1) outcome
      (fun i => o.jitterDelay (i + 1) (random (i + 1)))
      (retryWithBackoff o (fun attempt => outcome (attempt - 1)) random) := by
  have htries := o.loop_tries (fun attempt => outcome (attempt - 1)) random left 0 none (by omega)
  simp only [Nat.zero_add, Nat.add_comm 1, Nat.add_sub_cancel] at htries
  rw [retryWithBackoff, hleft]
  exact htries

theorem executeWithRetry_tries (b : ExponentialBackoff) (outcome : ℕ → Except ε α)
    (random : ℕ → Draw) (left : ℕ) :
    TriesOf (fun _ => true) (left + 1) outcome (fun i => b.calculateDelay i (random i))
      (executeWithRetry b outcome random (left + 1)) := by
  have htries := b.loop_tries outcome random (left + 1) left 0 none (by omega)
  simp only [Nat.zero_add] at htries
  exact htries

/-- **The retry loops agree.** On the same outcomes, and with the same idea of what is worth
another try, `withRetry`, the attempts of `HcmService`, `retryWithBackoff` and
`executeWithRetry` make the same number of calls and come to the same, whatever they draw and
however they are told to wait. -/
theorem retry_loops_agree (request : HttpRequest) (o : RetryOptions)
    (b : BackoffOptions HttpError) (e : ExponentialBackoff) (left : ℕ)
    (outcome : ℕ → HttpOutcome) (random random' : ℕ → Draw) :
    (let t := withRetry { o with maxAttempts := left + 1 } (fun attempt => outcome (attempt - 1))
        random
     let t' := retryWithBackoff
        { b with maxAttempts := some (left + 1), shouldRetry := isRetryable }
        (fun attempt => outcome (attempt - 1)) random'
     t.calls = t'.calls ∧ t.result = t'.result
        ∧ ∃ r, (LeaveLedger.withRetry request left).run (fed outcome) 0 = some (.ok r, t.calls)
          ∧ t.result = r.mapError some)
    ∧ (let t := executeWithRetry e outcome random (left + 1)
     let t' := retryWithBackoff
        { b with maxAttempts := some (left + 1), shouldRetry := fun _ => true }
        (fun attempt => outcome (attempt - 1)) random'
     t.calls = t'.calls ∧ t.result = t'.result) := by
  constructor
  · intro t t'
    have hretry : TriesOf isRetryable (left + 1) outcome _ t :=
      withRetry_tries { o with maxAttempts := left + 1 } outcome random rfl
    have hbackoff : TriesOf isRetryable (left + 1) outcome _ t' :=
      retryWithBackoff_tries
        { b with maxAttempts := some (left + 1), shouldRetry := isRetryable } outcome random' rfl
    obtain ⟨u, hservice, r, hrun, hresult⟩ := service_tries request outcome left 0
    simp only [Nat.zero_add] at hservice hrun
    obtain ⟨hcalls, hresults⟩ := hretry.unique hbackoff
    obtain ⟨hcalls', hresults'⟩ := hretry.unique hservice
    exact ⟨hcalls, hresults, r, hcalls' ▸ hrun, hresults'.trans hresult⟩
  · intro t t'
    have hexecute : TriesOf (fun _ => true) (left + 1) outcome _ t :=
      executeWithRetry_tries e outcome random left
    have hbackoff : TriesOf (fun _ => true) (left + 1) outcome _ t' :=
      retryWithBackoff_tries
        { b with maxAttempts := some (left + 1), shouldRetry := fun _ => true } outcome random' rfl
    exact hexecute.unique hbackoff

/-! ## Waiting -/

/-- **The loops wait for a bounded time.** Over `left + 1` attempts none of them waits longer
than `left` times its `maxDelayMs` in all, and with jitter `withRetry` still waits after each
call but the last at least half of the capped delay of that call. -/
theorem retry_waits_bounded (o : RetryOptions) (b : BackoffOptions HttpError)
    (e : ExponentialBackoff) (left : ℕ) (outcome : ℕ → Except HttpError α) (random : ℕ → Draw)
    (hretry : 0 ≤ o.baseDelayMs ∧ 0 ≤ o.maxDelayMs)
    (hbackoff : 0 ≤ orNumber b.initialDelayMs 100 ∧ 0 ≤ orNumber b.backoffFactor 2
      ∧ 0 ≤ orNumber b.maxDelayMs 5000)
    (hexecute : 0 ≤ e.baseDelayMs ∧ 0 ≤ e.factor ∧ 0 ≤ e.maxDelayMs) :
    (let t := withRetry { o with maxAttempts := left + 1 } (fun attempt => outcome (attempt - 1))
        random
     t.delays.sum ≤ left • o.maxDelayMs
        ∧ t.delays.length + 1 = t.calls
        ∧ ∀ i d, t.delays[i]? = some d → min (o.baseDelayMs * 2 ^ i) o.maxDelayMs / 2 ≤ d)
    ∧ (retryWithBackoff { b with maxAttempts := some (left + 1) }
        (fun attempt => outcome (attempt - 1)) random).delays.sum
        ≤ left • orNumber b.maxDelayMs 5000
    ∧ (executeWithRetry e outcome random (left + 1)).delays.sum ≤ left • e.maxDelayMs := by
  refine ⟨?_, ?_, ?_⟩
  · have htries := withRetry_tries { o with maxAttempts := left + 1 } outcome random rfl
    have hdelay := fun i : ℕ =>
      RetryOptions.actualDelay_bounds { o with maxAttempts := left + 1 } hretry.1 hretry.2 (i + 1)
        (random (i + 1))
    refine ⟨htries.sum_delays_le hretry.2 fun i => (hdelay i).2, htries.length_delays,
      fun i d hd => ?_⟩
    rw [htries.delay_at hd]
    exact (hdelay i).1
  · have htries :=
      retryWithBackoff_tries { b with maxAttempts := some (left + 1) } outcome random rfl
    refine htries.sum_delays_le hbackoff.2.2 fun i => ?_
    exact (BackoffOptions.jitterDelay_bounds { b with maxAttempts := some (left + 1) } hbackoff.1
      hbackoff.2.1 hbackoff.2.2 (i + 1) (random (i + 1))).2
  · have htries := executeWithRetry_tries e outcome random left
    refine htries.sum_delays_le hexecute.2.2 fun i => ?_
    exact (ExponentialBackoff.delay_bounds e hexecute.1 hexecute.2.1 hexecute.2.2 i (random i)).2

def lowestDraw : Draw := ⟨0, by norm_num⟩

/-- The defaults, with nothing ever answered and the lowest draws. -/
theorem retry_waits_bounded_default :
    let outcome : ℕ → HttpOutcome := fun _ => .error .noResponse
    let random : ℕ → Draw := fun _ => lowestDraw
    (let t := withRetry { maxAttempts := 2 + 1 } (fun attempt => outcome (attempt - 1)) random
     t.delays = [500, 1000] ∧ t.delays.sum ≤ 2 • (10000 : ℚ) ∧ t.delays.length + 1 = t.calls
        ∧ ∀ i d, t.delays[i]? = some d → min ((1000 : ℚ) * 2 ^ i) 10000 / 2 ≤ d)
    ∧ (retryWithBackoff { maxAttempts := some (2 + 1) } (fun attempt => outcome (attempt - 1))
        random).delays.sum ≤ 2 • orNumber none 5000
    ∧ (executeWithRetry (.new none none none none) outcome random (2 + 1)).delays.sum
        ≤ 2 • orNumber none 5000 := by
  intro outcome random
  obtain ⟨hretry, hbackoff, hexecute⟩ :=
    retry_waits_bounded {} {} (.new none none none none) 2 outcome random (by norm_num)
      (by norm_num [orNumber]) (by norm_num [ExponentialBackoff.new, orNumber])
  exact ⟨⟨by decide +kernel, hretry⟩, hbackoff, hexecute⟩

end Retry

end LeaveLedger
