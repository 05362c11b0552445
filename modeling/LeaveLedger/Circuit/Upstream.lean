import LeaveLedger.Circuit.Machine
import LeaveLedger.Hcm.HcmService
import Mathlib.Algebra.Order.Ring.Cast

/-!
# Circuit — What opens the circuit to HCM

The calls of `HcmService` take turns: `withRetry` makes the attempts of one
call, every attempt goes through `circuitBreaker.call`, and the outcomes come
back in any order. `withRetry` asks `isRetryable` whether an error is worth
another attempt; the breaker counts every error alike, so it also counts the
errors of requests that HCM understood and refused.

`opens_on_unavailability_iff` says for which outcomes the circuit opens on
unavailability alone.
-/

namespace LeaveLedger

open Js Lib

/-- What the facade reads from the environment. -/
structure HcmConfig where
  retryMaxAttempts : ℕ := 3
  circuitThreshold : ℤ := 5
  circuitResetMs : ℤ := 30000

/-- The breaker that the constructor of `HcmService` makes. -/
def HcmConfig.breaker (cfg : HcmConfig) : BreakerConfig :=
  .new true {
    name := some "HCM"
    failureThreshold := some cfg.circuitThreshold
    resetTimeoutMs := some cfg.circuitResetMs }

/-- A call of the facade: what its retry loop still does, and whether its attempt
is out. -/
structure HcmCall where
  script : Svc HttpOutcome
  inFlight : Bool

structure Facade where
  breaker : CircuitBreaker
  now : ℚ
  calls : List HcmCall

def Facade.initial (now : ℚ) : Facade := ⟨.initial, now, []⟩

inductive FacadeLabel where
  | tick (t : ℚ)
  /-- a method of the facade is called -/
  | request (r : HttpRequest)
  /-- the next attempt of call `i`: its first, or one after a pause -/
  | attempt (i : ℕ)
  /-- the attempt of call `i` completes -/
  | outcome (i : ℕ) (o : HttpOutcome)

/-- What an attempt that went out can come to: a 2xx answer, a 4xx or 5xx status,
or no response, which is a timeout or a network error. -/
def IsUpstream : HttpOutcome → Bool
  | .ok _ => true
  | .error .noResponse => true
  | .error (.response status) => 400 ≤ status && status < 600
  | .error .circuitOpen => false

def isFailure : HttpOutcome → Bool
  | .ok _ => false
  | .error _ => true

def breakerOutcome (o : HttpOutcome) : CircuitBreaker.Outcome :=
  if isFailure o then .failure else .success

namespace Facade

def step (cfg : HcmConfig) (s : Facade) : FacadeLabel → Option Facade
  | .tick t => if s.now ≤ t then some { s with now := t } else none
  | .request r =>
      match cfg.retryMaxAttempts with
      | 0 => some s  -- no attempt is made
      | left + 1 => some { s with calls := s.calls ++ [⟨withRetry r left, false⟩] }
  | .attempt i =>
      match s.calls[i]? with
      | some ⟨.await (.http r) k, false⟩ =>
          match s.breaker.call cfg.breaker s.now false with
          | (.invoke, b) =>
              some { s with breaker := b, calls := s.calls.set i ⟨.await (.http r) k, true⟩ }
          | (_, b) =>
              some { s with
                breaker := b, calls := s.calls.set i ⟨k (.error .circuitOpen), false⟩ }
      | _ => none
  | .outcome i o =>
      match s.calls[i]? with
      | some ⟨.await (.http _) k, true⟩ =>
          if IsUpstream o then
            some { s with
              breaker := s.breaker.settle cfg.breaker s.now (breakerOutcome o)
              calls := s.calls.set i ⟨k o, false⟩ }
          else none
      | _ => none

end Facade

/-- The outcomes of the attempts that completed, in order. -/
def attempts (ls : List FacadeLabel) : List HttpOutcome :=
  ls.filterMap fun
    | .outcome _ o => some o
    | _ => none

/-- A 5xx answer, a 408 or 429, a timeout or a network error. -/
def Unavailable : HttpOutcome → Prop
  | .error (.response status) => 500 ≤ status ∨ status = 408 ∨ status = 429
  | .error .noResponse => True
  | _ => False

/-- Another 4xx answer: the request was understood and refused. -/
def ClientError : HttpOutcome → Prop
  | .error (.response status) => 400 ≤ status ∧ status < 500 ∧ status ≠ 408 ∧ status ≠ 429
  | _ => False

/-- `isRetryable` draws the same line. -/
theorem clientError_iff {err : HttpError} (h : IsUpstream (.error err)) :
    ClientError (.error err) ↔ isRetryable err = false := by
  cases err with
  | circuitOpen => cases h
  | noResponse => simp [ClientError, isRetryable]
  | response status =>
      simp only [ClientError, isRetryable, Bool.or_eq_true, decide_eq_true_eq,
        Bool.and_eq_true]
      split_ifs <;> simp <;> omega

theorem unavailable_of_failure {o : HttpOutcome} (hup : IsUpstream o) (hf : isFailure o)
    (hclient : ¬ ClientError o) : Unavailable o := by
  cases o with
  | ok data => cases hf
  | error err =>
      cases err with
      | circuitOpen => cases hup
      | noResponse => trivial
      | response status =>
          simp only [IsUpstream, Bool.and_eq_true, decide_eq_true_eq] at hup
          simp only [ClientError] at hclient
          simp only [Unavailable]
          omega

/-- In the run `ls` from `s₀` the circuit opens only when the last
`failureThreshold` completed attempts all found HCM unavailable, and a refused
request never adds to the failure count. -/
structure OpensOnUnavailability (cfg : HcmConfig) (s₀ : Facade) (ls : List FacadeLabel) :
    Prop where
  opens : ∀ pre l post s s', ls = pre ++ l :: post → run (Facade.step cfg) s₀ pre = some s →
    Facade.step cfg s l = some s' → s.breaker.state = .closed → s'.breaker.state = .opened →
    cfg.circuitThreshold.toNat ≤ (attempts (pre ++ [l])).length
    ∧ ∀ o ∈ (attempts (pre ++ [l])).drop
        ((attempts (pre ++ [l])).length - cfg.circuitThreshold.toNat), Unavailable o
  ignores : ∀ pre i o post s s', ls = pre ++ .outcome i o :: post →
    run (Facade.step cfg) s₀ pre = some s → Facade.step cfg s (.outcome i o) = some s' →
    ClientError o → s'.breaker.failureCount ≤ s.breaker.failureCount

theorem attempts_append (ls ls' : List FacadeLabel) :
    attempts (ls ++ ls') = attempts ls ++ attempts ls' :=
  List.filterMap_append

variable {cfg : HcmConfig}

/-- What a step does to the breaker: only outcomes settle, only attempts call. -/
theorem facade_step_cases {s s' : Facade} {l : FacadeLabel} (h : Facade.step cfg s l = some s') :
    (attempts [l] = [] ∧ s'.breaker = s.breaker)
    ∨ (attempts [l] = [] ∧ s'.breaker = (s.breaker.call cfg.breaker s.now false).2)
    ∨ ∃ i o, l = .outcome i o ∧ IsUpstream o
      ∧ s'.breaker = s.breaker.settle cfg.breaker s.now (breakerOutcome o) := by
  cases l with
  | tick t =>
      simp only [Facade.step, Option.ite_none_right_eq_some] at h
      obtain ⟨-, heq⟩ := h
      cases heq
      exact Or.inl ⟨rfl, rfl⟩
  | request r =>
      simp only [Facade.step] at h
      split at h <;> cases h <;> exact Or.inl ⟨rfl, rfl⟩
  | attempt i =>
      simp only [Facade.step] at h
      split at h
      · split at h
        · next b hcall =>
          cases h
          exact Or.inr (Or.inl ⟨rfl, by rw [hcall]⟩)
        · next b hcall =>
          cases h
          exact Or.inr (Or.inl ⟨rfl, by rw [hcall]⟩)
      · cases h
  | outcome i o =>
      simp only [Facade.step] at h
      split at h
      · simp only [Option.ite_none_right_eq_some] at h
        obtain ⟨hup, heq⟩ := h
        cases heq
        exact Or.inr (Or.inr ⟨i, o, rfl, hup, rfl⟩)
      · cases h

theorem settle_failureCount (now : ℚ) (b : CircuitBreaker) (o : HttpOutcome) :
    (b.settle cfg.breaker now (breakerOutcome o)).failureCount =
      if isFailure o then b.failureCount + 1 else 0 := by
  unfold breakerOutcome
  cases isFailure o <;> simp [CircuitBreaker.settle]

/-- The breaker counts the failed attempts at the end of the run, whatever they
failed with. -/
theorem failureCount_eq_streak {ls : List FacadeLabel} {t₀ : ℚ} {s : Facade}
    (hrun : run (Facade.step cfg) (.initial t₀) ls = some s) :
    s.breaker.failureCount = streak isFailure (attempts ls) := by
  induction ls using List.reverseRecOn generalizing s with
  | nil => cases hrun; rfl
  | append_singleton ls l ih =>
      obtain ⟨s', hrun', hstep⟩ := run_snoc_some hrun
      rw [attempts_append]
      rcases facade_step_cases hstep with ⟨hnone, hb⟩ | ⟨hnone, hb⟩ | ⟨i, o, rfl, -, hb⟩
      · rw [hnone, hb, ih hrun', List.append_nil]
      · have hcall : (s'.breaker.call cfg.breaker s'.now false).2.failureCount
            = s'.breaker.failureCount := by
          rcases CircuitBreaker.call_cases cfg.breaker s'.now s'.breaker false with
            ⟨-, heq⟩ | ⟨-, -, heq⟩ | ⟨-, -, -, heq⟩ <;> rw [heq]
        rw [hnone, hb, hcall, ih hrun', List.append_nil]
      · rw [hb, settle_failureCount, ih hrun']
        exact (streak_snoc isFailure (attempts ls) o).symm

/-- Every attempt that completed came back from upstream. -/
theorem attempts_upstream {ls : List FacadeLabel} {s₀ s : Facade}
    (hrun : run (Facade.step cfg) s₀ ls = some s) : ∀ o ∈ attempts ls, IsUpstream o := by
  induction ls using List.reverseRecOn generalizing s with
  | nil => intro o ho; cases ho
  | append_singleton ls l ih =>
      obtain ⟨s', hrun', hstep⟩ := run_snoc_some hrun
      intro o ho
      rw [attempts_append, List.mem_append] at ho
      rcases ho with ho | ho
      · exact ih hrun' o ho
      · rcases facade_step_cases hstep with ⟨hnone, -⟩ | ⟨hnone, -⟩ | ⟨i, o', rfl, hup, -⟩
        · rw [hnone] at ho; cases ho
        · rw [hnone] at ho; cases ho
        · rw [List.mem_singleton.mp ho]; exact hup

/-- The circuit opens from closed on the failure that makes the count reach the
threshold. -/
theorem count_of_opening {s s' : Facade} {l : FacadeLabel} (h : Facade.step cfg s l = some s')
    (hclosed : s.breaker.state = .closed) (hopened : s'.breaker.state = .opened) :
    cfg.circuitThreshold.toNat ≤ s'.breaker.failureCount := by
  rcases facade_step_cases h with ⟨-, hb⟩ | ⟨-, hb⟩ | ⟨i, o, rfl, -, hb⟩
  · rw [hb, hclosed] at hopened
    cases hopened
  · rw [hb] at hopened
    rcases CircuitBreaker.call_cases cfg.breaker s.now s.breaker false with
      ⟨-, heq⟩ | ⟨-, -, heq⟩ | ⟨-, hopen, -, -⟩
    · rw [heq, hclosed] at hopened; cases hopened
    · rw [heq, hclosed] at hopened; cases hopened
    · rw [hclosed] at hopen; cases hopen
  · rw [hb] at hopened ⊢
    unfold breakerOutcome at hopened ⊢
    by_cases hf : isFailure o = true
    · rw [if_pos hf] at hopened ⊢
      simp only [CircuitBreaker.settle, CircuitBreaker.onFailure_state, hclosed] at hopened
      simp only [CircuitBreaker.settle, CircuitBreaker.onFailure_failureCount]
      split at hopened
      · next hle =>
        rcases hle with hhalf | hle
        · cases hhalf
        · have hle' : (cfg.circuitThreshold : ℚ) ≤ ((s.breaker.failureCount + 1 : ℕ) : ℤ) :=
            hle
          have := Int.cast_le.mp hle'
          omega
      · cases hopened
    · rw [if_neg hf] at hopened
      simp [CircuitBreaker.settle, CircuitBreaker.onSuccess_state, hclosed] at hopened

/-- **What opens the circuit**: on every run, the circuit opens on unavailability
alone exactly when no attempt of the run was refused with another 4xx status. -/
theorem opens_on_unavailability_iff (cfg : HcmConfig) (t₀ : ℚ) (ls : List FacadeLabel)
    (s : Facade) (hrun : run (Facade.step cfg) (.initial t₀) ls = some s) :
    OpensOnUnavailability cfg (.initial t₀) ls ↔ ∀ o ∈ attempts ls, ¬ ClientError o := by
  constructor
  · rintro ⟨-, hignores⟩ o ho hclient
    obtain ⟨l, hl, hlo⟩ := List.mem_filterMap.mp ho
    obtain ⟨pre, post, rfl⟩ := List.append_of_mem hl
    obtain ⟨s₁, hpre, hpost⟩ := run_append_some hrun
    obtain ⟨s₂, hstep, -⟩ := run_cons_some hpost
    cases l with
    | outcome i o' =>
        cases hlo
        have hle := hignores pre i o post s₁ s₂ rfl hpre hstep hclient
        have hfail : isFailure o = true := by
          cases o with
          | ok data => cases hclient
          | error err => rfl
        rcases facade_step_cases hstep with ⟨hnone, -⟩ | ⟨hnone, -⟩ | ⟨_, _, heq, -, hb⟩
        · cases hnone
        · cases hnone
        · cases heq
          rw [hb, settle_failureCount, if_pos hfail] at hle
          omega
    | _ => cases hlo
  · intro hclean
    constructor
    · rintro pre l post s₁ s₂ rfl hpre hstep hclosed hopened
      have hreach : run (Facade.step cfg) (.initial t₀) (pre ++ [l]) = some s₂ := by
        rw [run_append, hpre, Option.bind_some, run_cons, hstep]
        rfl
      have hstreak : cfg.circuitThreshold.toNat ≤ streak isFailure (attempts (pre ++ [l])) := by
        rw [← failureCount_eq_streak hreach]
        exact count_of_opening hstep hclosed hopened
      refine ⟨le_trans hstreak (streak_le_length _ _), fun o ho => ?_⟩
      have hmem : o ∈ attempts (pre ++ [l]) := List.mem_of_mem_drop ho
      refine unavailable_of_failure (attempts_upstream hreach o hmem)
        (of_mem_last hstreak o ho) (hclean o ?_)
      have hsplit : pre ++ l :: post = (pre ++ [l]) ++ post := by simp
      rw [hsplit, attempts_append]
      exact List.mem_append_left _ hmem
    · rintro pre i o post s₁ s₂ rfl - - hclient
      refine absurd hclient (hclean o ?_)
      exact List.mem_filterMap.mpr ⟨.outcome i o, by simp, rfl⟩

/-- The approvals of five requests, each refused with the given outcome. -/
def fiveApprovals (o : HttpOutcome) : List FacadeLabel :=
  (List.range 5).flatMap fun i =>
    [.request (.putBalance ⟨"EMP001", "LOC001", .vacation, 2, .approve, i⟩), .attempt i,
      .outcome i o]

/-- Five requests that HCM understood and refused for want of balance open the
circuit. -/
theorem circuit_opened_by_refusals :
    ∃ s, run (Facade.step {}) (.initial 0) (fiveApprovals (.error (.response 422))) = some s
      ∧ s.breaker.state = .opened
      ∧ ¬ OpensOnUnavailability {} (.initial 0) (fiveApprovals (.error (.response 422))) := by
  have h : ((run (Facade.step {}) (.initial 0)
      ((fiveApprovals (.error (.response 422))).take 14)).bind fun s =>
        (Facade.step {} s (.outcome 4 (.error (.response 422)))).map fun s' =>
          (s.breaker.state, s'.breaker.state)) = some (.closed, .opened) := by
    decide +kernel
  simp only [Option.bind_eq_some_iff, Option.map_eq_some_iff, Prod.mk.injEq] at h
  obtain ⟨s, hs, s', hstep, hclosed, hopened⟩ := h
  have hlabels : fiveApprovals (.error (.response 422))
      = (fiveApprovals (.error (.response 422))).take 14
        ++ .outcome 4 (.error (.response 422)) :: [] := rfl
  have hrun : run (Facade.step {}) (.initial 0) (fiveApprovals (.error (.response 422)))
      = some s' := by
    rw [hlabels, run_append, hs, Option.bind_some, run_cons, hstep]
    rfl
  refine ⟨s', hrun, hopened, fun hall => ?_⟩
  obtain ⟨-, hlast⟩ := hall.opens _ _ _ s s' hlabels hs hstep hclosed hopened
  have hrefused : Unavailable (.error (.response 422)) :=
    hlast _ (List.mem_of_getElem? (i := 0) rfl)
  simp [Unavailable] at hrefused

/-- Five answers of an upstream that is down open it too, as they should. -/
theorem opens_on_unavailability_outage :
    ∃ s, run (Facade.step {}) (.initial 0) (fiveApprovals (.error (.response 503))) = some s
      ∧ OpensOnUnavailability {} (.initial 0) (fiveApprovals (.error (.response 503))) := by
  have h : (run (Facade.step {}) (.initial 0) (fiveApprovals (.error (.response 503)))).map
      (fun s => s.breaker.state) = some .opened := by
    decide +kernel
  obtain ⟨s, hs, -⟩ := Option.map_eq_some_iff.mp h
  refine ⟨s, hs, (opens_on_unavailability_iff {} 0 _ s hs).mpr fun o ho => ?_⟩
  have hsame : o = .error (.response 503) := by
    have hattempts : attempts (fiveApprovals (.error (.response 503)))
        = List.replicate 5 (.error (.response 503)) := rfl
    rw [hattempts] at ho
    exact List.eq_of_mem_replicate ho
  rw [hsame]
  simp [ClientError]

end LeaveLedger
