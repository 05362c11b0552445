import LeaveLedger.Circuit.Upstream

/-!
# Circuit — One call through retries and breaker

A method of `HcmService` is one script: `_callWithResilience` around
`withRetry`, whose attempts go through the breaker that all methods share.
The machine below runs one such call while everybody else does what they
like with the breaker and the clock moves on. The breaker's own timer can
end an attempt that is out.

`resilient_call` follows the call from its first attempt to its answer.
-/

namespace LeaveLedger

open Js Lib

/-- `_callWithResilience`, with the attempts that are left after the first. -/
def callWithAttempts (request : HttpRequest) (left : ℕ) : Svc Json := do
  let outcome ← withRetry request left
  match outcome with
  | .ok data => pure data
  | .error _ => pure .null

theorem callWithResilience_eq (request : HttpRequest) :
    callWithResilience request = callWithAttempts request 2 := rfl

/-- `_callWithResilience` where `withRetry` makes `retryMaxAttempts` attempts. -/
def HcmConfig.callWithResilience (cfg : HcmConfig) (request : HttpRequest) : Svc Json :=
  match cfg.retryMaxAttempts with
  -- without an attempt `withRetry` throws `undefined`, and the `catch` reads its code
  | 0 => throw (.driver "" "Cannot read properties of undefined (reading 'code')")
  | left + 1 => callWithAttempts request left

/-- The call settles the attempt `id` of somebody. -/
def BreakerLabel.settles (id : ℕ) : BreakerLabel → Bool
  | .settle id' _ => id' = id
  | _ => false

/-- One call of a method of `HcmService`, and the breaker it shares. -/
structure ResilientCall where
  system : BreakerSystem
  script : Svc Json
  /-- the id of its attempt that is out -/
  waiting : Option ℕ
  /-- what its attempts came to -/
  outcomes : List HttpOutcome
  /-- how often it has called `circuitBreaker.call` -/
  breakerCalls : ℕ
  /-- the network requests these calls made -/
  requests : List HttpRequest

inductive ResilientLabel where
  /-- somebody else calls the breaker or settles, or the clock moves -/
  | other (l : BreakerLabel)
  /-- the next attempt: the first one, or one after its pause -/
  | attempt
  /-- the upstream settles the attempt that is out -/
  | settle (o : HttpOutcome)
  /-- the timer of the breaker does -/
  | timeOut

namespace ResilientCall

def start (system : BreakerSystem) (script : Svc Json) : ResilientCall :=
  ⟨system, script, none, [], 0, []⟩

/-- The attempt that is out comes to `o`. -/
def resume (s : ResilientCall) (system : BreakerSystem) (script : Svc Json) (o : HttpOutcome) :
    ResilientCall :=
  { s with system := system, script := script, waiting := none, outcomes := s.outcomes ++ [o] }

def step (cfg : HcmConfig) (s : ResilientCall) : ResilientLabel → Option ResilientCall
  | .other l =>
      if s.waiting.any (l.settles ·) then none
      else (s.system.step cfg.breaker l).map fun system => { s with system := system }
  | .attempt =>
      match s.script, s.waiting with
      | .await (.http r) k, none =>
          (s.system.step cfg.breaker (.call false)).bind fun system =>
            match (s.system.breaker.call cfg.breaker s.system.now false).1 with
            | .invoke => some { s with
                system := system
                waiting := some s.system.invoked
                breakerCalls := s.breakerCalls + 1
                requests := s.requests ++ [r] }
            | .failFast _ => some
                { s.resume system (k (.error .circuitOpen)) (.error .circuitOpen) with
                  breakerCalls := s.breakerCalls + 1 }
            -- the breaker has a default function and no fallback
            | .noFunction | .fallback _ => none
      | _, _ => none
  | .settle o =>
      match s.script, s.waiting with
      | .await (.http _) k, some id =>
          match o with
          | .error .circuitOpen => none
          | o => (s.system.step cfg.breaker (.settle id (breakerOutcome o))).map fun system =>
              s.resume system (k o) o
      | _, _ => none
  | .timeOut =>
      match s.script, s.waiting with
      | .await (.http _) k, some id =>
          (s.system.step cfg.breaker (.settle id .timedOut)).map fun system =>
            s.resume system (k (.error .noResponse)) (.error .noResponse)
      | _, _ => none

end ResilientCall

/-- A step of the call itself. -/
def ResilientLabel.own : ResilientLabel → Bool
  | .other _ => false
  | _ => true

/-- The attempt was refused by the open circuit. -/
def isRefused : HttpOutcome → Bool
  | .error .circuitOpen => true
  | _ => false

/-- No attempt comes after this outcome: a success, a refusal by the open circuit, or a
4xx other than 408 and 429. -/
def IsFinal (o : HttpOutcome) : Prop := isFailure o = false ∨ isRefused o = true ∨ ClientError o

/-- The data of the first success, `null` without one. -/
def answerOf (outcomes : List HttpOutcome) : Json :=
  match outcomes.find? fun o => !isFailure o with
  | some (.ok data) => data
  | _ => .null

/-! ## The script -/

/-- How the call goes on after an attempt. -/
def afterAttempt (r : HttpRequest) (left : ℕ) (o : HttpOutcome) : Svc Json :=
  match o, left with
  | .ok data, _ => .done data
  | .error _, 0 => .done .null
  | .error err, left + 1 => if isRetryable err then callWithAttempts r left else .done .null

theorem callWithAttempts_eq (r : HttpRequest) (left : ℕ) :
    callWithAttempts r left = .await (.http r) (afterAttempt r left) := by
  cases left with
  | zero =>
      refine congrArg (Script.await _) (funext fun o => ?_)
      cases o <;> rfl
  | succ left =>
      refine congrArg (Script.await _) (funext fun o => ?_)
      cases o with
      | ok data => rfl
      | error err =>
          simp only [afterAttempt]
          by_cases hretry : isRetryable err = true
          · rw [if_pos hretry]
            simp [hretry, callWithAttempts]
          · rw [if_neg hretry]
            simp [hretry]

/-- An attempt is worth another one. -/
def Retried (o : HttpOutcome) : Prop := ∃ err, o = .error err ∧ isRetryable err = true

theorem not_retried_of_final {o : HttpOutcome} (h : IsFinal o) : ¬ Retried o := by
  rintro ⟨err, rfl, hretry⟩
  obtain h | h | h := h
  · cases h
  · cases err with
    | circuitOpen => cases hretry
    | response status => cases h
    | noResponse => cases h
  · cases err with
    | circuitOpen => cases hretry
    | noResponse => cases h
    | response status =>
        have hup : IsUpstream (.error (.response status)) = true := by
          obtain ⟨h1, h2, -⟩ := h
          simp only [IsUpstream, Bool.and_eq_true, decide_eq_true_eq]
          omega
        rw [(clientError_iff hup).mp h] at hretry
        cases hretry

/-- After an attempt that is worth another one, the call goes on if attempts are left;
after any other one, and after its last, it has its answer. -/
theorem afterAttempt_cases (r : HttpRequest) (left : ℕ) (o : HttpOutcome) :
    (∃ left', left = left' + 1 ∧ Retried o ∧ afterAttempt r left o = callWithAttempts r left') ∨
    ((Retried o → left = 0) ∧ afterAttempt r left o = .done (answerOf [o])) := by
  cases o with
  | ok data =>
      right
      refine ⟨fun ⟨_, h, _⟩ => ?_, rfl⟩
      cases h
  | error err =>
      cases left with
      | zero => exact .inr ⟨fun _ => rfl, rfl⟩
      | succ left =>
          by_cases hretry : isRetryable err = true
          · left
            refine ⟨left, rfl, ⟨err, rfl, hretry⟩, ?_⟩
            simp [afterAttempt, hretry]
          · right
            refine ⟨fun ⟨e, he, h⟩ => ?_, ?_⟩
            · cases he
              exact absurd h hretry
            · simp [afterAttempt, hretry, answerOf, isFailure]

namespace ResilientCall

variable {cfg : HcmConfig} {r : HttpRequest} {s s' : ResilientCall}

/-! ## Where a call stands -/

/-- The call is about to make an attempt, waits for one, or has its answer. -/
inductive Phase (cfg : HcmConfig) (r : HttpRequest) (s : ResilientCall) : Prop
  | ready (left : ℕ) (hscript : s.script = callWithAttempts r left) (hwaiting : s.waiting = none)
      (hretried : ∀ o ∈ s.outcomes, Retried o)
      (hleft : s.outcomes.length + (left + 1) = cfg.retryMaxAttempts)
      (hcalls : s.breakerCalls = s.outcomes.length) : Phase cfg r s
  | out (left id : ℕ) (hscript : s.script = callWithAttempts r left)
      (hwaiting : s.waiting = some id) (hfind : (s.system.find id).isSome)
      (hretried : ∀ o ∈ s.outcomes, Retried o)
      (hleft : s.outcomes.length + (left + 1) = cfg.retryMaxAttempts)
      (hcalls : s.breakerCalls = s.outcomes.length + 1) : Phase cfg r s
  | ended (earlier : List HttpOutcome) (last : HttpOutcome)
      (hscript : s.script = .done (answerOf [last])) (hwaiting : s.waiting = none)
      (houtcomes : s.outcomes = earlier ++ [last]) (hretried : ∀ o ∈ earlier, Retried o)
      (hleft : earlier.length < cfg.retryMaxAttempts)
      (hcalls : s.breakerCalls = s.outcomes.length) : Phase cfg r s

/-- An attempt that came to `o` leaves the call before its next attempt, or with its answer. -/
theorem Phase.resumed {left : ℕ} {system : BreakerSystem} {o : HttpOutcome} {calls : ℕ}
    (hretried : ∀ o ∈ s.outcomes, Retried o)
    (hleft : s.outcomes.length + (left + 1) = cfg.retryMaxAttempts)
    (hcalls : calls = s.outcomes.length + 1) :
    Phase cfg r { s.resume system (afterAttempt r left o) o with breakerCalls := calls } := by
  obtain ⟨left', rfl, hretry, heq⟩ | ⟨hlast, heq⟩ := afterAttempt_cases r left o
  · refine .ready left' heq rfl ?_ ?_ ?_
    · intro o' ho'
      obtain ho' | ho' := List.mem_append.mp ho'
      · exact hretried o' ho'
      · rw [List.mem_singleton.mp ho']
        exact hretry
    · simp only [resume, List.length_append, List.length_singleton]
      omega
    · simp only [resume, List.length_append, List.length_singleton]
      omega
  · refine .ended s.outcomes o heq rfl rfl hretried (by omega) ?_
    simp only [resume, List.length_append, List.length_singleton]
    omega

/-- What is in flight stays there until it settles. -/
theorem find_isSome_of_step {bcfg : BreakerConfig} {sys sys' : BreakerSystem} {l : BreakerLabel}
    {id : ℕ} (h : sys.step bcfg l = some sys') (hl : l.settles id = false)
    (hfind : (sys.find id).isSome) : (sys'.find id).isSome := by
  have hletOut : ∀ t : BreakerSystem, (t.find id).isSome → (t.letOut.find id).isSome := by
    intro t ht
    simp only [BreakerSystem.find, BreakerSystem.letOut, List.find?_isSome] at ht ⊢
    obtain ⟨c, hc, hid⟩ := ht
    exact ⟨c, List.mem_append_left _ hc, hid⟩
  cases BreakerSystem.step_cases h with
  | tick => exact hfind
  | answered => exact hfind
  | admitted => exact hletOut sys hfind
  | probed => exact hletOut _ hfind
  | @settled c outcome hc =>
      have hne : c.id ≠ id := by simpa [BreakerLabel.settles] using hl
      simp only [BreakerSystem.find, BreakerSystem.update, BreakerSystem.settled,
        List.find?_isSome] at hfind ⊢
      obtain ⟨c', hc', hid⟩ := hfind
      have hid' : c'.id = id := by simpa using hid
      refine ⟨c', List.mem_filter.mpr ⟨hc', ?_⟩, hid⟩
      simpa [hid'] using hne.symm
  | reset => exact hfind

/-- The breaker of the facade lets a call out or fails it fast. -/
theorem admission_cases (cfg : HcmConfig) (now : ℚ) (b : CircuitBreaker) :
    (b.call cfg.breaker now false).1 = .invoke
    ∨ ∃ err, (b.call cfg.breaker now false).1 = .failFast err := by
  have hfn : (!false && !cfg.breaker.fn) = false := rfl
  have hfallback : cfg.breaker.fallback = false := rfl
  unfold CircuitBreaker.call
  simp only [hfn, hfallback, Bool.false_eq_true, if_false]
  split
  · split
    · exact .inr ⟨_, rfl⟩
    · exact .inl rfl
  · exact .inl rfl

/-- A call that goes out is in flight. -/
theorem find_of_invoke {bcfg : BreakerConfig} {sys sys' : BreakerSystem}
    (h : sys.step bcfg (.call false) = some sys')
    (hinvoke : (sys.breaker.call bcfg sys.now false).1 = .invoke) :
    (sys'.find sys.invoked).isSome := by
  have hletOut : ∀ t : BreakerSystem, t.invoked = sys.invoked →
      (t.letOut.find sys.invoked).isSome := by
    intro t ht
    simp only [BreakerSystem.find, BreakerSystem.letOut, List.find?_isSome]
    exact ⟨_, List.mem_append_right _ (List.mem_singleton.mpr rfl), by simp [ht]⟩
  cases BreakerSystem.step_cases h with
  | answered hne => exact absurd hinvoke hne
  | admitted => exact hletOut sys rfl
  | probed => exact hletOut _ rfl

/-- What one step of the call does, with its guard. -/
inductive StepCase (cfg : HcmConfig) (s : ResilientCall) : ResilientLabel → ResilientCall → Prop
  | other {l : BreakerLabel} {system : BreakerSystem} (hl : ∀ id, s.waiting = some id →
      l.settles id = false) (hstep : s.system.step cfg.breaker l = some system) :
      StepCase cfg s (.other l) { s with system := system }
  | sent {r : HttpRequest} {k : HttpOutcome → Svc Json} {system : BreakerSystem}
      (hscript : s.script = .await (.http r) k) (hwaiting : s.waiting = none)
      (hfind : (system.find s.system.invoked).isSome) :
      StepCase cfg s .attempt { s with
        system := system
        waiting := some s.system.invoked
        breakerCalls := s.breakerCalls + 1
        requests := s.requests ++ [r] }
  | refused {r : HttpRequest} {k : HttpOutcome → Svc Json} {system : BreakerSystem}
      (hscript : s.script = .await (.http r) k) (hwaiting : s.waiting = none) :
      StepCase cfg s .attempt
        { s.resume system (k (.error .circuitOpen)) (.error .circuitOpen) with
          breakerCalls := s.breakerCalls + 1 }
  | settled {l : ResilientLabel} {r : HttpRequest} {k : HttpOutcome → Svc Json} {id : ℕ}
      {system : BreakerSystem} {o : HttpOutcome} (hl : l.own = true)
      (hscript : s.script = .await (.http r) k) (hwaiting : s.waiting = some id)
      (ho : isRefused o = false) : StepCase cfg s l (s.resume system (k o) o)

theorem step_cases {l : ResilientLabel} (h : step cfg s l = some s') : StepCase cfg s l s' := by
  cases l with
  | other l =>
      simp only [step, Option.ite_none_left_eq_some, Option.map_eq_some_iff] at h
      obtain ⟨hl, system, hstep, rfl⟩ := h
      refine .other ?_ hstep
      intro id hid
      simpa [hid] using hl
  | attempt =>
      simp only [step] at h
      split at h
      · next r k hscript hwaiting =>
        obtain ⟨system, hstep, h⟩ := Option.bind_eq_some_iff.mp h
        split at h
        · next hinvoke =>
          cases h
          exact .sent hscript hwaiting (find_of_invoke hstep hinvoke)
        · cases h
          exact .refused hscript hwaiting
        · cases h
        · cases h
      · cases h
  | settle o =>
      simp only [step] at h
      split at h
      · next r k id hscript hwaiting =>
        split at h
        · cases h
        · next hne =>
          obtain ⟨system, hstep, rfl⟩ := Option.map_eq_some_iff.mp h
          refine .settled rfl hscript hwaiting ?_
          unfold isRefused
          split
          · exact absurd rfl hne
          · rfl
      · cases h
  | timeOut =>
      simp only [step] at h
      split at h
      · next r k id hscript hwaiting =>
        obtain ⟨system, hstep, rfl⟩ := Option.map_eq_some_iff.mp h
        exact .settled rfl hscript hwaiting rfl
      · cases h

/-- **One step** takes a call from phase to phase. -/
theorem step_phase {l : ResilientLabel} (hphase : Phase cfg r s) (h : step cfg s l = some s') :
    Phase cfg r s' := by
  have hcase := step_cases h
  cases hphase with
  | ready left hscript hwaiting hretried hleft hcalls =>
      cases hcase with
      | other hl hstep => exact .ready left hscript hwaiting hretried hleft hcalls
      | sent hawait hidle hfind =>
          refine .out left s.system.invoked hscript rfl hfind hretried hleft ?_
          show s.breakerCalls + 1 = s.outcomes.length + 1
          rw [hcalls]
      | refused hawait hidle =>
          rw [hscript, callWithAttempts_eq] at hawait
          cases hawait
          exact .resumed hretried hleft (by rw [hcalls])
      | settled hl hawait hout =>
          rw [hwaiting] at hout
          cases hout
  | out left id hscript hwaiting hfind hretried hleft hcalls =>
      cases hcase with
      | other hl hstep =>
          exact .out left id hscript hwaiting (find_isSome_of_step hstep (hl id hwaiting) hfind)
            hretried hleft hcalls
      | sent hawait hidle =>
          rw [hwaiting] at hidle
          cases hidle
      | refused hawait hidle =>
          rw [hwaiting] at hidle
          cases hidle
      | settled hl hawait hout =>
          rw [hscript, callWithAttempts_eq] at hawait
          cases hawait
          exact .resumed hretried hleft hcalls
  | ended earlier last hscript hwaiting houtcomes hretried hleft hcalls =>
      cases hcase with
      | other hl hstep => exact .ended earlier last hscript hwaiting houtcomes hretried hleft hcalls
      | sent hawait => rw [hscript] at hawait; cases hawait
      | refused hawait => rw [hscript] at hawait; cases hawait
      | settled hl hawait => rw [hscript] at hawait; cases hawait

/-! ## The counts -/

/-- Every attempt the circuit let out made one network request, and no other did. -/
theorem step_requests {l : ResilientLabel} (h : step cfg s l = some s')
    (hcount : s.requests.length + s.outcomes.countP isRefused = s.breakerCalls) :
    s'.requests.length + s'.outcomes.countP isRefused = s'.breakerCalls := by
  cases step_cases h with
  | other => exact hcount
  | sent =>
      simp only [List.length_append, List.length_singleton]
      omega
  | refused =>
      simp only [resume, List.countP_append, List.countP_singleton, isRefused, if_true]
      omega
  | settled hl hawait hout ho =>
      simp only [resume, List.countP_append, List.countP_singleton, ho]
      simpa using hcount

/-- Every step of the call's own starts or ends an attempt. -/
theorem run_own {ls : List ResilientLabel} (h : run (step cfg) s ls = some s') :
    s.breakerCalls + s.outcomes.length + ls.countP ResilientLabel.own
      ≤ s'.breakerCalls + s'.outcomes.length := by
  induction ls generalizing s with
  | nil =>
      cases h
      simp
  | cons l ls ih =>
      obtain ⟨s₁, hstep, hrest⟩ := run_cons_some h
      have hlater := ih hrest
      rw [List.countP_cons]
      cases step_cases hstep with
      | other =>
          simp only [ResilientLabel.own, Bool.false_eq_true, if_false]
          exact hlater
      | sent =>
          simp only [ResilientLabel.own, if_true]
          simp only at hlater
          omega
      | refused =>
          simp only [ResilientLabel.own, if_true]
          simp only [resume, List.length_append, List.length_singleton] at hlater
          omega
      | settled hl =>
          simp only [hl, if_true]
          simp only [resume, List.length_append, List.length_singleton] at hlater
          omega

/-! ## The answer -/

/-- What holds of a call at every point of its run. -/
structure BoundedAnswer (cfg : HcmConfig) (s : ResilientCall) : Prop where
  /-- at most `retryMaxAttempts` calls of the breaker -/
  bounded : s.breakerCalls ≤ cfg.retryMaxAttempts
  /-- no attempt after a success, after a refusal by the open circuit and after a 4xx other
  than 408 and 429 -/
  stops : ∀ earlier o later, s.outcomes = earlier ++ o :: later → IsFinal o →
    later = [] ∧ s.breakerCalls = s.outcomes.length ∧ ∃ v, s.script = .done v
  /-- a network request for each attempt that the circuit did not refuse -/
  requests : s.requests.length + s.outcomes.countP isRefused = s.breakerCalls
  never_rejects : ∀ e, s.script ≠ .fail e
  answer : ∀ v, s.script = .done v → v = answerOf s.outcomes
  /-- the call has its answer, can make its next attempt, or waits for one that can settle
  with every outcome -/
  goes_on : (∃ v, s.script = .done v) ∨ (step cfg s .attempt).isSome
    ∨ ∀ o, isRefused o = false → (step cfg s (.settle o)).isSome

/-- The first success is the last outcome, if there is one. -/
theorem answerOf_append {earlier : List HttpOutcome} {last : HttpOutcome}
    (hretried : ∀ o ∈ earlier, Retried o) : answerOf (earlier ++ [last]) = answerOf [last] := by
  have hnone : earlier.find? (fun o => !isFailure o) = none := by
    rw [List.find?_eq_none]
    intro o ho
    obtain ⟨err, rfl, -⟩ := hretried o ho
    simp [isFailure]
  simp only [answerOf, List.find?_append, hnone, Option.none_or]

/-- An attempt that can be made: the breaker answers every call. -/
theorem attempt_isSome {left : ℕ} (hscript : s.script = callWithAttempts r left)
    (hwaiting : s.waiting = none) : (step cfg s .attempt).isSome := by
  obtain ⟨system, hstep⟩ : ∃ system, s.system.step cfg.breaker (.call false) = some system := by
    simp only [BreakerSystem.step]
    split <;> exact ⟨_, rfl⟩
  simp only [step, hscript, callWithAttempts_eq, hwaiting, hstep, Option.bind_some]
  obtain hinvoke | ⟨err, hfast⟩ := admission_cases cfg s.system.now s.system.breaker
  · rw [hinvoke]
    rfl
  · rw [hfast]
    rfl

/-- An attempt that is out can be settled by any answer of the network. -/
theorem settle_isSome {left id : ℕ} (hscript : s.script = callWithAttempts r left)
    (hwaiting : s.waiting = some id) (hfind : (s.system.find id).isSome) {o : HttpOutcome}
    (ho : isRefused o = false) : (step cfg s (.settle o)).isSome := by
  obtain ⟨c, hc⟩ := Option.isSome_iff_exists.mp hfind
  have houtcome : breakerOutcome o ≠ .timedOut := by
    unfold breakerOutcome
    split <;> simp
  simp only [step, hscript, callWithAttempts_eq, hwaiting, BreakerSystem.step, hc,
    Option.bind_some]
  split
  · cases ho
  · simp [houtcome]

theorem Phase.answer (hphase : Phase cfg r s)
    (hcount : s.requests.length + s.outcomes.countP isRefused = s.breakerCalls) :
    BoundedAnswer cfg s := by
  -- before the last attempt every outcome is worth another one
  have hmiddle : (∀ o ∈ s.outcomes, Retried o) → ∀ earlier o later,
      s.outcomes = earlier ++ o :: later → IsFinal o →
      later = [] ∧ s.breakerCalls = s.outcomes.length ∧ ∃ v, s.script = .done v := by
    intro hretried earlier o later heq hfinal
    exact absurd (hretried o (by simp [heq])) (not_retried_of_final hfinal)
  cases hphase with
  | ready left hscript hwaiting hretried hleft hcalls =>
      refine ⟨by omega, hmiddle hretried, hcount, ?_, ?_, .inr (.inl ?_)⟩
      · intro e he
        rw [hscript, callWithAttempts_eq] at he
        cases he
      · intro v hv
        rw [hscript, callWithAttempts_eq] at hv
        cases hv
      · exact attempt_isSome hscript hwaiting
  | out left id hscript hwaiting hfind hretried hleft hcalls =>
      refine ⟨by omega, hmiddle hretried, hcount, ?_, ?_, .inr (.inr ?_)⟩
      · intro e he
        rw [hscript, callWithAttempts_eq] at he
        cases he
      · intro v hv
        rw [hscript, callWithAttempts_eq] at hv
        cases hv
      · exact fun o ho => settle_isSome hscript hwaiting hfind ho
  | ended earlier last hscript hwaiting houtcomes hretried hleft hcalls =>
      refine ⟨?_, ?_, hcount, ?_, ?_, .inl ⟨_, hscript⟩⟩
      · rw [hcalls, houtcomes, List.length_append, List.length_singleton]
        omega
      · intro pre o post heq hfinal
        refine ⟨?_, hcalls, _, hscript⟩
        obtain rfl | ⟨post', x, rfl⟩ := List.eq_nil_or_concat post
        · rfl
        · -- a final outcome before the last one
          rw [houtcomes, List.concat_eq_append, ← List.cons_append, ← List.append_assoc] at heq
          obtain ⟨hearlier, -⟩ := List.append_inj' heq rfl
          exact absurd (hretried o (by simp [hearlier])) (not_retried_of_final hfinal)
      · intro e he
        rw [hscript] at he
        cases he
      · intro v hv
        rw [hscript] at hv
        cases hv
        rw [houtcomes, answerOf_append hretried]

/-- **One bounded answer**: from every state of the breaker, whatever the upstream answers,
whatever else happens to the breaker and however the clock moves, a call of a method of
`HcmService` makes at most `retryMaxAttempts` calls of the breaker, none after a success,
a refusal or a 4xx other than 408 and 429, makes a network request for those alone that the
circuit lets out, and within a bounded number of steps returns the data of its first
success, or `null`: it never rejects. -/
theorem resilient_call (cfg : HcmConfig) (hmax : 1 ≤ cfg.retryMaxAttempts) (r : HttpRequest)
    (system : BreakerSystem) (ls : List ResilientLabel) (s : ResilientCall)
    (hrun : run (step cfg) (start system (cfg.callWithResilience r)) ls = some s) :
    BoundedAnswer cfg s ∧ ls.countP ResilientLabel.own ≤ 2 * cfg.retryMaxAttempts := by
  have hstart : Phase cfg r (start system (cfg.callWithResilience r)) := by
    unfold HcmConfig.callWithResilience
    split
    · omega
    · next left hleft =>
      refine .ready left rfl rfl ?_ ?_ rfl
      · intro o ho
        cases ho
      · simp only [start, List.length_nil]
        omega
  have hphase : Phase cfg r s := run_induct (fun _ _ _ => step_phase) hstart hrun
  have hanswer : BoundedAnswer cfg s :=
    hphase.answer (run_induct (fun _ _ _ h hstep => step_requests hstep h) rfl hrun)
  refine ⟨hanswer, ?_⟩
  have hown := run_own hrun
  have houtcomes : s.outcomes.length ≤ s.breakerCalls := by
    cases hphase with
    | ready left hscript hwaiting hretried hleft hcalls => omega
    | out left id hscript hwaiting hfind hretried hleft hcalls => omega
    | ended earlier last hscript hwaiting houtcomes hretried hleft hcalls => omega
  have hbounded := hanswer.bounded
  simp only [start, List.length_nil] at hown
  omega

/-- The first attempt finds HCM down and opens a circuit whose threshold is one; somebody's
probe closes it, and the second attempt succeeds. -/
def recovery : List ResilientLabel :=
  [.attempt, .settle (.error (.response 503)), .other (.tick 30000), .other (.call false),
    .other (.settle 1 .success), .attempt, .settle (.ok (.arr []))]

theorem resilient_call_recovery :
    ∃ s, run (step { circuitThreshold := 1 }) (start (.initial 0)
        (({ circuitThreshold := 1 } : HcmConfig).callWithResilience (.batchSync none))) recovery
          = some s
      ∧ s.outcomes.length = 2 ∧ BoundedAnswer { circuitThreshold := 1 } s
      ∧ recovery.countP ResilientLabel.own ≤ 2 * 3 := by
  have hrun : (run (step { circuitThreshold := 1 }) (start (.initial 0)
      (({ circuitThreshold := 1 } : HcmConfig).callWithResilience (.batchSync none)))
      recovery).map (fun s => s.outcomes.length) = some 2 := by
    decide +kernel
  obtain ⟨s, hs, hlength⟩ := Option.map_eq_some_iff.mp hrun
  exact ⟨s, hs, hlength, resilient_call { circuitThreshold := 1 } (by decide) (.batchSync none)
    (.initial 0) recovery s hs⟩

end ResilientCall

end LeaveLedger
