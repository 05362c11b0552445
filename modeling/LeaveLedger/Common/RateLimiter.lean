import LeaveLedger.Lib.Machine
import Mathlib

/-!
# Common — RateLimiter

`common/utils/rate-limiter.util`: at most `maxRequests` checks of a key in a
sliding window. A check prunes the timestamps of its key by the window that
ends now, so what is stored answers for every later window as the full list
of allowed checks would (`Keeps`). The machine below makes checks of any keys
at times that do not go back, and keeps them with their decisions.
-/

namespace LeaveLedger

open Lib

namespace RateLimiter

/-! ## The limiter -/

/-- The options and `hits`, a `Map` that is read through its keys. -/
structure Limiter where
  windowMs : ℚ
  maxRequests : ℕ
  hits : String → Option (List ℚ)

/-- The constructor: an option that is absent or 0 has its default. -/
def create (windowMs : Option ℚ) (maxRequests : Option ℕ) : Limiter where
  windowMs := if windowMs.getD 0 = 0 then 60000 else windowMs.getD 0
  maxRequests := if maxRequests.getD 0 = 0 then 100 else maxRequests.getD 0
  hits := fun _ => none

/-- What `check` returns; the reset time is `none` where it is `NaN`. -/
structure Decision where
  allowed : Bool
  remaining : ℕ
  resetTimeMs : Option ℚ
  total : ℕ

/-- The timestamps of a key in the window that ends now. -/
def Limiter.recent (l : Limiter) (now : ℚ) (key : String) : List ℚ :=
  ((l.hits key).getD []).filter fun t => t > now - l.windowMs

/-- `check`. -/
def Limiter.check (l : Limiter) (now : ℚ) (key : String) : Decision × Limiter :=
  let timestamps := l.recent now key
  if timestamps.length ≥ l.maxRequests then
    (⟨false, 0, timestamps.head?.map (· + l.windowMs), timestamps.length⟩,
      { l with hits := Function.update l.hits key (some timestamps) })
  else
    let timestamps := timestamps ++ [now]
    (⟨true, l.maxRequests - timestamps.length, timestamps.head?.map (· + l.windowMs),
        timestamps.length⟩,
      { l with hits := Function.update l.hits key (some timestamps) })

/-! ## Checks one after another -/

/-- A check that was made. -/
structure Check where
  key : String
  time : ℚ
  decision : Decision

structure System where
  clock : ℚ
  limiter : Limiter
  /-- the checks so far, in their order -/
  history : List Check

def System.initial (windowMs : Option ℚ) (maxRequests : Option ℕ) (clock : ℚ) : System :=
  ⟨clock, create windowMs maxRequests, []⟩

/-- A call of `check` and when it is made. -/
structure Call where
  key : String
  time : ℚ

def step (s : System) (c : Call) : Option System := do
  guard (s.clock ≤ c.time)
  let r := s.limiter.check c.time c.key
  some ⟨c.time, r.2, s.history ++ [⟨c.key, c.time, r.1⟩]⟩

/-- The times of the allowed checks of a key. -/
def allowedTimes (history : List Check) (key : String) : List ℚ :=
  (history.filter fun c => c.key = key && c.decision.allowed).map Check.time

/-- How many checks of the key were allowed after `start`. -/
def allowedSince (history : List Check) (key : String) (start : ℚ) : ℕ :=
  ((allowedTimes history key).filter fun t => t > start).length

/-- How many checks of the key were allowed in the window that ends at `time`. -/
def allowedIn (history : List Check) (windowMs : ℚ) (key : String) (time : ℚ) : ℕ :=
  ((allowedTimes history key).filter fun t => t > time - windowMs && t ≤ time).length

/-! ## What a check does -/

section check
variable {l : Limiter} {now : ℚ} {key : String}

/-- `this.hits.set(key, timestamps)`. -/
def Limiter.store (l : Limiter) (key : String) (timestamps : List ℚ) : Limiter :=
  { l with hits := Function.update l.hits key (some timestamps) }

theorem recent_store (timestamps : List ℚ) (t : ℚ) (k : String) :
    (l.store key timestamps).recent t k
      = if k = key then timestamps.filter (fun x => x > t - l.windowMs) else l.recent t k := by
  by_cases hk : k = key
  · subst hk
    simp [Limiter.recent, Limiter.store]
  · simp [Limiter.recent, Limiter.store, hk]

/-- A check is allowed exactly when there is room in its window. -/
inductive CheckCase (l : Limiter) (now : ℚ) (key : String) : Decision × Limiter → Prop
  | refused (hfull : l.maxRequests ≤ (l.recent now key).length) :
      CheckCase l now key (⟨false, 0, (l.recent now key).head?.map (· + l.windowMs),
        (l.recent now key).length⟩, l.store key (l.recent now key))
  | allowed {d : Decision} (hroom : (l.recent now key).length < l.maxRequests)
      (hallowed : d.allowed = true) :
      CheckCase l now key (d, l.store key (l.recent now key ++ [now]))

theorem check_cases (l : Limiter) (now : ℚ) (key : String) :
    CheckCase l now key (l.check now key) := by
  by_cases hfull : l.maxRequests ≤ (l.recent now key).length
  · simp only [Limiter.check, ge_iff_le, hfull, if_true]
    exact .refused hfull
  · simp only [Limiter.check, ge_iff_le, hfull, if_false]
    exact .allowed (not_le.mp hfull) rfl

theorem check_allowed_iff :
    (l.check now key).1.allowed = true ↔ (l.recent now key).length < l.maxRequests := by
  have hcase := check_cases l now key
  generalize l.check now key = r at hcase
  cases hcase with
  | refused hfull => simp [hfull]
  | allowed hroom hallowed => simp [hallowed, hroom]

/-- Pruning by a window that ends earlier changes nothing for a later one. -/
theorem filter_recent {ts : List ℚ} {w t : ℚ} (h : now ≤ t) :
    (ts.filter fun x => x > now - w).filter (fun x => x > t - w)
      = ts.filter fun x => x > t - w := by
  rw [List.filter_filter]
  refine List.filter_congr fun x _ => ?_
  rw [Bool.eq_iff_iff]
  simp only [Bool.and_eq_true, decide_eq_true_eq]
  constructor
  · exact fun h => h.1
  · exact fun hx => ⟨hx, by linarith⟩

/-- A time that has room in its own window overfills none. -/
theorem window_snoc {ts : List ℚ} {w : ℚ} {n : ℕ}
    (hold : ∀ t, (ts.filter fun x => x > t - w && x ≤ t).length ≤ n)
    (hroom : (ts.filter fun x => x > now - w).length < n) (t : ℚ) :
    ((ts ++ [now]).filter fun x => x > t - w && x ≤ t).length ≤ n := by
  rw [List.filter_append, List.length_append]
  by_cases hin : now > t - w ∧ now ≤ t
  · -- the times of this window were counted for the new one
    have hsub : (ts.filter fun x => x > t - w && x ≤ t).length
        ≤ (ts.filter fun x => x > now - w).length := by
      refine (List.monotone_filter_right _ fun x hx => ?_).length_le
      simp only [Bool.and_eq_true, decide_eq_true_eq] at hx ⊢
      linarith
    have hone : ([now].filter fun x => x > t - w && x ≤ t).length ≤ 1 :=
      List.length_filter_le _ _
    omega
  · rw [List.filter_cons_of_neg (by simpa using hin)]
    exact hold t

end check

/-! ## What is stored and what was allowed -/

/-- The stored timestamps answer for every later window as the allowed checks do, and no
window holds too many of these. -/
structure Sound (s : System) : Prop where
  positive : 1 ≤ s.limiter.maxRequests
  sorted : ∀ k, (allowedTimes s.history k).Pairwise (· ≤ ·)
  past : ∀ k, ∀ t ∈ allowedTimes s.history k, t ≤ s.clock
  keeps : ∀ k now, s.clock ≤ now → s.limiter.recent now k
    = (allowedTimes s.history k).filter fun t => t > now - s.limiter.windowMs
  bounded : ∀ k t, allowedIn s.history s.limiter.windowMs k t ≤ s.limiter.maxRequests

theorem allowedTimes_snoc (history : List Check) (x : Check) (k : String) :
    allowedTimes (history ++ [x]) k = allowedTimes history k
      ++ if x.key = k ∧ x.decision.allowed = true then [x.time] else [] := by
  simp only [allowedTimes, List.filter_append, List.map_append]
  by_cases hx : x.key = k ∧ x.decision.allowed = true
  · simp [hx]
  · rw [List.filter_cons_of_neg (by simpa using hx), if_neg hx]
    rfl

theorem sound_initial (windowMs : Option ℚ) (maxRequests : Option ℕ) (clock : ℚ) :
    Sound (System.initial windowMs maxRequests clock) where
  positive := by
    simp only [System.initial, create]
    split <;> omega
  sorted k := by simp [allowedTimes, System.initial]
  past k := by simp [allowedTimes, System.initial]
  keeps k now _ := by simp [allowedTimes, System.initial, Limiter.recent, create]
  bounded k t := by simp [allowedIn, allowedTimes, System.initial]

section steps
variable {s s' : System} {c : Call}

/-- What a step leaves: the decision at the end of the history. -/
theorem step_eq (h : step s c = some s') :
    s.clock ≤ c.time ∧ s' = ⟨c.time, (s.limiter.check c.time c.key).2,
      s.history ++ [⟨c.key, c.time, (s.limiter.check c.time c.key).1⟩]⟩ := by
  simp only [step, Option.bind_eq_bind, Option.bind_eq_some_iff, Option.guard_eq_some'] at h
  obtain ⟨_, hle, h⟩ := h
  exact ⟨hle, (Option.some.inj h).symm⟩

/-- A pruned list answers for later windows as the allowed checks do. -/
theorem Sound.recent_filter (hsound : Sound s) (hle : s.clock ≤ c.time) {now : ℚ}
    (hnow : c.time ≤ now) (k : String) :
    (s.limiter.recent c.time k).filter (fun t => t > now - s.limiter.windowMs)
      = s.limiter.recent now k := by
  rw [hsound.keeps k c.time hle, hsound.keeps k now (hle.trans hnow), filter_recent hnow]

/-- A refused check stores nothing new. -/
theorem sound_refused (hsound : Sound s) (hle : s.clock ≤ c.time) {d : Decision}
    (hrefused : d.allowed = false) :
    Sound ⟨c.time, s.limiter.store c.key (s.limiter.recent c.time c.key),
      s.history ++ [⟨c.key, c.time, d⟩]⟩ := by
  have htimes : ∀ k, allowedTimes (s.history ++ [⟨c.key, c.time, d⟩]) k
      = allowedTimes s.history k := by
    intro k
    simp [allowedTimes_snoc, hrefused]
  refine ⟨hsound.positive, fun k => ?_, fun k t ht => ?_, fun k now hnow => ?_, fun k t => ?_⟩
  · rw [htimes]
    exact hsound.sorted k
  · rw [htimes] at ht
    exact (hsound.past k t ht).trans hle
  · simp only [htimes, recent_store]
    by_cases hk : k = c.key
    · subst hk
      rw [if_pos rfl, hsound.recent_filter hle hnow]
      exact hsound.keeps _ now (hle.trans hnow)
    · rw [if_neg hk]
      exact hsound.keeps k now (hle.trans hnow)
  · simp only [allowedIn, htimes]
    exact hsound.bounded k t

/-- A check that is allowed had room in its window. -/
theorem sound_allowed (hsound : Sound s) (hle : s.clock ≤ c.time) {d : Decision}
    (hroom : (s.limiter.recent c.time c.key).length < s.limiter.maxRequests)
    (hallowed : d.allowed = true) :
    Sound ⟨c.time, s.limiter.store c.key (s.limiter.recent c.time c.key ++ [c.time]),
      s.history ++ [⟨c.key, c.time, d⟩]⟩ := by
  have htimes : ∀ k, allowedTimes (s.history ++ [⟨c.key, c.time, d⟩]) k
      = allowedTimes s.history k ++ if c.key = k then [c.time] else [] := by
    intro k
    simp [allowedTimes_snoc, hallowed]
  refine ⟨hsound.positive, fun k => ?_, fun k t ht => ?_, fun k now hnow => ?_, fun k t => ?_⟩
  · rw [htimes, List.pairwise_append]
    refine ⟨hsound.sorted k, by split <;> simp, fun x hx y hy => ?_⟩
    have hxle := (hsound.past k x hx).trans hle
    split at hy
    · rw [List.mem_singleton.mp hy]
      exact hxle
    · cases hy
  · rw [htimes] at ht
    rcases List.mem_append.mp ht with ht | ht
    · exact (hsound.past k t ht).trans hle
    · split at ht
      · exact (List.mem_singleton.mp ht).le
      · cases ht
  · simp only [htimes, recent_store]
    by_cases hk : k = c.key
    · subst hk
      rw [if_pos rfl, if_pos rfl, List.filter_append, List.filter_append,
        hsound.recent_filter hle hnow, hsound.keeps _ now (hle.trans hnow)]
      rfl
    · rw [if_neg hk, if_neg (Ne.symm hk), List.append_nil]
      exact hsound.keeps k now (hle.trans hnow)
  · simp only [allowedIn, htimes]
    by_cases hk : c.key = k
    · subst hk
      rw [if_pos rfl]
      rw [hsound.keeps _ c.time hle] at hroom
      exact window_snoc (hsound.bounded c.key) hroom t
    · rw [if_neg hk, List.append_nil]
      exact hsound.bounded k t

/-- **One check**: what is stored still answers as the allowed checks do. -/
theorem sound_step (hsound : Sound s) (h : step s c = some s') : Sound s' := by
  obtain ⟨hle, rfl⟩ := step_eq h
  have hcase := check_cases s.limiter c.time c.key
  generalize s.limiter.check c.time c.key = r at hcase
  cases hcase with
  | refused hfull => exact sound_refused hsound hle rfl
  | allowed hroom hallowed => exact sound_allowed hsound hle hroom hallowed

end steps

/-! ## When a key is free again -/

/-- The list of a full window is as long as allowed, and it gets shorter exactly when its
oldest time falls out. -/
theorem room_iff_of_full {ts : List ℚ} {w : ℚ} {n : ℕ} (hsorted : ts.Pairwise (· ≤ ·))
    (hlength : ts.length = n) (hpos : 1 ≤ n) :
    ∃ oldest, ts.head? = some oldest
      ∧ ∀ now, (ts.filter fun x => x > now - w).length < n ↔ oldest + w ≤ now := by
  cases ts with
  | nil =>
      simp only [List.length_nil] at hlength
      omega
  | cons oldest rest =>
      refine ⟨oldest, rfl, fun now => ?_⟩
      have hle : ∀ x ∈ rest, oldest ≤ x := (List.pairwise_cons.mp hsorted).1
      constructor
      · intro hroom
        by_contra hlate
        have hall : (oldest :: rest).filter (fun x => x > now - w) = oldest :: rest := by
          rw [List.filter_eq_self]
          intro x hx
          have hx' : oldest ≤ x := by
            rcases List.mem_cons.mp hx with rfl | hx
            · exact le_rfl
            · exact hle x hx
          simp only [decide_eq_true_eq]
          linarith
        rw [hall] at hroom
        omega
      · intro hlate
        rw [List.filter_cons_of_neg (by simp only [decide_eq_true_eq]; linarith)]
        have hrest := List.length_filter_le (fun x => decide (x > now - w)) rest
        simp only [List.length_cons] at hlength
        omega

/-- The step allows a check of the key. -/
def Allows (key : String) (s : System) (c : Call) : Prop :=
  c.key = key ∧ (s.limiter.check c.time c.key).1.allowed = true

section runs
variable {s s' : System} {c : Call}

theorem allowedTimes_step {key : String} (hrefused : ¬ Allows key s c) (h : step s c = some s') :
    allowedTimes s'.history key = allowedTimes s.history key := by
  obtain ⟨-, rfl⟩ := step_eq h
  have hnot : ¬ (c.key = key ∧ (s.limiter.check c.time c.key).1.allowed = true) := hrefused
  rw [allowedTimes_snoc, if_neg hnot, List.append_nil]

theorem clock_step (h : step s c = some s') : s.clock ≤ s'.clock := by
  obtain ⟨hle, rfl⟩ := step_eq h
  exact hle

theorem options_step (h : step s c = some s') :
    s'.limiter.windowMs = s.limiter.windowMs ∧ s'.limiter.maxRequests = s.limiter.maxRequests := by
  obtain ⟨-, rfl⟩ := step_eq h
  have hcase := check_cases s.limiter c.time c.key
  generalize s.limiter.check c.time c.key = r at hcase
  cases hcase <;> exact ⟨rfl, rfl⟩

/-- A refused check finds a full window, whose oldest time it tells. -/
theorem reset_of_refused (hsound : Sound s) (hle : s.clock ≤ c.time)
    (hrefused : (s.limiter.check c.time c.key).1.allowed = false) :
    ∃ oldest, (s.limiter.check c.time c.key).1.resetTimeMs = some (oldest + s.limiter.windowMs)
      ∧ ∀ now, ((s.limiter.recent c.time c.key).filter
          fun x => x > now - s.limiter.windowMs).length < s.limiter.maxRequests
        ↔ oldest + s.limiter.windowMs ≤ now := by
  have hkeeps := hsound.keeps c.key c.time hle
  have hsorted : (s.limiter.recent c.time c.key).Pairwise (· ≤ ·) := by
    rw [hkeeps]
    exact (hsound.sorted c.key).filter _
  have hbound : (s.limiter.recent c.time c.key).length ≤ s.limiter.maxRequests := by
    rw [hkeeps]
    refine le_trans (le_of_eq ?_) (hsound.bounded c.key c.time)
    refine congrArg List.length (List.filter_congr fun x hx => ?_)
    simp [(hsound.past c.key x hx).trans hle]
  have hcase := check_cases s.limiter c.time c.key
  generalize s.limiter.check c.time c.key = r at hcase hrefused
  cases hcase with
  | allowed _ hallowed =>
      rw [hallowed] at hrefused
      cases hrefused
  | refused hfull =>
      obtain ⟨oldest, hhead, hroom⟩ := room_iff_of_full (w := s.limiter.windowMs) hsorted
        (le_antisymm hbound hfull) hsound.positive
      exact ⟨oldest, by rw [hhead]; rfl, hroom⟩

end runs

/-- **An exact sliding window**, for every run of checks. A check is allowed exactly when
fewer than `maxRequests` checks of its key were allowed in the window that ends with it;
no window holds more; and a refused check tells from when on the key is free, whatever
other checks are refused or made of other keys until then. -/
theorem sliding_window_exact (windowMs : Option ℚ) (maxRequests : Option ℕ) (clock : ℚ)
    (ls : List Call) (s : System)
    (hrun : run step (System.initial windowMs maxRequests clock) ls = some s) :
    (∀ key now, s.clock ≤ now → ((s.limiter.check now key).1.allowed = true
        ↔ allowedSince s.history key (now - s.limiter.windowMs) < s.limiter.maxRequests))
    ∧ (∀ key now, allowedIn s.history s.limiter.windowMs key now ≤ s.limiter.maxRequests)
    ∧ ∀ (c : Call) (s₁ : System), step s c = some s₁ →
        (s.limiter.check c.time c.key).1.allowed = false →
        ∃ resetTimeMs, (s.limiter.check c.time c.key).1.resetTimeMs = some resetTimeMs
          ∧ c.time < resetTimeMs
          ∧ ∀ (mid : List Call) (s₂ : System) (now : ℚ), run step s₁ mid = some s₂ →
              Meets step (fun s c' => ¬ Allows c.key s c') s₁ mid → s₂.clock ≤ now →
              ((s₂.limiter.check now c.key).1.allowed = true ↔ resetTimeMs ≤ now) := by
  have hsound : Sound s :=
    run_induct (fun _ _ _ => sound_step) (sound_initial windowMs maxRequests clock) hrun
  refine ⟨fun key now hnow => ?_, hsound.bounded, fun c s₁ hstep hrefused => ?_⟩
  · rw [check_allowed_iff, hsound.keeps key now hnow]
    rfl
  · have hle := (step_eq hstep).1
    obtain ⟨oldest, hreset, hroom⟩ := reset_of_refused hsound hle hrefused
    refine ⟨_, hreset, ?_, fun mid s₂ now hmid hquiet hnow => ?_⟩
    · -- the window of the refused check itself is full
      by_contra hlate
      have hshort := (hroom c.time).mpr (not_lt.mp hlate)
      have hself : (s.limiter.recent c.time c.key).filter
          (fun x => x > c.time - s.limiter.windowMs) = s.limiter.recent c.time c.key :=
        hsound.recent_filter hle le_rfl c.key
      rw [hself, ← check_allowed_iff, hrefused] at hshort
      cases hshort
    · have hsound₂ : Sound s₂ :=
        run_induct (fun _ _ _ => sound_step) (sound_step hsound hstep) hmid
      have hsame : allowedTimes s₂.history c.key = allowedTimes s.history c.key
          ∧ s₂.limiter.windowMs = s.limiter.windowMs
          ∧ s₂.limiter.maxRequests = s.limiter.maxRequests ∧ c.time ≤ s₂.clock := by
        refine run_meets (I := fun x => allowedTimes x.history c.key = allowedTimes s.history c.key
            ∧ x.limiter.windowMs = s.limiter.windowMs
            ∧ x.limiter.maxRequests = s.limiter.maxRequests ∧ c.time ≤ x.clock) ?_ ?_ hquiet hmid
        · rintro x c' x' ⟨htimes, hwindow, hmax, hclock⟩ hnot h
          obtain ⟨hwindow', hmax'⟩ := options_step h
          exact ⟨(allowedTimes_step hnot h).trans htimes, hwindow'.trans hwindow,
            hmax'.trans hmax, hclock.trans (clock_step h)⟩
        · obtain ⟨hwindow, hmax⟩ := options_step hstep
          refine ⟨allowedTimes_step ?_ hstep, hwindow, hmax, ?_⟩
          · rintro ⟨-, hallowed⟩
            rw [hrefused] at hallowed
            cases hallowed
          · rw [(step_eq hstep).2]
      obtain ⟨htimes, hwindow, hmax, hclock⟩ := hsame
      rw [check_allowed_iff, hsound₂.keeps _ now hnow, htimes, hwindow, hmax, ← hroom now,
        hsound.recent_filter hle (hclock.trans hnow),
        hsound.keeps _ now (hle.trans (hclock.trans hnow))]

/-- Two checks in a window of two. -/
def burst : List Call := [⟨"k", 0⟩, ⟨"k", 10⟩]

/-- The third one, 20 ms after the first, is refused until the first is 100 ms old. -/
theorem sliding_window_exact_burst :
    ∃ s s₁, run step (System.initial (some 100) (some 2) 0) burst = some s
      ∧ step s ⟨"k", 20⟩ = some s₁ ∧ (s.limiter.check 20 "k").1.allowed = false
      ∧ ∀ now, 20 ≤ now → ((s₁.limiter.check now "k").1.allowed = true ↔ 100 ≤ now) := by
  have hrun : ((run step (System.initial (some 100) (some 2) 0) burst).bind fun s =>
      (step s ⟨"k", 20⟩).map fun s₁ => ((s.limiter.check 20 "k").1.allowed,
        (s.limiter.check 20 "k").1.resetTimeMs, s₁.clock)) = some (false, some 100, 20) := by
    decide +kernel
  obtain ⟨s, hs, h⟩ := Option.bind_eq_some_iff.mp hrun
  obtain ⟨s₁, hs₁, h⟩ := Option.map_eq_some_iff.mp h
  simp only [Prod.mk.injEq] at h
  obtain ⟨hrefused, hreset, hclock⟩ := h
  obtain ⟨resetTimeMs, hreset', -, hfree⟩ :=
    (sliding_window_exact (some 100) (some 2) 0 burst s hs).2.2 ⟨"k", 20⟩ s₁ hs₁ hrefused
  obtain rfl : (100 : ℚ) = resetTimeMs := Option.some.inj (hreset.symm.trans hreset')
  refine ⟨s, s₁, hs, hs₁, hrefused, fun now hnow => ?_⟩
  exact hfree [] s₁ now rfl trivial (hclock.le.trans hnow)

end RateLimiter

end LeaveLedger
