import LeaveLedger.Circuit.Machine
import Mathlib.Data.List.Nodup

/-!
# Circuit — Probes of a half-open circuit

The diagrams of the breaker have one probe request: the cooldown ends, one
call goes out, and its outcome closes the circuit or opens it again. `call`
has no such gate: it asks only whether the circuit is open, so every call
that is made while the probe is out goes out too, and a call from before the
opening that settles then decides in place of the probe.

`single_probe_iff` says that these two are all that goes wrong.
-/

namespace LeaveLedger

open Lib

namespace BreakerSystem

/-- The calls in flight that started after the circuit last opened. In a half-open
circuit these are the ones since the cooldown ended. -/
def probes (s : BreakerSystem) : List BreakerCall :=
  s.inFlight.filter fun c => c.openings = s.openings

/-- The half-open state has one probe at a time, and ends by its outcome or by
a reset, in the run `ls` from `s₀`. -/
def SingleProbe (cfg : BreakerConfig) (s₀ : BreakerSystem) (ls : List BreakerLabel) : Prop :=
  (∀ pre post s, ls = pre ++ post → run (step cfg) s₀ pre = some s →
    s.breaker.state = .halfOpen → s.probes.length ≤ 1)
  ∧ ∀ pre l post s s', ls = pre ++ l :: post → run (step cfg) s₀ pre = some s →
    step cfg s l = some s' → s.breaker.state = .halfOpen → s'.breaker.state ≠ .halfOpen →
    l = .reset ∨ ∃ c ∈ s.probes, ∃ outcome, l = .settle c.id outcome

/-- Nobody disturbs the probe: while the circuit is half-open no call with a
function is made, and no call from before the opening settles. -/
def Undisturbed (cfg : BreakerConfig) (s : BreakerSystem) : BreakerLabel → Prop
  | .call hasFunction => s.breaker.state = .halfOpen → (hasFunction || cfg.fn) = false
  | .settle id _ => s.breaker.state = .halfOpen →
      ∀ c ∈ s.inFlight, c.id = id → c.openings = s.openings
  | _ => True

instance (cfg : BreakerConfig) (s : BreakerSystem) :
    (l : BreakerLabel) → Decidable (Undisturbed cfg s l)
  | .tick _ => isTrue trivial
  | .call hasFunction =>
      inferInstanceAs (Decidable (s.breaker.state = .halfOpen → (hasFunction || cfg.fn) = false))
  | .settle id _ =>
      inferInstanceAs (Decidable (s.breaker.state = .halfOpen →
        ∀ c ∈ s.inFlight, c.id = id → c.openings = s.openings))
  | .reset => isTrue trivial

/-- What ids and openings of the calls in flight are at all times. -/
structure CallsInv (s : BreakerSystem) : Prop where
  fresh : ∀ c ∈ s.inFlight, c.id < s.invoked
  nodup : (s.inFlight.map (·.id)).Nodup
  openings : ∀ c ∈ s.inFlight, c.openings ≤ s.openings
  /-- an open circuit lets no call out -/
  opened : s.breaker.state = .opened → ∀ c ∈ s.inFlight, c.openings < s.openings

theorem callsInv_initial (t₀ : ℚ) : CallsInv (initial t₀) := by
  constructor <;> simp [initial]

theorem mem_letOut {s : BreakerSystem} {c : BreakerCall} :
    c ∈ s.letOut.inFlight ↔ c ∈ s.inFlight ∨ c = ⟨s.invoked, s.now, s.openings⟩ := by
  simp [letOut]

theorem mem_settled {s : BreakerSystem} {id : ℕ} {c : BreakerCall} :
    c ∈ (s.settled id).inFlight ↔ c ∈ s.inFlight ∧ c.id ≠ id := by
  simp [settled]

theorem find_some {s : BreakerSystem} {id : ℕ} {c : BreakerCall} (h : s.find id = some c) :
    c ∈ s.inFlight ∧ c.id = id := by
  unfold find at h
  exact ⟨List.mem_of_find?_eq_some h, by simpa using List.find?_some h⟩

theorem le_update_openings (s : BreakerSystem) (b : CircuitBreaker) :
    s.openings ≤ (s.update b).openings := by
  unfold update
  dsimp only
  split_ifs <;> omega

theorem update_openings_of_ne {s : BreakerSystem} {b : CircuitBreaker} (h : b.state ≠ .opened) :
    (s.update b).openings = s.openings := by
  unfold update
  simp [h]

theorem CallsInv.letOut {s : BreakerSystem} (h : CallsInv s) (hstate : s.breaker.state ≠ .opened) :
    CallsInv s.letOut where
  fresh := by
    intro c hc
    rcases mem_letOut.mp hc with hc | rfl
    · exact Nat.lt_succ_of_lt (h.fresh c hc)
    · exact Nat.lt_succ_self _
  nodup := by
    simp only [BreakerSystem.letOut, List.map_append, List.map_cons, List.map_nil]
    refine List.nodup_append.mpr ⟨h.nodup, by simp, ?_⟩
    intro a ha b hb
    obtain ⟨c, hc, rfl⟩ := List.mem_map.mp ha
    rw [List.mem_singleton] at hb
    rw [hb]
    exact (h.fresh c hc).ne
  openings := by
    intro c hc
    rcases mem_letOut.mp hc with hc | rfl
    · exact h.openings c hc
    · exact le_refl _
  opened := fun hopen => absurd hopen hstate

theorem CallsInv.settled {s : BreakerSystem} (h : CallsInv s) (id : ℕ) :
    CallsInv (s.settled id) where
  fresh := fun c hc => h.fresh c (mem_settled.mp hc).1
  nodup := h.nodup.sublist (List.filter_sublist.map _)
  openings := fun c hc => h.openings c (mem_settled.mp hc).1
  opened := fun hopen c hc => h.opened hopen c (mem_settled.mp hc).1

theorem CallsInv.update {s : BreakerSystem} (h : CallsInv s) (b : CircuitBreaker) :
    CallsInv (s.update b) where
  fresh := h.fresh
  nodup := h.nodup
  openings := fun c hc => le_trans (h.openings c hc) (le_update_openings s b)
  opened := by
    intro hb c hc
    by_cases hs : s.breaker.state = .opened
    · exact lt_of_lt_of_le (h.opened hs c hc) (le_update_openings s b)
    · -- this is an opening
      have hnew : (s.update b).openings = s.openings + 1 := by
        have hcond : s.breaker.state ≠ .opened ∧ b.state = .opened := ⟨hs, hb⟩
        simp [BreakerSystem.update, hcond]
      rw [hnew]
      exact Nat.lt_succ_of_le (h.openings c hc)

variable {cfg : BreakerConfig}

theorem CallsInv.step {s s' : BreakerSystem} {l : BreakerLabel} (h : CallsInv s)
    (hstep : BreakerSystem.step cfg s l = some s') : CallsInv s' := by
  cases step_cases hstep with
  | tick => exact ⟨h.fresh, h.nodup, h.openings, h.opened⟩
  | answered => exact h
  | admitted hcall hstate => exact h.letOut hstate
  | probed => exact (h.update _).letOut (by simp)
  | settled => exact (h.settled _).update _
  | reset => exact h.update _

/-- A half-open circuit waits for a probe. -/
def Probing (s : BreakerSystem) : Prop := s.breaker.state = .halfOpen → s.probes ≠ []

theorem probes_letOut (s : BreakerSystem) :
    s.letOut.probes = s.probes ++ [⟨s.invoked, s.now, s.openings⟩] := by
  show (s.inFlight ++ [_]).filter (fun c : BreakerCall => c.openings = s.openings) = _
  rw [List.filter_append]
  congr 1
  simp

theorem Probing.step {s s' : BreakerSystem} {l : BreakerLabel} (h : Probing s)
    (hstep : BreakerSystem.step cfg s l = some s') : Probing s' := by
  intro hhalf
  cases step_cases hstep with
  | tick => exact h hhalf
  | answered => exact h hhalf
  | admitted => rw [probes_letOut]; simp
  | probed => rw [probes_letOut]; simp
  | settled => exact absurd hhalf CircuitBreaker.settle_state_ne_halfOpen
  | reset => cases hhalf

/-- An undisturbed circuit has at most one probe. -/
def OneProbe (s : BreakerSystem) : Prop := s.breaker.state = .halfOpen → s.probes.length ≤ 1

theorem OneProbe.step {s s' : BreakerSystem} {l : BreakerLabel} (h : OneProbe s)
    (hinv : CallsInv s) (hu : Undisturbed cfg s l)
    (hstep : BreakerSystem.step cfg s l = some s') : OneProbe s' := by
  intro hhalf
  cases step_cases hstep with
  | tick => exact h hhalf
  | answered => exact h hhalf
  | @admitted hasFunction hcall =>
      have hfn : (hasFunction || cfg.fn) = false := hu hhalf
      rw [Bool.or_eq_false_iff] at hfn
      rw [CircuitBreaker.call, hfn.1, hfn.2] at hcall
      cases hcall
  | probed hcall hstate =>
      -- the calls in flight are all from before the opening
      have hnone : (s.update { s.breaker with state := .halfOpen }).probes = [] := by
        unfold probes
        rw [update_openings_of_ne (by simp), List.filter_eq_nil_iff]
        intro c hc
        simpa using (hinv.opened hstate c hc).ne
      rw [probes_letOut, hnone]
      simp
  | settled => exact absurd hhalf CircuitBreaker.settle_state_ne_halfOpen
  | reset => cases hhalf

/-- A call that is made with a function while the circuit is half-open goes out
beside the probe. -/
theorem step_second_probe {s : BreakerSystem} {hasFunction : Bool} (h : Probing s)
    (hhalf : s.breaker.state = .halfOpen) (hfn : (hasFunction || cfg.fn) = true) :
    step cfg s (.call hasFunction) = some s.letOut ∧ 1 < s.letOut.probes.length := by
  constructor
  · have hcall : s.breaker.call cfg s.now hasFunction = (.invoke, s.breaker) := by
      unfold CircuitBreaker.call
      rw [if_neg (by cases hasFunction <;> simp_all), if_neg (by rw [hhalf]; simp)]
    simp only [step, hcall, update_self]
  · rw [probes_letOut, List.length_append, List.length_singleton]
    have := List.length_pos_iff.mpr (h hhalf)
    omega

section single
variable {cfg : BreakerConfig} {t₀ : ℚ} {ls : List BreakerLabel} {s : BreakerSystem}

theorem reached_inv (h : run (step cfg) (initial t₀) ls = some s) : CallsInv s ∧ Probing s :=
  run_induct (I := fun s => CallsInv s ∧ Probing s)
    (fun _ _ _ hi hs => ⟨hi.1.step hs, hi.2.step hs⟩)
    ⟨callsInv_initial t₀, fun hhalf => by cases hhalf⟩ h

theorem oneProbe_of_undisturbed (hmeets : Meets (step cfg) (Undisturbed cfg) (initial t₀) ls)
    (h : run (step cfg) (initial t₀) ls = some s) : OneProbe s :=
  (run_meets (I := fun s => CallsInv s ∧ OneProbe s)
    (fun _ _ _ hi hu hs => ⟨hi.1.step hs, hi.2.step hi.1 hu hs⟩)
    ⟨callsInv_initial t₀, fun hhalf => by cases hhalf⟩ hmeets h).2

/-- Where there is one probe at a time nobody disturbs it. -/
theorem undisturbed_of_singleProbe (hrun : run (step cfg) (initial t₀) ls = some s)
    (hsingle : SingleProbe cfg (initial t₀) ls) :
    Meets (step cfg) (Undisturbed cfg) (initial t₀) ls := by
  obtain ⟨hone, hends⟩ := hsingle
  rw [meets_iff]
  rintro pre l post s' rfl hpre
  obtain ⟨s₁, h₁, h₂⟩ := run_append_some hrun
  rw [hpre] at h₁
  cases h₁
  obtain ⟨s'', hstep, -⟩ := run_cons_some h₂
  obtain ⟨hcalls, hprobing⟩ := reached_inv hpre
  cases l with
  | tick t => trivial
  | reset => trivial
  | call hasFunction =>
      intro hhalf
      by_contra hfn
      rw [Bool.not_eq_false] at hfn
      obtain ⟨hout, htwo⟩ := step_second_probe hprobing hhalf hfn
      have hreach : run (step cfg) (initial t₀) (pre ++ [.call hasFunction]) = some s'.letOut := by
        rw [run_append, hpre, Option.bind_some, run_cons, hout]
        rfl
      have := hone (pre ++ [.call hasFunction]) post s'.letOut (by simp) hreach hhalf
      omega
  | settle id outcome =>
      intro hhalf c hc hid
      have hleft : s''.breaker.state ≠ .halfOpen := by
        cases step_cases hstep with
        | settled => exact CircuitBreaker.settle_state_ne_halfOpen
      rcases hends pre _ post s' s'' rfl hpre hstep hhalf hleft with hl | ⟨c', hc', o, hl⟩
      · cases hl
      · -- ids are unique, so the call that settles is the probe
        have hid' : c'.id = id := by cases hl; rfl
        have hmem := List.mem_filter.mp hc'
        have hsame : c = c' :=
          List.inj_on_of_nodup_map hcalls.nodup hc hmem.1 (hid.trans hid'.symm)
        rw [hsame]
        simpa using hmem.2

theorem singleProbe_of_undisturbed
    (hmeets : Meets (step cfg) (Undisturbed cfg) (initial t₀) ls) :
    SingleProbe cfg (initial t₀) ls := by
  constructor
  · rintro pre post s' rfl hpre
    exact oneProbe_of_undisturbed ((meets_append hpre).mp hmeets).1 hpre
  · rintro pre l post s' s'' rfl hpre hstep hhalf hleft
    have hu := ((meets_append hpre).mp hmeets).2.1
    cases step_cases hstep with
    | tick => exact absurd hhalf hleft
    | answered => exact absurd hhalf hleft
    | admitted => exact absurd hhalf hleft
    | probed => exact absurd rfl hleft
    | @settled c outcome hc =>
        obtain ⟨hmem, -⟩ := find_some hc
        refine Or.inr ⟨c, List.mem_filter.mpr ⟨hmem, ?_⟩, outcome, rfl⟩
        simpa using hu hhalf c hmem rfl
    | reset => exact Or.inl rfl

end single

/-- **The single probe**: in every run there is one probe at a time, whose outcome
ends the half-open state, exactly when nobody disturbs a probe. -/
theorem single_probe_iff (cfg : BreakerConfig) (t₀ : ℚ) (ls : List BreakerLabel)
    (s : BreakerSystem) (hrun : run (step cfg) (initial t₀) ls = some s) :
    SingleProbe cfg (initial t₀) ls ↔ Meets (step cfg) (Undisturbed cfg) (initial t₀) ls :=
  ⟨undisturbed_of_singleProbe hrun, singleProbe_of_undisturbed⟩

/-- Calls at the end of the cooldown and after it: both are out at once. -/
def secondProbe : List BreakerLabel :=
  [.call true, .call true, .settle 0 .failure, .settle 1 .failure, .tick 30000, .call true,
    .call true]

/-- A call from before the opening succeeds late and closes the circuit while the
probe is out. -/
def lateSuccess : List BreakerLabel :=
  [.call true, .call true, .call true, .settle 0 .failure, .settle 1 .failure, .tick 30000,
    .call true, .settle 2 .success]

/-- Two probes in flight, and a circuit that an old call closes. -/
theorem probe_not_single :
    (∃ s, run (step sampleConfig) (initial 0) secondProbe = some s
      ∧ ¬ SingleProbe sampleConfig (initial 0) secondProbe)
    ∧ ∃ s, run (step sampleConfig) (initial 0) lateSuccess = some s
      ∧ ¬ SingleProbe sampleConfig (initial 0) lateSuccess := by
  constructor
  · have h : (run (step sampleConfig) (initial 0) secondProbe).map
        (fun s => (s.breaker.state, s.probes.length)) = some (.halfOpen, 2) := by
      decide +kernel
    obtain ⟨s, hs, heq⟩ := Option.map_eq_some_iff.mp h
    obtain ⟨hhalf, htwo⟩ := Prod.mk.inj heq
    refine ⟨s, hs, fun hsingle => ?_⟩
    have hone := hsingle.1 secondProbe [] s (by simp) hs hhalf
    omega
  · have h : ((run (step sampleConfig) (initial 0) (lateSuccess.take 7)).bind fun s =>
        (step sampleConfig s (.settle 2 .success)).map fun s' =>
          (s.breaker.state, s'.breaker.state, s.probes.map (·.id)))
        = some (.halfOpen, .closed, [3]) := by
      decide +kernel
    simp only [Option.bind_eq_some_iff, Option.map_eq_some_iff, Prod.mk.injEq] at h
    obtain ⟨s, hs, s', hstep, hhalf, hclosed, hprobes⟩ := h
    have hrun : run (step sampleConfig) (initial 0) lateSuccess = some s' := by
      show run _ _ (lateSuccess.take 7 ++ [_]) = _
      rw [run_append, hs, Option.bind_some, run_cons, hstep]
      rfl
    refine ⟨s', hrun, fun hsingle => ?_⟩
    rcases hsingle.2 (lateSuccess.take 7) _ [] s s' rfl hs hstep hhalf (by rw [hclosed]; decide)
      with hl | ⟨c, hc, outcome, hl⟩
    · cases hl
    · have hid : c.id ∈ s.probes.map (·.id) := List.mem_map_of_mem hc
      rw [hprobes, List.mem_singleton] at hid
      have := (BreakerLabel.settle.inj hl).1
      omega

/-- A probe nobody disturbs. -/
theorem single_probe_alone : ∃ s,
    run (step sampleConfig) (initial 0) (secondProbe.take 6) = some s
    ∧ SingleProbe sampleConfig (initial 0) (secondProbe.take 6) := by
  have h : (run (step sampleConfig) (initial 0) (secondProbe.take 6)).map
      (fun s => s.invoked) = some 3 := by
    decide +kernel
  obtain ⟨s, hs, -⟩ := Option.map_eq_some_iff.mp h
  refine ⟨s, hs, (single_probe_iff sampleConfig 0 _ s hs).mpr ?_⟩
  decide +kernel

end BreakerSystem
end LeaveLedger
