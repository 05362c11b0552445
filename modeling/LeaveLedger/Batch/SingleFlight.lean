import LeaveLedger.Hcm.BatchSync
import LeaveLedger.Lib.Machine
import LeaveLedger.Store.Statement

/-!
# Batch — One run at a time

Runs of the batch sync take turns, one answer at a time, and every answer
of a repository and of HCM is arbitrary, an error included. The cron job
calls `runBatchSync` at any time, `triggerManualBatchSync` when no run is in
progress, in a later turn of the event loop.

No two runs are ever in progress together. That the lock is free again
after a run depends on one await: the sync log is saved before the `try`
block, so when this fails nothing sets `_batchRunning` back.
-/

namespace LeaveLedger

open Js Lib

/-- A call of `runBatchSync`, and whether it has passed the guard. -/
structure BatchRun where
  entered : Bool
  script : Script BatchSig Exception Unit

/-- Between its start and its end. -/
def BatchRun.inProgress (t : BatchRun) : Bool := t.entered && !t.script.isOver

structure BatchOffice where
  batchRunning : Bool
  runs : List BatchRun
  /-- how many `setImmediate` callbacks wait for their turn -/
  deferred : ℕ

def BatchOffice.initial : BatchOffice := ⟨false, [], 0⟩

/-- What the repositories and HCM answer. -/
abbrev BatchAnswers := (o : BatchOp) → BatchSig.Res o

inductive FlightLabel where
  /-- the cron job calls `runBatchSync` -/
  | cron
  /-- `triggerManualBatchSync` -/
  | trigger
  /-- the turn of a deferred callback -/
  | turn
  /-- run `i` gets the answer it awaits -/
  | answer (i : ℕ) (r : BatchAnswers)

def BatchOffice.call (s : BatchOffice) : BatchOffice :=
  { s with runs := s.runs ++ [⟨false, runBatchSync⟩] }

def flightStep (s : BatchOffice) : FlightLabel → Option BatchOffice
  | .cron => some s.call
  | .trigger =>
      -- while a run is in progress this throws 'Batch sync already in progress'
      if s.batchRunning then some s else some { s with deferred := s.deferred + 1 }
  | .turn =>
      match s.deferred with
      | 0 => none
      | n + 1 => some { s.call with deferred := n }
  | .answer i r =>
      match s.runs[i]? with
      | some ⟨_, .await .startRun k⟩ =>
          some { s with
            batchRunning := true
            runs := s.runs.set i ⟨!s.batchRunning, k !s.batchRunning⟩ }
      | some ⟨entered, .await .endRun k⟩ =>
          some { s with batchRunning := false, runs := s.runs.set i ⟨entered, k ()⟩ }
      | some ⟨entered, .await o k⟩ => some { s with runs := s.runs.set i ⟨entered, k (r o)⟩ }
      | _ => none

/-- At most one run is in progress, and with none in progress the lock is free. -/
def OneAtATime (s : BatchOffice) : Prop :=
  (∀ (i j : ℕ) t u, s.runs[i]? = some t → s.runs[j]? = some u → t.inProgress → u.inProgress →
    i = j)
  ∧ ((∀ t ∈ s.runs, ¬ t.inProgress) → s.batchRunning = false)

/-- So it is in every state of the run `ls`. -/
def SingleFlight (ls : List FlightLabel) : Prop :=
  ∀ pre post s, ls = pre ++ post → run flightStep .initial pre = some s → OneAtATime s

/-- When the awaited answer is that of the save of the sync log, it is no error. -/
def SavesSyncLog (s : BatchOffice) : FlightLabel → Prop
  | .answer i r =>
      match s.runs[i]? with
      | some ⟨_, .await (.saveSyncLog log) _⟩ => ∃ id, r (.saveSyncLog log) = .ok id
      | _ => True
  | _ => True

/-! ## The shape of a run -/

/-- Not one of the three operations that the lock is about. -/
def Plain : BatchOp → Prop
  | .startRun | .endRun | .saveSyncLog _ => False
  | _ => True

/-- Past the guard: nothing follows the release, and nothing a failed save. -/
def Locked : (o : BatchOp) → (BatchSig.Res o → Script BatchSig Exception Unit) → Prop
  | .startRun, _ => False
  | .endRun, k => ∀ r, (k r).isOver = true
  | .saveSyncLog _, k => ∀ e, (k (.error e)).isOver = true
  | _, _ => True

/-- The save of the sync log works. -/
def SaveWorks : (o : BatchOp) → BatchSig.Res o → Prop
  | .saveSyncLog _, r => ∃ id, r = .ok id
  | _, _ => True

/-- As long as the save works, the run releases the lock before it ends. -/
def Releases (p : Script BatchSig Exception Unit) : Prop :=
  p.Eventually SaveWorks (fun o => o = BatchOp.endRun) (fun _ => False) (fun _ => False)

theorem ofSvc_asks {ε α : Type} (p : Script SvcSig ε α) : (ofSvc p).Asks Plain := by
  induction p with
  | done a => trivial
  | fail e => trivial
  | await o k ih => exact ⟨trivial, ih⟩

theorem complete_asks (id : Id) (totals : BatchTotals) (status : SyncLogStatus)
    (details : Option (List BatchError)) :
    (Batch.complete id totals status details).Asks Plain :=
  Script.asks_bind (ofSvc_asks _) fun _ => ⟨trivial, fun r => asks_orThrow r⟩

theorem orFault_asks {S : Sig} {α : Type} {P : S.Op → Prop} {totals : BatchTotals}
    {p : Script S Exception α} (hp : p.Asks P) : (orFault totals p).Asks P :=
  Script.asks_handle hp fun _ => trivial

theorem tryBlock_asks (id : Id) : (Batch.tryBlock id).Asks Plain := by
  refine Script.asks_bind (orFault_asks ⟨trivial, fun r => asks_orThrow r⟩) fun hcmBalances => ?_
  cases hcmBalances with
  | none => trivial
  | some hcmBalances =>
      exact Script.asks_bind (ofSvc_asks _) fun _ => orFault_asks (complete_asks _ _ _ _)

/-- What `runBatchSync` does once it has passed the guard. -/
def lockedRun : Script BatchSig Exception Unit := do
  let now ← ofSvc Svc.now
  let id ← Batch.saveSyncLog {
    syncType := .batch, status := .started, startedAt := now
    recordsProcessed := 0, recordsUpdated := 0, recordsFailed := 0 }
  ((Batch.tryBlock id).handle (Batch.catchBlock id)).ensure Batch.endRun

theorem runBatchSync_eq : runBatchSync = .await (S := BatchSig) BatchOp.startRun fun started =>
    if started then lockedRun else .done () := rfl

theorem lockedRun_locked : lockedRun.Always Locked := by
  refine ⟨trivial, fun now => ⟨fun e => rfl, fun saved => ?_⟩⟩
  cases saved with
  | error e => trivial
  | ok id =>
      have hbody : ((Batch.tryBlock id).handle (Batch.catchBlock id)).Asks Plain :=
        Script.asks_handle (tryBlock_asks id) fun _ => complete_asks _ _ _ _
      refine Script.always_ensure (P := fun (o : BatchSig.Op) _ => Plain o) ?_ hbody ?_ ?_
      · intro o k ho
        cases o <;> trivial
      · exact fun _ => ⟨fun _ => rfl, fun _ => trivial⟩
      · exact fun _ => ⟨fun _ => rfl, fun _ => trivial⟩

theorem lockedRun_releases : Releases lockedRun := by
  refine Or.inr fun now _ => Or.inr fun saved hsaved => ?_
  obtain ⟨id, rfl⟩ := hsaved
  exact Script.eventually_ensure (Or.inl rfl)

/-! ## The lock -/

/-- What holds of the runs and the lock whatever is answered. -/
structure FlightInv (s : BatchOffice) : Prop where
  outside : ∀ t ∈ s.runs, t.entered = false → t.script = runBatchSync ∨ t.script = .done ()
  inside : ∀ t ∈ s.runs, t.entered = true → t.script.Always Locked
  lock : ∀ t ∈ s.runs, t.inProgress → s.batchRunning = true
  one : ∀ (i j : ℕ) t u, s.runs[i]? = some t → s.runs[j]? = some u → t.inProgress →
    u.inProgress → i = j

theorem flightInv_initial : FlightInv .initial := by
  constructor <;> simp [BatchOffice.initial]

theorem not_inProgress_new : ¬ (⟨false, runBatchSync⟩ : BatchRun).inProgress := by
  simp [BatchRun.inProgress]

theorem call_getElem {s : BatchOffice} {i : ℕ} {t : BatchRun} (h : s.call.runs[i]? = some t) :
    s.runs[i]? = some t ∨ t = ⟨false, runBatchSync⟩ :=
  (getElem?_concat_cases h).imp id And.right

theorem FlightInv.call {s : BatchOffice} (h : FlightInv s) : FlightInv s.call where
  outside := by
    intro t ht he
    rcases List.mem_append.mp ht with ht | ht
    · exact h.outside t ht he
    · rw [List.mem_singleton.mp ht]
      exact Or.inl rfl
  inside := by
    intro t ht he
    rcases List.mem_append.mp ht with ht | ht
    · exact h.inside t ht he
    · rw [List.mem_singleton.mp ht] at he
      cases he
  lock := by
    intro t ht hp
    rcases List.mem_append.mp ht with ht | ht
    · exact h.lock t ht hp
    · rw [List.mem_singleton.mp ht] at hp
      exact absurd hp not_inProgress_new
  one := by
    intro i j t u ht hu hpt hpu
    rcases call_getElem ht with ht | rfl
    · rcases call_getElem hu with hu | rfl
      · exact h.one i j t u ht hu hpt hpu
      · exact absurd hpu not_inProgress_new
    · exact absurd hpt not_inProgress_new

/-- What an answer does to its run. -/
inductive AnswerCase (s : BatchOffice) (r : BatchAnswers) : BatchRun → Bool → BatchRun → Prop
  | enter {entered : Bool} {k : Bool → Script BatchSig Exception Unit} :
      AnswerCase s r ⟨entered, .await (S := BatchSig) BatchOp.startRun k⟩ true
        ⟨!s.batchRunning, k !s.batchRunning⟩
  | leave {entered : Bool} {k : Unit → Script BatchSig Exception Unit} :
      AnswerCase s r ⟨entered, .await (S := BatchSig) BatchOp.endRun k⟩ false ⟨entered, k ()⟩
  | goOn {entered : Bool} {o : BatchOp} {k : BatchSig.Res o → Script BatchSig Exception Unit}
      (hstart : o ≠ .startRun) (hend : o ≠ .endRun) :
      AnswerCase s r ⟨entered, .await (S := BatchSig) o k⟩ s.batchRunning ⟨entered, k (r o)⟩

inductive FlightCase (s : BatchOffice) : FlightLabel → BatchOffice → Prop
  | cron : FlightCase s .cron s.call
  | refused : FlightCase s .trigger s
  | deferred : FlightCase s .trigger { s with deferred := s.deferred + 1 }
  | turn {n : ℕ} : FlightCase s .turn { s.call with deferred := n }
  | answer {i : ℕ} {r : BatchAnswers} {t t' : BatchRun} {running : Bool}
      (ht : s.runs[i]? = some t) (hanswer : AnswerCase s r t running t') :
      FlightCase s (.answer i r) ⟨running, s.runs.set i t', s.deferred⟩

theorem flight_cases {s s' : BatchOffice} {l : FlightLabel} (h : flightStep s l = some s') :
    FlightCase s l s' := by
  cases l with
  | cron => cases h; exact .cron
  | trigger =>
      simp only [flightStep] at h
      split at h
      · cases h; exact .refused
      · cases h; exact .deferred
  | turn =>
      simp only [flightStep] at h
      split at h
      · cases h
      · cases h; exact .turn
  | answer i r =>
      simp only [flightStep] at h
      cases ht : s.runs[i]? with
      | none => rw [ht] at h; cases h
      | some t =>
          obtain ⟨entered, script⟩ := t
          rw [ht] at h
          cases script with
          | done a => cases h
          | fail e => cases h
          | await o k =>
              cases o with
              | startRun => cases h; exact .answer ht .enter
              | endRun => cases h; exact .answer ht .leave
              | svc o => cases h; exact .answer ht (.goOn (by simp) (by simp))
              | saveSyncLog log => cases h; exact .answer ht (.goOn (by simp) (by simp))
              | updateSyncLog id p => cases h; exact .answer ht (.goOn (by simp) (by simp))
              | getBatchBalances => cases h; exact .answer ht (.goOn (by simp) (by simp))

theorem inProgress_iff {t : BatchRun} :
    t.inProgress = true ↔ t.entered = true ∧ t.script.isOver = false := by
  simp [BatchRun.inProgress]

/-- A run that has not entered awaits the guard. -/
theorem FlightInv.not_entered {s : BatchOffice} (h : FlightInv s) {entered : Bool} {o : BatchOp}
    {k : BatchSig.Res o → Script BatchSig Exception Unit}
    (ht : (⟨entered, .await (S := BatchSig) o k⟩ : BatchRun) ∈ s.runs) (ho : o ≠ .startRun) :
    entered = true := by
  by_contra he
  rcases h.outside _ ht (by simpa using he) with hs | hs
  · rw [runBatchSync_eq] at hs
    exact ho (Script.await.inj hs).1
  · cases hs

/-- What an answer makes of a run that goes on in the lock, or enters it. -/
theorem AnswerCase.inside {s : BatchOffice} (h : FlightInv s) {r : BatchAnswers}
    {t t' : BatchRun} {running : Bool} (ht : t ∈ s.runs) (ha : AnswerCase s r t running t') :
    (t'.entered = false → t'.script = runBatchSync ∨ t'.script = .done ())
    ∧ (t'.entered = true → t'.script.Always Locked) := by
  cases ha with
  | @enter entered k =>
      have he : entered = false := by
        by_contra he
        exact (h.inside _ ht (by simpa using he)).1
      rcases h.outside _ ht he with hs | hs
      · rw [runBatchSync_eq] at hs
        obtain ⟨-, hk⟩ := Script.await.inj hs
        cases eq_of_heq hk
        refine ⟨fun hent => Or.inr ?_, fun hent => ?_⟩
        · dsimp only at hent ⊢
          rw [hent]
          rfl
        · dsimp only at hent ⊢
          rw [hent]
          exact lockedRun_locked
      · cases hs
  | leave =>
      have he := h.not_entered ht (by simp)
      exact ⟨fun hent => (by rw [he] at hent; cases hent),
        fun _ => (h.inside _ ht he).2 ()⟩
  | goOn hstart =>
      have he := h.not_entered ht hstart
      exact ⟨fun hent => (by rw [he] at hent; cases hent),
        fun _ => (h.inside _ ht he).2 _⟩

/-- The lock after an answer: a run in progress holds it, and holds it alone. -/
theorem AnswerCase.lock {s : BatchOffice} (h : FlightInv s) {r : BatchAnswers} {i : ℕ}
    {t t' : BatchRun} {running : Bool} (ht : s.runs[i]? = some t)
    (ha : AnswerCase s r t running t') :
    (t'.inProgress → running = true)
    ∧ ∀ (j : ℕ) u, j ≠ i → s.runs[j]? = some u → u.inProgress →
      running = true ∧ ¬ t'.inProgress := by
  have hmem := List.mem_of_getElem? ht
  cases ha with
  | enter =>
      refine ⟨fun _ => rfl, fun j u _ hu hp => ⟨rfl, ?_⟩⟩
      -- with a run in progress the guard turns this one away
      rw [h.lock u (List.mem_of_getElem? hu) hp]
      simp [BatchRun.inProgress]
  | @leave entered k =>
      have he := h.not_entered hmem (by simp)
      have hover : (k ()).isOver = true := (h.inside _ hmem he).1 ()
      constructor
      · intro hp
        rw [inProgress_iff] at hp
        rw [hover] at hp
        cases hp.2
      · intro j u hne hu hp
        refine absurd (h.one j i u _ hu ht hp ?_) hne
        rw [inProgress_iff]
        exact ⟨he, rfl⟩
  | @goOn entered o k hstart =>
      have he := h.not_entered hmem hstart
      have hp₀ : (⟨entered, .await (S := BatchSig) o k⟩ : BatchRun).inProgress :=
        inProgress_iff.mpr ⟨he, rfl⟩
      refine ⟨fun _ => h.lock _ hmem hp₀, fun j u hne hu hp => ?_⟩
      exact absurd (h.one j i u _ hu ht hp hp₀) hne

theorem set_run {s : BatchOffice} {i j : ℕ} {t t' u : BatchRun} (ht : s.runs[i]? = some t)
    (h : (s.runs.set i t')[j]? = some u) : j = i ∧ u = t' ∨ j ≠ i ∧ s.runs[j]? = some u :=
  getElem?_set_cases (List.getElem?_eq_some_iff.mp ht).1 h

theorem FlightInv.step {s s' : BatchOffice} {l : FlightLabel} (h : FlightInv s)
    (hstep : flightStep s l = some s') : FlightInv s' := by
  cases flight_cases hstep with
  | cron => exact h.call
  | refused => exact h
  | deferred => exact ⟨h.outside, h.inside, h.lock, h.one⟩
  | turn => exact ⟨h.call.outside, h.call.inside, h.call.lock, h.call.one⟩
  | @answer i r t t' running ht ha =>
      have hmem := List.mem_of_getElem? ht
      have hin := ha.inside h hmem
      have hlock := ha.lock h ht
      constructor
      · intro u hu he
        rcases List.mem_or_eq_of_mem_set hu with hu | rfl
        · exact h.outside u hu he
        · exact hin.1 he
      · intro u hu he
        rcases List.mem_or_eq_of_mem_set hu with hu | rfl
        · exact h.inside u hu he
        · exact hin.2 he
      · intro u hu hp
        obtain ⟨j, hj⟩ := List.mem_iff_getElem?.mp hu
        rcases set_run ht hj with ⟨-, rfl⟩ | ⟨hne, hj⟩
        · exact hlock.1 hp
        · exact (hlock.2 j u hne hj hp).1
      · intro j₁ j₂ u₁ u₂ h₁ h₂ hp₁ hp₂
        rcases set_run ht h₁ with ⟨hj₁, hu₁⟩ | ⟨hne₁, hold₁⟩
        · rcases set_run ht h₂ with ⟨hj₂, -⟩ | ⟨hne₂, hold₂⟩
          · rw [hj₁, hj₂]
          · rw [hu₁] at hp₁
            exact absurd hp₁ (hlock.2 j₂ u₂ hne₂ hold₂ hp₂).2
        · rcases set_run ht h₂ with ⟨-, hu₂⟩ | ⟨-, hold₂⟩
          · rw [hu₂] at hp₂
            exact absurd hp₂ (hlock.2 j₁ u₁ hne₁ hold₁ hp₁).2
          · exact h.one j₁ j₂ u₁ u₂ hold₁ hold₂ hp₁ hp₂

theorem flightInv_run {ls : List FlightLabel} {s : BatchOffice}
    (hrun : run flightStep .initial ls = some s) : FlightInv s :=
  run_induct (fun _ _ _ h hstep => h.step hstep) flightInv_initial hrun

/-! ## The lock is given back -/

/-- What holds besides as long as every save of a sync log works. -/
structure Restartable (s : BatchOffice) : Prop where
  inv : FlightInv s
  releases : ∀ t ∈ s.runs, t.inProgress → Releases t.script
  held : s.batchRunning = true → ∃ (i : ℕ) (t : BatchRun), s.runs[i]? = some t ∧ t.inProgress

theorem restartable_initial : Restartable .initial where
  inv := flightInv_initial
  releases := by simp [BatchOffice.initial]
  held := by simp [BatchOffice.initial]

theorem Releases.not_over {p : Script BatchSig Exception Unit} (h : Releases p) :
    p.isOver = false := by
  cases p with
  | done a => exact h.elim
  | fail e => exact h.elim
  | await o k => rfl

theorem Restartable.call {s : BatchOffice} (h : Restartable s) : Restartable s.call where
  inv := h.inv.call
  releases := by
    intro t ht hp
    rcases List.mem_append.mp ht with ht | ht
    · exact h.releases t ht hp
    · rw [List.mem_singleton.mp ht] at hp
      exact absurd hp not_inProgress_new
  held := by
    intro hrunning
    obtain ⟨i, t, ht, hp⟩ := h.held hrunning
    refine ⟨i, t, ?_, hp⟩
    rw [BatchOffice.call, List.getElem?_append_left (List.getElem?_eq_some_iff.mp ht).1]
    exact ht

/-- What `SavesSyncLog` says of the operation that a run awaits. -/
theorem SavesSyncLog.works {s : BatchOffice} {i : ℕ} {r : BatchAnswers} {entered : Bool}
    {o : BatchOp} {k : BatchSig.Res o → Script BatchSig Exception Unit}
    (h : SavesSyncLog s (.answer i r))
    (ht : s.runs[i]? = some ⟨entered, .await (S := BatchSig) o k⟩) : SaveWorks o (r o) := by
  cases o with
  | saveSyncLog log =>
      simp only [SavesSyncLog, ht] at h
      exact h
  | svc o => trivial
  | startRun => trivial
  | endRun => trivial
  | updateSyncLog id p => trivial
  | getBatchBalances => trivial

/-- After an answer the run is in the lock and will give it back, or the lock is free,
or another run holds it. -/
theorem AnswerCase.restarts {s : BatchOffice} (h : Restartable s) {r : BatchAnswers} {i : ℕ}
    {t t' : BatchRun} {running : Bool} (ht : s.runs[i]? = some t)
    (hsaves : SavesSyncLog s (.answer i r)) (ha : AnswerCase s r t running t') :
    (t'.inProgress → Releases t'.script)
    ∧ (running = true → t'.inProgress
        ∨ ∃ (j : ℕ) (u : BatchRun), j ≠ i ∧ s.runs[j]? = some u ∧ u.inProgress) := by
  have hmem := List.mem_of_getElem? ht
  cases ha with
  | @enter entered k =>
      have he : entered = false := by
        by_contra he
        exact (h.inv.inside _ hmem (by simpa using he)).1
      rcases h.inv.outside _ hmem he with hs | hs
      · rw [runBatchSync_eq] at hs
        obtain ⟨-, hk⟩ := Script.await.inj hs
        cases eq_of_heq hk
        cases hrunning : s.batchRunning with
        | false =>
            refine ⟨fun _ => lockedRun_releases, fun _ => Or.inl ?_⟩
            exact inProgress_iff.mpr ⟨rfl, lockedRun_releases.not_over⟩
        | true =>
            obtain ⟨j, u, hu, hp⟩ := h.held hrunning
            constructor
            · intro hp'
              cases (inProgress_iff.mp hp').1
            · intro _
              refine Or.inr ⟨j, u, ?_, hu, hp⟩
              rintro rfl
              rw [ht] at hu
              cases hu
              rw [he] at hp
              cases (inProgress_iff.mp hp).1
      · cases hs
  | @leave entered k =>
      have he := h.inv.not_entered hmem (by simp)
      have hover : (k ()).isOver = true := (h.inv.inside _ hmem he).1 ()
      constructor
      · intro hp
        have hp := (inProgress_iff.mp hp).2
        rw [hover] at hp
        cases hp
      · intro hrunning
        cases hrunning
  | @goOn entered o k hstart hend =>
      have he := h.inv.not_entered hmem hstart
      have hrel : Releases (.await (S := BatchSig) o k) :=
        h.releases _ hmem (inProgress_iff.mpr ⟨he, rfl⟩)
      have hrel' : Releases (k (r o)) := hrel.after hend (hsaves.works ht)
      refine ⟨fun _ => hrel', fun _ => Or.inl ?_⟩
      exact inProgress_iff.mpr ⟨he, hrel'.not_over⟩

theorem Restartable.step {s s' : BatchOffice} {l : FlightLabel} (h : Restartable s)
    (hsaves : SavesSyncLog s l) (hstep : flightStep s l = some s') : Restartable s' := by
  have hinv := h.inv.step hstep
  cases flight_cases hstep with
  | cron => exact h.call
  | refused => exact h
  | deferred => exact ⟨hinv, h.releases, h.held⟩
  | turn => exact ⟨hinv, h.call.releases, h.call.held⟩
  | @answer i r t t' running ht ha =>
      have hi := (List.getElem?_eq_some_iff.mp ht).1
      have hrestarts := ha.restarts h ht hsaves
      refine ⟨hinv, ?_, ?_⟩
      · intro u hu hp
        rcases List.mem_or_eq_of_mem_set hu with hu | rfl
        · exact h.releases u hu hp
        · exact hrestarts.1 hp
      · intro hrunning
        rcases hrestarts.2 hrunning with hp | ⟨j, u, hne, hu, hp⟩
        · exact ⟨i, t', List.getElem?_set_self hi, hp⟩
        · refine ⟨j, u, ?_, hp⟩
          rw [← hu]
          exact List.getElem?_set_ne (Ne.symm hne)

theorem Restartable.oneAtATime {s : BatchOffice} (h : Restartable s) : OneAtATime s := by
  refine ⟨h.inv.one, fun hidle => ?_⟩
  cases hrunning : s.batchRunning with
  | false => rfl
  | true =>
      obtain ⟨i, t, ht, hp⟩ := h.held hrunning
      exact absurd hp (hidle t (List.mem_of_getElem? ht))

/-- A failed save ends the run that holds the lock, and the lock stays set. -/
theorem FlightInv.failed_save {s : BatchOffice} (h : FlightInv s) {i : ℕ} {r : BatchAnswers}
    {entered : Bool} {log : NewSyncLog} {e : Exception}
    {k : Except Exception Id → Script BatchSig Exception Unit}
    (ht : s.runs[i]? = some ⟨entered, .await (S := BatchSig) (BatchOp.saveSyncLog log) k⟩)
    (hr : r (.saveSyncLog log) = .error e) :
    ∃ s', flightStep s (.answer i r) = some s' ∧ ¬ OneAtATime s' := by
  have hmem := List.mem_of_getElem? ht
  have he : entered = true := h.not_entered hmem (by simp)
  have hp : (⟨entered, .await (S := BatchSig) (BatchOp.saveSyncLog log) k⟩ :
      BatchRun).inProgress := inProgress_iff.mpr ⟨he, rfl⟩
  have hover : (k (.error e)).isOver = true := (h.inside _ hmem he).1 e
  have hstep : flightStep s (.answer i r)
      = some { s with runs := s.runs.set i ⟨entered, k (r (.saveSyncLog log))⟩ } := by
    simp only [flightStep, ht]
  refine ⟨_, hstep, fun hone => ?_⟩
  have hfree := hone.2 ?_
  · rw [h.lock _ hmem hp] at hfree
    cases hfree
  · intro u hu hpu
    obtain ⟨j, hj⟩ := List.mem_iff_getElem?.mp hu
    rcases set_run ht hj with ⟨-, rfl⟩ | ⟨hne, hj⟩
    · have hpu := (inProgress_iff.mp hpu).2
      dsimp only at hpu
      rw [hr, hover] at hpu
      cases hpu
    · exact hne (h.one j i u _ hj ht hpu hp)

/-- **Single flight and restart**: of two runs of the batch sync never both are in
progress, and with none in progress the next call starts one, exactly when every
`save` of a started sync log succeeds. -/
theorem single_flight_iff (ls : List FlightLabel) :
    SingleFlight ls ↔ Meets flightStep SavesSyncLog .initial ls := by
  constructor
  · intro h
    rw [meets_iff]
    intro pre l post s heq hrun
    have hinv := flightInv_run hrun
    cases l with
    | cron => trivial
    | trigger => trivial
    | turn => trivial
    | answer i r =>
        simp only [SavesSyncLog]
        split
        · rename_i entered log k ht
          cases hr : r (.saveSyncLog log) with
          | ok id => exact ⟨id, rfl⟩
          | error e =>
              obtain ⟨s', hstep, hbad⟩ := hinv.failed_save ht hr
              refine absurd (h (pre ++ [.answer i r]) post s' ?_ ?_) hbad
              · rw [heq, List.append_assoc]
                rfl
              · rw [run_append, hrun]
                simp [hstep]
        · trivial
  · intro hmeets pre post s heq hrun
    rw [heq, meets_append hrun] at hmeets
    exact (run_meets (fun _ _ _ h hC hstep => h.step hC hstep) restartable_initial hmeets.1
      hrun).oneAtATime

/-- The database is locked, whatever is asked of it. -/
def lockedDatabase : BatchAnswers
  | .svc (.stmt _) => .error Transient.locked.exception
  | .svc .now => 0
  | .svc (.setImmediate _) => ()
  | .svc (.transaction _) => .error Transient.locked.exception
  | .svc (.enqueueCreateLock _) => (0 : ℕ)
  | .svc (.awaitCreateLock _ _) => ()
  | .svc (.releaseCreateLock _ _) => ()
  | .svc (.sleep _) => ()
  | .svc (.http _) => .error .noResponse
  | .startRun => true
  | .endRun => ()
  | .saveSyncLog _ => .error Transient.locked.exception
  | .updateSyncLog _ _ => .error Transient.locked.exception
  | .getBatchBalances => .ok none

/-- The save of the sync log fails, the run is over, and the lock stays set: the
next call, which the cron job makes, is turned away. -/
theorem lock_never_released :
    ¬ SingleFlight [.cron, .answer 0 lockedDatabase, .answer 0 lockedDatabase,
        .answer 0 lockedDatabase]
    ∧ ∃ s, run flightStep .initial [.cron, .answer 0 lockedDatabase, .answer 0 lockedDatabase,
          .answer 0 lockedDatabase, .cron, .answer 1 lockedDatabase] = some s
        ∧ s.runs = [⟨true, .fail Transient.locked.exception⟩, ⟨false, .done ()⟩]
        ∧ s.batchRunning = true := by
  refine ⟨fun h => ?_, _, rfl, rfl, rfl⟩
  have hone := h _ [] _ (List.append_nil _).symm rfl
  have hfree := hone.2 ?_
  · cases hfree
  · intro t ht hp
    rw [List.mem_singleton.mp ht] at hp
    cases (inProgress_iff.mp hp).2

end LeaveLedger
