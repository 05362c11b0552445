import LeaveLedger.Batch.SingleFlight
import LeaveLedger.Lib.ScriptFrames

/-!
# Batch — What the sync logs say

The runs of the batch sync with the table of their logs. The answers are as
arbitrary as in `SingleFlight`, but a save that works gives the log the next
id, and what works changes the table. A log is as it was saved, or its
counters, its status and its error entries fit together; and as long as
every update of a log works, only a run in progress leaves one as it was
saved.
-/

namespace LeaveLedger

open Js Lib

/-! ## The counters -/

/-- Nothing is counted twice, and each failure has an entry that names its balance. -/
structure BatchTotals.Fit (totals : BatchTotals) : Prop where
  counted : totals.recordsUpdated + totals.recordsFailed ≤ totals.recordsProcessed
  entries : totals.errors.length = totals.recordsFailed
  named : ∀ e ∈ totals.errors, e.balance.isSome

theorem BatchTotals.fit_zero : ({} : BatchTotals).Fit :=
  ⟨le_refl 0, rfl, fun e he => by cases he⟩

/-- One more that has been processed. -/
def BatchTotals.next (totals : BatchTotals) : BatchTotals :=
  { totals with recordsProcessed := totals.recordsProcessed + 1 }

theorem BatchTotals.Fit.next {totals : BatchTotals} (h : totals.Fit) : totals.next.Fit :=
  ⟨Nat.le_succ_of_le h.counted, h.entries, h.named⟩

theorem BatchTotals.Fit.updated {totals : BatchTotals} (h : totals.Fit) :
    ({ totals.next with recordsUpdated := totals.recordsUpdated + 1 } : BatchTotals).Fit := by
  have hcounted := h.counted
  refine ⟨?_, h.entries, h.named⟩
  show totals.recordsUpdated + 1 + totals.recordsFailed ≤ totals.recordsProcessed + 1
  omega

theorem BatchTotals.Fit.failed {totals : BatchTotals} (h : totals.Fit) (balance : BalanceKey)
    (error : String) : (totals.next.failed balance error).Fit := by
  have hcounted := h.counted
  refine ⟨?_, ?_, fun e he => ?_⟩
  · show totals.recordsUpdated + (totals.recordsFailed + 1) ≤ totals.recordsProcessed + 1
    omega
  · show (totals.errors ++ [_]).length = totals.recordsFailed + 1
    simp [h.entries]
  · rcases List.mem_append.mp he with hold | hnew
    · exact h.named e hold
    · rw [List.mem_singleton.mp hnew]
      rfl

/-! ## What the loops give -/

/-- The counters of an exception fit together. -/
def FaultFits (fault : BatchFault) : Prop := fault.1.Fit

theorem orFault_gives {S : Sig} {α : Type} {totals : BatchTotals} (h : totals.Fit)
    (p : Script S Exception α) : (orFault totals p).Gives (fun _ => True) FaultFits :=
  Script.gives_handle (Script.gives_any p) fun _ _ => h

theorem processRecord_gives {totals : BatchTotals} (h : totals.Fit) (r : HcmRecord) :
    (processRecord totals r).Gives BatchTotals.Fit fun _ => False := by
  refine Script.yields_attempt (F := fun _ => True) ?_ fun err _ => h.failed r.key err.message
  refine Script.yields_bind (Script.gives_any _) fun updated _ => ?_
  cases updated with
  | true => exact h.updated
  | false => exact h.next

theorem processRecords_gives {totals : BatchTotals} (h : totals.Fit) (records : List HcmRecord) :
    (processRecords totals records).Gives BatchTotals.Fit fun _ => False := by
  induction records generalizing totals with
  | nil => exact h
  | cons r rest ih => exact Script.yields_bind (processRecord_gives h r) fun _ h => ih h

theorem flagMissing_gives (hcmKeySet : List String) {totals : BatchTotals} (h : totals.Fit)
    (rows : List EmployeeBalance) :
    (flagMissing hcmKeySet totals rows).Gives BatchTotals.Fit FaultFits := by
  induction rows generalizing totals with
  | nil => exact h
  | cons row rest ih =>
      unfold flagMissing
      split
      · exact ih h
      · have hfailed := h.failed row.key missingMessage
        exact Script.yields_bind (orFault_gives hfailed _) fun _ _ => ih hfailed

theorem reconcileBatch_gives (payload : List HcmRecord) :
    (reconcileBatch payload).Gives BatchTotals.Fit FaultFits := by
  refine Script.yields_bind (Script.gives_handle (processRecords_gives BatchTotals.fit_zero payload)
    fun _ h => h.elim) fun totals htotals => ?_
  refine Script.yields_bind (orFault_gives htotals _) fun rows _ => ?_
  exact flagMissing_gives _ htotals rows

theorem ofSvc_gives {ε α : Type} {Q : α → Prop} {E : ε → Prop} {p : Script SvcSig ε α}
    (h : p.Gives Q E) : (ofSvc p).Gives Q E := by
  induction p with
  | done a => exact h
  | fail e => exact h
  | await o k ih => exact fun r hr => ih r (h r hr)

/-! ## What is written -/

/-- The counters, the status and the error entries of an ended run: either each failure has
its entry, and the status follows from the counters, or the run was cut short by the one
error that is told. -/
structure SyncLogPatch.Tells (p : SyncLogPatch) : Prop where
  counted : p.recordsUpdated + p.recordsFailed ≤ p.recordsProcessed
  outcome :
    ((p.errorDetails.getD []).length = p.recordsFailed
      ∧ (∀ e ∈ p.errorDetails.getD [], e.balance.isSome)
      ∧ (p.status = .completed ↔ p.recordsFailed = 0)
      ∧ (p.status = .someFailed ↔ 0 < p.recordsFailed ∧ p.recordsFailed < p.recordsProcessed)
      ∧ (p.status = .failed ↔ 0 < p.recordsFailed ∧ p.recordsFailed = p.recordsProcessed))
    ∨ (p.status = .failed ∧ ∃ message, p.errorDetails = some [⟨none, message⟩])

/-- The columns a run writes at its end. -/
def endPatch (totals : BatchTotals) (now : ℤ) : SyncLogPatch where
  status := finalStatus totals
  recordsProcessed := totals.recordsProcessed
  recordsUpdated := totals.recordsUpdated
  recordsFailed := totals.recordsFailed
  errorDetails := if totals.errors.isEmpty then none else some totals.errors
  completedAt := now

theorem endPatch_tells {totals : BatchTotals} (h : totals.Fit) (now : ℤ) :
    (endPatch totals now).Tells := by
  have hcounted := h.counted
  have hdetails : ((endPatch totals now).errorDetails.getD []) = totals.errors := by
    simp only [endPatch]
    cases totals.errors <;> rfl
  refine ⟨hcounted, Or.inl ⟨?_, ?_, ?_⟩⟩
  · rw [hdetails]
    exact h.entries
  · rw [hdetails]
    exact h.named
  · simp only [endPatch, finalStatus]
    split
    · rename_i hnone
      simp [hnone]
    · split
      · rename_i hsome hless
        simp only [reduceCtorEq, false_iff, true_iff]
        omega
      · rename_i hsome hall
        simp only [reduceCtorEq, false_iff, true_iff]
        omega

/-- The columns written when the run was cut short. -/
theorem faultPatch_tells {fault : BatchFault} (h : FaultFits fault) (now : ℤ) :
    SyncLogPatch.Tells ⟨.failed, fault.1.recordsProcessed, fault.1.recordsUpdated,
      fault.1.recordsFailed, some [⟨none, fault.2⟩], now⟩ :=
  ⟨h.counted, Or.inr ⟨rfl, fault.2, rfl⟩⟩

/-- What a run asks for once its log is saved: no other save, and updates that tell. -/
def TellingUpdates : BatchOp → Prop
  | .saveSyncLog _ => False
  | .updateSyncLog _ patch => patch.Tells
  | _ => True

theorem ofSvc_telling {ε α : Type} (p : Script SvcSig ε α) : (ofSvc p).Asks TellingUpdates := by
  induction p with
  | done a => trivial
  | fail e => trivial
  | await o k ih => exact ⟨trivial, ih⟩

theorem complete_telling {id : Id} {totals : BatchTotals} {status : SyncLogStatus}
    {details : Option (List BatchError)}
    (h : ∀ now, SyncLogPatch.Tells ⟨status, totals.recordsProcessed, totals.recordsUpdated,
      totals.recordsFailed, details, now⟩) :
    (Batch.complete id totals status details).Asks TellingUpdates :=
  ⟨trivial, fun now => ⟨h now, fun r => asks_orThrow r⟩⟩

theorem tryBlock_gives (id : Id) : (Batch.tryBlock id).Gives (fun _ => True) FaultFits := by
  refine Script.yields_bind (orFault_gives BatchTotals.fit_zero _) fun hcmBalances _ => ?_
  cases hcmBalances with
  | none => exact BatchTotals.fit_zero
  | some hcmBalances =>
      refine Script.yields_bind (ofSvc_gives (reconcileBatch_gives hcmBalances)) fun totals h => ?_
      exact orFault_gives h _

theorem tryBlock_telling (id : Id) : (Batch.tryBlock id).Asks TellingUpdates := by
  refine Script.asks_bind (orFault_asks ⟨trivial, fun r => asks_orThrow r⟩) fun hcmBalances => ?_
  cases hcmBalances with
  | none => trivial
  | some hcmBalances =>
      refine Script.asks_bind_of (ofSvc_telling _) (ofSvc_gives (reconcileBatch_gives hcmBalances))
        fun totals h => ?_
      exact orFault_asks (complete_telling fun now => endPatch_tells h now)

/-- What a run does with its log once it is saved. -/
def runBody (id : Id) : Script BatchSig Exception Unit :=
  ((Batch.tryBlock id).handle (Batch.catchBlock id)).ensure Batch.endRun

theorem runBody_telling (id : Id) : (runBody id).Asks TellingUpdates := by
  refine Script.asks_ensure ?_ ⟨trivial, fun _ => trivial⟩
  refine Script.asks_handle_of (tryBlock_telling id) (tryBlock_gives id) fun fault h => ?_
  exact complete_telling fun now => faultPatch_tells h now

/-- Before it ends, the script asks for an update of the log. -/
def Closes (id : Id) (p : Script BatchSig Exception Unit) : Prop :=
  p.Eventually (fun _ _ => True) (fun o => ∃ patch, o = BatchOp.updateSyncLog id patch)
    (fun _ => False) fun _ => False

theorem runBody_closes (id : Id) : Closes id (runBody id) := by
  refine Script.Eventually.ensure ?_
  have hcomplete : ∀ (totals : BatchTotals) (status : SyncLogStatus)
      (details : Option (List BatchError)),
      (Batch.complete id totals status details).Eventually (fun _ _ => True)
        (fun o => ∃ patch, o = BatchOp.updateSyncLog id patch) (fun _ => False) fun _ => False :=
    fun totals status details => Or.inr fun now _ => Or.inl ⟨_, rfl⟩
  refine Script.eventually_handle (E := fun _ => True) ?_ fun fault _ => hcomplete _ _ _
  refine Script.eventually_bind (Script.eventually_any _) fun hcmBalances _ => ?_
  cases hcmBalances with
  | none => trivial
  | some hcmBalances =>
      refine Script.eventually_bind (Script.eventually_any _) fun totals _ => ?_
      exact Or.inr fun now _ => Or.inl ⟨_, rfl⟩

/-! ## The table of the logs -/

/-- The rows of `sync_logs`. -/
structure LogBook where
  logs : List SyncLog
  /-- the id of the next log -/
  nextLog : Id

/-- What an operation does to the table when it is answered so. -/
def LogBook.record (b : LogBook) : (o : BatchOp) → BatchSig.Res o → LogBook
  | .saveSyncLog log, .ok id => { logs := b.logs ++ [log.toRow id], nextLog := b.nextLog + 1 }
  | .updateSyncLog id patch, .ok _ =>
      { b with logs := b.logs.map fun l => if l.id = id then patch.apply l else l }
  | _, _ => b

/-- A save that works gives the next id. -/
def LogBook.answers (b : LogBook) (r : BatchAnswers) : BatchAnswers
  | .saveSyncLog log => (r (.saveSyncLog log)).map fun _ => b.nextLog
  | o => r o

/-- The runs, and the table of their logs. -/
structure LogOffice where
  office : BatchOffice
  book : LogBook

def LogOffice.initial : LogOffice := ⟨.initial, ⟨[], 0⟩⟩

/-- What the answer to run `i` does to the table. -/
def LogOffice.recorded (s : LogOffice) (i : ℕ) (r : BatchAnswers) : LogBook :=
  match s.office.runs[i]? with
  | some ⟨_, .await o _⟩ => s.book.record o (r o)
  | _ => s.book

def logStep (s : LogOffice) : FlightLabel → Option LogOffice
  | .answer i r =>
      (flightStep s.office (.answer i (s.book.answers r))).map fun office =>
        ⟨office, s.recorded i (s.book.answers r)⟩
  | l => (flightStep s.office l).map fun office => ⟨office, s.book⟩

/-- When the awaited answer is that of an update of a sync log, it is no error. -/
def UpdatesLog (s : LogOffice) : FlightLabel → Prop
  | .answer i r =>
      match s.office.runs[i]? with
      | some ⟨_, .await (.updateSyncLog id patch) _⟩ => r (.updateSyncLog id patch) = .ok ()
      | _ => True
  | _ => True

/-! ## The logs -/

/-- As the log is saved, before the batch is asked for. -/
structure SyncLog.Open (l : SyncLog) : Prop where
  status : l.status = .started
  counters : l.recordsProcessed = 0 ∧ l.recordsUpdated = 0 ∧ l.recordsFailed = 0
  details : l.errorDetails = none
  completed : l.completedAt = none

/-- The log of an ended run. -/
structure SyncLog.Closed (l : SyncLog) : Prop where
  tells : ∃ now, l.completedAt = some now ∧ SyncLogPatch.Tells ⟨l.status, l.recordsProcessed,
    l.recordsUpdated, l.recordsFailed, l.errorDetails, now⟩

theorem SyncLogPatch.Tells.closed {p : SyncLogPatch} (h : p.Tells) (l : SyncLog) :
    (p.apply l).Closed :=
  ⟨p.completedAt, rfl, h⟩

/-- The outcome of a run is none of those that only the start has. -/
theorem SyncLog.Open.not_closed {l : SyncLog} (h : l.Open) : ¬ l.Closed := by
  intro hclosed
  obtain ⟨now, hnow, -⟩ := hclosed.tells
  rw [h.completed] at hnow
  cases hnow

/-- What a run may still do to the table: save a log that is open, which it then closes, or
update one with columns that tell. -/
def Files : (o : BatchOp) → (BatchSig.Res o → Script BatchSig Exception Unit) → Prop
  | .saveSyncLog log, k => (∀ id, (log.toRow id).Open) ∧ ∀ id, Closes id (k (.ok id))
  | .updateSyncLog _ patch, _ => patch.Tells
  | _, _ => True

theorem TellingUpdates.files {o : BatchOp} {k : BatchSig.Res o → Script BatchSig Exception Unit}
    (h : TellingUpdates o) : Files o k := by
  cases o with
  | saveSyncLog log => exact h.elim
  | updateSyncLog id patch => exact h
  | _ => trivial

theorem runBatchSync_files : runBatchSync.Always Files := by
  rw [runBatchSync_eq]
  refine ⟨trivial, fun started => ?_⟩
  cases started with
  | false => trivial
  | true =>
      refine ⟨trivial, fun now => ⟨⟨fun id => ⟨rfl, ⟨rfl, rfl, rfl⟩, rfl, rfl⟩, runBody_closes⟩,
        fun saved => ?_⟩⟩
      cases saved with
      | error e => trivial
      | ok id => exact Script.Always.mono (fun _ _ ho => ho.files) (runBody_telling id)

/-- What holds of the table whatever is answered. -/
structure BookInv (b : LogBook) : Prop where
  fresh : ∀ l ∈ b.logs, l.id < b.nextLog
  distinct : (b.logs.map SyncLog.id).Nodup
  logs : ∀ l ∈ b.logs, l.Open ∨ l.Closed

theorem BookInv.save {b : LogBook} (h : BookInv b) {log : NewSyncLog}
    (hopen : ∀ id, (log.toRow id).Open) :
    BookInv { logs := b.logs ++ [log.toRow b.nextLog], nextLog := b.nextLog + 1 } where
  fresh l hl := by
    rcases List.mem_append.mp hl with hold | hnew
    · exact Nat.lt_succ_of_lt (h.fresh l hold)
    · rw [List.mem_singleton.mp hnew]
      exact Nat.lt_succ_self _
  distinct := by
    rw [List.map_append, List.nodup_append]
    refine ⟨h.distinct, List.nodup_singleton _, fun id hid id' hid' => ?_⟩
    obtain ⟨l, hl, rfl⟩ := List.mem_map.mp hid
    rw [List.mem_singleton.mp hid']
    exact Nat.ne_of_lt (h.fresh l hl)
  logs l hl := by
    rcases List.mem_append.mp hl with hold | hnew
    · exact h.logs l hold
    · rw [List.mem_singleton.mp hnew]
      exact Or.inl (hopen _)

theorem BookInv.update {b : LogBook} (h : BookInv b) {id : Id} {patch : SyncLogPatch}
    (htells : patch.Tells) :
    BookInv { b with logs := b.logs.map fun l => if l.id = id then patch.apply l else l } := by
  have hid : ∀ l : SyncLog, (if l.id = id then patch.apply l else l).id = l.id := by
    intro l
    split <;> rfl
  constructor
  · intro l hl
    obtain ⟨l₀, hl₀, rfl⟩ := List.mem_map.mp hl
    rw [hid]
    exact h.fresh l₀ hl₀
  · have hids : (b.logs.map fun l => if l.id = id then patch.apply l else l).map SyncLog.id
        = b.logs.map SyncLog.id := by
      rw [List.map_map]
      exact List.map_congr_left fun l _ => hid l
    rw [hids]
    exact h.distinct
  · intro l hl
    obtain ⟨l₀, hl₀, rfl⟩ := List.mem_map.mp hl
    split
    · exact Or.inr (htells.closed l₀)
    · exact h.logs l₀ hl₀

/-- **One answer** keeps the table in order. -/
theorem BookInv.record {b : LogBook} (h : BookInv b) {o : BatchOp}
    {k : BatchSig.Res o → Script BatchSig Exception Unit} (hfiles : Files o k) (r : BatchAnswers) :
    BookInv (b.record o (b.answers r o)) := by
  cases o with
  | saveSyncLog log =>
      simp only [LogBook.answers]
      cases r (.saveSyncLog log) with
      | error e => exact h
      | ok id => exact h.save hfiles.1
  | updateSyncLog id patch =>
      simp only [LogBook.answers]
      cases r (.updateSyncLog id patch) with
      | error e => exact h
      | ok u => exact h.update hfiles
  | svc o => exact h
  | startRun => exact h
  | endRun => exact h
  | getBatchBalances => exact h

/-- What holds of the runs and the table whatever is answered. -/
structure LogInv (s : LogOffice) : Prop where
  flight : FlightInv s.office
  files : ∀ t ∈ s.office.runs, t.script.Always Files
  book : BookInv s.book

theorem logInv_initial : LogInv .initial where
  flight := flightInv_initial
  files t ht := by cases ht
  book := ⟨fun l hl => (by cases hl), List.nodup_nil, fun l hl => (by cases hl)⟩

/-- What run `i` awaits, and where the answer takes it. -/
theorem AnswerCase.next {s : BatchOffice} {r : BatchAnswers} {t t' : BatchRun} {running : Bool}
    (h : AnswerCase s r t running t') :
    ∃ entered o k x, t = ⟨entered, .await o k⟩ ∧ t'.script = k x
      ∧ (o = .startRun ∨ o = .endRun ∨ x = r o) ∧ (o ≠ .startRun → t'.entered = entered) := by
  cases h with
  | @enter entered k =>
      exact ⟨entered, .startRun, k, _, rfl, rfl, Or.inl rfl, fun hne => absurd rfl hne⟩
  | @leave entered k =>
      exact ⟨entered, .endRun, k, _, rfl, rfl, Or.inr (Or.inl rfl), fun _ => rfl⟩
  | @goOn entered o k hstart hend =>
      exact ⟨entered, o, k, _, rfl, rfl, Or.inr (Or.inr rfl), fun _ => rfl⟩

theorem logStep_answer {s s' : LogOffice} {i : ℕ} {r : BatchAnswers}
    (h : logStep s (.answer i r) = some s') :
    ∃ t t' running, s.office.runs[i]? = some t
      ∧ AnswerCase s.office (s.book.answers r) t running t'
      ∧ flightStep s.office (.answer i (s.book.answers r)) = some s'.office
      ∧ s' = ⟨⟨running, s.office.runs.set i t', s.office.deferred⟩,
          s.recorded i (s.book.answers r)⟩ := by
  obtain ⟨office, hflight, rfl⟩ := Option.map_eq_some_iff.mp h
  cases flight_cases hflight with
  | @answer _ _ t t' running ht hanswer => exact ⟨t, t', running, ht, hanswer, hflight, rfl⟩

/-- A step that is no answer adds a call at most. -/
theorem logStep_calls {s s' : LogOffice} {l : FlightLabel} (hl : ∀ i r, l ≠ .answer i r)
    (h : logStep s l = some s') :
    s'.book = s.book ∧ flightStep s.office l = some s'.office
      ∧ (s'.office.runs = s.office.runs ∨ s'.office.runs = s.office.call.runs) := by
  cases l with
  | answer i r => exact absurd rfl (hl i r)
  | cron =>
      cases h
      exact ⟨rfl, rfl, Or.inr rfl⟩
  | trigger =>
      obtain ⟨office, hflight, rfl⟩ := Option.map_eq_some_iff.mp h
      refine ⟨rfl, hflight, ?_⟩
      cases flight_cases hflight with
      | refused => exact Or.inl rfl
      | deferred => exact Or.inl rfl
  | turn =>
      obtain ⟨office, hflight, rfl⟩ := Option.map_eq_some_iff.mp h
      refine ⟨rfl, hflight, ?_⟩
      cases flight_cases hflight with
      | turn => exact Or.inr rfl

theorem LogInv.of_calls {s s' : LogOffice} {l : FlightLabel} (h : LogInv s)
    (hl : ∀ i r, l ≠ .answer i r) (hstep : logStep s l = some s') : LogInv s' := by
  obtain ⟨hbook, hflight, hruns⟩ := logStep_calls hl hstep
  refine ⟨h.flight.step hflight, fun t ht => ?_, hbook ▸ h.book⟩
  rcases hruns with hruns | hruns
  · exact h.files t (hruns ▸ ht)
  · rw [hruns] at ht
    rcases List.mem_append.mp ht with hold | hnew
    · exact h.files t hold
    · rw [List.mem_singleton.mp hnew]
      exact runBatchSync_files

theorem recorded_eq {s : LogOffice} {i : ℕ} {entered : Bool} {o : BatchOp}
    {k : BatchSig.Res o → Script BatchSig Exception Unit}
    (ht : s.office.runs[i]? = some ⟨entered, .await (S := BatchSig) o k⟩) (r : BatchAnswers) :
    s.recorded i r = s.book.record o (r o) := by
  simp only [LogOffice.recorded, ht]

/-- **One step** keeps the invariant. -/
theorem LogInv.step {s s' : LogOffice} {l : FlightLabel} (h : LogInv s)
    (hstep : logStep s l = some s') : LogInv s' := by
  cases l with
  | cron => exact h.of_calls (by simp) hstep
  | trigger => exact h.of_calls (by simp) hstep
  | turn => exact h.of_calls (by simp) hstep
  | answer i r =>
      obtain ⟨t, t', running, ht, hanswer, hflight, rfl⟩ := logStep_answer hstep
      obtain ⟨entered, o, k, x, rfl, hnext, -, -⟩ := hanswer.next
      have hfiles := h.files _ (List.mem_of_getElem? ht)
      refine ⟨h.flight.step hflight, fun u hu => ?_, ?_⟩
      · rcases List.mem_or_eq_of_mem_set hu with hold | rfl
        · exact h.files u hold
        · rw [hnext]
          exact hfiles.2 x
      · rw [recorded_eq ht]
        exact h.book.record hfiles.1 r

/-! ## No log is left open -/

/-- An open log is one that a run in progress closes. -/
def ClosedByRun (s : LogOffice) (l : SyncLog) : Prop :=
  ∃ (i : ℕ) (t : BatchRun), s.office.runs[i]? = some t ∧ t.entered = true ∧ Closes l.id t.script

theorem Closes.not_over {id : Id} {p : Script BatchSig Exception Unit} (h : Closes id p) :
    p.isOver = false := by
  cases p with
  | done a => exact h.elim
  | fail e => exact h.elim
  | await o k => rfl

theorem ClosedByRun.inProgress {s : LogOffice} {l : SyncLog} (h : ClosedByRun s l) :
    ∃ t ∈ s.office.runs, t.inProgress ∧ Closes l.id t.script := by
  obtain ⟨i, t, ht, hentered, hcloses⟩ := h
  exact ⟨t, List.mem_of_getElem? ht, inProgress_iff.mpr ⟨hentered, hcloses.not_over⟩, hcloses⟩

/-- An answer other than that of its update does not close a log. -/
theorem Closes.answered {id : Id} {o : BatchOp}
    {k : BatchSig.Res o → Script BatchSig Exception Unit}
    (h : Closes id (.await (S := BatchSig) o k)) (ho : ∀ patch, o ≠ .updateSyncLog id patch)
    (x : BatchSig.Res o) : Closes id (k x) := by
  refine h.after ?_ trivial
  rintro ⟨patch, rfl⟩
  exact ho patch rfl

structure LogsClose (s : LogOffice) : Prop where
  inv : LogInv s
  open_closed : ∀ l ∈ s.book.logs, l.Open → ClosedByRun s l

/-- What an answer leaves open was there before and is not what the run has updated, or the
run has just saved it and closes it. -/
theorem open_cases {b : LogBook} {o : BatchOp}
    {k : BatchSig.Res o → Script BatchSig Exception Unit} (hfiles : Files o k) {r : BatchAnswers}
    (hupdates : ∀ id patch, o = .updateSyncLog id patch → r (.updateSyncLog id patch) = .ok ())
    {l : SyncLog} (hl : l ∈ (b.record o (b.answers r o)).logs) (hopen : l.Open) :
    (l ∈ b.logs ∧ ∀ patch, o ≠ .updateSyncLog l.id patch)
      ∨ (o ≠ .startRun ∧ o ≠ .endRun ∧ Closes l.id (k (b.answers r o))) := by
  cases o with
  | saveSyncLog log =>
      simp only [LogBook.answers] at hl ⊢
      cases hr : r (.saveSyncLog log) with
      | error e =>
          rw [hr] at hl
          exact Or.inl ⟨hl, by simp⟩
      | ok id =>
          rw [hr] at hl
          rcases List.mem_append.mp hl with hold | hnew
          · exact Or.inl ⟨hold, by simp⟩
          · rw [List.mem_singleton.mp hnew]
            exact Or.inr ⟨by simp, by simp, hfiles.2 b.nextLog⟩
  | updateSyncLog id patch =>
      simp only [LogBook.answers, hupdates id patch rfl] at hl
      obtain ⟨l₀, hl₀, rfl⟩ := List.mem_map.mp hl
      by_cases hid : l₀.id = id
      · -- an update closes the log
        rw [if_pos hid] at hopen
        exact absurd (SyncLogPatch.Tells.closed hfiles l₀) hopen.not_closed
      · rw [if_neg hid]
        refine Or.inl ⟨hl₀, fun patch' heq => ?_⟩
        cases heq
        exact hid rfl
  | svc o => exact Or.inl ⟨hl, by simp⟩
  | startRun => exact Or.inl ⟨hl, by simp⟩
  | endRun => exact Or.inl ⟨hl, by simp⟩
  | getBatchBalances => exact Or.inl ⟨hl, by simp⟩

theorem LogsClose.of_calls {s s' : LogOffice} {l : FlightLabel} (h : LogsClose s)
    (hl : ∀ i r, l ≠ .answer i r) (hstep : logStep s l = some s') : LogsClose s' := by
  obtain ⟨hbook, -, hruns⟩ := logStep_calls hl hstep
  refine ⟨h.inv.of_calls hl hstep, fun log hlog hopen => ?_⟩
  obtain ⟨i, t, ht, hentered, hcloses⟩ := h.open_closed log (hbook ▸ hlog) hopen
  refine ⟨i, t, ?_, hentered, hcloses⟩
  rcases hruns with hruns | hruns
  · rw [hruns]
    exact ht
  · rw [hruns, BatchOffice.call, List.getElem?_append_left (List.getElem?_eq_some_iff.mp ht).1]
    exact ht

/-- **One step** leaves no log open but that of a run in progress. -/
theorem LogsClose.step {s s' : LogOffice} {l : FlightLabel} (h : LogsClose s)
    (hupdates : UpdatesLog s l) (hstep : logStep s l = some s') : LogsClose s' := by
  cases l with
  | cron => exact h.of_calls (by simp) hstep
  | trigger => exact h.of_calls (by simp) hstep
  | turn => exact h.of_calls (by simp) hstep
  | answer i r =>
      obtain ⟨t, t', running, ht, hanswer, hflight, rfl⟩ := logStep_answer hstep
      obtain ⟨entered, o, k, x, rfl, hnext, hx, hstays⟩ := hanswer.next
      have hi := (List.getElem?_eq_some_iff.mp ht).1
      have hmem := List.mem_of_getElem? ht
      have hfiles := (h.inv.files _ hmem).1
      refine ⟨h.inv.step hstep, fun log hlog hopen => ?_⟩
      rw [recorded_eq ht] at hlog
      have hworks : ∀ id patch, o = .updateSyncLog id patch →
          r (.updateSyncLog id patch) = .ok () := by
        rintro id patch rfl
        simp only [UpdatesLog, ht] at hupdates
        exact hupdates
      rcases open_cases hfiles hworks hlog hopen with ⟨hold, hother⟩ | ⟨hstart, hend, hcloses⟩
      · obtain ⟨j, u, hu, hentered, hcloses⟩ := h.open_closed log hold hopen
        by_cases hji : j = i
        · subst hji
          rw [ht] at hu
          cases hu
          have hstart : o ≠ .startRun := by
            rintro rfl
            -- a run in progress has passed the guard
            exact (h.inv.flight.inside _ hmem hentered).1
          refine ⟨j, t', List.getElem?_set_self hi, ?_, ?_⟩
          · exact (hstays hstart).trans hentered
          · rw [hnext]
            exact hcloses.answered hother x
        · refine ⟨j, u, ?_, hentered, hcloses⟩
          rw [← hu]
          exact List.getElem?_set_ne (Ne.symm hji)
      · refine ⟨i, t', List.getElem?_set_self hi, ?_, ?_⟩
        · exact (hstays hstart).trans (h.inv.flight.not_entered hmem hstart)
        · rw [hnext, hx.resolve_left hstart |>.resolve_left hend]
          exact hcloses

/-! ## Runs -/

theorem logInv_run {ls : List FlightLabel} {s : LogOffice}
    (hrun : run logStep .initial ls = some s) : LogInv s :=
  run_induct (fun _ _ _ h hstep => h.step hstep) logInv_initial hrun

/-- **The sync logs tell what the batches did.** In every run, whatever is answered, no two
logs have one id, and a log is as it was saved or its columns fit together: the counters,
the status and the entries. As long as every update of a log works, a log that is still
`STARTED` is that of a run in progress, which asks for its update before it ends, whatever it
is answered. -/
theorem sync_logs_tell (ls : List FlightLabel) (s : LogOffice)
    (hrun : run logStep .initial ls = some s) :
    (s.book.logs.map SyncLog.id).Nodup
    ∧ (∀ l ∈ s.book.logs, l.Open ∨ l.Closed)
    ∧ (Meets logStep UpdatesLog .initial ls → ∀ l ∈ s.book.logs, l.Open →
      ∃ t ∈ s.office.runs, t.inProgress ∧ Closes l.id t.script) := by
  have hinv := logInv_run hrun
  refine ⟨hinv.book.distinct, hinv.book.logs, fun hmeets l hl hopen => ?_⟩
  have hinitial : LogsClose .initial := ⟨logInv_initial, fun l hl => by cases hl⟩
  have hcloses : LogsClose s :=
    run_meets (fun _ _ _ h hC hstep => h.step hC hstep) hinitial hmeets hrun
  exact (hcloses.open_closed l hl hopen).inProgress

/-- HCM answers with no array, and the sync-log repository works. -/
def noArray : BatchAnswers
  | .saveSyncLog _ => .ok 0
  | .updateSyncLog _ _ => .ok ()
  | o => lockedDatabase o

theorem noArray_updates (n : ℕ) :
    Meets logStep UpdatesLog .initial (.cron :: List.replicate n (.answer 0 noArray)) := by
  rw [meets_iff]
  intro pre l post s hls _
  have hl : l ∈ FlightLabel.cron :: List.replicate n (.answer 0 noArray) := by
    rw [hls]
    exact List.mem_append_right _ List.mem_cons_self
  rcases List.mem_cons.mp hl with rfl | hl
  · trivial
  · rw [List.eq_of_mem_replicate hl]
    simp only [UpdatesLog]
    split
    · rfl
    · trivial

/-- The theorem at a run of the batch on such answers: when the log has been saved, and when the
run is over. -/
theorem sync_logs_tell_no_array :
    (∃ s : LogOffice, run logStep .initial (.cron :: List.replicate 3 (.answer 0 noArray)) = some s
      ∧ s.book.logs.map SyncLog.status = [.started]
      ∧ ∀ l ∈ s.book.logs, ∃ t ∈ s.office.runs, t.inProgress ∧ Closes l.id t.script)
    ∧ ∃ s : LogOffice, run logStep .initial (.cron :: List.replicate 7 (.answer 0 noArray)) = some s
      ∧ s.book.logs.map SyncLog.status = [.failed] ∧ (s.book.logs.map SyncLog.id).Nodup
      ∧ ∀ l ∈ s.book.logs, l.Closed := by
  constructor
  · obtain ⟨s, hrun, hstatus⟩ : ∃ s : LogOffice,
        run logStep .initial (.cron :: List.replicate 3 (.answer 0 noArray)) = some s
          ∧ s.book.logs.map (fun l => (l.status, l.completedAt)) = [(.started, none)] :=
      ⟨_, rfl, rfl⟩
    obtain ⟨-, hlogs, hopen⟩ := sync_logs_tell _ s hrun
    obtain ⟨l, hl, hcolumns⟩ := List.map_eq_singleton_iff.mp hstatus
    refine ⟨s, hrun, by rw [hl]; exact congrArg (fun c => [c.1]) hcolumns, fun x hx => ?_⟩
    refine hopen (noArray_updates 3) x hx ((hlogs x hx).resolve_right fun hclosed => ?_)
    rw [hl, List.mem_singleton] at hx
    subst hx
    obtain ⟨now, hnow, -⟩ := hclosed.tells
    rw [(Prod.mk.inj hcolumns).2] at hnow
    cases hnow
  · obtain ⟨s, hrun, hstatus⟩ : ∃ s : LogOffice,
        run logStep .initial (.cron :: List.replicate 7 (.answer 0 noArray)) = some s
          ∧ s.book.logs.map SyncLog.status = [.failed] := ⟨_, rfl, rfl⟩
    obtain ⟨hnodup, hlogs, -⟩ := sync_logs_tell _ s hrun
    refine ⟨s, hrun, hstatus, hnodup, fun l hl => (hlogs l hl).resolve_left fun hopen => ?_⟩
    have hfailed : l.status ∈ s.book.logs.map SyncLog.status := List.mem_map_of_mem hl
    rw [hstatus, hopen.status] at hfailed
    simp at hfailed

end LeaveLedger
