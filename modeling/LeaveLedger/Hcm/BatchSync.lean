import LeaveLedger.Hcm.HcmSyncService

/-!
# Hcm — runBatchSync

The batch sync of `modules/hcm/hcm-sync.service` with its sync log and its
in-process lock. Besides what a service call may ask for it asks the
sync-log repository and HCM, and tests and sets `_batchRunning`.

The `try` block throws its error message together with the counters as they
stand, since the `catch` block writes both.
-/

namespace LeaveLedger

open Js Lib

/-! ## The sync log -/

/-- An entry of `errorDetails`: about one balance, or about the whole run. -/
structure BatchError where
  balance : Option BalanceKey
  error : String
  deriving DecidableEq

structure SyncLog where
  id : Id
  syncType : SyncType
  status : SyncLogStatus
  recordsProcessed : ℕ
  recordsUpdated : ℕ
  recordsFailed : ℕ
  errorDetails : Option (List BatchError)
  startedAt : ℤ
  completedAt : Option ℤ
  deriving DecidableEq

/-- The columns a sync log is saved with. -/
structure NewSyncLog where
  syncType : SyncType
  status : SyncLogStatus
  startedAt : ℤ
  recordsProcessed : ℕ
  recordsUpdated : ℕ
  recordsFailed : ℕ

def NewSyncLog.toRow (n : NewSyncLog) (id : Id) : SyncLog :=
  ⟨id, n.syncType, n.status, n.recordsProcessed, n.recordsUpdated, n.recordsFailed, none,
    n.startedAt, none⟩

/-- The columns `syncLogRepository.update` sets. -/
structure SyncLogPatch where
  status : SyncLogStatus
  recordsProcessed : ℕ
  recordsUpdated : ℕ
  recordsFailed : ℕ
  errorDetails : Option (List BatchError)
  completedAt : ℤ

def SyncLogPatch.apply (p : SyncLogPatch) (l : SyncLog) : SyncLog :=
  { l with
    status := p.status
    recordsProcessed := p.recordsProcessed
    recordsUpdated := p.recordsUpdated
    recordsFailed := p.recordsFailed
    errorDetails := p.errorDetails
    completedAt := some p.completedAt }

/-! ## What a run asks for -/

inductive BatchOp where
  | svc (o : SvcOp)
  /-- the test of `_batchRunning` and, when it is false, the assignment -/
  | startRun
  | endRun
  | saveSyncLog (log : NewSyncLog)
  | updateSyncLog (id : Id) (patch : SyncLogPatch)
  | getBatchBalances

@[reducible] def BatchSig : Sig where
  Op := BatchOp
  Res
    | .svc o => SvcSig.Res o
    | .startRun => Bool
    | .endRun => Unit
    | .saveSyncLog _ => Except Exception Id
    | .updateSyncLog _ _ => Except Exception Unit
    -- none for `null` and for what is no array
    | .getBatchBalances => Except Exception (Option (List HcmRecord))

/-- A service call as a part of a batch sync. -/
def ofSvc {ε α : Type} : Script SvcSig ε α → Script BatchSig ε α
  | .done a => .done a
  | .fail e => .fail e
  | .await o k => .await (S := BatchSig) (BatchOp.svc o) fun r => ofSvc (k r)

/-! ## The run -/

/-- The counters and `errors`. -/
structure BatchTotals where
  recordsProcessed : ℕ := 0
  recordsUpdated : ℕ := 0
  recordsFailed : ℕ := 0
  errors : List BatchError := []
  deriving DecidableEq

/-- A record is counted as failed, with an error entry of its own. -/
def BatchTotals.failed (totals : BatchTotals) (balance : BalanceKey) (error : String) :
    BatchTotals :=
  { totals with
    recordsFailed := totals.recordsFailed + 1
    errors := totals.errors ++ [⟨some balance, error⟩] }

/-- The template `${employeeId}|${locationId}|${leaveType}`. -/
def hcmKey (k : BalanceKey) : String := k.1 ++ "|" ++ k.2.1 ++ "|" ++ k.2.2.text

/-- One turn of the record loop: a record that fails does not stop the others. -/
def processRecord (totals : BatchTotals) (hcmRecord : HcmRecord) : Svc BatchTotals :=
  let totals := { totals with recordsProcessed := totals.recordsProcessed + 1 }
  tryCatch
    (do
      let updated ← reconcileRecord hcmRecord
      pure (if updated then { totals with recordsUpdated := totals.recordsUpdated + 1 }
        else totals))
    fun err => pure (totals.failed hcmRecord.key err.message)

def processRecords (totals : BatchTotals) : List HcmRecord → Svc BatchTotals
  | [] => pure totals
  | hcmRecord :: rest => do
      let totals ← processRecord totals hcmRecord
      processRecords totals rest

/-- What the `try` block throws. -/
abbrev BatchFault := BatchTotals × String

/-- An exception that ends the `try` block while the counters stand at `totals`. -/
def orFault {S : Sig} {α : Type} (totals : BatchTotals) (p : Script S Exception α) :
    Script S BatchFault α :=
  p.handle fun err => .fail (totals, err.message)

def missingMessage : String := "Balance missing from HCM batch payload"

/-- The full-refresh safety: flag the local rows whose key the payload leaves
out. -/
def flagMissing (hcmKeySet : List String) (totals : BatchTotals) :
    List EmployeeBalance → Script SvcSig BatchFault BatchTotals
  | [] => pure totals
  | row :: rest => do
      if hcmKey row.key ∈ hcmKeySet then flagMissing hcmKeySet totals rest
      else
        let totals : BatchTotals :=
          { totals with recordsProcessed := totals.recordsProcessed + 1 }
        let totals := totals.failed row.key missingMessage
        orFault totals do
          let now ← Svc.now
          Svc.stmt (.updateBalance row.id {
            hasDiscrepancy := some true
            discrepancyAmount := some (some (row.discrepancyAmount.getD 0))
            hcmLastSync := some (some now) })
        flagMissing hcmKeySet totals rest

/-- Both loops, on the balances of a payload. -/
def reconcileBatch (hcmBalances : List HcmRecord) : Script SvcSig BatchFault BatchTotals := do
  let hcmKeySet := hcmBalances.map fun r => hcmKey r.key
  let totals ← orFault {} (processRecords {} hcmBalances)
  let localBalances ← orFault totals (Svc.stmt .findBalances)
  flagMissing hcmKeySet totals localBalances

def finalStatus (totals : BatchTotals) : SyncLogStatus :=
  if totals.recordsFailed = 0 then .completed
  else if totals.recordsFailed < totals.recordsProcessed then .someFailed
  else .failed

namespace Batch

/-- `await this.syncLogRepository.update(…)`. -/
def updateSyncLog (id : Id) (patch : SyncLogPatch) : Script BatchSig Exception Unit :=
  (Script.ask (S := BatchSig) (BatchOp.updateSyncLog id patch)).bind orThrow

/-- `this.hcmService.getBatchBalances()`. -/
def getBatchBalances : Script BatchSig Exception (Option (List HcmRecord)) :=
  (Script.ask (S := BatchSig) BatchOp.getBatchBalances).bind orThrow

def saveSyncLog (log : NewSyncLog) : Script BatchSig Exception Id :=
  (Script.ask (S := BatchSig) (BatchOp.saveSyncLog log)).bind orThrow

def startRun : Script BatchSig Exception Bool := Script.ask (S := BatchSig) BatchOp.startRun

def endRun : Script BatchSig Exception Unit := Script.ask (S := BatchSig) BatchOp.endRun

/-- Write the outcome of the run to its sync log. -/
def complete (id : Id) (totals : BatchTotals) (status : SyncLogStatus)
    (errorDetails : Option (List BatchError)) : Script BatchSig Exception Unit := do
  let now ← ofSvc Svc.now
  updateSyncLog id {
    status := status
    recordsProcessed := totals.recordsProcessed
    recordsUpdated := totals.recordsUpdated
    recordsFailed := totals.recordsFailed
    errorDetails := errorDetails
    completedAt := now }

/-- The `try` block. -/
def tryBlock (id : Id) : Script BatchSig BatchFault Unit := do
  let hcmBalances ← orFault {} getBatchBalances
  match hcmBalances with
  | none => throw ({}, "HCM batch endpoint returned invalid or empty response")
  | some hcmBalances =>
      let totals ← ofSvc (reconcileBatch hcmBalances)
      orFault totals (complete id totals (finalStatus totals)
        (if totals.errors.isEmpty then none else some totals.errors))

/-- The `catch` block. -/
def catchBlock (id : Id) (fault : BatchFault) : Script BatchSig Exception Unit :=
  complete id fault.1 .failed (some [⟨none, fault.2⟩])

end Batch

/-- `runBatchSync`. -/
def runBatchSync : Script BatchSig Exception Unit := do
  let started ← Batch.startRun
  if started then
    let now ← ofSvc Svc.now
    -- this save stands before the `try` block
    let id ← Batch.saveSyncLog {
      syncType := .batch, status := .started, startedAt := now
      recordsProcessed := 0, recordsUpdated := 0, recordsFailed := 0 }
    ((Batch.tryBlock id).handle (Batch.catchBlock id)).ensure Batch.endRun
  else pure ()

end LeaveLedger
