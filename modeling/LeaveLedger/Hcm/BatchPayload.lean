import LeaveLedger.Hcm.BatchSync
import LeaveLedger.Js.Coerce
import LeaveLedger.Lib.Table

/-!
# Hcm — runBatchSync on a payload as it arrives

The batch sync of `modules/hcm/hcm-sync.service` once more, on arbitrary JSON
elements: fields may be missing or of any type, a total need not be a number,
and an element may be `null`. What TypeORM and the database make of such values
is not in the repository: `BalanceRepository` stands for it. `BatchSync` is the
same run on records that are as they should be.
-/

namespace LeaveLedger.Payload

open Js Lib

/-! ## Rows -/

/-- A row of `employee_balances` whose text columns may hold any text. -/
structure BalanceRow where
  id : Id
  employeeId : String
  locationId : String
  leaveType : String
  totalBalance : JsNumber
  availableBalance : JsNumber
  pendingBalance : JsNumber
  usedBalance : JsNumber
  hcmTotalBalance : JsNumber
  hcmLastSync : Option ℤ
  hcmVersion : Json
  hasDiscrepancy : Bool
  discrepancyAmount : Option JsNumber

def BalanceRow.key (b : BalanceRow) : String × String × String :=
  (b.employeeId, b.locationId, b.leaveType)

abbrev RowTable := Table BalanceRow.id BalanceRow.key

/-- The columns `save` is given; a property may be `undefined`. -/
structure NewRow where
  employeeId : Option Json
  locationId : Option Json
  leaveType : Option Json
  totalBalance : JsNumber
  availableBalance : JsNumber
  pendingBalance : JsNumber
  usedBalance : JsNumber
  hcmTotalBalance : JsNumber
  hcmLastSync : ℤ
  hcmVersion : Json

/-- The columns `update` sets; `none` leaves a column, except in the last one,
where it is `null`. -/
structure RowPatch where
  totalBalance : Option JsNumber := none
  availableBalance : Option JsNumber := none
  hcmTotalBalance : Option JsNumber := none
  hcmLastSync : ℤ
  hcmVersion : Option Json := none
  hasDiscrepancy : Bool
  discrepancyAmount : Option JsNumber

/-- `balanceRepository`: what its statements answer on a table. -/
structure BalanceRepository where
  findOne : (employeeId locationId leaveType : Option Json) → RowTable →
    Except Exception (Option BalanceRow)
  save : NewRow → RowTable → Except Exception RowTable
  update : Id → RowPatch → RowTable → Except Exception RowTable

/-! ## One element -/

/-- The statements of an element's turn that the database refuses. -/
structure Faults where
  find : Option Exception := none
  write : Option Exception := none

/-- An element of the payload, and the faults its turn meets. -/
structure Element where
  record : Json
  faults : Faults := {}

/-- A turn: the table stays as the statements left it when the turn throws. -/
abbrev Turn := ExceptT Exception (StateM RowTable)

def liftExcept {α : Type} (x : Except Exception α) : Turn α := ExceptT.mk (pure x)

def typeError (message : String) : Exception := .driver "TypeError" message

/-- `String(v)` of a property. -/
def toText (v : Option Json) : Except Exception String :=
  match Json.propertyText? v with
  | some s => .ok s
  | none => .error (typeError "Cannot convert object to primitive value")

/-- A statement that reads. -/
def findOne (R : BalanceRepository) (faults : Faults)
    (employeeId locationId leaveType : Option Json) : Turn (Option BalanceRow) := do
  let table ← get
  match faults.find with
  | some err => throw err
  | none => liftExcept (R.findOne employeeId locationId leaveType table)

/-- A statement that writes; one that throws leaves the table as it is. -/
def write (faults : Faults) (stmt : RowTable → Except Exception RowTable) : Turn Unit := do
  let table ← get
  match faults.write with
  | some err => throw err
  | none => set (← liftExcept (stmt table))

/-- `localTotal` of a row. -/
def BalanceRow.localTotal (b : BalanceRow) : JsNumber :=
  (b.usedBalance.add b.pendingBalance).add b.availableBalance

/-- The columns `_reconcileRecord` saves for a key without a local row. -/
def newRow (hcmRecord : Json) (hcmTotal : JsNumber) (now : ℤ) : NewRow where
  employeeId := hcmRecord.get? "employeeId"
  locationId := hcmRecord.get? "locationId"
  leaveType := hcmRecord.get? "leaveType"
  totalBalance := hcmTotal
  availableBalance := hcmTotal
  pendingBalance := .finite 0
  usedBalance := .finite 0
  hcmTotalBalance := hcmTotal
  hcmLastSync := now
  hcmVersion := Json.orNull (hcmRecord.get? "version")

def driftTolerance : JsNumber := .finite 0.01

/-- The columns `_reconcileRecord` sets on the row it has read. -/
def driftPatch (hcmRecord : Json) (hcmTotal : JsNumber) (localBalance : BalanceRow) (now : ℤ) :
    RowPatch :=
  let version := Json.orNull (hcmRecord.get? "version")
  let drift := hcmTotal.sub localBalance.localTotal
  if drift.abs.le driftTolerance then
    { hcmTotalBalance := some hcmTotal, hcmLastSync := now, hcmVersion := some version
      hasDiscrepancy := false, discrepancyAmount := none }
  else if drift.gt driftTolerance then
    { totalBalance := some hcmTotal
      availableBalance := some (localBalance.availableBalance.add drift)
      hcmTotalBalance := some hcmTotal, hcmLastSync := now, hcmVersion := some version
      hasDiscrepancy := false, discrepancyAmount := none }
  else
    -- also when the drift is no number
    { hcmTotalBalance := some hcmTotal, hcmLastSync := now, hcmVersion := some version
      hasDiscrepancy := true, discrepancyAmount := some drift.abs }

/-- `_reconcileRecord`. -/
def reconcileRecord (R : BalanceRepository) (now : ℤ) (e : Element) : Turn Bool :=
  match e.record with
  | .null =>
      throw (typeError "Cannot destructure property 'employeeId' of 'hcmRecord' as it is null.")
  | hcmRecord => do
      let hcmTotalStr ← liftExcept (toText (hcmRecord.get? "totalBalance"))
      let hcmTotal := parseFloat hcmTotalStr
      let localBalance ← findOne R e.faults (hcmRecord.get? "employeeId")
        (hcmRecord.get? "locationId") (hcmRecord.get? "leaveType")
      match localBalance with
      | none => do
          write e.faults (R.save (newRow hcmRecord hcmTotal now))
          pure true
      | some localBalance => do
          write e.faults (R.update localBalance.id (driftPatch hcmRecord hcmTotal localBalance now))
          pure (!((hcmTotal.sub localBalance.localTotal).abs.le driftTolerance))

/-! ## The run -/

/-- An entry of `errorDetails`: the key fields it names, none of them when it is
about the whole run. -/
structure ErrorEntry where
  balance : Option (Option Json × Option Json × Option Json)
  error : String

/-- The counters and `errors`. -/
structure Totals where
  recordsProcessed : ℕ := 0
  recordsUpdated : ℕ := 0
  recordsFailed : ℕ := 0
  errors : List ErrorEntry := []

/-- What the `try` block throws: the counters as they stand, and the message. -/
abbrev Pass := ExceptT (Totals × String) (StateM RowTable)

def orFault {α : Type} (totals : Totals) : Except Exception α → Pass α
  | .ok a => pure a
  | .error err => throw (totals, err.message)

/-- The template `${r.employeeId}|${r.locationId}|${r.leaveType}`. -/
def keyText : Json → Except Exception String
  | .null => .error (typeError "Cannot read properties of null (reading 'employeeId')")
  | r => do
      let employeeId ← toText (r.get? "employeeId")
      let locationId ← toText (r.get? "locationId")
      let leaveType ← toText (r.get? "leaveType")
      pure (employeeId ++ "|" ++ locationId ++ "|" ++ leaveType)

/-- The same template on a local row. -/
def BalanceRow.keyText (b : BalanceRow) : String :=
  b.employeeId ++ "|" ++ b.locationId ++ "|" ++ b.leaveType

/-- The entry that the `catch` block of the record loop pushes. -/
def errorEntry (err : Exception) : Json → Except Exception ErrorEntry
  | .null => .error (typeError "Cannot read properties of null (reading 'employeeId')")
  | hcmRecord => .ok {
      balance := some (hcmRecord.get? "employeeId", hcmRecord.get? "locationId",
        hcmRecord.get? "leaveType")
      error := err.message }

/-- One turn of the record loop. -/
def processRecord (R : BalanceRepository) (now : ℤ) (totals : Totals) (e : Element) :
    Pass Totals := do
  let totals := { totals with recordsProcessed := totals.recordsProcessed + 1 }
  match ← ExceptT.lift (reconcileRecord R now e).run with
  | .ok updated =>
      pure (if updated then { totals with recordsUpdated := totals.recordsUpdated + 1 }
        else totals)
  | .error err =>
      let totals := { totals with recordsFailed := totals.recordsFailed + 1 }
      -- the entry itself is made of the record, and may throw again
      let entry ← orFault totals (errorEntry err e.record)
      pure { totals with errors := totals.errors ++ [entry] }

def processRecords (R : BalanceRepository) (now : ℤ) (totals : Totals) :
    List Element → Pass Totals
  | [] => pure totals
  | e :: rest => do
      let totals ← processRecord R now totals e
      processRecords R now totals rest

/-- The columns that flag a row the payload leaves out. -/
def missingPatch (row : BalanceRow) (now : ℤ) : RowPatch where
  hcmLastSync := now
  hasDiscrepancy := true
  discrepancyAmount := some (JsNumber.orZero row.discrepancyAmount)

/-- The full-refresh safety. -/
def flagMissing (R : BalanceRepository) (now : ℤ) (hcmKeySet : List String) (totals : Totals) :
    List BalanceRow → Pass Totals
  | [] => pure totals
  | row :: rest => do
      if row.keyText ∈ hcmKeySet then flagMissing R now hcmKeySet totals rest
      else
        let totals := { totals with
          recordsProcessed := totals.recordsProcessed + 1
          recordsFailed := totals.recordsFailed + 1
          errors := totals.errors ++ [{
            balance := some (some (.str row.employeeId), some (.str row.locationId),
              some (.str row.leaveType))
            error := missingMessage }] }
        let table ← get
        set (← orFault totals (R.update row.id (missingPatch row now) table))
        flagMissing R now hcmKeySet totals rest

/-- The three passes: the key set, the record loop, the omitted rows. -/
def reconcileBatch (R : BalanceRepository) (now : ℤ) (payload : List Element) : Pass Totals := do
  let hcmKeySet ← orFault {} (payload.mapM fun e => keyText e.record)
  let totals ← processRecords R now {} payload
  let localBalances ← get
  flagMissing R now hcmKeySet totals localBalances.rows

def Totals.finalStatus (totals : Totals) : SyncLogStatus :=
  if totals.recordsFailed = 0 then .completed
  else if totals.recordsFailed < totals.recordsProcessed then .someFailed
  else .failed

/-- The columns of a sync log that a run writes. -/
structure BatchLog where
  id : Id
  status : SyncLogStatus
  recordsProcessed : ℕ
  recordsUpdated : ℕ
  recordsFailed : ℕ
  errorDetails : Option (List ErrorEntry)
  startedAt : ℤ
  completedAt : Option ℤ

/-- What a run reads and leaves behind. -/
structure BatchState where
  table : RowTable
  batchRunning : Bool
  syncLogs : List BatchLog
  /-- the id of the next sync log -/
  nextLog : Id

/-- The sync log as the `try` block or the `catch` block ends it. -/
def BatchLog.close (now : ℤ) (result : Except (Totals × String) Totals) (log : BatchLog) :
    BatchLog :=
  match result with
  | .ok totals => { log with
      status := totals.finalStatus
      recordsProcessed := totals.recordsProcessed
      recordsUpdated := totals.recordsUpdated
      recordsFailed := totals.recordsFailed
      errorDetails := if totals.errors.isEmpty then none else some totals.errors
      completedAt := some now }
  | .error (totals, message) => { log with
      status := .failed
      recordsProcessed := totals.recordsProcessed
      recordsUpdated := totals.recordsUpdated
      recordsFailed := totals.recordsFailed
      errorDetails := some [⟨none, message⟩]
      completedAt := some now }

/-- The `try` block, on the answer of HCM: `none` for what is no array. -/
def tryBlock (R : BalanceRepository) (now : ℤ) : Option (List Element) → Pass Totals
  | none => throw ({}, "HCM batch endpoint returned invalid or empty response")
  | some payload => reconcileBatch R now payload

/-- `runBatchSync`, with the answer of HCM; the sync-log repository answers. -/
def runBatchSync (R : BalanceRepository) (now : ℤ) (answer : Option (List Element))
    (s : BatchState) : BatchState :=
  if s.batchRunning then s
  else
    let started : BatchLog :=
      { id := s.nextLog, status := .started, recordsProcessed := 0, recordsUpdated := 0
        recordsFailed := 0, errorDetails := none, startedAt := now, completedAt := none }
    let (result, table) := (tryBlock R now answer).run.run s.table
    { table := table
      batchRunning := false
      syncLogs := (s.syncLogs ++ [started]).map fun l =>
        if l.id = s.nextLog then l.close now result else l
      nextLog := s.nextLog + 1 }

end LeaveLedger.Payload
