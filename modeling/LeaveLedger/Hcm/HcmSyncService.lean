import LeaveLedger.Hcm.HcmService

/-!
# Hcm — HcmSyncService and the notifiers

`modules/hcm/hcm-sync.service` and the two notifiers of the time-off
service: the reconciliation of one HCM record with the local row, and every
writer of the HCM columns of a request.
-/

namespace LeaveLedger

open Js Lib

/-! ## Batch reconciliation -/

/-- One record of the batch payload. -/
structure HcmRecord where
  employeeId : String
  locationId : String
  leaveType : LeaveType
  totalBalance : ℚ
  version : Option String
  deriving DecidableEq

def HcmRecord.key (r : HcmRecord) : BalanceKey := (r.employeeId, r.locationId, r.leaveType)

/-- `localTotal` of a row. -/
def EmployeeBalance.localTotal (b : EmployeeBalance) : ℚ :=
  b.usedBalance + b.pendingBalance + b.availableBalance

/-- The columns `_reconcileRecord` sets on the row it has read. -/
def reconcilePatch (hcmRecord : HcmRecord) (localBalance : EmployeeBalance) (now : ℤ) :
    BalancePatch :=
  let hcmTotal := hcmRecord.totalBalance
  let drift := hcmTotal - localBalance.localTotal
  if |drift| ≤ 0.01 then
    { hcmTotalBalance := some hcmTotal, hcmLastSync := some (some now)
      hcmVersion := some (orNull hcmRecord.version)
      hasDiscrepancy := some false, discrepancyAmount := some none }
  else if 0.01 < drift then
    { totalBalance := some hcmTotal
      availableBalance := some (localBalance.availableBalance + drift)
      hcmTotalBalance := some hcmTotal, hcmLastSync := some (some now)
      hcmVersion := some (orNull hcmRecord.version)
      hasDiscrepancy := some false, discrepancyAmount := some none }
  else
    { hcmTotalBalance := some hcmTotal, hcmLastSync := some (some now)
      hcmVersion := some (orNull hcmRecord.version)
      hasDiscrepancy := some true, discrepancyAmount := some (some |drift|) }

/-- The branch of `_reconcileRecord` for a key without a local row. -/
def insertReconciled (hcmRecord : HcmRecord) : Svc Bool := do
  let now ← Svc.now
  let _ ← Svc.stmt (.insertBalance {
    employeeId := hcmRecord.employeeId, locationId := hcmRecord.locationId
    leaveType := hcmRecord.leaveType
    totalBalance := hcmRecord.totalBalance, availableBalance := hcmRecord.totalBalance
    pendingBalance := 0, usedBalance := 0
    hcmTotalBalance := hcmRecord.totalBalance, hcmLastSync := some now
    hcmVersion := orNull hcmRecord.version })
  pure true

/-- The branch for a row that was read: a write of absolute values by its id. -/
def updateReconciled (hcmRecord : HcmRecord) (localBalance : EmployeeBalance) : Svc Bool := do
  let now ← Svc.now
  Svc.stmt (.updateBalance localBalance.id (reconcilePatch hcmRecord localBalance now))
  pure (0.01 < |hcmRecord.totalBalance - localBalance.localTotal|)

/-- What `_reconcileRecord` does about the row it has read. -/
def reconcileLocal (hcmRecord : HcmRecord) : Option EmployeeBalance → Svc Bool
  | none => insertReconciled hcmRecord
  | some localBalance => updateReconciled hcmRecord localBalance

/-- `_reconcileRecord`: two statements outside any transaction. -/
def reconcileRecord (hcmRecord : HcmRecord) : Svc Bool := do
  let localBalance ← Svc.stmt
    (.findBalance hcmRecord.employeeId hcmRecord.locationId hcmRecord.leaveType)
  reconcileLocal hcmRecord localBalance

/-! ## The notifiers of the time-off service -/

/-- `validation.valid !== true`. -/
def isValid (validation : Json) : Bool := Json.isTrue (validation.get? "valid")

/-- `res !== null && res.success !== false`. -/
def isAcknowledged : Json → Bool
  | .null => false
  | res => !Json.isFalse (res.get? "success")

/-- `requestRepository.update` with a sync status, the attempts, and the time. -/
def updateSync (requestId : Id) (status : HcmSyncStatus) (validated : Option Bool)
    (attempts : ℕ) : Svc Unit := do
  let now ← Svc.now
  Svc.stmt (.updateRequest requestId {
    hcmSyncStatus := some status, hcmValidated := validated
    hcmSyncAttempts := some attempts, hcmLastSyncAt := some (some now) })

/-- The answer of the validation that is needed unless one is on record. -/
def validationOf (request : TimeOffRequest) : Svc Json :=
  if request.hcmValidated then pure (.obj [("valid", .bool true)])
  else
    validateRequest request.employeeId request.locationId request.leaveType
      (some request.daysRequested)

/-- The common body of `_notifyApprovalToHcmAsync` and `_retryApprovalFlow`:
validate unless that is done, notify, write the outcome. Both count the
attempts on from the row they hold. -/
def approvalFlow (request : TimeOffRequest) (requestId : Id) : Svc Unit := do
  let attempts := request.hcmSyncAttempts + 1
  let validation ← validationOf request
  if validation matches .null then
    updateSync requestId .pending none attempts
  else if !isValid validation then
    updateSync requestId .failed (some false) attempts
  else
    let res ← notifyApproval request.employeeId request.locationId request.leaveType
      request.daysRequested requestId
    if isAcknowledged res then updateSync requestId .success (some true) attempts
    else updateSync requestId .pending (some true) attempts

/-- `_notifyApprovalToHcmAsync`. -/
def notifyApprovalToHcmAsync (request : TimeOffRequest) (requestId : Id) : Svc Unit :=
  tryCatch (approvalFlow request requestId) fun _ =>
    updateSync requestId .pending none (request.hcmSyncAttempts + 1)

/-- The callback of `_notifyHcmAsync`. -/
def notifyHcmAsync (requestId : Id) (employeeId locationId : String) (leaveType : LeaveType)
    (daysRequested : Option ℚ) : Svc Unit :=
  tryCatch
    (do
      let result ← validateRequest employeeId locationId leaveType daysRequested
      if result matches .null then
        updateSync requestId .pending none 1
      else if Json.isFalse (result.get? "valid") then
        updateSync requestId .failed (some false) 1
      else
        updateSync requestId .success (some true) 1)
    fun _ =>
      Svc.stmt (.updateRequest requestId {
        hcmSyncStatus := some .pending, hcmSyncAttempts := some 1 })

/-- The call a deferred callback makes. -/
def Callback.script : Callback → Svc Unit
  | .notifyHcm id e l t days => notifyHcmAsync id e l t days
  | .notifyApproval request id => notifyApprovalToHcmAsync request id

/-! ## The retry worker -/

def maxPendingSyncRetries : ℕ := 10

/-- `_updateSyncAttempt`. -/
def updateSyncAttempt (request : TimeOffRequest) (status : HcmSyncStatus)
    (validated : Option Bool) : Svc Unit :=
  updateSync request.id status validated (request.hcmSyncAttempts + 1)

/-- `_retryValidationOnly`. -/
def retryValidationOnly (request : TimeOffRequest) : Svc Unit := do
  let validation ← validationOf request
  if validation matches .null then
    updateSyncAttempt request .pending none
  else if !isValid validation then
    updateSyncAttempt request .failed (some false)
  else
    updateSyncAttempt request .success (some true)

/-- `_retryApprovalFlow`. -/
def retryApprovalFlow (request : TimeOffRequest) : Svc Unit :=
  approvalFlow request request.id

/-- One turn of the loop of `retryPendingHcmSyncs`, on a row read earlier. -/
def retryRequest (request : TimeOffRequest) : Svc Unit := do
  if maxPendingSyncRetries ≤ request.hcmSyncAttempts then
    let now ← Svc.now
    Svc.stmt (.updateRequest request.id {
      hcmSyncStatus := some .failed, hcmLastSyncAt := some (some now) })
  else
    tryCatch
      (match request.status with
        | .rejected | .cancelled => updateSyncAttempt request .skipped none
        | .pending => retryValidationOnly request
        | .approved => retryApprovalFlow request)
      fun _ => updateSyncAttempt request .pending none

def retryRequests : List TimeOffRequest → Svc Unit
  | [] => pure ()
  | request :: rest => do
      retryRequest request
      retryRequests rest

/-- `retryPendingHcmSyncs`. -/
def retryPendingHcmSyncs : Svc Unit := do
  let pendingRequests ← Svc.stmt .findPendingSyncs
  retryRequests pendingRequests

end LeaveLedger
