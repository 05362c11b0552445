import LeaveLedger.Hcm.HcmSyncService

/-!
# Hcm — The notifiers and the injected HcmService

Both services get their `hcmService` injected. Here the two notifiers of
the time-off service and the turns of the retry worker are written over any
such client, each with its own copy of the decision, as in the source. With
the client that goes through `_callWithResilience` they are the ones that
run in the service.
-/

namespace LeaveLedger

open Js Lib

/-- The methods of `hcmService` that are called here. -/
structure HcmClient where
  validateRequest (employeeId locationId : String) (leaveType : LeaveType)
    (daysRequested : Option ℚ) : Svc Json
  notifyApproval (employeeId locationId : String) (leaveType : LeaveType) (daysRequested : ℚ)
    (requestId : Id) : Svc Json

namespace HcmClient

/-- `HcmService`. -/
def service : HcmClient := ⟨LeaveLedger.validateRequest, LeaveLedger.notifyApproval⟩

/-- A client that answers, or throws, without asking anybody. -/
def answering (validation approval : Except Exception Json) : HcmClient where
  validateRequest _ _ _ _ := orThrow validation
  notifyApproval _ _ _ _ _ := orThrow approval

variable (hcm : HcmClient)

/-! ## The time-off service -/

/-- The callback of `_notifyHcmAsync`. -/
def notifyHcmAsync (requestId : Id) (employeeId locationId : String) (leaveType : LeaveType)
    (daysRequested : Option ℚ) : Svc Unit :=
  tryCatch
    (do
      let result ← hcm.validateRequest employeeId locationId leaveType daysRequested
      if result matches .null then
        updateSync requestId .pending none 1
      -- `result.valid === false`
      else if Json.isFalse (result.get? "valid") then
        updateSync requestId .failed (some false) 1
      else
        updateSync requestId .success (some true) 1)
    fun _ =>
      Svc.stmt (.updateRequest requestId {
        hcmSyncStatus := some .pending, hcmSyncAttempts := some 1 })

/-- `_notifyApprovalToHcmAsync` from the call of `notifyApproval` on. -/
def notifyValidated (request : TimeOffRequest) (requestId : Id) (isValidated : Bool) :
    Svc Unit := do
  let res ← hcm.notifyApproval request.employeeId request.locationId request.leaveType
    request.daysRequested requestId
  if isAcknowledged res then
    updateSync requestId .success (some isValidated) (request.hcmSyncAttempts + 1)
  else
    updateSync requestId .pending (some isValidated) (request.hcmSyncAttempts + 1)

/-- `_notifyApprovalToHcmAsync`. -/
def notifyApprovalToHcmAsync (request : TimeOffRequest) (requestId : Id) : Svc Unit :=
  tryCatch
    (do
      if !request.hcmValidated then
        let validation ← hcm.validateRequest request.employeeId request.locationId
          request.leaveType (some request.daysRequested)
        if validation matches .null then
          updateSync requestId .pending none (request.hcmSyncAttempts + 1)
        else if !isValid validation then
          updateSync requestId .failed (some false) (request.hcmSyncAttempts + 1)
        else
          hcm.notifyValidated request requestId true
      else
        hcm.notifyValidated request requestId request.hcmValidated)
    fun _ => updateSync requestId .pending none (request.hcmSyncAttempts + 1)

/-! ## The retry worker -/

/-- `_retryValidationOnly`. -/
def retryValidationOnly (request : TimeOffRequest) : Svc Unit := do
  let validation ←
    if request.hcmValidated then pure (.obj [("valid", .bool true)])
    else
      hcm.validateRequest request.employeeId request.locationId request.leaveType
        (some request.daysRequested)
  if validation matches .null then
    updateSyncAttempt request .pending none
  -- `validation.valid !== true`
  else if !isValid validation then
    updateSyncAttempt request .failed (some false)
  else
    updateSyncAttempt request .success (some true)

/-- `_retryApprovalFlow` from the call of `notifyApproval` on. -/
def retryValidated (request : TimeOffRequest) (isValidated : Bool) : Svc Unit := do
  let approval ← hcm.notifyApproval request.employeeId request.locationId request.leaveType
    request.daysRequested request.id
  if isAcknowledged approval then
    updateSyncAttempt request .success (some isValidated)
  else
    updateSyncAttempt request .pending (some isValidated)

/-- `_retryApprovalFlow`. -/
def retryApprovalFlow (request : TimeOffRequest) : Svc Unit := do
  if !request.hcmValidated then
    let validation ← hcm.validateRequest request.employeeId request.locationId
      request.leaveType (some request.daysRequested)
    if validation matches .null then
      updateSyncAttempt request .pending none
    else if !isValid validation then
      updateSyncAttempt request .failed (some false)
    else
      hcm.retryValidated request true
  else
    hcm.retryValidated request request.hcmValidated

/-- The branches of the loop of `retryPendingHcmSyncs`. -/
def retryByStatus (request : TimeOffRequest) : Svc Unit :=
  match request.status with
  | .rejected | .cancelled => updateSyncAttempt request .skipped none
  | .pending => hcm.retryValidationOnly request
  | .approved => hcm.retryApprovalFlow request

/-- Its `try`, with the `catch`. -/
def tryRequest (request : TimeOffRequest) : Svc Unit :=
  tryCatch (hcm.retryByStatus request) fun _ => updateSyncAttempt request .pending none

/-- One turn of the loop, on a row read earlier. -/
def retryRequest (request : TimeOffRequest) : Svc Unit := do
  if maxPendingSyncRetries ≤ request.hcmSyncAttempts then
    let now ← Svc.now
    Svc.stmt (.updateRequest request.id {
      hcmSyncStatus := some .failed, hcmLastSyncAt := some (some now) })
  else
    hcm.tryRequest request

def retryRequests : List TimeOffRequest → Svc Unit
  | [] => pure ()
  | request :: rest => do
      hcm.retryRequest request
      retryRequests rest

/-- `retryPendingHcmSyncs`. -/
def retryPendingHcmSyncs : Svc Unit := do
  let pendingRequests ← Svc.stmt .findPendingSyncs
  hcm.retryRequests pendingRequests

/-! ## With `HcmService` they are those of the service -/

theorem service_notifyHcmAsync :
    service.notifyHcmAsync = LeaveLedger.notifyHcmAsync := rfl

/-- The validation on record stands in for the answer. -/
theorem service_retryApprovalFlow (request : TimeOffRequest) :
    service.retryApprovalFlow request = LeaveLedger.retryApprovalFlow request := by
  unfold retryApprovalFlow LeaveLedger.retryApprovalFlow approvalFlow validationOf
  cases hvalidated : request.hcmValidated with
  | false => rfl
  | true => rfl

theorem service_notifyApprovalToHcmAsync (request : TimeOffRequest) (requestId : Id) :
    service.notifyApprovalToHcmAsync request requestId
      = LeaveLedger.notifyApprovalToHcmAsync request requestId := by
  unfold notifyApprovalToHcmAsync LeaveLedger.notifyApprovalToHcmAsync approvalFlow validationOf
  cases hvalidated : request.hcmValidated with
  | false => rfl
  | true => rfl

theorem service_retryValidationOnly (request : TimeOffRequest) :
    service.retryValidationOnly request = LeaveLedger.retryValidationOnly request := by
  unfold retryValidationOnly LeaveLedger.retryValidationOnly validationOf
  cases hvalidated : request.hcmValidated with
  | false => rfl
  | true => rfl

theorem service_retryRequest (request : TimeOffRequest) :
    service.retryRequest request = LeaveLedger.retryRequest request := by
  unfold retryRequest LeaveLedger.retryRequest tryRequest retryByStatus
  cases hstatus : request.status with
  | approved => simp only [service_retryApprovalFlow]
  | pending => simp only [service_retryValidationOnly]
  | rejected => rfl
  | cancelled => rfl

theorem service_retryPendingHcmSyncs :
    service.retryPendingHcmSyncs = LeaveLedger.retryPendingHcmSyncs := by
  have hloop : ∀ l, service.retryRequests l = LeaveLedger.retryRequests l := by
    intro l
    induction l with
    | nil => rfl
    | cons request rest ih =>
        simp only [retryRequests, LeaveLedger.retryRequests, service_retryRequest, ih]
  simp only [retryPendingHcmSyncs, LeaveLedger.retryPendingHcmSyncs, hloop]

end HcmClient

end LeaveLedger
