import LeaveLedger.Balance.BalanceService

/-!
# TimeOff — TimeOffService

The write paths of `modules/timeoff/timeoff.service`: create with its two
idempotency checks, its lane, its retried transaction and its recovery;
approve, reject and cancel, which are one settlement with their own
status, columns and movement of days. The notifiers are in `Hcm`.
-/

namespace LeaveLedger

open Js Lib

/-! ## Idempotency -/

/-- `_checkIdempotency`: the stored body of a live record with the same hash. -/
def checkIdempotency (idempotencyKey _employeeId requestHash : String) :
    Svc (Option SerializedRequest) := do
  let existing ← Svc.stmt (.findRecord idempotencyKey)
  match existing with
  | none => pure none
  | some existing => do
      let now ← Svc.now
      if existing.expiresAt < now then
        pure none
      else if existing.requestHash ≠ requestHash then
        throw (conflict .idempotencyConflict
          ("Idempotency key has already been used for a different request payload. "
            ++ "Use a new idempotency key for a new request."))
      else
        pure (some existing.responseBody)

/-- `_recoverAfterConstraint`: the record's body, else the request stored under
the key. -/
def recoverAfterConstraint (idempotencyKey employeeId requestHash : String) :
    Svc (Option SerializedRequest) := do
  let cached ← checkIdempotency idempotencyKey employeeId requestHash
  match cached with
  | some cached => pure (some cached)
  | none => do
      let existingRequest ← Svc.stmt (.findRequestByKey idempotencyKey)
      match existingRequest with
      | some existingRequest => pure (some (serializeRequest existingRequest))
      | none => pure none

/-! ## The create transaction -/

/-- `_lockEmployeeBalances`: on sqlite a plain read. -/
def lockEmployeeBalances (employeeId locationId : String) : Tx Unit := do
  let _ ← Tx.stmt (.findBalanceIds employeeId locationId)
  pure ()

/-- The first active request whose dates overlap raises the conflict. -/
def assertNoneOverlaps (startDate endDate : String) : List TimeOffRequest → Tx Unit
  | [] => pure ()
  | existing :: rest =>
      if datesOverlap startDate endDate existing.startDate existing.endDate then
        throw (conflict .overlappingRequest
          ("Request overlaps with existing " ++ existing.status.text ++ " request")
          [("conflictingRequestId", toString existing.id),
            ("conflictingStatus", existing.status.text),
            ("conflictingRange", existing.startDate ++ " → " ++ existing.endDate),
            ("requestedRange", startDate ++ " → " ++ endDate)])
      else assertNoneOverlaps startDate endDate rest

/-- `_assertNoOverlap`. -/
def assertNoOverlap (employeeId locationId startDate endDate : String) : Tx Unit := do
  let activeRequests ← Tx.stmt (.findActiveRequests employeeId locationId)
  assertNoneOverlaps startDate endDate activeRequests

/-- Step 7: the request of a payload, once its days are known to be a number. -/
def newRequest (dto : CreateTimeOffRequestDto) (idempotencyKey : String) (daysRequested : ℚ) :
    NewRequest where
  idempotencyKey := idempotencyKey
  employeeId := dto.employeeId
  locationId := dto.locationId
  leaveType := dto.leaveType
  startDate := dto.startDate
  endDate := dto.endDate
  daysRequested := daysRequested
  status := .pending
  requestedBy := dto.employeeId
  notes := orNull dto.notes
  hcmSyncStatus := .pending

/-- Step 8: the idempotency record of a saved request. -/
def newRecord (env : Env) (dto : CreateTimeOffRequestDto) (idempotencyKey requestHash : String)
    (saved : TimeOffRequest) (now : ℤ) : NewRecord where
  idempotencyKey := idempotencyKey
  employeeId := dto.employeeId
  requestHash := requestHash
  responseStatus := 201
  responseBody := serializeRequest saved
  expiresAt := now + env.idempotencyTtlMs

/-- Steps 4 to 8 of `createRequest`. -/
def createTransaction (env : Env) (dto : CreateTimeOffRequestDto)
    (idempotencyKey requestHash : String) (daysRequested : Option ℚ) : Tx TimeOffRequest := do
  lockEmployeeBalances dto.employeeId dto.locationId
  assertNoOverlap dto.employeeId dto.locationId dto.startDate dto.endDate
  let _ ← atomicDeduct dto.employeeId dto.locationId dto.leaveType daysRequested
  let days ← sqlNumber daysRequested
  let saved ← Tx.stmt (.insertRequest (newRequest dto idempotencyKey days))
  let now ← Tx.now
  let _ ← Tx.stmt (.insertRecord (newRecord env dto idempotencyKey requestHash saved now))
  pure saved

/-! ## Errors of the driver -/

def isInfixOf (needle : List Char) : List Char → Bool
  | [] => needle.isEmpty
  | c :: cs => needle.isPrefixOf (c :: cs) || isInfixOf needle cs

/-- `_isSqliteConstraintError`. -/
def isSqliteConstraintError : Exception → Bool
  | .driver code _ => code = "SQLITE_CONSTRAINT" || code = "SQLITE_CONSTRAINT_UNIQUE"
  | .http _ _ _ _ => false

/-- `_isSqliteTransientTxError`: by code, else by the text of the message. -/
def isSqliteTransientTxError (err : Exception) : Bool :=
  let message := match err with
    | .driver _ m => m
    | .http _ _ m _ => m
  let code := match err with
    | .driver c _ => c
    | .http _ _ _ _ => ""
  code = "SQLITE_BUSY" || code = "SQLITE_LOCKED"
    || isInfixOf "cannot start a transaction within a transaction".toList
        message.toLower.toList
    || isInfixOf "database is locked".toList message.toLower.toList

/-- `_runCreateTransactionWithRetry`, with the attempts that are left after this
one: a transient error is tried again after a pause of 5 ms times the
attempt. -/
def runCreateTransaction (runTx : Svc TimeOffRequest) (maxAttempts : ℕ) :
    ℕ → Svc TimeOffRequest
  | 0 => runTx
  | left + 1 => do
      let attempt := maxAttempts - (left + 1)
      tryCatch runTx fun err =>
        if !isSqliteTransientTxError err then throw err
        else do
          Svc.sleep (5 * attempt)
          runCreateTransaction runTx maxAttempts left

def runCreateTransactionWithRetry (runTx : Svc TimeOffRequest) : Svc TimeOffRequest :=
  runCreateTransaction runTx 3 2

/-- `_withCreateLock`: calls of one lane take turns in the order they came. -/
def withCreateLock (lockKey : String) (fn : Svc SerializedRequest) : Svc SerializedRequest := do
  let ticket ← Svc.enqueueCreateLock lockKey
  Svc.awaitCreateLock lockKey ticket
  fn.ensure (Svc.releaseCreateLock lockKey ticket)

/-! ## Create -/

/-- The second half of the `catch` of `createRequest`: contention that outlived
the retries. -/
def recoverTransient (idempotencyKey employeeId requestHash : String) (err : Exception) :
    Svc SerializedRequest :=
  if isSqliteTransientTxError err then do
    let recovered ← recoverAfterConstraint idempotencyKey employeeId requestHash
    match recovered with
    | some recovered => pure recovered
    | none =>
        throw (conflict .balanceConflict
          ("Concurrent write contention detected. "
            ++ "Please retry with the same idempotency key."))
  else throw err

/-- The `catch` of `createRequest`. -/
def recoverCreate (idempotencyKey employeeId requestHash : String) (err : Exception) :
    Svc SerializedRequest :=
  if isSqliteConstraintError err then do
    let recovered ← recoverAfterConstraint idempotencyKey employeeId requestHash
    match recovered with
    | some recovered => pure recovered
    | none => recoverTransient idempotencyKey employeeId requestHash err
  else recoverTransient idempotencyKey employeeId requestHash err

/-- What `createRequest` does under its lane. -/
def createLocked (env : Env) (dto : CreateTimeOffRequestDto)
    (idempotencyKey requestHash : String) (daysRequested : Option ℚ) :
    Svc SerializedRequest := do
  let lockedIdempotencyCheck ← checkIdempotency idempotencyKey dto.employeeId requestHash
  match lockedIdempotencyCheck with
  | some body => pure body
  | none =>
      tryCatch
        (do
          let createdRequest ← runCreateTransactionWithRetry
            (Svc.transaction
              (createTransaction env dto idempotencyKey requestHash daysRequested))
          Svc.setImmediate (.notifyHcm createdRequest.id dto.employeeId dto.locationId
            dto.leaveType daysRequested)
          pure (serializeRequest createdRequest))
        (recoverCreate idempotencyKey dto.employeeId requestHash)

/-- `endD < startD`, false as soon as one of them is an invalid date. -/
def endsBeforeStart (dto : CreateTimeOffRequestDto) : Bool :=
  match midnightUTC dto.startDate, midnightUTC dto.endDate with
  | some startD, some endD => endD < startD
  | _, _ => false

/-- `daysRequested` of a payload, `none` for `NaN`. -/
def daysOf (dto : CreateTimeOffRequestDto) : Option ℚ :=
  (calculateDaysRequested dto.startDate dto.endDate).map fun n : ℤ => (n : ℚ)

/-- `hashObject(dto)`. -/
def requestHashOf (env : Env) (dto : CreateTimeOffRequestDto) : String :=
  hashObject env.hashing dto.toJson

/-- `createRequest` after its input validation. -/
def createValidated (env : Env) (dto : CreateTimeOffRequestDto) (idempotencyKey : String) :
    Svc SerializedRequest := do
  let daysRequested := daysOf dto
  let requestHash := requestHashOf env dto
  let idempotencyCheck ← checkIdempotency idempotencyKey dto.employeeId requestHash
  match idempotencyCheck with
  | some body => pure body
  | none =>
      withCreateLock (dto.employeeId ++ ":" ++ dto.locationId)
        (createLocked env dto idempotencyKey requestHash daysRequested)

/-- `createRequest`. -/
def createRequest (env : Env) (dto : CreateTimeOffRequestDto) (idempotencyKey : String) :
    Svc SerializedRequest :=
  if idempotencyKey = "" then
    throw (badRequest .missingIdempotencyKey
      "X-Idempotency-Key header is required for all write operations")
  else do
    let now ← Svc.now
    if !isNotInPast now dto.startDate then
      throw (unprocessable .invalidDateRange "startDate cannot be in the past")
    else if endsBeforeStart dto then
      throw (unprocessable .invalidDateRange "endDate must be on or after startDate")
    else createValidated env dto idempotencyKey

/-! ## Approve, reject, cancel -/

/-- `_getRequestLockedOrThrow`: on sqlite a plain read. -/
def getRequestLockedOrThrow (requestId : Id) : Tx TimeOffRequest := do
  let request ← Tx.stmt (.findRequest requestId)
  match request with
  | some request => pure request
  | none =>
      throw (notFound .requestNotFound
        ("Time-off request " ++ toString requestId ++ " not found"))

/-- `_assertValidTransition`. -/
def assertValidTransition (currentStatus targetStatus : RequestStatus) : Tx Unit :=
  let allowed := validTransitions currentStatus
  if targetStatus ∈ allowed then pure ()
  else
    throw (conflict .invalidStatusTransition
      ("Cannot transition from " ++ currentStatus.text ++ " to " ++ targetStatus.text
        ++ ". Allowed transitions from " ++ currentStatus.text ++ ": ["
        ++ (if allowed = [] then "none" else ", ".intercalate (allowed.map RequestStatus.text))
        ++ "]"))

/-- The common transaction of the three settlements: load the request, check
the transition, save it with the columns `settle` sets, move its days. -/
def settleTransaction (requestId : Id) (target : RequestStatus)
    (settle : ℤ → TimeOffRequest → TimeOffRequest)
    (moveDays : String → String → LeaveType → ℚ → Tx EmployeeBalance)
    (after : TimeOffRequest → Tx Unit) : Tx TimeOffRequest := do
  let request ← getRequestLockedOrThrow requestId
  assertValidTransition request.status target
  let now ← Tx.now
  let request ← Tx.stmt (.saveRequest (settle now request))
  let _ ← moveDays request.employeeId request.locationId request.leaveType request.daysRequested
  after request
  pure request

/-- The columns `approveRequest` sets. -/
def markApproved (approverId : String) (now : ℤ) (request : TimeOffRequest) : TimeOffRequest :=
  { request with
    status := .approved, approvedBy := some approverId, approvedAt := some now }

/-- The columns `rejectRequest` sets. -/
def markRejected (approverId reason : String) (now : ℤ) (request : TimeOffRequest) :
    TimeOffRequest :=
  { request with
    status := .rejected, approvedBy := some approverId, approvedAt := some now
    rejectionReason := some reason }

/-- The columns `cancelRequest` sets. -/
def markCancelled (reason : Option String) (_now : ℤ) (request : TimeOffRequest) :
    TimeOffRequest :=
  { request with status := .cancelled, rejectionReason := reason }

def approveTransaction (requestId : Id) (approverId : String) : Tx TimeOffRequest :=
  -- the notification is scheduled inside the callback, before the commit
  settleTransaction requestId .approved (markApproved approverId) finalizeUsed
    fun request => Tx.setImmediate (.notifyApproval request requestId)

def rejectTransaction (requestId : Id) (approverId reason : String) : Tx TimeOffRequest :=
  settleTransaction requestId .rejected (markRejected approverId reason) releaseFromPending
    fun _ => pure ()

def cancelTransaction (requestId : Id) (reason : Option String) : Tx TimeOffRequest :=
  settleTransaction requestId .cancelled (markCancelled reason) releaseFromPending
    fun _ => pure ()

def approveRequest (requestId : Id) (approverId : String) : Svc SerializedRequest := do
  let request ← Svc.transaction (approveTransaction requestId approverId)
  pure (serializeRequest request)

def rejectRequest (requestId : Id) (approverId reason : String) : Svc SerializedRequest := do
  let request ← Svc.transaction (rejectTransaction requestId approverId reason)
  pure (serializeRequest request)

def cancelRequest (requestId : Id) (reason : Option String) : Svc SerializedRequest := do
  let request ← Svc.transaction (cancelTransaction requestId reason)
  pure (serializeRequest request)

end LeaveLedger
