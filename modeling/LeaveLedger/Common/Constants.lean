import LeaveLedger.Js.Number

/-!
# Common — Constants

The enumerations of `common/constants`, the transition table of a request,
and the exceptions the services throw. An exception carries what the
error filter puts on the wire: status, error code, message and details.
-/

namespace LeaveLedger

inductive LeaveType where
  | vacation | sick | personal | maternity | paternity | bereavement
  deriving DecidableEq, Repr

def LeaveType.text : LeaveType → String
  | .vacation => "VACATION"
  | .sick => "SICK"
  | .personal => "PERSONAL"
  | .maternity => "MATERNITY"
  | .paternity => "PATERNITY"
  | .bereavement => "BEREAVEMENT"

theorem LeaveType.text_injective : Function.Injective LeaveType.text := by
  intro a b h
  cases a <;> cases b <;> first | rfl | (revert h; decide)

inductive RequestStatus where
  | pending | approved | rejected | cancelled
  deriving DecidableEq, Repr

def RequestStatus.text : RequestStatus → String
  | .pending => "PENDING"
  | .approved => "APPROVED"
  | .rejected => "REJECTED"
  | .cancelled => "CANCELLED"

inductive HcmSyncStatus where
  | pending | success | failed | skipped
  deriving DecidableEq, Repr

inductive SyncType where
  | realtime | batch
  deriving DecidableEq, Repr

/-- `SyncLogStatus`; `someFailed` is `PARTIAL`. -/
inductive SyncLogStatus where
  | started | completed | failed | someFailed
  deriving DecidableEq, Repr

/-- `VALID_TRANSITIONS`: the statuses a request may go to from each status. -/
def validTransitions : RequestStatus → List RequestStatus
  | .pending => [.approved, .rejected, .cancelled]
  | .approved => []
  | .rejected => []
  | .cancelled => []

inductive ErrorCode where
  | missingIdempotencyKey | invalidDateRange | insufficientBalance | balanceConflict
  | overlappingRequest | idempotencyConflict | invalidStatusTransition
  | requestNotFound | balanceNotFound
  deriving DecidableEq, Repr

/-- What a service throws: an HTTP exception of the framework, or an error
of the database driver with its code and message. -/
inductive Exception where
  | http (status : ℕ) (error : ErrorCode) (message : String)
      (details : List (String × String))
  | driver (code message : String)
  deriving DecidableEq, Repr

/-- `err.message`. -/
def Exception.message : Exception → String
  | .http _ _ message _ => message
  | .driver _ message => message

def badRequest (e : ErrorCode) (message : String) : Exception :=
  .http 400 e message []

def notFound (e : ErrorCode) (message : String)
    (details : List (String × String) := []) : Exception :=
  .http 404 e message details

def conflict (e : ErrorCode) (message : String)
    (details : List (String × String) := []) : Exception :=
  .http 409 e message details

def unprocessable (e : ErrorCode) (message : String)
    (details : List (String × String) := []) : Exception :=
  .http 422 e message details

/-- The driver error of a statement that is no SQL. -/
def sqlError (message : String) : Exception :=
  .driver "SQLITE_ERROR" ("SQLITE_ERROR: " ++ message)

/-- The driver error of a violated constraint of the schema. -/
def constraintError (message : String) : Exception :=
  .driver "SQLITE_CONSTRAINT" ("SQLITE_CONSTRAINT: " ++ message)

end LeaveLedger
