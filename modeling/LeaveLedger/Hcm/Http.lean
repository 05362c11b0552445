import LeaveLedger.Js.Json
import LeaveLedger.Store.Entities

/-!
# Hcm — Requests to the HCM system

The HTTP requests the service sends upstream, and what can come back.
-/

namespace LeaveLedger

open Js

inductive BalanceAction where
  | approve | reject
  deriving DecidableEq

/-- The body of `PUT /hcm/balance`. -/
structure BalanceMutation where
  employeeId : String
  locationId : String
  leaveType : LeaveType
  daysRequested : ℚ
  action : BalanceAction
  referenceId : Id
  deriving DecidableEq

inductive HttpRequest where
  | getBalance (employeeId locationId : String) (leaveType : LeaveType)
  | validate (employeeId locationId : String) (leaveType : LeaveType)
      (daysRequested : Option ℚ)
  | putBalance (data : BalanceMutation)
  | batchSync (locationId : Option String)
  deriving DecidableEq

/-- Why a call has no answer: the circuit breaker did not let it out, the
upstream answered with an error status, or no response came. -/
inductive HttpError where
  | circuitOpen
  | response (status : ℕ)
  | noResponse
  deriving DecidableEq

/-- `response.data` of an answer, or the error the client rejects with. -/
abbrev HttpOutcome := Except HttpError Json

end LeaveLedger
