import LeaveLedger.Store.World

/-!
# Hcm — HcmService

`modules/hcm/hcm.service`: every call goes through `withRetry` and, inside
it, the circuit breaker, and comes back as `null` when it failed. Whether
the breaker lets an attempt out is part of the outcome of the attempt.
-/

namespace LeaveLedger

open Js Lib

/-- `isRetryable`. -/
def isRetryable : HttpError → Bool
  | .circuitOpen => false
  | .response status =>
      if status = 429 || status = 408 then true
      else if 400 ≤ status && status < 500 then false
      else true
  | .noResponse => true

/-- `withRetry`, with the attempts that are left after this one. -/
def withRetry (request : HttpRequest) : ℕ → Svc HttpOutcome
  | 0 => Svc.http request
  | left + 1 => do
      let outcome ← Svc.http request
      match outcome with
      | .ok data => pure (.ok data)
      | .error err =>
          if isRetryable err then withRetry request left else pure (.error err)

/-- `_callWithResilience` with the default of three attempts: the body of the
answer, `null` when there is none. -/
def callWithResilience (request : HttpRequest) : Svc Json := do
  let outcome ← withRetry request 2
  match outcome with
  | .ok data => pure data
  | .error _ => pure .null

/-- `validateRequest`. -/
def validateRequest (employeeId locationId : String) (leaveType : LeaveType)
    (daysRequested : Option ℚ) : Svc Json :=
  callWithResilience (.validate employeeId locationId leaveType daysRequested)

/-- `notifyApproval`. -/
def notifyApproval (employeeId locationId : String) (leaveType : LeaveType)
    (daysRequested : ℚ) (requestId : Id) : Svc Json :=
  callWithResilience (.putBalance {
    employeeId := employeeId, locationId := locationId, leaveType := leaveType
    daysRequested := daysRequested, action := .approve, referenceId := requestId })

end LeaveLedger
