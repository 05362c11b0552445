import LeaveLedger.Hcm.HcmSyncService
import LeaveLedger.Store.Statement

/-!
# Sync — What the notifiers and the worker ask for

The two notifiers and the turns of the retry worker are built from the same
parts, so what they ask for is said once, for every property `P` of
requests that permits the few they make (`Permits`). Only the notifier of
an approval and a turn for an approved row send a message.
-/

namespace LeaveLedger

open Js Lib

/-- The message that tells HCM of an approval. -/
def approvalMessage (request : TimeOffRequest) (requestId : Id) : BalanceMutation where
  employeeId := request.employeeId
  locationId := request.locationId
  leaveType := request.leaveType
  daysRequested := request.daysRequested
  action := .approve
  referenceId := requestId

/-- `P` permits what is done about one request, but for sending. -/
structure Permits (P : SvcOp → Prop) (requestId : Id) : Prop where
  now : P .now
  validate : ∀ e l t d, P (.http (.validate e l t d))
  update : ∀ p : RequestPatch, p.hcmSyncStatus ≠ some .skipped →
    P (.stmt (.updateRequest requestId p))

/-- `P` permits that HCM is told of an approval. -/
abbrev PermitsSend (P : SvcOp → Prop) (request : TimeOffRequest) (requestId : Id) : Prop :=
  P (.http (.putBalance (approvalMessage request requestId)))

section asks
variable {P : SvcOp → Prop} {request : TimeOffRequest} {requestId : Id}

theorem asks_updateSync {status : HcmSyncStatus} {validated : Option Bool} {n : ℕ} (hnow : P .now)
    (h : ∀ now : ℤ, P (.stmt (.updateRequest requestId {
      hcmSyncStatus := some status, hcmValidated := validated
      hcmSyncAttempts := some n, hcmLastSyncAt := some (some now) }))) :
    (updateSync requestId status validated n).Asks P :=
  Script.asks_bind ⟨hnow, fun _ => trivial⟩ fun now => asks_stmt (h now)

theorem Permits.updateSync_asks (h : Permits P requestId) {status : HcmSyncStatus}
    (hstatus : status ≠ .skipped) {validated : Option Bool} {n : ℕ} :
    (updateSync requestId status validated n).Asks P :=
  asks_updateSync h.now fun _ => h.update _ fun heq => hstatus (Option.some.inj heq)

theorem callWithResilience_asks {r : HttpRequest} (h : P (.http r)) :
    (callWithResilience r).Asks P := by
  have hretry : ∀ left, (withRetry r left).Asks P := by
    intro left
    induction left with
    | zero => exact ⟨h, fun _ => trivial⟩
    | succ left ih =>
        refine ⟨h, fun outcome => ?_⟩
        cases outcome with
        | ok data => trivial
        | error err =>
            exact Script.asks_ite ih trivial
  refine Script.asks_bind (hretry 2) fun outcome => ?_
  cases outcome <;> trivial

theorem Permits.validationOf_asks (h : Permits P requestId) :
    (validationOf request).Asks P := by
  unfold validationOf
  split
  · trivial
  · exact callWithResilience_asks (h.validate _ _ _ _)

theorem Permits.approvalFlow_asks (h : Permits P requestId)
    (hsend : PermitsSend P request requestId) : (approvalFlow request requestId).Asks P := by
  refine Script.asks_bind h.validationOf_asks fun validation => ?_
  refine Script.asks_ite (h.updateSync_asks (by decide)) ?_
  refine Script.asks_ite (h.updateSync_asks (by decide)) ?_
  refine Script.asks_bind (callWithResilience_asks hsend) fun res => ?_
  exact Script.asks_ite (h.updateSync_asks (by decide)) (h.updateSync_asks (by decide))

theorem Permits.notifyApproval_asks (h : Permits P requestId)
    (hsend : PermitsSend P request requestId) :
    (notifyApprovalToHcmAsync request requestId).Asks P :=
  Script.asks_attempt (h.approvalFlow_asks hsend) fun _ => h.updateSync_asks (by decide)

theorem Permits.notifyHcm_asks (h : Permits P requestId) {e l : String} {t : LeaveType}
    {days : Option ℚ} : (notifyHcmAsync requestId e l t days).Asks P := by
  refine Script.asks_attempt ?_ fun _ => asks_stmt (h.update _ (by simp))
  refine Script.asks_bind (callWithResilience_asks (h.validate _ _ _ _)) fun result => ?_
  refine Script.asks_ite (h.updateSync_asks (by decide)) ?_
  exact Script.asks_ite (h.updateSync_asks (by decide)) (h.updateSync_asks (by decide))

/-- The turn of the worker for one request; a settled one it skips. -/
theorem Permits.retryRequest_asks (h : Permits P request.id)
    (hsend : request.status = .approved → PermitsSend P request request.id)
    (hskip : request.status = .rejected ∨ request.status = .cancelled →
      ∀ p, P (.stmt (.updateRequest request.id p))) : (retryRequest request).Asks P := by
  unfold retryRequest
  split
  · exact Script.asks_bind ⟨h.now, fun _ => trivial⟩ fun now =>
      asks_stmt (h.update _ (by simp))
  · refine Script.asks_attempt ?_ fun _ => h.updateSync_asks (by decide)
    cases hstatus : request.status with
    | pending =>
        refine Script.asks_bind h.validationOf_asks fun validation => ?_
        refine Script.asks_ite (h.updateSync_asks (by decide)) ?_
        exact Script.asks_ite (h.updateSync_asks (by decide)) (h.updateSync_asks (by decide))
    | approved => exact h.approvalFlow_asks (hsend hstatus)
    | rejected => exact asks_updateSync h.now fun _ => hskip (Or.inl hstatus) _
    | cancelled => exact asks_updateSync h.now fun _ => hskip (Or.inr hstatus) _

theorem retryRequests_asks {l : List TimeOffRequest}
    (h : ∀ r ∈ l, Permits P r.id ∧ (r.status = .approved → PermitsSend P r r.id)
      ∧ (r.status = .rejected ∨ r.status = .cancelled →
        ∀ p, P (.stmt (.updateRequest r.id p)))) : (retryRequests l).Asks P := by
  induction l with
  | nil => trivial
  | cons r rest ih =>
      obtain ⟨hpermits, hsend, hskip⟩ := h r (by simp)
      exact Script.asks_bind (hpermits.retryRequest_asks hsend hskip) fun _ =>
        ih fun x hx => h x (List.mem_cons_of_mem r hx)

end asks

end LeaveLedger
