import LeaveLedger.Hcm.Notifiers
import LeaveLedger.Store.Statement

/-!
# Sync — How the notifiers judge an answer

Four places decide what an answer of HCM means for a request. The notifier
of a new request asks whether `valid` is `false`, the other three whether it
is not `true`, so they part where an answer says neither.
-/

namespace LeaveLedger

open Js Lib

/-- The answer of a validation, or what the client threw, with which every notifier does
the same: nothing, or a `valid` that is `true` or `false`. -/
def Judgeable : Except Exception Json → Prop
  | .error _ => True
  | .ok .null => True
  | .ok validation =>
      Json.isTrue (validation.get? "valid") = true ∨ Json.isFalse (validation.get? "valid") = true

/-- `validation.valid === true`. -/
def SaysValid : Except Exception Json → Prop
  | .error _ => False
  | .ok validation => isValid validation = true

/-- The HCM columns of a request. -/
structure SyncColumns where
  hcmSyncStatus : HcmSyncStatus
  hcmValidated : Bool
  hcmSyncAttempts : ℕ
  deriving DecidableEq

def TimeOffRequest.syncColumns (r : TimeOffRequest) : SyncColumns :=
  ⟨r.hcmSyncStatus, r.hcmValidated, r.hcmSyncAttempts⟩

/-- What a script leaves in the HCM columns of the request `id`. -/
def columnsAfter (p : Svc Unit) (w : World) (id : Id) : Option SyncColumns :=
  (p.run (execSvc {}) w).bind fun x => (x.2.db.requests.byPk id).map TimeOffRequest.syncColumns

/-- Two scripts write the same status and the same `hcmValidated`. -/
def SameJudgement (c c' : Option SyncColumns) : Prop :=
  (c.map fun c => (c.hcmSyncStatus, c.hcmValidated))
    = c'.map fun c => (c.hcmSyncStatus, c.hcmValidated)

/-- The notifiers that run for a request: that of its creation or its approval, and the
turn of the retry worker. -/
def notifiersOf (hcm : HcmClient) (r : TimeOffRequest) : List (Svc Unit) :=
  match r.status with
  | .pending =>
      [hcm.notifyHcmAsync r.id r.employeeId r.locationId r.leaveType (some r.daysRequested),
        hcm.tryRequest r]
  | .approved => [hcm.notifyApprovalToHcmAsync r r.id, hcm.tryRequest r]
  | .rejected | .cancelled => []

/-- The notifiers judge the answers of `hcm` about a request alike. -/
structure JudgedAlike (hcm : HcmClient) (validation : Except Exception Json) (w : World)
    (r : TimeOffRequest) : Prop where
  creation : r.status = .pending → r.hcmValidated = false →
    SameJudgement
      (columnsAfter (hcm.notifyHcmAsync r.id r.employeeId r.locationId r.leaveType
        (some r.daysRequested)) w r.id)
      (columnsAfter (hcm.tryRequest r) w r.id)
  approval : r.status = .approved →
    columnsAfter (hcm.notifyApprovalToHcmAsync r r.id) w r.id
      = columnsAfter (hcm.tryRequest r) w r.id
  success : ∀ p ∈ notifiersOf hcm r, ∀ c, columnsAfter p w r.id = some c →
    c.hcmSyncStatus = .success → SaysValid validation ∨ r.hcmValidated = true

/-! ## What a write leaves -/

section
variable {w : World} {r row : TimeOffRequest} {id : Id}

theorem run_updateSync (fate : Fate) (status : HcmSyncStatus) (validated : Option Bool) (n : ℕ) :
    (updateSync id status validated n).run (execSvc fate) w = some (.ok (), { w with
      db := w.db.updateRequest id {
        hcmSyncStatus := some status, hcmValidated := validated
        hcmSyncAttempts := some n, hcmLastSyncAt := some (some w.clock) } w.clock
      uuid := w.uuid + 1 }) := rfl

theorem columnsAfter_updateSync (hrow : w.db.requests.byPk id = some row) (status : HcmSyncStatus)
    (validated : Option Bool) (n : ℕ) :
    columnsAfter (updateSync id status validated n) w id
      = some ⟨status, validated.getD row.hcmValidated, n⟩ := by
  have hid : row.id = id := (Table.byPk_eq_some.mp hrow).2
  simp only [columnsAfter, run_updateSync, Option.bind_some, byPk_updateRequest, hrow,
    Option.map_some, hid, if_true]
  rfl

/-- A write that goes through leaves nothing to catch. -/
theorem columnsAfter_updateSync_attempt (hrow : w.db.requests.byPk id = some row)
    (status : HcmSyncStatus) (validated : Option Bool) (n : ℕ) (h : Exception → Svc Unit) :
    columnsAfter ((updateSync id status validated n).attempt h) w id
      = some ⟨status, validated.getD row.hcmValidated, n⟩ := by
  rw [← columnsAfter_updateSync hrow status validated n]
  simp only [columnsAfter, Script.run_attempt, run_updateSync, Option.bind_some]

/-! ## The four decisions -/

variable {validation approval : Except Exception Json}

/-- The notifier of a new request, on the row it finds. -/
theorem columnsAfter_notifyHcm (hrow : w.db.requests.byPk r.id = some row) :
    columnsAfter ((HcmClient.answering validation approval).notifyHcmAsync r.id r.employeeId
        r.locationId r.leaveType (some r.daysRequested)) w r.id
      = some (match validation with
        | .error _ => ⟨.pending, row.hcmValidated, 1⟩
        | .ok .null => ⟨.pending, row.hcmValidated, 1⟩
        | .ok data =>
            if Json.isFalse (data.get? "valid") then ⟨.failed, false, 1⟩
            else ⟨.success, true, 1⟩) := by
  cases validation with
  | error e =>
      have hid : row.id = r.id := (Table.byPk_eq_some.mp hrow).2
      show ((w.db.updateRequest r.id { hcmSyncStatus := some .pending, hcmSyncAttempts := some 1 }
        w.clock).requests.byPk r.id).map TimeOffRequest.syncColumns = _
      simp only [byPk_updateRequest, hrow, Option.map_some, hid, if_true]
      rfl
  | ok data =>
      cases data with
      | null => exact columnsAfter_updateSync_attempt hrow _ _ _ _
      | obj fields =>
          by_cases hfalse : Json.isFalse ((Json.obj fields).get? "valid") = true
          · simp only [HcmClient.notifyHcmAsync, HcmClient.answering, orThrow_ok,
              Script.tryCatch_eq, Script.bind_eq, Script.bind_done, hfalse, Bool.false_eq_true,
              if_true, if_false]
            exact columnsAfter_updateSync_attempt hrow _ _ _ _
          · simp only [HcmClient.notifyHcmAsync, HcmClient.answering, orThrow_ok,
              Script.tryCatch_eq, Script.bind_eq, Script.bind_done, hfalse, Bool.false_eq_true,
              if_false]
            exact columnsAfter_updateSync_attempt hrow _ _ _ _
      | _ => exact columnsAfter_updateSync_attempt hrow _ _ _ _

/-- The turn of the worker for a pending request, on the row it finds. -/
theorem columnsAfter_retryPending (hrow : w.db.requests.byPk r.id = some row)
    (hstatus : r.status = .pending) :
    columnsAfter ((HcmClient.answering validation approval).tryRequest r) w r.id
      = some (if r.hcmValidated then ⟨.success, true, r.hcmSyncAttempts + 1⟩
        else match validation with
        | .error _ => ⟨.pending, row.hcmValidated, r.hcmSyncAttempts + 1⟩
        | .ok .null => ⟨.pending, row.hcmValidated, r.hcmSyncAttempts + 1⟩
        | .ok data =>
            if isValid data then ⟨.success, true, r.hcmSyncAttempts + 1⟩
            else ⟨.failed, false, r.hcmSyncAttempts + 1⟩) := by
  simp only [HcmClient.tryRequest, HcmClient.retryByStatus, hstatus,
    HcmClient.retryValidationOnly, Script.tryCatch_eq, Script.bind_eq]
  cases hvalidated : r.hcmValidated with
  | true => exact columnsAfter_updateSync_attempt hrow _ _ _ _
  | false =>
      simp only [Bool.false_eq_true, if_false, HcmClient.answering]
      cases validation with
      | error e => exact columnsAfter_updateSync hrow _ _ _
      | ok data =>
          cases data with
          | null => exact columnsAfter_updateSync_attempt hrow _ _ _ _
          | obj fields =>
              by_cases hvalid : isValid (.obj fields) = true
              · simp only [orThrow_ok, Script.bind_done, hvalid, Bool.not_true,
                  Bool.false_eq_true, if_true, if_false]
                exact columnsAfter_updateSync_attempt hrow _ _ _ _
              · simp only [orThrow_ok, Script.bind_done, hvalid, Bool.not_false,
                  Bool.false_eq_true, if_true, if_false]
                exact columnsAfter_updateSync_attempt hrow _ _ _ _
          | _ => exact columnsAfter_updateSync_attempt hrow _ _ _ _

/-- The notifier of an approval and the turn of the worker for an approved request are
one program. -/
theorem retryApproved_eq (hcm : HcmClient) (hstatus : r.status = .approved) :
    hcm.tryRequest r = hcm.notifyApprovalToHcmAsync r r.id := by
  simp only [HcmClient.tryRequest, HcmClient.retryByStatus, hstatus]
  rfl

/-- What it leaves a request without a validation on record: `SUCCESS` takes an answer with
`valid === true`. -/
theorem saysValid_of_success {c : SyncColumns} (hrow : w.db.requests.byPk r.id = some row)
    (hvalidated : r.hcmValidated = false)
    (hc : columnsAfter ((HcmClient.answering validation approval).notifyApprovalToHcmAsync r r.id)
      w r.id = some c) (hsuccess : c.hcmSyncStatus = .success) : SaysValid validation := by
  -- every other answer is written as `PENDING` or `FAILED`
  have hother : ∀ status v n, columnsAfter ((HcmClient.answering validation
      approval).notifyApprovalToHcmAsync r r.id) w r.id = some ⟨status, v, n⟩ →
      status = .success := by
    intro status v n h
    rw [hc] at h
    cases h
    exact hsuccess
  simp only [HcmClient.notifyApprovalToHcmAsync, hvalidated, HcmClient.answering, Bool.not_false,
    if_true, Script.tryCatch_eq, Script.bind_eq] at hother
  cases validation with
  | error e => cases hother _ _ _ (columnsAfter_updateSync hrow _ _ _)
  | ok data =>
      cases data with
      | null => cases hother _ _ _ (columnsAfter_updateSync_attempt hrow _ _ _ _)
      | obj fields =>
          by_cases hvalid : isValid (.obj fields) = true
          · exact hvalid
          · simp only [orThrow_ok, Script.bind_done, hvalid, Bool.not_false, Bool.false_eq_true,
              if_true, if_false] at hother
            cases hother _ _ _ (columnsAfter_updateSync_attempt hrow _ _ _ _)
      | _ => cases hother _ _ _ (columnsAfter_updateSync_attempt hrow _ _ _ _)

/-! ## Where they agree -/

/-- The two decisions about a new request are the same exactly for what is judged alike. -/
theorem sameJudgement_iff (approval : Except Exception Json)
    (hrow : w.db.requests.byPk r.id = some row) (hstatus : r.status = .pending)
    (hvalidated : r.hcmValidated = false) :
    SameJudgement
        (columnsAfter ((HcmClient.answering validation approval).notifyHcmAsync r.id r.employeeId
          r.locationId r.leaveType (some r.daysRequested)) w r.id)
        (columnsAfter ((HcmClient.answering validation approval).tryRequest r) w r.id)
      ↔ Judgeable validation := by
  rw [columnsAfter_notifyHcm hrow, columnsAfter_retryPending hrow hstatus, hvalidated]
  simp only [SameJudgement, Bool.false_eq_true, if_false, Option.map_some, Option.some.injEq]
  cases validation with
  | error e => simp [Judgeable]
  | ok data =>
      cases data with
      | null => simp [Judgeable]
      | obj fields =>
          simp only [Judgeable]
          by_cases hvalid : isValid (.obj fields) = true
          · -- `valid` is `true`, so it is not `false`
            have hfalse : Json.isFalse ((Json.obj fields).get? "valid") = false := by
              unfold isValid Json.isTrue at hvalid
              split at hvalid
              · next heq => rw [heq]; rfl
              · cases hvalid
            have htrue : Json.isTrue ((Json.obj fields).get? "valid") = true := hvalid
            simp [hfalse, hvalid, htrue]
          · have htrue : Json.isTrue ((Json.obj fields).get? "valid") = false := by
              simpa [isValid] using hvalid
            by_cases hfalse : Json.isFalse ((Json.obj fields).get? "valid") = true
            · simp [hfalse, hvalid]
            · simp [hfalse, hvalid, htrue]
      | _ => simp [Judgeable, isValid, Json.get?, Json.isTrue, Json.isFalse]

end

/-- The worker writes `SUCCESS` to a pending request for `valid === true` alone. -/
theorem saysValid_of_worker {c : SyncColumns} (hrow : w.db.requests.byPk r.id = some row)
    (hstatus : r.status = .pending) (hvalidated : r.hcmValidated = false)
    (hc : columnsAfter ((HcmClient.answering validation approval).tryRequest r) w r.id = some c)
    (hsuccess : c.hcmSyncStatus = .success) : SaysValid validation := by
  rw [columnsAfter_retryPending hrow hstatus, hvalidated] at hc
  simp only [Bool.false_eq_true, if_false, Option.some.injEq] at hc
  subst hc
  cases validation with
  | error e => cases hsuccess
  | ok data =>
      by_cases hvalid : isValid data = true
      · exact hvalid
      · cases data with
        | null => cases hsuccess
        | _ => simp [hvalid] at hsuccess

/-- **One judgement**: for every answer of the validation, every answer of the approval and
every exception of either, the notifiers judge a request alike exactly when it is not a
pending request without a validation on record, or the validation throws, answers `null`,
or has a `valid` that is `true` or `false`. -/
theorem judged_alike_iff (validation approval : Except Exception Json) (w : World)
    (r : TimeOffRequest) (hr : r ∈ w.db.requests.rows) :
    JudgedAlike (.answering validation approval) validation w r
      ↔ (r.status = .pending → r.hcmValidated = false → Judgeable validation) := by
  have hrow : w.db.requests.byPk r.id = some r := Table.byPk_eq_some.mpr ⟨hr, rfl⟩
  constructor
  · intro halike hstatus hvalidated
    exact (sameJudgement_iff approval hrow hstatus hvalidated).mp
      (halike.creation hstatus hvalidated)
  · intro hjudge
    refine ⟨fun hstatus hvalidated => ?_, fun hstatus => ?_, fun p hp c hc hsuccess => ?_⟩
    · exact (sameJudgement_iff approval hrow hstatus hvalidated).mpr (hjudge hstatus hvalidated)
    · rw [retryApproved_eq _ hstatus]
    · cases hvalidated : r.hcmValidated with
      | true => exact .inr rfl
      | false =>
          left
          cases hstatus : r.status with
          | rejected => simp [notifiersOf, hstatus] at hp
          | cancelled => simp [notifiersOf, hstatus] at hp
          | approved =>
              simp only [notifiersOf, hstatus, retryApproved_eq _ hstatus, List.mem_cons,
                List.not_mem_nil, or_false, or_self] at hp
              subst hp
              exact saysValid_of_success hrow hvalidated hc hsuccess
          | pending =>
              -- both write what the worker writes
              have hsame := (sameJudgement_iff approval hrow hstatus
                hvalidated).mpr (hjudge hstatus hvalidated)
              have hworker : ∃ c', columnsAfter ((HcmClient.answering validation
                  approval).tryRequest r) w r.id = some c' ∧ c'.hcmSyncStatus = .success := by
                simp only [notifiersOf, hstatus, List.mem_cons, List.not_mem_nil, or_false] at hp
                obtain rfl | rfl := hp
                · rw [hc, SameJudgement, Option.map_some] at hsame
                  obtain ⟨c', hc', heq⟩ := Option.map_eq_some_iff.mp hsame.symm
                  simp only [Prod.mk.injEq] at heq
                  exact ⟨c', hc', heq.1.trans hsuccess⟩
                · exact ⟨c, hc, hsuccess⟩
              obtain ⟨c', hc', hsuccess'⟩ := hworker
              exact saysValid_of_worker hrow hstatus hvalidated hc' hsuccess'

/-- A request that has just been created. -/
def createdRequest : TimeOffRequest :=
  NewRequest.toRow ⟨"k", "EMP001", "LOC001", .vacation, "2030-01-01", "2030-01-02", 2, .pending,
    "EMP001", none, .pending⟩ 0 0

def createdWorld : World :=
  { World.initial 0 with
    db := { Database.empty with requests := ⟨[createdRequest], by simp, by simp⟩ }, uuid := 1 }

/-- The answer of a validation that refuses. -/
def refusal : Except Exception Json := .ok (.obj [("valid", .bool false)])

theorem judged_alike_iff_refused :
    createdRequest.status = .pending ∧ createdRequest.hcmValidated = false ∧ Judgeable refusal
      ∧ JudgedAlike (.answering refusal (.ok .null)) refusal createdWorld createdRequest := by
  have hjudge : Judgeable refusal := .inr (by decide)
  exact ⟨rfl, rfl, hjudge, (judged_alike_iff refusal (.ok .null) createdWorld createdRequest
    (List.mem_singleton.mpr rfl)).mpr fun _ _ => hjudge⟩

/-- An answer without `valid`: the notifier writes `SUCCESS`, the worker `FAILED`. -/
theorem judged_apart :
    columnsAfter ((HcmClient.answering (.ok (.obj [])) (.ok .null)).notifyHcmAsync createdRequest.id
        "EMP001" "LOC001" .vacation (some 2)) createdWorld createdRequest.id
      = some ⟨.success, true, 1⟩
    ∧ columnsAfter ((HcmClient.answering (.ok (.obj [])) (.ok .null)).tryRequest createdRequest)
        createdWorld createdRequest.id = some ⟨.failed, false, 1⟩
    ∧ ¬ JudgedAlike (.answering (.ok (.obj [])) (.ok .null)) (.ok (.obj [])) createdWorld
        createdRequest := by
  refine ⟨by decide +kernel, by decide +kernel, fun halike => ?_⟩
  have hsuccess := halike.success
    ((HcmClient.answering (.ok (.obj [])) (.ok .null)).notifyHcmAsync createdRequest.id "EMP001"
      "LOC001" .vacation (some 2)) (by simp [notifiersOf, createdRequest, NewRequest.toRow])
    ⟨.success, true, 1⟩ (by decide +kernel) rfl
  simp [SaysValid, isValid, Json.get?, Json.isTrue, createdRequest, NewRequest.toRow] at hsuccess

end LeaveLedger
