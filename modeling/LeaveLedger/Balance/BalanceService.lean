import LeaveLedger.Common.DateUtil
import LeaveLedger.Store.World

/-!
# Balance — BalanceService

`modules/balance/balance.service`. The three movements of days run inside
the transaction of their caller; `upsertBalance` runs on its own.
`releaseFromPending` and `finalizeUsed` differ in the column the days go
to and in their texts, so both are `movePending` with their own values.
-/

namespace LeaveLedger

open Js Lib

/-- The details of a key, as the errors carry them. -/
def keyDetails (employeeId locationId : String) (leaveType : LeaveType) :
    List (String × String) :=
  [("employeeId", employeeId), ("locationId", locationId), ("leaveType", leaveType.text)]

/-- A computed number on its way into a row: the driver writes numbers into the text of the
statement, where `NaN` is the name of a column that is not there. -/
def sqlNumber {S : Sig} : Option ℚ → Script S Exception ℚ
  | some q => pure q
  | none => throw (sqlError "no such column: NaN")

/-- `atomicDeduct`: days go from available to pending. `days` is `none` for
`NaN`, which no comparison stops. -/
def atomicDeduct (employeeId locationId : String) (leaveType : LeaveType)
    (days : Option ℚ) : Tx EmployeeBalance := do
  let balance ← Tx.stmt (.findBalance employeeId locationId leaveType)
  match balance with
  | none =>
      throw (notFound .balanceNotFound
        "Balance record not found. Create a balance record before submitting requests."
        (keyDetails employeeId locationId leaveType))
  | some balance => do
      let available := balance.availableBalance
      match days with
      | some daysNum =>
          if available < daysNum then
            throw (unprocessable .insufficientBalance
              ("Requested " ++ numberText daysNum ++ " days but only " ++ numberText available
                ++ " days available")
              [("requested", numberText daysNum), ("available", numberText available),
                ("pending", numberText balance.pendingBalance),
                ("used", numberText balance.usedBalance), ("leaveType", leaveType.text)])
      | none => pure ()
      let availableBalance ← sqlNumber (days.map fun d => available - d)
      let pendingBalance ← sqlNumber (days.map fun d => balance.pendingBalance + d)
      Tx.stmt (.saveBalance { balance with
        availableBalance := availableBalance, pendingBalance := pendingBalance })

/-- The common body of `releaseFromPending` and `finalizeUsed`: check that the
days are pending, then `move` them. -/
def movePending (missing underflow wanted : String)
    (move : EmployeeBalance → ℚ → EmployeeBalance)
    (employeeId locationId : String) (leaveType : LeaveType) (daysNum : ℚ) :
    Tx EmployeeBalance := do
  let balance ← Tx.stmt (.findBalance employeeId locationId leaveType)
  match balance with
  | none =>
      throw (notFound .balanceNotFound missing (keyDetails employeeId locationId leaveType))
  | some balance =>
      let pending := balance.pendingBalance
      if pending < daysNum then
        throw (conflict .balanceConflict underflow
          (keyDetails employeeId locationId leaveType
            ++ [("pending", numberText pending), (wanted, numberText daysNum)]))
      else
        Tx.stmt (.saveBalance (move balance daysNum))

def toAvailable (balance : EmployeeBalance) (daysNum : ℚ) : EmployeeBalance :=
  { balance with
    pendingBalance := balance.pendingBalance - daysNum
    availableBalance := balance.availableBalance + daysNum }

def toUsed (balance : EmployeeBalance) (daysNum : ℚ) : EmployeeBalance :=
  { balance with
    pendingBalance := balance.pendingBalance - daysNum
    usedBalance := balance.usedBalance + daysNum }

/-- `releaseFromPending`: days go back from pending to available. -/
def releaseFromPending : String → String → LeaveType → ℚ → Tx EmployeeBalance :=
  movePending "Balance record not found during pending release"
    "Pending balance underflow detected during release" "requestedRelease" toAvailable

/-- `finalizeUsed`: days go from pending to used. -/
def finalizeUsed : String → String → LeaveType → ℚ → Tx EmployeeBalance :=
  movePending "Balance record not found during pending finalization"
    "Pending balance underflow detected during approval finalization" "requestedFinalize" toUsed

/-- The body of a balance answer. -/
structure SerializedBalance where
  id : Id
  employeeId : String
  locationId : String
  leaveType : LeaveType
  totalBalance : ℚ
  availableBalance : ℚ
  pendingBalance : ℚ
  usedBalance : ℚ
  carryOverBalance : ℚ
  hcmLastSync : Option ℤ
  hcmVersion : Option String
  hasDiscrepancy : Bool
  discrepancyAmount : Option ℚ
  stale : Bool
  version : ℕ
  updatedAt : ℤ
  deriving DecidableEq

/-- `_serialize`. -/
def serializeBalance (env : Env) (now : ℤ) (balance : EmployeeBalance) : SerializedBalance where
  id := balance.id
  employeeId := balance.employeeId
  locationId := balance.locationId
  leaveType := balance.leaveType
  totalBalance := balance.totalBalance
  availableBalance := balance.availableBalance
  pendingBalance := balance.pendingBalance
  usedBalance := balance.usedBalance
  carryOverBalance := balance.carryOverBalance
  hcmLastSync := balance.hcmLastSync
  hcmVersion := balance.hcmVersion
  hasDiscrepancy := balance.hasDiscrepancy
  -- a discrepancy of 0 is falsy and reads as none
  discrepancyAmount :=
    if balance.discrepancyAmount = some 0 then none else balance.discrepancyAmount
  stale := isStale now balance.hcmLastSync env.staleBalanceThresholdMs
  version := balance.version
  updatedAt := balance.updatedAt

/-- `upsertBalance`: the row that is there, or a new one with everything
available. -/
def upsertBalance (env : Env) (employeeId locationId : String) (leaveType : LeaveType)
    (totalBalance : ℚ) : Svc SerializedBalance := do
  let existing ← Svc.stmt (.findBalance employeeId locationId leaveType)
  match existing with
  | some existing => do
      let now ← Svc.now
      pure (serializeBalance env now existing)
  | none => do
      let total := totalBalance
      let hcmLastSync ← Svc.now
      let saved ← Svc.stmt (.insertBalance {
        employeeId := employeeId, locationId := locationId, leaveType := leaveType
        totalBalance := total, availableBalance := total
        pendingBalance := 0, usedBalance := 0
        hcmTotalBalance := total, hcmLastSync := some hcmLastSync, hcmVersion := none })
      let now ← Svc.now
      pure (serializeBalance env now saved)

/-- `hcmData` of a real-time update. -/
structure HcmData where
  totalBalance : ℚ
  version : Option String

/-- The columns `applyHcmRealTimeUpdate` sets on the row it has loaded: a higher
HCM total is taken over, a lower one flagged. -/
def hcmUpdated (hcmData : HcmData) (now : ℤ) (balance : EmployeeBalance) : EmployeeBalance :=
  let localTotal := balance.usedBalance + balance.pendingBalance + balance.availableBalance
  let hcmTotal := hcmData.totalBalance
  let drift := hcmTotal - localTotal
  { balance with
    availableBalance :=
      if 0.001 < drift then balance.availableBalance + drift else balance.availableBalance
    totalBalance := if 0.001 < drift then hcmTotal else balance.totalBalance
    hcmTotalBalance := hcmTotal
    hcmLastSync := some now
    hcmVersion := orNull hcmData.version
    hasDiscrepancy := drift < -0.001
    discrepancyAmount := if drift < -0.001 then some |drift| else none }

/-- `applyHcmRealTimeUpdate`, `none` when there is no row. -/
def applyHcmRealTimeUpdate (employeeId locationId : String) (leaveType : LeaveType)
    (hcmData : HcmData) : Tx (Option EmployeeBalance) := do
  let balance ← Tx.stmt (.findBalance employeeId locationId leaveType)
  match balance with
  | none => pure none
  | some balance => do
      let now ← Tx.now
      let saved ← Tx.stmt (.saveBalance (hcmUpdated hcmData now balance))
      pure (some saved)

end LeaveLedger
