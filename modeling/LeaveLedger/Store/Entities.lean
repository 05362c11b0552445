import LeaveLedger.Common.Constants
import LeaveLedger.Common.HashUtil

/-!
# Store — Entities

The rows of the three tables the services write, the payload of a create
and the body of its answer, and the partial updates of
`repository.update`. Decimal columns are exact numbers; `Option` columns
are the nullable ones.
-/

namespace LeaveLedger

open Js

abbrev Id := ℕ

/-- The unique columns of a balance: employee, location, leave type. -/
abbrev BalanceKey := String × String × LeaveType

structure EmployeeBalance where
  id : Id
  employeeId : String
  locationId : String
  leaveType : LeaveType
  totalBalance : ℚ
  availableBalance : ℚ
  pendingBalance : ℚ
  usedBalance : ℚ
  carryOverBalance : ℚ
  hcmTotalBalance : ℚ
  hcmLastSync : Option ℤ
  hcmVersion : Option String
  hasDiscrepancy : Bool
  discrepancyAmount : Option ℚ
  version : ℕ
  createdAt : ℤ
  updatedAt : ℤ
  deriving DecidableEq

def EmployeeBalance.key (b : EmployeeBalance) : BalanceKey :=
  (b.employeeId, b.locationId, b.leaveType)

structure TimeOffRequest where
  id : Id
  idempotencyKey : String
  employeeId : String
  locationId : String
  leaveType : LeaveType
  startDate : String
  endDate : String
  daysRequested : ℚ
  status : RequestStatus
  requestedBy : String
  approvedBy : Option String
  approvedAt : Option ℤ
  rejectionReason : Option String
  notes : Option String
  hcmValidated : Bool
  hcmSyncStatus : HcmSyncStatus
  hcmSyncAttempts : ℕ
  hcmLastSyncAt : Option ℤ
  version : ℕ
  createdAt : ℤ
  updatedAt : ℤ
  deriving DecidableEq

/-- The balance row a request is charged to. -/
def TimeOffRequest.balanceKey (r : TimeOffRequest) : BalanceKey :=
  (r.employeeId, r.locationId, r.leaveType)

/-- What `_serializeRequest` returns: the body of an answer. -/
structure SerializedRequest where
  id : Id
  idempotencyKey : String
  employeeId : String
  locationId : String
  leaveType : LeaveType
  startDate : String
  endDate : String
  daysRequested : ℚ
  status : RequestStatus
  requestedBy : String
  approvedBy : Option String
  approvedAt : Option ℤ
  rejectionReason : Option String
  notes : Option String
  hcmValidated : Bool
  hcmSyncStatus : HcmSyncStatus
  version : ℕ
  createdAt : ℤ
  updatedAt : ℤ
  deriving DecidableEq

def serializeRequest (request : TimeOffRequest) : SerializedRequest where
  id := request.id
  idempotencyKey := request.idempotencyKey
  employeeId := request.employeeId
  locationId := request.locationId
  leaveType := request.leaveType
  startDate := request.startDate
  endDate := request.endDate
  daysRequested := request.daysRequested
  status := request.status
  requestedBy := request.requestedBy
  approvedBy := request.approvedBy
  approvedAt := request.approvedAt
  rejectionReason := request.rejectionReason
  notes := request.notes
  hcmValidated := request.hcmValidated
  hcmSyncStatus := request.hcmSyncStatus
  version := request.version
  createdAt := request.createdAt
  updatedAt := request.updatedAt

structure IdempotencyRecord where
  id : Id
  idempotencyKey : String
  employeeId : String
  requestHash : String
  responseStatus : ℕ
  responseBody : SerializedRequest
  expiresAt : ℤ
  createdAt : ℤ
  deriving DecidableEq

/-- `CreateTimeOffRequestDto`. -/
structure CreateTimeOffRequestDto where
  employeeId : String
  locationId : String
  leaveType : LeaveType
  startDate : String
  endDate : String
  notes : Option String
  deriving DecidableEq

def CreateTimeOffRequestDto.balanceKey (dto : CreateTimeOffRequestDto) : BalanceKey :=
  (dto.employeeId, dto.locationId, dto.leaveType)

/-- The payload as `hashObject` sees it: printing drops an absent field. -/
def CreateTimeOffRequestDto.toJson (dto : CreateTimeOffRequestDto) : Json :=
  .obj ([("employeeId", .str dto.employeeId), ("locationId", .str dto.locationId),
      ("leaveType", .str dto.leaveType.text), ("startDate", .str dto.startDate),
      ("endDate", .str dto.endDate)]
    ++ match dto.notes with
      | some n => [("notes", .str n)]
      | none => [])

/-- `x || null` of a string. -/
def orNull : Option String → Option String
  | some "" => none
  | s => s

/-! ## Rows to insert and columns to update -/

/-- The columns a balance is inserted with. -/
structure NewBalance where
  employeeId : String
  locationId : String
  leaveType : LeaveType
  totalBalance : ℚ
  availableBalance : ℚ
  pendingBalance : ℚ
  usedBalance : ℚ
  hcmTotalBalance : ℚ
  hcmLastSync : Option ℤ
  hcmVersion : Option String
  deriving DecidableEq

def NewBalance.key (n : NewBalance) : BalanceKey := (n.employeeId, n.locationId, n.leaveType)

/-- The stored row: the other columns have their defaults. -/
def NewBalance.toRow (n : NewBalance) (id : Id) (now : ℤ) : EmployeeBalance where
  id := id
  employeeId := n.employeeId
  locationId := n.locationId
  leaveType := n.leaveType
  totalBalance := n.totalBalance
  availableBalance := n.availableBalance
  pendingBalance := n.pendingBalance
  usedBalance := n.usedBalance
  carryOverBalance := 0
  hcmTotalBalance := n.hcmTotalBalance
  hcmLastSync := n.hcmLastSync
  hcmVersion := n.hcmVersion
  hasDiscrepancy := false
  discrepancyAmount := none
  version := 1
  createdAt := now
  updatedAt := now

/-- The columns a request is inserted with. -/
structure NewRequest where
  idempotencyKey : String
  employeeId : String
  locationId : String
  leaveType : LeaveType
  startDate : String
  endDate : String
  daysRequested : ℚ
  status : RequestStatus
  requestedBy : String
  notes : Option String
  hcmSyncStatus : HcmSyncStatus
  deriving DecidableEq

def NewRequest.toRow (n : NewRequest) (id : Id) (now : ℤ) : TimeOffRequest where
  id := id
  idempotencyKey := n.idempotencyKey
  employeeId := n.employeeId
  locationId := n.locationId
  leaveType := n.leaveType
  startDate := n.startDate
  endDate := n.endDate
  daysRequested := n.daysRequested
  status := n.status
  requestedBy := n.requestedBy
  approvedBy := none
  approvedAt := none
  rejectionReason := none
  notes := n.notes
  hcmValidated := false
  hcmSyncStatus := n.hcmSyncStatus
  hcmSyncAttempts := 0
  hcmLastSyncAt := none
  version := 1
  createdAt := now
  updatedAt := now

/-- The columns an idempotency record is inserted with. -/
structure NewRecord where
  idempotencyKey : String
  employeeId : String
  requestHash : String
  responseStatus : ℕ
  responseBody : SerializedRequest
  expiresAt : ℤ
  deriving DecidableEq

def NewRecord.toRow (n : NewRecord) (id : Id) (now : ℤ) : IdempotencyRecord where
  id := id
  idempotencyKey := n.idempotencyKey
  employeeId := n.employeeId
  requestHash := n.requestHash
  responseStatus := n.responseStatus
  responseBody := n.responseBody
  expiresAt := n.expiresAt
  createdAt := now

/-- The columns `balanceRepository.update` sets; `none` leaves a column. -/
structure BalancePatch where
  totalBalance : Option ℚ := none
  availableBalance : Option ℚ := none
  hcmTotalBalance : Option ℚ := none
  hcmLastSync : Option (Option ℤ) := none
  hcmVersion : Option (Option String) := none
  hasDiscrepancy : Option Bool := none
  discrepancyAmount : Option (Option ℚ) := none

def BalancePatch.apply (p : BalancePatch) (now : ℤ) (b : EmployeeBalance) : EmployeeBalance :=
  { b with
    totalBalance := p.totalBalance.getD b.totalBalance
    availableBalance := p.availableBalance.getD b.availableBalance
    hcmTotalBalance := p.hcmTotalBalance.getD b.hcmTotalBalance
    hcmLastSync := p.hcmLastSync.getD b.hcmLastSync
    hcmVersion := p.hcmVersion.getD b.hcmVersion
    hasDiscrepancy := p.hasDiscrepancy.getD b.hasDiscrepancy
    discrepancyAmount := p.discrepancyAmount.getD b.discrepancyAmount
    version := b.version + 1
    updatedAt := now }

/-- The columns `requestRepository.update` sets: the HCM columns only. -/
structure RequestPatch where
  hcmSyncStatus : Option HcmSyncStatus := none
  hcmValidated : Option Bool := none
  hcmSyncAttempts : Option ℕ := none
  hcmLastSyncAt : Option (Option ℤ) := none
  deriving DecidableEq

def RequestPatch.apply (p : RequestPatch) (now : ℤ) (r : TimeOffRequest) : TimeOffRequest :=
  { r with
    hcmSyncStatus := p.hcmSyncStatus.getD r.hcmSyncStatus
    hcmValidated := p.hcmValidated.getD r.hcmValidated
    hcmSyncAttempts := p.hcmSyncAttempts.getD r.hcmSyncAttempts
    hcmLastSyncAt := p.hcmLastSyncAt.getD r.hcmLastSyncAt
    version := r.version + 1
    updatedAt := now }

end LeaveLedger
