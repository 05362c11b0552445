import LeaveLedger.Lib.Table
import LeaveLedger.Store.Entities
import Mathlib.Data.List.Sort

/-!
# Store — Database

The three tables and the statements the services issue on them. A
statement is atomic: `Stmt.exec` gives its answer and the database after
it, or the error of the driver. No statement is refused for the version of
the row it writes: `save` of a loaded entity finds the row by its primary
key and makes it the entity, `update` sets the columns it names.
-/

namespace LeaveLedger

open Js Lib

abbrev BalanceTable := Table EmployeeBalance.id EmployeeBalance.key
abbrev RequestTable := Table TimeOffRequest.id TimeOffRequest.idempotencyKey
abbrev RecordTable := Table IdempotencyRecord.id IdempotencyRecord.idempotencyKey

structure Database where
  balances : BalanceTable
  requests : RequestTable
  records : RecordTable

def Database.empty : Database := ⟨Table.empty, Table.empty, Table.empty⟩

/-- What a statement takes from its surroundings: the next generated id and
the clock. -/
structure Stamp where
  uuid : Id
  now : ℤ

inductive Stmt where
  | findBalance (employeeId locationId : String) (leaveType : LeaveType)
  | findBalanceIds (employeeId locationId : String)
  | findBalances
  | findRequest (id : Id)
  | findRequestByKey (idempotencyKey : String)
  | findActiveRequests (employeeId locationId : String)
  | findPendingSyncs
  | findRecord (idempotencyKey : String)
  | saveBalance (balance : EmployeeBalance)
  | insertBalance (balance : NewBalance)
  | updateBalance (id : Id) (patch : BalancePatch)
  | saveRequest (request : TimeOffRequest)
  | insertRequest (request : NewRequest)
  | updateRequest (id : Id) (patch : RequestPatch)
  | insertRecord (record : NewRecord)

@[reducible] def Stmt.Res : Stmt → Type
  | .findBalance _ _ _ => Option EmployeeBalance
  | .findBalanceIds _ _ => List Id
  | .findBalances => List EmployeeBalance
  | .findRequest _ => Option TimeOffRequest
  | .findRequestByKey _ => Option TimeOffRequest
  | .findActiveRequests _ _ => List TimeOffRequest
  | .findPendingSyncs => List TimeOffRequest
  | .findRecord _ => Option IdempotencyRecord
  | .saveBalance _ => EmployeeBalance
  | .insertBalance _ => EmployeeBalance
  | .updateBalance _ _ => Unit
  | .saveRequest _ => TimeOffRequest
  | .insertRequest _ => TimeOffRequest
  | .updateRequest _ _ => Unit
  | .insertRecord _ => IdempotencyRecord

/-- A request that is still pending or approved. -/
def TimeOffRequest.isActive (r : TimeOffRequest) : Bool :=
  r.status = .pending || r.status = .approved

/-- The order of the retry worker: fewest attempts first, then oldest. -/
def TimeOffRequest.retryLE (a b : TimeOffRequest) : Bool :=
  a.hcmSyncAttempts < b.hcmSyncAttempts
    || (a.hcmSyncAttempts = b.hcmSyncAttempts && a.createdAt ≤ b.createdAt)

/-! ## Writing one row -/

/-- The row `b` after `save` of the entity `e`. `save` reads the row again and writes the columns
that differ, none where the entity is the row. The version and the time of the update are
counted on where the entity has those of the row; where it has others they are columns that
differ, and the row gets those the entity was loaded with. The key columns of an entity never
change. -/
def EmployeeBalance.saveOver (e : EmployeeBalance) (now : ℤ) (b : EmployeeBalance) :
    EmployeeBalance :=
  { e with
    id := b.id, employeeId := b.employeeId, locationId := b.locationId
    leaveType := b.leaveType
    version := if e ≠ b ∧ e.version = b.version then b.version + 1 else e.version
    updatedAt := if e ≠ b ∧ e.updatedAt = b.updatedAt then now else e.updatedAt }

def TimeOffRequest.saveOver (e : TimeOffRequest) (now : ℤ) (r : TimeOffRequest) :
    TimeOffRequest :=
  { e with
    id := r.id, idempotencyKey := r.idempotencyKey
    version := if e ≠ r ∧ e.version = r.version then r.version + 1 else e.version
    updatedAt := if e ≠ r ∧ e.updatedAt = r.updatedAt then now else e.updatedAt }

def Database.saveBalance (db : Database) (e : EmployeeBalance) (now : ℤ) : Database :=
  { db with
    balances := db.balances.modify e.id (e.saveOver now) (fun _ => rfl) (fun _ => rfl) }

def Database.updateBalance (db : Database) (id : Id) (p : BalancePatch) (now : ℤ) : Database :=
  { db with
    balances := db.balances.modify id (p.apply now) (fun _ => rfl) (fun _ => rfl) }

def Database.saveRequest (db : Database) (e : TimeOffRequest) (now : ℤ) : Database :=
  { db with
    requests := db.requests.modify e.id (e.saveOver now) (fun _ => rfl) (fun _ => rfl) }

def Database.updateRequest (db : Database) (id : Id) (p : RequestPatch) (now : ℤ) : Database :=
  { db with
    requests := db.requests.modify id (p.apply now) (fun _ => rfl) (fun _ => rfl) }

/-- The error of an insert that repeats a primary key or a unique column. -/
def uniqueError (columns : String) : Exception :=
  constraintError ("UNIQUE constraint failed: " ++ columns)

def Database.insertBalance (db : Database) (b : EmployeeBalance) : Except Exception Database :=
  match db.balances.insert? b with
  | some t => .ok { db with balances := t }
  | none => .error (uniqueError
      "employee_balances.employeeId, employee_balances.locationId, employee_balances.leaveType")

def Database.insertRequest (db : Database) (r : TimeOffRequest) : Except Exception Database :=
  match db.requests.insert? r with
  | some t => .ok { db with requests := t }
  | none => .error (uniqueError "time_off_requests.idempotencyKey")

def Database.insertRecord (db : Database) (r : IdempotencyRecord) : Except Exception Database :=
  match db.records.insert? r with
  | some t => .ok { db with records := t }
  | none => .error (uniqueError "idempotency_records.idempotencyKey")

/-! ## Executing a statement -/

/-- The answer of a statement and the database after it. -/
def Stmt.exec (st : Stamp) : (o : Stmt) → Database → Except Exception (o.Res × Database)
  | .findBalance e l t, db => .ok (db.balances.byUk (e, l, t), db)
  | .findBalanceIds e l, db =>
      .ok ((db.balances.rows.filter fun b => b.employeeId = e ∧ b.locationId = l).map
        EmployeeBalance.id, db)
  | .findBalances, db => .ok (db.balances.rows, db)
  | .findRequest id, db => .ok (db.requests.byPk id, db)
  | .findRequestByKey k, db => .ok (db.requests.byUk k, db)
  | .findActiveRequests e l, db =>
      .ok (db.requests.rows.filter fun r => r.employeeId = e ∧ r.locationId = l ∧ r.isActive, db)
  | .findPendingSyncs, db =>
      .ok ((((db.requests.rows.filter fun r => r.hcmSyncStatus = .pending).insertionSort
        fun a b => TimeOffRequest.retryLE a b).take 50), db)
  | .findRecord k, db => .ok (db.records.byUk k, db)
  | .saveBalance e, db =>
      match db.balances.byPk e.id with
      | some b => .ok (e.saveOver st.now b, db.saveBalance e st.now)
      | none => (db.insertBalance e).map fun db' => (e, db')
  | .insertBalance n, db =>
      let b := n.toRow st.uuid st.now
      (db.insertBalance b).map fun db' => (b, db')
  | .updateBalance id p, db => .ok ((), db.updateBalance id p st.now)
  | .saveRequest e, db =>
      match db.requests.byPk e.id with
      | some r => .ok (e.saveOver st.now r, db.saveRequest e st.now)
      | none => (db.insertRequest e).map fun db' => (e, db')
  | .insertRequest n, db =>
      let r := n.toRow st.uuid st.now
      (db.insertRequest r).map fun db' => (r, db')
  | .updateRequest id p, db => .ok ((), db.updateRequest id p st.now)
  | .insertRecord n, db =>
      let r := n.toRow st.uuid st.now
      (db.insertRecord r).map fun db' => (r, db')

end LeaveLedger
