import LeaveLedger.Lib.Script
import LeaveLedger.Store.Database
import LeaveLedger.Hcm.Http

/-!
# Store — The world of a service call

What a call of a service can ask of its surroundings: statements, the
clock, callbacks for a later turn of the event loop, transactions, the
create lanes, and requests to HCM. `execTx` and `execSvc` answer these one
at a time, so a call can be run to its end or interleaved with others.
What is not decided here, whether a transaction attempt goes through and
what HCM answers, is the `Fate` of the step.
-/

namespace LeaveLedger

open Js Lib

/-- The configuration read at start-up, and the hash functions. -/
structure Env where
  hashing : Hashing
  idempotencyTtlMs : ℤ
  staleBalanceThresholdMs : ℤ

/-- The default configuration, for runs that are evaluated. -/
def Env.default : Env := ⟨Hashing.plain, 24 * 60 * 60 * 1000, 6 * 60 * 60 * 1000⟩

/-- A callback handed to `setImmediate`, with what it captured. -/
inductive Callback where
  | notifyHcm (requestId : Id) (employeeId locationId : String) (leaveType : LeaveType)
      (daysRequested : Option ℚ)
  | notifyApproval (request : TimeOffRequest) (requestId : Id)
  deriving DecidableEq

structure World where
  db : Database
  /-- the next id to generate; ids are never generated twice -/
  uuid : Id
  clock : ℤ
  /-- callbacks waiting for a turn of the event loop -/
  deferred : List Callback
  /-- `_createLocks`: who holds or awaits each lane, first come first served -/
  createLocks : List (String × ℕ)
  nextTicket : ℕ

def World.initial (clock : ℤ) : World := ⟨Database.empty, 0, clock, [], [], 0⟩

def World.stamp (w : World) : Stamp := ⟨w.uuid, w.clock⟩

/-! ## Inside a transaction -/

inductive TxOp where
  | stmt (o : Stmt)
  | now
  | setImmediate (c : Callback)

@[reducible] def TxSig : Sig where
  Op := TxOp
  Res
    | .stmt o => Except Exception o.Res
    | .now => ℤ
    | .setImmediate _ => Unit

abbrev Tx := Script TxSig Exception

/-- Raise the error of an answer, or go on with its value. -/
def orThrow {S : Sig} {α : Type} : Except Exception α → Script S Exception α
  | .ok a => .done a
  | .error e => .fail e

@[simp] theorem orThrow_ok {S : Sig} {α : Type} (a : α) :
    (orThrow (.ok a) : Script S Exception α) = .done a := rfl
@[simp] theorem orThrow_error {S : Sig} {α : Type} (e : Exception) :
    (orThrow (.error e) : Script S Exception α) = .fail e := rfl

namespace Tx

/-- `await manager.…`. -/
def stmt (o : Stmt) : Tx o.Res := (Script.ask (S := TxSig) (TxOp.stmt o)).bind orThrow

def now : Tx ℤ := Script.ask (S := TxSig) TxOp.now

def setImmediate (c : Callback) : Tx Unit := Script.ask (S := TxSig) (TxOp.setImmediate c)

end Tx

def execTx : (o : TxOp) → World → Option (TxSig.Res o × World)
  | .stmt o, w =>
      some <| match o.exec w.stamp w.db with
        | .ok r => (.ok r.1, { w with db := r.2, uuid := w.uuid + 1 })
        | .error e => (.error e, w)
  | .now, w => some (w.clock, w)
  | .setImmediate c, w => some ((), { w with deferred := w.deferred ++ [c] })

/-! ## Outside a transaction -/

inductive SvcOp where
  | stmt (o : Stmt)
  | now
  | setImmediate (c : Callback)
  | transaction (body : Tx TimeOffRequest)
  | enqueueCreateLock (lockKey : String)
  | awaitCreateLock (lockKey : String) (ticket : ℕ)
  | releaseCreateLock (lockKey : String) (ticket : ℕ)
  | sleep (ms : ℕ)
  | http (request : HttpRequest)

@[reducible] def SvcSig : Sig where
  Op := SvcOp
  Res
    | .stmt o => Except Exception o.Res
    | .now => ℤ
    | .setImmediate _ => Unit
    | .transaction _ => Except Exception TimeOffRequest
    | .enqueueCreateLock _ => ℕ
    | .awaitCreateLock _ _ => Unit
    | .releaseCreateLock _ _ => Unit
    | .sleep _ => Unit
    | .http _ => HttpOutcome

abbrev Svc := Script SvcSig Exception

namespace Svc

/-- `await repository.…`. -/
def stmt (o : Stmt) : Svc o.Res := (Script.ask (S := SvcSig) (SvcOp.stmt o)).bind orThrow

def now : Svc ℤ := Script.ask (S := SvcSig) SvcOp.now

def setImmediate (c : Callback) : Svc Unit := Script.ask (S := SvcSig) (SvcOp.setImmediate c)

/-- `await this.dataSource.transaction(body)`. -/
def transaction (body : Tx TimeOffRequest) : Svc TimeOffRequest :=
  (Script.ask (S := SvcSig) (SvcOp.transaction body)).bind orThrow

def enqueueCreateLock (lockKey : String) : Svc ℕ :=
  Script.ask (S := SvcSig) (SvcOp.enqueueCreateLock lockKey)

def awaitCreateLock (lockKey : String) (ticket : ℕ) : Svc Unit :=
  Script.ask (S := SvcSig) (SvcOp.awaitCreateLock lockKey ticket)

def releaseCreateLock (lockKey : String) (ticket : ℕ) : Svc Unit :=
  Script.ask (S := SvcSig) (SvcOp.releaseCreateLock lockKey ticket)

def sleep (ms : ℕ) : Svc Unit := Script.ask (S := SvcSig) (SvcOp.sleep ms)

def http (request : HttpRequest) : Svc HttpOutcome :=
  Script.ask (S := SvcSig) (SvcOp.http request)

end Svc

/-- The contention errors of the driver that the create path retries. -/
inductive Transient where
  | busy | locked | nestedBegin | databaseLocked
  deriving DecidableEq

def Transient.exception : Transient → Exception
  | .busy => .driver "SQLITE_BUSY" "SQLITE_BUSY: database is busy"
  | .locked => .driver "SQLITE_LOCKED" "SQLITE_LOCKED: table is locked"
  | .nestedBegin => .driver "SQLITE_ERROR"
      "SQLITE_ERROR: cannot start a transaction within a transaction"
  | .databaseLocked => .driver "SQLITE_ERROR" "SQLITE_ERROR: database is locked"

/-- What becomes of a transaction attempt: it goes through, it fails before
its first statement, or it fails when it commits. -/
inductive Attempt where
  | works
  | failsAtBegin (e : Transient)
  | failsAtCommit (e : Transient)
  deriving DecidableEq

/-- What the surroundings decide about one step of a call. -/
structure Fate where
  attempt : Attempt := .works
  answer : HttpOutcome := .error .noResponse

/-- `dataSource.transaction(body)`: all of the body's writes are kept, or
none when it throws or the commit fails. Ids and scheduled callbacks are
no part of the database. -/
def execTransaction {α : Type} (attempt : Attempt) (body : Tx α) (w : World) :
    Option (Except Exception α × World) :=
  match attempt with
  | .failsAtBegin e => some (.error e.exception, w)
  | .works => (body.run execTx w).map fun (res, w') =>
      match res with
      | .ok r => (.ok r, w')
      | .error e => (.error e, { w' with db := w.db })
  | .failsAtCommit x => (body.run execTx w).map fun (res, w') =>
      match res with
      | .ok _ => (.error x.exception, { w' with db := w.db })
      | .error e => (.error e, { w' with db := w.db })

/-- The first entry of a lane. -/
def World.laneHead (w : World) (lockKey : String) : Option ℕ :=
  (w.createLocks.find? fun l => l.1 = lockKey).map Prod.snd

/-- Answer one request of a call; `none` while the call has to wait. -/
def execSvc (fate : Fate) : (o : SvcOp) → World → Option (SvcSig.Res o × World)
  | .stmt o, w =>
      some <| match o.exec w.stamp w.db with
        | .ok r => (.ok r.1, { w with db := r.2, uuid := w.uuid + 1 })
        | .error e => (.error e, w)
  | .now, w => some (w.clock, w)
  | .setImmediate c, w => some ((), { w with deferred := w.deferred ++ [c] })
  | .transaction body, w => execTransaction fate.attempt body w
  | .enqueueCreateLock k, w =>
      some (w.nextTicket, { w with
        createLocks := w.createLocks ++ [(k, w.nextTicket)], nextTicket := w.nextTicket + 1 })
  | .awaitCreateLock k t, w => if w.laneHead k = some t then some ((), w) else none
  | .releaseCreateLock k t, w =>
      some ((), { w with createLocks := w.createLocks.filter fun l => l ≠ (k, t) })
  | .sleep _, w => some ((), w)
  | .http _, w => some (fate.answer, w)

end LeaveLedger
