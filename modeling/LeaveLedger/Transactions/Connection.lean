import LeaveLedger.Idempotency.Pool

/-!
# Transactions — Calls on one connection

On sqlite nothing locks a row, and the statements of open transactions
interleave on the one connection that TypeORM has. The machine here runs the
calls of `createRequest`, `approveRequest`, `rejectRequest` and
`cancelRequest` one statement at a time. A transaction whose callback throws
has its own writes undone: each row it wrote is what it was before the write.
-/

namespace LeaveLedger

open Js Lib

/-! ## Undoing writes -/

/-- A write of a transaction: the row after it, and the row it was before. -/
inductive Undo where
  | balance (row : EmployeeBalance) (before : Option EmployeeBalance)
  | request (row : TimeOffRequest) (before : Option TimeOffRequest)
  | record (row : IdempotencyRecord)

/-- What a statement has written, from its answer and the tables before it; a save that leaves
its row as it was writes nothing. -/
def Stmt.writes (now : ℤ) (db : Database) : (o : Stmt) → Except Exception o.Res → List Undo
  | .saveBalance e, .ok b =>
      if db.balances.byPk e.id = some b then [] else [.balance b (db.balances.byPk e.id)]
  | .insertBalance _, .ok b => [.balance b none]
  | .updateBalance id p, .ok _ =>
      ((db.balances.byPk id).map fun b => Undo.balance (p.apply now b) (some b)).toList
  | .saveRequest e, .ok r =>
      if db.requests.byPk e.id = some r then [] else [.request r (db.requests.byPk e.id)]
  | .insertRequest _, .ok r => [.request r none]
  | .updateRequest id p, .ok _ =>
      ((db.requests.byPk id).map fun r => Undo.request (p.apply now r) (some r)).toList
  | .insertRecord _, .ok rec => [.record rec]
  | _, _ => []

def Database.undo (db : Database) : Undo → Database
  | .balance _ (some before) => { db with balances := db.balances.restore before }
  | .balance row none => { db with balances := db.balances.remove row.id }
  | .request _ (some before) => { db with requests := db.requests.restore before }
  | .request row none => { db with requests := db.requests.remove row.id }
  | .record row => { db with records := db.records.remove row.id }

/-! ## The machine -/

/-- An open transaction: what remains of its callback, its writes with the latest first, the
balance row it has loaded last, and what its call does with the result. -/
structure Transaction where
  rest : Tx TimeOffRequest
  undo : List Undo
  loaded : Option EmployeeBalance
  resume : Except Exception TimeOffRequest → Svc SerializedRequest

inductive Stage where
  | svc (rest : Svc SerializedRequest)
  | tx (t : Transaction)

/-- A call, how far it is, and whether its transaction has been committed. -/
structure Session where
  call : Call
  stage : Stage
  committed : Bool

structure Connection where
  world : World
  sessions : List Session

def Connection.start (w : World) : Connection := ⟨w, []⟩

abbrev Connection.db (s : Connection) : Database := s.world.db

inductive ConnectionLabel where
  | call (c : Call)
  | step (i : ℕ)
  /-- the transaction of a call does not begin -/
  | failsToBegin (i : ℕ) (e : Transient)
  | tick (ms : ℕ)

/-- What the answer to a statement shows of a balance row. -/
def Stmt.loads : (o : Stmt) → Except Exception o.Res → Option EmployeeBalance →
    Option EmployeeBalance
  | .findBalance _ _ _, .ok row, _ => row
  | _, _, loaded => loaded

/-- The transaction after the answer to one request of its callback. -/
def Transaction.answered (t : Transaction) (w : World) :
    (o : TxOp) → (TxSig.Res o → Tx TimeOffRequest) → TxSig.Res o → Transaction
  | .stmt o, k, r => { t with
      rest := k r
      undo := o.writes w.clock w.db r ++ t.undo
      loaded := o.loads r t.loaded }
  | .now, k, r => { t with rest := k r }
  | .setImmediate _, k, r => { t with rest := k r }

/-- A request of the callback, the commit, or the rollback. -/
def Transaction.step (t : Transaction) (w : World) : Option (World × Stage × Bool) :=
  match t.rest with
  | .await o k => (execTx o w).map fun r => (r.2, .tx (t.answered w o k r.1), false)
  | .done r => some (w, .svc (t.resume (.ok r)), true)
  | .fail e => some ({ w with db := t.undo.foldl Database.undo w.db },
      .svc (t.resume (.error e)), false)

/-- One request of a call; a transaction begins. -/
def Svc.advance (w : World) : (o : SvcOp) → (SvcSig.Res o → Svc SerializedRequest) →
    Option (World × Stage)
  | .transaction body, k => some (w, .tx ⟨body, [], none, k⟩)
  | o, k => (execSvc {} o w).map fun r => (r.2, .svc (k r.1))

def Session.step (c : Session) (w : World) : Option (World × Session) :=
  match c.stage with
  | .svc (.await o k) => (Svc.advance w o k).map fun r => (r.1, { c with stage := r.2 })
  | .svc (.done _) => none
  | .svc (.fail _) => none
  | .tx t => (t.step w).map fun r =>
      (r.1, { c with stage := r.2.1, committed := c.committed || r.2.2 })

def Session.failToBegin (c : Session) (e : Transient) : Option Session :=
  match c.stage with
  | .svc (.await (.transaction _) k) => some { c with stage := .svc (k (.error e.exception)) }
  | _ => none

def connectionStep (env : Env) (s : Connection) : ConnectionLabel → Option Connection
  | .call c => some { s with sessions := s.sessions ++ [⟨c, .svc (c.script env), false⟩] }
  | .step i => (s.sessions[i]?).bind fun c => (c.step s.world).map fun r =>
      ⟨r.1, s.sessions.set i r.2⟩
  | .failsToBegin i e => (s.sessions[i]?).bind fun c => (c.failToBegin e).map fun c' =>
      { s with sessions := s.sessions.set i c' }
  | .tick ms => some { s with world := { s.world with clock := s.world.clock + ms } }

/-! ## What is claimed -/

/-- No transaction is open. -/
def Connection.Quiet (s : Connection) : Prop :=
  ∀ c ∈ s.sessions, ∀ t, c.stage ≠ .tx t

instance : ∀ g : Stage, Decidable (∀ t, g ≠ .tx t)
  | .svc _ => isTrue fun _ h => by cases h
  | .tx t => isFalse fun h => h t rfl

instance (s : Connection) : Decidable s.Quiet :=
  inferInstanceAs (Decidable (∀ c ∈ s.sessions, _))

/-- The calls whose transaction has been committed. -/
def Connection.succeeded (s : Connection) : List Call :=
  (s.sessions.filter Session.committed).map Session.call

/-- Whole calls one after the other, each of which returns; `db` is what they make of `db₀`. -/
inductive Serially (env : Env) (db₀ : Database) : List Call → Database → Prop
  | nil : Serially env db₀ [] db₀
  | call {cs : List Call} {c : Call} {w w' : World} {body : SerializedRequest}
      (before : Serially env db₀ cs w.db)
      (h : (c.script env).alone [] w = some (.ok body, w')) : Serially env db₀ (cs ++ [c]) w'.db

/-- Two databases have the same balances, and the same requests in the same status. -/
structure SameOutcome (db db' : Database) : Prop where
  balances : db'.balances.rows.map (fun b => (b.key, b.account))
    = db.balances.rows.map (fun b => (b.key, b.account))
  requests : db'.requests.rows.map (fun r => (r.id, r.status))
    = db.requests.rows.map (fun r => (r.id, r.status))

/-- The step changes the status of the request `id`. -/
def ChangesStatus (id : Id) (s s' : Connection) : Prop :=
  ∃ r ∈ s.db.requests.rows, r.id = id ∧ ∀ r' ∈ s'.db.requests.rows, r'.id = id →
    r'.status ≠ r.status

/-- What a run from `w₀` that ends in `s` should do. -/
structure SettlesSerially (env : Env) (w₀ : World) (ls : List ConnectionLabel) (s : Connection) :
    Prop where
  /-- a request changes its status at most once, and from PENDING -/
  once : ∀ id m n l l' s₁ s₂ s₃ s₄,
    StepAt (connectionStep env) (.start w₀) ls m s₁ l s₂ → ChangesStatus id s₁ s₂ →
    StepAt (connectionStep env) (.start w₀) ls n s₃ l' s₄ → ChangesStatus id s₃ s₄ →
    m = n ∧ ∀ r ∈ s₁.db.requests.rows, r.id = id → r.status = .pending
  /-- the days of the requests that are pending are pending, and no others -/
  books : s.Quiet → LedgerInv s.db
  /-- the outcome is that of the calls that succeeded, in some order -/
  serial : s.Quiet → ∃ order db, order.Perm s.succeeded ∧ Serially env w₀.db order db
    ∧ SameOutcome db s.db

/-! ## When it holds -/

/-- The row is as the transaction has written it. -/
def Undo.Stands (db : Database) : Undo → Prop
  | .balance row _ => ∃ b ∈ db.balances.rows, b.id = row.id ∧ b.account = row.account
  | .request row _ => ∃ r ∈ db.requests.rows, r.id = row.id ∧ r.status = row.status
  | .record _ => True

/-- A request that is saved is still pending, a balance that is saved is still what was loaded,
and writes that are undone still stand. -/
def Transaction.Undisturbed (db : Database) (t : Transaction) : Prop :=
  match t.rest with
  | .await (.stmt (.saveRequest e)) _ =>
      ∃ r ∈ db.requests.rows, r.id = e.id ∧ r.status = .pending
  | .await (.stmt (.saveBalance e)) _ =>
      ∃ b ∈ db.balances.rows, b.id = e.id ∧ t.loaded.map EmployeeBalance.account = some b.account
  | .await _ _ => True
  | .done _ => True
  | .fail _ => ∀ u ∈ t.undo, u.Stands db

instance (db : Database) (u : Undo) : Decidable (u.Stands db) := by
  unfold Undo.Stands
  split <;> infer_instance

instance (db : Database) (t : Transaction) : Decidable (t.Undisturbed db) := by
  unfold Transaction.Undisturbed
  split <;> infer_instance

/-- The step disturbs no transaction's work. -/
def Connection.Undisturbed (s : Connection) : ConnectionLabel → Prop
  | .step i => ∀ c t, s.sessions[i]? = some c → c.stage = .tx t → t.Undisturbed s.db
  | _ => True

/-- For a step of a call, it is its open transaction that is not disturbed. -/
theorem Connection.undisturbed_step {s : Connection} {i : ℕ} {c : Session}
    (hc : s.sessions[i]? = some c) :
    s.Undisturbed (.step i) ↔ ∀ t, c.stage = .tx t → t.Undisturbed s.db := by
  constructor
  · intro h t hstage
    exact h c t hc hstage
  · intro h c' t hc' hstage
    rw [hc] at hc'
    cases hc'
    exact h t hstage

instance (s : Connection) : ∀ l, Decidable (s.Undisturbed l)
  | .step i =>
      match hc : s.sessions[i]? with
      | some ⟨_, .tx t, _⟩ => decidable_of_iff (t.Undisturbed s.db)
          ((Connection.undisturbed_step hc).trans (by simp)).symm
      | some ⟨_, .svc _, _⟩ => isTrue ((Connection.undisturbed_step hc).mpr (by simp))
      | none => isTrue fun c t h => by simp [hc] at h
  | .call _ => isTrue trivial
  | .failsToBegin _ _ => isTrue trivial
  | .tick _ => isTrue trivial

end LeaveLedger
