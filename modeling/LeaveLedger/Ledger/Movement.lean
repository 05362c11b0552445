import LeaveLedger.Ledger.Account
import LeaveLedger.Store.Statement
import LeaveLedger.TimeOff.TimeOffService

/-!
# Ledger — What the transactions do

One lemma for each transaction body that returns: which row of which
table became which, and how the account of the balance row moved. The
invariants above are derived from these and never from the programs.
-/

namespace LeaveLedger

open Js Lib

@[simp] theorem sqlNumber_returns {S : Sig} {σ : Type}
    {exec : (o : S.Op) → σ → Option (S.Res o × σ)} {x : Option ℚ} {q : ℚ} {s s' : σ} :
    (sqlNumber x : Script S Exception ℚ).Returns exec s q s' ↔ x = some q ∧ s' = s := by
  cases x with
  | none => simp [sqlNumber]
  | some y => simp [sqlNumber, eq_comm]

/-- From `w` to `w'` a transaction turned the balance row `b` into `b'`, and
nothing else but the ids that are used up. -/
structure BalanceMoved (w w' : World) (b b' : EmployeeBalance) : Prop where
  balances : w.db.balances.Replaced w'.db.balances b b'
  requests : w'.db.requests = w.db.requests
  records : w'.db.records = w.db.records
  clock : w'.clock = w.clock
  deferred : w'.deferred = w.deferred
  createLocks : w'.createLocks = w.createLocks
  nextTicket : w'.nextTicket = w.nextTicket

theorem BalanceMoved.after_read {w w' : World} {u : Id} {b b' : EmployeeBalance}
    (h : BalanceMoved { w with uuid := u } w' b b') : BalanceMoved w w' b b' :=
  ⟨h.balances, h.requests, h.records, h.clock, h.deferred, h.createLocks, h.nextTicket⟩

variable {w w' : World} {employeeId locationId : String} {leaveType : LeaveType}

/-- A read inside a transaction uses up an id and does nothing else. -/
theorem read_returns {o : Stmt} {r : o.Res} (ho : o.isRead)
    (h : (Tx.stmt o).Returns execTx w r w') :
    o.exec w.stamp w.db = .ok (r, w.db) ∧ w' = { w with uuid := w.uuid + 1 } := by
  obtain ⟨db', hexec, rfl⟩ := Tx.stmt_returns.mp h
  obtain rfl := Stmt.exec_read ho hexec
  exact ⟨hexec, rfl⟩

/-- The row a `findBalance` answers with. -/
theorem findBalance_returns {x : Option EmployeeBalance}
    (h : (Tx.stmt (.findBalance employeeId locationId leaveType)).Returns execTx w x w') :
    x = w.db.balances.byUk (employeeId, locationId, leaveType)
      ∧ w' = { w with uuid := w.uuid + 1 } := by
  obtain ⟨hexec, hw⟩ := read_returns rfl h
  simp only [Stmt.exec, Except.ok.injEq, Prod.mk.injEq, and_true] at hexec
  exact ⟨hexec.symm, hw⟩

/-- `save` of an entity that was loaded from row `b` and changed in its day
columns. -/
theorem saveBalance_returns {e e' b : EmployeeBalance}
    (h : (Tx.stmt (.saveBalance e)).Returns execTx w e' w') (hb : b ∈ w.db.balances.rows)
    (hid : e.id = b.id) :
    e'.account = e.account ∧ BalanceMoved w w' b e' := by
  obtain ⟨db', hexec, rfl⟩ := Tx.stmt_returns.mp h
  obtain ⟨rfl, hrep, hreq, hrec⟩ := Stmt.exec_saveBalance hb hid hexec
  exact ⟨rfl, hrep, hreq, hrec, rfl, rfl, rfl, rfl⟩

theorem atomicDeduct_returns {days : Option ℚ} {b' : EmployeeBalance}
    (h : (atomicDeduct employeeId locationId leaveType days).Returns execTx w b' w') :
    ∃ d b, days = some d ∧ b.key = (employeeId, locationId, leaveType)
      ∧ d ≤ b.availableBalance ∧ b'.account = b.account.reserve d ∧ BalanceMoved w w' b b' := by
  obtain ⟨x, w₁, hfind, h⟩ := Script.returns_bind.mp h
  obtain ⟨rfl, rfl⟩ := findBalance_returns hfind
  cases hrow : w.db.balances.byUk (employeeId, locationId, leaveType) with
  | none => simp [hrow] at h
  | some b =>
      obtain ⟨hb, hkey⟩ := Table.byUk_eq_some.mp hrow
      cases days with
      | none => simp [hrow, sqlNumber] at h
      | some d =>
          by_cases hlt : b.availableBalance < d
          · simp [hrow, hlt] at h
          · simp only [hrow, hlt, if_false, Script.bind_eq, Script.pure_eq, Script.bind_done,
              sqlNumber, Option.map_some] at h
            obtain ⟨hacc, hmoved⟩ := saveBalance_returns h hb rfl
            exact ⟨d, b, rfl, hkey, not_lt.mp hlt, hacc, hmoved.after_read⟩

/-- Both uses of `movePending`, whose moves change the account by `op` and
keep the key columns. -/
theorem movePending_returns {missing underflow wanted : String}
    {move : EmployeeBalance → ℚ → EmployeeBalance} {op : Account → ℚ → Account} {d : ℚ}
    {b' : EmployeeBalance}
    (h : (movePending missing underflow wanted move employeeId locationId leaveType d).Returns
      execTx w b' w')
    (hid : ∀ b d, (move b d).id = b.id) (hop : ∀ b d, (move b d).account = op b.account d) :
    ∃ b, b.key = (employeeId, locationId, leaveType) ∧ d ≤ b.pendingBalance
      ∧ b'.account = op b.account d ∧ BalanceMoved w w' b b' := by
  obtain ⟨x, w₁, hfind, h⟩ := Script.returns_bind.mp h
  obtain ⟨rfl, rfl⟩ := findBalance_returns hfind
  cases hrow : w.db.balances.byUk (employeeId, locationId, leaveType) with
  | none => simp [hrow] at h
  | some b =>
      obtain ⟨hb, hkey⟩ := Table.byUk_eq_some.mp hrow
      by_cases hlt : b.pendingBalance < d
      · simp [hrow, hlt] at h
      · simp only [hrow, hlt, if_false] at h
        obtain ⟨hacc, hmoved⟩ := saveBalance_returns h hb (hid b d)
        exact ⟨b, hkey, not_lt.mp hlt, hacc.trans (hop b d), hmoved.after_read⟩

theorem releaseFromPending_returns {d : ℚ} {b' : EmployeeBalance}
    (h : (releaseFromPending employeeId locationId leaveType d).Returns execTx w b' w') :
    ∃ b, b.key = (employeeId, locationId, leaveType) ∧ d ≤ b.pendingBalance
      ∧ b'.account = b.account.release d ∧ BalanceMoved w w' b b' :=
  movePending_returns h (fun _ _ => rfl) (fun _ _ => rfl)

theorem finalizeUsed_returns {d : ℚ} {b' : EmployeeBalance}
    (h : (finalizeUsed employeeId locationId leaveType d).Returns execTx w b' w') :
    ∃ b, b.key = (employeeId, locationId, leaveType) ∧ d ≤ b.pendingBalance
      ∧ b'.account = b.account.finalize d ∧ BalanceMoved w w' b b' :=
  movePending_returns h (fun _ _ => rfl) (fun _ _ => rfl)

/-! ## Create -/

/-- What a create transaction that commits does: the days are reserved on the
row of the payload's key, one pending request and one record appear. -/
structure Created (env : Env) (dto : CreateTimeOffRequestDto)
    (idempotencyKey requestHash : String) (w w' : World) (d : ℚ) (b b' : EmployeeBalance)
    (r : TimeOffRequest) (rec : IdempotencyRecord) : Prop where
  key : b.key = dto.balanceKey
  enough : d ≤ b.availableBalance
  account : b'.account = b.account.reserve d
  balances : w.db.balances.Replaced w'.db.balances b b'
  requests : w.db.requests.Added w'.db.requests r
  records : w.db.records.Added w'.db.records rec
  request : ∃ id, r = (newRequest dto idempotencyKey d).toRow id w.clock
  record : ∃ id, rec = (newRecord env dto idempotencyKey requestHash r w.clock).toRow id w.clock
  clock : w'.clock = w.clock
  deferred : w'.deferred = w.deferred
  createLocks : w'.createLocks = w.createLocks
  nextTicket : w'.nextTicket = w.nextTicket

theorem assertNoneOverlaps_returns {startDate endDate : String} {l : List TimeOffRequest}
    {u : Unit} (h : (assertNoneOverlaps startDate endDate l).Returns execTx w u w') :
    w' = w ∧ ∀ r ∈ l, datesOverlap startDate endDate r.startDate r.endDate = false := by
  induction l with
  | nil =>
      obtain ⟨-, rfl⟩ := Script.returns_done.mp h
      exact ⟨rfl, by simp⟩
  | cons x rest ih =>
      by_cases hx : datesOverlap startDate endDate x.startDate x.endDate = true
      · simp [assertNoneOverlaps, hx] at h
      · simp only [assertNoneOverlaps, hx] at h
        obtain ⟨rfl, hrest⟩ := ih h
        refine ⟨rfl, fun r hr => ?_⟩
        rcases List.mem_cons.mp hr with rfl | hr
        · exact Bool.eq_false_iff.mpr hx
        · exact hrest r hr

theorem createTransaction_returns {env : Env} {dto : CreateTimeOffRequestDto}
    {idempotencyKey requestHash : String} {days : Option ℚ} {r : TimeOffRequest}
    (h : (createTransaction env dto idempotencyKey requestHash days).Returns execTx w r w') :
    ∃ d b b' rec, days = some d
      ∧ Created env dto idempotencyKey requestHash w w' d b b' r rec := by
  obtain ⟨_, w₁, hlock, h⟩ := Script.returns_bind.mp h
  obtain ⟨_, w₂, hids, hdone⟩ := Script.returns_bind.mp hlock
  obtain ⟨-, rfl⟩ := Script.returns_done.mp hdone
  obtain ⟨-, rfl⟩ := read_returns rfl hids
  obtain ⟨_, w₃, hoverlap, h⟩ := Script.returns_bind.mp h
  obtain ⟨active, w₄, hactive, hnone⟩ := Script.returns_bind.mp hoverlap
  obtain ⟨-, rfl⟩ := read_returns rfl hactive
  obtain ⟨rfl, -⟩ := assertNoneOverlaps_returns hnone
  obtain ⟨b', w₅, hdeduct, h⟩ := Script.returns_bind.mp h
  obtain ⟨d, b, rfl, hkey, henough, hacc, hmoved⟩ := atomicDeduct_returns hdeduct
  obtain ⟨_, w₆, hdays, h⟩ := Script.returns_bind.mp h
  obtain ⟨hd, rfl⟩ := sqlNumber_returns.mp hdays
  cases hd
  obtain ⟨saved, w₇, hreq, h⟩ := Script.returns_bind.mp h
  obtain ⟨db₁, hexec, rfl⟩ := Tx.stmt_returns.mp hreq
  obtain ⟨hsaved, hadded, hbal, hrec⟩ := Stmt.exec_insertRequest hexec
  obtain ⟨now, w₈, hnow, h⟩ := Script.returns_bind.mp h
  obtain ⟨rfl, rfl⟩ := Tx.now_returns.mp hnow
  obtain ⟨rec, w₉, hins, h⟩ := Script.returns_bind.mp h
  obtain ⟨db₂, hexec', rfl⟩ := Tx.stmt_returns.mp hins
  obtain ⟨hrecord, hradded, hbal', hreq'⟩ := Stmt.exec_insertRecord hexec'
  obtain ⟨rfl, rfl⟩ := Script.returns_done.mp h
  have hclock : w₆.clock = w.clock := hmoved.clock
  refine ⟨d, b, b', rec, rfl, hkey, henough, hacc, ?_, ?_, ?_, ⟨w₆.uuid, ?_⟩, ⟨w₆.uuid + 1, ?_⟩,
    hclock, hmoved.deferred, hmoved.createLocks, hmoved.nextTicket⟩
  · show w.db.balances.Replaced db₂.balances b b'
    rw [hbal', hbal]
    exact hmoved.balances
  · show w.db.requests.Added db₂.requests _
    rw [hreq', ← hmoved.requests]
    exact hadded
  · show w.db.records.Added db₂.records _
    rw [← hmoved.records, ← hrec]
    exact hradded
  · rw [hsaved, ← hclock]
    rfl
  · rw [hrecord, ← hclock]
    rfl

/-! ## Approve, reject, cancel -/

/-- One of the three settlements with what its caller passes. -/
inductive Settlement where
  | approve (approverId : String)
  | reject (approverId reason : String)
  | cancel (reason : Option String)
  deriving DecidableEq

namespace Settlement

def target : Settlement → RequestStatus
  | approve _ => .approved
  | reject _ _ => .rejected
  | cancel _ => .cancelled

/-- The columns a settlement sets. -/
def mark : Settlement → ℤ → TimeOffRequest → TimeOffRequest
  | approve a => markApproved a
  | reject a reason => markRejected a reason
  | cancel reason => markCancelled reason

def moveDays : Settlement → String → String → LeaveType → ℚ → Tx EmployeeBalance
  | approve _ => finalizeUsed
  | reject _ _ => releaseFromPending
  | cancel _ => releaseFromPending

/-- What becomes of the account. -/
def op : Settlement → Account → ℚ → Account
  | approve _ => Account.finalize
  | reject _ _ => Account.release
  | cancel _ => Account.release

/-- The callbacks scheduled for the saved row. -/
def scheduled : Settlement → TimeOffRequest → List Callback
  | approve _, request => [.notifyApproval request request.id]
  | reject _ _, _ => []
  | cancel _, _ => []

def transaction : Settlement → Id → Tx TimeOffRequest
  | approve a, id => approveTransaction id a
  | reject a reason, id => rejectTransaction id a reason
  | cancel reason, id => cancelTransaction id reason

/-- The service call. -/
def request : Settlement → Id → Svc SerializedRequest
  | approve a, id => approveRequest id a
  | reject a reason, id => rejectRequest id a reason
  | cancel reason, id => cancelRequest id reason

theorem request_eq (s : Settlement) (id : Id) :
    s.request id = (Svc.transaction (s.transaction id)).bind
      fun r => .done (serializeRequest r) := by
  cases s <;> rfl

theorem mark_id (s : Settlement) (now : ℤ) (r : TimeOffRequest) : (s.mark now r).id = r.id := by
  cases s <;> rfl

theorem mark_status (s : Settlement) (now : ℤ) (r : TimeOffRequest) :
    (s.mark now r).status = s.target := by
  cases s <;> rfl

theorem mark_balanceKey (s : Settlement) (now : ℤ) (r : TimeOffRequest) :
    (s.mark now r).balanceKey = r.balanceKey := by
  cases s <;> rfl

theorem mark_days (s : Settlement) (now : ℤ) (r : TimeOffRequest) :
    (s.mark now r).daysRequested = r.daysRequested := by
  cases s <;> rfl

theorem target_ne_pending (s : Settlement) : s.target ≠ .pending := by
  cases s <;> simp [target]

end Settlement

/-- What a settlement that commits does: one pending request takes its new
status, its days, which were pending, move, and its callbacks are
scheduled. -/
structure Settled (s : Settlement) (requestId : Id) (w w' : World) (r r' : TimeOffRequest)
    (b b' : EmployeeBalance) : Prop where
  id : r.id = requestId
  pending : r.status = .pending
  row : r' = (s.mark w.clock r).saveOver w.clock r
  requests : w.db.requests.Replaced w'.db.requests r r'
  key : b.key = r.balanceKey
  enough : r.daysRequested ≤ b.pendingBalance
  account : b'.account = s.op b.account r.daysRequested
  balances : w.db.balances.Replaced w'.db.balances b b'
  records : w'.db.records = w.db.records
  clock : w'.clock = w.clock
  deferred : w'.deferred = w.deferred ++ s.scheduled r'
  createLocks : w'.createLocks = w.createLocks
  nextTicket : w'.nextTicket = w.nextTicket

namespace Settled

variable {s : Settlement} {requestId : Id} {r r' : TimeOffRequest} {b b' : EmployeeBalance}

theorem status (h : Settled s requestId w w' r r' b b') : r'.status = s.target := by
  rw [h.row]; exact s.mark_status w.clock r

theorem days (h : Settled s requestId w w' r r' b b') : r'.daysRequested = r.daysRequested := by
  rw [h.row]; exact s.mark_days w.clock r

theorem balanceKey (h : Settled s requestId w w' r r' b b') : r'.balanceKey = r.balanceKey := by
  rw [h.row]; exact s.mark_balanceKey w.clock r

end Settled

theorem assertValidTransition_returns {current target : RequestStatus} {u : Unit}
    (h : (assertValidTransition current target).Returns execTx w u w') :
    target ∈ validTransitions current ∧ w' = w := by
  unfold assertValidTransition at h
  by_cases hin : target ∈ validTransitions current
  · simp only [hin, if_true, Script.pure_eq, Script.returns_done] at h
    exact ⟨hin, h.2⟩
  · simp [hin] at h

/-- Only a pending request has a transition. -/
theorem pending_of_transition {current target : RequestStatus}
    (h : target ∈ validTransitions current) : current = .pending := by
  cases current with
  | pending => rfl
  | approved => simp [validTransitions] at h
  | rejected => simp [validTransitions] at h
  | cancelled => simp [validTransitions] at h

theorem getRequestLockedOrThrow_returns {requestId : Id} {r : TimeOffRequest}
    (h : (getRequestLockedOrThrow requestId).Returns execTx w r w') :
    r ∈ w.db.requests.rows ∧ r.id = requestId ∧ w' = { w with uuid := w.uuid + 1 } := by
  obtain ⟨x, w₁, hfind, h⟩ := Script.returns_bind.mp h
  obtain ⟨hexec, rfl⟩ := read_returns rfl hfind
  simp only [Stmt.exec, Except.ok.injEq, Prod.mk.injEq, and_true] at hexec
  subst hexec
  cases hrow : w.db.requests.byPk requestId with
  | none => simp [hrow] at h
  | some row =>
      simp only [hrow, Script.pure_eq, Script.returns_done] at h
      obtain ⟨rfl, rfl⟩ := h
      obtain ⟨hmem, hid⟩ := Table.byPk_eq_some.mp hrow
      exact ⟨hmem, hid, rfl⟩

theorem moveDays_returns {s : Settlement} {d : ℚ} {b' : EmployeeBalance}
    (h : (s.moveDays employeeId locationId leaveType d).Returns execTx w b' w') :
    ∃ b, b.key = (employeeId, locationId, leaveType) ∧ d ≤ b.pendingBalance
      ∧ b'.account = s.op b.account d ∧ BalanceMoved w w' b b' := by
  cases s with
  | approve a => exact finalizeUsed_returns h
  | reject a reason => exact releaseFromPending_returns h
  | cancel reason => exact releaseFromPending_returns h

/-- What the transaction schedules before it commits. -/
def Settlement.schedule (s : Settlement) (requestId : Id) (r : TimeOffRequest) : Tx Unit :=
  match s with
  | .approve _ => Tx.setImmediate (.notifyApproval r requestId)
  | .reject _ _ => pure ()
  | .cancel _ => pure ()

/-- The three transactions are one, each with its own parts. -/
theorem Settlement.transaction_eq (s : Settlement) (requestId : Id) :
    s.transaction requestId
      = settleTransaction requestId s.target s.mark s.moveDays (s.schedule requestId) := by
  cases s <;> rfl

theorem transaction_returns {s : Settlement} {requestId : Id} {r' : TimeOffRequest}
    (h : (s.transaction requestId).Returns execTx w r' w') :
    ∃ r b b', Settled s requestId w w' r r' b b' := by
  rw [Settlement.transaction_eq] at h
  obtain ⟨r, w₁, hget, h⟩ := Script.returns_bind.mp h
  obtain ⟨hmem, hid, rfl⟩ := getRequestLockedOrThrow_returns hget
  obtain ⟨_, w₂, hassert, h⟩ := Script.returns_bind.mp h
  obtain ⟨hallowed, rfl⟩ := assertValidTransition_returns hassert
  obtain ⟨now, w₃, hnow, h⟩ := Script.returns_bind.mp h
  obtain ⟨rfl, rfl⟩ := Tx.now_returns.mp hnow
  obtain ⟨saved, w₄, hsave, h⟩ := Script.returns_bind.mp h
  obtain ⟨db₁, hexec, rfl⟩ := Tx.stmt_returns.mp hsave
  obtain ⟨hrow, hrep, hbal, hrec⟩ := Stmt.exec_saveRequest hmem (s.mark_id _ r) hexec
  obtain ⟨b', w₅, hmove, h⟩ := Script.returns_bind.mp h
  obtain ⟨b, hkey, henough, hacc, hmoved⟩ := moveDays_returns hmove
  obtain ⟨_, w₆, hafter, h⟩ := Script.returns_bind.mp h
  obtain ⟨rfl, rfl⟩ := Script.returns_done.mp h
  have hdays : r'.daysRequested = r.daysRequested := by rw [hrow]; exact s.mark_days _ r
  have hbkey : r'.balanceKey = r.balanceKey := by rw [hrow]; exact s.mark_balanceKey _ r
  have hid' : r'.id = requestId := by rw [hrow]; exact hid
  rw [hdays] at henough hacc
  -- the scheduling at the end touches the callbacks alone
  obtain ⟨hdb, hclock, hdef, hlocks, hticket⟩ : w'.db = w₅.db ∧ w'.clock = w₅.clock
      ∧ w'.deferred = w₅.deferred ++ s.scheduled r' ∧ w'.createLocks = w₅.createLocks
      ∧ w'.nextTicket = w₅.nextTicket := by
    cases s with
    | approve a =>
        obtain rfl := Tx.setImmediate_returns.mp hafter
        exact ⟨rfl, rfl, by rw [Settlement.scheduled, hid'], rfl, rfl⟩
    | reject a reason =>
        obtain ⟨-, rfl⟩ := Script.returns_done.mp hafter
        exact ⟨rfl, rfl, by simp [Settlement.scheduled], rfl, rfl⟩
    | cancel reason =>
        obtain ⟨-, rfl⟩ := Script.returns_done.mp hafter
        exact ⟨rfl, rfl, by simp [Settlement.scheduled], rfl, rfl⟩
  refine ⟨r, b, b', hid, pending_of_transition hallowed, hrow, ?_, hkey.trans hbkey, henough,
    hacc, ?_, ?_, hclock.trans hmoved.clock, ?_, hlocks.trans hmoved.createLocks,
    hticket.trans hmoved.nextTicket⟩
  · show w.db.requests.Replaced w'.db.requests r r'
    rw [hdb, hmoved.requests]
    exact hrep
  · show w.db.balances.Replaced w'.db.balances b b'
    rw [hdb, ← hbal]
    exact hmoved.balances
  · rw [hdb, hmoved.records]
    exact hrec
  · rw [hdef, hmoved.deferred]

end LeaveLedger
