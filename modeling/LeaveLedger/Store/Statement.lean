import LeaveLedger.Store.World

/-!
# Store — What statements do

One lemma for each kind of statement, in terms of the rows: a read leaves
the database alone, a `save` or `update` turns one row into another, an
insert adds one. The programs above are then taken apart with
`Tx.stmt_returns` and `Script.returns_bind`, and never by unfolding the
database.
-/

namespace LeaveLedger

open Js Lib

namespace Stmt

/-- The statements that only read. -/
def isRead : Stmt → Bool
  | .findBalance _ _ _ | .findBalanceIds _ _ | .findBalances | .findRequest _
  | .findRequestByKey _ | .findActiveRequests _ _ | .findPendingSyncs | .findRecord _ => true
  | .saveBalance _ | .insertBalance _ | .updateBalance _ _ | .saveRequest _
  | .insertRequest _ | .updateRequest _ _ | .insertRecord _ => false

variable {st : Stamp} {db db' : Database}

theorem exec_read {o : Stmt} {r : o.Res} (ho : o.isRead) (h : o.exec st db = .ok (r, db')) :
    db' = db := by
  cases o <;> simp [isRead] at ho <;> simp [exec] at h <;> exact h.2.symm

theorem exec_saveBalance {e e' : EmployeeBalance} {b : EmployeeBalance}
    (hb : b ∈ db.balances.rows) (hid : e.id = b.id)
    (h : (Stmt.saveBalance e).exec st db = .ok (e', db')) :
    e' = e.saveOver st.now b ∧ db.balances.Replaced db'.balances b e'
      ∧ db'.requests = db.requests ∧ db'.records = db.records := by
  have hrow : db.balances.byPk e.id = some b := Table.byPk_eq_some.mpr ⟨hb, hid.symm⟩
  simp only [exec, hrow, Except.ok.injEq, Prod.mk.injEq] at h
  obtain ⟨rfl, rfl⟩ := h
  refine ⟨rfl, ?_, rfl, rfl⟩
  simp only [Database.saveBalance, hid]
  exact Table.replaced_modify hb

theorem exec_saveRequest {e e' : TimeOffRequest} {r : TimeOffRequest}
    (hr : r ∈ db.requests.rows) (hid : e.id = r.id)
    (h : (Stmt.saveRequest e).exec st db = .ok (e', db')) :
    e' = e.saveOver st.now r ∧ db.requests.Replaced db'.requests r e'
      ∧ db'.balances = db.balances ∧ db'.records = db.records := by
  have hrow : db.requests.byPk e.id = some r := Table.byPk_eq_some.mpr ⟨hr, hid.symm⟩
  simp only [exec, hrow, Except.ok.injEq, Prod.mk.injEq] at h
  obtain ⟨rfl, rfl⟩ := h
  refine ⟨rfl, ?_, rfl, rfl⟩
  simp only [Database.saveRequest, hid]
  exact Table.replaced_modify hr

theorem exec_updateBalance {b : EmployeeBalance} {p : BalancePatch} {u : Unit}
    (hb : b ∈ db.balances.rows) (h : (Stmt.updateBalance b.id p).exec st db = .ok (u, db')) :
    db.balances.Replaced db'.balances b (p.apply st.now b)
      ∧ db'.requests = db.requests ∧ db'.records = db.records := by
  simp only [exec, Except.ok.injEq, Prod.mk.injEq] at h
  obtain ⟨-, rfl⟩ := h
  refine ⟨?_, rfl, rfl⟩
  simp only [Database.updateBalance]
  exact Table.replaced_modify hb

theorem exec_insertBalance {n : NewBalance} {b : EmployeeBalance}
    (h : (Stmt.insertBalance n).exec st db = .ok (b, db')) :
    b = n.toRow st.uuid st.now ∧ db.balances.Added db'.balances b
      ∧ db'.requests = db.requests ∧ db'.records = db.records := by
  simp only [exec, Database.insertBalance] at h
  cases ht : db.balances.insert? (n.toRow st.uuid st.now) with
  | none => simp [ht, Except.map] at h
  | some t =>
      simp only [ht, Except.map, Except.ok.injEq, Prod.mk.injEq] at h
      obtain ⟨rfl, rfl⟩ := h
      exact ⟨rfl, Table.added_of_insert? ht, rfl, rfl⟩

theorem exec_insertRequest {n : NewRequest} {r : TimeOffRequest}
    (h : (Stmt.insertRequest n).exec st db = .ok (r, db')) :
    r = n.toRow st.uuid st.now ∧ db.requests.Added db'.requests r
      ∧ db'.balances = db.balances ∧ db'.records = db.records := by
  simp only [exec, Database.insertRequest] at h
  cases ht : db.requests.insert? (n.toRow st.uuid st.now) with
  | none => simp [ht, Except.map] at h
  | some t =>
      simp only [ht, Except.map, Except.ok.injEq, Prod.mk.injEq] at h
      obtain ⟨rfl, rfl⟩ := h
      exact ⟨rfl, Table.added_of_insert? ht, rfl, rfl⟩

theorem exec_insertRecord {n : NewRecord} {r : IdempotencyRecord}
    (h : (Stmt.insertRecord n).exec st db = .ok (r, db')) :
    r = n.toRow st.uuid st.now ∧ db.records.Added db'.records r
      ∧ db'.balances = db.balances ∧ db'.requests = db.requests := by
  simp only [exec, Database.insertRecord] at h
  cases ht : db.records.insert? (n.toRow st.uuid st.now) with
  | none => simp [ht, Except.map] at h
  | some t =>
      simp only [ht, Except.map, Except.ok.injEq, Prod.mk.injEq] at h
      obtain ⟨rfl, rfl⟩ := h
      exact ⟨rfl, Table.added_of_insert? ht, rfl, rfl⟩

end Stmt

/-- The row of a key after an update of the row with id `id`. -/
theorem byUk_updateBalance {db : Database} {id : Id} {p : BalancePatch} {now : ℤ}
    {k : BalanceKey} :
    (db.updateBalance id p now).balances.byUk k
      = (db.balances.byUk k).map fun b => if b.id = id then p.apply now b else b :=
  @Table.byUk_modify _ _ _ _ _ db.balances _ id (p.apply now) (fun _ => rfl) (fun _ => rfl) _ k

theorem byPk_updateBalance {db : Database} {id i : Id} {p : BalancePatch} {now : ℤ} :
    (db.updateBalance id p now).balances.byPk i
      = (db.balances.byPk i).map fun b => if b.id = id then p.apply now b else b :=
  @Table.byPk_modify _ _ _ _ _ db.balances _ id (p.apply now) (fun _ => rfl) (fun _ => rfl) i

theorem byPk_updateRequest {db : Database} {id i : Id} {p : RequestPatch} {now : ℤ} :
    (db.updateRequest id p now).requests.byPk i
      = (db.requests.byPk i).map fun b => if b.id = id then p.apply now b else b :=
  @Table.byPk_modify _ _ _ _ _ db.requests _ id (p.apply now) (fun _ => rfl) (fun _ => rfl) i

theorem mem_updateBalance {db : Database} {id : Id} {p : BalancePatch} {now : ℤ}
    {x : EmployeeBalance} :
    x ∈ (db.updateBalance id p now).balances.rows
      ↔ ∃ b ∈ db.balances.rows, x = if b.id = id then p.apply now b else b := by
  simp only [Database.updateBalance]
  exact Table.mem_modify

/-- The requests after an update of HCM columns. -/
theorem mem_updateRequest {db : Database} {id : Id} {p : RequestPatch} {now : ℤ}
    {x : TimeOffRequest} :
    x ∈ (db.updateRequest id p now).requests.rows
      ↔ ∃ r ∈ db.requests.rows, x = if r.id = id then p.apply now r else r := by
  simp only [Database.updateRequest]
  exact Table.mem_modify

/-! ## The requests of a transaction -/

namespace Tx

variable {w w' : World}

theorem stmt_returns {o : Stmt} {r : o.Res} :
    (Tx.stmt o).Returns execTx w r w' ↔
      ∃ db', o.exec w.stamp w.db = .ok (r, db')
        ∧ w' = { w with db := db', uuid := w.uuid + 1 } := by
  show (execTx (.stmt o) w).bind (fun x => (orThrow x.1 : Tx o.Res).run execTx x.2) = _ ↔ _
  simp only [execTx, Option.bind_some]
  cases h : o.exec w.stamp w.db with
  | error e => simp
  | ok x =>
      simp only [orThrow_ok, Script.run_done, Option.some.injEq, Prod.mk.injEq, Except.ok.injEq]
      constructor
      · rintro ⟨rfl, rfl⟩
        exact ⟨x.2, rfl, rfl⟩
      · rintro ⟨db', rfl, rfl⟩
        exact ⟨rfl, rfl⟩

@[simp] theorem now_returns {t : ℤ} : Tx.now.Returns execTx w t w' ↔ t = w.clock ∧ w' = w := by
  show some (Except.ok w.clock, w) = some (.ok t, w') ↔ _
  simp [eq_comm]

@[simp] theorem setImmediate_returns {c : Callback} {u : Unit} :
    (Tx.setImmediate c).Returns execTx w u w' ↔
      w' = { w with deferred := w.deferred ++ [c] } := by
  show some (Except.ok (), { w with deferred := w.deferred ++ [c] }) = some (.ok u, w') ↔ _
  simp [eq_comm]

/-- A transaction body always runs to an end. -/
theorem run_isSome {α : Type} (p : Tx α) (w : World) : (p.run execTx w).isSome := by
  induction p generalizing w with
  | done a => rfl
  | fail e => rfl
  | await o k ih =>
      rw [Script.run_await]
      cases o <;> exact ih _ _

end Tx

/-! ## What a service call asks for -/

section asks
variable {P : SvcOp → Prop}

theorem asks_orThrow {S : Sig} {P : S.Op → Prop} {α : Type} (x : Except Exception α) :
    (orThrow x : Script S Exception α).Asks P := by
  cases x <;> trivial

theorem asks_stmt {o : Stmt} (h : P (.stmt o)) : (Svc.stmt o).Asks P :=
  ⟨h, fun r => asks_orThrow r⟩

theorem asks_transaction {body : Tx TimeOffRequest} (h : P (.transaction body)) :
    (Svc.transaction body).Asks P :=
  ⟨h, fun r => asks_orThrow r⟩

theorem asks_now (h : P .now) : Svc.now.Asks P := ⟨h, fun _ => trivial⟩

end asks

end LeaveLedger
