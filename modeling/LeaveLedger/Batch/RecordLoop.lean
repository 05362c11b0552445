import LeaveLedger.Hcm.BatchSync
import LeaveLedger.Ledger.Reconciliation

/-!
# Batch — The record loop, run alone

What `_reconcileRecord` makes of the tables when nothing runs between its
two statements (`reconciled`), and the loop of `runBatchSync` over a
payload as a fold of that (`processed`). Facts about a batch are then facts
about lists of records.
-/

namespace LeaveLedger

open Js Lib

/-- One statement of a call, and what comes after it. -/
theorem svcStmt_run {ε α : Type} {fate : Fate} {w : World} {o : Stmt}
    {f : Except Exception o.Res → Script SvcSig ε α} :
    ((Script.ask (S := SvcSig) (SvcOp.stmt o)).bind f).run (execSvc fate) w =
      match o.exec w.stamp w.db with
      | .ok r => (f (.ok r.1)).run (execSvc fate) { w with db := r.2, uuid := w.uuid + 1 }
      | .error e => (f (.error e)).run (execSvc fate) w := by
  rw [Script.ask_bind, Script.run_await]
  simp only [execSvc, Option.bind_some]
  cases o.exec w.stamp w.db <;> rfl

/-! ## One record -/

/-- The columns `_reconcileRecord` saves for a key without a local row. -/
def HcmRecord.newBalance (r : HcmRecord) (now : ℤ) : NewBalance where
  employeeId := r.employeeId
  locationId := r.locationId
  leaveType := r.leaveType
  totalBalance := r.totalBalance
  availableBalance := r.totalBalance
  pendingBalance := 0
  usedBalance := 0
  hcmTotalBalance := r.totalBalance
  hcmLastSync := some now
  hcmVersion := orNull r.version

/-- What `_reconcileRecord` returns or throws, and the world after it. -/
def reconciled (r : HcmRecord) (w : World) : Except Exception Bool × World :=
  match w.db.balances.byUk r.key with
  | some b =>
      (.ok (0.01 < |r.totalBalance - b.localTotal|), { w with
        db := w.db.updateBalance b.id (reconcilePatch r b w.clock) w.clock
        uuid := w.uuid + 1 + 1 })
  | none =>
      match w.db.insertBalance ((r.newBalance w.clock).toRow (w.uuid + 1) w.clock) with
      | .ok db => (.ok true, { w with db := db, uuid := w.uuid + 1 + 1 })
      | .error e => (.error e, { w with uuid := w.uuid + 1 })

theorem reconcileRecord_run (r : HcmRecord) (fate : Fate) (w : World) :
    (reconcileRecord r).run (execSvc fate) w = some (reconciled r w) := by
  have hfind : (reconcileRecord r).run (execSvc fate) w
      = (reconcileLocal r (w.db.balances.byUk r.key)).run (execSvc fate)
          { w with uuid := w.uuid + 1 } := rfl
  rw [hfind]
  unfold reconciled
  cases w.db.balances.byUk r.key with
  | some b => rfl
  | none =>
      have hinsert : (reconcileLocal r none).run (execSvc fate) { w with uuid := w.uuid + 1 }
          = ((Svc.stmt (.insertBalance (r.newBalance w.clock))).bind fun _ => .done true).run
              (execSvc fate) { w with uuid := w.uuid + 1 } := rfl
      rw [hinsert, Script.run_bind]
      show Option.bind (((Script.ask (S := SvcSig) (SvcOp.stmt _)).bind orThrow).run _ _) _ = _
      rw [svcStmt_run]
      simp only [Stmt.exec, World.stamp]
      cases w.db.insertBalance ((r.newBalance w.clock).toRow (w.uuid + 1) w.clock) <;> rfl

/-- How a record came out: its row was updated, a row was opened for it, or the
insert of one was refused. -/
inductive ReconcileCase (r : HcmRecord) (w : World) : Except Exception Bool × World → Prop
  | updated {b : EmployeeBalance} {changed : Bool} (hrow : w.db.balances.byUk r.key = some b) :
      ReconcileCase r w (.ok changed, { w with
        db := w.db.updateBalance b.id (reconcilePatch r b w.clock) w.clock
        uuid := w.uuid + 1 + 1 })
  | opened {t : BalanceTable} (hmissing : w.db.balances.byUk r.key = none)
      (hadded : w.db.balances.Added t
        ((r.newBalance w.clock).toRow (w.uuid + 1) w.clock)) :
      ReconcileCase r w (.ok true, { w with
        db := { w.db with balances := t }, uuid := w.uuid + 1 + 1 })
  | refused (hmissing : w.db.balances.byUk r.key = none)
      (hused : ∃ b ∈ w.db.balances.rows, b.id = w.uuid + 1) :
      ReconcileCase r w (.error (uniqueError
        "employee_balances.employeeId, employee_balances.locationId, employee_balances.leaveType"),
        { w with uuid := w.uuid + 1 })

theorem reconciled_cases (r : HcmRecord) (w : World) : ReconcileCase r w (reconciled r w) := by
  unfold reconciled
  cases hrow : w.db.balances.byUk r.key with
  | some b => exact .updated hrow
  | none =>
      simp only [Database.insertBalance]
      cases ht : w.db.balances.insert? ((r.newBalance w.clock).toRow (w.uuid + 1) w.clock) with
      | some t => exact .opened hrow (Table.added_of_insert? ht)
      | none =>
          refine .refused hrow ?_
          by_contra hnew
          have hsome : (w.db.balances.insert?
              ((r.newBalance w.clock).toRow (w.uuid + 1) w.clock)).isSome := by
            rw [Table.insert?_isSome_iff]
            exact ⟨fun b hb heq => hnew ⟨b, hb, heq⟩, Table.byUk_eq_none.mp hrow⟩
          rw [ht] at hsome
          cases hsome

/-! ## What a record may do to a row -/

/-- A row may have gained available days, and its HCM columns may have changed. -/
structure EmployeeBalance.Grew (b b' : EmployeeBalance) : Prop where
  id : b'.id = b.id
  key : b'.key = b.key
  pending : b'.pendingBalance = b.pendingBalance
  used : b'.usedBalance = b.usedBalance
  available : b.availableBalance ≤ b'.availableBalance

theorem EmployeeBalance.Grew.refl (b : EmployeeBalance) : b.Grew b := ⟨rfl, rfl, rfl, rfl, le_rfl⟩

theorem EmployeeBalance.Grew.trans {a b c : EmployeeBalance} (h : a.Grew b) (h' : b.Grew c) :
    a.Grew c :=
  ⟨h'.id.trans h.id, h'.key.trans h.key, h'.pending.trans h.pending, h'.used.trans h.used,
    h.available.trans h'.available⟩

theorem reconcilePatch_grew (r : HcmRecord) (b : EmployeeBalance) (now t : ℤ) :
    b.Grew ((reconcilePatch r b now).apply t b) := by
  have hacc := reconcilePatch_account r b now t
  refine ⟨rfl, rfl, rfl, rfl, ?_⟩
  split at hacc
  · rename_i hdrift
    have hav := congrArg Account.available hacc
    simp only [EmployeeBalance.account, Account.raiseTo] at hav
    unfold EmployeeBalance.localTotal at hdrift
    linarith
  · exact (congrArg Account.available hacc).ge

/-- The row of the record's key afterwards, when it had one. -/
theorem ReconcileCase.row_of_some {r : HcmRecord} {w : World} {x : Except Exception Bool × World}
    (h : ReconcileCase r w x) {b : EmployeeBalance} (hrow : w.db.balances.byUk r.key = some b) :
    x.2.db.balances.byUk r.key = some ((reconcilePatch r b w.clock).apply w.clock b) := by
  cases h with
  | updated hrow' =>
      rw [hrow] at hrow'
      cases hrow'
      rw [byUk_updateBalance, hrow, Option.map_some, if_pos rfl]
  | opened hmissing => rw [hrow] at hmissing; cases hmissing
  | refused hmissing => rw [hrow] at hmissing; cases hmissing

/-- A record leaves the rows of other keys alone. -/
theorem ReconcileCase.row_of_ne {r : HcmRecord} {w : World} {x : Except Exception Bool × World}
    (h : ReconcileCase r w x) {k : BalanceKey} (hk : k ≠ r.key) :
    x.2.db.balances.byUk k = w.db.balances.byUk k := by
  cases h with
  | @updated b changed hrow =>
      rw [byUk_updateBalance]
      cases hrow' : w.db.balances.byUk k with
      | none => rfl
      | some c =>
          rw [Option.map_some, if_neg]
          intro hid
          obtain ⟨hb, hkey⟩ := Table.byUk_eq_some.mp hrow
          obtain ⟨hc, hkey'⟩ := Table.byUk_eq_some.mp hrow'
          refine hk ?_
          rw [← hkey', ← hkey, Table.eq_of_pk hc hb hid]
  | opened _ hadded => exact hadded.byUk_of_ne hk
  | refused => rfl

/-- Every row stays, at least as available as it was. -/
theorem ReconcileCase.grew {r : HcmRecord} {w : World} {x : Except Exception Bool × World}
    (h : ReconcileCase r w x) {k : BalanceKey} {b : EmployeeBalance}
    (hrow : w.db.balances.byUk k = some b) :
    ∃ b', x.2.db.balances.byUk k = some b' ∧ b.Grew b' := by
  by_cases hk : k = r.key
  · subst hk
    exact ⟨_, h.row_of_some hrow, reconcilePatch_grew r b w.clock w.clock⟩
  · exact ⟨b, (h.row_of_ne hk).trans hrow, .refl b⟩

/-! ## The loop -/

/-- The counters after one record. -/
def BatchTotals.count (totals : BatchTotals) (r : HcmRecord) : Except Exception Bool → BatchTotals
  | .ok updated =>
      if updated then
        { totals with
          recordsProcessed := totals.recordsProcessed + 1
          recordsUpdated := totals.recordsUpdated + 1 }
      else { totals with recordsProcessed := totals.recordsProcessed + 1 }
  | .error err =>
      { totals with recordsProcessed := totals.recordsProcessed + 1 }.failed r.key err.message

/-- One turn of the record loop. -/
def processed (s : BatchTotals × World) (r : HcmRecord) : BatchTotals × World :=
  (s.1.count r (reconciled r s.2).1, (reconciled r s.2).2)

theorem processRecord_run (totals : BatchTotals) (r : HcmRecord) (fate : Fate) (w : World) :
    (processRecord totals r).run (execSvc fate) w
      = some (.ok (processed (totals, w) r).1, (processed (totals, w) r).2) := by
  unfold processRecord processed
  rw [Script.tryCatch_eq, Script.run_attempt, Script.bind_eq, Script.run_bind,
    reconcileRecord_run]
  cases h : (reconciled r w).1 with
  | error err => simp only [Option.bind_some, h]; rfl
  | ok updated =>
      simp only [Option.bind_some, h]
      cases updated <;> rfl

/-- **The loop rule**: the record loop never throws and folds `processed`. -/
theorem processRecords_run (payload : List HcmRecord) (totals : BatchTotals) (fate : Fate)
    (w : World) :
    (processRecords totals payload).run (execSvc fate) w
      = some (.ok (payload.foldl processed (totals, w)).1,
          (payload.foldl processed (totals, w)).2) := by
  induction payload generalizing totals w with
  | nil => rfl
  | cons r rest ih =>
      rw [processRecords, Script.bind_eq, Script.run_bind, processRecord_run]
      exact ih _ _

/-- What every record keeps, the loop keeps. -/
theorem foldl_processed_keeps {I : BatchTotals × World → Prop}
    (hstep : ∀ s r x, I s → ReconcileCase r s.2 x → I (s.1.count r x.1, x.2))
    (payload : List HcmRecord) {s : BatchTotals × World} (h : I s) :
    I (payload.foldl processed s) := by
  induction payload generalizing s with
  | nil => exact h
  | cons r rest ih => exact ih (hstep s r _ h (reconciled_cases r s.2))

/-- After the loop every row is still there, at least as available as it was. -/
theorem foldl_processed_grew (payload : List HcmRecord) {s : BatchTotals × World}
    {k : BalanceKey} {b : EmployeeBalance} (hrow : s.2.db.balances.byUk k = some b) :
    ∃ b', (payload.foldl processed s).2.db.balances.byUk k = some b' ∧ b.Grew b' := by
  refine foldl_processed_keeps
    (I := fun s => ∃ b', s.2.db.balances.byUk k = some b' ∧ b.Grew b') ?_ payload
    ⟨b, hrow, .refl b⟩
  intro s r x hI hcase
  obtain ⟨b₁, hrow₁, hgrew₁⟩ := hI
  obtain ⟨b₂, hrow₂, hgrew₂⟩ := hcase.grew hrow₁
  exact ⟨b₂, hrow₂, hgrew₁.trans hgrew₂⟩

end LeaveLedger
