import LeaveLedger.Ledger.Lifecycle
import LeaveLedger.Lib.Machine

/-!
# Ledger — Reconciliation of balances and requests

The machine whose steps are the seven operations that move days, each run
to its end before the next, in any order and any number, with the clock
moving in between. In every state it reaches from empty tables each
balance row is the account of its requests, so a settlement of a pending
request always finds its row and its days.
-/

namespace LeaveLedger

open Js Lib

/-! ## What the HCM operations do to a row -/

/-- A new row was opened for a key that had none, all of its total available. -/
structure Opened (key : BalanceKey) (total : ℚ) (db db' : Database) : Prop where
  missing : db.balances.byUk key = none
  row : ∃ b, db.balances.Added db'.balances b ∧ b.account = Account.of total 0 0
  requests : db'.requests = db.requests
  records : db'.records = db.records

/-- The row of a key kept its account, or had it raised to a higher total. -/
structure Raised (key : BalanceKey) (total : ℚ) (db db' : Database) : Prop where
  row : ∃ b b', b.key = key ∧ db.balances.Replaced db'.balances b b'
    ∧ (b'.account = b.account ∨ b.localTotal < total ∧ b'.account = b.account.raiseTo total)
  requests : db'.requests = db.requests
  records : db'.records = db.records

section
variable {w w' : World} {fates : List Fate}

/-- One statement of a call that runs alone, and what comes after it. -/
theorem run_alone_stmt {α : Type} {o : Stmt} {f : o.Res → Svc α} :
    ((Svc.stmt o).bind f).run execAlone (w, fates) = match o.exec w.stamp w.db with
      | .ok r => (f r.1).run execAlone ({ w with db := r.2, uuid := w.uuid + 1 }, fates)
      | .error e => some (.error e, w, fates) := by
  rw [Script.run_bind]
  show Option.bind (Option.bind (execAlone (.stmt o) (w, fates))
    fun x => (orThrow x.1 : Svc o.Res).run execAlone x.2) _ = _
  simp only [execAlone, execSvc, SvcOp.hasFate]
  cases o.exec w.stamp w.db <;> rfl

/-- It answers and the call goes on, or it throws and the call is over. -/
theorem alone_stmt {α : Type} {o : Stmt} {f : o.Res → Svc α}
    {x : Except Exception α × World × List Fate}
    (h : ((Svc.stmt o).bind f).run execAlone (w, fates) = some x) :
    (∃ r db', o.exec w.stamp w.db = .ok (r, db')
      ∧ (f r).run execAlone ({ w with db := db', uuid := w.uuid + 1 }, fates) = some x)
    ∨ ∃ e, o.exec w.stamp w.db = .error e ∧ x = (.error e, w, fates) := by
  rw [run_alone_stmt] at h
  cases hexec : o.exec w.stamp w.db with
  | ok r =>
      rw [hexec] at h
      exact Or.inl ⟨r.1, r.2, rfl, h⟩
  | error e =>
      rw [hexec] at h
      exact Or.inr ⟨e, rfl, (Option.some.inj h).symm⟩

theorem alone_now {α : Type} {f : ℤ → Svc α} {x : Except Exception α × World × List Fate}
    (h : (Svc.now.bind f).run execAlone (w, fates) = some x) :
    (f w.clock).run execAlone (w, fates) = some x := h

/-- A call alone that reads the row of a key first. -/
theorem alone_findBalance {α : Type} {employeeId locationId : String} {leaveType : LeaveType}
    {f : Option EmployeeBalance → Svc α} {x : Except Exception α × World × List Fate}
    (h : ((Svc.stmt (.findBalance employeeId locationId leaveType)).bind f).run execAlone
      (w, fates) = some x) :
    (f (w.db.balances.byUk (employeeId, locationId, leaveType))).run execAlone
      ({ w with uuid := w.uuid + 1 }, fates) = some x := by
  rcases alone_stmt h with ⟨r, db', hexec, h⟩ | ⟨e, hexec, -⟩
  · obtain rfl := Stmt.exec_read rfl hexec
    simp only [Stmt.exec, Except.ok.injEq, Prod.mk.injEq, and_true] at hexec
    rw [hexec]
    exact h
  · simp [Stmt.exec] at hexec

/-- A call alone that ends after inserting a row with its total available. -/
theorem alone_open {α : Type} {n : NewBalance} {f : EmployeeBalance → Svc α}
    {res : Except Exception α} {fates' : List Fate} (hmissing : w.db.balances.byUk n.key = none)
    (htotal : n.availableBalance = n.totalBalance) (hpending : n.pendingBalance = 0)
    (hused : n.usedBalance = 0)
    (hf : ∀ b w₁, (f b).run execAlone (w₁, fates) = some (res, w', fates') → w' = w₁)
    (h : ((Svc.stmt (.insertBalance n)).bind f).run execAlone (w, fates)
      = some (res, w', fates')) :
    w'.db = w.db ∨ Opened n.key n.totalBalance w.db w'.db := by
  rcases alone_stmt h with ⟨b, db', hexec, h⟩ | ⟨e, -, heq⟩
  · obtain rfl := hf b _ h
    obtain ⟨hb, hadded, hreq, hrec⟩ := Stmt.exec_insertBalance hexec
    refine Or.inr ⟨hmissing, ⟨b, hadded, ?_⟩, hreq, hrec⟩
    rw [hb]
    exact Account.ext rfl (by simp [Account.of, EmployeeBalance.account, NewBalance.toRow, htotal])
      hpending hused
  · cases heq
    exact Or.inl rfl

theorem upsertBalance_alone {env : Env} {employeeId locationId : String}
    {leaveType : LeaveType} {total : ℚ} {res : Except Exception SerializedBalance}
    (h : (upsertBalance env employeeId locationId leaveType total).alone fates w
      = some (res, w')) :
    w'.db = w.db ∨ Opened (employeeId, locationId, leaveType) total w.db w'.db := by
  obtain ⟨⟨res', w₁, fates'⟩, hrun, heq⟩ := Option.map_eq_some_iff.mp h
  obtain ⟨rfl, rfl⟩ := Prod.mk.inj heq
  replace hrun := alone_findBalance hrun
  cases hrow : w.db.balances.byUk (employeeId, locationId, leaveType) with
  | some b =>
      rw [hrow] at hrun
      cases alone_now hrun
      exact Or.inl rfl
  | none =>
      rw [hrow] at hrun
      refine alone_open hrow rfl rfl rfl (fun b w₁ h => ?_) (alone_now hrun)
      cases alone_now h
      rfl

/-- The account after the columns `_reconcileRecord` sets. -/
theorem reconcilePatch_account (hcmRecord : HcmRecord) (b : EmployeeBalance) (now t : ℤ) :
    ((reconcilePatch hcmRecord b now).apply t b).account
      = if 0.01 < hcmRecord.totalBalance - b.localTotal
        then b.account.raiseTo hcmRecord.totalBalance else b.account := by
  unfold reconcilePatch
  by_cases hsmall : |hcmRecord.totalBalance - b.localTotal| ≤ 0.01
  · have hle : ¬ 0.01 < hcmRecord.totalBalance - b.localTotal :=
      not_lt.mpr ((le_abs_self _).trans hsmall)
    simp only [hsmall, if_true, hle, if_false]
    rfl
  · by_cases hbig : 0.01 < hcmRecord.totalBalance - b.localTotal
    · simp only [hsmall, if_false, hbig, if_true]
      rfl
    · simp only [hsmall, if_false, hbig]
      rfl

theorem reconcileRecord_alone {hcmRecord : HcmRecord} {res : Except Exception Bool}
    (h : (reconcileRecord hcmRecord).alone fates w = some (res, w')) :
    w'.db = w.db ∨ Opened hcmRecord.key hcmRecord.totalBalance w.db w'.db
      ∨ Raised hcmRecord.key hcmRecord.totalBalance w.db w'.db := by
  obtain ⟨⟨res', w₁, fates'⟩, hrun, heq⟩ := Option.map_eq_some_iff.mp h
  obtain ⟨rfl, rfl⟩ := Prod.mk.inj heq
  replace hrun := alone_findBalance hrun
  cases hrow : w.db.balances.byUk hcmRecord.key with
  | none =>
      rw [show w.db.balances.byUk (hcmRecord.employeeId, hcmRecord.locationId,
        hcmRecord.leaveType) = none from hrow] at hrun
      have hopen := alone_open hrow rfl rfl rfl (fun b w₂ h => by cases h; rfl)
        (alone_now hrun)
      rcases hopen with hsame | hopened
      · exact Or.inl hsame
      · exact Or.inr (Or.inl hopened)
  | some b =>
      obtain ⟨hb, hkey⟩ := Table.byUk_eq_some.mp hrow
      rw [show w.db.balances.byUk (hcmRecord.employeeId, hcmRecord.locationId,
        hcmRecord.leaveType) = some b from hrow] at hrun
      rcases alone_stmt (alone_now hrun) with ⟨u, db', hexec, hrun⟩ | ⟨e, hexec, -⟩
      · cases hrun
        obtain ⟨hrep, hreq, hrec⟩ := Stmt.exec_updateBalance hb hexec
        refine Or.inr (Or.inr ⟨⟨b, _, hkey, hrep, ?_⟩, hreq, hrec⟩)
        rw [reconcilePatch_account]
        split
        · rename_i hdrift
          refine Or.inr ⟨?_, rfl⟩
          linarith
        · exact Or.inl rfl
      · simp [Stmt.exec] at hexec

/-- A balanced row has its total in it. -/
theorem LedgerInv.localTotal {db : Database} (h : LedgerInv db) {b : EmployeeBalance}
    (hb : b ∈ db.balances.rows) : b.localTotal = b.totalBalance := by
  have hav := congrArg Account.available (h.account b hb)
  have hpe := congrArg Account.pending (h.account b hb)
  have hus := congrArg Account.used (h.account b hb)
  simp only [EmployeeBalance.account, Account.of] at hav hpe hus
  unfold EmployeeBalance.localTotal
  rw [hav, hpe, hus]
  ring

/-- The account after the columns `applyHcmRealTimeUpdate` sets. -/
theorem hcmUpdated_account (hcmData : HcmData) (now : ℤ) (b : EmployeeBalance) :
    (hcmUpdated hcmData now b).account
      = if 0.001 < hcmData.totalBalance - b.localTotal
        then b.account.raiseTo hcmData.totalBalance else b.account := by
  unfold hcmUpdated EmployeeBalance.localTotal
  split
  · rename_i hdrift
    simp only [EmployeeBalance.account, hdrift, if_true]
    rfl
  · rename_i hdrift
    simp only [EmployeeBalance.account, hdrift, if_false]

theorem applyHcmRealTimeUpdate_returns {employeeId locationId : String}
    {leaveType : LeaveType} {hcmData : HcmData} {x : Option EmployeeBalance}
    (h : (applyHcmRealTimeUpdate employeeId locationId leaveType hcmData).Returns execTx w x w') :
    w'.db = w.db
      ∨ Raised (employeeId, locationId, leaveType) hcmData.totalBalance w.db w'.db := by
  obtain ⟨found, w₁, hfind, h⟩ := Script.returns_bind.mp h
  obtain ⟨rfl, rfl⟩ := findBalance_returns hfind
  cases hrow : w.db.balances.byUk (employeeId, locationId, leaveType) with
  | none =>
      rw [hrow] at h
      obtain ⟨-, rfl⟩ := Script.returns_done.mp h
      exact Or.inl rfl
  | some b =>
      obtain ⟨hb, hkey⟩ := Table.byUk_eq_some.mp hrow
      rw [hrow] at h
      obtain ⟨now, w₂, hnow, h⟩ := Script.returns_bind.mp h
      obtain ⟨rfl, rfl⟩ := Tx.now_returns.mp hnow
      obtain ⟨saved, w₃, hsave, h⟩ := Script.returns_bind.mp h
      obtain ⟨-, rfl⟩ := Script.returns_done.mp h
      obtain ⟨hacc, hmoved⟩ := saveBalance_returns hsave hb rfl
      refine Or.inr ⟨⟨b, saved, hkey, hmoved.balances, ?_⟩, hmoved.requests, hmoved.records⟩
      rw [hcmUpdated_account] at hacc
      split at hacc
      · rename_i hdrift
        exact Or.inr ⟨by linarith, hacc⟩
      · exact Or.inl hacc

end

/-! ## They keep the invariant -/

section
variable {key : BalanceKey} {total : ℚ} {db db' : Database}

theorem Opened.ledgerInv (ho : Opened key total db db') (h : LedgerInv db) : LedgerInv db' := by
  obtain ⟨b, hadded, hacc⟩ := ho.row
  have ht : b.totalBalance = total := congrArg Account.total hacc
  exact h.of_opened hadded ho.requests (by rw [hacc, ht])

theorem Opened.nonNegative (ho : Opened key total db db')
    (htotal : ∀ b, db.balances.Added db'.balances b → 0 ≤ b.totalBalance)
    (h : NonNegative db) : NonNegative db' := by
  obtain ⟨b, hadded, hacc⟩ := ho.row
  intro c hc
  rcases hadded.mem_iff.mp hc with hmem | rfl
  · exact h c hmem
  · have hav : c.availableBalance = total - 0 - 0 := congrArg Account.available hacc
    have htot : c.totalBalance = total := congrArg Account.total hacc
    have hnonneg := htotal c hadded
    linarith

theorem Raised.ledgerInv (hr : Raised key total db db') (h : LedgerInv db) : LedgerInv db' := by
  obtain ⟨b, b', -, hrep, hacc⟩ := hr.row
  refine h.of_raised hrep hr.requests ?_
  rcases hacc with hsame | ⟨-, hraise⟩
  · exact Or.inl hsame
  · exact Or.inr ⟨total, hraise⟩

theorem Raised.nonNegative (hr : Raised key total db db') (h : NonNegative db) :
    NonNegative db' := by
  obtain ⟨b, b', -, hrep, hacc⟩ := hr.row
  refine h.of_replaced hrep ?_
  have hold := h b hrep.mem
  rcases hacc with hsame | ⟨hlt, hraise⟩
  · have hav : b'.availableBalance = b.availableBalance := congrArg Account.available hsame
    linarith
  · have hav : b'.availableBalance
        = b.availableBalance + (total - (b.usedBalance + b.pendingBalance + b.availableBalance)) :=
      congrArg Account.available hraise
    unfold EmployeeBalance.localTotal at hlt
    linarith

end

/-! ## The machine -/

/-- The operations on balances alone. -/
inductive BalanceOp where
  | upsertBalance (employeeId locationId : String) (leaveType : LeaveType) (totalBalance : ℚ)
  | applyHcmRealTimeUpdate (employeeId locationId : String) (leaveType : LeaveType)
      (hcmData : HcmData)
  | reconcileRecord (hcmRecord : HcmRecord)

/-- One operation, run to its end with the given fates of its transactions. -/
def balanceStep (env : Env) (w : World) : BalanceOp × List Fate → Option World
  | (.upsertBalance e l t total, fates) =>
      ((upsertBalance env e l t total).alone fates w).map Prod.snd
  | (.applyHcmRealTimeUpdate e l t data, fates) =>
      (execTransaction (fates.headD {}).attempt (applyHcmRealTimeUpdate e l t data) w).map Prod.snd
  | (.reconcileRecord r, fates) => ((reconcileRecord r).alone fates w).map Prod.snd

/-- The row an operation is about and the total it brings. -/
def BalanceOp.target : BalanceOp → BalanceKey × ℚ
  | .upsertBalance e l t total => ((e, l, t), total)
  | .applyHcmRealTimeUpdate e l t data => ((e, l, t), data.totalBalance)
  | .reconcileRecord r => (r.key, r.totalBalance)

/-- The operations of the ledger. -/
inductive LedgerOp where
  | lifecycle (op : LifecycleOp)
  | balance (op : BalanceOp)

def ledgerStep (env : Env) (w : World) : LedgerOp × List Fate → Option World
  | (.lifecycle op, fates) => lifecycleStep env w (op, fates)
  | (.balance op, fates) => balanceStep env w (op, fates)

/-- Seed the row of the sample payload. -/
def seed (total : ℚ) : LedgerOp × List Fate :=
  (.balance (.upsertBalance sampleDto.employeeId sampleDto.locationId sampleDto.leaveType total),
    [])

/-- A row that an operation opens in `w`, when it opens one, has a total that is not
negative. -/
def OpensNonNegative (env : Env) (w : World) (l : LedgerOp × List Fate) : Prop :=
  ∀ w', ledgerStep env w l = some w' →
    ∀ b, w.db.balances.Added w'.db.balances b → 0 ≤ b.totalBalance

variable {env : Env}

/-- **The balance rule**: an operation on balances opens a row, keeps or raises
the account of one, or does nothing. -/
theorem balanceStep_cases {w w' : World} {l : BalanceOp × List Fate}
    (hstep : balanceStep env w l = some w') :
    w'.db = w.db ∨ Opened l.1.target.1 l.1.target.2 w.db w'.db
      ∨ Raised l.1.target.1 l.1.target.2 w.db w'.db := by
  obtain ⟨op, fates⟩ := l
  cases op with
  | upsertBalance e l t total =>
      obtain ⟨⟨res, w₁⟩, hrun, rfl⟩ := Option.map_eq_some_iff.mp hstep
      rcases upsertBalance_alone hrun with hdb | hopened
      · exact Or.inl hdb
      · exact Or.inr (Or.inl hopened)
  | applyHcmRealTimeUpdate e l t data =>
      obtain ⟨⟨res, w₁⟩, hrun, rfl⟩ := Option.map_eq_some_iff.mp hstep
      rcases (execTransaction_cases hrun).2 with ⟨x, -, -, hret⟩ | ⟨_, -, hdb⟩
      · rcases applyHcmRealTimeUpdate_returns hret with hdb | hraised
        · exact Or.inl hdb
        · exact Or.inr (Or.inr hraised)
      · exact Or.inl hdb
  | reconcileRecord r =>
      obtain ⟨⟨res, w₁⟩, hrun, rfl⟩ := Option.map_eq_some_iff.mp hstep
      exact reconcileRecord_alone hrun

theorem balanceStep_inv {w w' : World} {l : BalanceOp × List Fate}
    (hstep : balanceStep env w l = some w') (h : LedgerInv w.db) : LedgerInv w'.db := by
  rcases balanceStep_cases hstep with hdb | hopened | hraised
  · exact hdb ▸ h
  · exact hopened.ledgerInv h
  · exact hraised.ledgerInv h

/-- **One operation** keeps the ledger invariant. -/
theorem ledgerStep_inv {w w' : World} {l : LedgerOp × List Fate} (h : LedgerInv w.db)
    (hstep : ledgerStep env w l = some w') : LedgerInv w'.db := by
  obtain ⟨op, fates⟩ := l
  cases op with
  | lifecycle op => exact lifecycleStep_inv hstep h
  | balance op => exact balanceStep_inv hstep h

/-- **One operation** overdraws no row, when a row it opens has a total that is
not negative. -/
theorem ledgerStep_nonNegative {w w' : World} {l : LedgerOp × List Fate}
    (h : LedgerInv w.db ∧ NonNegative w.db) (hl : OpensNonNegative env w l)
    (hstep : ledgerStep env w l = some w') : LedgerInv w'.db ∧ NonNegative w'.db := by
  refine ⟨ledgerStep_inv h.1 hstep, ?_⟩
  obtain ⟨op, fates⟩ := l
  cases op with
  | lifecycle op =>
      refine (lifecycleStep_keeps (J := fun db => LedgerInv db ∧ NonNegative db)
        (fun hd hc hI => ⟨hc.ledgerInv (daysOf_pos hd) hI.1, hc.nonNegative hI.2⟩)
        (fun hs hI => ⟨hs.ledgerInv hI.1, hs.nonNegative ?_ hI.2⟩) hstep h).2
      exact hI.1.positive _ hs.requests.mem
  | balance op =>
      rcases balanceStep_cases hstep with hdb | hopened | hraised
      · exact hdb ▸ h.2
      · exact hopened.nonNegative (hl w' hstep) h.2
      · exact hraised.nonNegative h.2

/-! ## A pending request can be settled -/

section
variable {w : World} {r : TimeOffRequest} {b : EmployeeBalance}

/-- The row is there and holds enough pending days, so the move returns. -/
theorem movePending_of_row {missing underflow wanted employeeId locationId : String}
    {leaveType : LeaveType} {move : EmployeeBalance → ℚ → EmployeeBalance} {d : ℚ}
    (hid : ∀ b d, (move b d).id = b.id) (hb : b ∈ w.db.balances.rows)
    (hkey : b.key = (employeeId, locationId, leaveType)) (henough : d ≤ b.pendingBalance) :
    ∃ b' w', (movePending missing underflow wanted move employeeId locationId leaveType d).Returns
      execTx w b' w' := by
  have hrow : w.db.balances.byUk (employeeId, locationId, leaveType) = some b :=
    Table.byUk_eq_some.mpr ⟨hb, hkey⟩
  have hsave : w.db.balances.byPk (move b d).id = some b :=
    Table.byPk_eq_some.mpr ⟨hb, (hid b d).symm⟩
  refine ⟨(move b d).saveOver w.clock b, { w with
    db := w.db.saveBalance (move b d) w.clock, uuid := w.uuid + 1 + 1 }, ?_⟩
  refine Script.returns_bind.mpr ⟨some b, { w with uuid := w.uuid + 1 },
    Tx.stmt_returns.mpr ⟨w.db, ?_, rfl⟩, ?_⟩
  · simp only [Stmt.exec, hrow]
  · simp only [not_lt.mpr henough, if_false]
    refine Tx.stmt_returns.mpr ⟨w.db.saveBalance (move b d) w.clock, ?_, rfl⟩
    simp only [Stmt.exec, World.stamp, hsave]

theorem moveDays_of_row (s : Settlement) {employeeId locationId : String}
    {leaveType : LeaveType} {d : ℚ} (hb : b ∈ w.db.balances.rows)
    (hkey : b.key = (employeeId, locationId, leaveType)) (henough : d ≤ b.pendingBalance) :
    ∃ b' w', (s.moveDays employeeId locationId leaveType d).Returns execTx w b' w' := by
  cases s with
  | approve a => exact movePending_of_row (fun _ _ => rfl) hb hkey henough
  | reject a reason => exact movePending_of_row (fun _ _ => rfl) hb hkey henough
  | cancel reason => exact movePending_of_row (fun _ _ => rfl) hb hkey henough

theorem saveRequest_of_row {e : TimeOffRequest} (hr : r ∈ w.db.requests.rows)
    (hid : e.id = r.id) :
    (Tx.stmt (.saveRequest e)).Returns execTx w (e.saveOver w.clock r)
      { w with db := w.db.saveRequest e w.clock, uuid := w.uuid + 1 } := by
  have hrow : w.db.requests.byPk e.id = some r := Table.byPk_eq_some.mpr ⟨hr, hid.symm⟩
  refine Tx.stmt_returns.mpr ⟨w.db.saveRequest e w.clock, ?_, rfl⟩
  simp only [Stmt.exec, World.stamp, hrow]

theorem getRequest_of_row (hr : r ∈ w.db.requests.rows) :
    (getRequestLockedOrThrow r.id).Returns execTx w r { w with uuid := w.uuid + 1 } := by
  have hfind : w.db.requests.byPk r.id = some r := Table.byPk_eq_some.mpr ⟨hr, rfl⟩
  refine Script.returns_bind.mpr ⟨some r, _, Tx.stmt_returns.mpr ⟨w.db, ?_, rfl⟩,
    Script.returns_done.mpr ⟨rfl, rfl⟩⟩
  simp only [Stmt.exec, hfind]

theorem assertValidTransition_of_pending (s : Settlement) (hpending : r.status = .pending) :
    (assertValidTransition r.status s.target).Returns execTx w () w := by
  have hallowed : s.target ∈ validTransitions r.status := by
    rw [hpending]; cases s <;> simp [validTransitions, Settlement.target]
  unfold assertValidTransition
  rw [if_pos hallowed]
  exact Script.returns_done.mpr ⟨rfl, rfl⟩

/-- The rows a settlement needs are there, so its transaction returns. -/
theorem transaction_of_rows {s : Settlement} (hr : r ∈ w.db.requests.rows)
    (hpending : r.status = .pending) (hb : b ∈ w.db.balances.rows)
    (hkey : b.key = r.balanceKey) (henough : r.daysRequested ≤ b.pendingBalance) :
    ∃ r' w', (s.transaction r.id).Returns execTx w r' w' := by
  rw [Settlement.transaction_eq]
  have hsave := saveRequest_of_row (w := { w with uuid := w.uuid + 1 }) (e := s.mark w.clock r)
    hr (s.mark_id w.clock r)
  set saved := (s.mark w.clock r).saveOver w.clock r with hsaved
  have hdays : saved.daysRequested = r.daysRequested := s.mark_days w.clock r
  have hbkey : saved.balanceKey = r.balanceKey := s.mark_balanceKey w.clock r
  obtain ⟨b', w₂, hmoved⟩ := moveDays_of_row s
    (w := { w with db := w.db.saveRequest (s.mark w.clock r) w.clock, uuid := w.uuid + 1 + 1 })
    hb (hkey.trans hbkey.symm) (hdays.le.trans henough)
  obtain ⟨w₃, hafter⟩ : ∃ w₃, (s.schedule r.id saved).Returns execTx w₂ () w₃ := by
    cases s with
    | approve a => exact ⟨_, Tx.setImmediate_returns.mpr rfl⟩
    | reject a reason => exact ⟨_, Script.returns_done.mpr ⟨rfl, rfl⟩⟩
    | cancel reason => exact ⟨_, Script.returns_done.mpr ⟨rfl, rfl⟩⟩
  refine ⟨saved, w₃, Script.returns_bind.mpr ⟨r, _, getRequest_of_row hr, ?_⟩⟩
  refine Script.returns_bind.mpr ⟨(), _, assertValidTransition_of_pending s hpending, ?_⟩
  refine Script.returns_bind.mpr ⟨w.clock, _, Tx.now_returns.mpr ⟨rfl, rfl⟩, ?_⟩
  refine Script.returns_bind.mpr ⟨saved, _, hsave, ?_⟩
  refine Script.returns_bind.mpr ⟨b', w₂, hmoved, ?_⟩
  exact Script.returns_bind.mpr ⟨(), w₃, hafter, Script.returns_done.mpr ⟨rfl, rfl⟩⟩

end

/-- Under the ledger invariant a settlement of a pending request goes through,
or fails with the contention error that its transaction met. -/
theorem settle_pending {s : Settlement} {w : World} {r : TimeOffRequest} (h : LedgerInv w.db)
    (hr : r ∈ w.db.requests.rows) (hpending : r.status = .pending) (fates : List Fate) :
    ∃ res w', (s.request r.id).alone fates w = some (res, w')
      ∧ ((∃ body, res = .ok body) ∨ ∃ x : Transient, res = .error x.exception) := by
  obtain ⟨b, hb, hkey⟩ := h.hasRow r hr
  have henough : r.daysRequested ≤ b.pendingBalance := by
    have hle := le_daysIn h.positive hr
    rw [hpending, ← hkey] at hle
    exact hle.trans (congrArg Account.pending (h.account b hb)).ge
  obtain ⟨r', w', hret⟩ := transaction_of_rows (s := s) hr hpending hb hkey henough
  rw [Settlement.request_eq, Svc.alone_transaction]
  cases (fates.headD {}).attempt with
  | failsAtBegin x => exact ⟨_, _, rfl, Or.inr ⟨x, rfl⟩⟩
  | works =>
      refine ⟨.ok (serializeRequest r'), w', ?_, Or.inl ⟨_, rfl⟩⟩
      simp only [execTransaction, show (s.transaction r.id).run execTx w = _ from hret]
      rfl
  | failsAtCommit x =>
      refine ⟨.error x.exception, { w' with db := w.db }, ?_, Or.inr ⟨x, rfl⟩⟩
      simp only [execTransaction, show (s.transaction r.id).run execTx w = _ from hret]
      rfl

/-! ## The machine is never stuck -/

/-- Statements and readings of the clock. -/
def SvcOp.isPlain : SvcOp → Bool
  | .stmt _ | .now => true
  | .setImmediate _ | .transaction _ | .enqueueCreateLock _ | .awaitCreateLock _ _
  | .releaseCreateLock _ _ | .sleep _ | .http _ => false

theorem SvcOp.no_lane_of_plain {o : SvcOp} (h : o.isPlain = true) : o.isLane = false := by
  cases o <;> simp_all [isPlain, isLane]

theorem upsertBalance_asks {env : Env} {employeeId locationId : String} {leaveType : LeaveType}
    {total : ℚ} :
    (upsertBalance env employeeId locationId leaveType total).Asks
      fun o : SvcOp => o.isPlain = true := by
  refine Script.asks_bind (asks_stmt rfl) fun existing => ?_
  cases existing with
  | some b => exact Script.asks_bind (asks_now rfl) fun _ => trivial
  | none =>
      refine Script.asks_bind (asks_now rfl) fun now => ?_
      refine Script.asks_bind (asks_stmt rfl) fun saved => ?_
      exact Script.asks_bind (asks_now rfl) fun _ => trivial

theorem reconcileRecord_asks {hcmRecord : HcmRecord} :
    (reconcileRecord hcmRecord).Asks fun o : SvcOp => o.isPlain = true := by
  refine Script.asks_bind (asks_stmt rfl) fun localBalance => ?_
  cases localBalance with
  | some b =>
      refine Script.asks_bind (asks_now rfl) fun now => ?_
      exact Script.asks_bind (asks_stmt rfl) fun _ => trivial
  | none =>
      refine Script.asks_bind (asks_now rfl) fun now => ?_
      exact Script.asks_bind (asks_stmt rfl) fun _ => trivial

/-- Every operation comes to an end when the lanes are free, and frees them. -/
theorem ledgerStep_ends (env : Env) {w : World} (hfree : w.createLocks = [])
    (l : LedgerOp × List Fate) :
    ∃ w', ledgerStep env w l = some w' ∧ w'.createLocks = [] := by
  obtain ⟨op, fates⟩ := l
  cases op with
  | lifecycle op => exact lifecycleStep_ends env hfree (op, fates)
  | balance op =>
      cases op with
      | upsertBalance e l t total =>
          exact (endsFree_of_no_lane (upsertBalance_asks.mono fun _ => SvcOp.no_lane_of_plain)
            hfree).alone
      | applyHcmRealTimeUpdate e l t data =>
          obtain ⟨⟨res, w'⟩, hw⟩ := Option.isSome_iff_exists.mp (execTransaction_isSome
            (fates.headD {}).attempt (applyHcmRealTimeUpdate e l t data) w)
          refine ⟨w', ?_, (execTransaction_cases hw).1.createLocks.trans hfree⟩
          simp only [ledgerStep, balanceStep, hw]
          rfl
      | reconcileRecord r =>
          exact (endsFree_of_no_lane (reconcileRecord_asks.mono fun _ => SvcOp.no_lane_of_plain)
            hfree).alone

/-- Every sequence of operations is a run. -/
theorem ledger_runs (env : Env) {w : World} (hfree : w.createLocks = [])
    (ls : List (LedgerOp × List Fate)) :
    ∃ w', run (ledgerStep env) w ls = some w' := by
  induction ls generalizing w with
  | nil => exact ⟨w, rfl⟩
  | cons l ls ih =>
      obtain ⟨w₁, hstep, hfree₁⟩ := ledgerStep_ends env hfree l
      rw [run_cons, hstep]
      exact ih hfree₁

/-! ## The result -/

/-- **Ledger reconciliation.** Every sequence of operations from empty tables
is a run, and in the state it ends in the columns of each balance row are
the sums over the requests of its key and add up to its total; no row is
overdrawn when every row was opened with a total that is not negative; and
a settlement of a pending request goes through unless its transaction meets
contention, so it meets neither an underflow nor a missing balance. -/
theorem ledger_reconciles (env : Env) (clock : ℤ) (ls : List (LedgerOp × List Fate)) :
    ∃ w, run (ledgerStep env) (World.initial clock) ls = some w
      ∧ (∀ b ∈ w.db.balances.rows,
          b.pendingBalance = daysIn .pending b.key w.db.requests.rows
          ∧ b.usedBalance = daysIn .approved b.key w.db.requests.rows
          ∧ b.availableBalance + b.pendingBalance + b.usedBalance = b.totalBalance)
      ∧ (Meets (ledgerStep env) (OpensNonNegative env) (World.initial clock) ls →
          ∀ b ∈ w.db.balances.rows, 0 ≤ b.availableBalance)
      ∧ ∀ r ∈ w.db.requests.rows, r.status = .pending → ∀ (s : Settlement) (fates : List Fate),
          ∃ res w', (s.request r.id).alone fates w = some (res, w')
            ∧ ((∃ body, res = .ok body) ∨ ∃ x : Transient, res = .error x.exception) := by
  obtain ⟨w, hrun⟩ := ledger_runs env (w := World.initial clock) rfl ls
  have hinv : LedgerInv w.db :=
    run_induct (I := fun w => LedgerInv w.db) (fun w l w' => ledgerStep_inv) ledgerInv_empty hrun
  refine ⟨w, hrun, fun b hb => ?_, fun hmeets => ?_, fun r hr hpending s fates => ?_⟩
  · have hacc := hinv.account b hb
    have hbalanced : b.account.Balanced := by rw [hacc]; exact Account.balanced_of _ _ _
    exact ⟨congrArg Account.pending hacc, congrArg Account.used hacc, hbalanced⟩
  · exact (run_meets (I := fun w => LedgerInv w.db ∧ NonNegative w.db)
      (fun w l w' => ledgerStep_nonNegative) ⟨ledgerInv_empty, nonNegative_empty⟩ hmeets hrun).2
  · exact settle_pending hinv hr hpending fates

end LeaveLedger
