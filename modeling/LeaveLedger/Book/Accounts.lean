import LeaveLedger.Book.Settle

/-!
# Book — Accounts and reads

The calls on balances, alone: a row is opened, or its total is raised when
HCM has more than the tolerance above it, and in a sound world what the row
holds locally is its total. The reads answer from the book.
-/

namespace LeaveLedger

open Js Lib

variable {env : Env} {w v : World} {b b' : EmployeeBalance} {total : ℚ}

/-! ## Rows that are opened and raised -/

/-- Only the balances changed. -/
theorem Sound.of_balances (hw : Sound w) (hledger : LedgerInv v.db)
    (hids : ∀ b ∈ v.db.balances.rows, b.id < v.uuid) (huuid : w.uuid ≤ v.uuid)
    (hreq : v.db.requests = w.db.requests) (hrec : v.db.records = w.db.records) : Sound v where
  ledger := hledger
  recordKeys rec hmem := by
    rw [hreq]
    exact hw.recordKeys rec (hrec ▸ hmem)
  ids := ⟨hids, fun r hr => (hw.ids.requests r (hreq ▸ hr)).trans_le huuid,
    fun rec hmem => (hw.ids.records rec (hrec ▸ hmem)).trans_le huuid⟩

theorem book_of_balances {totals : BalanceKey → Option ℚ}
    (htotals : ∀ key, (v.db.balances.byUk key).map EmployeeBalance.totalBalance = totals key)
    (hreq : v.db.requests = w.db.requests) (hrec : v.db.records = w.db.records)
    (hclock : v.clock = w.clock) : v.book = { w.book with totals := totals } := by
  refine book_ext htotals ?_ (fun k => ?_) hclock
  · show v.db.requests.rows.map _ = w.db.requests.rows.map _
    rw [hreq]
  · show (v.db.records.byUk k).map _ = (w.db.records.byUk k).map _
    rw [hrec]

/-- A row was added with an id that was new. -/
theorem sound_opened (hw : Sound w) (hadded : w.db.balances.Added v.db.balances b)
    (hacc : b.account = Account.of total 0 0) (hid : b.id < v.uuid) (huuid : w.uuid ≤ v.uuid)
    (hreq : v.db.requests = w.db.requests) (hrec : v.db.records = w.db.records)
    (hclock : v.clock = w.clock) :
    Sound v ∧ v.book = w.book.entitle b.key total := by
  have htotal : b.totalBalance = total := congrArg Account.total hacc
  have hledger := hw.ledger.of_opened hadded hreq (by rw [hacc, htotal])
  have hids : ∀ x ∈ v.db.balances.rows, x.id < v.uuid :=
    hadded.forall_mem (fun x hx => (hw.ids.balances x hx).trans_le huuid) hid
  refine ⟨hw.of_balances hledger hids huuid hreq hrec,
    book_of_balances (fun key => ?_) hreq hrec hclock⟩
  by_cases hkey : key = b.key
  · rw [hkey, hadded.byUk_self, Function.update_self, Option.map_some, htotal]
  · rw [hadded.byUk_of_ne hkey, Function.update_of_ne hkey]
    rfl

/-- A row kept its account, or had it raised to a total above the tolerance. -/
theorem sound_raised {tolerance : ℚ} (hw : Sound w)
    (hrep : w.db.balances.Replaced v.db.balances b b')
    (hacc : b'.account = if tolerance < total - b.localTotal then b.account.raiseTo total
      else b.account)
    (huuid : w.uuid ≤ v.uuid) (hreq : v.db.requests = w.db.requests)
    (hrec : v.db.records = w.db.records) (hclock : v.clock = w.clock) :
    Sound v ∧ v.book = w.book.raise b.key tolerance total := by
  have htotals : w.book.totals b.key = some b.totalBalance := by
    rw [book_totals, Table.byUk_eq_some.mpr ⟨hrep.mem, rfl⟩, Option.map_some]
  rw [hw.ledger.localTotal hrep.mem] at hacc
  have hids : ∀ x ∈ v.db.balances.rows, x.id < v.uuid :=
    hrep.forall_pk (P := (· < v.uuid)) fun x hx => (hw.ids.balances x hx).trans_le huuid
  unfold LeaveBook.raise
  rw [htotals]
  by_cases hlt : tolerance < total - b.totalBalance
  · rw [if_pos hlt] at hacc
    simp only [if_pos hlt]
    have htotal : b'.totalBalance = total := congrArg Account.total hacc
    have hledger := hw.ledger.of_raised hrep hreq (.inr ⟨total, hacc⟩)
    refine ⟨hw.of_balances hledger hids huuid hreq hrec,
      book_of_balances (fun key => ?_) hreq hrec hclock⟩
    by_cases hkey : key = b.key
    · rw [hkey, hrep.byUk_self, Function.update_self, Option.map_some, htotal]
    · rw [hrep.byUk_of_ne hkey, Function.update_of_ne hkey]
      rfl
  · rw [if_neg hlt] at hacc
    simp only [if_neg hlt]
    have htotal : b'.totalBalance = b.totalBalance := congrArg Account.total hacc
    have hledger := hw.ledger.of_raised hrep hreq (.inl hacc)
    exact ⟨hw.of_balances hledger hids huuid hreq hrec,
      book_of_balances (hrep.byUk_map htotal) hreq hrec hclock⟩

/-! ## The calls -/

/-- A row is inserted for a key that has none. -/
theorem insertBalance_exec (hw : Sound w) {n : NewBalance}
    (hnone : w.db.balances.byUk n.key = none) :
    ∃ db, (Stmt.insertBalance n).exec w.stamp w.db = .ok (n.toRow w.uuid w.clock, db)
      ∧ w.db.balances.Added db.balances (n.toRow w.uuid w.clock)
      ∧ db.requests = w.db.requests ∧ db.records = w.db.records := by
  have hroom : (w.db.balances.insert? (n.toRow w.uuid w.clock)).isSome :=
    Table.insert?_isSome_iff.mpr
      ⟨fun b hb => (hw.ids.balances b hb).ne, fun b hb => Table.byUk_eq_none.mp hnone b hb⟩
  obtain ⟨t, ht⟩ := Option.isSome_iff_exists.mp hroom
  have hexec : (Stmt.insertBalance n).exec w.stamp w.db
      = .ok (n.toRow w.uuid w.clock, { w.db with balances := t }) := by
    simp only [Stmt.exec, World.stamp, Database.insertBalance, ht]
    rfl
  exact ⟨_, hexec, Table.added_of_insert? ht, rfl, rfl⟩

/-- A row is opened with all its days available, after one read. -/
theorem insertBalance_opens (hw : Sound w) {n : NewBalance}
    (hnone : w.db.balances.byUk n.key = none) (havailable : n.availableBalance = n.totalBalance)
    (hpending : n.pendingBalance = 0) (hused : n.usedBalance = 0) :
    ∃ db, (Stmt.insertBalance n).exec { w with uuid := w.uuid + 1 }.stamp w.db
        = .ok (n.toRow (w.uuid + 1) w.clock, db)
      ∧ (n.toRow (w.uuid + 1) w.clock).account = Account.of n.totalBalance 0 0
      ∧ Sound { w with db := db, uuid := w.uuid + 1 + 1 }
      ∧ World.book { w with db := db, uuid := w.uuid + 1 + 1 }
        = w.book.entitle n.key n.totalBalance := by
  obtain ⟨db, hexec, hadded, hreq, hrec⟩ :=
    insertBalance_exec ((Unchanged.read w).sound hw) (n := n) hnone
  have hacc : (n.toRow (w.uuid + 1) w.clock).account = Account.of n.totalBalance 0 0 := by
    refine Account.ext rfl ?_ hpending hused
    show n.availableBalance = n.totalBalance - 0 - 0
    rw [havailable]
    ring
  exact ⟨db, hexec, hacc, sound_opened (v := { w with db := db, uuid := w.uuid + 1 + 1 }) hw hadded
    hacc (Nat.lt_succ_self _) (Nat.le_add_right _ 2) hreq hrec rfl⟩

/-- The reads of the three calls. -/
theorem run_findBalance {α : Type} {e l : String} {t : LeaveType}
    {f : Option EmployeeBalance → Svc α} (w : World) (fates : List Fate) :
    ((Svc.stmt (.findBalance e l t)).bind f).run execAlone (w, fates)
      = (f (w.db.balances.byUk (e, l, t))).run execAlone
          ({ w with uuid := w.uuid + 1 }, fates) := by
  rw [run_alone_stmt]
  rfl

theorem run_alone_now {α : Type} (f : ℤ → Svc α) (w : World) (fates : List Fate) :
    (Svc.now.bind f).run execAlone (w, fates) = (f w.clock).run execAlone (w, fates) := rfl

theorem upsertBalance_answered (hw : Sound w) (e l : String) (t : LeaveType) (total : ℚ)
    (fates : List Fate) :
    ∃ res w', (upsertBalance env e l t total).alone fates w = some (res, w')
      ∧ w'.createLocks = w.createLocks ∧ Sound w'
      ∧ w.book.Answers env (.upsertBalance e l t total, fates)
        (replyOf (fun b => .account b.account) res) w'.book := by
  have hread := Unchanged.read w
  unfold upsertBalance Svc.alone
  rw [Script.bind_eq, run_findBalance]
  cases hrow : w.db.balances.byUk (e, l, t) with
  | some b =>
      refine ⟨_, _, rfl, rfl, hread.sound hw, ?_⟩
      rw [hread.book]
      refine .known ?_
      rw [book_accountOf hw, hrow]
      rfl
  | none =>
      obtain ⟨db, hexec, hacc, hsound, hbook⟩ := insertBalance_opens hw
        (n := {
          employeeId := e, locationId := l, leaveType := t
          totalBalance := total, availableBalance := total
          pendingBalance := 0, usedBalance := 0
          hcmTotalBalance := total, hcmLastSync := some w.clock, hcmVersion := none })
        hrow rfl rfl rfl
      simp only [Script.bind_eq]
      rw [run_alone_now, run_alone_stmt, hexec]
      refine ⟨_, _, rfl, rfl, hsound, ?_⟩
      rw [hbook]
      have hans : LeaveBook.Answers env w.book (.upsertBalance e l t total, fates) _ _ :=
        .opened (show w.book.totals (e, l, t) = none by rw [book_totals, hrow]; rfl)
      rw [← hacc] at hans
      exact hans

/-- A record of a row that is there. -/
theorem reconcileLocal_answered (hw : Sound w) (r : HcmRecord) (fates : List Fate)
    (hrow : w.db.balances.byUk r.key = some b) :
    ∃ res w', (reconcileLocal r (some b)).run execAlone ({ w with uuid := w.uuid + 1 }, fates)
        = some (res, w', fates)
      ∧ w'.createLocks = w.createLocks ∧ Sound w'
      ∧ w.book.Answers env (.reconcileRecord r, fates) (replyOf .reconciled res) w'.book := by
  obtain ⟨hb, hkey⟩ := Table.byUk_eq_some.mp hrow
  have htotals : w.book.totals r.key = some b.totalBalance := by
    rw [book_totals, hrow, Option.map_some]
  have hrep : w.db.balances.Replaced
      (w.db.updateBalance b.id (reconcilePatch r b w.clock) w.clock).balances b
      ((reconcilePatch r b w.clock).apply w.clock b) := by
    simp only [Database.updateBalance]
    exact Table.replaced_modify (f := (reconcilePatch r b w.clock).apply w.clock) hb
  have hrun : (reconcileLocal r (some b)).run execAlone ({ w with uuid := w.uuid + 1 }, fates)
      = some (.ok (decide (0.01 < |r.totalBalance - b.localTotal|)),
        { w with
          db := w.db.updateBalance b.id (reconcilePatch r b w.clock) w.clock
          uuid := w.uuid + 1 + 1 }, fates) := by
    show Script.run execAlone
      ((Svc.stmt (.updateBalance b.id (reconcilePatch r b w.clock))).bind fun _ =>
        pure (decide (0.01 < |r.totalBalance - b.localTotal|))) _ = _
    rw [run_alone_stmt]
    rfl
  obtain ⟨hsound, hbook⟩ := sound_raised (w := w) (v := { w with
      db := w.db.updateBalance b.id (reconcilePatch r b w.clock) w.clock
      uuid := w.uuid + 1 + 1 }) hw hrep (reconcilePatch_account r b w.clock w.clock)
    (Nat.le_add_right _ 2) rfl rfl rfl
  refine ⟨_, _, hrun, rfl, hsound, ?_⟩
  rw [hbook, hkey]
  have hans : LeaveBook.Answers env w.book (.reconcileRecord r, fates) _ _ := .reconciled htotals
  rw [← hw.ledger.localTotal hb] at hans
  exact hans

theorem reconcileRecord_answered (hw : Sound w) (r : HcmRecord) (fates : List Fate) :
    ∃ res w', (reconcileRecord r).alone fates w = some (res, w')
      ∧ w'.createLocks = w.createLocks ∧ Sound w'
      ∧ w.book.Answers env (.reconcileRecord r, fates) (replyOf .reconciled res) w'.book := by
  unfold reconcileRecord Svc.alone
  rw [Script.bind_eq, run_findBalance]
  cases hrow : w.db.balances.byUk (r.employeeId, r.locationId, r.leaveType) with
  | some b =>
      obtain ⟨res, w', hrun, hrest⟩ := reconcileLocal_answered hw r fates hrow
      rw [hrun]
      exact ⟨res, w', rfl, hrest⟩
  | none =>
      obtain ⟨db, hexec, -, hsound, hbook⟩ := insertBalance_opens hw
        (n := {
          employeeId := r.employeeId, locationId := r.locationId, leaveType := r.leaveType
          totalBalance := r.totalBalance, availableBalance := r.totalBalance
          pendingBalance := 0, usedBalance := 0
          hcmTotalBalance := r.totalBalance, hcmLastSync := some w.clock
          hcmVersion := orNull r.version }) hrow rfl rfl rfl
      unfold reconcileLocal insertReconciled
      simp only [Script.bind_eq]
      rw [run_alone_now, run_alone_stmt, hexec]
      refine ⟨_, _, rfl, rfl, hsound, ?_⟩
      rw [hbook]
      refine .inserted ?_
      show (w.db.balances.byUk (r.employeeId, r.locationId, r.leaveType)).map _ = none
      rw [hrow]
      rfl

/-! ## The real-time update -/

/-- The update of a row commits with what the book makes of the total. -/
theorem applyHcmRealTimeUpdate_books (hw : Sound w) (e l : String) (t : LeaveType)
    (hcmData : HcmData) :
    ∃ x w', (applyHcmRealTimeUpdate e l t hcmData).Returns execTx w x w' ∧ Sound w'
      ∧ w'.book = w.book.raise (e, l, t) 0.001 hcmData.totalBalance
      ∧ x.map EmployeeBalance.account = w'.book.accountOf (e, l, t) := by
  have hread : (Tx.stmt (.findBalance e l t)).Returns execTx w (w.db.balances.byUk (e, l, t))
      { w with uuid := w.uuid + 1 } := returns_read rfl
  cases hrow : w.db.balances.byUk (e, l, t) with
  | none =>
      rw [hrow] at hread
      have hsound := (Unchanged.read w).sound hw
      refine ⟨none, _, hread.bind (Script.returns_done.mpr ⟨rfl, rfl⟩), hsound, ?_, ?_⟩
      · rw [(Unchanged.read w).book]
        unfold LeaveBook.raise
        rw [book_totals, hrow]
        rfl
      · rw [book_accountOf hsound]
        exact (congrArg (Option.map EmployeeBalance.account) hrow).symm
  | some b =>
      rw [hrow] at hread
      obtain ⟨hb, hkey⟩ := Table.byUk_eq_some.mp hrow
      have hrep : w.db.balances.Replaced
          (w.db.saveBalance (hcmUpdated hcmData w.clock b) w.clock).balances b
          ((hcmUpdated hcmData w.clock b).saveOver w.clock b) := by
        simp only [Database.saveBalance]
        exact Table.replaced_modify (f := (hcmUpdated hcmData w.clock b).saveOver w.clock) hb
      have hsave : (Tx.stmt (.saveBalance (hcmUpdated hcmData w.clock b))).Returns execTx
          { w with uuid := w.uuid + 1 } ((hcmUpdated hcmData w.clock b).saveOver w.clock b)
          { w with
            db := w.db.saveBalance (hcmUpdated hcmData w.clock b) w.clock
            uuid := w.uuid + 1 + 1 } := by
        rw [Tx.stmt_returns]
        refine ⟨_, ?_, rfl⟩
        rw [Stmt.exec, show w.db.balances.byPk (hcmUpdated hcmData w.clock b).id = some b from
          Table.byPk_eq_some.mpr ⟨hb, rfl⟩]
        rfl
      obtain ⟨hsound, hbook⟩ := sound_raised (w := w) (v := { w with
          db := w.db.saveBalance (hcmUpdated hcmData w.clock b) w.clock
          uuid := w.uuid + 1 + 1 }) hw hrep (hcmUpdated_account hcmData w.clock b)
        (Nat.le_add_right _ 2) rfl rfl rfl
      refine ⟨some ((hcmUpdated hcmData w.clock b).saveOver w.clock b), _, ?_, hsound,
        hkey ▸ hbook, ?_⟩
      · refine hread.bind (Script.returns_bind.mpr ⟨_, _, Tx.now_returns.mpr ⟨rfl, rfl⟩, ?_⟩)
        exact hsave.bind (Script.returns_done.mpr ⟨rfl, rfl⟩)
      · rw [book_accountOf hsound, ← hkey]
        exact congrArg (Option.map EmployeeBalance.account) hrep.byUk_self.symm

/-- There is no account after an update only if there was none. -/
theorem raise_unknown {book : LeaveBook} {key : BalanceKey} {tolerance : ℚ}
    (h : (book.raise key tolerance total).accountOf key = none) :
    book.totals key = none ∧ book.raise key tolerance total = book := by
  have hnone : (book.raise key tolerance total).totals key = none := Option.map_eq_none_iff.mp h
  unfold LeaveBook.raise at hnone ⊢
  cases hold : book.totals key with
  | none => exact ⟨rfl, rfl⟩
  | some old =>
      rw [hold] at hnone
      by_cases hlt : tolerance < total - old
      · simp [hlt, LeaveBook.entitle] at hnone
      · simp [hlt, hold] at hnone

theorem applyHcmRealTimeUpdate_answered (hw : Sound w) (e l : String) (t : LeaveType)
    (hcmData : HcmData) (fates : List Fate) :
    ∃ res w', execTransaction (fates.headD {}).attempt (applyHcmRealTimeUpdate e l t hcmData) w
        = some (res, w')
      ∧ w'.createLocks = w.createLocks ∧ Sound w'
      ∧ w.book.Answers env (.applyHcmRealTimeUpdate e l t hcmData, fates)
        (replyOf (fun found => (found.map EmployeeBalance.account).elim .nothing .account) res)
        w'.book := by
  obtain ⟨⟨res, w'⟩, hexec⟩ := Option.isSome_iff_exists.mp
    (execTransaction_isSome (fates.headD {}).attempt (applyHcmRealTimeUpdate e l t hcmData) w)
  refine ⟨res, w', hexec, (execTransaction_cases hexec).1.createLocks, ?_⟩
  obtain ⟨x, w₁, hrun, hsound, hbook, hfound⟩ := applyHcmRealTimeUpdate_books hw e l t hcmData
  rcases transaction_commits hrun hexec with ⟨rfl, rfl⟩ | ⟨hne, ⟨transient, rfl⟩, hsame⟩
  · refine ⟨hsound, ?_⟩
    show w.book.Answers env _ ((x.map EmployeeBalance.account).elim .nothing .account) _
    rw [hfound, hbook]
    cases hacc : (w.book.raise (e, l, t) 0.001 hcmData.totalBalance).accountOf (e, l, t) with
    | some a => exact .updated hacc
    | none =>
        obtain ⟨hunknown, hraise⟩ := raise_unknown hacc
        rw [hraise]
        exact .updateUnknown hunknown
  · refine ⟨hsame.sound hw, ?_⟩
    rw [hsame.book, replyOf_transient]
    exact .updateContended (contended_once hne)

/-! ## The reads -/

/-- What a key with a leave type in words finds. -/
theorem book_accountNamed (hw : Sound w) (e l t : String) :
    w.book.accountNamed e l t = (w.db.findBalanceOf e l t).map EmployeeBalance.account := by
  unfold LeaveBook.accountNamed
  cases hfind : LeaveType.alphabetical.find? fun x => x.text = t with
  | some x =>
      have htext : x.text = t := by simpa using List.find?_some hfind
      rw [Option.bind_some, book_accountOf hw, ← htext, findBalanceOf_text]
  | none =>
      cases hrow : w.db.findBalanceOf e l t with
      | none => rfl
      | some b =>
          have hown : b.employeeId = e ∧ b.locationId = l ∧ b.leaveType.text = t := by
            simpa using List.find?_some hrow
          have hno := List.find?_eq_none.mp hfind b.leaveType b.leaveType.mem_alphabetical
          simp [hown.2.2] at hno

theorem getBalance_answered (hw : Sound w) (e l t : String) (fates : List Fate) :
    w.book.Answers env (.getBalance e l t, fates)
      (replyOf (fun b => .account b.account) (getBalance env w.clock w.db e l t)) w.book := by
  have hnamed := book_accountNamed hw e l t
  unfold getBalance
  cases hrow : w.db.findBalanceOf e l t with
  | none =>
      rw [hrow] at hnamed
      exact .noBalance hnamed
  | some b =>
      rw [hrow] at hnamed
      exact .balance hnamed

theorem getBalancesForEmployee_answered (hw : Sound w) (e l : String) (fates : List Fate) :
    w.book.Answers env (.getBalancesForEmployee e l, fates)
      (.accounts ((getBalancesForEmployee env w.clock w.db e l).map fun b =>
        (b.leaveType, b.account))) w.book := by
  have hlist : ((getBalancesForEmployee env w.clock w.db e l).map fun b => (b.leaveType, b.account))
      = LeaveType.alphabetical.filterMap fun t =>
          (w.book.accountOf (e, l, t)).map fun a => (t, a) := by
    unfold getBalancesForEmployee
    rw [findBalancesOf_eq, List.map_map, List.map_filterMap]
    refine List.filterMap_congr fun t _ => ?_
    rw [book_accountOf hw]
    cases hrow : w.db.balances.byUk (e, l, t) with
    | none => rfl
    | some b =>
        have ht : b.leaveType = t := congrArg (fun k => k.2.2) (Table.byUk_eq_some.mp hrow).2
        rw [Option.map_some, Option.map_some, Option.map_some, ← ht]
        rfl
  rw [hlist]
  exact .balances

theorem getRequest_answered (w : World) (requestId : Id) (fates : List Fate) :
    w.book.Answers env (.getRequest requestId, fates)
      (replyOf (fun body => .booked body.booking) (getRequest w.db requestId)) w.book := by
  unfold getRequest
  cases hrow : w.db.requests.byPk requestId with
  | none =>
      refine .notFound fun x hx heq => ?_
      obtain ⟨y, hy, rfl⟩ := mem_bookings.mp hx
      exact Table.byPk_eq_none.mp hrow y hy heq
  | some r =>
      obtain ⟨hr, hid⟩ := Table.byPk_eq_some.mp hrow
      exact .found (mem_bookings.mpr ⟨r, hr, rfl⟩) hid

end LeaveLedger
