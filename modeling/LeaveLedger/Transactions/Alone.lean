import LeaveLedger.Transactions.PointSteps

/-!
# Transactions — Calls that run alone

When its rows are there, a settlement that nothing interrupts returns, and so
does a create. These are the calls of a serial order.
-/

namespace LeaveLedger

open Js Lib

variable {w : World}

/-- A statement that reads, in a transaction. -/
theorem returns_read {o : Stmt} {r : o.Res} (h : o.exec w.stamp w.db = .ok (r, w.db)) :
    (Tx.stmt o).Returns execTx w r { w with uuid := w.uuid + 1 } :=
  Tx.stmt_returns.mpr ⟨_, h, rfl⟩

theorem alone_of_returns {p : Svc SerializedRequest} {body : SerializedRequest} {w' : World}
    (h : p.Returns execAlone (w, []) body (w', [])) : p.alone [] w = some (.ok body, w') := by
  unfold Svc.alone
  rw [h]
  rfl

/-- A transaction of a call alone. -/
theorem returns_transaction {body : Tx TimeOffRequest} {r : TimeOffRequest} {w' : World}
    (h : body.Returns execTx w r w') :
    (Svc.transaction body).Returns execAlone (w, []) r (w', []) := by
  unfold Script.Returns at h
  show Option.bind (execAlone (.transaction body) (w, [])) _ = _
  simp only [execAlone, execSvc, execTransaction, List.headD_nil, h]
  rfl

/-! ## A settlement -/

theorem saveBalance_runs {e b : EmployeeBalance} (hb : b ∈ w.db.balances.rows) (hid : b.id = e.id) :
    ∃ b' w', (Tx.stmt (.saveBalance e)).Returns execTx w b' w' := by
  have hrow : w.db.balances.byPk e.id = some b := Table.byPk_eq_some.mpr ⟨hb, hid⟩
  obtain ⟨x, hx⟩ : ∃ x, (Stmt.saveBalance e).exec w.stamp w.db = .ok x := by
    simp only [Stmt.exec, hrow]
    exact ⟨_, rfl⟩
  exact ⟨x.1, _, Tx.stmt_returns.mpr ⟨x.2, hx, rfl⟩⟩

theorem saveRequest_runs {e r : TimeOffRequest} (hr : r ∈ w.db.requests.rows) (hid : r.id = e.id) :
    ∃ r' w', (Tx.stmt (.saveRequest e)).Returns execTx w r' w' := by
  have hrow : w.db.requests.byPk e.id = some r := Table.byPk_eq_some.mpr ⟨hr, hid⟩
  obtain ⟨x, hx⟩ : ∃ x, (Stmt.saveRequest e).exec w.stamp w.db = .ok x := by
    simp only [Stmt.exec, hrow]
    exact ⟨_, rfl⟩
  exact ⟨x.1, _, Tx.stmt_returns.mpr ⟨x.2, hx, rfl⟩⟩

theorem moveDays_runs {s : Settlement} {employeeId locationId : String} {leaveType : LeaveType}
    {b : EmployeeBalance} {d : ℚ} (hb : b ∈ w.db.balances.rows)
    (hkey : b.key = (employeeId, locationId, leaveType)) (henough : d ≤ b.pendingBalance) :
    ∃ b' w', (s.moveDays employeeId locationId leaveType d).Returns execTx w b' w' := by
  obtain ⟨f, hmove, hf⟩ := s.moveDays_eq employeeId locationId leaveType d
  have hrow : w.db.balances.byUk (employeeId, locationId, leaveType) = some b :=
    Table.byUk_eq_some.mpr ⟨hb, hkey⟩
  obtain ⟨b', w', hsave⟩ := saveBalance_runs (w := { w with uuid := w.uuid + 1 }) (b := b)
    (e := s.moved b d) hb (s.moved_id b d).symm
  refine ⟨b', w', ?_⟩
  rw [hmove]
  refine (returns_read (r := some b) ?_).bind ?_
  · simp only [Stmt.exec, hrow]
  · rw [hf b henough]
    exact hsave

/-- A pending request, whose days are pending, can be settled. -/
theorem settlement_runs {s : Settlement} {id : Id} {r : TimeOffRequest} {b : EmployeeBalance}
    (hr : r ∈ w.db.requests.rows) (hid : r.id = id) (hpending : r.status = .pending)
    (hb : b ∈ w.db.balances.rows) (hkey : b.key = r.balanceKey)
    (henough : r.daysRequested ≤ b.pendingBalance) :
    ∃ r' w', (s.transaction id).Returns execTx w r' w' := by
  have hfind : (getRequestLockedOrThrow id).Returns execTx w r { w with uuid := w.uuid + 1 } := by
    have hrow : w.db.requests.byPk id = some r := Table.byPk_eq_some.mpr ⟨hr, hid⟩
    refine (returns_read (r := some r) ?_).bind (Script.returns_done.mpr ⟨rfl, rfl⟩)
    simp only [Stmt.exec, hrow]
  have hallowed : s.target ∈ validTransitions r.status := by
    rw [hpending]
    cases s <;> simp [Settlement.target, validTransitions]
  have hassert : (assertValidTransition r.status s.target).Returns execTx
      { w with uuid := w.uuid + 1 } () { w with uuid := w.uuid + 1 } := by
    unfold assertValidTransition
    rw [if_pos hallowed]
    exact Script.returns_done.mpr ⟨rfl, rfl⟩
  obtain ⟨r', w₁, hsave⟩ := saveRequest_runs (w := { w with uuid := w.uuid + 1 }) (r := r)
    (e := s.mark w.clock r) hr (s.mark_id _ r).symm
  obtain ⟨db₁, hexec, rfl⟩ := Tx.stmt_returns.mp hsave
  obtain ⟨hrow, -, hbal, -⟩ := Stmt.exec_saveRequest hr (s.mark_id _ r) hexec
  have hsaved : r'.employeeId = r.employeeId ∧ r'.locationId = r.locationId
      ∧ r'.leaveType = r.leaveType ∧ r'.daysRequested = r.daysRequested := by
    have hsame := saveOver_same hrow
    exact ⟨hsame.employeeId, hsame.locationId, hsame.leaveType, hsame.daysRequested⟩
  have hkey' : b.key = (r.employeeId, r.locationId, r.leaveType) := hkey
  obtain ⟨b', w₂, hmove⟩ := moveDays_runs (s := s) (d := r.daysRequested)
    (w := { w with db := db₁, uuid := w.uuid + 1 + 1 }) (b := b) (by rw [hbal]; exact hb) hkey'
    henough
  obtain ⟨w₃, hafter⟩ : ∃ w₃, (s.schedule id r').Returns execTx w₂ () w₃ := by
    cases s with
    | approve a => exact ⟨_, Tx.setImmediate_returns.mpr rfl⟩
    | reject a reason => exact ⟨w₂, Script.returns_done.mpr ⟨rfl, rfl⟩⟩
    | cancel reason => exact ⟨w₂, Script.returns_done.mpr ⟨rfl, rfl⟩⟩
  refine ⟨r', w₃, ?_⟩
  rw [Settlement.transaction_eq]
  refine hfind.bind (hassert.bind ((Tx.now_returns.mpr ⟨rfl, rfl⟩).bind (hsave.bind ?_)))
  rw [hsaved.1, hsaved.2.1, hsaved.2.2.1, hsaved.2.2.2]
  exact hmove.bind (hafter.bind (Script.returns_done.mpr ⟨rfl, rfl⟩))

/-- The call of a settlement, alone. -/
theorem settlement_alone {s : Settlement} {id : Id} {r : TimeOffRequest} {b : EmployeeBalance}
    (hr : r ∈ w.db.requests.rows) (hid : r.id = id) (hpending : r.status = .pending)
    (hb : b ∈ w.db.balances.rows) (hkey : b.key = r.balanceKey)
    (henough : r.daysRequested ≤ b.pendingBalance) :
    ∃ body r' b' w', (s.request id).alone [] w = some (.ok body, w')
      ∧ Settled s id w w' r r' b b' := by
  obtain ⟨r', w', hrun⟩ := settlement_runs (s := s) hr hid hpending hb hkey henough
  obtain ⟨r₁, b₁, b', hsettled⟩ := transaction_returns hrun
  obtain rfl := Table.eq_of_pk hsettled.requests.mem hr (hsettled.id.trans hid.symm)
  obtain rfl := Table.eq_of_uk hsettled.balances.mem hb (hsettled.key.trans hkey.symm)
  refine ⟨serializeRequest r', r', b', w', alone_of_returns ?_, hsettled⟩
  rw [Settlement.request_eq]
  exact (returns_transaction hrun).bind (Script.returns_done.mpr ⟨rfl, rfl⟩)

/-! ## A create -/

theorem assertNoneOverlaps_runs {startDate endDate : String} {l : List TimeOffRequest}
    (h : ∀ x ∈ l, datesOverlap startDate endDate x.startDate x.endDate = false) :
    assertNoneOverlaps startDate endDate l = .done () := by
  induction l with
  | nil => rfl
  | cons x rest ih =>
      unfold assertNoneOverlaps
      rw [if_neg (Bool.eq_false_iff.mp (h x List.mem_cons_self))]
      exact ih fun y hy => h y (List.mem_cons_of_mem _ hy)

/-- What the rows must be for a create to go through. -/
structure Creatable (dto : CreateTimeOffRequestDto) (k : String) (d : ℚ) (b : EmployeeBalance)
    (w : World) : Prop where
  free : FreeDates dto w.db
  days : daysOf dto = some d
  row : b ∈ w.db.balances.rows
  key : b.key = dto.balanceKey
  enough : d ≤ b.availableBalance
  newRequest : ∀ r ∈ w.db.requests.rows, r.id ≠ w.uuid + 4 ∧ r.idempotencyKey ≠ k
  newRecord : ∀ rec ∈ w.db.records.rows, rec.id ≠ w.uuid + 5 ∧ rec.idempotencyKey ≠ k

/-- What it then does. -/
structure Stores (dto : CreateTimeOffRequestDto) (k : String) (d : ℚ) (b : EmployeeBalance)
    (id : Id) (now : ℤ) (db db' : Database) : Prop where
  request : db.requests.Added db'.requests ((newRequest dto k d).toRow id now)
  balance : ∃ b', db.balances.Replaced db'.balances b b' ∧ b'.totalBalance = b.totalBalance
  record : ∃ rec, db.records.Added db'.records rec ∧ rec.id = id + 1 ∧ rec.idempotencyKey = k
  ledger : LedgerInv db → LedgerInv db'

section create
variable {dto : CreateTimeOffRequestDto} {k : String} {d : ℚ} {b : EmployeeBalance}

theorem insertRequest_runs {n : NewRequest}
    (hnew : ∀ r ∈ w.db.requests.rows, r.id ≠ w.uuid ∧ r.idempotencyKey ≠ n.idempotencyKey) :
    ∃ db, (Tx.stmt (.insertRequest n)).Returns execTx w (n.toRow w.uuid w.clock)
        { w with db := db, uuid := w.uuid + 1 }
      ∧ w.db.requests.Added db.requests (n.toRow w.uuid w.clock)
      ∧ db.balances = w.db.balances ∧ db.records = w.db.records := by
  have hroom : (w.db.requests.insert? (n.toRow w.uuid w.clock)).isSome :=
    Table.insert?_isSome_iff.mpr ⟨fun r hr => (hnew r hr).1, fun r hr => (hnew r hr).2⟩
  obtain ⟨t, ht⟩ := Option.isSome_iff_exists.mp hroom
  have hexec : (Stmt.insertRequest n).exec w.stamp w.db
      = .ok (n.toRow w.uuid w.clock, { w.db with requests := t }) := by
    simp only [Stmt.exec, World.stamp, Database.insertRequest, ht]
    rfl
  exact ⟨_, Tx.stmt_returns.mpr ⟨_, hexec, rfl⟩, Table.added_of_insert? ht, rfl, rfl⟩

theorem insertRecord_runs {n : NewRecord}
    (hnew : ∀ rec ∈ w.db.records.rows, rec.id ≠ w.uuid ∧ rec.idempotencyKey ≠ n.idempotencyKey) :
    ∃ db, (Tx.stmt (.insertRecord n)).Returns execTx w (n.toRow w.uuid w.clock)
        { w with db := db, uuid := w.uuid + 1 }
      ∧ w.db.records.Added db.records (n.toRow w.uuid w.clock)
      ∧ db.balances = w.db.balances ∧ db.requests = w.db.requests := by
  have hroom : (w.db.records.insert? (n.toRow w.uuid w.clock)).isSome :=
    Table.insert?_isSome_iff.mpr ⟨fun r hr => (hnew r hr).1, fun r hr => (hnew r hr).2⟩
  obtain ⟨t, ht⟩ := Option.isSome_iff_exists.mp hroom
  have hexec : (Stmt.insertRecord n).exec w.stamp w.db
      = .ok (n.toRow w.uuid w.clock, { w.db with records := t }) := by
    simp only [Stmt.exec, World.stamp, Database.insertRecord, ht]
    rfl
  exact ⟨_, Tx.stmt_returns.mpr ⟨_, hexec, rfl⟩, Table.added_of_insert? ht, rfl, rfl⟩

/-- The days are deducted. -/
theorem atomicDeduct_runs (hd : daysOf dto = some d) (hb : b ∈ w.db.balances.rows)
    (hkey : b.key = dto.balanceKey) (henough : d ≤ b.availableBalance) :
    ∃ b' db, (atomicDeduct dto.employeeId dto.locationId dto.leaveType (daysOf dto)).Returns execTx
        w b' { w with db := db, uuid := w.uuid + 2 }
      ∧ w.db.balances.Replaced db.balances b b' ∧ b'.totalBalance = b.totalBalance
      ∧ db.requests = w.db.requests ∧ db.records = w.db.records := by
  obtain ⟨f, hdeduct, hsave, -⟩ :=
    atomicDeduct_eq dto.employeeId dto.locationId dto.leaveType (daysOf dto)
  have hrow : w.db.balances.byUk (dto.employeeId, dto.locationId, dto.leaveType) = some b :=
    Table.byUk_eq_some.mpr ⟨hb, hkey⟩
  obtain ⟨b', w', hrun⟩ := saveBalance_runs (w := { w with uuid := w.uuid + 1 }) (b := b)
    (e := deducted b d) hb rfl
  obtain ⟨db, hexec, rfl⟩ := Tx.stmt_returns.mp hrun
  obtain ⟨hb', hrep, hreq, hrec⟩ :=
    Stmt.exec_saveBalance hb (show (deducted b d).id = b.id from rfl) hexec
  refine ⟨b', db, ?_, hrep, by rw [hb']; rfl, hreq, hrec⟩
  rw [hdeduct]
  refine (returns_read (r := some b) ?_).bind ?_
  · simp only [Stmt.exec, hrow]
  · rw [hsave b d hd henough]
    exact hrun

theorem createBody_runs (env : Env) (h : Creatable dto k d b w) :
    ∃ r w', (createBody env dto k).Returns execTx w r w'
      ∧ Stores dto k d b (w.uuid + 4) w.clock w.db w'.db ∧ w'.createLocks = w.createLocks := by
  have hlist : (lockEmployeeBalances dto.employeeId dto.locationId).Returns execTx w ()
      { w with uuid := w.uuid + 1 } :=
    (returns_read rfl).bind (Script.returns_done.mpr ⟨rfl, rfl⟩)
  have hcheck : (assertNoOverlap dto.employeeId dto.locationId dto.startDate dto.endDate).Returns
      execTx { w with uuid := w.uuid + 1 } () { w with uuid := w.uuid + 2 } := by
    refine (returns_read (w := { w with uuid := w.uuid + 1 }) rfl).bind ?_
    rw [assertNoneOverlaps_runs]
    · exact Script.returns_done.mpr ⟨rfl, rfl⟩
    · intro x hx
      obtain ⟨hmem, hactive⟩ := List.mem_filter.mp hx
      obtain ⟨hemp, hloc, hact⟩ := of_decide_eq_true hactive
      exact h.free x hmem hemp hloc hact
  obtain ⟨b', db₁, hdeduct, hrep, htotal, hreq₁, hrec₁⟩ :=
    atomicDeduct_runs (w := { w with uuid := w.uuid + 2 }) h.days h.row h.key h.enough
  obtain ⟨db₂, hinsert, hadded, hbal₂, hrec₂⟩ := insertRequest_runs (n := newRequest dto k d)
    (w := { w with db := db₁, uuid := w.uuid + 4 }) (by rw [hreq₁]; exact h.newRequest)
  obtain ⟨db₃, hrecord, hradded, hbal₃, hreq₃⟩ := insertRecord_runs
    (n := newRecord env dto k (requestHashOf env dto)
      ((newRequest dto k d).toRow (w.uuid + 4) w.clock) w.clock)
    (w := { w with db := db₂, uuid := w.uuid + 5 })
    (by rw [hrec₂, hrec₁]; exact h.newRecord)
  have hrun : (createBody env dto k).Returns execTx w
      ((newRequest dto k d).toRow (w.uuid + 4) w.clock)
      { w with db := db₃, uuid := w.uuid + 5 + 1 } := by
    refine hlist.bind (hcheck.bind (hdeduct.bind ((sqlNumber_returns.mpr ⟨h.days, rfl⟩).bind
      (hinsert.bind ((Tx.now_returns.mpr ⟨rfl, rfl⟩).bind (hrecord.bind ?_))))))
    exact Script.returns_done.mpr ⟨rfl, rfl⟩
  obtain ⟨d', c, c', rec, hd', hcreated⟩ := createTransaction_returns hrun
  refine ⟨_, _, hrun, ⟨?_, ⟨b', ?_, htotal⟩, ⟨(newRecord env dto k (requestHashOf env dto)
    ((newRequest dto k d).toRow (w.uuid + 4) w.clock) w.clock).toRow (w.uuid + 5) w.clock, ?_, rfl,
    rfl⟩, hcreated.ledgerInv (daysOf_pos hd')⟩, rfl⟩
  · show w.db.requests.Added db₃.requests _
    rw [hreq₃, ← hreq₁]
    exact hadded
  · show w.db.balances.Replaced db₃.balances b b'
    rw [hbal₃, hbal₂]
    exact hrep
  · show w.db.records.Added db₃.records _
    rw [← hrec₁, ← hrec₂]
    exact hradded

/-- A statement that reads, outside a transaction. -/
theorem returns_svc_read {o : Stmt} {r : o.Res} {fates : List Fate}
    (h : o.exec w.stamp w.db = .ok (r, w.db)) :
    (Svc.stmt o).Returns execAlone (w, fates) r ({ w with uuid := w.uuid + 1 }, fates) := by
  show Option.bind (execAlone (.stmt o) (w, fates)) _ = _
  simp only [execAlone, execSvc, h]
  rfl

theorem checkIdempotency_runs {key employeeId hash : String}
    (h : ∀ rec ∈ w.db.records.rows, rec.idempotencyKey ≠ key) :
    (checkIdempotency key employeeId hash).Returns execAlone (w, []) none
      ({ w with uuid := w.uuid + 1 }, []) := by
  have hnone : w.db.records.byUk key = none := Table.byUk_eq_none.mpr h
  refine (returns_svc_read (r := none) ?_).bind (Script.returns_done.mpr ⟨rfl, rfl⟩)
  simp only [Stmt.exec, hnone]

theorem runCreateTransaction_runs {body : Tx TimeOffRequest} {r : TimeOffRequest} {w' : World}
    {n : ℕ} (h : body.Returns execTx w r w') :
    ∀ left, (runCreateTransaction (Svc.transaction body) n left).Returns execAlone (w, []) r
      (w', [])
  | 0 => returns_transaction h
  | _ + 1 => (returns_transaction h).attempt _

/-- The call of a create, alone. -/
theorem create_alone (env : Env) (hvalid : ValidInput dto k)
    (hpast : isNotInPast w.clock dto.startDate = true) (hfree : w.createLocks = [])
    (h : Creatable dto k d b { w with uuid := w.uuid + 2 }) :
    ∃ body w', (createRequest env dto k).alone [] w = some (.ok body, w')
      ∧ Stores dto k d b (w.uuid + 6) w.clock w.db w'.db := by
  have hnew : ∀ rec ∈ w.db.records.rows, rec.idempotencyKey ≠ k :=
    fun rec hrec => (h.newRecord rec hrec).2
  -- the world in the lane, when the key has been looked up again
  let lane := dto.employeeId ++ ":" ++ dto.locationId
  let w₁ : World := { w with
    uuid := w.uuid + 1
    createLocks := w.createLocks ++ [(lane, w.nextTicket)]
    nextTicket := w.nextTicket + 1 }
  let w₂ : World := { w₁ with uuid := w.uuid + 2 }
  have hcreatable : Creatable dto k d b w₂ :=
    ⟨h.free, h.days, h.row, h.key, h.enough, h.newRequest, h.newRecord⟩
  obtain ⟨r, w₃, hbody, hstores, hlocks⟩ := createBody_runs env hcreatable
  have hlocked : (createLocked env dto k (requestHashOf env dto) (daysOf dto)).Returns execAlone
      (w₁, []) (serializeRequest r) ({ w₃ with deferred := w₃.deferred
        ++ [.notifyHcm r.id dto.employeeId dto.locationId dto.leaveType (daysOf dto)] }, []) := by
    have hcheck : (checkIdempotency k dto.employeeId (requestHashOf env dto)).Returns execAlone
        (w₁, []) none (w₂, []) := checkIdempotency_runs hnew
    refine hcheck.bind (Script.Returns.attempt ?_ _)
    exact (runCreateTransaction_runs hbody 2).bind rfl
  have hhead : w₁.laneHead lane = some w.nextTicket := by
    simp [w₁, World.laneHead, hfree]
  have hrun : (createValidated env dto k).Returns execAlone (w, []) (serializeRequest r)
      ({ w₃ with
        deferred := w₃.deferred
          ++ [.notifyHcm r.id dto.employeeId dto.locationId dto.leaveType (daysOf dto)]
        createLocks := w₃.createLocks.filter fun l => l ≠ (lane, w.nextTicket) }, []) := by
    have hcheck : (checkIdempotency k dto.employeeId (requestHashOf env dto)).Returns execAlone
        (w, []) none ({ w with uuid := w.uuid + 1 }, []) := checkIdempotency_runs hnew
    refine hcheck.bind ?_
    show Option.bind (execAlone (.awaitCreateLock lane w.nextTicket) (w₁, [])) _ = _
    simp only [execAlone, execSvc, hhead, if_true]
    exact hlocked.ensure rfl
  have hcall : (createRequest env dto k).Returns execAlone (w, []) (serializeRequest r)
      ({ w₃ with
        deferred := w₃.deferred
          ++ [.notifyHcm r.id dto.employeeId dto.locationId dto.leaveType (daysOf dto)]
        createLocks := w₃.createLocks.filter fun l => l ≠ (lane, w.nextTicket) }, []) := by
    unfold createRequest
    rw [if_neg hvalid.1]
    show Script.Returns _ (if _ then _ else _) _ _ _
    rw [if_neg (by simp [hpast]), if_neg (by simp [hvalid.2])]
    exact hrun
  exact ⟨_, _, alone_of_returns hcall, hstores⟩

end create

end LeaveLedger
