import LeaveLedger.Transactions.Connection

/-!
# Transactions — How far a transaction is

The points at which the transactions of the calls await a statement, with
what they know there, and what one step does at each. The steps are those of
the programs (`Transaction.At` says what remains at a point); what they do to
the tables is said in terms of rows.
-/

namespace LeaveLedger

open Js Lib

/-! ## One request of a callback -/

namespace Transaction

variable {t : Transaction} {w : World}

theorem step_stmt {o : Stmt} {f : o.Res → Tx TimeOffRequest}
    (h : t.rest = (Tx.stmt o).bind f) :
    t.step w = some (match o.exec w.stamp w.db with
      | .ok (r, db') => ({ w with db := db', uuid := w.uuid + 1 },
          .tx { t with rest := f r, undo := o.writes w.clock w.db (.ok r) ++ t.undo,
                       loaded := o.loads (.ok r) t.loaded }, false)
      | .error e => (w, .tx { t with rest := .fail e }, false)) := by
  have hrest : t.rest = .await (.stmt o) fun r => (orThrow r : Tx o.Res).bind f := h
  unfold step
  rw [hrest]
  simp only [execTx, Option.map_some]
  cases hexec : o.exec w.stamp w.db with
  | ok x => rfl
  | error e =>
      have hquiet : o.writes w.clock w.db (.error e) = []
          ∧ o.loads (.error e) t.loaded = t.loaded := by
        cases o <;> exact ⟨rfl, rfl⟩
      simp [answered, hquiet]

theorem step_now {f : ℤ → Tx TimeOffRequest} (h : t.rest = Tx.now.bind f) :
    t.step w = some (w, .tx { t with rest := f w.clock }, false) := by
  have hrest : t.rest = .await .now f := h
  unfold step
  rw [hrest]
  rfl

theorem step_setImmediate {c : Callback} {f : Unit → Tx TimeOffRequest}
    (h : t.rest = (Tx.setImmediate c).bind f) :
    t.step w = some ({ w with deferred := w.deferred ++ [c] }, .tx { t with rest := f () },
      false) := by
  have hrest : t.rest = .await (.setImmediate c) f := h
  unfold step
  rw [hrest]
  rfl

theorem step_done {r : TimeOffRequest} (h : t.rest = .done r) :
    t.step w = some (w, .svc (t.resume (.ok r)), true) := by
  unfold step
  rw [h]

theorem step_fail {e : Exception} (h : t.rest = .fail e) :
    t.step w = some ({ w with db := t.undo.foldl Database.undo w.db },
      .svc (t.resume (.error e)), false) := by
  unfold step
  rw [h]

/-- A statement that reads. -/
theorem step_read {o : Stmt} {f : o.Res → Tx TimeOffRequest} {r : o.Res}
    (h : t.rest = (Tx.stmt o).bind f) (hexec : o.exec w.stamp w.db = .ok (r, w.db))
    (hread : o.isRead) :
    t.step w = some ({ w with uuid := w.uuid + 1 },
      .tx { t with rest := f r, loaded := o.loads (.ok r) t.loaded }, false) := by
  have hquiet : o.writes w.clock w.db (.ok r) = [] := by
    cases o <;> first | rfl | cases hread
  rw [step_stmt h, hexec]
  simp [hquiet]

end Transaction

/-! ## The points -/

inductive Point where
  | outside
  | refused (e : Exception)
  -- a settlement
  | finding
  | found (r : TimeOffRequest)
  | marking (r : TimeOffRequest) (now : ℤ)
  | marked (r : TimeOffRequest)
  | moving (r : TimeOffRequest) (b : EmployeeBalance)
  | scheduling (r : TimeOffRequest)
  | settled (r : TimeOffRequest)
  -- a create
  | listing
  | checking
  | booking
  | deducting (b : EmployeeBalance) (d : ℚ)
  | inserting (before after : EmployeeBalance) (d : ℚ)
  | undoing (e : Exception) (before after : EmployeeBalance) (d : ℚ)
  | noting (r : TimeOffRequest)
  | recording (r : TimeOffRequest) (now : ℤ)
  | stored (r : TimeOffRequest)

/-- What `moveDays` makes of the row it has loaded. -/
def Settlement.moved : Settlement → EmployeeBalance → ℚ → EmployeeBalance
  | .approve _ => toUsed
  | .reject _ _ => toAvailable
  | .cancel _ => toAvailable

theorem Settlement.moved_account (s : Settlement) (b : EmployeeBalance) (d : ℚ) :
    (s.moved b d).account = s.op b.account d := by
  cases s <;> rfl

theorem Settlement.moved_id (s : Settlement) (b : EmployeeBalance) (d : ℚ) :
    (s.moved b d).id = b.id := by
  cases s <;> rfl

/-- What remains of a settlement when the days have been moved. -/
def Settlement.afterMove (s : Settlement) (id : Id) (r : TimeOffRequest) : Tx TimeOffRequest :=
  (s.schedule id r).bind fun _ => .done r

/-- And when the request has been saved. -/
def Settlement.afterMark (s : Settlement) (id : Id) (r : TimeOffRequest) : Tx TimeOffRequest :=
  (s.moveDays r.employeeId r.locationId r.leaveType r.daysRequested).bind fun _ => s.afterMove id r

/-- And when it has been found pending. -/
def Settlement.afterFind (s : Settlement) (id : Id) (r : TimeOffRequest) : Tx TimeOffRequest :=
  Tx.now.bind fun now => (Tx.stmt (.saveRequest (s.mark now r))).bind (s.afterMark id)

section create
variable (env : Env) (dto : CreateTimeOffRequestDto) (idempotencyKey : String)

/-- The transaction of `createRequest(dto, idempotencyKey)`. -/
def createBody : Tx TimeOffRequest :=
  createTransaction env dto idempotencyKey (requestHashOf env dto) (daysOf dto)

/-- What remains of it when the request has been stored. -/
def afterInsert (r : TimeOffRequest) : Tx TimeOffRequest :=
  Tx.now.bind fun now =>
    (Tx.stmt (.insertRecord (newRecord env dto idempotencyKey (requestHashOf env dto) r now))).bind
      fun _ => .done r

/-- And when the days have been deducted. -/
def afterDeduct (d : ℚ) : Tx TimeOffRequest :=
  (Tx.stmt (.insertRequest (newRequest dto idempotencyKey d))).bind
    (afterInsert env dto idempotencyKey)

/-- And when the dates are free. -/
def afterOverlap : Tx TimeOffRequest :=
  (atomicDeduct dto.employeeId dto.locationId dto.leaveType (daysOf dto)).bind fun _ =>
    (sqlNumber (daysOf dto)).bind
      (afterDeduct env dto idempotencyKey)

/-- And when the balances have been listed. -/
def afterListing : Tx TimeOffRequest :=
  (assertNoOverlap dto.employeeId dto.locationId dto.startDate dto.endDate).bind fun _ =>
    afterOverlap env dto idempotencyKey

/-- The row with the days deducted. -/
def deducted (b : EmployeeBalance) (d : ℚ) : EmployeeBalance :=
  { b with availableBalance := b.availableBalance - d, pendingBalance := b.pendingBalance + d }

end create

/-- What remains of the callback at a point, what it has written and what it has loaded. -/
inductive Transaction.At (env : Env) :
    Call → Point → Tx TimeOffRequest → List Undo → Option EmployeeBalance → Prop
  | refused {c : Call} {e : Exception} {loaded : Option EmployeeBalance} :
      At env c (.refused e) (.fail e) [] loaded
  | finding {s : Settlement} {id : Id} :
      At env (.settle s id) .finding (s.transaction id) [] none
  | found {s : Settlement} {id : Id} {r : TimeOffRequest} (hid : r.id = id)
      (hpending : r.status = .pending) :
      At env (.settle s id) (.found r) (s.afterFind id r) [] none
  | marking {s : Settlement} {id : Id} {r : TimeOffRequest} {now : ℤ} (hid : r.id = id)
      (hpending : r.status = .pending) :
      At env (.settle s id) (.marking r now)
        ((Tx.stmt (.saveRequest (s.mark now r))).bind (s.afterMark id)) [] none
  | marked {s : Settlement} {id : Id} {r : TimeOffRequest} {undo : List Undo}
      (hstatus : r.status = s.target) :
      At env (.settle s id) (.marked r) (s.afterMark id r) undo none
  | moving {s : Settlement} {id : Id} {r : TimeOffRequest} {b : EmployeeBalance}
      {undo : List Undo} (hstatus : r.status = s.target) (hkey : b.key = r.balanceKey) :
      At env (.settle s id) (.moving r b)
        ((Tx.stmt (.saveBalance (s.moved b r.daysRequested))).bind fun _ => s.afterMove id r)
        undo (some b)
  | scheduling {s : Settlement} {id : Id} {r : TimeOffRequest} {c : Callback} {undo : List Undo}
      {loaded : Option EmployeeBalance} :
      At env (.settle s id) (.scheduling r) ((Tx.setImmediate c).bind fun _ => .done r) undo loaded
  | settled {s : Settlement} {id : Id} {r : TimeOffRequest} {undo : List Undo}
      {loaded : Option EmployeeBalance} :
      At env (.settle s id) (.settled r) (.done r) undo loaded
  | listing {dto : CreateTimeOffRequestDto} {k : String} :
      At env (.create dto k) .listing (createBody env dto k) [] none
  | checking {dto : CreateTimeOffRequestDto} {k : String} :
      At env (.create dto k) .checking (afterListing env dto k) [] none
  | booking {dto : CreateTimeOffRequestDto} {k : String} :
      At env (.create dto k) .booking (afterOverlap env dto k) [] none
  | deducting {dto : CreateTimeOffRequestDto} {k : String} {b : EmployeeBalance} {d : ℚ}
      (hd : daysOf dto = some d) (hkey : b.key = dto.balanceKey)
      (henough : d ≤ b.availableBalance) :
      At env (.create dto k) (.deducting b d)
        ((Tx.stmt (.saveBalance (deducted b d))).bind fun _ => afterDeduct env dto k d) []
        (some b)
  | inserting {dto : CreateTimeOffRequestDto} {k : String} {before after : EmployeeBalance}
      {d : ℚ} {loaded : Option EmployeeBalance} (hd : daysOf dto = some d)
      (hkey : before.key = dto.balanceKey) (hid : after.id = before.id)
      (haccount : after.account = before.account.reserve d) :
      At env (.create dto k) (.inserting before after d) (afterDeduct env dto k d)
        [.balance after (some before)] loaded
  | undoing {dto : CreateTimeOffRequestDto} {k : String} {e : Exception}
      {before after : EmployeeBalance} {d : ℚ} {loaded : Option EmployeeBalance}
      (hd : daysOf dto = some d) (hkey : before.key = dto.balanceKey)
      (hid : after.id = before.id) (haccount : after.account = before.account.reserve d) :
      At env (.create dto k) (.undoing e before after d) (.fail e)
        [.balance after (some before)] loaded
  | noting {dto : CreateTimeOffRequestDto} {k : String} {r : TimeOffRequest} {undo : List Undo}
      {loaded : Option EmployeeBalance} :
      At env (.create dto k) (.noting r) (afterInsert env dto k r) undo loaded
  | recording {dto : CreateTimeOffRequestDto} {k : String} {r : TimeOffRequest} {now : ℤ}
      {undo : List Undo} {loaded : Option EmployeeBalance} :
      At env (.create dto k) (.recording r now)
        ((Tx.stmt (.insertRecord (newRecord env dto k (requestHashOf env dto) r now))).bind
          fun _ => .done r) undo loaded
  | stored {dto : CreateTimeOffRequestDto} {k : String} {r : TimeOffRequest} {undo : List Undo}
      {loaded : Option EmployeeBalance} :
      At env (.create dto k) (.stored r) (.done r) undo loaded

/-! ## What one step does -/

/-- A request that is active and overlaps with the dates of the payload. -/
def FreeDates (dto : CreateTimeOffRequestDto) (db : Database) : Prop :=
  ∀ x ∈ db.requests.rows, x.employeeId = dto.employeeId → x.locationId = dto.locationId →
    x.isActive → datesOverlap dto.startDate dto.endDate x.startDate x.endDate = false

/-- A step of an open transaction from point to point, in terms of rows. -/
inductive PointStep (env : Env) (w : World) : Call → Point → World → Point → Prop
  | refuse {c : Call} {p : Point} {e : Exception} {u : Id}
      (hp : p = .finding ∨ p = .checking ∨ p = .booking) (hu : w.uuid ≤ u) :
      PointStep env w c p { w with uuid := u } (.refused e)
  | find {s : Settlement} {id : Id} {r : TimeOffRequest} (hr : r ∈ w.db.requests.rows)
      (hid : r.id = id) (hpending : r.status = .pending) :
      PointStep env w (.settle s id) .finding { w with uuid := w.uuid + 1 } (.found r)
  | look {s : Settlement} {id : Id} {r : TimeOffRequest} :
      PointStep env w (.settle s id) (.found r) w (.marking r w.clock)
  | mark {s : Settlement} {id : Id} {r r₀ r' : TimeOffRequest} {now : ℤ} {db : Database}
      (hid : r.id = id) (hrow : r₀.id = r.id) (hpending : r₀.status = .pending)
      (hsaved : r' = (s.mark now r).saveOver w.clock r₀)
      (hrequests : w.db.requests.Replaced db.requests r₀ r')
      (hbalances : db.balances = w.db.balances) (hrecords : db.records = w.db.records) :
      PointStep env w (.settle s id) (.marking r now) { w with db := db, uuid := w.uuid + 1 }
        (.marked r')
  | load {s : Settlement} {id : Id} {r : TimeOffRequest} {b : EmployeeBalance}
      (hb : b ∈ w.db.balances.rows) (hkey : b.key = r.balanceKey) :
      PointStep env w (.settle s id) (.marked r) { w with uuid := w.uuid + 1 } (.moving r b)
  | move {s : Settlement} {id : Id} {r : TimeOffRequest} {b b₀ b' : EmployeeBalance} {p : Point}
      {db : Database} (hid : b₀.id = b.id) (hkey : b.key = r.balanceKey)
      (haccount : b'.account = s.op b₀.account r.daysRequested)
      (hbalances : w.db.balances.Replaced db.balances b₀ b')
      (hrequests : db.requests = w.db.requests) (hrecords : db.records = w.db.records)
      (hp : p = .scheduling r ∨ p = .settled r) :
      PointStep env w (.settle s id) (.moving r b) { w with db := db, uuid := w.uuid + 1 } p
  | schedule {s : Settlement} {id : Id} {r : TimeOffRequest} {c : Callback} :
      PointStep env w (.settle s id) (.scheduling r)
        { w with deferred := w.deferred ++ [c] } (.settled r)
  | list {dto : CreateTimeOffRequestDto} {k : String} :
      PointStep env w (.create dto k) .listing { w with uuid := w.uuid + 1 } .checking
  | check {dto : CreateTimeOffRequestDto} {k : String} (hfree : FreeDates dto w.db) :
      PointStep env w (.create dto k) .checking { w with uuid := w.uuid + 1 } .booking
  | book {dto : CreateTimeOffRequestDto} {k : String} {b : EmployeeBalance} {d : ℚ}
      (hb : b ∈ w.db.balances.rows) (hd : daysOf dto = some d) (hkey : b.key = dto.balanceKey)
      (henough : d ≤ b.availableBalance) :
      PointStep env w (.create dto k) .booking { w with uuid := w.uuid + 1 } (.deducting b d)
  | deduct {dto : CreateTimeOffRequestDto} {k : String} {b b₀ b' : EmployeeBalance} {d : ℚ}
      {db : Database} (hd : daysOf dto = some d) (hkey : b₀.key = dto.balanceKey)
      (henough : d ≤ b₀.availableBalance) (haccount : b'.account = b₀.account.reserve d)
      (hbalances : w.db.balances.Replaced db.balances b₀ b')
      (hrequests : db.requests = w.db.requests) (hrecords : db.records = w.db.records) :
      PointStep env w (.create dto k) (.deducting b d) { w with db := db, uuid := w.uuid + 1 }
        (.inserting b₀ b' d)
  | insert {dto : CreateTimeOffRequestDto} {k : String} {b b' : EmployeeBalance} {d : ℚ}
      {r : TimeOffRequest} {db : Database} (hd : daysOf dto = some d)
      (hkey : b.key = dto.balanceKey)
      (hrow : r = (newRequest dto k d).toRow w.uuid w.clock)
      (hrequests : w.db.requests.Added db.requests r)
      (hbalances : db.balances = w.db.balances) (hrecords : db.records = w.db.records) :
      PointStep env w (.create dto k) (.inserting b b' d) { w with db := db, uuid := w.uuid + 1 }
        (.noting r)
  | conflict {dto : CreateTimeOffRequestDto} {k : String} {b b' : EmployeeBalance} {d : ℚ}
      {e : Exception} :
      PointStep env w (.create dto k) (.inserting b b' d) w (.undoing e b b' d)
  | note {dto : CreateTimeOffRequestDto} {k : String} {r : TimeOffRequest} :
      PointStep env w (.create dto k) (.noting r) w (.recording r w.clock)
  | record {dto : CreateTimeOffRequestDto} {k : String} {r : TimeOffRequest} {now : ℤ}
      {rec : IdempotencyRecord} {db : Database} (hid : rec.id = w.uuid)
      (hkey : rec.idempotencyKey = k) (hadded : w.db.records.Added db.records rec)
      (hbalances : db.balances = w.db.balances) (hrequests : db.requests = w.db.requests) :
      PointStep env w (.create dto k) (.recording r now) { w with db := db, uuid := w.uuid + 1 }
        (.stored r)

/-- What a step at a point needs lest it throws. -/
def Point.Ready (w : World) : Call → Point → Prop
  | .settle _ _, .marked r =>
      ∃ b ∈ w.db.balances.rows, b.key = r.balanceKey ∧ r.daysRequested ≤ b.pendingBalance
  | .create _ _, .deducting b _ => ∃ b₀ ∈ w.db.balances.rows, b₀.id = b.id ∧ b₀.key = b.key
  | .create _ _, .undoing _ b _ _ => ∃ b₀ ∈ w.db.balances.rows, b₀.id = b.id ∧ b₀.key = b.key
  | .create _ k, .recording _ _ =>
      ∀ rec ∈ w.db.records.rows, rec.id ≠ w.uuid ∧ rec.idempotencyKey ≠ k
  | _, _ => True

end LeaveLedger
