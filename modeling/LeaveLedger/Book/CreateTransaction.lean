import LeaveLedger.Book.Service
import LeaveLedger.Lib.ScriptErrors
import LeaveLedger.TimeOff.DriverErrors
import LeaveLedger.Transactions.Alone

/-!
# Book — The transaction of a create

From a sound world the transaction of a create does what the book decides
(`LeaveBook.verdict`): it returns the booking and the world stands for the
book with it entered, or it throws an error of the kind the verdict names.
-/

namespace LeaveLedger

open Js Lib

/-- A statement that the database refuses. -/
theorem throws_stmt {o : Stmt} {w : World} {e : Exception} (h : o.exec w.stamp w.db = .error e) :
    (Tx.stmt o).Throws execTx w e w := by
  show Option.bind (execTx (.stmt o) w) _ = _
  simp only [execTx, h]
  rfl

/-! ## The kinds of errors -/

/-- The error is one that a refusal of this kind shows as. -/
def LeaveBook.Refusal.RaisedBy : LeaveBook.Refusal → Exception → Prop
  | .because status error, e =>
      isSqliteTransientTxError e = false ∧ ∃ message details, e = .http status error message details
  | .notANumber, e => e = sqlError "no such column: NaN"
  | .keyTaken, e => isSqliteTransientTxError e = false ∧ ∃ message, e = constraintError message

/-- Run from `w`, the body throws an error that a refusal of this kind shows as. -/
def LeaveBook.Refusal.Stops {α : Type} (refusal : LeaveBook.Refusal) (p : Tx α) (w : World) :
    Prop :=
  ∃ e w', refusal.RaisedBy e ∧ p.Throws execTx w e w'

section
variable {env : Env} {dto : CreateTimeOffRequestDto} {k : String} {w w' : World}

/-- An active request with an overlapping range stops the transaction. -/
theorem assertNoneOverlaps_stops (dto : CreateTimeOffRequestDto) {l : List TimeOffRequest}
    (hactive : ∀ x ∈ l, x.isActive)
    (h : ∃ x ∈ l, datesOverlap dto.startDate dto.endDate x.startDate x.endDate) :
    (LeaveBook.Refusal.because 409 .overlappingRequest).Stops
      (assertNoneOverlaps dto.startDate dto.endDate l) w := by
  induction l with
  | nil =>
      obtain ⟨x, hx, -⟩ := h
      cases hx
  | cons x rest ih =>
      unfold assertNoneOverlaps
      by_cases hx : datesOverlap dto.startDate dto.endDate x.startDate x.endDate = true
      · rw [if_pos hx]
        have hstatus : x.status = .pending ∨ x.status = .approved := by
          simpa [TimeOffRequest.isActive] using hactive x List.mem_cons_self
        refine ⟨_, w, ?_, rfl⟩
        exact ⟨overlapping_not_transient hstatus _, _, _, rfl⟩
      · rw [if_neg hx]
        refine ih (fun y hy => hactive y (List.mem_cons_of_mem x hy)) ?_
        obtain ⟨y, hy, hover⟩ := h
        rcases List.mem_cons.mp hy with rfl | hy
        · exact absurd hover hx
        · exact ⟨y, hy, hover⟩

/-! ## The verdict in terms of rows -/

theorem book_overlaps : w.book.Overlaps dto ↔ ¬ FreeDates dto w.db := by
  unfold LeaveBook.Overlaps FreeDates
  constructor
  · rintro ⟨b, hb, hholds, hemp, hloc, hover⟩ hfree
    obtain ⟨r, hr, rfl⟩ := mem_bookings.mp hb
    have hno := hfree r hr hemp hloc hholds
    rw [show datesOverlap dto.startDate dto.endDate r.startDate r.endDate = true from hover] at hno
    cases hno
  · intro h
    by_contra hnone
    refine h fun r hr hemp hloc hact => ?_
    by_contra hover
    refine hnone ⟨r.booking, mem_bookings.mpr ⟨r, hr, rfl⟩, hact, hemp, hloc, ?_⟩
    exact Bool.eq_true_of_not_eq_false hover

theorem book_taken (k : String) : (∃ b ∈ w.book.bookings, b.idempotencyKey = k)
    ↔ ∃ r ∈ w.db.requests.rows, r.idempotencyKey = k := by
  constructor
  · rintro ⟨b, hb, hkey⟩
    obtain ⟨r, hr, rfl⟩ := mem_bookings.mp hb
    exact ⟨r, hr, hkey⟩
  · rintro ⟨r, hr, hkey⟩
    exact ⟨r.booking, mem_bookings.mpr ⟨r, hr, rfl⟩, hkey⟩

theorem LeaveBook.Refusal.Stops.bind {α β : Type} {refusal : LeaveBook.Refusal} {p : Tx α}
    {f : α → Tx β} (h : refusal.Stops p w) : refusal.Stops (Script.bind p f) w := by
  obtain ⟨e, w', hraised, hthrows⟩ := h
  exact ⟨e, w', hraised, hthrows.bind⟩

theorem LeaveBook.Refusal.Stops.after {α β : Type} {refusal : LeaveBook.Refusal} {p : Tx α}
    {f : α → Tx β} {a : α} (hp : p.Returns execTx w a w') (h : refusal.Stops (f a) w') :
    refusal.Stops (Script.bind p f) w := by
  obtain ⟨e, w'', hraised, hthrows⟩ := h
  exact ⟨e, w'', hraised, hp.throws hthrows⟩

/-! ## Its parts -/

/-- The two reads before the days are deducted, when the dates are free. -/
theorem create_reads (hfree : FreeDates dto w.db) :
    (lockEmployeeBalances dto.employeeId dto.locationId).Returns execTx w ()
        { w with uuid := w.uuid + 1 }
      ∧ (assertNoOverlap dto.employeeId dto.locationId dto.startDate dto.endDate).Returns execTx
        { w with uuid := w.uuid + 1 } () { w with uuid := w.uuid + 2 } := by
  refine ⟨(returns_read rfl).bind (Script.returns_done.mpr ⟨rfl, rfl⟩), ?_⟩
  refine (returns_read (w := { w with uuid := w.uuid + 1 }) rfl).bind ?_
  rw [assertNoneOverlaps_runs]
  · exact Script.returns_done.mpr ⟨rfl, rfl⟩
  · intro x hx
    obtain ⟨hmem, hactive⟩ := List.mem_filter.mp hx
    obtain ⟨hemp, hloc, hact⟩ := of_decide_eq_true hactive
    exact hfree x hmem hemp hloc hact

/-- What stops the rest stops the transaction. -/
theorem create_stops {hash : String} {refusal : LeaveBook.Refusal} (hfree : FreeDates dto w.db)
    (h : refusal.Stops ((atomicDeduct dto.employeeId dto.locationId dto.leaveType (daysOf dto)).bind
      fun _ => (sqlNumber (daysOf dto)).bind fun days =>
        (Tx.stmt (.insertRequest (newRequest dto k days))).bind fun saved => Tx.now.bind fun now =>
          (Tx.stmt (.insertRecord (newRecord env dto k hash saved now))).bind fun _ => .done saved)
      { w with uuid := w.uuid + 2 }) :
    refusal.Stops (createTransaction env dto k hash (daysOf dto)) w := by
  obtain ⟨hlock, hcheck⟩ := create_reads hfree
  exact .after hlock (.after hcheck h)

/-- The transaction that the dates stop. -/
theorem create_overlapping {hash : String} (h : ¬ FreeDates dto w.db) :
    (LeaveBook.Refusal.because 409 .overlappingRequest).Stops
      (createTransaction env dto k hash (daysOf dto)) w := by
  have hfound : ∃ x ∈ w.db.requests.rows.filter fun r =>
      r.employeeId = dto.employeeId ∧ r.locationId = dto.locationId ∧ r.isActive,
      datesOverlap dto.startDate dto.endDate x.startDate x.endDate := by
    by_contra hnone
    refine h fun x hx hemp hloc hact => ?_
    by_contra hover
    exact hnone ⟨x, List.mem_filter.mpr ⟨hx, decide_eq_true ⟨hemp, hloc, hact⟩⟩,
      Bool.eq_true_of_not_eq_false hover⟩
  have hstops := assertNoneOverlaps_stops (w := { w with uuid := w.uuid + 2 }) dto
    (fun x hx => (of_decide_eq_true (List.mem_filter.mp hx).2).2.2) hfound
  have hlock : (lockEmployeeBalances dto.employeeId dto.locationId).Returns execTx w ()
      { w with uuid := w.uuid + 1 } :=
    (returns_read rfl).bind (Script.returns_done.mpr ⟨rfl, rfl⟩)
  refine .after hlock (.bind ?_)
  exact .after (returns_read (w := { w with uuid := w.uuid + 1 }) rfl) hstops

/-- The account stops it: there is none, its days are no number, or they are too many. -/
theorem atomicDeduct_stops {refusal : LeaveBook.Refusal} {days : Option ℚ}
    {row : Option EmployeeBalance} (hrow : w.db.balances.byUk dto.balanceKey = row)
    (h : row = none ∧ refusal = .because 404 .balanceNotFound
      ∨ ∃ b, row = some b ∧ (days = none ∧ refusal = .notANumber
        ∨ ∃ d, days = some d ∧ b.availableBalance < d
          ∧ refusal = .because 422 .insufficientBalance)) :
    refusal.Stops (atomicDeduct dto.employeeId dto.locationId dto.leaveType days) w := by
  have hread : (Tx.stmt (.findBalance dto.employeeId dto.locationId dto.leaveType)).Returns
      execTx w row { w with uuid := w.uuid + 1 } :=
    returns_read (congrArg (fun x => Except.ok (x, w.db)) hrow)
  obtain ⟨rfl, rfl⟩ | ⟨b, rfl, ⟨rfl, rfl⟩ | ⟨d, rfl, hlt, rfl⟩⟩ := h
  · refine ⟨_, _, ?_, hread.throws Script.throws_fail⟩
    exact ⟨balanceNotFound_not_transient _, _, _, rfl⟩
  · exact ⟨_, _, rfl, hread.throws Script.throws_fail⟩
  · have hshort : (atomicDeduct dto.employeeId dto.locationId dto.leaveType (some d)).Throws
        execTx w
        (unprocessable .insufficientBalance
          ("Requested " ++ numberText d ++ " days but only " ++ numberText b.availableBalance
            ++ " days available")
          [("requested", numberText d), ("available", numberText b.availableBalance),
            ("pending", numberText b.pendingBalance), ("used", numberText b.usedBalance),
            ("leaveType", dto.leaveType.text)])
        { w with uuid := w.uuid + 1 } := by
      refine hread.throws ?_
      simp only [if_pos hlt]
      exact Script.throws_fail
    exact ⟨_, _, ⟨insufficient_not_transient d b.availableBalance _, _, _, rfl⟩, hshort⟩

theorem create_undeducted {hash : String} {refusal : LeaveBook.Refusal}
    {row : Option EmployeeBalance} (hfree : FreeDates dto w.db)
    (hrow : w.db.balances.byUk dto.balanceKey = row)
    (h : row = none ∧ refusal = .because 404 .balanceNotFound
      ∨ ∃ b, row = some b ∧ (daysOf dto = none ∧ refusal = .notANumber
        ∨ ∃ d, daysOf dto = some d ∧ b.availableBalance < d
          ∧ refusal = .because 422 .insufficientBalance)) :
    refusal.Stops (createTransaction env dto k hash (daysOf dto)) w :=
  create_stops hfree (atomicDeduct_stops (w := { w with uuid := w.uuid + 2 }) hrow h).bind

/-- The transaction that finds its key taken. -/
theorem insertRequest_stops {d : ℚ} {r : TimeOffRequest} (hr : r ∈ w.db.requests.rows)
    (hkey : r.idempotencyKey = k) :
    LeaveBook.Refusal.keyTaken.Stops (Tx.stmt (.insertRequest (newRequest dto k d))) w := by
  have hnone : w.db.requests.insert? ((newRequest dto k d).toRow w.uuid w.clock) = none := by
    rw [← Option.not_isSome_iff_eq_none, Table.insert?_isSome_iff]
    rintro ⟨-, hnew⟩
    exact hnew r hr hkey
  refine ⟨uniqueError "time_off_requests.idempotencyKey", w, ⟨uniqueKey_not_transient, _, rfl⟩,
    throws_stmt ?_⟩
  simp only [Stmt.exec, World.stamp, Database.insertRequest, hnone]
  rfl

/-! ## The whole of it -/

/-- **A create the book turns down** is stopped by an error of that kind. -/
theorem create_turnedDown (env : Env) (hash : String) {refusal : LeaveBook.Refusal} (hw : Sound w)
    (hv : w.book.verdict dto k = .error refusal) :
    refusal.Stops (createTransaction env dto k hash (daysOf dto)) w := by
  unfold LeaveBook.verdict at hv
  by_cases hover : w.book.Overlaps dto
  · rw [if_pos hover] at hv
    cases hv
    exact create_overlapping (book_overlaps.mp hover)
  have hfree : FreeDates dto w.db := not_not.mp (mt book_overlaps.mpr hover)
  rw [if_neg hover, book_accountOf hw] at hv
  cases hrow : w.db.balances.byUk dto.balanceKey with
  | none =>
      rw [hrow] at hv
      cases hv
      exact create_undeducted hfree hrow (.inl ⟨rfl, rfl⟩)
  | some b =>
      cases hdays : daysOf dto with
      | none =>
          simp only [hrow, hdays, Option.map_some] at hv
          cases hv
          rw [← hdays]
          exact create_undeducted hfree hrow (.inr ⟨b, rfl, .inl ⟨hdays, rfl⟩⟩)
      | some d =>
          simp only [hrow, hdays, Option.map_some] at hv
          rw [← hdays]
          by_cases hlt : b.availableBalance < d
          · rw [if_pos (show b.account.available < d from hlt)] at hv
            cases hv
            exact create_undeducted hfree hrow (.inr ⟨b, rfl, .inr ⟨d, hdays, hlt, rfl⟩⟩)
          · rw [if_neg (show ¬ b.account.available < d from hlt)] at hv
            by_cases htaken : ∃ x ∈ w.book.bookings, x.idempotencyKey = k
            · rw [if_pos htaken] at hv
              cases hv
              obtain ⟨r, hr, hkey⟩ := (book_taken k).mp htaken
              obtain ⟨hb, hbkey⟩ := Table.byUk_eq_some.mp hrow
              obtain ⟨b', db₁, hdeduct, -, -, hreq₁, -⟩ := atomicDeduct_runs
                (w := { w with uuid := w.uuid + 2 }) hdays hb hbkey (not_lt.mp hlt)
              refine create_stops hfree (.after hdeduct
                (.after (sqlNumber_returns.mpr ⟨hdays, rfl⟩) (.bind ?_)))
              exact insertRequest_stops (hreq₁ ▸ hr) hkey
            · rw [if_neg htaken] at hv
              cases hv

/-- The world after a create that was accepted, and the booking it made. -/
structure Accepted (env : Env) (dto : CreateTimeOffRequestDto) (k : String) (d : ℚ)
    (w w' : World) (r : TimeOffRequest) : Prop where
  booking : r.booking = Booking.ofPayload dto k r.id d
  unused : ∀ b ∈ w.book.bookings, b.id ≠ r.id
  sound : Sound w'
  book : w'.book = w.book.enter env dto r.booking

/-- What a create that commits makes of the book. -/
theorem Created.accepted {d : ℚ} {b b' : EmployeeBalance} {r : TimeOffRequest}
    {rec : IdempotencyRecord} (hw : Sound w) (hd : 0 < d)
    (hc : Created env dto k (requestHashOf env dto) w w' d b b' r rec)
    (huuid : w.uuid ≤ w'.uuid) (hr : r.id < w'.uuid) (hrec : rec.id < w'.uuid) :
    Accepted env dto k d w w' r := by
  obtain ⟨id, hrow⟩ := hc.request
  obtain ⟨id', hrecord⟩ := hc.record
  have hbooking : r.booking = Booking.ofPayload dto k r.id d := by
    rw [hrow]
    rfl
  have hkey : r.idempotencyKey = k := by
    rw [hrow]
    rfl
  have hreckey : rec.idempotencyKey = k := by
    rw [hrecord]
    rfl
  refine ⟨hbooking, ?_, ⟨hc.ledgerInv hd hw.ledger, ?_, ?_, ?_, ?_⟩, ?_⟩
  · intro x hx
    obtain ⟨y, hy, rfl⟩ := mem_bookings.mp hx
    exact hc.requests.pk_new y hy
  · intro x hx
    rcases hc.records.mem_iff.mp hx with hold | rfl
    · obtain ⟨y, hy, hsame⟩ := hw.recordKeys x hold
      exact ⟨y, hc.requests.mem_iff.mpr (.inl hy), hsame⟩
    · exact ⟨r, hc.requests.mem_iff.mpr (.inr rfl), hkey.trans hreckey.symm⟩
  · exact hc.balances.forall_pk (P := (· < w'.uuid)) fun x hx =>
      (hw.ids.balances x hx).trans_le huuid
  · exact hc.requests.forall_mem (fun x hx => (hw.ids.requests x hx).trans_le huuid) hr
  · exact hc.records.forall_mem (fun x hx => (hw.ids.records x hx).trans_le huuid) hrec
  · have htotal : b'.totalBalance = b.totalBalance := congrArg Account.total hc.account
    have htotals : ∀ key, w'.book.totals key = w.book.totals key := fun key =>
      hc.balances.byUk_map htotal key
    have hreceipts : ∀ key, w'.book.receipts key
        = (w.book.enter env dto r.booking).receipts key := by
      intro key
      show (w'.db.records.byUk key).map IdempotencyRecord.receipt
        = Function.update w.book.receipts r.idempotencyKey _ key
      by_cases hsame : key = rec.idempotencyKey
      · rw [hsame, hc.records.byUk_self, hkey, hreckey, Function.update_self, hrecord]
        rfl
      · rw [hc.records.byUk_of_ne hsame, hkey, ← hreckey, Function.update_of_ne hsame]
        rfl
    refine book_ext htotals ?_ hreceipts hc.clock
    show w'.db.requests.rows.map _ = w.db.requests.rows.map _ ++ [_]
    rw [hc.requests.rows, List.map_append]
    rfl

/-- What the book accepts can be created. -/
theorem creatable_of_verdict {d : ℚ} (hw : Sound w) (hv : w.book.verdict dto k = .ok d) :
    ∃ b, Creatable dto k d b w := by
  unfold LeaveBook.verdict at hv
  by_cases hover : w.book.Overlaps dto
  · rw [if_pos hover] at hv
    cases hv
  rw [if_neg hover, book_accountOf hw] at hv
  cases hrow : w.db.balances.byUk dto.balanceKey with
  | none =>
      rw [hrow] at hv
      cases hv
  | some b =>
      cases hdays : daysOf dto with
      | none =>
          simp only [hrow, hdays, Option.map_some] at hv
          cases hv
      | some days =>
          simp only [hrow, hdays, Option.map_some] at hv
          by_cases hlt : b.availableBalance < days
          · rw [if_pos (show b.account.available < days from hlt)] at hv
            cases hv
          rw [if_neg (show ¬ b.account.available < days from hlt)] at hv
          by_cases htaken : ∃ x ∈ w.book.bookings, x.idempotencyKey = k
          · rw [if_pos htaken] at hv
            cases hv
          rw [if_neg htaken] at hv
          cases hv
          obtain ⟨hb, hbkey⟩ := Table.byUk_eq_some.mp hrow
          have hnewkey : ∀ r ∈ w.db.requests.rows, r.idempotencyKey ≠ k := fun r hr heq =>
            htaken ((book_taken k).mpr ⟨r, hr, heq⟩)
          refine ⟨b, not_not.mp (mt book_overlaps.mpr hover), hdays, hb, hbkey, not_lt.mp hlt,
            fun r hr => ⟨?_, hnewkey r hr⟩, fun rec hrec => ⟨?_, fun heq => ?_⟩⟩
          · exact ((hw.ids.requests r hr).trans_le (Nat.le_add_right _ 4)).ne
          · exact ((hw.ids.records rec hrec).trans_le (Nat.le_add_right _ 5)).ne
          · obtain ⟨r, hr, hkey⟩ := hw.recordKeys rec hrec
            exact hnewkey r hr (hkey.trans heq)

/-- **A create the book accepts** returns its booking. -/
theorem create_accepted (env : Env) {d : ℚ} (hw : Sound w) (hv : w.book.verdict dto k = .ok d) :
    ∃ r w', (createTransaction env dto k (requestHashOf env dto) (daysOf dto)).Returns execTx w r w'
      ∧ Accepted env dto k d w w' r := by
  obtain ⟨b, hcreatable⟩ := creatable_of_verdict hw hv
  have hdays := hcreatable.days
  obtain ⟨r, w', hrun, hstores, -⟩ := createBody_runs env hcreatable
  obtain ⟨d', c, c', rec, hd', hcreated⟩ := createTransaction_returns hrun
  cases hdays.symm.trans hd'
  have hages := Tx.run_ages _ hrun
  have hid : r.id = w.uuid + 4 := by
    have hrows := hcreated.requests.rows.symm.trans hstores.request.rows
    rw [List.append_cancel_left_eq, List.singleton_inj] at hrows
    rw [hrows]
    rfl
  obtain ⟨rec', hadded, hrecid, -⟩ := hstores.record
  have hrec : rec.id < w'.uuid :=
    hages.ids hw.ids.records rec (hcreated.records.mem_iff.mpr (.inr rfl))
  have hsame : rec = rec' := by
    have hrows := hcreated.records.rows.symm.trans hadded.rows
    rwa [List.append_cancel_left_eq, List.singleton_inj] at hrows
  have hlt : r.id < w'.uuid := by
    rw [hsame, hrecid] at hrec
    rw [hid]
    exact (Nat.lt_succ_self _).trans hrec
  exact ⟨r, w', hrun, hcreated.accepted hw (daysOf_pos hdays) hages.uuid hlt hrec⟩

end

end LeaveLedger
