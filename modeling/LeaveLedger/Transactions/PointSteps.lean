import LeaveLedger.Transactions.Points

/-!
# Transactions — From point to point

One lemma for each point: what remains there is a request and what comes
after it, and its answer leads to the next point. `Transaction.At.step` puts
them together, and nothing above unfolds a callback.
-/

namespace LeaveLedger

open Js Lib

/-- A step within the transaction. -/
def Transaction.Goes (env : Env) (t : Transaction) (w : World) (c : Call) (p : Point) : Prop :=
  ∃ w' t' p', t.step w = some (w', .tx t', false) ∧ At env c p' t'.rest t'.undo t'.loaded
    ∧ t'.resume = t.resume ∧ PointStep env w c p w' p'

section steps
variable {env : Env} {w : World} {s : Settlement} {id : Id} {dto : CreateTimeOffRequestDto}
  {k : String} {resume : Except Exception TimeOffRequest → Svc SerializedRequest}
  {undo : List Undo} {loaded : Option EmployeeBalance}

theorem goes_finding :
    Transaction.Goes env ⟨s.transaction id, [], none, resume⟩ w (.settle s id) .finding := by
  have hrest : s.transaction id = (Tx.stmt (.findRequest id)).bind fun request =>
      (request.elim (.fail (notFound .requestNotFound
        ("Time-off request " ++ toString id ++ " not found")) : Tx TimeOffRequest) .done).bind
        fun request => (assertValidTransition request.status s.target).bind fun _ =>
          s.afterFind id request := by
    rw [Settlement.transaction_eq]
    unfold settleTransaction getRequestLockedOrThrow
    simp only [Script.bind_eq, Script.bind_assoc]
    refine congrArg _ (funext fun x => ?_)
    cases x <;> rfl
  have hstep := Transaction.step_read (t := ⟨s.transaction id, [], none, resume⟩) (w := w)
    (r := w.db.requests.byPk id) hrest rfl rfl
  cases hrow : w.db.requests.byPk id with
  | none =>
      rw [hrow] at hstep
      exact ⟨_, _, _, hstep, .refused, rfl, .refuse (.inl rfl) (Nat.le_succ _)⟩
  | some r =>
      obtain ⟨hr, hid⟩ := Table.byPk_eq_some.mp hrow
      rw [hrow] at hstep
      by_cases hallowed : s.target ∈ validTransitions r.status
      · have hpending := pending_of_transition hallowed
        have hgo : assertValidTransition r.status s.target = .done () := by
          unfold assertValidTransition
          rw [if_pos hallowed]
          rfl
        simp only [Option.elim_some, Script.bind_done, hgo] at hstep
        exact ⟨_, _, _, hstep, .found hid hpending, rfl, .find hr hid hpending⟩
      · obtain ⟨e, hno⟩ : ∃ e, assertValidTransition r.status s.target = .fail e := by
          unfold assertValidTransition
          rw [if_neg hallowed]
          exact ⟨_, rfl⟩
        simp only [Option.elim_some, Script.bind_done, hno, Script.bind_fail] at hstep
        exact ⟨_, _, _, hstep, .refused, rfl, .refuse (.inl rfl) (Nat.le_succ _)⟩

theorem goes_found {r : TimeOffRequest} (hid : r.id = id) (hpending : r.status = .pending) :
    Transaction.Goes env ⟨s.afterFind id r, [], none, resume⟩ w (.settle s id) (.found r) :=
  ⟨_, _, _, Transaction.step_now rfl, .marking hid hpending, rfl, .look⟩

theorem goes_marking {r : TimeOffRequest} {now : ℤ} (hid : r.id = id)
    (hund : Transaction.Undisturbed w.db ⟨(Tx.stmt (.saveRequest (s.mark now r))).bind
      (s.afterMark id), [], none, resume⟩) :
    Transaction.Goes env ⟨(Tx.stmt (.saveRequest (s.mark now r))).bind (s.afterMark id), [], none,
      resume⟩ w (.settle s id) (.marking r now) := by
  obtain ⟨r₀, hr₀, hid₀, hpending₀⟩ : ∃ r₀ ∈ w.db.requests.rows,
      r₀.id = (s.mark now r).id ∧ r₀.status = .pending := hund
  have hstep := Transaction.step_stmt (t := ⟨(Tx.stmt (.saveRequest (s.mark now r))).bind
    (s.afterMark id), [], none, resume⟩) (w := w) rfl
  obtain ⟨⟨r', db'⟩, hexec⟩ : ∃ x, (Stmt.saveRequest (s.mark now r)).exec w.stamp w.db = .ok x := by
    have hrow : w.db.requests.byPk (s.mark now r).id = some r₀ :=
      Table.byPk_eq_some.mpr ⟨hr₀, hid₀⟩
    simp only [Stmt.exec, hrow]
    exact ⟨_, rfl⟩
  obtain ⟨hrow, hrep, hbal, hrec⟩ := Stmt.exec_saveRequest hr₀ hid₀.symm hexec
  rw [hexec] at hstep
  refine ⟨_, _, _, hstep, .marked ?_, rfl, .mark hid (hid₀.trans (s.mark_id now r)) hpending₀ hrow
    hrep hbal hrec⟩
  rw [hrow]
  exact s.mark_status now r

/-- `moveDays` loads the row, and saves it when the days are pending. -/
theorem Settlement.moveDays_eq (s : Settlement) (employeeId locationId : String)
    (leaveType : LeaveType) (d : ℚ) :
    ∃ f, s.moveDays employeeId locationId leaveType d
        = (Tx.stmt (.findBalance employeeId locationId leaveType)).bind f
      ∧ ∀ b : EmployeeBalance, d ≤ b.pendingBalance →
        f (some b) = Tx.stmt (.saveBalance (s.moved b d)) := by
  cases s <;> exact ⟨_, rfl, fun b hle => if_neg (not_lt.mpr hle)⟩

theorem goes_marked {r : TimeOffRequest} (hstatus : r.status = s.target)
    (hready : Point.Ready w (.settle s id) (.marked r)) :
    Transaction.Goes env ⟨s.afterMark id r, undo, loaded, resume⟩ w (.settle s id) (.marked r) := by
  obtain ⟨b, hb, hkey, henough⟩ := hready
  have hrow : w.db.balances.byUk (r.employeeId, r.locationId, r.leaveType) = some b :=
    Table.byUk_eq_some.mpr ⟨hb, hkey⟩
  obtain ⟨f, hmove, hf⟩ := s.moveDays_eq r.employeeId r.locationId r.leaveType r.daysRequested
  have hrest : s.afterMark id r
      = (Tx.stmt (.findBalance r.employeeId r.locationId r.leaveType)).bind fun row =>
          (f row).bind fun _ => s.afterMove id r := by
    unfold Settlement.afterMark
    rw [hmove, Script.bind_assoc]
  have hstep := Transaction.step_read (t := ⟨s.afterMark id r, undo, loaded, resume⟩) (w := w)
    (r := w.db.balances.byUk (r.employeeId, r.locationId, r.leaveType)) hrest rfl rfl
  rw [hrow, hf b henough] at hstep
  exact ⟨_, _, _, hstep, .moving hstatus hkey, rfl, .load hb hkey⟩

theorem goes_moving {r : TimeOffRequest} {b : EmployeeBalance} (hkey : b.key = r.balanceKey)
    (hund : Transaction.Undisturbed w.db ⟨(Tx.stmt (.saveBalance (s.moved b r.daysRequested))).bind
      fun _ => s.afterMove id r, undo, some b, resume⟩) :
    Transaction.Goes env ⟨(Tx.stmt (.saveBalance (s.moved b r.daysRequested))).bind
      fun _ => s.afterMove id r, undo, some b, resume⟩ w (.settle s id) (.moving r b) := by
  obtain ⟨b₀, hb₀, hid, hsame⟩ : ∃ b₀ ∈ w.db.balances.rows,
      b₀.id = (s.moved b r.daysRequested).id ∧ some b.account = some b₀.account := hund
  have hid' : b₀.id = b.id := hid.trans (s.moved_id b _)
  obtain ⟨⟨b', db'⟩, hexec⟩ : ∃ x,
      (Stmt.saveBalance (s.moved b r.daysRequested)).exec w.stamp w.db = .ok x := by
    have hrow : w.db.balances.byPk (s.moved b r.daysRequested).id = some b₀ :=
      Table.byPk_eq_some.mpr ⟨hb₀, hid⟩
    simp only [Stmt.exec, hrow]
    exact ⟨_, rfl⟩
  obtain ⟨hrow, hrep, hreq, hrec⟩ := Stmt.exec_saveBalance hb₀ hid.symm hexec
  have haccount : b'.account = s.op b₀.account r.daysRequested := by
    rw [hrow, ← Option.some.inj hsame, ← s.moved_account]
    rfl
  have hstep := Transaction.step_stmt (t := ⟨(Tx.stmt (.saveBalance
    (s.moved b r.daysRequested))).bind fun _ => s.afterMove id r, undo, some b, resume⟩)
    (w := w) rfl
  rw [hexec] at hstep
  cases s with
  | approve a =>
      exact ⟨_, _, _, hstep, .scheduling, rfl, .move hid' hkey haccount hrep hreq hrec (.inl rfl)⟩
  | reject a reason =>
      exact ⟨_, _, _, hstep, .settled, rfl, .move hid' hkey haccount hrep hreq hrec (.inr rfl)⟩
  | cancel reason =>
      exact ⟨_, _, _, hstep, .settled, rfl, .move hid' hkey haccount hrep hreq hrec (.inr rfl)⟩

theorem goes_scheduling {r : TimeOffRequest} {c : Callback} :
    Transaction.Goes env ⟨(Tx.setImmediate c).bind fun _ => .done r, undo, loaded, resume⟩ w
      (.settle s id) (.scheduling r) :=
  ⟨_, _, _, Transaction.step_setImmediate rfl, .settled, rfl, .schedule⟩

theorem goes_listing :
    Transaction.Goes env ⟨createBody env dto k, [], none, resume⟩ w (.create dto k) .listing := by
  have hrest : createBody env dto k
      = (Tx.stmt (.findBalanceIds dto.employeeId dto.locationId)).bind fun _ =>
          afterListing env dto k := by
    unfold createBody createTransaction lockEmployeeBalances
    simp only [Script.bind_eq, Script.bind_assoc]
    rfl
  exact ⟨_, _, _, Transaction.step_read hrest rfl rfl, .checking, rfl, .list⟩

/-- The check of the overlaps goes through, or throws. -/
theorem assertNoneOverlaps_cases (startDate endDate : String) (l : List TimeOffRequest) :
    (assertNoneOverlaps startDate endDate l = .done ()
      ∧ ∀ x ∈ l, datesOverlap startDate endDate x.startDate x.endDate = false)
    ∨ ∃ e, assertNoneOverlaps startDate endDate l = .fail e := by
  induction l with
  | nil => exact .inl ⟨rfl, fun _ hx => by cases hx⟩
  | cons x rest ih =>
      unfold assertNoneOverlaps
      split
      case isTrue => exact .inr ⟨_, rfl⟩
      case isFalse hno =>
        rcases ih with ⟨hdone, hfree⟩ | hfail
        · refine .inl ⟨hdone, fun y hy => ?_⟩
          rcases List.mem_cons.mp hy with rfl | hy
          · exact Bool.eq_false_iff.mpr hno
          · exact hfree y hy
        · exact .inr hfail

theorem goes_checking :
    Transaction.Goes env ⟨afterListing env dto k, [], none, resume⟩ w (.create dto k)
      .checking := by
  have hrest : afterListing env dto k
      = (Tx.stmt (.findActiveRequests dto.employeeId dto.locationId)).bind fun active =>
          (assertNoneOverlaps dto.startDate dto.endDate active).bind fun _ =>
            afterOverlap env dto k := by
    unfold afterListing assertNoOverlap
    simp only [Script.bind_eq, Script.bind_assoc]
  have hstep := Transaction.step_read (t := ⟨afterListing env dto k, [], none, resume⟩) (w := w)
    hrest rfl rfl
  rcases assertNoneOverlaps_cases dto.startDate dto.endDate (w.db.requests.rows.filter fun r =>
      r.employeeId = dto.employeeId ∧ r.locationId = dto.locationId ∧ r.isActive) with
    ⟨hdone, hfree⟩ | ⟨e, hfail⟩
  · simp only [hdone, Script.bind_done] at hstep
    refine ⟨_, _, _, hstep, .booking, rfl, .check fun x hx hemp hloc hact => ?_⟩
    exact hfree x (List.mem_filter.mpr ⟨hx, decide_eq_true ⟨hemp, hloc, hact⟩⟩)
  · simp only [hfail, Script.bind_fail] at hstep
    exact ⟨_, _, _, hstep, .refused, rfl, .refuse (.inr (.inl rfl)) (Nat.le_succ _)⟩

/-- `atomicDeduct` loads the row, and saves it when the days are available. -/
theorem atomicDeduct_eq (employeeId locationId : String) (leaveType : LeaveType)
    (days : Option ℚ) :
    ∃ f, atomicDeduct employeeId locationId leaveType days
        = (Tx.stmt (.findBalance employeeId locationId leaveType)).bind f
      ∧ (∀ b d, days = some d → d ≤ b.availableBalance →
        f (some b) = Tx.stmt (.saveBalance (deducted b d)))
      ∧ ∀ row, (∃ e, f row = .fail e)
        ∨ ∃ b d, row = some b ∧ days = some d ∧ d ≤ b.availableBalance := by
  refine ⟨_, rfl, fun b d hd hle => ?_, fun row => ?_⟩
  · subst hd
    simp only [if_neg (not_lt.mpr hle)]
    rfl
  · cases row with
    | none => exact .inl ⟨_, rfl⟩
    | some b =>
        cases days with
        | none => exact .inl ⟨_, rfl⟩
        | some d =>
            by_cases hlt : b.availableBalance < d
            · simp only [if_pos hlt]
              exact .inl ⟨_, rfl⟩
            · exact .inr ⟨b, d, rfl, rfl, not_lt.mp hlt⟩

theorem goes_booking :
    Transaction.Goes env ⟨afterOverlap env dto k, [], none, resume⟩ w (.create dto k)
      .booking := by
  obtain ⟨f, hdeduct, hsave, hf⟩ :=
    atomicDeduct_eq dto.employeeId dto.locationId dto.leaveType (daysOf dto)
  have hrest : afterOverlap env dto k
      = (Tx.stmt (.findBalance dto.employeeId dto.locationId dto.leaveType)).bind fun row =>
          (f row).bind fun _ => (sqlNumber (daysOf dto)).bind
            (afterDeduct env dto k) := by
    unfold afterOverlap
    rw [hdeduct, Script.bind_assoc]
  have hstep := Transaction.step_read (t := ⟨afterOverlap env dto k, [], none, resume⟩) (w := w)
    (r := w.db.balances.byUk (dto.employeeId, dto.locationId, dto.leaveType)) hrest rfl rfl
  rcases hf (w.db.balances.byUk (dto.employeeId, dto.locationId, dto.leaveType)) with
    ⟨e, hfail⟩ | ⟨b, d, hrow, hd, henough⟩
  · rw [hfail] at hstep
    exact ⟨_, _, _, hstep, .refused, rfl, .refuse (.inr (.inr rfl)) (Nat.le_succ _)⟩
  · obtain ⟨hb, hkey⟩ := Table.byUk_eq_some.mp hrow
    rw [hrow, hsave b d hd henough, hd] at hstep
    exact ⟨_, _, _, hstep, .deducting hd hkey henough, rfl, .book hb hd hkey henough⟩

theorem goes_deducting {b : EmployeeBalance} {d : ℚ} (hd : daysOf dto = some d)
    (hkey : b.key = dto.balanceKey) (henough : d ≤ b.availableBalance)
    (hknown : ∃ b₀ ∈ w.db.balances.rows, b₀.id = b.id ∧ b₀.key = b.key)
    (hund : Transaction.Undisturbed w.db ⟨(Tx.stmt (.saveBalance (deducted b d))).bind
      fun _ => afterDeduct env dto k d, [], some b, resume⟩) :
    Transaction.Goes env ⟨(Tx.stmt (.saveBalance (deducted b d))).bind
      fun _ => afterDeduct env dto k d, [], some b, resume⟩ w (.create dto k)
      (.deducting b d) := by
  obtain ⟨b₀, hb₀, hid, hsame⟩ : ∃ b₀ ∈ w.db.balances.rows,
      b₀.id = b.id ∧ some b.account = some b₀.account := hund
  obtain ⟨b₁, hb₁, hid₁, hkey₁⟩ := hknown
  obtain rfl := Table.eq_of_pk hb₁ hb₀ (hid₁.trans hid.symm)
  have hrow : w.db.balances.byPk (deducted b d).id = some b₁ :=
    Table.byPk_eq_some.mpr ⟨hb₁, hid⟩
  obtain ⟨⟨b', db'⟩, hexec⟩ : ∃ x,
      (Stmt.saveBalance (deducted b d)).exec w.stamp w.db = .ok x := by
    simp only [Stmt.exec, hrow]
    exact ⟨_, rfl⟩
  have hid' : (deducted b d).id = b₁.id := hid.symm
  obtain ⟨hb', hrep, hreq, hrec⟩ := Stmt.exec_saveBalance hb₁ hid' hexec
  have haccount : b'.account = b₁.account.reserve d := by
    rw [hb', ← Option.some.inj hsame]
    rfl
  have hav : b₁.availableBalance = b.availableBalance :=
    congrArg Account.available (Option.some.inj hsame).symm
  have hstep := Transaction.step_stmt (t := ⟨(Tx.stmt (.saveBalance (deducted b d))).bind
    fun _ => afterDeduct env dto k d, [], some b, resume⟩) (w := w) rfl
  have hchanged : some b₁ ≠ some b' := by
    rintro heq
    have hless : b'.availableBalance = b₁.availableBalance - d :=
      congrArg Account.available haccount
    rw [Option.some.inj heq] at hless
    linarith [daysOf_pos hd]
  rw [hexec] at hstep
  simp only [Stmt.writes, hrow, if_neg hchanged, List.append_nil] at hstep
  refine ⟨_, _, _, hstep, .inserting hd (hkey₁.trans hkey) hrep.pk_eq haccount, rfl,
    .deduct hd (hkey₁.trans hkey) (hav ▸ henough) haccount hrep hreq hrec⟩

theorem goes_inserting {b b' : EmployeeBalance} {d : ℚ} (hd : daysOf dto = some d)
    (hkey : b.key = dto.balanceKey) (hid : b'.id = b.id)
    (haccount : b'.account = b.account.reserve d) :
    Transaction.Goes env ⟨afterDeduct env dto k d, [.balance b' (some b)], loaded, resume⟩ w
      (.create dto k) (.inserting b b' d) := by
  have hstep := Transaction.step_stmt (t := ⟨afterDeduct env dto k d, [.balance b' (some b)],
    loaded, resume⟩) (w := w) rfl
  cases hexec : (Stmt.insertRequest (newRequest dto k d)).exec w.stamp w.db with
  | error e =>
      rw [hexec] at hstep
      exact ⟨_, _, _, hstep, .undoing hd hkey hid haccount, rfl, .conflict⟩
  | ok x =>
      obtain ⟨r, db'⟩ := x
      obtain ⟨hrow, hadded, hbal, hrec⟩ := Stmt.exec_insertRequest hexec
      rw [hexec] at hstep
      exact ⟨_, _, _, hstep, .noting, rfl, .insert hd hkey hrow hadded hbal hrec⟩

theorem goes_noting {r : TimeOffRequest} :
    Transaction.Goes env ⟨afterInsert env dto k r, undo, loaded, resume⟩ w (.create dto k)
      (.noting r) :=
  ⟨_, _, _, Transaction.step_now rfl, .recording, rfl, .note⟩

theorem goes_recording {r : TimeOffRequest} {now : ℤ}
    (hready : Point.Ready w (.create dto k) (.recording r now)) :
    Transaction.Goes env ⟨(Tx.stmt (.insertRecord (newRecord env dto k (requestHashOf env dto) r
      now))).bind fun _ => .done r, undo, loaded, resume⟩ w (.create dto k) (.recording r now) := by
  have hstep := Transaction.step_stmt (t := ⟨(Tx.stmt (.insertRecord (newRecord env dto k
    (requestHashOf env dto) r now))).bind fun _ => .done r, undo, loaded, resume⟩) (w := w) rfl
  obtain ⟨⟨rec, db'⟩, hexec⟩ : ∃ x, (Stmt.insertRecord (newRecord env dto k
      (requestHashOf env dto) r now)).exec w.stamp w.db = .ok x := by
    have hroom : (w.db.records.insert? ((newRecord env dto k (requestHashOf env dto) r now).toRow
        w.uuid w.clock)).isSome :=
      Table.insert?_isSome_iff.mpr
        ⟨fun rec hrec => (hready rec hrec).1, fun rec hrec => (hready rec hrec).2⟩
    obtain ⟨t, ht⟩ := Option.isSome_iff_exists.mp hroom
    exact ⟨_, by simp only [Stmt.exec, World.stamp, Database.insertRecord, ht]; rfl⟩
  obtain ⟨hrow, hadded, hbal, hreq⟩ := Stmt.exec_insertRecord hexec
  rw [hexec] at hstep
  exact ⟨_, _, _, hstep, .stored, rfl,
    .record (by rw [hrow]; rfl) (by rw [hrow]; rfl) hadded hbal hreq⟩

end steps

/-- The transaction has come to its end. -/
inductive Ends : Call → Point → List Undo → Tx TimeOffRequest → Prop
  | settled {s : Settlement} {id : Id} {r : TimeOffRequest} {undo : List Undo} :
      Ends (.settle s id) (.settled r) undo (.done r)
  | stored {dto : CreateTimeOffRequestDto} {k : String} {r : TimeOffRequest} {undo : List Undo} :
      Ends (.create dto k) (.stored r) undo (.done r)
  | refused {c : Call} {e : Exception} : Ends c (.refused e) [] (.fail e)
  | undoing {dto : CreateTimeOffRequestDto} {k : String} {e : Exception}
      {before after : EmployeeBalance} {d : ℚ} (hd : daysOf dto = some d)
      (hkey : before.key = dto.balanceKey) (hid : after.id = before.id)
      (haccount : after.account = before.account.reserve d) :
      Ends (.create dto k) (.undoing e before after d) [.balance after (some before)] (.fail e)

/-- **One step of a transaction** leads from its point to the next, or ends it. -/
theorem Transaction.At.step {env : Env} {c : Call} {p : Point} {t : Transaction} {w : World}
    (hat : Transaction.At env c p t.rest t.undo t.loaded) (hready : p.Ready w c)
    (hund : t.Undisturbed w.db) : t.Goes env w c p ∨ Ends c p t.undo t.rest := by
  obtain ⟨rest, undo, loaded, resume⟩ := t
  cases hat with
  | refused => exact .inr .refused
  | finding => exact .inl goes_finding
  | found hid hpending => exact .inl (goes_found hid hpending)
  | marking hid => exact .inl (goes_marking hid hund)
  | marked hstatus => exact .inl (goes_marked hstatus hready)
  | moving hstatus hkey => exact .inl (goes_moving hkey hund)
  | scheduling => exact .inl goes_scheduling
  | settled => exact .inr .settled
  | listing => exact .inl goes_listing
  | checking => exact .inl goes_checking
  | booking => exact .inl goes_booking
  | deducting hd hkey henough => exact .inl (goes_deducting hd hkey henough hready hund)
  | inserting hd hkey hid haccount => exact .inl (goes_inserting hd hkey hid haccount)
  | undoing hd hkey hid haccount => exact .inr (.undoing hd hkey hid haccount)
  | noting => exact .inl goes_noting
  | recording => exact .inl (goes_recording hready)
  | stored => exact .inr .stored

end LeaveLedger
