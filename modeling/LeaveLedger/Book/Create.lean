import LeaveLedger.Book.CreateTransaction

/-!
# Book — A create is answered as the book has it

`createRequest` alone, with any fates of its transactions: the checks before
the lane are `LeaveBook.screen`; the attempts come to the verdict of the
book, or every one of them was disturbed; the recovery after a failed
attempt answers with what is stored under the key. Each part is run from a
sound world, and what it leaves is compared with the book.
-/

namespace LeaveLedger

open Js Lib

/-- The tables and the clock are as they were; ids may have been used up. -/
structure Unchanged (w w' : World) : Prop where
  db : w'.db = w.db
  clock : w'.clock = w.clock
  uuid : w.uuid ≤ w'.uuid

namespace Unchanged

variable {w w' w'' : World}

theorem refl (w : World) : Unchanged w w := ⟨rfl, rfl, Nat.le_refl _⟩

theorem trans (h : Unchanged w w') (h' : Unchanged w' w'') : Unchanged w w'' :=
  ⟨h'.db.trans h.db, h'.clock.trans h.clock, h.uuid.trans h'.uuid⟩

theorem book (h : Unchanged w w') : w'.book = w.book := book_of_same h.db h.clock

theorem sound (h : Unchanged w w') (hw : Sound w) : Sound w' := hw.of_same h.db h.uuid

theorem read (w : World) : Unchanged w { w with uuid := w.uuid + 1 } :=
  ⟨rfl, rfl, Nat.le_succ _⟩

end Unchanged

variable {env : Env} {dto : CreateTimeOffRequestDto} {k : String} {w w' : World}
  {fates : List Fate}

/-! ## The attempts -/

/-- How the attempts of a create end from `w`: with a booking, with the refusal of the book,
or, when they were `disturbed`, with contention. -/
inductive CreateEnds (env : Env) (dto : CreateTimeOffRequestDto) (k : String) (w : World)
    (disturbed : Prop) : Except Exception TimeOffRequest → World → Prop where
  | accepted {d : ℚ} {r : TimeOffRequest} {w' : World} (hv : w.book.verdict dto k = .ok d)
      (h : Accepted env dto k d w w' r) : CreateEnds env dto k w disturbed (.ok r) w'
  | turnedDown {refusal : LeaveBook.Refusal} {e : Exception} {w' : World}
      (hv : w.book.verdict dto k = .error refusal) (hraised : refusal.RaisedBy e)
      (h : Unchanged w w') : CreateEnds env dto k w disturbed (.error e) w'
  | contended {t : Transient} {w' : World} (hc : disturbed) (h : Unchanged w w') :
      CreateEnds env dto k w disturbed (.error t.exception) w'

theorem LeaveBook.Refusal.RaisedBy.not_transient {refusal : LeaveBook.Refusal} {e : Exception}
    (h : refusal.RaisedBy e) : isSqliteTransientTxError e = false := by
  cases refusal with
  | because status error => exact h.1
  | notANumber =>
      cases h
      exact notANumber_class.1
  | keyTaken => exact h.1

section
variable {α : Type} {body : Tx α} {a : α} {e : Exception}

/-- A transaction whose body returns commits, or is disturbed and undone. -/
theorem transaction_commits {attempt : Attempt} {w₁ : World} {res : Except Exception α}
    (hrun : body.Returns execTx w a w₁)
    (hexec : execTransaction attempt body w = some (res, w')) :
    (res = .ok a ∧ w' = w₁)
      ∨ attempt ≠ .works ∧ (∃ t : Transient, res = .error t.exception) ∧ Unchanged w w' := by
  have hclock := (execTransaction_cases hexec).1.clock
  have huuid := (execTransaction_ages hexec).uuid
  unfold Script.Returns at hrun
  cases attempt with
  | failsAtBegin t =>
      cases hexec
      exact .inr ⟨by simp, ⟨t, rfl⟩, .refl w⟩
  | works =>
      simp only [execTransaction, hrun, Option.map_some] at hexec
      cases hexec
      exact .inl ⟨rfl, rfl⟩
  | failsAtCommit t =>
      simp only [execTransaction, hrun, Option.map_some] at hexec
      cases hexec
      exact .inr ⟨by simp, ⟨t, rfl⟩, rfl, hclock, huuid⟩

/-- A transaction whose body throws is undone. -/
theorem transaction_throws {attempt : Attempt} {w₁ : World} {res : Except Exception α}
    (hrun : body.Throws execTx w e w₁)
    (hexec : execTransaction attempt body w = some (res, w')) :
    Unchanged w w'
      ∧ (res = .error e ∨ attempt ≠ .works ∧ ∃ t : Transient, res = .error t.exception) := by
  have hclock := (execTransaction_cases hexec).1.clock
  have huuid := (execTransaction_ages hexec).uuid
  unfold Script.Throws at hrun
  cases attempt with
  | failsAtBegin t =>
      cases hexec
      exact ⟨.refl w, .inr ⟨by simp, t, rfl⟩⟩
  | works =>
      simp only [execTransaction, hrun, Option.map_some] at hexec
      cases hexec
      exact ⟨⟨rfl, hclock, huuid⟩, .inl rfl⟩
  | failsAtCommit t =>
      simp only [execTransaction, hrun, Option.map_some] at hexec
      cases hexec
      exact ⟨⟨rfl, hclock, huuid⟩, .inl rfl⟩

end

/-- One attempt. -/
theorem attempt_ends (env : Env) (dto : CreateTimeOffRequestDto) (k : String) (hw : Sound w)
    (attempt : Attempt) :
    ∃ res w', execTransaction attempt (createBody env dto k) w = some (res, w')
      ∧ SameSurroundings w w' ∧ CreateEnds env dto k w (attempt ≠ .works) res w' := by
  obtain ⟨⟨res, w'⟩, hexec⟩ :=
    Option.isSome_iff_exists.mp (execTransaction_isSome attempt (createBody env dto k) w)
  refine ⟨res, w', hexec, (execTransaction_cases hexec).1, ?_⟩
  cases hv : w.book.verdict dto k with
  | ok d =>
      obtain ⟨r, w₁, hrun, haccepted⟩ := create_accepted env hw hv
      rcases transaction_commits hrun hexec with ⟨rfl, rfl⟩ | ⟨hne, ⟨t, rfl⟩, hsame⟩
      · exact .accepted hv haccepted
      · exact .contended hne hsame
  | error refusal =>
      obtain ⟨e, w₁, hraised, hrun⟩ :=
        create_turnedDown env (requestHashOf env dto) hw hv
      obtain ⟨hsame, rfl | ⟨hne, t, rfl⟩⟩ := transaction_throws hrun hexec
      · exact .turnedDown hv hraised hsame
      · exact .contended hne hsame

/-- What an end from a later world, unchanged since, is from the earlier one. -/
theorem CreateEnds.of_unchanged {w₁ : World} {P Q : Prop} {res : Except Exception TimeOffRequest}
    (hsame : Unchanged w w₁) (hPQ : P → Q) (h : CreateEnds env dto k w₁ P res w') :
    CreateEnds env dto k w Q res w' := by
  cases h with
  | accepted hv ha =>
      rw [hsame.book] at hv
      refine .accepted hv ⟨ha.booking, ?_, ha.sound, ?_⟩
      · rw [← hsame.book]
        exact ha.unused
      · rw [← hsame.book]
        exact ha.book
  | turnedDown hv hraised h =>
      rw [hsame.book] at hv
      exact .turnedDown hv hraised (hsame.trans h)
  | contended hc h => exact .contended (hPQ hc) (hsame.trans h)

theorem contended_succ {n : ℕ} (h : (fates.headD {}).attempt ≠ .works)
    (hrest : Contended n fates.tail) : Contended (n + 1) fates := by
  intro i hi
  cases i with
  | zero =>
      cases fates with
      | nil => exact h
      | cons f fates => exact h
  | succ i =>
      have hi' := hrest i (by omega)
      cases fates with
      | nil => exact hi'
      | cons f fates => exact hi'

/-- A transaction of a call alone, attempted once. -/
theorem run_transaction {body : Tx TimeOffRequest} {res : Except Exception TimeOffRequest}
    (h : execTransaction (fates.headD {}).attempt body w = some (res, w')) :
    (Svc.transaction body).run execAlone (w, fates) = some (res, w', fates.tail) := by
  show Option.bind (execAlone (.transaction body) (w, fates))
    (fun x => (orThrow x.1 : Svc TimeOffRequest).run execAlone x.2) = _
  simp only [execAlone, execSvc, SvcOp.hasFate, h]
  cases res <;> rfl

/-- **All attempts of a create** end with the verdict of the book, unless every one was
disturbed. -/
theorem attempts_end (env : Env) (dto : CreateTimeOffRequestDto) (k : String) (n : ℕ) (hw : Sound w)
    (left : ℕ) (fates : List Fate) :
    ∃ res w' fates', (runCreateTransaction (Svc.transaction (createBody env dto k)) n left).run
        execAlone (w, fates) = some (res, w', fates')
      ∧ SameSurroundings w w' ∧ CreateEnds env dto k w (Contended (left + 1) fates) res w' := by
  induction left generalizing w fates with
  | zero =>
      obtain ⟨res, w', hexec, hsame, hends⟩ := attempt_ends env dto k hw (fates.headD {}).attempt
      refine ⟨res, w', fates.tail, run_transaction hexec, hsame, ?_⟩
      refine hends.of_unchanged (.refl w) fun h => contended_succ h ?_
      intro i hi
      omega
  | succ left ih =>
      obtain ⟨res, w₁, hexec, hsame, hends⟩ := attempt_ends env dto k hw (fates.headD {}).attempt
      unfold runCreateTransaction
      rw [Script.tryCatch_eq, Script.run_attempt, run_transaction hexec, Option.bind_some]
      cases hends with
      | accepted hv h => exact ⟨_, _, _, rfl, hsame, .accepted hv h⟩
      | @turnedDown _ e _ hv hraised h =>
          refine ⟨.error e, w₁, fates.tail, ?_, hsame, .turnedDown hv hraised h⟩
          simp only [hraised.not_transient]
          rfl
      | @contended t _ hc h =>
          obtain ⟨res, w', fates', hrun, hsame', hends⟩ := ih (h.sound hw) fates.tail
          refine ⟨res, w', fates', ?_, hsame.trans hsame', ?_⟩
          · simp only [t.exception_class.1]
            exact hrun
          · exact hends.of_unchanged h fun hrest => contended_succ hc hrest

/-! ## The idempotency check -/

/-- What the check answers. -/
def idempotencyAnswer (w : World) (k hash : String) : Except Exception (Option SerializedRequest) :=
  match w.db.records.byUk k with
  | none => .ok none
  | some rec =>
      if rec.expiresAt < w.clock then .ok none
      else if rec.requestHash ≠ hash then
        .error (conflict .idempotencyConflict
          ("Idempotency key has already been used for a different request payload. "
            ++ "Use a new idempotency key for a new request."))
      else .ok (some rec.responseBody)

theorem checkIdempotency_alone (k e hash : String) (w : World) (fates : List Fate) :
    (checkIdempotency k e hash).run execAlone (w, fates)
      = some (idempotencyAnswer w k hash, { w with uuid := w.uuid + 1 }, fates) := by
  have hexec : (Stmt.findRecord k).exec w.stamp w.db = .ok (w.db.records.byUk k, w.db) := rfl
  unfold checkIdempotency idempotencyAnswer
  rw [Script.bind_eq, run_alone_stmt, hexec]
  cases w.db.records.byUk k with
  | none => rfl
  | some rec =>
      show (if rec.expiresAt < w.clock then _ else _ : Svc (Option SerializedRequest)).run execAlone
        _ = _
      by_cases hlate : rec.expiresAt < w.clock
      · rw [if_pos hlate]
        simp only [if_pos hlate]
        rfl
      · rw [if_neg hlate]
        simp only [if_neg hlate]
        by_cases hhash : rec.requestHash ≠ hash
        · rw [if_pos hhash]
          simp only [if_pos hhash]
          rfl
        · rw [if_neg hhash]
          simp only [if_neg hhash]
          rfl

theorem idempotencyAnswer_unchanged (h : Unchanged w w') (k hash : String) :
    idempotencyAnswer w' k hash = idempotencyAnswer w k hash := by
  unfold idempotencyAnswer
  rw [h.db, h.clock]

/-- The recovery after a failed attempt, when the check knows nothing. -/
theorem recoverAfterConstraint_alone {hash : String} (hnone : idempotencyAnswer w k hash = .ok none)
    (e : String) (fates : List Fate) :
    (recoverAfterConstraint k e hash).run execAlone (w, fates)
      = some (.ok ((w.db.requests.byUk k).map serializeRequest),
        { w with uuid := w.uuid + 2 }, fates) := by
  unfold recoverAfterConstraint
  rw [Script.bind_eq, Script.run_bind, checkIdempotency_alone, hnone]
  show ((Svc.stmt (.findRequestByKey k)).bind _).run execAlone
    ({ w with uuid := w.uuid + 1 }, fates) = _
  rw [run_alone_stmt]
  have hexec : (Stmt.findRequestByKey k).exec { w with uuid := w.uuid + 1 }.stamp w.db
      = .ok (w.db.requests.byUk k, w.db) := rfl
  rw [hexec]
  cases w.db.requests.byUk k <;> rfl

/-! ## Under the lane -/

/-- What a caller learns of the result of a create. -/
def createReply (res : Except Exception SerializedRequest) : Reply :=
  replyOf (fun body => .booked body.booking) res

/-- The recovery answers with what the key retrieves, or throws `e`. -/
theorem recoverTransient_alone {e : Exception} {hash : String}
    (hnone : idempotencyAnswer w k hash = .ok none) (employeeId : String) (fates : List Fate) :
    ∃ res w', (recoverTransient k employeeId hash e).run execAlone (w, fates)
        = some (res, w', fates)
      ∧ Unchanged w w' ∧ w'.createLocks = w.createLocks
      ∧ createReply res = if isSqliteTransientTxError e then
          w.book.retrieve k (.refused 409 .balanceConflict) else createReply (.error e) := by
  unfold recoverTransient
  by_cases htransient : isSqliteTransientTxError e = true
  · rw [if_pos htransient, if_pos htransient, Script.bind_eq, Script.run_bind,
      recoverAfterConstraint_alone hnone, Option.bind_some, book_retrieve]
    cases w.db.requests.byUk k with
    | none => exact ⟨_, _, rfl, ⟨rfl, rfl, Nat.le_add_right _ 2⟩, rfl, rfl⟩
    | some r => exact ⟨_, _, rfl, ⟨rfl, rfl, Nat.le_add_right _ 2⟩, rfl, rfl⟩
  · rw [if_neg htransient, if_neg htransient]
    exact ⟨_, _, rfl, .refl w, rfl, rfl⟩

/-- What the recovery makes of a create that was turned down. -/
theorem recover_turnedDown {e : Exception} {hash : String} {refusal : LeaveBook.Refusal}
    (hnone : idempotencyAnswer w k hash = .ok none) (hraised : refusal.RaisedBy e)
    (employeeId : String) (fates : List Fate) :
    ∃ res w', (recoverCreate k employeeId hash e).run execAlone (w, fates) = some (res, w', fates)
      ∧ Unchanged w w' ∧ w'.createLocks = w.createLocks
      ∧ createReply res = w.book.refuse k refusal := by
  have hthrows : ∀ w₁ : World, (recoverTransient k employeeId hash e).run execAlone (w₁, fates)
      = some (.error e, w₁, fates) := by
    intro w₁
    unfold recoverTransient
    rw [hraised.not_transient]
    rfl
  unfold recoverCreate
  cases refusal with
  | because status error =>
      obtain ⟨-, message, details, rfl⟩ := hraised
      rw [if_neg (by simp [isSqliteConstraintError]), hthrows]
      exact ⟨_, _, rfl, .refl w, rfl, rfl⟩
  | notANumber =>
      cases hraised
      rw [if_neg (by simp [notANumber_class.2]), hthrows]
      exact ⟨_, _, rfl, .refl w, rfl, rfl⟩
  | keyTaken =>
      obtain ⟨-, message, rfl⟩ := hraised
      rw [if_pos (isSqliteConstraintError_constraintError message), Script.bind_eq, Script.run_bind,
        recoverAfterConstraint_alone hnone, Option.bind_some, LeaveBook.refuse, book_retrieve]
      cases w.db.requests.byUk k with
      | none =>
          show ∃ res w', (recoverTransient k employeeId hash _).run execAlone _ = _ ∧ _
          rw [hthrows]
          exact ⟨_, _, rfl, ⟨rfl, rfl, Nat.le_add_right _ 2⟩, rfl, rfl⟩
      | some r => exact ⟨_, _, rfl, ⟨rfl, rfl, Nat.le_add_right _ 2⟩, rfl, rfl⟩

/-- And of one that was contended. -/
theorem recover_contended {hash : String} (hnone : idempotencyAnswer w k hash = .ok none)
    (t : Transient) (employeeId : String) (fates : List Fate) :
    ∃ res w', (recoverCreate k employeeId hash t.exception).run execAlone (w, fates)
        = some (res, w', fates)
      ∧ Unchanged w w' ∧ w'.createLocks = w.createLocks
      ∧ createReply res = w.book.retrieve k (.refused 409 .balanceConflict) := by
  obtain ⟨htransient, hconstraint⟩ := t.exception_class
  obtain ⟨res, w', hrun, hsame, hlocks, hreply⟩ :=
    recoverTransient_alone (e := t.exception) hnone employeeId fates
  unfold recoverCreate
  rw [if_neg (by simp [hconstraint])]
  rw [if_pos htransient] at hreply
  exact ⟨res, w', hrun, hsame, hlocks, hreply⟩

/-- A create whose answer the book admits. -/
structure CreateAnswered (env : Env) (dto : CreateTimeOffRequestDto) (k : String)
    (fates : List Fate) (w : World) (res : Except Exception SerializedRequest) (w' : World) :
    Prop where
  sound : Sound w'
  answers : w.book.Answers env (.createRequest dto k, fates) (createReply res) w'.book

/-- **Under the lane**, when the key is known to be new, a create comes to an answer of the
book. -/
theorem createLocked_answered (hw : Sound w) (hscreen : w.book.screen env dto k = none)
    (hnone : idempotencyAnswer w k (requestHashOf env dto) = .ok none) (fates : List Fate) :
    ∃ res w' fates', (createLocked env dto k (requestHashOf env dto) (daysOf dto)).run execAlone
        (w, fates) = some (res, w', fates')
      ∧ w'.createLocks = w.createLocks ∧ CreateAnswered env dto k fates w res w' := by
  have hread := Unchanged.read w
  obtain ⟨res, w₁, fates', hrun, hsame, hends⟩ :=
    attempts_end env dto k 3 (hread.sound hw) 2 fates
  replace hends := hends.of_unchanged hread id
  have hlocks : w₁.createLocks = w.createLocks := hsame.createLocks
  unfold createLocked
  rw [Script.bind_eq, Script.run_bind, checkIdempotency_alone, hnone, Option.bind_some]
  simp only
  rw [Script.tryCatch_eq, Script.run_attempt, Script.bind_eq, Script.run_bind]
  rw [show (runCreateTransactionWithRetry (Svc.transaction (createTransaction env dto k
    (requestHashOf env dto) (daysOf dto)))).run execAlone ({ w with uuid := w.uuid + 1 }, fates)
      = some (res, w₁, fates') from hrun, Option.bind_some]
  cases hends with
  | @accepted d r _ hv h =>
      refine ⟨.ok (serializeRequest r), { w₁ with deferred := w₁.deferred
        ++ [.notifyHcm r.id dto.employeeId dto.locationId dto.leaveType (daysOf dto)] }, fates',
        rfl, hlocks, h.sound.of_same rfl (Nat.le_refl _), ?_⟩
      have hans : LeaveBook.Answers env w.book (_, fates) _ _ := .accepted hscreen hv h.unused
      rw [← h.booking, ← h.book] at hans
      exact hans
  | @turnedDown refusal e _ hv hraised h =>
      obtain ⟨res, w', hrec, hsame', hlocks', hreply⟩ := recover_turnedDown
        ((idempotencyAnswer_unchanged h k _).trans hnone) hraised dto.employeeId fates'
      refine ⟨res, w', fates', hrec, hlocks'.trans hlocks, (h.trans hsame').sound hw, ?_⟩
      rw [hreply, h.book, (h.trans hsame').book]
      exact .turnedDown hscreen hv
  | @contended t _ hc h =>
      obtain ⟨res, w', hrec, hsame', hlocks', hreply⟩ := recover_contended
        ((idempotencyAnswer_unchanged h k _).trans hnone) t dto.employeeId fates'
      refine ⟨res, w', fates', hrec, hlocks'.trans hlocks, (h.trans hsame').sound hw, ?_⟩
      rw [hreply, h.book, (h.trans hsame').book]
      exact .createContended hscreen hc

/-! ## The whole call -/

/-- A lane that is free is taken, and given back whatever its holder does. -/
theorem withCreateLock_alone {lockKey : String} {fn : Svc SerializedRequest}
    {res : Except Exception SerializedRequest} {fates' : List Fate} (hfree : w.createLocks = [])
    (hfn : fn.run execAlone ({ w with
        createLocks := [(lockKey, w.nextTicket)], nextTicket := w.nextTicket + 1 }, fates)
      = some (res, w', fates'))
    (hlocks : w'.createLocks = [(lockKey, w.nextTicket)]) :
    (withCreateLock lockKey fn).run execAlone (w, fates)
      = some (res, { w' with createLocks := [] }, fates') := by
  have hhead : World.laneHead { w with
      createLocks := w.createLocks ++ [(lockKey, w.nextTicket)], nextTicket := w.nextTicket + 1 }
      lockKey = some w.nextTicket := by
    simp [World.laneHead, hfree]
  show Option.bind (execAlone (.awaitCreateLock lockKey w.nextTicket) ({ w with
    createLocks := w.createLocks ++ [(lockKey, w.nextTicket)], nextTicket := w.nextTicket + 1 },
    fates)) _ = _
  simp only [execAlone, execSvc, hhead, if_true, Option.map_some, Option.bind_some, SvcOp.hasFate]
  rw [hfree, List.nil_append]
  show (fn.ensure (Svc.releaseCreateLock lockKey w.nextTicket)).run execAlone ({ w with
    createLocks := [(lockKey, w.nextTicket)], nextTicket := w.nextTicket + 1 }, fates) = _
  rw [Script.run_ensure, hfn, Option.bind_some]
  show Option.bind (some (Except.ok (), { w' with
    createLocks := w'.createLocks.filter fun l => l ≠ (lockKey, w.nextTicket) }, fates')) _ = _
  rw [hlocks]
  simp

theorem idempotencyAnswer_error {hash : String} {e : Exception}
    (h : idempotencyAnswer w k hash = .error e) :
    createReply (.error e) = .refused 409 .idempotencyConflict := by
  unfold idempotencyAnswer at h
  split at h
  · cases h
  · split at h
    · cases h
    · split at h
      · cases h
        rfl
      · cases h

/-- What the screen is, once the checks of the input are passed. -/
theorem book_screen (env : Env) (hkey : k ≠ "") (hpast : isNotInPast w.clock dto.startDate = true)
    (hends : endsBeforeStart dto = false) :
    w.book.screen env dto k = match idempotencyAnswer w k (requestHashOf env dto) with
      | .ok none => none
      | .ok (some body) => some (.booked body.booking)
      | .error _ => some (.refused 409 .idempotencyConflict) := by
  unfold LeaveBook.screen idempotencyAnswer
  rw [if_neg hkey, if_neg (by simp [show w.book.clock = w.clock from rfl, hpast]),
    if_neg (by simp [hends]), book_receipts]
  cases w.db.records.byUk k with
  | none => rfl
  | some rec =>
      simp only [Option.map_some, IdempotencyRecord.receipt]
      by_cases hlate : rec.expiresAt < w.clock
      · simp only [show w.book.clock = w.clock from rfl, if_pos hlate]
      · simp only [show w.book.clock = w.clock from rfl, if_neg hlate]
        by_cases hhash : rec.requestHash ≠ requestHashOf env dto
        · simp only [if_pos hhash]
        · simp only [if_neg hhash]

/-- **A create alone** is answered as the book admits. -/
theorem createRequest_answered (env : Env) (dto : CreateTimeOffRequestDto) (k : String)
    (hw : Sound w) (hfree : w.createLocks = []) (fates : List Fate) :
    ∃ res w', (createRequest env dto k).alone fates w = some (res, w')
      ∧ w'.createLocks = [] ∧ CreateAnswered env dto k fates w res w' := by
  -- what the checks before the lane answer
  have hscreened : ∀ {res reply w'}, (createRequest env dto k).run execAlone (w, fates)
      = some (res, w', fates) → Unchanged w w' → w'.createLocks = w.createLocks →
      w.book.screen env dto k = some reply → createReply res = reply →
      ∃ res w', (createRequest env dto k).alone fates w = some (res, w')
        ∧ w'.createLocks = [] ∧ CreateAnswered env dto k fates w res w' := by
    intro res reply w' hrun hsame hlocks hscreen hreply
    refine ⟨res, w', by rw [Svc.alone, hrun]; rfl, hlocks.trans hfree, hsame.sound hw, ?_⟩
    rw [hreply, hsame.book]
    exact .screened hscreen
  by_cases hkey : k = ""
  · have hrun : (createRequest env dto k).run execAlone (w, fates) = some (.error (badRequest
        .missingIdempotencyKey "X-Idempotency-Key header is required for all write operations"),
        w, fates) := by
      unfold createRequest
      rw [if_pos hkey]
      rfl
    refine hscreened hrun (.refl w) rfl ?_ rfl
    unfold LeaveBook.screen
    exact if_pos hkey
  have hstart : (createRequest env dto k).run execAlone (w, fates)
      = (if !isNotInPast w.clock dto.startDate then
            .fail (unprocessable .invalidDateRange "startDate cannot be in the past")
          else if endsBeforeStart dto then
            .fail (unprocessable .invalidDateRange "endDate must be on or after startDate")
          else createValidated env dto k : Svc SerializedRequest).run execAlone (w, fates) := by
    unfold createRequest
    rw [if_neg hkey]
    rfl
  by_cases hpast : isNotInPast w.clock dto.startDate = true
  case neg =>
    rw [if_pos (by simp [hpast])] at hstart
    refine hscreened hstart (.refl w) rfl ?_ rfl
    unfold LeaveBook.screen
    rw [if_neg hkey]
    exact if_pos (by simp [show w.book.clock = w.clock from rfl, hpast])
  by_cases hends : endsBeforeStart dto = true
  case pos =>
    rw [if_neg (by simp [hpast]), if_pos hends] at hstart
    refine hscreened hstart (.refl w) rfl ?_ rfl
    unfold LeaveBook.screen
    rw [if_neg hkey, if_neg (by simp [show w.book.clock = w.clock from rfl, hpast])]
    exact if_pos hends
  rw [if_neg (by simp [hpast]), if_neg hends] at hstart
  have hscreen := book_screen env hkey hpast (Bool.eq_false_iff.mpr hends)
  have hread := Unchanged.read w
  unfold createValidated at hstart
  rw [Script.bind_eq, Script.run_bind, checkIdempotency_alone, Option.bind_some] at hstart
  cases hanswer : idempotencyAnswer w k (requestHashOf env dto) with
  | error e =>
      rw [hanswer] at hstart hscreen
      exact hscreened hstart hread rfl hscreen (idempotencyAnswer_error hanswer)
  | ok found =>
      cases found with
      | some body =>
          rw [hanswer] at hstart hscreen
          exact hscreened hstart hread rfl hscreen rfl
      | none =>
          rw [hanswer] at hstart hscreen
          obtain ⟨res, w', fates', hrun, hlocks, hans⟩ := createLocked_answered
            (w := { w with uuid := w.uuid + 1
                           createLocks := [(dto.employeeId ++ ":" ++ dto.locationId, w.nextTicket)]
                           nextTicket := w.nextTicket + 1 })
            (hw.of_same rfl (Nat.le_succ _)) hscreen hanswer fates
          have hlane := withCreateLock_alone (w := { w with uuid := w.uuid + 1 }) hfree hrun hlocks
          refine ⟨res, { w' with createLocks := [] }, ?_, rfl,
            hans.sound.of_same rfl (Nat.le_refl _), hans.answers⟩
          rw [Svc.alone, hstart]
          show Option.map _ ((withCreateLock _ _).run execAlone _) = _
          rw [hlane]
          rfl

end LeaveLedger
