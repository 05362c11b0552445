import LeaveLedger.Ledger.Invariant
import LeaveLedger.Hcm.HcmSyncService

/-!
# Ledger — The calls of the services

What each call may ask for, whatever it is answered (`createRequest_asks`,
`settlement_asks`), and what a transaction makes of its body. A call can
be interleaved with others or run alone; `execAlone` is the second, with
the fates of its transactions and HTTP requests given in order.
-/

namespace LeaveLedger

open Js Lib

/-! ## What the calls ask for -/

/-- The bookkeeping of the create lanes. -/
def SvcOp.isLane : SvcOp → Bool
  | .enqueueCreateLock _ | .awaitCreateLock _ _ | .releaseCreateLock _ _ => true
  | .stmt _ | .now | .setImmediate _ | .transaction _ | .sleep _ | .http _ => false

/-- The checks on the input that do not depend on the clock. -/
def ValidInput (dto : CreateTimeOffRequestDto) (idempotencyKey : String) : Prop :=
  idempotencyKey ≠ "" ∧ endsBeforeStart dto = false

/-- The requests of `createRequest(dto, key)`: reads, its one transaction when
the input is valid, and the bookkeeping of its lane. -/
def CreateAsks (env : Env) (dto : CreateTimeOffRequestDto) (idempotencyKey : String) :
    SvcOp → Prop
  | .stmt o => o.isRead
  | .transaction body => ValidInput dto idempotencyKey
      ∧ body = createTransaction env dto idempotencyKey (requestHashOf env dto) (daysOf dto)
  | .http _ => False
  | .setImmediate (.notifyApproval _ _) => False
  | .now | .setImmediate (.notifyHcm _ _ _ _ _) | .enqueueCreateLock _ | .awaitCreateLock _ _
  | .releaseCreateLock _ _ | .sleep _ => True

/-- Those it makes while it holds its lane. -/
def CreateBodyAsks (env : Env) (dto : CreateTimeOffRequestDto) (idempotencyKey : String)
    (o : SvcOp) : Prop :=
  CreateAsks env dto idempotencyKey o ∧ o.isLane = false

section create
variable {env : Env} {dto : CreateTimeOffRequestDto} {idempotencyKey : String}

theorem checkIdempotency_asks {k e hash : String} :
    (checkIdempotency k e hash).Asks (CreateBodyAsks env dto idempotencyKey) := by
  refine Script.asks_bind (asks_stmt ⟨rfl, rfl⟩) fun existing => ?_
  cases existing with
  | none => trivial
  | some existing =>
      refine Script.asks_bind (asks_now ⟨trivial, rfl⟩) fun now => ?_
      split
      · trivial
      · split <;> trivial

theorem recoverAfterConstraint_asks {k e hash : String} :
    (recoverAfterConstraint k e hash).Asks (CreateBodyAsks env dto idempotencyKey) := by
  refine Script.asks_bind checkIdempotency_asks fun cached => ?_
  cases cached with
  | some cached => trivial
  | none =>
      refine Script.asks_bind (asks_stmt ⟨rfl, rfl⟩) fun existing => ?_
      cases existing <;> trivial

theorem recoverTransient_asks {k e hash : String} {err : Exception} :
    (recoverTransient k e hash err).Asks (CreateBodyAsks env dto idempotencyKey) := by
  unfold recoverTransient
  split
  · refine Script.asks_bind recoverAfterConstraint_asks fun recovered => ?_
    cases recovered <;> trivial
  · trivial

theorem recoverCreate_asks {k e hash : String} {err : Exception} :
    (recoverCreate k e hash err).Asks (CreateBodyAsks env dto idempotencyKey) := by
  unfold recoverCreate
  split
  · refine Script.asks_bind recoverAfterConstraint_asks fun recovered => ?_
    cases recovered with
    | some body => trivial
    | none => exact recoverTransient_asks
  · exact recoverTransient_asks

theorem runCreateTransaction_asks {runTx : Svc TimeOffRequest} {n : ℕ}
    (h : runTx.Asks (CreateBodyAsks env dto idempotencyKey)) :
    ∀ left, (runCreateTransaction runTx n left).Asks (CreateBodyAsks env dto idempotencyKey)
  | 0 => h
  | left + 1 => by
      refine Script.asks_attempt h fun err => ?_
      split
      · trivial
      · exact ⟨⟨trivial, rfl⟩, fun _ => runCreateTransaction_asks h left⟩

theorem createLocked_asks (hvalid : ValidInput dto idempotencyKey) :
    (createLocked env dto idempotencyKey (requestHashOf env dto) (daysOf dto)).Asks
      (CreateBodyAsks env dto idempotencyKey) := by
  refine Script.asks_bind checkIdempotency_asks fun check => ?_
  cases check with
  | some body => trivial
  | none =>
      refine Script.asks_attempt (Script.asks_bind ?_ fun created => ?_)
        fun err => recoverCreate_asks
      · exact runCreateTransaction_asks (asks_transaction ⟨⟨hvalid, rfl⟩, rfl⟩) 2
      · exact ⟨⟨trivial, rfl⟩, fun _ => trivial⟩

theorem createRequest_asks :
    (createRequest env dto idempotencyKey).Asks (CreateAsks env dto idempotencyKey) := by
  unfold createRequest
  split
  · trivial
  rename_i hkey
  refine Script.asks_bind (asks_now trivial) fun now => ?_
  split
  · trivial
  split
  · trivial
  rename_i hends
  have hvalid : ValidInput dto idempotencyKey := ⟨hkey, Bool.eq_false_iff.mpr hends⟩
  refine Script.asks_bind (checkIdempotency_asks.mono fun _ h => h.1) fun check => ?_
  cases check with
  | some body => trivial
  | none =>
      refine Script.asks_bind ⟨trivial, fun _ => trivial⟩ fun ticket => ?_
      refine Script.asks_bind ⟨trivial, fun _ => trivial⟩ fun _ => ?_
      exact Script.asks_ensure ((createLocked_asks hvalid).mono fun _ h => h.1)
        ⟨trivial, fun _ => trivial⟩

end create

/-- A settlement asks for its transaction and nothing else. -/
theorem settlement_asks (s : Settlement) (requestId : Id) :
    (s.request requestId).Asks fun o => o = SvcOp.transaction (s.transaction requestId) := by
  rw [Settlement.request_eq]
  exact Script.asks_bind (asks_transaction rfl) fun _ => trivial

/-! ## What a transaction makes of its body -/

/-- Everything of the world that no statement, clock reading or scheduling of
a transaction body touches. -/
structure SameSurroundings (w w' : World) : Prop where
  clock : w'.clock = w.clock
  createLocks : w'.createLocks = w.createLocks
  nextTicket : w'.nextTicket = w.nextTicket

theorem SameSurroundings.refl (w : World) : SameSurroundings w w := ⟨rfl, rfl, rfl⟩

theorem SameSurroundings.trans {w w' w'' : World} (h : SameSurroundings w w')
    (h' : SameSurroundings w' w'') : SameSurroundings w w'' :=
  ⟨h'.clock.trans h.clock, h'.createLocks.trans h.createLocks, h'.nextTicket.trans h.nextTicket⟩

/-- A statement touches the database and uses up ids. -/
theorem execTx_stmt {o : Stmt} {r : Except Exception o.Res} {w w' : World}
    (h : execTx (.stmt o) w = some (r, w')) : ∃ db u, w' = { w with db := db, uuid := u } := by
  simp only [execTx, Option.some.injEq] at h
  cases hexec : o.exec w.stamp w.db with
  | error e =>
      rw [hexec] at h
      exact ⟨w.db, w.uuid, (Prod.mk.inj h).2.symm⟩
  | ok x =>
      rw [hexec] at h
      exact ⟨x.2, w.uuid + 1, (Prod.mk.inj h).2.symm⟩

theorem execSvc_stmt {fate : Fate} {o : Stmt} {r : Except Exception o.Res} {w w' : World}
    (h : execSvc fate (.stmt o) w = some (r, w')) : ∃ db u, w' = { w with db := db, uuid := u } :=
  execTx_stmt h

theorem execTx_surroundings {o : TxOp} {r : TxSig.Res o} {w w' : World}
    (h : execTx o w = some (r, w')) : SameSurroundings w w' := by
  cases o with
  | stmt o =>
      obtain ⟨db, u, rfl⟩ := execTx_stmt h
      exact ⟨rfl, rfl, rfl⟩
  | now =>
      cases h
      exact .refl w
  | setImmediate c =>
      cases h
      exact ⟨rfl, rfl, rfl⟩

theorem Tx.run_surroundings {α : Type} (p : Tx α) {w w' : World} {res : Except Exception α}
    (h : p.run execTx w = some (res, w')) : SameSurroundings w w' := by
  induction p generalizing w with
  | done a => cases h; exact .refl _
  | fail e => cases h; exact .refl _
  | await o k ih =>
      obtain ⟨⟨r, w₁⟩, h₁, h₂⟩ := Option.bind_eq_some_iff.mp h
      exact (execTx_surroundings h₁).trans (ih r h₂)

/-- **The transaction rule**: it commits what its body did, or it throws and
the database is as before. -/
theorem execTransaction_cases {α : Type} {attempt : Attempt} {body : Tx α} {w w' : World}
    {res : Except Exception α} (h : execTransaction attempt body w = some (res, w')) :
    SameSurroundings w w'
      ∧ ((∃ a, res = .ok a ∧ attempt = .works ∧ body.Returns execTx w a w')
        ∨ ∃ e, res = .error e ∧ w'.db = w.db) := by
  cases attempt with
  | failsAtBegin x =>
      cases h
      exact ⟨.refl w, Or.inr ⟨_, rfl, rfl⟩⟩
  | works =>
      obtain ⟨⟨r, w₁⟩, hrun, h⟩ := Option.map_eq_some_iff.mp h
      have hs := Tx.run_surroundings body hrun
      cases r with
      | ok a =>
          cases h
          exact ⟨hs, Or.inl ⟨a, rfl, rfl, hrun⟩⟩
      | error e =>
          cases h
          exact ⟨⟨hs.clock, hs.createLocks, hs.nextTicket⟩, Or.inr ⟨e, rfl, rfl⟩⟩
  | failsAtCommit x =>
      obtain ⟨⟨r, w₁⟩, hrun, h⟩ := Option.map_eq_some_iff.mp h
      have hs := Tx.run_surroundings body hrun
      cases r with
      | ok a =>
          cases h
          exact ⟨⟨hs.clock, hs.createLocks, hs.nextTicket⟩, Or.inr ⟨_, rfl, rfl⟩⟩
      | error e =>
          cases h
          exact ⟨⟨hs.clock, hs.createLocks, hs.nextTicket⟩, Or.inr ⟨e, rfl, rfl⟩⟩

/-- A transaction is never stuck. -/
theorem execTransaction_isSome {α : Type} (attempt : Attempt) (body : Tx α) (w : World) :
    (execTransaction attempt body w).isSome := by
  cases attempt <;> simp [execTransaction, Tx.run_isSome]

/-- A statement that only reads leaves the database alone, in and outside a
transaction. -/
theorem execSvc_read {fate : Fate} {o : Stmt} {r : Except Exception o.Res} {w w' : World}
    (ho : o.isRead) (h : execSvc fate (.stmt o) w = some (r, w')) :
    w'.db = w.db ∧ SameSurroundings w w' := by
  simp only [execSvc, Option.some.injEq] at h
  cases hexec : o.exec w.stamp w.db with
  | error e =>
      rw [hexec] at h
      obtain ⟨-, rfl⟩ := Prod.mk.inj h
      exact ⟨rfl, .refl w⟩
  | ok x =>
      rw [hexec] at h
      obtain ⟨-, rfl⟩ := Prod.mk.inj h
      exact ⟨Stmt.exec_read ho hexec, rfl, rfl, rfl⟩

/-- **One step of a create** either leaves the database as it is or is the
commit of its transaction. -/
theorem createStep {env : Env} {dto : CreateTimeOffRequestDto} {idempotencyKey : String}
    {fate : Fate} {o : SvcOp} {r : SvcSig.Res o} {w w' : World}
    (ho : CreateAsks env dto idempotencyKey o) (h : execSvc fate o w = some (r, w')) :
    w'.clock = w.clock ∧ (w'.db = w.db ∨
      ∃ d b b' req rec, daysOf dto = some d ∧ ValidInput dto idempotencyKey
        ∧ HEq r (Except.ok req : Except Exception TimeOffRequest)
        ∧ o = .transaction
          (createTransaction env dto idempotencyKey (requestHashOf env dto) (daysOf dto))
        ∧ Created env dto idempotencyKey (requestHashOf env dto) w w' d b b' req rec) := by
  cases o with
  | stmt o => exact ⟨(execSvc_read ho h).2.clock, Or.inl (execSvc_read ho h).1⟩
  | transaction body =>
      obtain ⟨hvalid, rfl⟩ : ValidInput dto idempotencyKey ∧ body = _ := ho
      obtain ⟨hs, ⟨req, rfl, -, hret⟩ | ⟨e, -, hdb⟩⟩ := execTransaction_cases h
      · obtain ⟨d, b, b', rec, hd, hc⟩ := createTransaction_returns hret
        exact ⟨hs.clock, Or.inr ⟨d, b, b', req, rec, hd, hvalid, HEq.rfl, rfl, hc⟩⟩
      · exact ⟨hs.clock, Or.inl hdb⟩
  | http request => exact ho.elim
  | now => cases h; exact ⟨rfl, Or.inl rfl⟩
  | setImmediate c => cases h; exact ⟨rfl, Or.inl rfl⟩
  | enqueueCreateLock k => cases h; exact ⟨rfl, Or.inl rfl⟩
  | awaitCreateLock k t =>
      simp only [execSvc] at h
      split at h
      · cases h; exact ⟨rfl, Or.inl rfl⟩
      · cases h
  | releaseCreateLock k t => cases h; exact ⟨rfl, Or.inl rfl⟩
  | sleep ms => cases h; exact ⟨rfl, Or.inl rfl⟩

/-- The days of a payload are whole and positive when they are a number. -/
theorem one_le_daysOf {dto : CreateTimeOffRequestDto} {d : ℚ} (h : daysOf dto = some d) :
    1 ≤ d := by
  obtain ⟨n, hn, rfl⟩ := Option.map_eq_some_iff.mp h
  have h1 : 1 ≤ n := calculateDaysRequested_pos hn
  exact_mod_cast h1

theorem daysOf_pos {dto : CreateTimeOffRequestDto} {d : ℚ} (h : daysOf dto = some d) : 0 < d :=
  zero_lt_one.trans_le (one_le_daysOf h)

/-! ## Calls that run alone -/

/-- The requests whose outcome the surroundings decide. -/
def SvcOp.hasFate : SvcOp → Bool
  | .transaction _ | .http _ => true
  | .stmt _ | .now | .setImmediate _ | .enqueueCreateLock _ | .awaitCreateLock _ _
  | .releaseCreateLock _ _ | .sleep _ => false

/-- Answer one request of a call that nothing interrupts. The fates are used up
in order; when they have run out everything works. -/
def execAlone (o : SvcOp) (s : World × List Fate) :
    Option (SvcSig.Res o × World × List Fate) :=
  (execSvc (s.2.headD {}) o s.1).map fun r =>
    (r.1, r.2, if o.hasFate then s.2.tail else s.2)

/-- A call run to its end: its result and the world after it. -/
def Svc.alone {α : Type} (p : Svc α) (fates : List Fate) (w : World) :
    Option (Except Exception α × World) :=
  (p.run execAlone (w, fates)).map fun r => (r.1, r.2.1)

/-- **The rule for calls alone**: what every step the call may ask for keeps,
the call keeps. -/
theorem Svc.alone_keeps {α : Type} {P : SvcOp → Prop} {I : World → Prop}
    (hstep : ∀ fate o r w w', P o → I w → execSvc fate o w = some (r, w') → I w')
    {p : Svc α} (hp : p.Asks P) {fates : List Fate} {w w' : World} {res : Except Exception α}
    (hI : I w) (h : p.alone fates w = some (res, w')) : I w' := by
  obtain ⟨⟨res', w₁, fates'⟩, hrun, h⟩ := Option.map_eq_some_iff.mp h
  obtain ⟨-, rfl⟩ := Prod.mk.inj h
  refine Script.run_keeps (I := fun s : World × List Fate => I s.1) ?_ hp hI hrun
  intro o k s r s' ho hI hexec
  obtain ⟨⟨r', w₂⟩, h₁, h₂⟩ := Option.map_eq_some_iff.mp hexec
  obtain ⟨-, hs⟩ := Prod.mk.inj h₂
  rw [← hs]
  exact hstep _ o r' s.1 w₂ ho hI h₁

/-- A call that is one transaction and a reading of its result. -/
theorem Svc.alone_transaction {α : Type} {body : Tx TimeOffRequest} {f : TimeOffRequest → α}
    {fates : List Fate} {w : World} :
    Svc.alone ((Svc.transaction body).bind fun r => .done (f r)) fates w
      = (execTransaction (fates.headD {}).attempt body w).map fun x => (x.1.map f, x.2) := by
  show Option.map _ (Option.bind (execAlone (.transaction body) (w, fates)) fun x =>
    ((orThrow x.1 : Svc TimeOffRequest).bind fun r => .done (f r)).run execAlone x.2) = _
  simp only [execAlone, execSvc, SvcOp.hasFate]
  cases execTransaction (fates.headD {}).attempt body w with
  | none => rfl
  | some x =>
      obtain ⟨res, w₁⟩ := x
      cases res <;> rfl

/-- A call that asks for no lane is never stuck, and leaves the lanes alone. -/
theorem run_of_no_lane {α : Type} {p : Svc α} (hp : p.Asks fun o : SvcOp => o.isLane = false)
    (s : World × List Fate) :
    ∃ res s', p.run execAlone s = some (res, s') ∧ s'.1.createLocks = s.1.createLocks := by
  induction p generalizing s with
  | done a => exact ⟨.ok a, s, rfl, rfl⟩
  | fail e => exact ⟨.error e, s, rfl, rfl⟩
  | await o k ih =>
      obtain ⟨r, s₁, hexec, hlocks⟩ : ∃ r s₁, execAlone o s = some (r, s₁)
          ∧ s₁.1.createLocks = s.1.createLocks := by
        have hno : o.isLane = false := hp.1
        cases o with
        | stmt o =>
            refine ⟨_, _, rfl, ?_⟩
            simp only
            cases o.exec s.1.stamp s.1.db <;> rfl
        | transaction body =>
            obtain ⟨⟨res, w'⟩, hw⟩ := Option.isSome_iff_exists.mp
              (execTransaction_isSome (s.2.headD {}).attempt body s.1)
            refine ⟨res, (w', s.2.tail), ?_, (execTransaction_cases hw).1.createLocks⟩
            simp only [execAlone, execSvc, hw]
            rfl
        | http request => exact ⟨_, _, rfl, rfl⟩
        | now => exact ⟨_, _, rfl, rfl⟩
        | setImmediate c => exact ⟨_, _, rfl, rfl⟩
        | sleep ms => exact ⟨_, _, rfl, rfl⟩
        | enqueueCreateLock key => simp [SvcOp.isLane] at hno
        | awaitCreateLock key t => simp [SvcOp.isLane] at hno
        | releaseCreateLock key t => simp [SvcOp.isLane] at hno
      obtain ⟨res, s₂, hrun, hlocks'⟩ := ih r (hp.2 r) s₁
      refine ⟨res, s₂, ?_, hlocks'.trans hlocks⟩
      rw [Script.run_await, hexec]
      exact hrun

end LeaveLedger
