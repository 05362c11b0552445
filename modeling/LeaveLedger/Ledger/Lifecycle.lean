import LeaveLedger.Ledger.Calls

/-!
# Ledger — The lifecycle of requests

Create, approve, reject and cancel, each run to its end before the next,
with the clock moving in between. `lifecycleStep_keeps` is the one
induction over their programs: what a committed create and a committed
settlement keep, every lifecycle operation keeps.
-/

namespace LeaveLedger

open Js Lib

/-- The operations on requests; `settle` is approve, reject or cancel. -/
inductive LifecycleOp where
  | createRequest (dto : CreateTimeOffRequestDto) (idempotencyKey : String)
  | settle (s : Settlement) (requestId : Id)
  | tick (ms : ℕ)

/-- One operation, run to its end with the given fates of its transactions. -/
def lifecycleStep (env : Env) (w : World) : LifecycleOp × List Fate → Option World
  | (.createRequest dto k, fates) => ((createRequest env dto k).alone fates w).map Prod.snd
  | (.settle s id, fates) => ((s.request id).alone fates w).map Prod.snd
  | (.tick ms, _) => some { w with clock := w.clock + ms }

/-- A payload for runs that are evaluated: two days of vacation in 2030. -/
def sampleDto : CreateTimeOffRequestDto where
  employeeId := "EMP001"
  locationId := "LOC-NYC"
  leaveType := .vacation
  startDate := "2030-01-07"
  endDate := "2030-01-08"
  notes := none

variable {env : Env}

/-- What one step of a settlement does, alone or among others. -/
theorem settleStep {s : Settlement} {requestId : Id} {fate : Fate} {o : SvcOp}
    {r : SvcSig.Res o} {w w' : World} (ho : o = .transaction (s.transaction requestId))
    (h : execSvc fate o w = some (r, w')) :
    w'.clock = w.clock
      ∧ (w'.db = w.db ∨ ∃ req req' b b', Settled s requestId w w' req req' b b') := by
  subst ho
  obtain ⟨hs, ⟨req', -, -, hret⟩ | ⟨e, -, hdb⟩⟩ := execTransaction_cases h
  · obtain ⟨req, b, b', hset⟩ := transaction_returns hret
    exact ⟨hs.clock, Or.inr ⟨req, req', b, b', hset⟩⟩
  · exact ⟨hs.clock, Or.inl hdb⟩

/-- What a committed create keeps, a call of `createRequest` keeps. -/
theorem createRequest_keeps {J : Database → Prop} {dto : CreateTimeOffRequestDto} {k : String}
    {w w' : World} {fates : List Fate} {res : Except Exception SerializedRequest}
    (hcreate : ∀ {w w' d b b' r rec}, daysOf dto = some d →
      Created env dto k (requestHashOf env dto) w w' d b b' r rec → J w.db → J w'.db)
    (hrun : (createRequest env dto k).alone fates w = some (res, w')) (h : J w.db) : J w'.db := by
  refine Svc.alone_keeps (I := fun w => J w.db) ?_ createRequest_asks h hrun
  intro fate o r w w' ho hI hexec
  rcases (createStep ho hexec).2 with hdb | ⟨d, b, b', req, rec, hd, -, -, -, hc⟩
  · exact hdb ▸ hI
  · exact hcreate hd hc hI

/-- **The lifecycle rule**: a property of the database that a committed create
and a committed settlement keep is kept by every lifecycle operation. -/
theorem lifecycleStep_keeps {J : Database → Prop} {w w' : World} {l : LifecycleOp × List Fate}
    (hcreate : ∀ {dto k w w' d b b' r rec}, daysOf dto = some d →
      Created env dto k (requestHashOf env dto) w w' d b b' r rec → J w.db → J w'.db)
    (hsettle : ∀ {s id w w' r r' b b'}, Settled s id w w' r r' b b' → J w.db → J w'.db)
    (hstep : lifecycleStep env w l = some w') (h : J w.db) : J w'.db := by
  obtain ⟨op, fates⟩ := l
  cases op with
  | createRequest dto k =>
      obtain ⟨⟨res, w₁⟩, hrun, rfl⟩ := Option.map_eq_some_iff.mp hstep
      exact createRequest_keeps (fun hd hc => hcreate hd hc) hrun h
  | settle s id =>
      obtain ⟨⟨res, w₁⟩, hrun, rfl⟩ := Option.map_eq_some_iff.mp hstep
      refine Svc.alone_keeps (I := fun w => J w.db) ?_ (settlement_asks s id) h hrun
      intro fate o r w w' ho hI hexec
      rcases (settleStep ho hexec).2 with hdb | ⟨req, req', b, b', hset⟩
      · exact hdb ▸ hI
      · exact hsettle hset hI
  | tick ms =>
      cases hstep
      exact h

theorem lifecycleStep_inv {env : Env} {w w' : World} {l : LifecycleOp × List Fate}
    (hstep : lifecycleStep env w l = some w') (h : LedgerInv w.db) : LedgerInv w'.db :=
  lifecycleStep_keeps (fun hd hc => hc.ledgerInv (daysOf_pos hd)) (fun hs => hs.ledgerInv) hstep h

/-! ## The operations come to an end -/

/-- The call comes to an end from `s` and leaves the lanes free. -/
def EndsFree {α : Type} (p : Svc α) (s : World × List Fate) : Prop :=
  ∃ res s', p.run execAlone s = some (res, s') ∧ s'.1.createLocks = []

theorem EndsFree.bind {α β : Type} {p : Svc α} {f : α → Svc β} {s : World × List Fate}
    (hp : EndsFree p s) (hf : ∀ a s', s'.1.createLocks = [] → EndsFree (f a) s') :
    EndsFree (p.bind f) s := by
  obtain ⟨res, s', hrun, hfree⟩ := hp
  unfold EndsFree
  rw [Script.run_bind, hrun]
  cases res with
  | error e => exact ⟨.error e, s', rfl, hfree⟩
  | ok a => exact hf a s' hfree

theorem endsFree_of_no_lane {α : Type} {p : Svc α} (hp : p.Asks fun o : SvcOp => o.isLane = false)
    {s : World × List Fate} (hfree : s.1.createLocks = []) : EndsFree p s := by
  obtain ⟨res, s', hrun, hlocks⟩ := run_of_no_lane hp s
  exact ⟨res, s', hrun, hlocks.trans hfree⟩

/-- The lane of a call is released whatever its body does. -/
theorem withCreateLock_endsFree {lockKey : String} {fn : Svc SerializedRequest}
    (hfn : fn.Asks fun o : SvcOp => o.isLane = false) {s : World × List Fate}
    (hfree : s.1.createLocks = []) : EndsFree (withCreateLock lockKey fn) s := by
  obtain ⟨w, fates⟩ := s
  have hfree' : w.createLocks = [] := hfree
  set w₁ : World := { w with
    createLocks := w.createLocks ++ [(lockKey, w.nextTicket)], nextTicket := w.nextTicket + 1 }
    with hw₁
  have hhead : w₁.laneHead lockKey = some w.nextTicket := by
    simp [hw₁, World.laneHead, hfree']
  have hrun : (withCreateLock lockKey fn).run execAlone (w, fates)
      = (fn.ensure (Svc.releaseCreateLock lockKey w.nextTicket)).run execAlone (w₁, fates) := by
    show Option.bind (execAlone (.awaitCreateLock lockKey w.nextTicket) (w₁, fates)) _ = _
    simp only [execAlone, execSvc, hhead, if_true]
    rfl
  obtain ⟨res, s', hend, hlocks⟩ := run_of_no_lane hfn (w₁, fates)
  have hlocks' : s'.1.createLocks = [(lockKey, w.nextTicket)] := by
    rw [hlocks, hw₁]; simp [hfree']
  refine ⟨res, ({ s'.1 with createLocks := [] }, s'.2), ?_, rfl⟩
  rw [hrun, Script.run_ensure, hend]
  cases res <;> simp [Svc.releaseCreateLock, Script.ask, execAlone, execSvc, hlocks', SvcOp.hasFate]

/-- A call of `createRequest` that finds the lanes free comes to an end, and
leaves them free. -/
theorem createRequest_endsFree {env : Env} {dto : CreateTimeOffRequestDto}
    {idempotencyKey : String} {s : World × List Fate} (hfree : s.1.createLocks = []) :
    EndsFree (createRequest env dto idempotencyKey) s := by
  have hthrow : ∀ e s, s.1.createLocks = [] → EndsFree (.fail e : Svc SerializedRequest) s :=
    fun e s hs => ⟨.error e, s, rfl, hs⟩
  unfold createRequest
  split
  · exact hthrow _ _ hfree
  rename_i hkey
  refine EndsFree.bind ⟨_, _, rfl, hfree⟩ fun now s₁ hfree₁ => ?_
  split
  · exact hthrow _ _ hfree₁
  split
  · exact hthrow _ _ hfree₁
  rename_i hends
  have hvalid : ValidInput dto idempotencyKey := ⟨hkey, Bool.eq_false_iff.mpr hends⟩
  have hcheck : (checkIdempotency idempotencyKey dto.employeeId (requestHashOf env dto)).Asks
      (CreateBodyAsks env dto idempotencyKey) := checkIdempotency_asks
  refine EndsFree.bind (endsFree_of_no_lane (hcheck.mono fun _ h => h.2) hfree₁)
    fun check s₂ hfree₂ => ?_
  cases check with
  | some body => exact ⟨.ok body, s₂, rfl, hfree₂⟩
  | none => exact withCreateLock_endsFree ((createLocked_asks hvalid).mono fun _ h => h.2) hfree₂

theorem EndsFree.alone {α : Type} {p : Svc α} {w : World} {fates : List Fate}
    (h : EndsFree p (w, fates)) :
    ∃ w', (p.alone fates w).map Prod.snd = some w' ∧ w'.createLocks = [] := by
  obtain ⟨res, s', hrun, hfree⟩ := h
  refine ⟨s'.1, ?_, hfree⟩
  rw [Svc.alone, hrun]
  rfl

/-- A lifecycle operation comes to an end when the lanes are free, and frees
them. -/
theorem lifecycleStep_ends (env : Env) {w : World} (hfree : w.createLocks = [])
    (l : LifecycleOp × List Fate) :
    ∃ w', lifecycleStep env w l = some w' ∧ w'.createLocks = [] := by
  obtain ⟨op, fates⟩ := l
  cases op with
  | createRequest dto k => exact (createRequest_endsFree hfree).alone
  | settle s id =>
      refine (endsFree_of_no_lane ((settlement_asks s id).mono ?_) hfree).alone
      rintro o rfl
      rfl
  | tick ms => exact ⟨_, rfl, hfree⟩

end LeaveLedger
