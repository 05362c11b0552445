import LeaveLedger.Ledger.Growth

/-!
# Sync — What the write calls schedule

Which callbacks a write call hands to the event loop. An approval schedules
its notifier as the last thing its transaction does, so a transaction that
throws has scheduled nothing; one that fails at its commit has, and its
callback stays. `ledgerStep_keeps` carries a property of the world through
the operations of the ledger.
-/

namespace LeaveLedger

open Js Lib

/-! ## Scheduling inside a transaction -/

def NoSchedule : TxOp → Prop
  | .stmt _ | .now => True
  | .setImmediate _ => False

/-- After a callback is scheduled the body only returns. -/
def LastSchedules {α : Type} : (o : TxOp) → (TxSig.Res o → Tx α) → Prop
  | .setImmediate _, k => ∃ a, k () = .done a
  | .stmt _, _ | .now, _ => True

section
variable {α β : Type} {w w' : World}

theorem Tx.run_error_deferred {p : Tx α} (hp : p.Always LastSchedules) {e : Exception}
    (h : p.run execTx w = some (.error e, w')) : w'.deferred = w.deferred := by
  induction p generalizing w with
  | done a => cases h
  | fail e => cases h; rfl
  | await o k ih =>
      obtain ⟨⟨r, w₁⟩, h₁, h₂⟩ := Option.bind_eq_some_iff.mp h
      cases o with
      | stmt o =>
          obtain ⟨db, u, rfl⟩ := execTx_stmt h₁
          have hrest := ih r (hp.2 r) (w := { w with db := db, uuid := u }) h₂
          exact hrest
      | now => cases h₁; exact ih _ (hp.2 _) h₂
      | setImmediate c =>
          -- the body is over after it, so it does not throw
          obtain ⟨a, ha⟩ := hp.1
          cases h₁
          rw [show k () = .done a from ha] at h₂
          cases h₂

theorem lastSchedules_of_asks {p : Tx α} (h : p.Asks NoSchedule) : p.Always LastSchedules := by
  refine Script.Always.mono (fun o k ho => ?_) h
  cases o with
  | stmt o => trivial
  | now => trivial
  | setImmediate c => exact ho.elim

/-- A part that schedules nothing, before one that schedules last. -/
theorem lastSchedules_bind {p : Tx α} {f : α → Tx β} (hp : p.Asks NoSchedule)
    (hf : ∀ a, (f a).Always LastSchedules) : (p.bind f).Always LastSchedules := by
  refine Script.always_bind (fun o k ho => ?_) hp hf
  cases o with
  | stmt o => trivial
  | now => trivial
  | setImmediate c => exact ho.elim

theorem Tx.stmt_noSchedule (o : Stmt) : (Tx.stmt o).Asks NoSchedule :=
  ⟨trivial, fun r => by cases r <;> trivial⟩

theorem sqlNumber_noSchedule (x : Option ℚ) :
    (sqlNumber x : Tx ℚ).Asks NoSchedule := by
  cases x <;> trivial

theorem movePending_noSchedule {missing underflow wanted e l : String} {t : LeaveType}
    {move : EmployeeBalance → ℚ → EmployeeBalance} {d : ℚ} :
    (movePending missing underflow wanted move e l t d).Asks NoSchedule := by
  refine Script.asks_bind (Tx.stmt_noSchedule _) fun balance => ?_
  cases balance with
  | none => trivial
  | some b =>
      show (if b.pendingBalance < d then _ else _ : Tx EmployeeBalance).Asks NoSchedule
      split
      · trivial
      · exact Tx.stmt_noSchedule _

theorem settle_lastSchedules (s : Settlement) (requestId : Id) :
    (s.transaction requestId).Always LastSchedules := by
  rw [Settlement.transaction_eq]
  refine lastSchedules_bind (Script.asks_bind (Tx.stmt_noSchedule _) fun found => ?_) fun r => ?_
  · cases found <;> trivial
  refine lastSchedules_bind ?_ fun _ => ?_
  · unfold assertValidTransition
    dsimp only
    split <;> trivial
  refine lastSchedules_bind ⟨trivial, fun _ => trivial⟩ fun now => ?_
  refine lastSchedules_bind (Tx.stmt_noSchedule _) fun saved => ?_
  refine lastSchedules_bind ?_ fun _ => ?_
  · cases s <;> exact movePending_noSchedule
  · cases s with
    | approve a => exact ⟨⟨saved, rfl⟩, fun _ => trivial⟩
    | reject a reason => trivial
    | cancel reason => trivial

theorem assertNoneOverlaps_noSchedule {sd ed : String} (l : List TimeOffRequest) :
    (assertNoneOverlaps sd ed l).Asks NoSchedule := by
  induction l with
  | nil => trivial
  | cons r rest ih =>
      unfold assertNoneOverlaps
      split
      · trivial
      · exact ih

theorem atomicDeduct_noSchedule {e l : String} {t : LeaveType} {days : Option ℚ} :
    (atomicDeduct e l t days).Asks NoSchedule := by
  refine Script.asks_bind (Tx.stmt_noSchedule _) fun balance => ?_
  cases balance with
  | none => trivial
  | some b =>
      cases days with
      | none => trivial
      | some d =>
          by_cases hlt : b.availableBalance < d
          · simp only [hlt, if_true]
            trivial
          · simp only [hlt, if_false, Script.bind_eq, Script.pure_eq, Script.bind_done, sqlNumber,
              Option.map_some]
            exact Tx.stmt_noSchedule _

theorem createTransaction_noSchedule {env : Env} {dto : CreateTimeOffRequestDto}
    {k hash : String} {days : Option ℚ} :
    (createTransaction env dto k hash days).Asks NoSchedule := by
  refine Script.asks_bind (Script.asks_bind (Tx.stmt_noSchedule _) fun _ => trivial) fun _ => ?_
  refine Script.asks_bind (Script.asks_bind (Tx.stmt_noSchedule _) fun l =>
    assertNoneOverlaps_noSchedule l) fun _ => ?_
  refine Script.asks_bind atomicDeduct_noSchedule fun _ => ?_
  refine Script.asks_bind (sqlNumber_noSchedule _) fun _ => ?_
  refine Script.asks_bind (Tx.stmt_noSchedule _) fun saved => ?_
  refine Script.asks_bind ⟨trivial, fun _ => trivial⟩ fun now => ?_
  exact Script.asks_bind (Tx.stmt_noSchedule _) fun _ => trivial

end

/-! ## The effect of a write call on the world -/

/-- The callback is about a stored request: the notifier of an approval holds
its row as it was or would have been saved. -/
def Callback.Sound (db : Database) : Callback → Prop
  | .notifyHcm _ _ _ _ _ => True
  | .notifyApproval r' requestId => requestId = r'.id ∧ ∃ r ∈ db.requests.rows, SameRequest r r'

/-- What one request of a write call does to the requests and the callbacks. -/
inductive CallEffect (env : Env) (w w' : World) : Prop where
  | quiet (hreq : w'.db.requests = w.db.requests) (hkeep : w.deferred ⊆ w'.deferred)
      (hnew : ∀ c ∈ w'.deferred, c ∈ w.deferred ∨ c.Sound w.db)
  | created (dto : CreateTimeOffRequestDto) (k : String) (d : ℚ) (b b' : EmployeeBalance)
      (r : TimeOffRequest) (rec : IdempotencyRecord) (hd : 0 < d)
      (h : Created env dto k (requestHashOf env dto) w w' d b b' r rec)
  | settled (s : Settlement) (id : Id) (r r' : TimeOffRequest) (b b' : EmployeeBalance)
      (h : Settled s id w w' r r' b b')

variable {env : Env} {w w' : World}

theorem CallEffect.of_same (hreq : w'.db.requests = w.db.requests)
    (hdef : w'.deferred = w.deferred) : CallEffect env w w' :=
  .quiet hreq (by rw [hdef]; exact List.Subset.refl _) (by rw [hdef]; exact fun c hc => Or.inl hc)

theorem Settled.sound {s : Settlement} {id : Id} {r r' : TimeOffRequest} {b b' : EmployeeBalance}
    (h : Settled s id w w' r r' b b') : ∀ c ∈ s.scheduled r', c.Sound w.db := by
  intro c hc
  cases s with
  | approve a =>
      rw [List.mem_singleton.mp hc]
      exact ⟨rfl, r, h.requests.mem, saveOver_same h.row⟩
  | reject a reason => cases hc
  | cancel reason => cases hc

/-- A transaction that throws, or fails at its commit. -/
theorem quiet_of_rollback {α : Type} {attempt : Attempt} {body : Tx α} {e : Exception}
    (hlast : body.Always LastSchedules)
    (hok : ∀ {a w₁}, body.Returns execTx w a w₁ → w₁.deferred = w.deferred
      ∨ ∃ cs, w₁.deferred = w.deferred ++ cs ∧ ∀ c ∈ cs, c.Sound w.db)
    (h : execTransaction attempt body w = some (.error e, w')) : CallEffect env w w' := by
  cases attempt with
  | failsAtBegin x => cases h; exact .of_same rfl rfl
  | works =>
      obtain ⟨⟨res, w₁⟩, hrun, h⟩ := Option.map_eq_some_iff.mp h
      cases res with
      | ok a => cases h
      | error e' =>
          cases h
          have hdef := Tx.run_error_deferred hlast hrun
          exact .of_same rfl hdef
  | failsAtCommit x =>
      obtain ⟨⟨res, w₁⟩, hrun, h⟩ := Option.map_eq_some_iff.mp h
      cases res with
      | error e' =>
          cases h
          have hdef := Tx.run_error_deferred hlast hrun
          exact .of_same rfl hdef
      | ok a =>
          cases h
          rcases hok hrun with hsame | ⟨cs, happ, hsound⟩
          · exact .of_same rfl hsame
          · refine .quiet rfl (fun c hc => ?_) fun c hc => ?_
            · show c ∈ w₁.deferred
              rw [happ]
              exact List.mem_append_left _ hc
            · have hc' : c ∈ w.deferred ++ cs := happ ▸ hc
              rcases List.mem_append.mp hc' with hold | hnew
              · exact Or.inl hold
              · exact Or.inr (hsound c hnew)

theorem createStep_effect {dto : CreateTimeOffRequestDto} {k : String} {fate : Fate} {o : SvcOp}
    {r : SvcSig.Res o} (ho : CreateAsks env dto k o)
    (h : execSvc fate o w = some (r, w')) : CallEffect env w w' := by
  cases o with
  | stmt o =>
      have hdb := (execSvc_read ho h).1
      obtain ⟨db, u, rfl⟩ := execSvc_stmt h
      exact .of_same (congrArg Database.requests hdb) rfl
  | transaction body =>
      obtain ⟨-, rfl⟩ : ValidInput dto k ∧ body = _ := ho
      rcases (execTransaction_cases h).2 with ⟨req, rfl, -, hret⟩ | ⟨e, rfl, -⟩
      · obtain ⟨d, b, b', rec, hd, hc⟩ := createTransaction_returns hret
        exact .created dto k d b b' req rec (daysOf_pos hd) hc
      · refine quiet_of_rollback (lastSchedules_of_asks createTransaction_noSchedule)
          (fun hret => Or.inl ?_) h
        obtain ⟨d, b, b', rec, hd, hc⟩ := createTransaction_returns hret
        exact hc.deferred
  | setImmediate c =>
      cases h
      refine .quiet rfl (fun x hx => List.mem_append_left _ hx) fun x hx => ?_
      rcases List.mem_append.mp hx with hold | hnew
      · exact Or.inl hold
      · rw [List.mem_singleton.mp hnew]
        cases c with
        | notifyHcm id e l t days => exact Or.inr trivial
        | notifyApproval r id => exact ho.elim
  | http request => exact ho.elim
  | now => cases h; exact .of_same rfl rfl
  | enqueueCreateLock key => cases h; exact .of_same rfl rfl
  | awaitCreateLock key t =>
      simp only [execSvc] at h
      split at h
      · cases h; exact .of_same rfl rfl
      · cases h
  | releaseCreateLock key t => cases h; exact .of_same rfl rfl
  | sleep ms => cases h; exact .of_same rfl rfl

theorem settleStep_effect {s : Settlement} {id : Id} {fate : Fate} {o : SvcOp}
    {r : SvcSig.Res o} (ho : o = .transaction (s.transaction id))
    (h : execSvc fate o w = some (r, w')) : CallEffect env w w' := by
  subst ho
  rcases (execTransaction_cases h).2 with ⟨r', -, -, hret⟩ | ⟨e, rfl, -⟩
  · obtain ⟨req, b, b', hset⟩ := transaction_returns hret
    exact .settled s id req r' b b' hset
  · refine quiet_of_rollback (settle_lastSchedules s id) (fun {r' w₁} hret => Or.inr ?_) h
    obtain ⟨req, b, b', hset⟩ := transaction_returns hret
    exact ⟨s.scheduled r', hset.deferred, hset.sound⟩

/-! ## The operations of the ledger -/

/-- A call of statements alone leaves the callbacks as they are. -/
theorem alone_deferred {α : Type} {p : Svc α} (hp : p.Asks fun o : SvcOp => o.isPlain = true)
    {fates : List Fate} {w w' : World} {res : Except Exception α}
    (h : p.alone fates w = some (res, w')) : w'.deferred = w.deferred := by
  refine Svc.alone_keeps (I := fun x => x.deferred = w.deferred) ?_ hp rfl h
  intro fate o r w₁ w₂ ho hI hexec
  cases o with
  | stmt o =>
      obtain ⟨db, u, rfl⟩ := execSvc_stmt hexec
      exact hI
  | now => cases hexec; exact hI
  | _ => cases ho

theorem applyHcmRealTimeUpdate_noSchedule {e l : String} {t : LeaveType} {data : HcmData} :
    (applyHcmRealTimeUpdate e l t data).Asks NoSchedule := by
  refine Script.asks_bind (Tx.stmt_noSchedule _) fun balance => ?_
  cases balance with
  | none => trivial
  | some b =>
      refine Script.asks_bind ⟨trivial, fun _ => trivial⟩ fun now => ?_
      exact Script.asks_bind (Tx.stmt_noSchedule _) fun _ => trivial

theorem Tx.run_noSchedule {α : Type} {p : Tx α} (hp : p.Asks NoSchedule) {w w' : World}
    {res : Except Exception α} (h : p.run execTx w = some (res, w')) :
    w'.deferred = w.deferred := by
  refine Script.run_keeps (I := fun x : World => x.deferred = w.deferred) ?_ hp rfl h
  intro o k w₁ r w₂ ho hI hexec
  cases o with
  | stmt o =>
      obtain ⟨db, u, rfl⟩ := execTx_stmt hexec
      exact hI
  | now => cases hexec; exact hI
  | setImmediate c => exact ho.elim

/-- The balance operations leave the requests alone. -/
theorem balanceStep_requests {w w' : World} {l : BalanceOp × List Fate}
    (hstep : balanceStep env w l = some w') : w'.db.requests = w.db.requests := by
  rcases balanceStep_cases hstep with hdb | hopened | hraised
  · rw [hdb]
  · exact hopened.requests
  · exact hraised.requests

theorem balanceStep_effect {w w' : World} {l : BalanceOp × List Fate}
    (hstep : balanceStep env w l = some w') : CallEffect env w w' := by
  refine .of_same (balanceStep_requests hstep) ?_
  obtain ⟨op, fates⟩ := l
  cases op with
  | upsertBalance e l t total =>
      obtain ⟨⟨res, w₁⟩, hrun, rfl⟩ := Option.map_eq_some_iff.mp hstep
      exact alone_deferred upsertBalance_asks hrun
  | applyHcmRealTimeUpdate e l t data =>
      obtain ⟨⟨res, w₁⟩, hrun, rfl⟩ := Option.map_eq_some_iff.mp hstep
      cases hattempt : (fates.headD {}).attempt with
      | failsAtBegin x => rw [hattempt] at hrun; cases hrun; rfl
      | works =>
          rw [hattempt] at hrun
          obtain ⟨⟨r, w₂⟩, hbody, hrun⟩ := Option.map_eq_some_iff.mp hrun
          have hdef := Tx.run_noSchedule applyHcmRealTimeUpdate_noSchedule hbody
          cases r <;> (cases hrun; exact hdef)
      | failsAtCommit x =>
          rw [hattempt] at hrun
          obtain ⟨⟨r, w₂⟩, hbody, hrun⟩ := Option.map_eq_some_iff.mp hrun
          have hdef := Tx.run_noSchedule applyHcmRealTimeUpdate_noSchedule hbody
          cases r <;> (cases hrun; exact hdef)
  | reconcileRecord r =>
      obtain ⟨⟨res, w₁⟩, hrun, rfl⟩ := Option.map_eq_some_iff.mp hstep
      exact alone_deferred reconcileRecord_asks hrun

/-- **The ledger rule for the world**: what the effects keep, an operation of
the ledger keeps. -/
theorem ledgerStep_keeps {J : World → Prop}
    (heffect : ∀ {w w' : World}, CallEffect env w w' → J w → J w')
    {w w' : World} {l : LedgerOp × List Fate} (hstep : ledgerStep env w l = some w')
    (hJ : J w) : J w' := by
  obtain ⟨op, fates⟩ := l
  cases op with
  | balance op => exact heffect (balanceStep_effect hstep) hJ
  | lifecycle op =>
      cases op with
      | createRequest dto k =>
          obtain ⟨⟨res, w₁⟩, hrun, rfl⟩ := Option.map_eq_some_iff.mp hstep
          exact Svc.alone_keeps (fun _ _ _ _ _ ho hI hexec =>
            heffect (createStep_effect ho hexec) hI) createRequest_asks hJ hrun
      | settle s id =>
          obtain ⟨⟨res, w₁⟩, hrun, rfl⟩ := Option.map_eq_some_iff.mp hstep
          exact Svc.alone_keeps (fun _ _ _ _ _ ho hI hexec =>
            heffect (settleStep_effect ho hexec) hI) (settlement_asks s id) hJ hrun
      | tick ms =>
          cases hstep
          have hsame : CallEffect env w { w with clock := w.clock + ms } := .of_same rfl rfl
          exact heffect hsame hJ

end LeaveLedger
