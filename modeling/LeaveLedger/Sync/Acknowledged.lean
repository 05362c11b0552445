import LeaveLedger.Sync.Commit

/-!
# Sync — Which approvals HCM has acknowledged

`SUCCESS` is written for two reasons, a validation that succeeded and an
approval that was acknowledged, and every writer of the sync status writes
over what is there. An approved request marked `SUCCESS` that HCM has not
acknowledged is therefore in order only as long as some callback or pass is
still sure to write its status (`Due`): a restart forgets those, and a late
validation may be the last to write. As long as neither happens, nothing is
lost.
-/

namespace LeaveLedger

open Js Lib

/-- The request whose sync status an operation writes. -/
def SvcOp.syncs : SvcOp → Option Id
  | .stmt (.updateRequest id p) => if p.hcmSyncStatus.isSome then some id else none
  | _ => none

/-- The operation writes the sync status of the request. -/
abbrev Syncs (requestId : Id) (o : SvcOp) : Prop := o.syncs = some requestId

/-- The answers of a working database. -/
def DbResponds : (o : SvcOp) → SvcSig.Res o → Prop
  | .stmt (.updateRequest _ _), r => r = .ok ()
  | .stmt .findPendingSyncs, r => ∃ l, r = .ok l
  | _, _ => True

/-- Whatever HCM answers, the script still writes the sync status of the
request. -/
def Due (requestId : Id) (p : Svc Unit) : Prop :=
  p.Eventually DbResponds (Syncs requestId) (fun _ => False) fun _ => False

/-- A callback or pass other than the `i`th is due for the request. -/
def SyncState.DueBeside (s : SyncState) (i : ℕ) (requestId : Id) : Prop :=
  (∃ c ∈ s.world.deferred, Due requestId c.script)
    ∨ ∃ j p, j ≠ i ∧ s.running[j]? = some p ∧ Due requestId p

/-- A callback or pass is due for the request. -/
def SyncState.Outstanding (s : SyncState) (requestId : Id) : Prop :=
  (∃ c ∈ s.world.deferred, Due requestId c.script) ∨ ∃ p ∈ s.running, Due requestId p

/-- `SUCCESS` is not the last word about an approval HCM does not know of: it is
written on an approved request only when HCM has acknowledged the approval or
another callback or pass still writes the status, and a restart drops no callback
or pass that is due for an approved request marked `SUCCESS` before HCM has
acknowledged it. -/
def KeepsApprovals (s : SyncState) : SyncLabel → Prop
  | .step i _ =>
      match s.running[i]? with
      | some (.await (.stmt (.updateRequest id p)) _) =>
          p.hcmSyncStatus = some .success → id ∈ approvedIds s.db →
            id ∈ s.acknowledged ∨ s.DueBeside i id
      | _ => True
  | .restart => ∀ r ∈ s.db.requests.rows, r.status = .approved → r.hcmSyncStatus = .success →
      r.id ∉ s.acknowledged → ¬ s.Outstanding r.id
  | _ => True

/-! ## What the callbacks and passes are due to write -/

theorem updateSync_writes {id : Id} {status : HcmSyncStatus} {validated : Option Bool} {n : ℕ}
    {Q : Unit → Prop} {E : Exception → Prop} :
    (updateSync id status validated n).Eventually DbResponds (Syncs id) Q E :=
  Or.inr fun _ _ => Or.inl rfl

theorem approvalFlow_due (request : TimeOffRequest) (id : Id) :
    (approvalFlow request id).Eventually DbResponds (Syncs id) (fun _ => False) fun _ => True := by
  refine Script.eventually_bind (Script.eventually_any _) fun validation _ => ?_
  refine Script.eventually_ite updateSync_writes (Script.eventually_ite updateSync_writes ?_)
  refine Script.eventually_bind (Script.eventually_any _) fun res _ => ?_
  exact Script.eventually_ite updateSync_writes updateSync_writes

theorem notifyApproval_due (request : TimeOffRequest) (id : Id) :
    Due id (notifyApprovalToHcmAsync request id) :=
  Script.eventually_attempt (approvalFlow_due request id) fun _ _ => updateSync_writes

/-! ## The invariant -/

/-- An approved request marked `SUCCESS` is acknowledged, or its status is still
to be written; only requests that will not be approved are skipped. -/
structure ApprovalsKept (acknowledged : List Id) (running : List (Svc Unit)) (w : World) :
    Prop where
  success : ∀ r ∈ w.db.requests.rows, r.status = .approved → r.hcmSyncStatus = .success →
    r.id ∈ acknowledged ∨ (∃ c ∈ w.deferred, Due r.id c.script) ∨ ∃ p ∈ running, Due r.id p
  skipped : ∀ r ∈ w.db.requests.rows, r.hcmSyncStatus = .skipped →
    r.status = .rejected ∨ r.status = .cancelled

structure ApprovalInv (s : SyncState) : Prop where
  sync : SyncInv s
  kept : ApprovalsKept s.acknowledged s.running s.world

variable {env : Env}

theorem exec_responds {answer : HttpOutcome} {o : SvcOp} {x : SvcSig.Res o} {w w' : World}
    (h : execSvc { answer := answer } o w = some (x, w')) : DbResponds o x := by
  cases o with
  | stmt o =>
      cases o with
      | updateRequest id p => cases h; rfl
      | findPendingSyncs => cases h; exact ⟨_, rfl⟩
      | _ => trivial
  | _ => trivial

/-- The write calls keep it: an approval comes with its notifier. -/
theorem CallEffect.approvalsKept {acknowledged : List Id} {running : List (Svc Unit)}
    {w w' : World} (h : CallEffect env w w') (hw : ApprovalsKept acknowledged running w) :
    ApprovalsKept acknowledged running w' := by
  cases h with
  | quiet hreq hkeep hnew =>
      refine ⟨fun r hr hst hsync => ?_, fun r hr => hw.skipped r (hreq ▸ hr)⟩
      rcases hw.success r (hreq ▸ hr) hst hsync with hack | ⟨c, hc, hdue⟩ | hrun
      · exact Or.inl hack
      · exact Or.inr (Or.inl ⟨c, hkeep hc, hdue⟩)
      · exact Or.inr (Or.inr hrun)
  | created dto k d b b' r rec hd h =>
      obtain ⟨id, hrow⟩ := h.request
      refine ⟨fun x hx hst hsync => ?_, fun x hx hskip => ?_⟩
      · rcases h.requests.mem_iff.mp hx with hold | rfl
        · rw [h.deferred]
          exact hw.success x hold hst hsync
        · rw [hrow] at hst
          cases hst
      · rcases h.requests.mem_iff.mp hx with hold | rfl
        · exact hw.skipped x hold hskip
        · rw [hrow] at hskip
          cases hskip
  | settled s id r r' b b' h =>
      have hsync' : r'.hcmSyncStatus = r.hcmSyncStatus := by
        rw [h.row]
        cases s <;> rfl
      refine ⟨fun x hx hst hsync => ?_, fun x hx hskip => ?_⟩
      · rcases h.requests.mem_iff.mp hx with ⟨hold, -⟩ | rfl
        · rw [h.deferred]
          rcases hw.success x hold hst hsync with hack | ⟨c, hc, hdue⟩ | hrun
          · exact Or.inl hack
          · exact Or.inr (Or.inl ⟨c, List.mem_append_left _ hc, hdue⟩)
          · exact Or.inr (Or.inr hrun)
        · -- the approval that has just been made has its notifier
          rw [h.status] at hst
          cases s with
          | approve a =>
              refine Or.inr (Or.inl ⟨.notifyApproval x x.id, ?_, notifyApproval_due x x.id⟩)
              rw [h.deferred]
              exact List.mem_append_right _ (List.mem_singleton_self _)
          | reject a reason => cases hst
          | cancel reason => cases hst
      · rcases h.requests.mem_iff.mp hx with ⟨hold, -⟩ | rfl
        · exact hw.skipped x hold hskip
        · rw [hsync'] at hskip
          have hpending := h.pending
          rcases hw.skipped r h.requests.mem hskip with hst | hst
          · rw [hpending] at hst
            cases hst
          · rw [hpending] at hst
            cases hst

theorem syncs_eq {o : SvcOp} {id : Id} (h : o.syncs = some id) :
    ∃ p st, o = .stmt (.updateRequest id p) ∧ p.hcmSyncStatus = some st := by
  unfold SvcOp.syncs at h
  split at h
  · rename_i id' p
    split at h
    · rename_i hsome
      cases h
      obtain ⟨st, hst⟩ := Option.isSome_iff_exists.mp hsome
      exact ⟨p, st, rfl, hst⟩
    · cases h
  · cases h

/-- A callback or pass that was due is due after a request that does not write
the status in question. -/
theorem due_set {running : List (Svc Unit)} {i : ℕ} {o : SvcOp} {k : SvcSig.Res o → Svc Unit}
    {x : SvcSig.Res o} {id : Id} (hp : running[i]? = some (.await o k)) (hx : DbResponds o x)
    (hno : ¬ Syncs id o) (h : ∃ p ∈ running, Due id p) :
    ∃ p ∈ running.set i (k x), Due id p := by
  obtain ⟨p, hmem, hdue⟩ := h
  obtain ⟨j, hj, rfl⟩ := List.getElem_of_mem hmem
  obtain ⟨hi, hpi⟩ := List.getElem?_eq_some_iff.mp hp
  by_cases hji : j = i
  · subst hji
    rw [hpi] at hdue
    exact ⟨k x, List.mem_set hi _, hdue.after hno hx⟩
  · refine ⟨running[j], ?_, hdue⟩
    rw [← List.getElem_set_ne (Ne.symm hji) (by simpa using hj)]
    exact List.getElem_mem _

/-- One that is due beside the `i`th is not touched. -/
theorem due_beside {s : SyncState} {i : ℕ} {id : Id} {q : Svc Unit} (h : s.DueBeside i id) :
    (∃ c ∈ s.world.deferred, Due id c.script) ∨ ∃ p ∈ s.running.set i q, Due id p := by
  refine h.imp (fun h => h) ?_
  rintro ⟨j, p, hji, hp, hdue⟩
  refine ⟨p, ?_, hdue⟩
  apply List.mem_of_getElem? (i := j)
  rw [List.getElem?_set_ne (Ne.symm hji)]
  exact hp

/-- Where no sync status is written, every row has the statuses it had. -/
theorem rows_unwritten {o : SvcOp} {w w' : World} (hsyncs : o.syncs = none)
    (hdb : w'.db = w.db ∨ ∃ id p, o = .stmt (.updateRequest id p)
      ∧ w'.db = w.db.updateRequest id p w.clock) :
    ∀ r' ∈ w'.db.requests.rows, ∃ r ∈ w.db.requests.rows, r.id = r'.id
      ∧ r.status = r'.status ∧ r.hcmSyncStatus = r'.hcmSyncStatus := by
  intro r' hr'
  rcases hdb with hsame | ⟨id, p, rfl, hupdate⟩
  · rw [hsame] at hr'
    exact ⟨r', hr', rfl, rfl, rfl⟩
  · rw [hupdate] at hr'
    obtain ⟨r, hr, rfl⟩ := mem_updateRequest.mp hr'
    refine ⟨r, hr, ?_⟩
    by_cases hid : r.id = id
    · rw [if_pos hid]
      have hnone : p.hcmSyncStatus = none := by
        cases hst : p.hcmSyncStatus with
        | none => rfl
        | some st => simp [SvcOp.syncs, hst] at hsyncs
      refine ⟨rfl, rfl, ?_⟩
      show r.hcmSyncStatus = p.hcmSyncStatus.getD r.hcmSyncStatus
      rw [hnone]
      rfl
    · rw [if_neg hid]
      exact ⟨rfl, rfl, rfl⟩

/-- The status that a patch has written is its own. -/
theorem patched_status {p : RequestPatch} {now : ℤ} {r : TimeOffRequest} {st st' : HcmSyncStatus}
    (hp : p.hcmSyncStatus = some st) (h : (p.apply now r).hcmSyncStatus = st') :
    p.hcmSyncStatus = some st' := by
  have hst : p.hcmSyncStatus.getD r.hcmSyncStatus = st' := h
  rw [hp] at hst ⊢
  exact congrArg some hst

/-- One request of a callback or a pass keeps it, under the condition. -/
theorem approvalsKept_running {s : SyncState} {i : ℕ} {answer : HttpOutcome} {o : SvcOp}
    {k : SvcSig.Res o → Svc Unit} {x : SvcSig.Res o} {w : World} (hinv : ApprovalInv s)
    (hC : KeepsApprovals s (.step i answer)) (hp : s.running[i]? = some (.await o k))
    (hexec : execSvc { answer := answer } o s.world = some (x, w)) :
    ApprovalsKept (s.acknowledged ++ acknowledgedBy answer o) (s.running.set i (k x)) w := by
  have hfits := hinv.sync.running _ (List.mem_of_getElem? hp)
  obtain ⟨hdef, -, hdb⟩ := running_effect hfits hexec
  have hans := exec_responds hexec
  -- what is kept about a request whose status is not written
  have hold : ∀ r ∈ s.db.requests.rows, ¬ Syncs r.id o → r.status = .approved →
      r.hcmSyncStatus = .success → r.id ∈ s.acknowledged ++ acknowledgedBy answer o
        ∨ (∃ c ∈ w.deferred, Due r.id c.script) ∨ ∃ p ∈ s.running.set i (k x), Due r.id p := by
    intro r hr hno hst hsync
    rw [hdef]
    rcases hinv.kept.success r hr hst hsync with hack | hdue | hrun
    · exact Or.inl (List.mem_append_left _ hack)
    · exact Or.inr (Or.inl hdue)
    · exact Or.inr (Or.inr (due_set hp hans hno hrun))
  cases hsyncs : o.syncs with
  | none =>
      have hno : ∀ id, ¬ Syncs id o := fun id h => by cases hsyncs.symm.trans h
      have hback := rows_unwritten hsyncs hdb
      refine ⟨fun r' hr' hst hsync => ?_, fun r' hr' hskip => ?_⟩
      · obtain ⟨r, hr, hid, hstatus, hcm⟩ := hback r' hr'
        rw [← hid]
        exact hold r hr (hno _) (hstatus.trans hst) (hcm.trans hsync)
      · obtain ⟨r, hr, -, hstatus, hcm⟩ := hback r' hr'
        rw [← hstatus]
        exact hinv.kept.skipped r hr (hcm.trans hskip)
  | some id =>
      obtain ⟨p, st, rfl, hpst⟩ := syncs_eq hsyncs
      have hrows : w.db = s.db.updateRequest id p s.world.clock := by cases hexec; rfl
      simp only [KeepsApprovals, hp] at hC
      refine ⟨fun r' hr' hst hsync => ?_, fun r' hr' hskip => ?_⟩
      · rw [hrows] at hr'
        obtain ⟨r, hr, rfl⟩ := mem_updateRequest.mp hr'
        by_cases hid : r.id = id
        · -- the row that is written: `SUCCESS` only as the condition has it
          rw [if_pos hid] at hst hsync ⊢
          have hsuccess := patched_status hpst hsync
          have hid' : (p.apply s.world.clock r).id = id := hid
          rw [hid']
          rcases hC hsuccess ⟨r, hr, hid, hst⟩ with hack | hbeside
          · exact Or.inl (List.mem_append_left _ hack)
          · rw [hdef]
            exact Or.inr (due_beside hbeside)
        · rw [if_neg hid] at hst hsync ⊢
          exact hold r hr (fun h => hid (Option.some.inj (h.symm.trans hsyncs))) hst hsync
      · rw [hrows] at hr'
        obtain ⟨r, hr, rfl⟩ := mem_updateRequest.mp hr'
        by_cases hid : r.id = id
        · rw [if_pos hid] at hskip ⊢
          have hskip' := patched_status hpst hskip
          rcases hfits with hpass | hasks
          · cases hpass
          · obtain ⟨r₀, hr₀, hid₀, hst₀⟩ := hasks.1 hskip'
            rw [Table.eq_of_pk hr₀ hr (hid₀.trans hid.symm)] at hst₀
            exact hst₀
        · rw [if_neg hid] at hskip ⊢
          exact hinv.kept.skipped r hr hskip

/-- **One step** keeps the invariant, under the condition. -/
theorem approvalInv_step {s s' : SyncState} {l : SyncLabel} (hinv : ApprovalInv s)
    (hC : KeepsApprovals s l) (h : syncStep env s l = some s') : ApprovalInv s' := by
  refine ⟨(syncStep_inv hinv.sync h).1, ?_⟩
  cases l with
  | ledger op fates =>
      obtain ⟨w, hw, rfl⟩ := Option.map_eq_some_iff.mp h
      exact ledgerStep_keeps (J := ApprovalsKept s.acknowledged s.running)
        (fun heff hJ => heff.approvalsKept hJ) hw hinv.kept
  | turn =>
      obtain ⟨c, rest, hdef, rfl⟩ := syncStep_turn h
      refine ⟨fun r hr hst hsync => ?_, hinv.kept.skipped⟩
      rcases hinv.kept.success r hr hst hsync with hack | ⟨c', hc', hdue⟩ | ⟨p, hp, hdue⟩
      · exact Or.inl hack
      · rw [hdef] at hc'
        rcases List.mem_cons.mp hc' with rfl | hrest
        · exact Or.inr (Or.inr ⟨_, List.mem_append_right _ (List.mem_singleton_self _), hdue⟩)
        · exact Or.inr (Or.inl ⟨c', hrest, hdue⟩)
      · exact Or.inr (Or.inr ⟨p, List.mem_append_left _ hp, hdue⟩)
  | worker =>
      cases h
      refine ⟨fun r hr hst hsync => ?_, hinv.kept.skipped⟩
      rcases hinv.kept.success r hr hst hsync with hack | hdue | ⟨p, hp, hdue⟩
      · exact Or.inl hack
      · exact Or.inr (Or.inl hdue)
      · exact Or.inr (Or.inr ⟨p, List.mem_append_left _ hp, hdue⟩)
  | step i answer =>
      obtain ⟨o, k, x, w, hp, hexec, rfl⟩ := syncStep_step h
      exact approvalsKept_running hinv hC hp hexec
  | process m =>
      obtain ⟨msg, -, rfl⟩ := Option.map_eq_some_iff.mp h
      exact ⟨hinv.kept.success, hinv.kept.skipped⟩
  | drop m =>
      obtain ⟨msg, -, rfl⟩ := Option.map_eq_some_iff.mp h
      exact ⟨hinv.kept.success, hinv.kept.skipped⟩
  | restart =>
      cases h
      refine ⟨fun r hr hst hsync => Or.inl ?_, hinv.kept.skipped⟩
      -- what is not acknowledged is still due, and nothing that is due is dropped
      by_contra hno
      rcases hinv.kept.success r hr hst hsync with hack | hdue
      · exact hno hack
      · exact hC r hr hst hsync hno hdue

theorem approvalInv_initial (clock : ℤ) : ApprovalInv (SyncState.initial clock) :=
  ⟨syncInv_initial clock, fun r hr => (by cases hr), fun r hr => (by cases hr)⟩

/-- A script that is over is due for nothing. -/
theorem not_due_of_over {requestId : Id} {p : Svc Unit}
    (h : (∃ u, p = .done u) ∨ ∃ e, p = .fail e) : ¬ Due requestId p := by
  rcases h with ⟨u, rfl⟩ | ⟨e, rfl⟩
  · exact fun h => h
  · exact fun h => h

/-- A validated request is approved, and a restart drops its notifier. -/
def restartRun : List SyncLabel :=
  sampleRequest ++ [.turn, .step 0 validAnswer, .step 0 validAnswer, .step 0 validAnswer,
    sampleApproval, .restart]

theorem restartRun_outcome : ∃ s,
    run (syncStep .default) (SyncState.initial 0) restartRun = some s
    ∧ s.world.deferred = [] ∧ s.running = [] ∧ s.acknowledged = []
    ∧ s.db.requests.rows.map (fun r => (r.status, r.hcmSyncStatus)) = [(.approved, .success)] := by
  have h : (run (syncStep .default) (SyncState.initial 0) restartRun).map (fun s =>
      (s.world.deferred.length, s.running.length, s.acknowledged,
        s.db.requests.rows.map fun r => (r.status, r.hcmSyncStatus)))
      = some (0, 0, [], [(.approved, .success)]) := by
    decide +kernel
  obtain ⟨s, hs, h⟩ := Option.map_eq_some_iff.mp h
  simp only [Prod.mk.injEq] at h
  exact ⟨s, hs, List.length_eq_zero_iff.mp h.1, List.length_eq_zero_iff.mp h.2.1, h.2.2.1, h.2.2.2⟩

/-- The plain order: `SUCCESS` comes on an approved request after its
acknowledgement, and so does a restart. -/
def AcknowledgesFirst (s : SyncState) : SyncLabel → Prop
  | .step i _ =>
      match s.running[i]? with
      | some (.await (.stmt (.updateRequest id p)) _) =>
          p.hcmSyncStatus = some .success → id ∈ approvedIds s.db → id ∈ s.acknowledged
      | _ => True
  | .restart => ∀ r ∈ s.db.requests.rows, r.status = .approved → r.hcmSyncStatus = .success →
      r.id ∈ s.acknowledged
  | _ => True

instance (s : SyncState) (l : SyncLabel) : Decidable (AcknowledgesFirst s l) := by
  unfold AcknowledgesFirst
  split
  · split <;> infer_instance
  · infer_instance
  · infer_instance

theorem AcknowledgesFirst.keeps {s : SyncState} {l : SyncLabel} (h : AcknowledgesFirst s l) :
    KeepsApprovals s l := by
  unfold AcknowledgesFirst at h
  unfold KeepsApprovals
  split at h
  · split at h
    · exact fun hsuccess happroved => Or.inl (h hsuccess happroved)
    · trivial
  · exact fun r hr hst hsync hno => absurd (h r hr hst hsync) hno
  · trivial

/-- An approval is acknowledged, and a restart drops the validation of the create. -/
def acknowledgedRun : List SyncLabel :=
  sampleRequest ++ [sampleApproval, .turn, .turn, .step 1 validAnswer, .step 1 successAnswer,
    .step 1 validAnswer, .step 1 validAnswer, .step 0 validAnswer, .restart]

end LeaveLedger
