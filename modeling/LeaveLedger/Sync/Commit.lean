import LeaveLedger.Sync.Machine

/-!
# Sync — Commits and what HCM hears of them

The settlements in two phases: the callback of the transaction, and its
commit, which may fail. The statements of everything else run on the same
connection in between, so they see what is not committed yet and are rolled
back with it. `approveRequest` schedules its notifier inside the callback,
as the last thing it does; create schedules after the commit. So the event
loop may start the notifier of an approval that is still open, or one that
was rolled back. As long as it starts a notifier only after the approval
has committed, and the worker does not read in between, every message HCM
gets is about a request that is durably approved.
-/

namespace LeaveLedger

open Js Lib

/-- A settlement whose callback has returned, and what a rollback returns to. -/
structure OpenTransaction where
  settlement : Settlement
  requestId : Id
  before : Database

structure CommitState where
  office : SyncState
  opened : Option OpenTransaction
  /-- the requests of which an approval has committed -/
  committed : List Id

def CommitState.initial (clock : ℤ) : CommitState := ⟨SyncState.initial clock, none, []⟩

inductive CommitLabel where
  | begin (s : Settlement) (requestId : Id)
  | commit
  | rollback
  | office (l : SyncLabel)

/-- The request an open transaction approves. -/
def OpenTransaction.approves (t : OpenTransaction) : List Id :=
  match t.settlement with
  | .approve _ => [t.requestId]
  | .reject _ _ | .cancel _ => []

/-- The requests whose approval is not committed yet. -/
def CommitState.approving (s : CommitState) : List Id :=
  match s.opened with
  | none => []
  | some t => t.approves

/-- The database without what a rollback would take back. -/
def CommitState.durable (s : CommitState) : Database :=
  match s.opened with
  | none => s.office.db
  | some t => t.before

def SyncState.withDb (s : SyncState) (db : Database) : SyncState :=
  { s with world := { s.world with db := db } }

/-- The callback of a settlement; one that throws is rolled back at once. -/
def beginStep (s : CommitState) (settlement : Settlement) (requestId : Id) :
    Option CommitState :=
  ((settlement.transaction requestId).run execTx s.office.world).map fun (res, w) =>
    let office := { s.office with world := w }
    match res with
    | .ok _ => { s with office := office, opened := some ⟨settlement, requestId, s.office.db⟩ }
    | .error _ => { s with office := office.withDb s.office.db }

/-- Settlements come in two phases, and the other write calls and a restart
wait for the end of an open one. -/
def CommitState.admits (s : CommitState) : SyncLabel → Bool
  | .ledger (.lifecycle (.settle _ _)) _ => false
  | .ledger (.lifecycle (.tick _)) _ => true
  | .ledger (.lifecycle (.createRequest _ _)) _ | .ledger (.balance _) _ | .restart =>
      s.opened.isNone
  | .turn | .worker | .step _ _ | .process _ | .drop _ => true

def commitStep (env : Env) (s : CommitState) : CommitLabel → Option CommitState
  | .begin settlement requestId =>
      if s.opened.isNone then beginStep s settlement requestId else none
  | .commit => s.opened.map fun t =>
      { s with opened := none, committed := s.committed ++ t.approves }
  | .rollback => s.opened.map fun t => { s with office := s.office.withDb t.before, opened := none }
  | .office l =>
      if s.admits l then (syncStep env s.office l).map fun office => { s with office := office }
      else none

/-- The requests that are approved in a database. -/
def approvedIds (db : Database) : Set Id :=
  {id | ∃ r ∈ db.requests.rows, r.id = id ∧ r.status = .approved}

instance (db : Database) (id : Id) : Decidable (id ∈ approvedIds db) :=
  inferInstanceAs (Decidable (∃ r ∈ db.requests.rows, r.id = id ∧ r.status = .approved))

/-- What the next request of a callback or pass sends. -/
def SyncState.nextSent (s : SyncState) (i : ℕ) (answer : HttpOutcome) : List BalanceMutation :=
  match s.running[i]? with
  | some (.await o _) => sent answer o
  | _ => []

/-- What the step sends is about a request whose approval has committed and is
durable. -/
def SendsDurable (s : CommitState) : CommitLabel → Prop
  | .office (.step i answer) => ∀ m ∈ s.office.nextSent i answer,
      m.referenceId ∈ s.committed ∧ m.referenceId ∈ approvedIds s.durable
  | _ => True

/-- A turn starts a notifier only when an approval of its request has committed,
and a pass of the worker reads its rows while no approval is open. -/
def StartsCommitted (s : CommitState) : CommitLabel → Prop
  | .office .turn =>
      match s.office.world.deferred with
      | .notifyApproval _ requestId :: _ => requestId ∈ s.committed
      | _ => True
  | .office (.step i _) =>
      match s.office.running[i]? with
      | some (.await (.stmt .findPendingSyncs) _) => s.approving = []
      | _ => True
  | _ => True

instance (s : CommitState) (l : CommitLabel) : Decidable (SendsDurable s l) := by
  unfold SendsDurable
  split <;> infer_instance

instance (s : CommitState) (l : CommitLabel) : Decidable (StartsCommitted s l) := by
  unfold StartsCommitted
  split
  · split <;> infer_instance
  · split <;> infer_instance
  · infer_instance

/-! ## The approved requests -/

variable {env : Env}

theorem mem_approvedIds {db : Database} {id : Id} :
    id ∈ approvedIds db ↔ ∃ r ∈ db.requests.rows, r.id = id ∧ r.status = .approved := Iff.rfl

theorem approvedIds_of_requests {db db' : Database} (h : db'.requests = db.requests) :
    approvedIds db' = approvedIds db := by
  unfold approvedIds
  rw [h]

/-- The HCM columns say nothing about approval. -/
theorem approvedIds_updateRequest (db : Database) (id : Id) (p : RequestPatch) (now : ℤ) :
    approvedIds (db.updateRequest id p now) = approvedIds db := by
  ext x
  simp only [mem_approvedIds, mem_updateRequest]
  constructor
  · rintro ⟨_, ⟨r, hr, rfl⟩, hid, hst⟩
    refine ⟨r, hr, ?_⟩
    by_cases hrow : r.id = id
    · rw [if_pos hrow] at hid hst
      exact ⟨hid, hst⟩
    · rw [if_neg hrow] at hid hst
      exact ⟨hid, hst⟩
  · rintro ⟨r, hr, hid, hst⟩
    refine ⟨_, ⟨r, hr, rfl⟩, ?_⟩
    by_cases hrow : r.id = id
    · rw [if_pos hrow]
      exact ⟨hid, hst⟩
    · rw [if_neg hrow]
      exact ⟨hid, hst⟩

theorem approvedIds_created {dto : CreateTimeOffRequestDto} {k hash : String} {w w' : World}
    {d : ℚ} {b b' : EmployeeBalance} {r : TimeOffRequest} {rec : IdempotencyRecord}
    (h : Created env dto k hash w w' d b b' r rec) :
    approvedIds w'.db = approvedIds w.db := by
  obtain ⟨id, hrow⟩ := h.request
  ext x
  simp only [mem_approvedIds, h.requests.mem_iff]
  constructor
  · rintro ⟨y, hy | rfl, hid, hst⟩
    · exact ⟨y, hy, hid, hst⟩
    · -- the new request is pending
      rw [hrow] at hst
      cases hst
  · rintro ⟨y, hy, hid, hst⟩
    exact ⟨y, Or.inl hy, hid, hst⟩

/-- A settlement adds its request to the approved ones when it approves. -/
theorem mem_approvedIds_settled {s : Settlement} {id : Id} {w w' : World}
    {r r' : TimeOffRequest} {b b' : EmployeeBalance} (h : Settled s id w w' r r' b b') {x : Id} :
    x ∈ approvedIds w'.db
      ↔ x ∈ approvedIds w.db ∨ x ∈ (⟨s, id, w.db⟩ : OpenTransaction).approves := by
  have hrow' : r'.id = id := by rw [h.row]; exact h.id
  simp only [mem_approvedIds, h.requests.mem_iff]
  constructor
  · rintro ⟨y, ⟨hy, -⟩ | rfl, hid, hst⟩
    · exact Or.inl ⟨y, hy, hid, hst⟩
    · right
      rw [h.status] at hst
      cases s with
      | approve a =>
          show x ∈ [id]
          rw [← hid, hrow']
          exact List.mem_singleton_self id
      | reject a reason => cases hst
      | cancel reason => cases hst
  · rintro (⟨y, hy, hid, hst⟩ | hnew)
    · refine ⟨y, Or.inl ⟨hy, fun heq => ?_⟩, hid, hst⟩
      -- the settled row was pending
      rw [Table.eq_of_pk hy h.requests.mem heq, h.pending] at hst
      cases hst
    · refine ⟨r', Or.inr rfl, ?_⟩
      cases s with
      | approve a => exact ⟨hrow'.trans (List.mem_singleton.mp hnew).symm, h.status⟩
      | reject a reason => cases hnew
      | cancel reason => cases hnew

/-- The operations of the ledger other than a settlement approve nothing. -/
theorem ledgerStep_approvedIds {w w' : World} {op : LedgerOp} {fates : List Fate}
    (hop : ∀ s id, op ≠ .lifecycle (.settle s id)) (h : ledgerStep env w (op, fates) = some w') :
    approvedIds w'.db = approvedIds w.db := by
  cases op with
  | balance op => exact approvedIds_of_requests (balanceStep_requests h)
  | lifecycle op =>
      cases op with
      | createRequest dto k =>
          obtain ⟨⟨res, w₁⟩, hrun, rfl⟩ := Option.map_eq_some_iff.mp h
          exact createRequest_keeps (J := fun db => approvedIds db = approvedIds w.db)
            (fun _ hc hJ => (approvedIds_created hc).trans hJ) hrun rfl
      | settle s id => exact absurd rfl (hop s id)
      | tick ms => cases h; rfl

/-! ## The invariant -/

/-- What a notifier, or a pass that has read its rows, may ask for. -/
def SendsOnly (committed : List Id) : SvcOp → Prop
  | .now | .http (.validate _ _ _ _) | .stmt (.updateRequest _ _) => True
  | .http (.putBalance m) => m.referenceId ∈ committed
  | _ => False

/-- The durable approvals are the committed ones, the current ones those and
the open one, and only committed ones are sent. -/
structure CommitInv (s : CommitState) : Prop where
  durable : ∀ id, id ∈ approvedIds s.durable ↔ id ∈ s.committed
  current : ∀ id, id ∈ approvedIds s.office.db ↔ id ∈ s.committed ++ s.approving
  running : ∀ p ∈ s.office.running,
    p = retryPendingHcmSyncs ∨ p.Asks (SendsOnly s.committed)

theorem permits_sendsOnly (committed : List Id) (requestId : Id) :
    Permits (SendsOnly committed) requestId where
  now := trivial
  validate _ _ _ _ := trivial
  update _ _ := trivial

theorem sendsOnly_append {committed ids : List Id} {o : SvcOp} (h : SendsOnly committed o) :
    SendsOnly (committed ++ ids) o := by
  cases o with
  | http request =>
      cases request with
      | validate e l t d => trivial
      | putBalance m => exact List.mem_append_left _ h
      | _ => exact h.elim
  | stmt o =>
      cases o with
      | updateRequest id p => trivial
      | _ => exact h.elim
  | now => trivial
  | _ => exact h.elim

theorem sendsOnly_exec {committed : List Id} {o : SvcOp} {answer : HttpOutcome}
    {x : SvcSig.Res o} {w w' : World} (ho : SendsOnly committed o)
    (h : execSvc { answer := answer } o w = some (x, w')) :
    approvedIds w'.db = approvedIds w.db := by
  cases o with
  | http request => cases h; rfl
  | now => cases h; rfl
  | stmt o =>
      cases o with
      | updateRequest id p => cases h; exact approvedIds_updateRequest _ _ _ _
      | _ => exact ho.elim
  | _ => exact ho.elim

/-- One request of a callback or a pass approves nothing, and what remains
still sends committed approvals only. -/
theorem runningStep_commit {committed : List Id} {w w' : World} {answer : HttpOutcome}
    {o : SvcOp} {k : SvcSig.Res o → Svc Unit} {x : SvcSig.Res o}
    (hp : .await o k = retryPendingHcmSyncs
      ∨ (.await o k : Svc Unit).Asks (SendsOnly committed))
    (hread : o = .stmt .findPendingSyncs → ∀ id ∈ approvedIds w.db, id ∈ committed)
    (h : execSvc { answer := answer } o w = some (x, w')) :
    approvedIds w'.db = approvedIds w.db ∧ (k x).Asks (SendsOnly committed) := by
  rcases hp with hpass | hasks
  · -- the pass reads its rows: the approved ones are committed
    cases hpass
    cases h
    refine ⟨rfl, retryRequests_asks fun r hr => ⟨permits_sendsOnly _ _, fun hst => ?_,
      fun _ _ => trivial⟩⟩
    exact hread rfl r.id ⟨r, mem_of_findPendingSyncs w.stamp rfl r hr, rfl, hst⟩
  · exact ⟨sendsOnly_exec hasks.1 h, hasks.2 x⟩

/-- A step of everything else that approves nothing. -/
theorem CommitInv.of_office {s : CommitState} (hinv : CommitInv s) {office : SyncState}
    (hids : approvedIds office.db = approvedIds s.office.db)
    (hrunning : ∀ p ∈ office.running,
      p = retryPendingHcmSyncs ∨ p.Asks (SendsOnly s.committed)) :
    CommitInv { s with office := office } where
  durable id := by
    have hold := hinv.durable id
    unfold CommitState.durable at hold ⊢
    cases hopen : s.opened with
    | none =>
        simp only [hopen] at hold ⊢
        rw [hids]
        exact hold
    | some t =>
        simp only [hopen] at hold ⊢
        exact hold
  current id := (iff_of_eq (congrArg (id ∈ ·) hids)).trans (hinv.current id)
  running := hrunning

theorem beginStep_cases {s s' : CommitState} {settlement : Settlement} {requestId : Id}
    (h : beginStep s settlement requestId = some s') :
    ∃ w, (∃ r r' b b', Settled settlement requestId s.office.world w r r' b b'
        ∧ s' = { s with
          office := { s.office with world := w }
          opened := some ⟨settlement, requestId, s.office.db⟩ })
      ∨ s' = { s with office := { s.office with world := { w with db := s.office.db } } } := by
  obtain ⟨⟨res, w⟩, hrun, rfl⟩ := Option.map_eq_some_iff.mp h
  refine ⟨w, ?_⟩
  cases res with
  | ok r' =>
      obtain ⟨r, b, b', hset⟩ := transaction_returns hrun
      exact Or.inl ⟨r, r', b, b', hset, rfl⟩
  | error e => exact Or.inr rfl

theorem commitInv_begin {s s' : CommitState} {settlement : Settlement} {requestId : Id}
    (hinv : CommitInv s) (hopen : s.opened = none)
    (h : beginStep s settlement requestId = some s') : CommitInv s' := by
  have hdurable : s.durable = s.office.db := by
    unfold CommitState.durable
    rw [hopen]
  obtain ⟨w, ⟨r, r', b, b', hset, rfl⟩ | rfl⟩ := beginStep_cases h
  · refine ⟨fun id => ?_, fun id => ?_, hinv.running⟩
    · show id ∈ approvedIds s.office.db ↔ _
      rw [← hdurable]
      exact hinv.durable id
    · show id ∈ approvedIds w.db
        ↔ id ∈ s.committed ++ (⟨settlement, requestId, s.office.db⟩ : OpenTransaction).approves
      rw [mem_approvedIds_settled hset, List.mem_append, ← hinv.durable id, hdurable]
  · exact hinv.of_office rfl hinv.running

theorem commitInv_commit {s s' : CommitState} (hinv : CommitInv s)
    (h : commitStep env s .commit = some s') : CommitInv s' := by
  obtain ⟨t, ht, rfl⟩ := Option.map_eq_some_iff.mp h
  have hcurrent := hinv.current
  unfold CommitState.approving at hcurrent
  simp only [ht] at hcurrent
  refine ⟨hcurrent, fun id => ?_, fun p hp => ?_⟩
  · show _ ↔ id ∈ (s.committed ++ t.approves) ++ []
    rw [List.append_nil]
    exact hcurrent id
  · exact (hinv.running p hp).imp id fun hasks => hasks.mono fun o ho => sendsOnly_append ho

theorem commitInv_rollback {s s' : CommitState} (hinv : CommitInv s)
    (h : commitStep env s .rollback = some s') : CommitInv s' := by
  obtain ⟨t, ht, rfl⟩ := Option.map_eq_some_iff.mp h
  have hdurable := hinv.durable
  unfold CommitState.durable at hdurable
  simp only [ht] at hdurable
  refine ⟨hdurable, fun id => ?_, hinv.running⟩
  show _ ↔ id ∈ s.committed ++ []
  rw [List.append_nil]
  exact hdurable id

theorem commitInv_office {s : CommitState} {l : SyncLabel} {office : SyncState}
    (hinv : CommitInv s) (hC : StartsCommitted s (.office l)) (hadmits : s.admits l = true)
    (h : syncStep env s.office l = some office) : CommitInv { s with office := office } := by
  -- a callback or a pass that starts is put behind those that run
  have hstarted : ∀ {p : Svc Unit},
      (p = retryPendingHcmSyncs ∨ p.Asks (SendsOnly s.committed)) →
      ∀ q ∈ s.office.running ++ [p],
        q = retryPendingHcmSyncs ∨ q.Asks (SendsOnly s.committed) := by
    intro p hstart q hq
    rcases List.mem_append.mp hq with hold | hnew
    · exact hinv.running q hold
    · rw [List.mem_singleton.mp hnew]
      exact hstart
  cases l with
  | ledger op fates =>
      obtain ⟨w, hw, rfl⟩ := Option.map_eq_some_iff.mp h
      have hop : ∀ st id, op ≠ .lifecycle (.settle st id) := by
        rintro st id rfl
        cases hadmits
      exact hinv.of_office (ledgerStep_approvedIds hop hw) hinv.running
  | turn =>
      obtain ⟨c, rest, hdef, rfl⟩ := syncStep_turn h
      refine hinv.of_office rfl (hstarted (.inr ?_))
      have hpermits := permits_sendsOnly s.committed
      cases c with
      | notifyHcm id e l t days => exact (hpermits id).notifyHcm_asks
      | notifyApproval request id =>
          simp only [StartsCommitted, hdef] at hC
          exact (hpermits id).notifyApproval_asks hC
  | worker =>
      cases h
      exact hinv.of_office rfl (hstarted (.inl rfl))
  | step i answer =>
      obtain ⟨o, k, x, w, hp, hexec, rfl⟩ := syncStep_step h
      have hread : o = .stmt .findPendingSyncs →
          ∀ id ∈ approvedIds s.office.db, id ∈ s.committed := by
        rintro rfl id hid
        simp only [StartsCommitted, hp] at hC
        rw [← List.append_nil s.committed, ← hC]
        exact (hinv.current id).mp hid
      obtain ⟨hids, hrest⟩ :=
        runningStep_commit (hinv.running _ (List.mem_of_getElem? hp)) hread hexec
      refine hinv.of_office hids fun p hp => ?_
      rcases List.mem_or_eq_of_mem_set hp with hold | rfl
      · exact hinv.running p hold
      · exact Or.inr hrest
  | process m =>
      obtain ⟨msg, -, rfl⟩ := Option.map_eq_some_iff.mp h
      exact hinv.of_office rfl hinv.running
  | drop m =>
      obtain ⟨msg, -, rfl⟩ := Option.map_eq_some_iff.mp h
      exact hinv.of_office rfl hinv.running
  | restart =>
      cases h
      exact hinv.of_office rfl fun p hp => (by cases hp)

/-- **One step** that starts committed keeps the invariant. -/
theorem commitStep_inv {s s' : CommitState} {l : CommitLabel} (hinv : CommitInv s)
    (hC : StartsCommitted s l) (h : commitStep env s l = some s') : CommitInv s' := by
  cases l with
  | begin settlement requestId =>
      simp only [commitStep] at h
      split at h
      · rename_i hopen
        exact commitInv_begin hinv (Option.isNone_iff_eq_none.mp hopen) h
      · cases h
  | commit => exact commitInv_commit hinv h
  | rollback => exact commitInv_rollback hinv h
  | office l =>
      simp only [commitStep] at h
      split at h
      · rename_i hadmits
        obtain ⟨office, hoffice, rfl⟩ := Option.map_eq_some_iff.mp h
        exact commitInv_office hinv hC hadmits hoffice
      · cases h

theorem commitInv_initial (clock : ℤ) : CommitInv (CommitState.initial clock) := by
  have hnone : ∀ id, id ∈ approvedIds Database.empty ↔ id ∈ ([] : List Id) := by
    intro id
    constructor
    · rintro ⟨r, hr, -⟩
      cases hr
    · intro h
      cases h
  exact ⟨hnone, hnone, fun p hp => (by cases hp)⟩

/-- Under the invariant every message is about a durably approved request. -/
theorem CommitInv.sends {s : CommitState} {l : CommitLabel} (hinv : CommitInv s) :
    SendsDurable s l := by
  unfold SendsDurable SyncState.nextSent
  split
  · rename_i i answer
    intro m hm
    split at hm
    · rename_i o k hp
      obtain ⟨rfl, -⟩ := sent_spec hm
      have hcommitted : m.referenceId ∈ s.committed := by
        rcases hinv.running _ (List.mem_of_getElem? hp) with hpass | hasks
        · cases hpass
        · exact hasks.1
      exact ⟨hcommitted, (hinv.durable _).mpr hcommitted⟩
    · cases hm
  · trivial

/-- **Approvals are sent after their commit.** In every run in which a turn
starts a notifier only once an approval of its request has committed, and
no pass reads its rows while an approval is open, every message is about
a request that is durably approved. -/
theorem approvals_sent_durable (env : Env) (clock : ℤ) (ls : List CommitLabel)
    (hstarts : Meets (commitStep env) StartsCommitted (CommitState.initial clock) ls) :
    Meets (commitStep env) SendsDurable (CommitState.initial clock) ls :=
  Meets.of_inv (fun _ _ _ hI hC h => commitStep_inv hI hC h) (fun _ _ hI _ => hI.sends)
    (commitInv_initial clock) hstarts

/-- An approval whose callback has returned, and its notifier running before the
commit; the last step sends. -/
def earlyNotifier : List CommitLabel :=
  sampleRequest.map .office ++ [.begin (.approve "MGR001") 8, .office .turn, .office .turn,
    .office (.step 1 validAnswer), .office (.step 1 successAnswer)]

/-- An approval can be sent before it commits. -/
theorem approval_sent_before_commit :
    ¬ ∀ (env : Env) (clock : ℤ) (ls : List CommitLabel),
      Meets (commitStep env) SendsDurable (CommitState.initial clock) ls := fun h =>
  absurd (h .default 0 earlyNotifier) (by decide +kernel)

/-- The theorem at the run in which the approval commits first. -/
theorem approvals_sent_durable_committed :
    Meets (commitStep .default) SendsDurable (CommitState.initial 0)
      (sampleRequest.map .office ++ [.begin (.approve "MGR001") 8, .commit, .office .turn,
        .office .turn, .office (.step 1 validAnswer), .office (.step 1 successAnswer)]) :=
  approvals_sent_durable .default 0 _ (by decide +kernel)

end LeaveLedger
