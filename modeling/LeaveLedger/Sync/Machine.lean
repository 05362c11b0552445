import LeaveLedger.Sync.Scheduling
import LeaveLedger.Sync.Notifiers

/-!
# Sync — The machine of notifiers, worker and HCM

The operations of the ledger, the callbacks they schedule, passes of the
retry worker, and HCM. The callbacks and passes under way are advanced one
request at a time in any order, each HTTP attempt with any answer; nothing
the service does depends on when in between an answer came, so an attempt
and its answer are one step. A message that was let out is then on its
way: HCM may process it at any time, also after its caller gave up on it,
or it is lost. A restart forgets callbacks and passes, not the messages.
-/

namespace LeaveLedger

open Js Lib

structure SyncState where
  world : World
  /-- the callbacks and worker passes under way -/
  running : List (Svc Unit)
  /-- messages on their way to HCM -/
  inFlight : List BalanceMutation
  /-- the messages HCM has processed -/
  processed : List BalanceMutation
  /-- the requests whose approval HCM has acknowledged -/
  acknowledged : List Id

def SyncState.initial (clock : ℤ) : SyncState := ⟨World.initial clock, [], [], [], []⟩

abbrev SyncState.db (s : SyncState) : Database := s.world.db

inductive SyncLabel where
  | ledger (op : LedgerOp) (fates : List Fate)
  | turn
  | worker
  | step (i : ℕ) (answer : HttpOutcome)
  | process (m : ℕ)
  | drop (m : ℕ)
  | restart

/-- The message an attempt puts on its way: none when the circuit breaker did
not let it out. -/
def sent (answer : HttpOutcome) : SvcOp → List BalanceMutation
  | .http (.putBalance m) => match answer with
      | .error .circuitOpen => []
      | _ => [m]
  | _ => []

/-- The approval an answer acknowledges. -/
def acknowledgedBy (answer : HttpOutcome) : SvcOp → List Id
  | .http (.putBalance m) => match answer with
      | .ok res => if isAcknowledged res then [m.referenceId] else []
      | .error _ => []
  | _ => []

/-- One request of a callback or a pass. -/
def runningStep (s : SyncState) (i : ℕ) (answer : HttpOutcome) : Svc Unit → Option SyncState
  | .await o k => (execSvc { answer := answer } o s.world).map fun r => { s with
      world := r.2
      running := s.running.set i (k r.1)
      inFlight := s.inFlight ++ sent answer o
      acknowledged := s.acknowledged ++ acknowledgedBy answer o }
  | .done _ => none
  | .fail _ => none

/-- A turn of the event loop starts the oldest callback. -/
def turnStep (s : SyncState) : Option SyncState :=
  match s.world.deferred with
  | [] => none
  | c :: rest => some { s with
      world := { s.world with deferred := rest }, running := s.running ++ [c.script] }

def syncStep (env : Env) (s : SyncState) : SyncLabel → Option SyncState
  | .ledger op fates => (ledgerStep env s.world (op, fates)).map fun w => { s with world := w }
  | .turn => turnStep s
  | .worker => some { s with running := s.running ++ [retryPendingHcmSyncs] }
  | .step i answer => (s.running[i]?).bind (runningStep s i answer)
  | .process m => (s.inFlight[m]?).map fun msg => { s with
      inFlight := s.inFlight.eraseIdx m, processed := s.processed ++ [msg] }
  | .drop m => (s.inFlight[m]?).map fun _ => { s with inFlight := s.inFlight.eraseIdx m }
  | .restart => some { s with
      world := { s.world with deferred := [], createLocks := [] }, running := [] }

/-- No callback or pass is outstanding. -/
def SyncState.quiescent (s : SyncState) : Prop :=
  s.world.deferred = [] ∧ ∀ p ∈ s.running, (∃ u, p = .done u) ∨ ∃ e, p = .fail e

instance (s : SyncState) : Decidable s.quiescent :=
  have : DecidablePred fun p : Svc Unit => (∃ u, p = .done u) ∨ ∃ e, p = .fail e := fun p =>
    match p with
    | .done u => isTrue (Or.inl ⟨u, rfl⟩)
    | .fail e => isTrue (Or.inr ⟨e, rfl⟩)
    | .await _ _ => isFalse (by rintro (⟨_, h⟩ | ⟨_, h⟩) <;> cases h)
  inferInstanceAs (Decidable (s.world.deferred = [] ∧ ∀ p ∈ s.running, _))

variable {env : Env}

theorem syncStep_step {s s' : SyncState} {i : ℕ} {answer : HttpOutcome}
    (h : syncStep env s (.step i answer) = some s') :
    ∃ o k x w, s.running[i]? = some (.await o k)
      ∧ execSvc { answer := answer } o s.world = some (x, w)
      ∧ s' = { s with
          world := w, running := s.running.set i (k x)
          inFlight := s.inFlight ++ sent answer o
          acknowledged := s.acknowledged ++ acknowledgedBy answer o } := by
  obtain ⟨p, hp, h⟩ := Option.bind_eq_some_iff.mp h
  cases p with
  | done a => cases h
  | fail e => cases h
  | await o k =>
      obtain ⟨⟨x, w⟩, hexec, rfl⟩ := Option.map_eq_some_iff.mp h
      exact ⟨o, k, x, w, hp, hexec, rfl⟩

theorem syncStep_turn {s s' : SyncState} (h : syncStep env s .turn = some s') :
    ∃ c rest, s.world.deferred = c :: rest ∧ s' = { s with
      world := { s.world with deferred := rest }, running := s.running ++ [c.script] } := by
  replace h : turnStep s = some s' := h
  unfold turnStep at h
  cases hdef : s.world.deferred with
  | nil => rw [hdef] at h; cases h
  | cons c rest => rw [hdef] at h; exact ⟨c, rest, rfl, (Option.some.inj h).symm⟩

/-- An attempt sends the message it is about, or nothing. -/
theorem sent_spec {answer : HttpOutcome} {o : SvcOp} {m : BalanceMutation}
    (hm : m ∈ sent answer o) : o = .http (.putBalance m) ∧ sent answer o = [m] := by
  unfold sent at hm ⊢
  split at hm
  · split at hm
    · cases hm
    · rw [List.mem_singleton.mp hm]
      exact ⟨rfl, rfl⟩
  · cases hm

/-! ## What the callbacks and passes may ask for -/

/-- A settled request keeps its status, and every request its columns. -/
def Grows (db db' : Database) : Prop :=
  ∀ r ∈ db.requests.rows, ∃ r' ∈ db'.requests.rows, SameRequest r r'
    ∧ (r.status ≠ .pending → r'.status = r.status)

theorem Grows.refl (db : Database) : Grows db db := fun r hr => ⟨r, hr, .refl r, fun _ => rfl⟩

theorem Grows.trans {db db' db'' : Database} (h : Grows db db') (h' : Grows db' db'') :
    Grows db db'' := by
  intro r hr
  obtain ⟨r', hr', hsame, hst⟩ := h r hr
  obtain ⟨r'', hr'', hsame', hst'⟩ := h' r' hr'
  refine ⟨r'', hr'', hsame.trans hsame', fun hne => ?_⟩
  rw [hst' (by rw [hst hne]; exact hne), hst hne]

theorem grows_of_requests {db db' : Database} (h : db'.requests = db.requests) : Grows db db' :=
  fun r hr => ⟨r, by rw [h]; exact hr, .refl r, fun _ => rfl⟩

/-- The requests of the notifiers and the worker over a database: messages
carry the days of their request, and only settled requests are skipped. -/
def NotifierAsks (db : Database) : SvcOp → Prop
  | .now | .http (.validate _ _ _ _) | .stmt .findPendingSyncs => True
  | .http (.putBalance m) =>
      ∃ r ∈ db.requests.rows, r.id = m.referenceId ∧ r.daysRequested = m.daysRequested
  | .stmt (.updateRequest id p) => p.hcmSyncStatus = some .skipped →
      ∃ r ∈ db.requests.rows, r.id = id ∧ (r.status = .rejected ∨ r.status = .cancelled)
  | _ => False

theorem NotifierAsks.grows {db db' : Database} (hgrows : Grows db db') {o : SvcOp}
    (h : NotifierAsks db o) : NotifierAsks db' o := by
  cases o with
  | now => trivial
  | http request =>
      cases request with
      | validate e l t d => trivial
      | putBalance m =>
          obtain ⟨r, hr, hid, hdays⟩ := h
          obtain ⟨r', hr', hsame, -⟩ := hgrows r hr
          exact ⟨r', hr', hsame.id.trans hid, hsame.daysRequested.trans hdays⟩
      | _ => exact h.elim
  | stmt o =>
      cases o with
      | findPendingSyncs => trivial
      | updateRequest id p =>
          intro hskip
          obtain ⟨r, hr, hid, hst⟩ := h hskip
          obtain ⟨r', hr', hsame, hkeep⟩ := hgrows r hr
          refine ⟨r', hr', hsame.id.trans hid, ?_⟩
          rw [hkeep (by rcases hst with h | h <;> rw [h] <;> decide)]
          exact hst
      | _ => exact h.elim
  | _ => exact h.elim

/-- What is permitted about every request. -/
theorem permits_notifierAsks (db : Database) (requestId : Id) :
    Permits (NotifierAsks db) requestId where
  now := trivial
  validate _ _ _ _ := trivial
  update _ hskip heq := absurd heq hskip

/-- A stored request, as it is or was, may be sent. -/
theorem permitsSend_of_row {db : Database} {r r' : TimeOffRequest} (hr : r ∈ db.requests.rows)
    (hsame : SameRequest r r') : PermitsSend (NotifierAsks db) r' r'.id :=
  ⟨r, hr, hsame.id.symm, hsame.daysRequested.symm⟩

theorem Callback.Sound.asks {db : Database} {c : Callback} (h : c.Sound db) :
    c.script.Asks (NotifierAsks db) := by
  cases c with
  | notifyApproval r' id =>
      obtain ⟨rfl, r, hr, hsame⟩ := h
      exact (permits_notifierAsks db _).notifyApproval_asks (permitsSend_of_row hr hsame)
  | notifyHcm id e l t days => exact (permits_notifierAsks db id).notifyHcm_asks

/-- The worker's pass over rows that were read from the database. -/
theorem retryRequests_notifierAsks {db : Database} {l : List TimeOffRequest}
    (h : ∀ r ∈ l, r ∈ db.requests.rows) : (retryRequests l).Asks (NotifierAsks db) :=
  retryRequests_asks fun r hr => ⟨permits_notifierAsks db r.id,
    fun _ => permitsSend_of_row (h r hr) (.refl r), fun hst _ _ => ⟨r, h r hr, rfl, hst⟩⟩

/-- What remains of a callback or a pass: a pass that has not read its rows
yet, or a script that keeps to `NotifierAsks`. -/
def Fits (db : Database) (p : Svc Unit) : Prop :=
  p = retryPendingHcmSyncs ∨ p.Asks (NotifierAsks db)

theorem Fits.grows {db db' : Database} (hgrows : Grows db db') {p : Svc Unit} (h : Fits db p) :
    Fits db' p :=
  h.imp id fun h => h.mono fun _ ho => ho.grows hgrows

theorem mem_of_findPendingSyncs (st : Stamp) {db db' : Database} {l : List TimeOffRequest}
    (h : Stmt.findPendingSyncs.exec st db = .ok (l, db')) : ∀ r ∈ l, r ∈ db.requests.rows := by
  intro r hr
  simp only [Stmt.exec, Except.ok.injEq, Prod.mk.injEq] at h
  obtain ⟨rfl, -⟩ := h
  have hmem := (List.mem_insertionSort _).mp (List.mem_of_mem_take hr)
  exact (List.mem_filter.mp hmem).1

/-! ## The invariant -/

/-- The ledger is in order, and every callback and pass is about stored
requests. -/
structure SyncInv (s : SyncState) : Prop where
  ledger : LedgerInv s.db
  deferred : ∀ c ∈ s.world.deferred, c.Sound s.db
  running : ∀ p ∈ s.running, Fits s.db p

theorem Callback.Sound.grows {db db' : Database} (hgrows : Grows db db') {c : Callback}
    (h : c.Sound db) : c.Sound db' := by
  cases c with
  | notifyHcm id e l t days => trivial
  | notifyApproval r' id =>
      obtain ⟨hid, r, hr, hsame⟩ := h
      obtain ⟨x, hx, hsame', -⟩ := hgrows r hr
      -- the columns of the captured row are those of the stored one
      refine ⟨hid, x, hx, ?_⟩
      exact ⟨hsame.id.trans hsame'.id.symm, hsame.idempotencyKey.trans hsame'.idempotencyKey.symm,
        hsame.employeeId.trans hsame'.employeeId.symm,
        hsame.locationId.trans hsame'.locationId.symm,
        hsame.leaveType.trans hsame'.leaveType.symm,
        hsame.startDate.trans hsame'.startDate.symm, hsame.endDate.trans hsame'.endDate.symm,
        hsame.daysRequested.trans hsame'.daysRequested.symm⟩

theorem grows_updateRequest (db : Database) (id : Id) (p : RequestPatch) (now : ℤ) :
    Grows db (db.updateRequest id p now) := by
  intro r hr
  by_cases hid : r.id = id
  · exact ⟨p.apply now r, mem_updateRequest.mpr ⟨r, hr, by rw [if_pos hid]⟩, patch_same p now r,
      fun _ => rfl⟩
  · exact ⟨r, mem_updateRequest.mpr ⟨r, hr, by rw [if_neg hid]⟩, .refl r, fun _ => rfl⟩

theorem CallEffect.grows {w w' : World} (h : CallEffect env w w') : Grows w.db w'.db := by
  cases h with
  | quiet hreq hkeep hnew => exact grows_of_requests hreq
  | created dto k d b b' r rec hd h =>
      exact fun x hx => ⟨x, h.requests.mem_iff.mpr (Or.inl hx), .refl x, fun _ => rfl⟩
  | settled s id r r' b b' h =>
      intro x hx
      obtain ⟨x', hx', -, -, rfl | ⟨rfl, rfl⟩⟩ := h.requests.exists_of_mem hx
      · exact ⟨x', hx', .refl x', fun _ => rfl⟩
      · exact ⟨x', hx', saveOver_same h.row, fun hne => absurd h.pending hne⟩

theorem CallEffect.sound {w w' : World} (h : CallEffect env w w')
    (hdef : ∀ c ∈ w.deferred, c.Sound w.db) : ∀ c ∈ w'.deferred, c.Sound w'.db := by
  intro c hc
  have hgrows := h.grows
  cases h with
  | quiet hreq hkeep hnew =>
      rcases hnew c hc with hold | hsound
      · exact (hdef c hold).grows hgrows
      · exact hsound.grows hgrows
  | created dto k d b b' r rec hd h => exact (hdef c (h.deferred ▸ hc)).grows hgrows
  | settled s id r r' b b' h =>
      rcases List.mem_append.mp (h.deferred ▸ hc) with hold | hnew
      · exact (hdef c hold).grows hgrows
      · exact (h.sound c hnew).grows hgrows

/-- What one request of a callback or a pass does. -/
theorem running_effect {w w' : World} {answer : HttpOutcome} {o : SvcOp}
    {k : SvcSig.Res o → Svc Unit} {x : SvcSig.Res o} (hfits : Fits w.db (.await o k))
    (h : execSvc { answer := answer } o w = some (x, w')) :
    w'.deferred = w.deferred ∧ Fits w'.db (k x)
      ∧ (w'.db = w.db ∨ ∃ id p, o = .stmt (.updateRequest id p)
          ∧ w'.db = w.db.updateRequest id p w.clock) := by
  rcases hfits with hpass | hasks
  · -- the pass reads its rows
    cases hpass
    cases h
    exact ⟨rfl, Or.inr (retryRequests_notifierAsks (mem_of_findPendingSyncs w.stamp rfl)),
      Or.inl rfl⟩
  · have hdb : w'.deferred = w.deferred ∧ (w'.db = w.db ∨ ∃ id p,
        o = .stmt (.updateRequest id p) ∧ w'.db = w.db.updateRequest id p w.clock) := by
      have ho := hasks.1
      cases o with
      | now => cases h; exact ⟨rfl, Or.inl rfl⟩
      | http request => cases h; exact ⟨rfl, Or.inl rfl⟩
      | stmt o =>
          cases o with
          | findPendingSyncs => cases h; exact ⟨rfl, Or.inl rfl⟩
          | updateRequest id p => cases h; exact ⟨rfl, Or.inr ⟨id, p, rfl, rfl⟩⟩
          | _ => exact ho.elim
      | _ => exact ho.elim
    refine ⟨hdb.1, Or.inr ((hasks.2 x).mono fun _ _ ho => ho.grows ?_), hdb.2⟩
    rcases hdb.2 with hsame | ⟨id, p, -, hupdate⟩
    · exact grows_of_requests (congrArg Database.requests hsame)
    · rw [hupdate]
      exact grows_updateRequest _ _ _ _

/-- **One step** keeps the invariant, and requests grow. -/
theorem syncStep_inv {s s' : SyncState} {l : SyncLabel} (hinv : SyncInv s)
    (h : syncStep env s l = some s') : SyncInv s' ∧ Grows s.db s'.db := by
  cases l with
  | ledger op fates =>
      obtain ⟨w, hw, rfl⟩ := Option.map_eq_some_iff.mp h
      obtain ⟨hdef, hgrows⟩ := ledgerStep_keeps
        (J := fun w => (∀ c ∈ w.deferred, c.Sound w.db) ∧ Grows s.db w.db)
        (fun heff hJ => ⟨heff.sound hJ.1, hJ.2.trans heff.grows⟩) hw ⟨hinv.deferred, .refl _⟩
      exact ⟨⟨ledgerStep_inv hinv.ledger hw, hdef, fun p hp => (hinv.running p hp).grows hgrows⟩,
        hgrows⟩
  | turn =>
      obtain ⟨c, rest, hdef, rfl⟩ := syncStep_turn h
      have hsound := hinv.deferred
      rw [hdef] at hsound
      refine ⟨⟨hinv.ledger, fun x hx => hsound x (List.mem_cons_of_mem c hx), fun p hp => ?_⟩,
        .refl _⟩
      rcases List.mem_append.mp hp with hold | hnew
      · exact hinv.running p hold
      · rw [List.mem_singleton.mp hnew]
        exact Or.inr (hsound c List.mem_cons_self).asks
  | worker =>
      cases h
      refine ⟨⟨hinv.ledger, hinv.deferred, fun p hp => ?_⟩, .refl _⟩
      rcases List.mem_append.mp hp with hold | hnew
      · exact hinv.running p hold
      · exact Or.inl (List.mem_singleton.mp hnew)
  | step i answer =>
      obtain ⟨o, k, x, w, hp, hexec, rfl⟩ := syncStep_step h
      obtain ⟨hdef, hfits, hdb⟩ := running_effect (hinv.running _ (List.mem_of_getElem? hp)) hexec
      have hgrows : Grows s.db w.db := by
        rcases hdb with hsame | ⟨id, p, -, hupdate⟩
        · exact grows_of_requests (congrArg Database.requests hsame)
        · rw [hupdate]
          exact grows_updateRequest _ _ _ _
      refine ⟨⟨?_, fun c hc => ?_, fun p hp => ?_⟩, hgrows⟩
      · rcases hdb with hsame | ⟨id, p, -, hupdate⟩
        · exact hinv.ledger.of_db hsame
        · exact (hinv.ledger.of_sync id p _).of_db hupdate
      · exact (hinv.deferred c (hdef ▸ hc)).grows hgrows
      · rcases List.mem_or_eq_of_mem_set hp with hold | rfl
        · exact (hinv.running p hold).grows hgrows
        · exact hfits
  | process m =>
      obtain ⟨msg, -, rfl⟩ := Option.map_eq_some_iff.mp h
      exact ⟨⟨hinv.ledger, hinv.deferred, hinv.running⟩, .refl _⟩
  | drop m =>
      obtain ⟨msg, -, rfl⟩ := Option.map_eq_some_iff.mp h
      exact ⟨⟨hinv.ledger, hinv.deferred, hinv.running⟩, .refl _⟩
  | restart =>
      cases h
      exact ⟨⟨hinv.ledger, fun c hc => (by cases hc), fun p hp => (by cases hp)⟩, .refl _⟩

theorem syncInv_initial (clock : ℤ) : SyncInv (SyncState.initial clock) :=
  ⟨ledgerInv_empty, fun c hc => (by cases hc), fun p hp => (by cases hp)⟩

/-! ## Parts of runs that are evaluated -/

def validAnswer : HttpOutcome := .ok (.obj [("valid", .bool true)])

def successAnswer : HttpOutcome := .ok (.obj [("success", .bool true)])

def lostAnswer : HttpOutcome := .error .noResponse

/-- Open the row of the sample payload and create its request, which gets the
id 8. -/
def sampleRequest : List SyncLabel :=
  [.ledger (seed 10).1 [], .ledger (.lifecycle (.createRequest sampleDto "key-1")) []]

def sampleApproval : SyncLabel := .ledger (.lifecycle (.settle (.approve "MGR001") 8)) []

end LeaveLedger
