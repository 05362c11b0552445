import LeaveLedger.Sync.Debits
import LeaveLedger.Hcm.MockAccounts
import LeaveLedger.Hcm.MockRefinement

/-!
# Sync — The accounts of HCM with the service at work

The service and the mock HCM side by side: calls, callbacks and passes with
any answers, messages that HCM processes late or never, and everything
else that is asked of HCM, in any order. What HCM takes off a record on a
message of the service are the days of a stored request of that employee,
location and leave type, and it never takes off more than it has.
-/

namespace LeaveLedger

open Js Lib MockServer

/-! ## What HCM is told -/

/-- The message tells of this request, with its own columns. -/
def TellsOf (db : Database) (m : BalanceMutation) : Prop :=
  ∃ r ∈ db.requests.rows, m = approvalMessage r r.id

theorem SameRequest.approvalMessage {r r' : TimeOffRequest} (h : SameRequest r r') :
    approvalMessage r' r'.id = approvalMessage r r.id := by
  simp only [LeaveLedger.approvalMessage, h.id, h.employeeId, h.locationId, h.leaveType,
    h.daysRequested]

theorem TellsOf.grows {db db' : Database} (hgrows : Grows db db') {m : BalanceMutation}
    (h : TellsOf db m) : TellsOf db' m := by
  obtain ⟨r, hr, rfl⟩ := h
  obtain ⟨r', hr', hsame, -⟩ := hgrows r hr
  exact ⟨r', hr', hsame.approvalMessage.symm⟩

/-- The requests of the notifiers and the worker: what is sent is such a message. -/
def TellingAsks (db : Database) : SvcOp → Prop
  | .now | .http (.validate _ _ _ _) | .stmt .findPendingSyncs
  | .stmt (.updateRequest _ _) => True
  | .http (.putBalance m) => TellsOf db m
  | _ => False

theorem TellingAsks.grows {db db' : Database} (hgrows : Grows db db') {o : SvcOp}
    (h : TellingAsks db o) : TellingAsks db' o := by
  cases o with
  | now => trivial
  | http request =>
      cases request with
      | validate e l t d => trivial
      | putBalance m => exact TellsOf.grows hgrows h
      | _ => exact h.elim
  | stmt o =>
      cases o with
      | findPendingSyncs => trivial
      | updateRequest id p => trivial
      | _ => exact h.elim
  | _ => exact h.elim

theorem permits_tellingAsks (db : Database) (requestId : Id) :
    Permits (TellingAsks db) requestId where
  now := trivial
  validate _ _ _ _ := trivial
  update _ _ := trivial

theorem tells_of_row {db : Database} {r r' : TimeOffRequest} (hr : r ∈ db.requests.rows)
    (hsame : SameRequest r r') : PermitsSend (TellingAsks db) r' r'.id :=
  ⟨r, hr, hsame.approvalMessage⟩

theorem Callback.Sound.tells {db : Database} {c : Callback} (h : c.Sound db) :
    c.script.Asks (TellingAsks db) := by
  cases c with
  | notifyApproval r' id =>
      obtain ⟨rfl, r, hr, hsame⟩ := h
      exact (permits_tellingAsks db _).notifyApproval_asks (tells_of_row hr hsame)
  | notifyHcm id e l t days => exact (permits_tellingAsks db id).notifyHcm_asks

/-- What is left of a callback or a pass tells HCM of stored requests. -/
def Telling (db : Database) (p : Svc Unit) : Prop :=
  p = retryPendingHcmSyncs ∨ p.Asks (TellingAsks db)

theorem Telling.grows {db db' : Database} (hgrows : Grows db db') {p : Svc Unit}
    (h : Telling db p) : Telling db' p :=
  h.imp id fun h => h.mono fun _ ho => ho.grows hgrows

/-- What is left after the answer to one request. -/
theorem Telling.step {w w' : World} {answer : HttpOutcome} {o : SvcOp}
    {k : SvcSig.Res o → Svc Unit} {x : SvcSig.Res o} (h : Telling w.db (.await o k))
    (hgrows : Grows w.db w'.db) (hexec : execSvc { answer := answer } o w = some (x, w')) :
    Telling w'.db (k x) := by
  rcases h with hpass | hasks
  · -- the pass reads its rows
    cases hpass
    cases hexec
    refine Or.inr (retryRequests_asks fun r hr => ?_)
    have hrow := mem_of_findPendingSyncs w.stamp rfl r hr
    exact ⟨permits_tellingAsks w.db r.id, fun _ => tells_of_row hrow (.refl r), fun _ _ => trivial⟩
  · exact Or.inr ((hasks.2 x).mono fun _ _ ho => ho.grows hgrows)

/-- The ledger is in order, and all that HCM is or may be told is of stored requests. -/
structure TellingInv (s : SyncState) : Prop where
  sync : SyncInv s
  running : ∀ p ∈ s.running, Telling s.db p
  messages : ∀ m ∈ s.inFlight ++ s.processed, TellsOf s.db m

variable {env : Env}

theorem tellingInv_initial (clock : ℤ) : TellingInv (SyncState.initial clock) :=
  ⟨syncInv_initial clock, fun p hp => (by cases hp), fun m hm => (by cases hm)⟩

theorem TellingInv.running_step {s s' : SyncState} {l : SyncLabel} (hinv : TellingInv s)
    (hgrows : Grows s.db s'.db) (h : syncStep env s l = some s') :
    ∀ p ∈ s'.running, Telling s'.db p := by
  have hold : ∀ p ∈ s.running, Telling s'.db p := fun p hp => (hinv.running p hp).grows hgrows
  cases l with
  | ledger op fates =>
      obtain ⟨w, hw, rfl⟩ := Option.map_eq_some_iff.mp h
      exact hold
  | turn =>
      obtain ⟨c, rest, hdef, rfl⟩ := syncStep_turn h
      intro p hp
      rcases List.mem_append.mp hp with hp | hp
      · exact hold p hp
      · rw [List.mem_singleton.mp hp]
        exact Or.inr (hinv.sync.deferred c (hdef ▸ List.mem_cons_self)).tells
  | worker =>
      cases h
      intro p hp
      rcases List.mem_append.mp hp with hp | hp
      · exact hold p hp
      · exact Or.inl (List.mem_singleton.mp hp)
  | step i answer =>
      obtain ⟨o, k, x, w, hp, hexec, rfl⟩ := syncStep_step h
      intro q hq
      rcases List.mem_or_eq_of_mem_set hq with hq | rfl
      · exact hold q hq
      · exact (hinv.running _ (List.mem_of_getElem? hp)).step hgrows hexec
  | process m =>
      obtain ⟨msg, -, rfl⟩ := Option.map_eq_some_iff.mp h
      exact hold
  | drop m =>
      obtain ⟨msg, -, rfl⟩ := Option.map_eq_some_iff.mp h
      exact hold
  | restart =>
      cases h
      intro p hp
      cases hp

theorem TellingInv.messages_step {s s' : SyncState} {l : SyncLabel} (hinv : TellingInv s)
    (hgrows : Grows s.db s'.db) (h : syncStep env s l = some s') :
    ∀ m ∈ s'.inFlight ++ s'.processed, TellsOf s'.db m := by
  have hold : ∀ m ∈ s.inFlight ++ s.processed, TellsOf s'.db m :=
    fun m hm => (hinv.messages m hm).grows hgrows
  intro m hm
  cases syncStep_messages h with
  | sends _ msgs hflight hprocessed hsent =>
      rw [hflight, hprocessed, List.append_assoc, List.mem_append, List.mem_append] at hm
      rcases hm with hm | hm | hm
      · exact hold m (List.mem_append_left _ hm)
      · rcases hsent with rfl | ⟨i, answer, o, k, rfl, hp, rfl⟩
        · cases hm
        · obtain ⟨rfl, -⟩ := sent_spec hm
          rcases hinv.running _ (List.mem_of_getElem? hp) with hpass | hasks
          · cases hpass
          · exact TellsOf.grows hgrows hasks.1
      · exact hold m (List.mem_append_right _ hm)
  | processes j hj hflight hprocessed =>
      rw [hflight, hprocessed] at hm
      exact hold m ((perm_processed j hj).mem_iff.mp hm)
  | drops j hflight hprocessed =>
      rw [hflight, hprocessed] at hm
      rcases List.mem_append.mp hm with hm | hm
      · exact hold m (List.mem_append_left _ (List.mem_of_mem_eraseIdx hm))
      · exact hold m (List.mem_append_right _ hm)

/-- **One step** of the service tells HCM of stored requests only. -/
theorem TellingInv.step {s s' : SyncState} {l : SyncLabel} (hinv : TellingInv s)
    (h : syncStep env s l = some s') : TellingInv s' ∧ Grows s.db s'.db := by
  obtain ⟨hsync, hgrows⟩ := syncStep_inv hinv.sync h
  exact ⟨⟨hsync, hinv.running_step hgrows h, hinv.messages_step hgrows h⟩, hgrows⟩

/-! ## Both sides -/

/-- The service, the mock HCM, and the messages it has accepted. -/
structure Joint where
  service : SyncState
  hcm : MockServer.State
  accepted : List BalanceMutation

inductive JointLabel where
  /-- a step of the service, in which HCM may process a message -/
  | service (l : SyncLabel) (now : ℤ)
  /-- anything else that happens at HCM -/
  | upstream (e : MockServer.Event)

/-- A message as HCM is asked it. -/
def putRequest (m : BalanceMutation) : ApiRequest :=
  .putBalance (subjectOf (keyOf m)) (some m.daysRequested) (actionText m.action)

/-- The message that HCM processes in a step. -/
def Joint.processing (s : Joint) : SyncLabel → Option BalanceMutation
  | .process m => s.service.inFlight[m]?
  | _ => none

/-- A step of the service that cannot be taken changes nothing. -/
def jointStep (env : Env) (p : Instability) (s : Joint) : JointLabel → Joint
  | .upstream e => { s with hcm := s.hcm.after p e }
  | .service l now =>
      let service := (syncStep env s.service l).getD s.service
      match s.processing l with
      | none => { s with service := service }
      | some m =>
          let (reply, hcm) := MockServer.serve now s.hcm (putRequest m)
          { service := service, hcm := hcm
            accepted := if reply.succeeds then s.accepted ++ [m] else s.accepted }

/-- The days put under a key by others than the service. -/
def Joint.outsideCredits (k : String) (s : Joint) : JointLabel → ℚ
  | .service _ _ => 0
  | .upstream e => credits k s.hcm e

/-- The days they took off. -/
def Joint.outsideDebits (k : String) (s : Joint) : JointLabel → ℚ
  | .service _ _ => 0
  | .upstream e => debits k s.hcm e

/-- The days of the accepted messages of a key. -/
def Joint.told (k : String) (s : Joint) : ℚ :=
  sumWhere (fun m => textOf (keyOf m) = k) BalanceMutation.daysRequested s.accepted

/-- What is held of a key: what HCM has left, and what the service took. -/
def Joint.held (k : String) (s : Joint) : ℚ := s.hcm.available k + s.told k

/-! ## One step -/

structure JointInv (s : Joint) : Prop where
  telling : TellingInv s.service
  accepted : ∀ m ∈ s.accepted, TellsOf s.service.db m

variable {p : Instability} {k : String}

theorem TellingInv.getD {s : SyncState} (h : TellingInv s) (l : SyncLabel) :
    TellingInv ((syncStep env s l).getD s) ∧ Grows s.db ((syncStep env s l).getD s).db := by
  cases hstep : syncStep env s l with
  | none => exact ⟨h, .refl _⟩
  | some s' => exact h.step hstep

/-- The message that is processed tells of a stored request. -/
theorem JointInv.processing {s : Joint} (h : JointInv s) {l : SyncLabel} {m : BalanceMutation}
    (hm : s.processing l = some m) : TellsOf s.service.db m := by
  cases l with
  | process i => exact h.telling.messages m (List.mem_append_left _ (List.mem_of_getElem? hm))
  | _ => cases hm

theorem jointInv_step {s : Joint} (h : JointInv s) (l : JointLabel) :
    JointInv (jointStep env p s l) := by
  cases l with
  | upstream e => exact ⟨h.telling, h.accepted⟩
  | service l now =>
      obtain ⟨htelling, hgrows⟩ : TellingInv ((syncStep env s.service l).getD s.service)
          ∧ Grows s.service.db ((syncStep env s.service l).getD s.service).db :=
        h.telling.getD l
      have hold : ∀ m ∈ s.accepted, TellsOf ((syncStep env s.service l).getD s.service).db m :=
        fun m hm => (h.accepted m hm).grows hgrows
      simp only [jointStep]
      cases hm : s.processing l with
      | none => exact ⟨htelling, hold⟩
      | some m =>
          refine ⟨htelling, fun m' hm' => ?_⟩
          simp only at hm'
          split at hm'
          · rcases List.mem_append.mp hm' with hm' | hm'
            · exact hold m' hm'
            · rw [List.mem_singleton.mp hm']
              exact (h.processing hm).grows hgrows
          · exact hold m' hm'

/-- An approval that HCM answers: its days are taken off, or it is refused. -/
theorem held_serve (now : ℤ) (s : MockServer.State) (m : BalanceMutation)
    (happrove : m.action = .approve) (accepted : List BalanceMutation) :
    (MockServer.serve now s (putRequest m)).2.available k
        + sumWhere (fun m => textOf (keyOf m) = k) BalanceMutation.daysRequested
          (if (MockServer.serve now s (putRequest m)).1.succeeds then accepted ++ [m]
            else accepted)
      = s.available k
        + sumWhere (fun m => textOf (keyOf m) = k) BalanceMutation.daysRequested accepted := by
  have hcolumn := serve_column (k := k) available_zero available_credit now s (putRequest m)
  have htaken : (putRequest m).taken = m.daysRequested := by
    simp [putRequest, ApiRequest.taken, actionText, happrove]
  have hreturned : (putRequest m).returned = 0 := by
    simp [putRequest, ApiRequest.returned, actionText, happrove]
  have hkey : (putRequest m).key = some (textOf (keyOf m)) := rfl
  rw [htaken, hreturned] at hcolumn
  simp only [whereServed, hkey, Option.some.injEq] at hcolumn
  split
  · rename_i hsuccess
    simp only [hsuccess, and_true] at hcolumn
    rw [sumWhere_append, sumWhere_cons, sumWhere_nil]
    by_cases htext : textOf (keyOf m) = k
    · simp only [htext, if_true] at hcolumn
      simp only [htext, decide_true, if_true, MockServer.State.available]
      linarith
    · simp only [htext, if_false] at hcolumn
      simp only [htext, decide_false, MockServer.State.available]
      simp only [Bool.false_eq_true, if_false]
      linarith
  · rename_i hrefused
    simp only [hrefused, Bool.false_eq_true, and_false, if_false] at hcolumn
    simp only [MockServer.State.available]
    linarith

/-- **One step of both sides**: apart from what others do at HCM, days only go from its
record to the requests that were told of. -/
theorem held_step {s : Joint} (h : JointInv s) (l : JointLabel) :
    (jointStep env p s l).held k + s.outsideDebits k l = s.held k + s.outsideCredits k l := by
  cases l with
  | upstream e =>
      have hsettles := available_settles p k s.hcm e
      simp only [Joint.held, Joint.told, Joint.outsideDebits, Joint.outsideCredits, jointStep]
      linarith
  | service l now =>
      simp only [Joint.outsideDebits, Joint.outsideCredits, add_zero]
      simp only [jointStep]
      cases hm : s.processing l with
      | none => rfl
      | some m =>
          obtain ⟨r, -, rfl⟩ := h.processing hm
          exact held_serve now s.hcm _ rfl s.accepted

/-- HCM is not overdrawn by the service. -/
theorem solvent_step {s : Joint} {l : JointLabel}
    (hsound : ∀ e, l = .upstream e → e.Sound) (h : JointInv s)
    (havailable : 0 ≤ s.hcm.available k) :
    0 ≤ (jointStep env p s l).hcm.available k := by
  cases l with
  | upstream e => exact available_nonneg (hsound e rfl) havailable
  | service l now =>
      simp only [jointStep]
      cases hm : s.processing l with
      | none => exact havailable
      | some m =>
          obtain ⟨r, -, rfl⟩ := h.processing hm
          -- a message approves, so it returns no days
          have hreject : (Event.served (putRequest (approvalMessage r r.id)) now).Sound := by
            show "APPROVE" = "REJECT" → _
            intro hreject
            exact absurd hreject (by decide)
          have hnext : 0 ≤ (s.hcm.after p
              (.served (putRequest (approvalMessage r r.id)) now)).available k :=
            available_nonneg hreject havailable
          exact hnext

/-! ## Runs -/

def Joint.initial (clock : ℤ) (hcm : MockServer.State) : Joint :=
  ⟨SyncState.initial clock, hcm, []⟩

theorem jointInv_initial (clock : ℤ) (hcm : MockServer.State) :
    JointInv (.initial clock hcm) :=
  ⟨tellingInv_initial clock, fun m hm => (by cases hm)⟩

theorem jointInv_run {s : Joint} (h : JointInv s) (ls : List JointLabel) :
    JointInv (ls.foldl (jointStep env p) s) := by
  induction ls generalizing s with
  | nil => exact h
  | cons l ls ih => exact ih (jointInv_step h l)

theorem solvent_run {ls : List JointLabel} (hsound : ∀ e, .upstream e ∈ ls → e.Sound) {s : Joint}
    (h : JointInv s) (havailable : 0 ≤ s.hcm.available k) :
    0 ≤ (ls.foldl (jointStep env p) s).hcm.available k := by
  induction ls generalizing s with
  | nil => exact havailable
  | cons l ls ih =>
      have hfirst : 0 ≤ (jointStep env p s l).hcm.available k :=
        solvent_step (fun e he => hsound e (he ▸ List.mem_cons_self)) h havailable
      exact ih (fun e he => hsound e (List.mem_cons_of_mem l he)) (jointInv_step h l) hfirst

/-- How often HCM has accepted a message about the request. -/
def Joint.timesAccepted (s : Joint) (requestId : Id) : ℕ :=
  s.accepted.countP fun m => m.referenceId = requestId

/-- The days of the stored requests of a key, as often as HCM has accepted them. -/
def Joint.debited (k : String) (s : Joint) : ℚ :=
  sumWhere (fun r => textOf r.balanceKey = k)
    (fun r => s.timesAccepted r.id • r.daysRequested) s.service.db.requests.rows

/-- Every accepted message is one of the requests'. -/
theorem JointInv.told_eq {s : Joint} (h : JointInv s) (k : String) : s.told k = s.debited k := by
  refine sumWhere_of_rows s.service.db.requests.pk_nodup fun m hm => ?_
  obtain ⟨r, hr, rfl⟩ := h.accepted m hm
  exact ⟨r, hr, rfl, rfl, rfl⟩

/-- **What HCM loses to the service.** In every run of the service beside HCM, whatever is
answered, lost, repeated or late, and whatever others ask of HCM: what HCM has left under
a key, and the days of the service's stored requests of that key, each as often as HCM
has accepted it, are what HCM had at first and others have put there since. HCM is never
overdrawn unless others put something negative there. -/
theorem hcm_accounts (env : Env) (p : Instability) (clock : ℤ) (hcm : MockServer.State)
    (ls : List JointLabel) (k : String) :
    let s := ls.foldl (jointStep env p) (.initial clock hcm)
    s.hcm.available k + s.debited k
        + along (jointStep env p) (Joint.outsideDebits k) (.initial clock hcm) ls
      = hcm.available k
        + along (jointStep env p) (Joint.outsideCredits k) (.initial clock hcm) ls
    ∧ (0 ≤ hcm.available k → (∀ e, .upstream e ∈ ls → e.Sound) → 0 ≤ s.hcm.available k) := by
  intro s
  have hinv := jointInv_initial clock hcm
  have hkeep : ∀ s l, JointInv s → JointInv (jointStep env p s l) := fun s l h =>
    jointInv_step h l
  have hsettles : ∀ s l, JointInv s → (jointStep env p s l).held k + s.outsideDebits k l
      = s.held k + s.outsideCredits k l := fun s l h => held_step h l
  have hrun := settles_run hkeep hsettles hinv ls
  constructor
  · have hstart : (Joint.initial clock hcm).held k = hcm.available k := by
      simp [Joint.held, Joint.told, Joint.initial]
    rw [hstart, Joint.held, (jointInv_run hinv ls).told_eq k] at hrun
    exact hrun
  · intro havailable hsound
    exact solvent_run hsound hinv havailable

end LeaveLedger
