import LeaveLedger.Lib.Machine
import LeaveLedger.Sync.Judgement
import LeaveLedger.Sync.Notifiers

/-!
# Sync — The retry worker drains its queue

One pass of `retryPendingHcmSyncs` takes up to 50 of the requests with
`hcmSyncStatus` `PENDING` and gives each a turn. Whatever HCM answers, a
turn writes the request once: it ends the retries or counts one attempt.
`load` adds up what is left to count, so repeated passes come to an end.
-/

namespace LeaveLedger

open Js Lib

/-! ## Passes -/

def SvcOp.isHttp : SvcOp → Bool
  | .http _ => true
  | _ => false

/-- The service and the number of the next answer of HCM. -/
def execAnswers (answers : ℕ → HttpOutcome) (o : SvcOp) (s : World × ℕ) :
    Option (SvcSig.Res o × World × ℕ) :=
  (execSvc { answer := answers s.2 } o s.1).map fun x =>
    (x.1, x.2, if o.isHttp then s.2 + 1 else s.2)

/-- A pass: when it runs, and what HCM answers in it. -/
structure RetryPass where
  clock : ℤ
  answers : ℕ → HttpOutcome

/-- One pass, `none` if it does not end or throws. -/
def retryPass (hcm : HcmClient) (w : World) (pass : RetryPass) : Option World :=
  (hcm.retryPendingHcmSyncs.run (execAnswers pass.answers) ({ w with clock := pass.clock }, 0)).bind
    fun x => match x.1 with
      | .ok () => some x.2.1
      | .error _ => none

/-- The requests of the list whose turns ask HCM. -/
def sentBy (hcm : HcmClient) (answers : ℕ → HttpOutcome) :
    List TimeOffRequest → World × ℕ → List Id
  | [], _ => []
  | request :: rest, s =>
      match (hcm.retryRequest request).run (execAnswers answers) s with
      | some (_, s') => (if s'.2 = s.2 then [] else [request.id]) ++ sentBy hcm answers rest s'
      | none => []

/-- The rows a pass selects. -/
def pendingSyncs (db : Database) : List TimeOffRequest :=
  ((db.requests.rows.filter fun r => r.hcmSyncStatus = .pending).insertionSort
    fun a b => TimeOffRequest.retryLE a b).take 50

/-- The requests that are sent to HCM in a pass. -/
def sentInPass (hcm : HcmClient) (w : World) (pass : RetryPass) : List Id :=
  sentBy hcm pass.answers (pendingSyncs w.db)
    ({ w with clock := pass.clock, uuid := w.uuid + 1 }, 0)

/-- In how many passes of a run the request `id` is sent to HCM. -/
def passesSent (hcm : HcmClient) (id : Id) : World → List RetryPass → ℕ
  | _, [] => 0
  | w, pass :: passes =>
      (if id ∈ sentInPass hcm w pass then 1 else 0)
        + match retryPass hcm w pass with
          | some w' => passesSent hcm id w' passes
          | none => 0

/-- `11 - min(hcmSyncAttempts, 10)`, added up over the requests with `hcmSyncStatus`
`PENDING`. -/
def load (db : Database) : ℤ :=
  sumWhere (fun r => decide (r.hcmSyncStatus = .pending))
    (fun r => 11 - min (r.hcmSyncAttempts : ℤ) 10)
    db.requests.rows

/-- A method of the client asks HCM, and nothing else of the service. -/
def AsksHcm (p : Svc Json) : Prop :=
  ∃ request k, p = .await (.http request) k ∧ ∀ o, (k o).Asks fun o : SvcOp => o.isHttp = true

structure HcmClient.Remote (hcm : HcmClient) : Prop where
  validate : ∀ e l t d, AsksHcm (hcm.validateRequest e l t d)
  notify : ∀ e l t d id, AsksHcm (hcm.notifyApproval e l t d id)

/-- `HcmService` turns a failure into `null`. -/
theorem HcmClient.service_remote : HcmClient.service.Remote := by
  have hcall : ∀ request, AsksHcm (callWithResilience request) := by
    intro request
    have hasks : (callWithResilience request).Asks fun o : SvcOp => o.isHttp = true :=
      callWithResilience_asks rfl
    exact ⟨request, _, rfl, hasks.2⟩
  exact ⟨fun _ _ _ _ => hcall _, fun _ _ _ _ _ => hcall _⟩

/-- The data of an answer; a failure is thrown. -/
def dataOrThrow : HttpOutcome → Svc Json
  | .ok data => pure data
  | .error _ => throw (.driver "" "Request failed")

/-- A client that asks HCM once and throws where that fails. -/
def HcmClient.throwing : HcmClient where
  validateRequest e l t d := Svc.http (.validate e l t d) >>= dataOrThrow
  notifyApproval e l t d id :=
    Svc.http (.putBalance {
      employeeId := e, locationId := l, leaveType := t
      daysRequested := d, action := .approve, referenceId := id }) >>= dataOrThrow

theorem HcmClient.throwing_remote : HcmClient.throwing.Remote := by
  have hdata : ∀ o, (dataOrThrow o).Asks fun o : SvcOp => o.isHttp = true := by
    intro o
    cases o <;> trivial
  exact ⟨fun _ _ _ _ => ⟨_, _, rfl, hdata⟩, fun _ _ _ _ _ => ⟨_, _, rfl, hdata⟩⟩

/-! ## What a turn does -/

section
variable {hcm : HcmClient} {answers : ℕ → HttpOutcome} {w : World} {n : ℕ} {r : TimeOffRequest}

/-- Asking HCM leaves the service as it is. -/
theorem run_asks {α : Type} {p : Svc α} (h : p.Asks fun o : SvcOp => o.isHttp = true)
    (answers : ℕ → HttpOutcome) (w : World) (n : ℕ) :
    ∃ res n', p.run (execAnswers answers) (w, n) = some (res, w, n') ∧ n ≤ n' := by
  induction p generalizing n with
  | done a => exact ⟨.ok a, n, rfl, le_refl n⟩
  | fail e => exact ⟨.error e, n, rfl, le_refl n⟩
  | await o k ih =>
      cases o with
      | http request =>
          obtain ⟨res, n', hrun, hle⟩ := ih (answers n) (h.2 _) (n + 1)
          exact ⟨res, n', hrun, by omega⟩
      | _ => cases h.1

theorem AsksHcm.run {p : Svc Json} (h : AsksHcm p) (answers : ℕ → HttpOutcome) (w : World)
    (n : ℕ) :
    ∃ res n', p.run (execAnswers answers) (w, n) = some (res, w, n') ∧ n < n' := by
  obtain ⟨request, k, rfl, hk⟩ := h
  obtain ⟨res, n', hrun, hle⟩ := run_asks (hk (answers n)) answers w (n + 1)
  exact ⟨res, n', hrun, by omega⟩

/-- The service after the request `r` was written. -/
def World.written (w : World) (r : TimeOffRequest) (patch : RequestPatch) : World :=
  { w with db := w.db.updateRequest r.id patch w.clock, uuid := w.uuid + 1 }

/-- A patch that counts one attempt. -/
def Counts (r : TimeOffRequest) (patch : RequestPatch) : Prop :=
  patch.hcmSyncAttempts = some (r.hcmSyncAttempts + 1) ∧ patch.hcmSyncStatus ≠ none

/-- The script counts one attempt, or throws before it has written anything. -/
def WritesOnce (answers : ℕ → HttpOutcome) (r : TimeOffRequest) (p : Svc Unit) : Prop :=
  ∀ w n, ∃ n', n ≤ n' ∧
    ((∃ e, p.run (execAnswers answers) (w, n) = some (.error e, w, n')) ∨
    ∃ patch, Counts r patch
      ∧ p.run (execAnswers answers) (w, n) = some (.ok (), w.written r patch, n'))

theorem writesOnce_update (r : TimeOffRequest) (status : HcmSyncStatus) (validated : Option Bool) :
    WritesOnce answers r (updateSyncAttempt r status validated) := by
  intro w n
  refine ⟨n, le_refl n, .inr ⟨{
    hcmSyncStatus := some status, hcmValidated := validated
    hcmSyncAttempts := some (r.hcmSyncAttempts + 1), hcmLastSyncAt := some (some w.clock) },
    ⟨rfl, by simp⟩, rfl⟩⟩

theorem WritesOnce.ite {c : Prop} [Decidable c] {p q : Svc Unit} (hp : WritesOnce answers r p)
    (hq : WritesOnce answers r q) : WritesOnce answers r (if c then p else q) := by
  split
  · exact hp
  · exact hq

/-- First HCM is asked, then the answer decides what is written. -/
theorem WritesOnce.asking {p : Svc Json} {f : Json → Svc Unit} (hp : AsksHcm p)
    (hf : ∀ data, WritesOnce answers r (f data)) : WritesOnce answers r (p.bind f) := by
  intro w n
  obtain ⟨res, n₁, hrun, hlt⟩ := hp.run answers w n
  cases res with
  | error e =>
      refine ⟨n₁, by omega, .inl ⟨e, ?_⟩⟩
      rw [Script.run_bind, hrun]
      rfl
  | ok data =>
      obtain ⟨n₂, hle, hrest⟩ := hf data w n₁
      refine ⟨n₂, by omega, ?_⟩
      rw [Script.run_bind, hrun]
      exact hrest

theorem writesOnce_retryValidationOnly (hremote : hcm.Remote) (r : TimeOffRequest) :
    WritesOnce answers r (hcm.retryValidationOnly r) := by
  unfold HcmClient.retryValidationOnly
  dsimp only
  cases r.hcmValidated with
  | true => exact writesOnce_update r .success (some true)
  | false =>
      refine .asking (hremote.validate _ _ _ _) fun validation => ?_
      exact (writesOnce_update r _ _).ite ((writesOnce_update r _ _).ite (writesOnce_update r _ _))

theorem writesOnce_retryApprovalFlow (hremote : hcm.Remote) (r : TimeOffRequest) :
    WritesOnce answers r (hcm.retryApprovalFlow r) := by
  have hnotify : ∀ isValidated, WritesOnce answers r (hcm.retryValidated r isValidated) := by
    intro isValidated
    exact .asking (hremote.notify _ _ _ _ _) fun approval =>
      (writesOnce_update r _ _).ite (writesOnce_update r _ _)
  unfold HcmClient.retryApprovalFlow
  refine .ite (.asking (hremote.validate _ _ _ _) fun validation => ?_) (hnotify _)
  exact (writesOnce_update r _ _).ite ((writesOnce_update r _ _).ite (hnotify true))

/-- **One turn**: a request out of attempts is given up without asking HCM, for every other
one an attempt is counted. -/
theorem run_retryRequest (hremote : hcm.Remote) (answers : ℕ → HttpOutcome) (r : TimeOffRequest)
    (w : World) (n : ℕ) :
    ∃ patch n', (hcm.retryRequest r).run (execAnswers answers) (w, n)
        = some (.ok (), w.written r patch, n')
      ∧ ((maxPendingSyncRetries ≤ r.hcmSyncAttempts ∧ n' = n
          ∧ patch.hcmSyncStatus = some .failed ∧ patch.hcmSyncAttempts = none)
        ∨ (r.hcmSyncAttempts < maxPendingSyncRetries ∧ Counts r patch)) := by
  unfold HcmClient.retryRequest
  by_cases hmax : maxPendingSyncRetries ≤ r.hcmSyncAttempts
  · rw [if_pos hmax]
    exact ⟨{ hcmSyncStatus := some .failed, hcmLastSyncAt := some (some w.clock) }, n, rfl,
      .inl ⟨hmax, rfl, rfl, rfl⟩⟩
  · rw [if_neg hmax]
    have hbody : WritesOnce answers r (hcm.retryByStatus r) := by
      unfold HcmClient.retryByStatus
      cases r.status with
      | rejected => exact writesOnce_update r _ _
      | cancelled => exact writesOnce_update r _ _
      | pending => exact writesOnce_retryValidationOnly hremote r
      | approved => exact writesOnce_retryApprovalFlow hremote r
    obtain ⟨n', -, ⟨e, hrun⟩ | ⟨patch, hcounts, hrun⟩⟩ := hbody w n
    · -- the `catch` counts the attempt
      have hwrite : WritesOnce answers r (updateSyncAttempt r .pending none) :=
        writesOnce_update r _ _
      obtain ⟨n₂, -, ⟨e', hcatch⟩ | ⟨patch, hcounts, hcatch⟩⟩ := hwrite w n'
      · cases hcatch
      · refine ⟨patch, n₂, ?_, .inr ⟨by omega, hcounts⟩⟩
        simp only [HcmClient.tryRequest, Script.tryCatch_eq, Script.run_attempt]
        rw [hrun]
        exact hcatch
    · refine ⟨patch, n', ?_, .inr ⟨by omega, hcounts⟩⟩
      simp only [HcmClient.tryRequest, Script.tryCatch_eq, Script.run_attempt]
      rw [hrun]
      rfl

end

/-! ## What a pass does -/

/-- A row after its turn: its retries are over, or one attempt is counted. -/
structure Turned (r r' : TimeOffRequest) : Prop where
  id : r'.id = r.id
  status : r'.status = r.status
  counted : (maxPendingSyncRetries ≤ r.hcmSyncAttempts ∧ r'.hcmSyncStatus = .failed)
    ∨ (r.hcmSyncAttempts < maxPendingSyncRetries ∧ r'.hcmSyncAttempts = r.hcmSyncAttempts + 1)

/-- The rows `l` had their turns, in which the requests `sent` were sent to HCM. -/
structure Worked (l : List TimeOffRequest) (sent : List Id) (w w' : World)
    (f : TimeOffRequest → TimeOffRequest) : Prop where
  rows : w'.db.requests.rows = w.db.requests.rows.map f
  turned : ∀ r ∈ l, Turned r (f r)
  others : ∀ r ∈ w.db.requests.rows, r ∉ l → f r = r
  sent : ∀ id ∈ sent, ∃ r ∈ l, r.id = id ∧ r.hcmSyncAttempts < maxPendingSyncRetries
  balances : w'.db.balances = w.db.balances

section
variable {hcm : HcmClient}

theorem turned_apply {r : TimeOffRequest} {patch : RequestPatch} {now : ℤ}
    (h : (maxPendingSyncRetries ≤ r.hcmSyncAttempts ∧ patch.hcmSyncStatus = some .failed)
      ∨ (r.hcmSyncAttempts < maxPendingSyncRetries ∧ Counts r patch)) :
    Turned r (patch.apply now r) := by
  refine ⟨rfl, rfl, ?_⟩
  obtain ⟨hmax, hfailed⟩ | ⟨hmax, hcount, -⟩ := h
  · left
    exact ⟨hmax, by simp [RequestPatch.apply, hfailed]⟩
  · right
    exact ⟨hmax, by simp [RequestPatch.apply, hcount]⟩

/-- The turn of the first row, and then the turns of the rest. -/
theorem Worked.cons {r : TimeOffRequest} {rest : List TimeOffRequest} {sent₀ sent : List Id}
    {w w₁ w' : World} {f g : TimeOffRequest → TimeOffRequest} (hr : r ∈ w.db.requests.rows)
    (hne : ∀ x ∈ rest, x.id ≠ r.id) (hg : ∀ x, x.id ≠ r.id → g x = x) (hturned : Turned r (g r))
    (hrows : w₁.db.requests.rows = w.db.requests.rows.map g)
    (hbalances : w₁.db.balances = w.db.balances)
    (hsent : ∀ id ∈ sent₀, r.id = id ∧ r.hcmSyncAttempts < maxPendingSyncRetries)
    (h : Worked rest sent w₁ w' f) : Worked (r :: rest) (sent₀ ++ sent) w w' fun x => f (g x) := by
  have hmoved : ∀ x ∈ w.db.requests.rows, g x ∈ w₁.db.requests.rows := by
    intro x hx
    rw [hrows]
    exact List.mem_map_of_mem hx
  refine ⟨?_, ?_, ?_, ?_, h.balances.trans hbalances⟩
  · rw [h.rows, hrows, List.map_map]
    rfl
  · intro x hx
    obtain rfl | hx := List.mem_cons.mp hx
    · -- its row is none of those still to come
      have hnot : g x ∉ rest := fun hin => hne _ hin hturned.id
      show Turned x (f (g x))
      rw [h.others _ (hmoved x hr) hnot]
      exact hturned
    · show Turned x (f (g x))
      rw [hg x (hne x hx)]
      exact h.turned x hx
  · intro x hx hnot
    have hid : x.id ≠ r.id := by
      intro heq
      exact hnot (by simp [Table.eq_of_pk hx hr heq])
    have hkept : x ∈ w₁.db.requests.rows := hg x hid ▸ hmoved x hx
    show f (g x) = x
    rw [hg x hid]
    exact h.others x hkept fun hin => hnot (by simp [hin])
  · intro id hid
    obtain hid | hid := List.mem_append.mp hid
    · exact ⟨r, by simp, hsent id hid⟩
    · obtain ⟨x, hx, hxid⟩ := h.sent id hid
      exact ⟨x, by simp [hx], hxid⟩

/-- **The loop** over rows that are stored as they were read: every one has its turn. -/
theorem run_retryRequests (hremote : hcm.Remote) (answers : ℕ → HttpOutcome) :
    ∀ (l : List TimeOffRequest) (w : World) (n : ℕ), (∀ r ∈ l, r ∈ w.db.requests.rows) →
      (l.map TimeOffRequest.id).Nodup →
      ∃ f w' n', (hcm.retryRequests l).run (execAnswers answers) (w, n) = some (.ok (), w', n')
        ∧ Worked l (sentBy hcm answers l (w, n)) w w' f := by
  intro l
  induction l with
  | nil =>
      intro w n hmem hnd
      refine ⟨fun r => r, w, n, rfl, by simp, by simp, fun r hr hnot => rfl, ?_, rfl⟩
      intro id hid
      cases hid
  | cons r rest ih =>
      intro w n hmem hnd
      simp only [List.map_cons, List.nodup_cons] at hnd
      obtain ⟨patch, n₁, hrun, hpatch⟩ := run_retryRequest hremote answers r w n
      have hne : ∀ x ∈ rest, x.id ≠ r.id := by
        intro x hx heq
        exact hnd.1 (heq ▸ List.mem_map_of_mem hx)
      -- the rows after the turn of `r`
      let g : TimeOffRequest → TimeOffRequest :=
        fun x => if x.id = r.id then patch.apply w.clock x else x
      have hg : ∀ x, x.id ≠ r.id → g x = x := fun x hx => if_neg hx
      have hgr : g r = patch.apply w.clock r := if_pos rfl
      have hrows : (w.written r patch).db.requests.rows = w.db.requests.rows.map g := rfl
      have hrest : ∀ x ∈ rest, x ∈ (w.written r patch).db.requests.rows := by
        intro x hx
        rw [hrows]
        exact List.mem_map.mpr ⟨x, hmem x (by simp [hx]), hg x (hne x hx)⟩
      have hturned : Turned r (g r) := by
        rw [hgr]
        refine turned_apply ?_
        obtain ⟨hmax, -, hfailed, -⟩ | hcount := hpatch
        · exact .inl ⟨hmax, hfailed⟩
        · exact .inr hcount
      obtain ⟨f, w', n', hloop, hworked⟩ := ih (w.written r patch) n₁ hrest hnd.2
      refine ⟨fun x => f (g x), w', n', ?_, ?_⟩
      · simp only [HcmClient.retryRequests, Script.bind_eq, Script.run_bind, hrun,
          Option.bind_some]
        exact hloop
      · simp only [sentBy, hrun]
        refine Worked.cons (hmem r (by simp)) hne hg hturned hrows rfl ?_ hworked
        intro id hid
        obtain ⟨-, rfl, -⟩ | ⟨hmax, -⟩ := hpatch
        · simp at hid
        · split at hid
          · cases hid
          · exact ⟨(List.mem_singleton.mp hid).symm, hmax⟩

theorem mem_pendingSyncs {db : Database} {r : TimeOffRequest} (h : r ∈ pendingSyncs db) :
    r ∈ db.requests.rows ∧ r.hcmSyncStatus = .pending := by
  have hsorted := List.mem_of_mem_take h
  rw [List.mem_insertionSort] at hsorted
  simpa using List.mem_filter.mp hsorted

theorem nodup_pendingSyncs (db : Database) : ((pendingSyncs db).map TimeOffRequest.id).Nodup := by
  unfold pendingSyncs
  rw [List.map_take]
  refine List.Nodup.sublist (List.take_sublist _ _) ?_
  refine (((List.perm_insertionSort _ _).map TimeOffRequest.id).nodup_iff).mpr ?_
  exact List.Nodup.sublist (List.filter_sublist.map _) db.requests.pk_nodup

/-- A pass selects a request as long as there is one. -/
theorem exists_pendingSyncs {db : Database} {r : TimeOffRequest} (hr : r ∈ db.requests.rows)
    (hpending : r.hcmSyncStatus = .pending) : ∃ r', r' ∈ pendingSyncs db := by
  refine List.exists_mem_of_ne_nil _ fun hnil => ?_
  have hmem : r ∈ (db.requests.rows.filter fun r => r.hcmSyncStatus = .pending).insertionSort
      fun a b => TimeOffRequest.retryLE a b := by
    rw [List.mem_insertionSort]
    exact List.mem_filter.mpr ⟨hr, by simpa using hpending⟩
  unfold pendingSyncs at hnil
  rw [List.take_eq_nil_iff] at hnil
  obtain hzero | hnil := hnil
  · cases hzero
  · rw [hnil] at hmem
    cases hmem

/-- **One pass** ends, and every row it selects has its turn. -/
theorem retryPass_worked (hremote : hcm.Remote) (w : World) (pass : RetryPass) :
    ∃ f w', retryPass hcm w pass = some w'
      ∧ Worked (pendingSyncs w.db) (sentInPass hcm w pass) w w' f := by
  obtain ⟨f, w', n', hrun, hworked⟩ := run_retryRequests hremote pass.answers
    (pendingSyncs w.db) { w with clock := pass.clock, uuid := w.uuid + 1 } 0
    (fun r hr => (mem_pendingSyncs hr).1) (nodup_pendingSyncs w.db)
  have hfind : (Svc.stmt .findPendingSyncs).run (execAnswers pass.answers)
      ({ w with clock := pass.clock }, 0)
      = some (.ok (pendingSyncs w.db), { w with clock := pass.clock, uuid := w.uuid + 1 }, 0) := rfl
  refine ⟨f, w', ?_, hworked.rows, hworked.turned, hworked.others, hworked.sent,
    hworked.balances⟩
  simp only [retryPass, HcmClient.retryPendingHcmSyncs, Script.bind_eq, Script.run_bind, hfind,
    Option.bind_some, hrun]

/-! ## What is left to count -/

/-- What a row adds to the load. -/
def syncLoad (r : TimeOffRequest) : ℤ :=
  if decide (r.hcmSyncStatus = .pending) then 11 - min (r.hcmSyncAttempts : ℤ) 10 else 0

/-- A turn of a pending row takes something off. -/
theorem Turned.syncLoad_lt {r r' : TimeOffRequest} (h : Turned r r')
    (hpending : r.hcmSyncStatus = .pending) : syncLoad r' < syncLoad r := by
  have hr : syncLoad r = 11 - min (r.hcmSyncAttempts : ℤ) 10 := by simp [syncLoad, hpending]
  rw [hr]
  obtain ⟨-, hfailed⟩ | ⟨hmax, hcount⟩ := h.counted
  · have hr' : syncLoad r' = 0 := by simp [syncLoad, hfailed]
    omega
  · unfold maxPendingSyncRetries at hmax
    unfold syncLoad
    rw [hcount]
    split
    · push_cast
      omega
    · omega

variable {w w' : World} {f : TimeOffRequest → TimeOffRequest} {sent : List Id}

theorem Worked.syncLoad_le (h : Worked (pendingSyncs w.db) sent w w' f) :
    ∀ r ∈ w.db.requests.rows, syncLoad (f r) ≤ syncLoad r := by
  intro r hr
  by_cases hl : r ∈ pendingSyncs w.db
  · exact le_of_lt ((h.turned r hl).syncLoad_lt (mem_pendingSyncs hl).2)
  · rw [h.others r hr hl]

/-- A pass on a table with a pending request lowers the load. -/
theorem Worked.load_lt (h : Worked (pendingSyncs w.db) sent w w' f)
    (hpending : ∃ r ∈ w.db.requests.rows, r.hcmSyncStatus = .pending) :
    load w'.db < load w.db := by
  obtain ⟨r, hr, hstatus⟩ := hpending
  obtain ⟨r', hr'⟩ := exists_pendingSyncs hr hstatus
  unfold load
  rw [h.rows]
  exact sumWhere_map_lt _ _ f h.syncLoad_le (mem_pendingSyncs hr').1
    ((h.turned r' hr').syncLoad_lt (mem_pendingSyncs hr').2)

/-- A pass makes no request pending. -/
theorem Worked.pending_of_pending (h : Worked (pendingSyncs w.db) sent w w' f)
    (hpending : ∃ r ∈ w'.db.requests.rows, r.hcmSyncStatus = .pending) :
    ∃ r ∈ w.db.requests.rows, r.hcmSyncStatus = .pending := by
  obtain ⟨r', hr', hstatus⟩ := hpending
  rw [h.rows] at hr'
  obtain ⟨r, hr, rfl⟩ := List.mem_map.mp hr'
  by_cases hl : r ∈ pendingSyncs w.db
  · exact ⟨r, hr, (mem_pendingSyncs hl).2⟩
  · rw [h.others r hr hl] at hstatus
    exact ⟨r, hr, hstatus⟩

theorem load_pos {db : Database} (h : ∃ r ∈ db.requests.rows, r.hcmSyncStatus = .pending) :
    0 < load db := by
  obtain ⟨r, hr, hstatus⟩ := h
  have hle : 11 - min (r.hcmSyncAttempts : ℤ) 10 ≤ load db :=
    le_sumWhere (w := fun r : TimeOffRequest => 11 - min (r.hcmSyncAttempts : ℤ) 10)
      (fun b _ _ => by omega) hr (by simpa using hstatus)
  omega

/-- **Runs of passes** end, and as long as a request is pending each has taken something
off the load. -/
theorem run_load (hremote : hcm.Remote) (passes : List RetryPass) (w : World) :
    ∃ w', run (retryPass hcm) w passes = some w'
      ∧ ((∃ r ∈ w'.db.requests.rows, r.hcmSyncStatus = .pending) →
        (∃ r ∈ w.db.requests.rows, r.hcmSyncStatus = .pending)
          ∧ load w'.db + passes.length ≤ load w.db) := by
  induction passes generalizing w with
  | nil =>
      refine ⟨w, rfl, fun h => ⟨h, ?_⟩⟩
      simp
  | cons pass passes ih =>
      obtain ⟨f, w₁, hpass, hworked⟩ := retryPass_worked hremote w pass
      obtain ⟨w', hrun, hleft⟩ := ih w₁
      refine ⟨w', by rw [run_cons, hpass]; exact hrun, fun h => ?_⟩
      obtain ⟨hpending, hload⟩ := hleft h
      have hbefore := hworked.pending_of_pending hpending
      have hlt := hworked.load_lt hbefore
      refine ⟨hbefore, ?_⟩
      simp only [List.length_cons]
      push_cast
      omega

/-! ## What passes leave alone -/

theorem run_keeps (hremote : hcm.Remote) (passes : List RetryPass) (w w' : World)
    (hrun : run (retryPass hcm) w passes = some w') :
    w'.db.balances = w.db.balances
      ∧ (w'.db.requests.rows.map fun r => (r.id, r.status))
        = w.db.requests.rows.map fun r => (r.id, r.status) := by
  refine run_induct (I := fun s : World => s.db.balances = w.db.balances
    ∧ (s.db.requests.rows.map fun r => (r.id, r.status))
      = w.db.requests.rows.map fun r => (r.id, r.status)) ?_ ⟨rfl, rfl⟩ hrun
  intro s pass s' ⟨hbalances, hstatuses⟩ hpass
  obtain ⟨f, s₁, hpass', hworked⟩ := retryPass_worked hremote s pass
  rw [hpass] at hpass'
  cases hpass'
  refine ⟨hworked.balances.trans hbalances, ?_⟩
  rw [hworked.rows, List.map_map, ← hstatuses]
  refine List.map_congr_left fun r hr => ?_
  by_cases hl : r ∈ pendingSyncs s.db
  · have hturned := hworked.turned r hl
    simp [hturned.id, hturned.status]
  · simp [hworked.others r hr hl]

/-! ## How often a request is sent -/

/-- The passes in which a row can still be sent to HCM. -/
def sendsLeft (r : TimeOffRequest) : ℕ :=
  if r.hcmSyncStatus = .pending then maxPendingSyncRetries - r.hcmSyncAttempts else 0

theorem Turned.sendsLeft_le {r r' : TimeOffRequest} (h : Turned r r')
    (hpending : r.hcmSyncStatus = .pending) :
    sendsLeft r' ≤ sendsLeft r
      ∧ (r.hcmSyncAttempts < maxPendingSyncRetries → sendsLeft r' + 1 ≤ sendsLeft r) := by
  have hr : sendsLeft r = maxPendingSyncRetries - r.hcmSyncAttempts := by
    simp [sendsLeft, hpending]
  rw [hr]
  obtain ⟨hmax, hfailed⟩ | ⟨hmax, hcount⟩ := h.counted
  · have hr' : sendsLeft r' = 0 := by simp [sendsLeft, hfailed]
    omega
  · have hr' : sendsLeft r' ≤ maxPendingSyncRetries - (r.hcmSyncAttempts + 1) := by
      unfold sendsLeft
      rw [hcount]
      split <;> omega
    omega

/-- A pass in which a row is sent uses one of its sends up. -/
theorem Worked.sendsLeft_le (h : Worked (pendingSyncs w.db) sent w w' f) {r : TimeOffRequest}
    (hr : r ∈ w.db.requests.rows) :
    (if r.id ∈ sent then 1 else 0) + sendsLeft (f r) ≤ sendsLeft r := by
  by_cases hl : r ∈ pendingSyncs w.db
  · obtain ⟨hle, hlt⟩ := (h.turned r hl).sendsLeft_le (mem_pendingSyncs hl).2
    split
    · next hsent =>
      obtain ⟨r', hr', hid, hmax⟩ := h.sent r.id hsent
      rw [Table.eq_of_pk (mem_pendingSyncs hr').1 hr hid] at hmax
      have := hlt hmax
      omega
    · omega
  · rw [h.others r hr hl]
    split
    · next hsent =>
      obtain ⟨r', hr', hid, -⟩ := h.sent r.id hsent
      rw [Table.eq_of_pk (mem_pendingSyncs hr').1 hr hid] at hr'
      exact absurd hr' hl
    · omega

theorem passesSent_le (hremote : hcm.Remote) (passes : List RetryPass) :
    ∀ (w : World) (r : TimeOffRequest), r ∈ w.db.requests.rows →
      passesSent hcm r.id w passes ≤ sendsLeft r := by
  induction passes with
  | nil =>
      intro w r hr
      exact Nat.zero_le _
  | cons pass passes ih =>
      intro w r hr
      obtain ⟨f, w₁, hpass, hworked⟩ := retryPass_worked hremote w pass
      have hid : (f r).id = r.id := by
        by_cases hl : r ∈ pendingSyncs w.db
        · exact (hworked.turned r hl).id
        · rw [hworked.others r hr hl]
      have hfr : f r ∈ w₁.db.requests.rows := by
        rw [hworked.rows]
        exact List.mem_map_of_mem hr
      have hlater := ih w₁ (f r) hfr
      have hsends := hworked.sendsLeft_le hr
      rw [hid] at hlater
      simp only [passesSent, hpass]
      omega

/-- **The worker drains its queue**: with any client that asks HCM, whatever HCM answers in
whichever pass, every pass ends, and lowers the load of a table with a pending request; a
run of as many passes as the load leaves none pending; a request is sent to HCM in no more
passes than it has attempts left, and no pass changes the status of a request or a
balance. -/
theorem retry_worker_drains (hcm : HcmClient) (hremote : hcm.Remote) (w : World)
    (passes : List RetryPass) :
    ∃ w', run (retryPass hcm) w passes = some w'
      ∧ (∀ pass, (∃ r ∈ w.db.requests.rows, r.hcmSyncStatus = .pending) →
        ∃ w₁, retryPass hcm w pass = some w₁ ∧ load w₁.db < load w.db)
      ∧ (load w.db ≤ passes.length → ∀ r ∈ w'.db.requests.rows, r.hcmSyncStatus ≠ .pending)
      ∧ (∀ r ∈ w.db.requests.rows, passesSent hcm r.id w passes ≤ 10 - r.hcmSyncAttempts)
      ∧ (w'.db.requests.rows.map fun r => (r.id, r.status))
        = (w.db.requests.rows.map fun r => (r.id, r.status))
      ∧ w'.db.balances = w.db.balances := by
  obtain ⟨w', hrun, hleft⟩ := run_load hremote passes w
  obtain ⟨hbalances, hstatuses⟩ := run_keeps hremote passes w w' hrun
  refine ⟨w', hrun, fun pass hpending => ?_, fun hload r hr hpending => ?_, fun r hr => ?_,
    hstatuses, hbalances⟩
  · obtain ⟨f, w₁, hpass, hworked⟩ := retryPass_worked hremote w pass
    exact ⟨w₁, hpass, hworked.load_lt hpending⟩
  · have hpos := load_pos ⟨r, hr, hpending⟩
    obtain ⟨-, hle⟩ := hleft ⟨r, hr, hpending⟩
    omega
  · have hsends := passesSent_le hremote passes w r hr
    have hleft : sendsLeft r ≤ 10 - r.hcmSyncAttempts := by
      unfold sendsLeft maxPendingSyncRetries
      split <;> omega
    omega

/-- Every call of HCM throws for eleven passes, and the request is given up. -/
theorem retry_worker_drains_down :
    ∃ w', run (retryPass .throwing) createdWorld
        (List.replicate 11 ⟨0, fun _ => .error .noResponse⟩) = some w'
      ∧ ∀ r ∈ w'.db.requests.rows, r.hcmSyncStatus ≠ .pending := by
  obtain ⟨w', hrun, -, hdrained, -⟩ := retry_worker_drains .throwing HcmClient.throwing_remote
    createdWorld (List.replicate 11 ⟨0, fun _ => .error .noResponse⟩)
  exact ⟨w', hrun, hdrained (by decide)⟩

end

end LeaveLedger
