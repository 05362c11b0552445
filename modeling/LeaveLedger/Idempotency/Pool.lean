import LeaveLedger.Idempotency.Outcome
import LeaveLedger.Ledger.Growth

/-!
# Idempotency — Concurrent calls

The machine of calls in flight: any number of calls of `createRequest`,
`approveRequest`, `rejectRequest` and `cancelRequest`, each advanced by one
request at a time, in any order. Transactions are atomic and may fail
before or at their commit. Between the steps the clock moves, balances are
seeded and reconciled, and the notifiers write the HCM columns of
requests. The world only grows (`Extends`), and a step of a create either
leaves the database alone or is the commit of its transaction.
-/

namespace LeaveLedger

open Js Lib

/-! ## The machine -/

inductive Call where
  | create (dto : CreateTimeOffRequestDto) (idempotencyKey : String)
  | settle (s : Settlement) (requestId : Id)
  deriving DecidableEq

def Call.script (env : Env) : Call → Svc SerializedRequest
  | .create dto k => createRequest env dto k
  | .settle s id => s.request id

/-- A call in flight or over: what it is, and what remains of it. -/
structure Thread where
  call : Call
  script : Svc SerializedRequest

structure Pool where
  world : World
  threads : List Thread

def Pool.initial (clock : ℤ) : Pool := ⟨World.initial clock, []⟩

abbrev Pool.db (s : Pool) : Database := s.world.db

inductive PoolLabel where
  | call (c : Call)
  | step (i : ℕ) (fate : Fate)
  | balance (op : BalanceOp) (fates : List Fate)
  | sync (requestId : Id) (patch : RequestPatch)
  | tick (ms : ℕ)

/-- One request of one thread. -/
def threadStep (fate : Fate) (w : World) (t : Thread) : Option (World × Thread) :=
  match t.script with
  | .await o k => (execSvc fate o w).map fun r => (r.2, { t with script := k r.1 })
  | .done _ => none
  | .fail _ => none

def poolStep (env : Env) (s : Pool) : PoolLabel → Option Pool
  | .call c => some { s with threads := s.threads ++ [⟨c, c.script env⟩] }
  | .step i fate => (s.threads[i]?).bind fun t => (threadStep fate s.world t).map fun r =>
      { world := r.1, threads := s.threads.set i r.2 }
  | .balance op fates => (balanceStep env s.world (op, fates)).map fun w => { s with world := w }
  | .sync id patch => some { s with world := { s.world with
      db := s.db.updateRequest id patch s.world.clock } }
  | .tick ms => some { s with world := { s.world with clock := s.world.clock + ms } }

/-- Open the row of the sample payload. -/
def openRow (total : ℚ) : PoolLabel :=
  .balance (.upsertBalance sampleDto.employeeId sampleDto.locationId sampleDto.leaveType total) []

/-! ## What a step does to the database -/

/-- The effect of one step: nothing that a request or a record can see but new
values in columns that may change, or the commit of a create. -/
inductive Effect (env : Env) (s : Pool) (l : PoolLabel) (s' : Pool) : Prop where
  | created (i : ℕ) (fate : Fate) (t : Thread) (dto : CreateTimeOffRequestDto) (k : String)
      (d : ℚ) (b b' : EmployeeBalance) (r : TimeOffRequest) (rec : IdempotencyRecord)
      (hl : l = .step i fate) (ht : s.threads[i]? = some t) (hcall : t.call = .create dto k)
      (hd : daysOf dto = some d) (hvalid : ValidInput dto k)
      (h : Created env dto k (requestHashOf env dto) s.world s'.world d b b' r rec)
  | updated (hext : Extends s.db s'.db) (hrec : s'.db.records = s.db.records)
      (hback : ∀ r' ∈ s'.db.requests.rows, ∃ r ∈ s.db.requests.rows, SameRequest r r')

variable {env : Env}

theorem Effect.of_same {s s' : Pool} {l : PoolLabel} (hreq : s'.db.requests = s.db.requests)
    (hrec : s'.db.records = s.db.records) : Effect env s l s' := by
  refine .updated ⟨fun r hr => ⟨r, ?_, .refl r⟩, fun rec h => ?_⟩ hrec fun r hr => ⟨r, ?_, .refl r⟩
  · rw [hreq]; exact hr
  · rw [hrec]; exact h
  · rw [← hreq]; exact hr

theorem Effect.of_db {s s' : Pool} {l : PoolLabel} (h : s'.db = s.db) : Effect env s l s' :=
  .of_same (by rw [h]) (by rw [h])

theorem Effect.extends {s s' : Pool} {l : PoolLabel} (h : Effect env s l s') :
    Extends s.db s'.db := by
  cases h with
  | created i fate t dto k d b b' r rec hl ht hcall hd hvalid h =>
      refine ⟨fun x hx => ⟨x, h.requests.mem_iff.mpr (Or.inl hx), .refl x⟩, fun x hx => ?_⟩
      exact h.records.mem_iff.mpr (Or.inl hx)
  | updated hext hrec hback => exact hext

/-! ## The invariant of the pool -/

/-- The requests a call may make. -/
def Call.Asks (env : Env) : Call → SvcOp → Prop
  | .create dto k, o => CreateAsks env dto k o
  | .settle s id, o => o = .transaction (s.transaction id)

theorem Call.script_asks (env : Env) (c : Call) : (c.script env).Asks (c.Asks env) := by
  cases c with
  | create dto k => exact createRequest_asks
  | settle s id => exact settlement_asks s id

theorem Call.script_answers (env : Env) (c : Call) :
    (c.script env).Always (Answers serializeRequest) := by
  cases c with
  | create dto k => exact createRequest_answers
  | settle s id => exact settlement_answers s id

/-- What remains of a call is a rest of its program. -/
structure Thread.Ok (env : Env) (t : Thread) : Prop where
  asks : t.script.Asks (t.call.Asks env)
  answers : t.script.Always (Answers serializeRequest)

theorem Thread.ok_start (env : Env) (c : Call) : Thread.Ok env ⟨c, c.script env⟩ :=
  ⟨c.script_asks env, c.script_answers env⟩

theorem Thread.Ok.next {t : Thread} {o : SvcOp} {k : SvcSig.Res o → Svc SerializedRequest}
    (h : t.Ok env) (hscript : t.script = .await o k) (r : SvcSig.Res o) :
    Thread.Ok env { t with script := k r } := by
  obtain ⟨hasks, hanswers⟩ := h
  rw [hscript] at hasks hanswers
  exact ⟨hasks.2 r, hanswers.2 r⟩

/-- The threads are what remains of their calls, and the database satisfies the
ledger invariant. -/
structure PoolInv (env : Env) (s : Pool) : Prop where
  ledger : LedgerInv s.db
  threads : ∀ t ∈ s.threads, t.Ok env

theorem poolStep_step {s s' : Pool} {i : ℕ} {fate : Fate}
    (h : poolStep env s (.step i fate) = some s') :
    ∃ t o k r w, s.threads[i]? = some t ∧ t.script = .await o k
      ∧ execSvc fate o s.world = some (r, w)
      ∧ s' = ⟨w, s.threads.set i { t with script := k r }⟩ := by
  obtain ⟨t, ht, h⟩ := Option.bind_eq_some_iff.mp h
  obtain ⟨⟨w, t'⟩, hstep, rfl⟩ := Option.map_eq_some_iff.mp h
  unfold threadStep at hstep
  cases hscript : t.script with
  | done a => rw [hscript] at hstep; cases hstep
  | fail e => rw [hscript] at hstep; cases hstep
  | await o k =>
      rw [hscript] at hstep
      obtain ⟨⟨r, w₁⟩, hexec, heq⟩ := Option.map_eq_some_iff.mp hstep
      obtain ⟨rfl, rfl⟩ := Prod.mk.inj heq
      exact ⟨t, o, k, r, w₁, ht, hscript, hexec, rfl⟩

theorem poolStep_threads {s s' : Pool} {l : PoolLabel} (hinv : PoolInv env s)
    (h : poolStep env s l = some s') : ∀ t ∈ s'.threads, t.Ok env := by
  intro t' ht'
  cases l with
  | call c =>
      cases h
      rcases List.mem_append.mp ht' with hold | hnew
      · exact hinv.threads t' hold
      · obtain rfl := List.mem_singleton.mp hnew
        exact Thread.ok_start env c
  | step i fate =>
      obtain ⟨t, o, k, r, w, ht, hscript, -, rfl⟩ := poolStep_step h
      rcases List.mem_or_eq_of_mem_set ht' with hold | rfl
      · exact hinv.threads t' hold
      · exact (hinv.threads t (List.mem_of_getElem? ht)).next hscript r
  | balance op fates =>
      obtain ⟨w, -, rfl⟩ := Option.map_eq_some_iff.mp h
      exact hinv.threads t' ht'
  | sync id patch => cases h; exact hinv.threads t' ht'
  | tick ms => cases h; exact hinv.threads t' ht'

/-- **One step of the pool** keeps the ledger invariant, and has one of the
effects. -/
theorem poolStep_effect {s s' : Pool} {l : PoolLabel} (hinv : PoolInv env s)
    (h : poolStep env s l = some s') : LedgerInv s'.db ∧ Effect env s l s' := by
  cases l with
  | call c => cases h; exact ⟨hinv.ledger, .of_db rfl⟩
  | step i fate =>
      obtain ⟨⟨c, script⟩, o, k, r, w, ht, hscript, hexec, rfl⟩ := poolStep_step h
      have hasks := (hinv.threads _ (List.mem_of_getElem? ht)).asks
      rw [hscript] at hasks
      cases c with
      | create dto key =>
          rcases (createStep hasks.1 hexec).2 with hdb | ⟨d, b, b', req, rec, hd, hvalid, -, -, hc⟩
          · exact ⟨hinv.ledger.of_db hdb, .of_db hdb⟩
          · exact ⟨hc.ledgerInv (daysOf_pos hd) hinv.ledger,
              .created i fate _ dto key d b b' req rec rfl ht rfl hd hvalid hc⟩
      | settle s id =>
          rcases (settleStep hasks.1 hexec).2 with hdb | ⟨req, req', b, b', hset⟩
          · exact ⟨hinv.ledger.of_db hdb, .of_db hdb⟩
          · refine ⟨hset.ledgerInv hinv.ledger, .updated ?_ hset.records fun x hx => ?_⟩
            · exact .of_replaced hset.requests (saveOver_same hset.row) hset.records
            · exact exists_of_replaced hset.requests (saveOver_same hset.row) hx
  | balance op fates =>
      obtain ⟨w, hw, rfl⟩ := Option.map_eq_some_iff.mp h
      refine ⟨balanceStep_inv hw hinv.ledger, ?_⟩
      rcases balanceStep_cases hw with hdb | hopened | hraised
      · exact .of_db hdb
      · exact .of_same hopened.requests hopened.records
      · exact .of_same hraised.requests hraised.records
  | sync id patch =>
      cases h
      refine ⟨hinv.ledger.of_sync id patch _, .updated ⟨fun r hr => ?_, fun rec h => h⟩ rfl
        fun r' hr' => ?_⟩
      · by_cases hid : r.id = id
        · exact ⟨patch.apply s.world.clock r, mem_updateRequest.mpr ⟨r, hr, by rw [if_pos hid]⟩,
            patch_same _ _ r⟩
        · exact ⟨r, mem_updateRequest.mpr ⟨r, hr, by rw [if_neg hid]⟩, .refl r⟩
      · obtain ⟨r, hr, rfl⟩ := mem_updateRequest.mp hr'
        by_cases hid : r.id = id
        · rw [if_pos hid]; exact ⟨r, hr, patch_same _ _ r⟩
        · rw [if_neg hid]; exact ⟨r, hr, .refl r⟩
  | tick ms => cases h; exact ⟨hinv.ledger, .of_db rfl⟩

theorem poolStep_inv {s s' : Pool} {l : PoolLabel} (hinv : PoolInv env s)
    (h : poolStep env s l = some s') : PoolInv env s' :=
  ⟨(poolStep_effect hinv h).1, poolStep_threads hinv h⟩

theorem poolInv_initial (env : Env) (clock : ℤ) : PoolInv env (Pool.initial clock) :=
  ⟨ledgerInv_empty, fun t ht => by cases ht⟩

theorem poolInv_run {clock : ℤ} {ls : List PoolLabel} {s : Pool}
    (h : run (poolStep env) (Pool.initial clock) ls = some s) : PoolInv env s :=
  run_induct (fun _ _ _ hI hstep => poolStep_inv hI hstep) (poolInv_initial env clock) h

/-- What a run has stored stays. -/
theorem run_extends {ls : List PoolLabel} {s s' : Pool} (hinv : PoolInv env s)
    (h : run (poolStep env) s ls = some s') : Extends s.db s'.db := by
  induction ls generalizing s with
  | nil => cases h; exact .refl _
  | cons l ls ih =>
      obtain ⟨s₁, h₁, h₂⟩ := run_cons_some h
      exact (poolStep_effect hinv h₁).2.extends.trans (ih (poolStep_inv hinv h₁) h₂)

/-! ## One thread among others -/

/-- A thread keeps its place and its call, and what one step of its script
keeps. -/
theorem poolStep_thread {Q : Svc SerializedRequest → Prop} {s s' : Pool} {l : PoolLabel}
    {i : ℕ} {t : Thread} (hstep : poolStep env s l = some s') (ht : s.threads[i]? = some t)
    (hQ : Q t.script)
    (hnext : ∀ fate o k r w, l = .step i fate → t.script = .await o k →
      execSvc fate o s.world = some (r, w) → s'.world = w → Q (k r)) :
    ∃ t', s'.threads[i]? = some t' ∧ t'.call = t.call ∧ Q t'.script := by
  have hlt : i < s.threads.length := (List.getElem?_eq_some_iff.mp ht).1
  cases l with
  | call c =>
      cases hstep
      refine ⟨t, ?_, rfl, hQ⟩
      rw [List.getElem?_append_left hlt]
      exact ht
  | step j fate =>
      obtain ⟨t₀, o, k, r, w, ht₀, hscript, hexec, rfl⟩ := poolStep_step hstep
      by_cases hij : j = i
      · subst hij
        rw [ht] at ht₀
        cases ht₀
        exact ⟨_, List.getElem?_set_self hlt, rfl, hnext fate o k r w rfl hscript hexec rfl⟩
      · refine ⟨t, ?_, rfl, hQ⟩
        rw [List.getElem?_set_ne hij]
        exact ht
  | balance op fates =>
      obtain ⟨w, -, rfl⟩ := Option.map_eq_some_iff.mp hstep
      exact ⟨t, ht, rfl, hQ⟩
  | sync id patch => cases hstep; exact ⟨t, ht, rfl, hQ⟩
  | tick ms => cases hstep; exact ⟨t, ht, rfl, hQ⟩

/-- What every continuation of a script keeps, a thread keeps to the end of the
run. -/
theorem run_thread {Q : Svc SerializedRequest → Prop}
    (hnext : ∀ o k r, Q (.await o k) → Q (k r)) {ls : List PoolLabel} {s s' : Pool} {i : ℕ}
    {t : Thread} (hrun : run (poolStep env) s ls = some s') (ht : s.threads[i]? = some t)
    (hQ : Q t.script) : ∃ t', s'.threads[i]? = some t' ∧ t'.call = t.call ∧ Q t'.script := by
  induction ls generalizing s t with
  | nil => cases hrun; exact ⟨t, ht, rfl, hQ⟩
  | cons l ls ih =>
      obtain ⟨s₁, h₁, h₂⟩ := run_cons_some hrun
      obtain ⟨t₁, ht₁, hcall, hQ₁⟩ := poolStep_thread h₁ ht hQ
        fun _ o k r _ _ hscript _ _ => hnext o k r (hscript ▸ hQ)
      obtain ⟨t', ht', hcall', hQ'⟩ := ih h₂ ht₁ hQ₁
      exact ⟨t', ht', hcall'.trans hcall, hQ'⟩

theorem run_exists_thread {ls : List PoolLabel} {s s' : Pool} {i : ℕ} {t : Thread}
    (hrun : run (poolStep env) s ls = some s') (ht : s.threads[i]? = some t) :
    ∃ t', s'.threads[i]? = some t' ∧ t'.call = t.call := by
  obtain ⟨t', ht', hcall, -⟩ := run_thread (Q := fun _ => True) (fun _ _ _ _ => trivial) hrun ht
    trivial
  exact ⟨t', ht', hcall⟩

theorem run_call {ls : List PoolLabel} {s s' : Pool} {i : ℕ} {t t' : Thread}
    (hrun : run (poolStep env) s ls = some s') (ht : s.threads[i]? = some t)
    (ht' : s'.threads[i]? = some t') : t.call = t'.call := by
  obtain ⟨t'', ht'', hcall⟩ := run_exists_thread hrun ht
  rw [ht'] at ht''
  cases ht''
  exact hcall.symm

/-- A thread that was not there before a step starts its call. -/
theorem poolStep_new_thread {s s' : Pool} {l : PoolLabel} {i : ℕ} {t : Thread}
    (hstep : poolStep env s l = some s') (hnone : s.threads[i]? = none)
    (ht : s'.threads[i]? = some t) : t.script = t.call.script env := by
  have hlen : s.threads.length ≤ i := List.getElem?_eq_none_iff.mp hnone
  cases l with
  | call c =>
      cases hstep
      rw [List.getElem?_append_right hlen] at ht
      obtain ⟨_, rfl⟩ := List.getElem?_eq_some_iff.mp ht
      simp
  | step j fate =>
      obtain ⟨t₀, o, next, x, w, -, -, -, rfl⟩ := poolStep_step hstep
      rw [List.getElem?_eq_none_iff.mpr (by simpa using hlen)] at ht
      cases ht
  | balance op fates =>
      obtain ⟨w, -, rfl⟩ := Option.map_eq_some_iff.mp hstep
      rw [hnone] at ht
      cases ht
  | sync id patch => cases hstep; rw [hnone] at ht; cases ht
  | tick ms => cases hstep; rw [hnone] at ht; cases ht

end LeaveLedger
