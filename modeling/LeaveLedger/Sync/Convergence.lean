import LeaveLedger.Batch.Outcome
import LeaveLedger.Ledger.BatchRace
import LeaveLedger.Hcm.MockHcm

/-!
# Sync — Convergence of the two ledgers

The local tables and the records of HCM, with requests, deliveries of
approvals, grants and batch syncs in any order. An approval moves days to
`usedBalance` here and off the record there, and the batch sync compares
the record with a total that still has the used days in it. So the two
agree after a sync as long as nothing has been approved, and never again
after that.
-/

namespace LeaveLedger

open Js Lib

/-! ## The machine -/

structure TwoLedgers where
  world : World
  hcm : List MockRecord
  /-- approvals that HCM has not acknowledged yet -/
  inFlight : List BalanceMutation

inductive ConvergenceLabel where
  | lifecycle (op : LifecycleOp) (fates : List Fate)
  | deliver (m : ℕ)
  | grant (filter : MockHcm.RefreshFilter) (days : ℚ)
  | sync

/-- The message about an approval that went through. -/
def approvalSent : Settlement → Except Exception SerializedRequest → List BalanceMutation
  | .approve _, .ok request => [{
      employeeId := request.employeeId, locationId := request.locationId
      leaveType := request.leaveType, daysRequested := request.daysRequested
      action := .approve, referenceId := request.id }]
  | _, _ => []

/-- An approval is delivered once, by an attempt that HCM acknowledges; a sync is
the work of both its loops on all the records. -/
def convergenceStep (env : Env) (s : TwoLedgers) : ConvergenceLabel → Option TwoLedgers
  | .lifecycle (.settle settlement id) fates =>
      ((settlement.request id).alone fates s.world).map fun (res, w) => { s with
        world := w, inFlight := s.inFlight ++ approvalSent settlement res }
  | .lifecycle op fates =>
      (lifecycleStep env s.world (op, fates)).map fun w => { s with world := w }
  | .deliver m => (s.inFlight[m]?).bind fun msg =>
      match MockHcm.putBalance msg s.world.clock s.hcm with
      | (true, hcm) => some { s with hcm := hcm, inFlight := s.inFlight.eraseIdx m }
      | (false, _) => none
  | .grant filter days =>
      (MockHcm.anniversaryRefresh filter days s.world.clock s.hcm).map fun hcm =>
        { s with hcm := hcm }
  | .sync => ((reconcileBatch (MockHcm.batchSync s.hcm)).run (execSvc {}) s.world).map
      fun (_, w) => { s with world := w }

/-- The row of the key is not flagged, and its days that are not used are those HCM
has left. -/
def Converged (key : BalanceKey) (s : TwoLedgers) : Prop :=
  ∃ b ∈ s.world.db.balances.rows, b.key = key ∧ b.hasDiscrepancy = false
    ∧ ∃ r ∈ s.hcm, r.key = key ∧ b.availableBalance + b.pendingBalance = r.availableBalance

instance (key : BalanceKey) (s : TwoLedgers) : Decidable (Converged key s) :=
  inferInstanceAs (Decidable (∃ b ∈ s.world.db.balances.rows, b.key = key
    ∧ b.hasDiscrepancy = false
    ∧ ∃ r ∈ s.hcm, r.key = key ∧ b.availableBalance + b.pendingBalance = r.availableBalance))

/-- A request of the key has been approved. -/
def HasApproved (key : BalanceKey) (db : Database) : Prop :=
  ∃ r ∈ db.requests.rows, r.balanceKey = key ∧ r.status = .approved

instance (key : BalanceKey) (db : Database) : Decidable (HasApproved key db) :=
  inferInstanceAs (Decidable (∃ r ∈ db.requests.rows, r.balanceKey = key ∧ r.status = .approved))

/-- The days granted to the key that no batch sync has taken over: each sync takes
over what exceeds the tolerance. -/
def carriedStep (key : BalanceKey) (carried : ℚ) : ConvergenceLabel → ℚ
  | .grant filter days => if filter.admits key then carried + days else carried
  | .sync => if 0.01 < carried then 0 else carried
  | .lifecycle _ _ | .deliver _ => carried

def carried (key : BalanceKey) (ls : List ConvergenceLabel) : ℚ := ls.foldl (carriedStep key) 0

/-! ## What the operations on requests keep -/

variable {env : Env} {key : BalanceKey}

/-- The requests of the key have whole days. -/
def WholeDays (key : BalanceKey) (db : Database) : Prop :=
  ∀ r ∈ db.requests.rows, r.balanceKey = key → 1 ≤ r.daysRequested

theorem lifecycleStep_wholeDays {w w' : World} {l : LifecycleOp × List Fate}
    (h : lifecycleStep env w l = some w') (hdays : WholeDays key w.db) : WholeDays key w'.db := by
  refine lifecycleStep_keeps (J := WholeDays key) ?_ ?_ h hdays
  · intro dto k w w' d b b' r rec hd hc hJ x hx hkey
    rcases hc.requests.mem_iff.mp hx with hold | rfl
    · exact hJ x hold hkey
    · obtain ⟨id, hr⟩ := hc.request
      rw [hr]
      exact one_le_daysOf hd
  · intro s id w w' r r' b b' hs hJ x hx hkey
    rcases hs.requests.mem_iff.mp hx with ⟨hold, -⟩ | rfl
    · exact hJ x hold hkey
    · rw [hs.days]
      exact hJ r hs.requests.mem (hs.balanceKey ▸ hkey)

/-- What is approved stays approved. -/
theorem lifecycleStep_hasApproved {w w' : World} {l : LifecycleOp × List Fate}
    (h : lifecycleStep env w l = some w') (happroved : HasApproved key w.db) :
    HasApproved key w'.db := by
  refine lifecycleStep_keeps (J := HasApproved key) ?_ ?_ h happroved
  · intro dto k w w' d b b' r rec hd hc hJ
    obtain ⟨x, hx, hkey, hst⟩ := hJ
    exact ⟨x, hc.requests.mem_iff.mpr (Or.inl hx), hkey, hst⟩
  · intro s id w w' r r' b b' hs hJ
    obtain ⟨x, hx, hkey, hst⟩ := hJ
    obtain ⟨x', hx', -, -, rfl | ⟨rfl, -⟩⟩ := hs.requests.exists_of_mem hx
    · exact ⟨x', hx', hkey, hst⟩
    · rw [hs.pending] at hst
      cases hst

/-- The row of the key keeps its total. -/
theorem lifecycleStep_total {w w' : World} {l : LifecycleOp × List Fate}
    (h : lifecycleStep env w l = some w') {b : EmployeeBalance}
    (hrow : w.db.balances.byUk key = some b) :
    ∃ b', w'.db.balances.byUk key = some b' ∧ b'.totalBalance = b.totalBalance := by
  obtain ⟨hb, rfl⟩ := Table.byUk_eq_some.mp hrow
  obtain ⟨b', hb', -, hkey, htotal, -⟩ := (lifecycleStep_sameBooks h).forth b hb
  exact ⟨b', Table.byUk_eq_some.mpr ⟨hb', hkey⟩, htotal⟩

/-- An approval that is answered with the request has approved it. -/
theorem approvalSent_spec {settlement : Settlement} {id : Id} {fates : List Fate} {w w' : World}
    {res : Except Exception SerializedRequest}
    (h : (settlement.request id).alone fates w = some (res, w')) {m : BalanceMutation}
    (hm : m ∈ approvalSent settlement res) :
    HasApproved (m.employeeId, m.locationId, m.leaveType) w'.db := by
  cases settlement with
  | reject a reason => cases hm
  | cancel reason => cases hm
  | approve a =>
      cases res with
      | error e => cases hm
      | ok body =>
          rw [Settlement.request_eq, Svc.alone_transaction] at h
          obtain ⟨⟨res, w₁⟩, hrun, heq⟩ := Option.map_eq_some_iff.mp h
          obtain ⟨hres, rfl⟩ := Prod.mk.inj heq
          rcases (execTransaction_cases hrun).2 with ⟨r', rfl, -, hret⟩ | ⟨e, rfl, -⟩
          · obtain ⟨r, b, b', hs⟩ := transaction_returns hret
            cases hres
            rw [List.mem_singleton.mp hm]
            exact ⟨r', hs.requests.mem_new, rfl, hs.status⟩
          · cases hres

/-! ## The invariant -/

/-- What is known of the key when `c` days have been granted to it and not been taken
over. As long as nothing is approved, HCM is ahead by these. -/
structure ConvergenceInv (key : BalanceKey) (c : ℚ) (s : TwoLedgers) : Prop where
  ledger : LedgerInv s.world.db
  days : WholeDays key s.world.db
  inFlight : ∀ m ∈ s.inFlight, (m.employeeId, m.locationId, m.leaveType) = key →
    HasApproved key s.world.db
  books : ∃ b r, s.world.db.balances.byUk key = some b ∧ MockHcm.Holds s.hcm key r
    ∧ r.availableBalance = r.totalBalance
    ∧ (¬ HasApproved key s.world.db → r.totalBalance - b.totalBalance = c)

/-- A sync is the batch on the records of HCM. -/
theorem convergenceStep_sync {s s' : TwoLedgers} (h : convergenceStep env s .sync = some s') :
    s' = { s with world := (batchResult (MockHcm.batchSync s.hcm) s.world).2 } := by
  simp only [convergenceStep, reconcileBatch_run, Option.map_some, Option.some.injEq] at h
  exact h.symm

/-- **One operation on requests** keeps the invariant. -/
theorem ConvergenceInv.lifecycle {c : ℚ} {s : TwoLedgers} (hinv : ConvergenceInv key c s)
    {l : LifecycleOp × List Fate} {w : World} (hstep : lifecycleStep env s.world l = some w)
    {sent : List BalanceMutation}
    (hsent : ∀ m ∈ sent, (m.employeeId, m.locationId, m.leaveType) = key → HasApproved key w.db) :
    ConvergenceInv key c { s with world := w, inFlight := s.inFlight ++ sent } := by
  refine ⟨lifecycleStep_inv hstep hinv.ledger, lifecycleStep_wholeDays hstep hinv.days, ?_, ?_⟩
  · intro m hm hkey
    rcases List.mem_append.mp hm with hold | hnew
    · exact lifecycleStep_hasApproved hstep (hinv.inFlight m hold hkey)
    · exact hsent m hnew hkey
  · obtain ⟨b, r, hrow, hhcm, hboth, hahead⟩ := hinv.books
    obtain ⟨b', hrow', htotal⟩ := lifecycleStep_total hstep hrow
    refine ⟨b', r, hrow', hhcm, hboth, ?_⟩
    intro hnone
    rw [htotal]
    exact hahead fun happroved => hnone (lifecycleStep_hasApproved hstep happroved)

/-- **One sync** keeps it, and takes over what exceeds the tolerance. -/
theorem ConvergenceInv.sync {c : ℚ} {s : TwoLedgers} (hinv : ConvergenceInv key c s) :
    ConvergenceInv key (carriedStep key c .sync)
      { s with world := (batchResult (MockHcm.batchSync s.hcm) s.world).2 } := by
  have hreq := batchResult_requests (w := s.world) (MockHcm.batchSync s.hcm)
  have hsame : HasApproved key (batchResult (MockHcm.batchSync s.hcm) s.world).2.db
      ↔ HasApproved key s.world.db := by
    unfold HasApproved
    rw [hreq]
  obtain ⟨b, r, hrow, hhcm, hboth, hahead⟩ := hinv.books
  obtain ⟨now, hrow'⟩ := batchResult_row hhcm.batchSync hrow
  refine ⟨batchResult_ledgerInv _ hinv.ledger, ?_, ?_, ⟨_, r, hrow', hhcm, hboth, ?_⟩⟩
  · unfold WholeDays
    rw [hreq]
    exact hinv.days
  · intro m hm hkey
    exact hsame.mpr (hinv.inFlight m hm hkey)
  · intro hnone
    have hdrift := hahead fun happroved => hnone (hsame.mpr happroved)
    have htotal := congrArg Account.total (reconcilePatch_account (MockHcm.toHcmRecord r) b now now)
    rw [hinv.ledger.localTotal (Table.byUk_eq_some.mp hrow).1] at htotal
    replace htotal : ((reconcilePatch (MockHcm.toHcmRecord r) b now).apply now b).totalBalance
      = (if 0.01 < r.totalBalance - b.totalBalance then b.account.raiseTo r.totalBalance
          else b.account).total := htotal
    rw [hdrift] at htotal
    rw [htotal, carriedStep]
    split
    · exact sub_self r.totalBalance
    · exact hdrift

theorem ConvergenceInv.deliver {c : ℚ} {s s' : TwoLedgers} {m : ℕ}
    (hinv : ConvergenceInv key c s) (h : convergenceStep env s (.deliver m) = some s') :
    ConvergenceInv key c s' := by
  obtain ⟨msg, hmsg, h⟩ := Option.bind_eq_some_iff.mp h
  obtain ⟨b, r, hrow, hhcm, hboth, hahead⟩ := hinv.books
  have hin := List.mem_of_getElem? hmsg
  split at h
  · rename_i hcm hput
    cases h
    obtain ⟨r', hhcm', hr'⟩ := hhcm.putBalance msg s.world.clock
    rw [hput] at hhcm'
    refine ⟨hinv.ledger, hinv.days, ?_, b, r', hrow, hhcm', ?_, ?_⟩
    · intro m' hm'
      exact hinv.inFlight m' (List.mem_of_mem_eraseIdx hm')
    · rcases hr' with rfl | ⟨-, days, rfl⟩
      · exact hboth
      · exact congrArg (· + days) hboth
    · intro hnone
      rcases hr' with rfl | ⟨hkey, -⟩
      · exact hahead hnone
      · exact absurd (hinv.inFlight msg hin hkey) hnone
  · cases h

theorem ConvergenceInv.grant {c : ℚ} {s s' : TwoLedgers} {filter : MockHcm.RefreshFilter} {days : ℚ}
    (hinv : ConvergenceInv key c s) (h : convergenceStep env s (.grant filter days) = some s') :
    ConvergenceInv key (carriedStep key c (.grant filter days)) s' := by
  obtain ⟨hcm, hgrant, rfl⟩ := Option.map_eq_some_iff.mp h
  obtain ⟨b, r, hrow, hhcm, hboth, hahead⟩ := hinv.books
  refine ⟨hinv.ledger, hinv.days, hinv.inFlight, b, _, hrow, (hhcm.refresh hgrant).2, ?_, ?_⟩
  · split
    · exact congrArg (· + days) hboth
    · exact hboth
  · intro hnone
    have hdrift := hahead hnone
    rw [carriedStep]
    split
    · rw [MockRecord.credit, ← hdrift]
      ring
    · exact hdrift

/-- **One step** keeps the invariant. -/
theorem convergenceStep_inv {c : ℚ} {s s' : TwoLedgers} {l : ConvergenceLabel}
    (hinv : ConvergenceInv key c s) (h : convergenceStep env s l = some s') :
    ConvergenceInv key (carriedStep key c l) s' := by
  cases l with
  | lifecycle op fates =>
      have hplain : ∀ w, lifecycleStep env s.world (op, fates) = some w →
          ConvergenceInv key c { s with world := w } := by
        intro w hw
        have hkept : ConvergenceInv key c { s with world := w, inFlight := s.inFlight ++ [] } :=
          hinv.lifecycle hw fun m hm => by cases hm
        rw [List.append_nil] at hkept
        exact hkept
      cases op with
      | createRequest dto k =>
          obtain ⟨w, hw, rfl⟩ := Option.map_eq_some_iff.mp h
          exact hplain w hw
      | tick ms =>
          cases h
          exact hplain _ rfl
      | settle settlement id =>
          obtain ⟨⟨res, w⟩, hrun, rfl⟩ := Option.map_eq_some_iff.mp h
          have hw : lifecycleStep env s.world (.settle settlement id, fates) = some w :=
            Option.map_eq_some_iff.mpr ⟨(res, w), hrun, rfl⟩
          refine hinv.lifecycle hw ?_
          intro m hm hkey
          rw [← hkey]
          exact approvalSent_spec hrun hm
  | deliver m => exact hinv.deliver h
  | grant filter days => exact hinv.grant h
  | sync =>
      rw [convergenceStep_sync h]
      exact hinv.sync

/-- **A whole run** keeps it. -/
theorem convergence_run {s s' : TwoLedgers} {ls : List ConvergenceLabel}
    (hinv : ConvergenceInv key 0 s) (h : run (convergenceStep env) s ls = some s') :
    ConvergenceInv key (carried key ls) s' := by
  induction ls using List.reverseRecOn generalizing s' with
  | nil =>
      cases h
      exact hinv
  | append_singleton ls l ih =>
      obtain ⟨s₁, h₁, h₂⟩ := run_snoc_some h
      have hstep := convergenceStep_inv (ih h₁) h₂
      rw [carried, List.foldl_append]
      exact hstep

/-! ## After a sync -/

/-- The used days of the key: whole ones when something has been approved. -/
theorem usedBalance_of_inv {c : ℚ} {s : TwoLedgers} (hinv : ConvergenceInv key c s)
    {b : EmployeeBalance} (hrow : s.world.db.balances.byUk key = some b) :
    (HasApproved key s.world.db → 1 ≤ b.usedBalance)
    ∧ (¬ HasApproved key s.world.db → b.usedBalance = 0) := by
  obtain ⟨hb, hkey⟩ := Table.byUk_eq_some.mp hrow
  have hused := congrArg Account.used (hinv.ledger.account b hb)
  rw [hkey] at hused
  replace hused : b.usedBalance = daysIn .approved key s.world.db.requests.rows := hused
  rw [hused]
  constructor
  · intro ⟨r, hr, hrkey, hst⟩
    have hle := le_daysIn hinv.ledger.positive hr
    rw [hst, hrkey] at hle
    exact (hinv.days r hr hrkey).trans hle
  · intro hnone
    refine sumWhere_eq_zero _ _ ?_
    intro r hr hp
    obtain ⟨hst, hrkey⟩ := of_decide_eq_true hp
    exact hnone ⟨r, hr, hrkey, hst⟩

/-- **The last sync** on a row and a record of which `d` is how far the record is
ahead of the total, and `u` what is used. -/
theorem reconcilePatch_converges_iff (r : HcmRecord) (b : EmployeeBalance) (now : ℤ) {d : ℚ}
    (hd : r.totalBalance - b.localTotal = d) :
    (((reconcilePatch r b now).apply now b).hasDiscrepancy = false
      ∧ ((reconcilePatch r b now).apply now b).availableBalance
        + ((reconcilePatch r b now).apply now b).pendingBalance = r.totalBalance)
    ↔ (|d| ≤ 0.01 ∧ d = -b.usedBalance) ∨ (0.01 < d ∧ b.usedBalance = 0) := by
  have htotal := b.localTotal_eq
  simp only [reconcilePatch, hd]
  by_cases hsmall : |d| ≤ 0.01
  · have hnot : ¬ 0.01 < d := not_lt.mpr ((le_abs_self d).trans hsmall)
    simp only [hsmall, if_true, true_and, hnot, false_and, or_false]
    constructor
    · intro ⟨_, hdays⟩
      replace hdays : b.availableBalance + b.pendingBalance = r.totalBalance := hdays
      linarith
    · intro hused
      refine ⟨rfl, ?_⟩
      show b.availableBalance + b.pendingBalance = r.totalBalance
      linarith
  · by_cases hbig : 0.01 < d
    · simp only [hsmall, if_false, hbig, if_true, false_and, false_or, true_and]
      constructor
      · intro ⟨_, hdays⟩
        replace hdays : b.availableBalance + d + b.pendingBalance = r.totalBalance := hdays
        linarith
      · intro hused
        refine ⟨rfl, ?_⟩
        show b.availableBalance + d + b.pendingBalance = r.totalBalance
        linarith
    · simp only [hsmall, if_false, hbig, false_and, or_false, iff_false]
      intro ⟨hflag, _⟩
      cases hflag

/-- Agreement is about the one row and the one record of the key. -/
theorem converged_of_row {s : TwoLedgers} {b : EmployeeBalance} {r : MockRecord}
    (hrow : s.world.db.balances.byUk key = some b) (hhcm : MockHcm.Holds s.hcm key r)
    (hboth : r.availableBalance = r.totalBalance) : Converged key s ↔
      b.hasDiscrepancy = false ∧ b.availableBalance + b.pendingBalance = r.totalBalance := by
  obtain ⟨hb, hkey⟩ := Table.byUk_eq_some.mp hrow
  constructor
  · intro ⟨b', hb', hkey', hflag, r', hr', hrkey, hdays⟩
    obtain rfl := Table.eq_of_uk hb' hb (hkey'.trans hkey.symm)
    have hmem : r' ∈ s.hcm.filter (fun r => r.key = key) :=
      List.mem_filter.mpr ⟨hr', decide_eq_true hrkey⟩
    rw [hhcm] at hmem
    obtain rfl := List.mem_singleton.mp hmem
    exact ⟨hflag, hdays.trans hboth⟩
  · intro ⟨hflag, hdays⟩
    have hmem : r ∈ s.hcm.filter (fun r => r.key = key) := by
      rw [hhcm]
      exact List.mem_singleton.mpr rfl
    exact ⟨b, hb, hkey, hflag, r, (List.mem_filter.mp hmem).1, hhcm.key, hdays.trans hboth.symm⟩

/-- The ledgers after the seeding. -/
theorem convergenceInv_seeded {w₀ w : World} {T : ℚ} {fates : List Fate}
    {res : Except Exception SerializedBalance} {hcm : List MockRecord} {r : MockRecord}
    (hinv : LedgerInv w₀.db) (hmissing : w₀.db.balances.byUk key = none)
    (hseed : (upsertBalance env key.1 key.2.1 key.2.2 T).alone fates w₀ = some (res, w))
    (hseeded : (w.db.balances.byUk key).isSome) (hhcm : MockHcm.Holds hcm key r)
    (htotal : r.totalBalance = T) (havailable : r.availableBalance = T) :
    ConvergenceInv key 0 ⟨w, hcm, []⟩ := by
  obtain ⟨b, hrow⟩ := Option.isSome_iff_exists.mp hseeded
  obtain ⟨hb, hkey⟩ := Table.byUk_eq_some.mp hrow
  have hnone := Table.byUk_eq_none.mp hmissing
  rcases upsertBalance_alone hseed with hdb | hopened
  · rw [hdb] at hb
    exact absurd hkey (hnone b hb)
  · obtain ⟨b', hadded, hacc⟩ := hopened.row
    have hb' : b = b' := by
      rcases hadded.mem_iff.mp hb with hold | hnew
      · exact absurd hkey (hnone b hold)
      · exact hnew
    refine ⟨hopened.ledgerInv hinv, ?_, ?_, ⟨b, r, hrow, hhcm, ?_, ?_⟩⟩
    · -- a request of the key would have had a row before
      intro x hx hxkey
      replace hx : x ∈ w.db.requests.rows := hx
      rw [hopened.requests] at hx
      obtain ⟨c, hc, hckey⟩ := hinv.hasRow x hx
      exact absurd (hckey.trans hxkey) (hnone c hc)
    · intro m hm
      cases hm
    · rw [havailable, htotal]
    · intro _
      have hT : b.totalBalance = T := by
        rw [hb']
        exact congrArg Account.total hacc
      rw [htotal, hT, sub_self]

/-- **Convergence.** A row seeded with `T` and an HCM record with `T`, and any run of
requests, deliveries, grants and syncs: after one more sync the two ledgers agree
exactly when no request of the key has been approved, and the days that the sync finds
to take over are none or more than its tolerance. -/
theorem converges_iff (env : Env) (clock : ℤ) {ls₀ : List (LedgerOp × List Fate)} {w₀ w : World}
    {T : ℚ} {fates : List Fate} {res : Except Exception SerializedBalance}
    {hcm : List MockRecord} {r : MockRecord} {ls : List ConvergenceLabel} {s s' : TwoLedgers}
    (hbefore : run (ledgerStep env) (World.initial clock) ls₀ = some w₀)
    (hmissing : w₀.db.balances.byUk key = none)
    (hseed : (upsertBalance env key.1 key.2.1 key.2.2 T).alone fates w₀ = some (res, w))
    (hseeded : (w.db.balances.byUk key).isSome)
    (hhcm : MockHcm.Holds hcm key r) (htotal : r.totalBalance = T)
    (havailable : r.availableBalance = T)
    (hrun : run (convergenceStep env) ⟨w, hcm, []⟩ ls = some s)
    (hsync : convergenceStep env s .sync = some s') :
    Converged key s' ↔ ¬ HasApproved key s.world.db
      ∧ (carried key ls = 0 ∨ 0.01 < carried key ls) := by
  have hstart : ConvergenceInv key 0 ⟨w, hcm, []⟩ :=
    convergenceInv_seeded (run_induct (fun _ _ _ h hs => ledgerStep_inv h hs) ledgerInv_empty
      hbefore) hmissing hseed hseeded hhcm htotal havailable
  have hinv := convergence_run hstart hrun
  obtain ⟨b, rec, hrow, hrec, hboth, hahead⟩ := hinv.books
  have hused := usedBalance_of_inv hinv hrow
  obtain ⟨now, hrow'⟩ := batchResult_row hrec.batchSync hrow
  have hlocal := hinv.ledger.localTotal (Table.byUk_eq_some.mp hrow).1
  -- the row and the record of the key are the only ones
  have hrows : Converged key s' ↔
      ((reconcilePatch (MockHcm.toHcmRecord rec) b now).apply now b).hasDiscrepancy = false
        ∧ ((reconcilePatch (MockHcm.toHcmRecord rec) b now).apply now b).availableBalance
          + ((reconcilePatch (MockHcm.toHcmRecord rec) b now).apply now b).pendingBalance
          = (MockHcm.toHcmRecord rec).totalBalance := by
    rw [convergenceStep_sync hsync]
    exact converged_of_row hrow' hrec hboth
  rw [hrows, reconcilePatch_converges_iff _ _ _ rfl, hlocal]
  show |rec.totalBalance - b.totalBalance| ≤ 0.01
        ∧ rec.totalBalance - b.totalBalance = -b.usedBalance
      ∨ 0.01 < rec.totalBalance - b.totalBalance ∧ b.usedBalance = 0 ↔ _
  by_cases happroved : HasApproved key s.world.db
  · have hpos := hused.1 happroved
    simp only [happroved, not_true_eq_false, false_and, iff_false, not_or, not_and]
    constructor
    · intro hsmall heq
      rw [heq, abs_neg, abs_of_pos (by linarith)] at hsmall
      linarith
    · intro _
      linarith
  · have hzero := hused.2 happroved
    have hdrift := hahead happroved
    rw [hzero, hdrift]
    simp only [happroved, not_false_eq_true, true_and, neg_zero, and_true]
    constructor
    · intro h
      rcases h with ⟨-, hnone⟩ | hbig
      · exact Or.inl hnone
      · exact Or.inr hbig
    · intro h
      rcases h with hnone | hbig
      · refine Or.inl ⟨?_, hnone⟩
        rw [hnone, abs_zero]
        norm_num
      · exact Or.inr hbig

/-- The record of the sample payload's key, with ten days. -/
def tenDays : MockRecord :=
  ⟨sampleDto.employeeId, sampleDto.locationId, sampleDto.leaveType, 10, 10, "v1"⟩

/-- The sample payload's row seeded with ten days, and an HCM that has ten for it. -/
def tenDaysEach : Option TwoLedgers :=
  ((upsertBalance .default sampleDto.employeeId sampleDto.locationId sampleDto.leaveType 10).alone
    [] (World.initial 0)).map fun x => ⟨x.2, [tenDays], []⟩

/-- A request of two days that is approved, delivered and acknowledged: HCM has eight
days left and so has the row, and the sync flags it for the two it has used. -/
theorem approval_never_converges : ∃ s₀ s s',
    tenDaysEach = some s₀
    ∧ run (convergenceStep .default) s₀
      [.lifecycle (.createRequest sampleDto "key-1") [],
        .lifecycle (.settle (.approve "MGR001") 8) [], .deliver 0] = some s
    ∧ s.inFlight = [] ∧ s.hcm.map MockRecord.availableBalance = [8]
    ∧ convergenceStep .default s .sync = some s' ∧ ¬ Converged sampleDto.balanceKey s' := by
  have h : (tenDaysEach.bind fun s₀ => (run (convergenceStep .default) s₀
      [.lifecycle (.createRequest sampleDto "key-1") [],
        .lifecycle (.settle (.approve "MGR001") 8) [], .deliver 0]).bind fun s =>
        (convergenceStep .default s .sync).map fun s' =>
          decide (s.inFlight = [] ∧ s.hcm.map MockRecord.availableBalance = [8]
            ∧ ¬ Converged sampleDto.balanceKey s')) = some true := by
    decide +kernel
  obtain ⟨s₀, h₀, h⟩ := Option.bind_eq_some_iff.mp h
  obtain ⟨s, hs, h⟩ := Option.bind_eq_some_iff.mp h
  obtain ⟨s', hs', h⟩ := Option.map_eq_some_iff.mp h
  obtain ⟨hflight, hhcm, hnot⟩ := of_decide_eq_true h
  exact ⟨s₀, s, s', h₀, hs, hflight, hhcm, hs', hnot⟩

/-- The theorem at a run with a request that is rejected, a grant of five days and a
sync in between. -/
theorem converges_iff_granted : ∃ s s',
    run (convergenceStep .default) s
      [.lifecycle (.createRequest sampleDto "key-1") [], .grant {} 5, .sync,
        .lifecycle (.settle (.reject "MGR001" "no cover") 8) []] = some s'
    ∧ tenDaysEach = some s
    ∧ ∃ s'', convergenceStep .default s' .sync = some s'' ∧ Converged sampleDto.balanceKey s'' := by
  have h : (((upsertBalance .default sampleDto.employeeId sampleDto.locationId sampleDto.leaveType
      10).alone [] (World.initial 0)).bind fun x =>
        (run (convergenceStep .default) ⟨x.2, [tenDays], []⟩
          [.lifecycle (.createRequest sampleDto "key-1") [], .grant {} 5, .sync,
            .lifecycle (.settle (.reject "MGR001" "no cover") 8) []]).bind fun s =>
        (convergenceStep .default s .sync).map fun _ =>
          decide ((x.2.db.balances.byUk sampleDto.balanceKey).isSome
            ∧ ¬ HasApproved sampleDto.balanceKey s.world.db)) = some true := by
    decide +kernel
  obtain ⟨⟨res, w⟩, hseed, h⟩ := Option.bind_eq_some_iff.mp h
  obtain ⟨s, hrun, h⟩ := Option.bind_eq_some_iff.mp h
  obtain ⟨s', hsync, h⟩ := Option.map_eq_some_iff.mp h
  obtain ⟨hseeded, hnone⟩ := of_decide_eq_true h
  have hstart : tenDaysEach = some ⟨w, [tenDays], []⟩ := by
    rw [tenDaysEach, hseed]
    rfl
  have hbefore : run (ledgerStep .default) (World.initial 0) [] = some (World.initial 0) := rfl
  have hmissing : (World.initial 0).db.balances.byUk sampleDto.balanceKey = none := rfl
  have hhcm : MockHcm.Holds [tenDays] sampleDto.balanceKey tenDays := by
    simp [MockHcm.Holds, tenDays, MockRecord.key, CreateTimeOffRequestDto.balanceKey]
  have hiff := converges_iff .default 0 hbefore hmissing hseed hseeded hhcm rfl rfl hrun hsync
  refine ⟨_, s, hrun, hstart, s', hsync, hiff.mpr ⟨hnone, Or.inl ?_⟩⟩
  decide +kernel

end LeaveLedger
