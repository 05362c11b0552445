import LeaveLedger.Batch.RecordLoop
import Mathlib.Data.List.Induction

/-!
# Batch — Omitted balances

A run of the batch sync in which every repository and HCM answer: the
record loop, the full-refresh safety and the sync log, run to the end
(`runBatchSync_ends`). It marks the local rows whose joined key text no
record of the payload has. That is every omitted row unless two keys are
joined to one text.
-/

namespace LeaveLedger

open Js Lib

/-! ## A run in which nothing fails -/

structure BatchWorld where
  world : World
  batchRunning : Bool
  syncLogs : List SyncLog
  /-- the id of the next sync log -/
  nextLog : Id

/-- Everything works, and HCM answers with `payload`. -/
def execBatch (payload : List HcmRecord) :
    (o : BatchOp) → BatchWorld → Option (BatchSig.Res o × BatchWorld)
  | .svc o, b => (execSvc {} o b.world).map fun x => (x.1, { b with world := x.2 })
  | .startRun, b => some (!b.batchRunning, { b with batchRunning := true })
  | .endRun, b => some ((), { b with batchRunning := false })
  | .saveSyncLog log, b =>
      some (.ok b.nextLog, { b with
        syncLogs := b.syncLogs ++ [log.toRow b.nextLog], nextLog := b.nextLog + 1 })
  | .updateSyncLog id patch, b =>
      some (.ok (), { b with
        syncLogs := b.syncLogs.map fun l => if l.id = id then patch.apply l else l })
  | .getBatchBalances, b => some (.ok (some payload), b)

theorem run_ofSvc {ε α : Type} {payload : List HcmRecord} (p : Script SvcSig ε α)
    (b : BatchWorld) :
    (ofSvc p).run (execBatch payload) b
      = (p.run (execSvc {}) b.world).map fun x => (x.1, { b with world := x.2 }) := by
  induction p generalizing b with
  | done a => rfl
  | fail e => rfl
  | await o k ih =>
      show Option.bind (execBatch payload (.svc o) b) _ = _
      rw [Script.run_await]
      simp only [execBatch]
      cases execSvc {} o b.world with
      | none => rfl
      | some x => exact ih _ _

/-! ## The full-refresh safety -/

/-- The columns that flag a missing row. -/
def missingPatch (row : EmployeeBalance) (now : ℤ) : BalancePatch where
  hasDiscrepancy := some true
  discrepancyAmount := some (some (row.discrepancyAmount.getD 0))
  hcmLastSync := some (some now)

/-- The counters and the tables after one missing row. -/
def flagged (s : BatchTotals × World) (row : EmployeeBalance) : BatchTotals × World :=
  ({ s.1 with recordsProcessed := s.1.recordsProcessed + 1 }.failed row.key missingMessage,
    { s.2 with
      db := s.2.db.updateBalance row.id (missingPatch row s.2.clock) s.2.clock
      uuid := s.2.uuid + 1 })

/-- The rows that the payload leaves out, to go by the joined keys. -/
def leftOut (hcmKeySet : List String) (rows : List EmployeeBalance) : List EmployeeBalance :=
  rows.filter fun row => hcmKey row.key ∉ hcmKeySet

theorem flagMissing_run (hcmKeySet : List String) (rows : List EmployeeBalance)
    (totals : BatchTotals) (fate : Fate) (w : World) :
    (flagMissing hcmKeySet totals rows).run (execSvc fate) w
      = some (.ok ((leftOut hcmKeySet rows).foldl flagged (totals, w)).1,
          ((leftOut hcmKeySet rows).foldl flagged (totals, w)).2) := by
  induction rows generalizing totals w with
  | nil => rfl
  | cons row rest ih =>
      rw [flagMissing]
      by_cases hmem : hcmKey row.key ∈ hcmKeySet
      · have hkept : leftOut hcmKeySet (row :: rest) = leftOut hcmKeySet rest := by
          simp [leftOut, hmem]
        rw [if_pos hmem, hkept]
        exact ih totals w
      · have hout : leftOut hcmKeySet (row :: rest) = row :: leftOut hcmKeySet rest := by
          simp [leftOut, hmem]
        rw [if_neg hmem, hout, List.foldl_cons]
        exact ih _ _

/-- An entry of the sync log about a missing row. -/
def missingEntry (row : EmployeeBalance) : BatchError := ⟨some row.key, missingMessage⟩

/-- Each missing row is counted and has its entry. -/
theorem foldl_flagged_errors (rows : List EmployeeBalance) (s : BatchTotals × World) :
    (rows.foldl flagged s).1.errors = s.1.errors ++ rows.map missingEntry
    ∧ (rows.foldl flagged s).1.recordsFailed = s.1.recordsFailed + rows.length := by
  induction rows generalizing s with
  | nil => simp
  | cons row rest ih =>
      obtain ⟨herrors, hfailed⟩ := ih (flagged s row)
      rw [List.foldl_cons, herrors, hfailed]
      simp [flagged, BatchTotals.failed, missingEntry]
      omega

/-- Each missing row is flagged, and a row that is flagged stays so. -/
theorem foldl_flagged_row (rows : List EmployeeBalance) {s : BatchTotals × World}
    {b : EmployeeBalance} (hrow : s.2.db.balances.byPk b.id = some b)
    (hflag : b.hasDiscrepancy ∨ b.id ∈ rows.map EmployeeBalance.id) :
    ∃ b' ∈ (rows.foldl flagged s).2.db.balances.rows, b'.key = b.key ∧ b'.hasDiscrepancy := by
  induction rows generalizing s b with
  | nil =>
      refine ⟨b, (Table.byPk_eq_some.mp hrow).1, rfl, ?_⟩
      simpa using hflag
  | cons row rest ih =>
      rw [List.foldl_cons]
      have hstep : (flagged s row).2.db.balances.byPk b.id
          = (s.2.db.balances.byPk b.id).map fun b =>
              if b.id = row.id then (missingPatch row s.2.clock).apply s.2.clock b else b :=
        byPk_updateBalance
      rw [hrow, Option.map_some] at hstep
      by_cases hid : b.id = row.id
      · rw [if_pos hid] at hstep
        exact ih (b := (missingPatch row s.2.clock).apply s.2.clock b) hstep (Or.inl rfl)
      · rw [if_neg hid] at hstep
        refine ih hstep (hflag.imp id fun hmem => ?_)
        simpa [hid] using hmem

/-! ## The whole run -/

/-- The counters and the tables after both loops. -/
def batchResult (payload : List HcmRecord) (w : World) : BatchTotals × World :=
  let s := payload.foldl processed ({}, w)
  (leftOut (payload.map fun r => hcmKey r.key) s.2.db.balances.rows).foldl flagged
    (s.1, { s.2 with uuid := s.2.uuid + 1 })

theorem orFault_run_ok {S : Sig} {σ α : Type} {exec : (o : S.Op) → σ → Option (S.Res o × σ)}
    {totals : BatchTotals} {p : Script S Exception α} {s s' : σ} {a : α}
    (h : p.run exec s = some (.ok a, s')) :
    (orFault totals p).run exec s = some (.ok a, s') := by
  rw [orFault, Script.run_handle, h]
  rfl

theorem reconcileBatch_run (payload : List HcmRecord) (fate : Fate) (w : World) :
    (reconcileBatch payload).run (execSvc fate) w
      = some (.ok (batchResult payload w).1, (batchResult payload w).2) := by
  unfold reconcileBatch
  rw [Script.bind_eq, Script.run_bind,
    orFault_run_ok (processRecords_run payload {} fate w)]
  exact flagMissing_run _ _ _ _ _

/-- The columns the run writes to its sync log. -/
def batchOutcome (totals : BatchTotals) (now : ℤ) : SyncLogPatch where
  status := finalStatus totals
  recordsProcessed := totals.recordsProcessed
  recordsUpdated := totals.recordsUpdated
  recordsFailed := totals.recordsFailed
  errorDetails := if totals.errors.isEmpty then none else some totals.errors
  completedAt := now

/-- The sync log with id `id` is updated. -/
def BatchWorld.patchLog (b : BatchWorld) (id : Id) (patch : SyncLogPatch) : BatchWorld :=
  { b with syncLogs := b.syncLogs.map fun l => if l.id = id then patch.apply l else l }

theorem tryBlock_run (payload : List HcmRecord) (id : Id) (b : BatchWorld) :
    (Batch.tryBlock id).run (execBatch payload) b
      = some (.ok (), { b with world := (batchResult payload b.world).2 }.patchLog id
          (batchOutcome (batchResult payload b.world).1
            (batchResult payload b.world).2.clock)) := by
  have hfetch : Batch.getBatchBalances.run (execBatch payload) b = some (.ok (some payload), b) :=
    rfl
  unfold Batch.tryBlock
  rw [Script.bind_eq, Script.run_bind, orFault_run_ok hfetch]
  show Script.run (execBatch payload) (Script.bind (ofSvc (reconcileBatch payload)) _) b = _
  rw [Script.run_bind, run_ofSvc, reconcileBatch_run, Option.map_some, Option.bind_some]
  exact orFault_run_ok rfl

/-- The run ends, and this is what it leaves behind. -/
theorem runBatchSync_ends (w : World) (syncLogs : List SyncLog) (nextLog : Id)
    (payload : List HcmRecord) :
    ∃ started : SyncLog, started.id = nextLog ∧
      runBatchSync.run (execBatch payload) ⟨w, false, syncLogs, nextLog⟩ = some (.ok (),
        BatchWorld.patchLog
          ⟨(batchResult payload w).2, false, syncLogs ++ [started], nextLog + 1⟩ nextLog
          (batchOutcome (batchResult payload w).1 (batchResult payload w).2.clock)) := by
  refine ⟨NewSyncLog.toRow ⟨.batch, .started, w.clock, 0, 0, 0⟩ nextLog, rfl, ?_⟩
  show Script.run (execBatch payload) (Script.ensure
    (Script.handle (Batch.tryBlock nextLog) (Batch.catchBlock nextLog)) Batch.endRun)
    ⟨w, true, syncLogs ++ [_], nextLog + 1⟩ = _
  rw [Script.run_ensure, Script.run_handle, tryBlock_run]
  rfl

/-! ## The marked rows -/

theorem uniqueError_message_ne :
    (uniqueError
      "employee_balances.employeeId, employee_balances.locationId, employee_balances.leaveType"
      ).message ≠ missingMessage := by
  decide

/-- The record loop has an entry for every failed record, none of them about a
missing row. -/
theorem foldl_processed_errors (payload : List HcmRecord) (w : World) :
    (∀ e ∈ (payload.foldl processed ({}, w)).1.errors, e.error ≠ missingMessage)
    ∧ (payload.foldl processed ({}, w)).1.recordsFailed
      = (payload.foldl processed ({}, w)).1.errors.length := by
  refine foldl_processed_keeps (I := fun s =>
    (∀ e ∈ s.1.errors, e.error ≠ missingMessage) ∧ s.1.recordsFailed = s.1.errors.length)
    ?_ payload (by simp)
  intro s r x hI hcase
  cases hcase with
  | @updated b changed hrow => cases changed <;> exact hI
  | opened hmissing hadded => exact hI
  | refused hmissing hused =>
      constructor
      · intro e he
        rcases List.mem_append.mp he with he | he
        · exact hI.1 e he
        · rw [List.mem_singleton.mp he]
          exact uniqueError_message_ne
      · simp only [BatchTotals.count, BatchTotals.failed, List.length_append, hI.2]
        rfl

/-- The key texts of the payload. -/
def hcmKeySet (payload : List HcmRecord) : List String := payload.map fun r => hcmKey r.key

variable {payload : List HcmRecord} {w : World} {row : EmployeeBalance}

theorem batchResult_counted :
    (batchResult payload w).1.recordsFailed = (batchResult payload w).1.errors.length := by
  obtain ⟨herrors, hfailed⟩ := foldl_flagged_errors
    (leftOut (hcmKeySet payload) (payload.foldl processed ({}, w)).2.db.balances.rows)
    ((payload.foldl processed ({}, w)).1, { (payload.foldl processed ({}, w)).2 with
      uuid := (payload.foldl processed ({}, w)).2.uuid + 1 })
  have hcounted := (foldl_processed_errors payload w).2
  show (List.foldl flagged _ _).1.recordsFailed = (List.foldl flagged _ _).1.errors.length
  rw [hcmKeySet] at herrors hfailed
  rw [herrors, hfailed, hcounted, List.length_append, List.length_map]

/-- The entries about missing rows are those of the rows left out. -/
theorem missingEntry_mem_iff :
    missingEntry row ∈ (batchResult payload w).1.errors
      ↔ ∃ row' ∈ (payload.foldl processed ({}, w)).2.db.balances.rows,
          row'.key = row.key ∧ hcmKey row'.key ∉ hcmKeySet payload := by
  obtain ⟨herrors, -⟩ := foldl_flagged_errors
    (leftOut (hcmKeySet payload) (payload.foldl processed ({}, w)).2.db.balances.rows)
    ((payload.foldl processed ({}, w)).1, { (payload.foldl processed ({}, w)).2 with
      uuid := (payload.foldl processed ({}, w)).2.uuid + 1 })
  have hmem : missingEntry row ∈ (batchResult payload w).1.errors
      ↔ missingEntry row ∈ (payload.foldl processed ({}, w)).1.errors ++ (leftOut
          (hcmKeySet payload) (payload.foldl processed ({}, w)).2.db.balances.rows).map
            missingEntry := by
    rw [← herrors]
    rfl
  rw [hmem, List.mem_append, List.mem_map]
  constructor
  · rintro (hother | ⟨row', hrow', heq⟩)
    · exact absurd rfl ((foldl_processed_errors payload w).1 _ hother)
    · obtain ⟨hrow', hout⟩ := List.mem_filter.mp hrow'
      exact ⟨row', hrow', Option.some.inj (congrArg BatchError.balance heq),
        of_decide_eq_true hout⟩
  · rintro ⟨row', hrow', hkey, hout⟩
    refine Or.inr ⟨row', List.mem_filter.mpr ⟨hrow', decide_eq_true hout⟩, ?_⟩
    rw [missingEntry, hkey]
    rfl

/-- A row that is left out is flagged at the end. -/
theorem batchResult_flags (hrow : row ∈ (payload.foldl processed ({}, w)).2.db.balances.rows)
    (hout : hcmKey row.key ∉ hcmKeySet payload) :
    ∃ b ∈ (batchResult payload w).2.db.balances.rows, b.key = row.key ∧ b.hasDiscrepancy := by
  refine foldl_flagged_row _ (Table.byPk_eq_some.mpr ⟨hrow, rfl⟩) (Or.inr ?_)
  exact List.mem_map_of_mem (List.mem_filter.mpr ⟨hrow, decide_eq_true hout⟩)

/-- The run whose sync log is `logId` has marked `row` as missing: it has an entry
for it among those it has counted as failed, and the row is flagged. -/
def Marked (b : BatchWorld) (logId : Id) (row : EmployeeBalance) : Prop :=
  (∃ log ∈ b.syncLogs, log.id = logId ∧ ∃ errors, log.errorDetails = some errors
    ∧ log.recordsFailed = errors.length ∧ missingEntry row ∈ errors)
  ∧ ∃ local' ∈ b.world.db.balances.rows, local'.key = row.key ∧ local'.hasDiscrepancy

/-- What the sync log of the run says once it is written. -/
theorem log_entry_iff {b : BatchWorld} {id : Id} {totals : BatchTotals} {now : ℤ}
    {e : BatchError} (hlog : ∃ l ∈ b.syncLogs, l.id = id)
    (hcounted : totals.recordsFailed = totals.errors.length) :
    (∃ log ∈ (b.patchLog id (batchOutcome totals now)).syncLogs, log.id = id
        ∧ ∃ errors, log.errorDetails = some errors ∧ log.recordsFailed = errors.length
          ∧ e ∈ errors)
      ↔ e ∈ totals.errors := by
  constructor
  · rintro ⟨log, hmem, hid, errors, hdetails, -, he⟩
    obtain ⟨l, hl, rfl⟩ := List.mem_map.mp hmem
    by_cases hlid : l.id = id
    · rw [if_pos hlid] at hdetails
      simp only [SyncLogPatch.apply, batchOutcome] at hdetails
      split at hdetails
      · cases hdetails
      · cases hdetails
        exact he
    · rw [if_neg hlid] at hid
      exact absurd hid hlid
  · intro he
    obtain ⟨l, hl, hid⟩ := hlog
    refine ⟨(batchOutcome totals now).apply l, ?_, hid, totals.errors, ?_, hcounted, he⟩
    · exact List.mem_map.mpr ⟨l, hl, if_pos hid⟩
    · have hne : totals.errors.isEmpty = false := by
        cases herrors : totals.errors with
        | nil => rw [herrors] at he; cases he
        | cons e' rest => rfl
      simp [SyncLogPatch.apply, batchOutcome, hne]

/-- A run marks exactly the rows whose key text is not in the set. -/
theorem runBatchSync_marks (w : World) (syncLogs : List SyncLog) (nextLog : Id)
    (payload : List HcmRecord) :
    ∃ b, runBatchSync.run (execBatch payload) ⟨w, false, syncLogs, nextLog⟩ = some (.ok (), b)
      ∧ ∀ row ∈ w.db.balances.rows,
        Marked b nextLog row ↔ hcmKey row.key ∉ hcmKeySet payload := by
  obtain ⟨started, hid, hrun⟩ := runBatchSync_ends w syncLogs nextLog payload
  refine ⟨_, hrun, fun row hrow => ?_⟩
  unfold Marked
  rw [log_entry_iff ⟨started, by simp, hid⟩ batchResult_counted, missingEntry_mem_iff]
  constructor
  · rintro ⟨⟨row', -, hkey, hout⟩, -⟩
    rw [← hkey]
    exact hout
  · intro hout
    obtain ⟨row', hrow', hgrew⟩ :=
      foldl_processed_grew payload (s := ({}, w)) (Table.byUk_eq_some.mpr ⟨hrow, rfl⟩)
    have hmem := (Table.byUk_eq_some.mp hrow').1
    rw [← hgrew.key] at hout ⊢
    exact ⟨⟨row', hmem, rfl, hout⟩, batchResult_flags hmem hout⟩

/-! ## Keys that are joined to one text -/

/-- The two keys are joined to one text: same leave type, and the ids read alike
around the separator. -/
def SameText (k k' : BalanceKey) : Prop :=
  k.2.2 = k'.2.2 ∧ k.1 ++ "|" ++ k.2.1 = k'.1 ++ "|" ++ k'.2.1

/-- A separator that does not occur before it is where the text is cut. -/
theorem append_cons_inj {α : Type} {c : α} {x y s t : List α} (hx : c ∉ x) (hy : c ∉ y) :
    x ++ c :: s = y ++ c :: t ↔ x = y ∧ s = t := by
  induction x generalizing y with
  | nil =>
      cases y with
      | nil => simp
      | cons b y =>
          have hne : c ≠ b := fun h => hy (h ▸ List.mem_cons_self)
          simp [hne]
  | cons a x ih =>
      cases y with
      | nil =>
          have hne : a ≠ c := fun h => hx (h ▸ List.mem_cons_self)
          simp [hne]
      | cons b y =>
          rw [List.mem_cons, not_or] at hx hy
          simp only [List.cons_append, List.cons.injEq, ih hx.2 hy.2, and_assoc]

theorem LeaveType.no_separator (t : LeaveType) : '|' ∉ t.text.toList := by
  cases t <;> decide

theorem hcmKey_eq_iff {k k' : BalanceKey} : hcmKey k = hcmKey k' ↔ SameText k k' := by
  have hcut : ∀ k : BalanceKey, (hcmKey k).toList.reverse
      = k.2.2.text.toList.reverse ++ '|' :: (k.1 ++ "|" ++ k.2.1).toList.reverse := by
    intro k
    simp [hcmKey]
  have htype : ∀ t : LeaveType, '|' ∉ t.text.toList.reverse := by
    intro t
    rw [List.mem_reverse]
    exact t.no_separator
  rw [← String.toList_inj, ← List.reverse_inj, hcut, hcut,
    append_cons_inj (htype _) (htype _), List.reverse_inj, List.reverse_inj, String.toList_inj,
    String.toList_inj, LeaveType.text_injective.eq_iff, SameText]

/-- Keys whose employee ids hold no separator are told apart. -/
theorem SameText.eq_of_plain {k k' : BalanceKey} (h : SameText k k') (hk : '|' ∉ k.1.toList)
    (hk' : '|' ∉ k'.1.toList) : k = k' := by
  have hids := String.toList_inj.mpr h.2
  rw [String.toList_append, String.toList_append, String.toList_append, String.toList_append,
    List.append_assoc, List.append_assoc] at hids
  obtain ⟨hemployee, hlocation⟩ := (append_cons_inj hk hk').mp hids
  exact Prod.ext (String.toList_injective hemployee)
    (Prod.ext (String.toList_injective hlocation) h.1)

/-- **Omitted balances**: a run marks a row exactly when the payload omits its
triple, unless another triple of the payload is joined to the same key text and
hides the omission. -/
theorem omitted_marked_iff (w : World) (syncLogs : List SyncLog) (nextLog : Id)
    (payload : List HcmRecord) :
    ∃ b, runBatchSync.run (execBatch payload) ⟨w, false, syncLogs, nextLog⟩ = some (.ok (), b)
      ∧ ∀ row ∈ w.db.balances.rows,
        ((Marked b nextLog row ↔ ∀ r ∈ payload, r.key ≠ row.key)
          ↔ ∀ r ∈ payload, SameText r.key row.key → ∃ r' ∈ payload, r'.key = row.key) := by
  obtain ⟨b, hrun, hmarks⟩ := runBatchSync_marks w syncLogs nextLog payload
  refine ⟨b, hrun, fun row hrow => ?_⟩
  have htext : hcmKey row.key ∈ hcmKeySet payload
      ↔ ∃ r ∈ payload, SameText r.key row.key := by
    simp only [hcmKeySet, List.mem_map, hcmKey_eq_iff]
  rw [hmarks row hrow, htext]
  constructor
  · intro h r hr heq
    by_contra homitted
    exact h.mpr (fun r' hr' hkey => homitted ⟨r', hr', hkey⟩) ⟨r, hr, heq⟩
  · intro h
    constructor
    · intro hnot r hr hkey
      exact hnot ⟨r, hr, hkey ▸ ⟨rfl, rfl⟩⟩
    · rintro homitted ⟨r, hr, heq⟩
      obtain ⟨r', hr', hkey⟩ := h r hr heq
      exact homitted r' hr' hkey

/-- An employee `A|B` at `C` and a record of `A` at `B|C`: the row is omitted and
no run marks it. -/
theorem omission_hidden :
    ∃ (w : World) (row : EmployeeBalance) (payload : List HcmRecord) (b : BatchWorld),
      runBatchSync.run (execBatch payload) ⟨w, false, [], 0⟩ = some (.ok (), b)
        ∧ row ∈ w.db.balances.rows ∧ (∀ r ∈ payload, r.key ≠ row.key) ∧ ¬ Marked b 0 row := by
  let row : EmployeeBalance :=
    NewBalance.toRow ⟨"A|B", "C", .vacation, 10, 10, 0, 0, 10, none, none⟩ 0 0
  let w : World := { World.initial 0 with
    db := { Database.empty with balances := ⟨[row], by simp, by simp⟩ }, uuid := 1 }
  let payload : List HcmRecord := [⟨"A", "B|C", .vacation, 10, none⟩]
  obtain ⟨b, hrun, hmarks⟩ := runBatchSync_marks w [] 0 payload
  have hrow : row ∈ w.db.balances.rows := List.mem_singleton.mpr rfl
  refine ⟨w, row, payload, b, hrun, hrow, ?_, ?_⟩
  · intro r hr
    rw [List.mem_singleton.mp hr]
    decide
  · rw [hmarks row hrow]
    decide

end LeaveLedger
