import LeaveLedger.Batch.PayloadRun

/-!
# Batch — A bad record does not stop the batch

A run says of a payload with failing elements what it would say without them, and
counts every element and every omitted row once. Two things stand against it. The
key set is built outside the `try` of the record loop, so one element whose key
fields have no text ends the whole run; and a row is taken for present when the
payload has its joined text under another key.
-/

namespace LeaveLedger.Payload

open Js Lib

variable {R : BalanceRepository} {now : ℤ}

/-! ## The whole run -/

/-- What a run says of the payload and the table it met: the row of a record that
goes through is as the run without the failing elements leaves it, every element
and every omitted row is counted once, and the status follows the counts. -/
structure Isolated (R : BalanceRepository) (now : ℤ) (payload : List Element) (s : BatchState) :
    Prop where
  rows : ∀ e ∈ survivors R now payload s.table, ∀ k, Names e.record k →
    (runBatchSync R now (some payload) s).table.byUk k
      = (runBatchSync R now (some (survivors R now payload s.table)) s).table.byUk k
  log : ∃ log ∈ (runBatchSync R now (some payload) s).syncLogs, log.id = s.nextLog
    ∧ (∃ (failed : List ErrorEntry) (omitted : List (String × String × String)),
      log.errorDetails.getD [] = failed ++ omitted.map missingEntry
      ∧ failed.map ErrorEntry.balance
        = (failures R now payload s.table).map (fun e => some (keyProperties e.record))
      ∧ omitted.Nodup
      ∧ (∀ k ∈ omitted, (∃ b ∈ (runBatchSync R now (some payload) s).table.rows, b.key = k)
        ∧ ∀ e ∈ payload, ¬ Names e.record k)
      ∧ (∀ b ∈ s.table.rows, (∀ e ∈ payload, ¬ Names e.record b.key) → b.key ∈ omitted)
      ∧ log.recordsProcessed = payload.length + omitted.length
      ∧ log.recordsFailed = failed.length + omitted.length)
    ∧ (log.status = .completed ↔ log.recordsFailed = 0)
    ∧ (log.status = .failed → log.recordsFailed = log.recordsProcessed)

theorem finalStatus_completed {totals : Totals} :
    totals.finalStatus = .completed ↔ totals.recordsFailed = 0 := by
  unfold Totals.finalStatus
  split
  · simp_all
  · split <;> simp_all

theorem finalStatus_failed {totals : Totals} (h : totals.finalStatus = .failed) :
    totals.recordsProcessed ≤ totals.recordsFailed := by
  unfold Totals.finalStatus at h
  split at h
  · cases h
  · split at h
    · cases h
    · omega

variable {payload : List Element} {s : BatchState}

theorem runBatchSync_of_idle (hidle : s.batchRunning = false)
    {result : Except (Totals × String) Totals} {t' : RowTable}
    (h : (reconcileBatch R now payload).run.run s.table = (result, t')) :
    (runBatchSync R now (some payload) s).table = t'
      ∧ (∃ log ∈ (runBatchSync R now (some payload) s).syncLogs, log.id = s.nextLog)
      ∧ ∀ log ∈ (runBatchSync R now (some payload) s).syncLogs, log.id = s.nextLog →
        ∃ l : BatchLog, log = l.close now result := by
  have hrun : (tryBlock R now (some payload)).run.run s.table = (result, t') := h
  have hid : ∀ l : BatchLog, (l.close now result).id = l.id := by
    intro l
    cases result <;> rfl
  unfold runBatchSync
  simp only [hidle, Bool.false_eq_true, if_false, hrun]
  refine ⟨trivial, ?_, ?_⟩
  · refine ⟨_, List.mem_map.mpr ⟨_, List.mem_append_right _ (List.mem_singleton.mpr rfl), rfl⟩, ?_⟩
    rw [if_pos rfl, hid]
  · intro log hlog hlogid
    obtain ⟨l, -, rfl⟩ := List.mem_map.mp hlog
    by_cases hl : l.id = s.nextLog
    · exact ⟨l, if_pos hl⟩
    · rw [if_neg hl] at hlogid
      exact absurd hlogid hl

/-- An element without a text ends the run before the record loop. -/
theorem reconcileBatch_fails (R : BalanceRepository) (now : ℤ)
    (h : ∃ e ∈ payload, ¬ HasKeyText e.record) (t : RowTable) :
    ∃ message, (reconcileBatch R now payload).run.run t = (.error ({}, message), t) := by
  obtain ⟨err, herr⟩ := hcmKeySet_error h
  refine ⟨err.message, ?_⟩
  unfold reconcileBatch
  rw [herr, run_bind]
  rfl

/-- The run on elements that all have a text. -/
theorem reconcileBatch_run (hR : R.Lawful) (now : ℤ) (htext : ∀ e ∈ payload, HasKeyText e.record)
    (t : RowTable) :
    ∃ keys totals t', (reconcileBatch R now payload).run.run t = (.ok totals, t')
      ∧ (∀ s, s ∈ keys ↔ ∃ e ∈ payload, ∃ k, Names e.record k ∧ joinKey k = s)
      ∧ totals.recordsProcessed
        = payload.length + (leftOut keys (reconciled R now payload t).rows).length
      ∧ totals.recordsFailed = (failures R now payload t).length
        + (leftOut keys (reconciled R now payload t).rows).length
      ∧ (∃ failed, totals.errors = failed ++ (leftOut keys (reconciled R now payload t).rows).map
          (fun row => missingEntry row.key)
        ∧ failed.map ErrorEntry.balance
          = (failures R now payload t).map fun e => some (keyProperties e.record))
      ∧ Stays (reconciled R now payload t) t'
      ∧ ∀ k, joinKey k ∈ keys → t'.byUk k = (reconciled R now payload t).byUk k := by
  obtain ⟨keys, hkeys, hmem⟩ := hcmKeySet_ok htext
  have hnull : ∀ e ∈ payload, e.record.isNull = false := fun e he => (htext e he).1
  obtain ⟨hprocessed, hfailed⟩ := foldl_processed_counts R now payload ({}, t)
  have herrors := foldl_processed_errors R now payload ({}, t)
  have htable := foldl_processed_table R now payload ({}, t)
  obtain ⟨totals, t', hrun, hprocessed', hfailed', herrors', hstays, hother⟩ :=
    flagMissing_run hR now keys (reconciled R now payload t).rows
      (payload.foldl (processed R now) ({}, t)).1 fun row hrow => ⟨row, hrow, rfl, rfl⟩
  refine ⟨keys, totals, t', ?_, hmem, ?_, ?_, ⟨_, herrors', herrors⟩, hstays, hother⟩
  · unfold reconcileBatch
    rw [hkeys, run_bind]
    show (processRecords R now {} payload >>= _ : Pass Totals).run.run t = _
    rw [run_bind, processRecords_run hnull, htable]
    exact hrun
  · rw [hprocessed', hprocessed]
    simp
  · rw [hfailed', hfailed]
    simp

theorem close_errorDetails (l : BatchLog) (totals : Totals) :
    (l.close now (.ok totals)).errorDetails.getD [] = totals.errors := by
  cases herrors : totals.errors <;> simp [BatchLog.close, herrors]

/-- A local row is hidden: the payload names another key with its joined text. -/
def Hidden (payload : List Element) (b : BalanceRow) : Prop :=
  (∃ e ∈ payload, ∃ k, Names e.record k ∧ joinKey k = joinKey b.key)
    ∧ ∀ e ∈ payload, ¬ Names e.record b.key

theorem not_isolated_of_text (hidle : s.batchRunning = false)
    (h : ∃ e ∈ payload, ¬ HasKeyText e.record) : ¬ Isolated R now payload s := by
  intro hiso
  obtain ⟨message, hrun⟩ := reconcileBatch_fails R now h s.table
  obtain ⟨-, -, hclosed⟩ := runBatchSync_of_idle hidle hrun
  obtain ⟨log, hlog, hid, ⟨failed, omitted, -, -, -, -, -, hprocessed, -⟩, -⟩ := hiso.log
  obtain ⟨l, rfl⟩ := hclosed log hlog hid
  obtain ⟨e, he, -⟩ := h
  have hpos : 0 < payload.length := List.length_pos_of_mem he
  have hzero : 0 = payload.length + omitted.length := hprocessed
  omega

theorem not_hidden_of_isolated (hR : R.Lawful) (hidle : s.batchRunning = false)
    (htext : ∀ e ∈ payload, HasKeyText e.record) (hiso : Isolated R now payload s) :
    ∀ b ∈ s.table.rows, ¬ Hidden payload b := by
  intro b hb ⟨hjoined, hunnamed⟩
  obtain ⟨keys, totals, t', hrun, hkeys, -, -, ⟨failed, herrors, hentries⟩, -, -⟩ :=
    reconcileBatch_run hR now htext s.table
  obtain ⟨-, -, hclosed⟩ := runBatchSync_of_idle hidle hrun
  obtain ⟨log, hlog, hid, ⟨failed', omitted, hdetails, hentries', -, -, homitted, -, -⟩, -⟩ :=
    hiso.log
  obtain ⟨l, rfl⟩ := hclosed log hlog hid
  rw [close_errorDetails, herrors] at hdetails
  -- as many entries come before, so the entries about missing rows are the same
  have hlength : failed.length = failed'.length := by
    have := congrArg List.length (hentries.trans hentries'.symm)
    simpa using this
  have hsame := (List.append_inj hdetails hlength).2
  have hmem : missingEntry b.key ∈ omitted.map missingEntry :=
    List.mem_map_of_mem (homitted b hb hunnamed)
  rw [← hsame] at hmem
  obtain ⟨row, hrow, heq⟩ := List.mem_map.mp hmem
  have hkey := missingEntry_injective heq
  have hout := of_decide_eq_true (List.mem_filter.mp hrow).2
  rw [BalanceRow.keyText_eq, hkey] at hout
  exact hout ((hkeys _).mpr hjoined)

theorem isolated_of_text (hR : R.Lawful) (hidle : s.batchRunning = false)
    (htext : ∀ e ∈ payload, HasKeyText e.record)
    (hhidden : ∀ b ∈ s.table.rows, ¬ Hidden payload b) :
    Isolated R now payload s := by
  obtain ⟨keys, totals, t', hrun, hkeys, hprocessed, hfailed, ⟨failed, herrors, hentries⟩, hstays,
    hother⟩ := reconcileBatch_run hR now htext s.table
  obtain ⟨htable, ⟨log, hlog, hid⟩, hclosed⟩ := runBatchSync_of_idle hidle hrun
  obtain ⟨l, rfl⟩ := hclosed log hlog hid
  have hlength : failed.length = (failures R now payload s.table).length := by
    simpa using congrArg List.length hentries
  constructor
  · intro e he k hk
    have hsub := survivors_subset R now payload s.table
    obtain ⟨keys', totals', t'', hrun', hkeys', -, -, -, -, hother'⟩ :=
      reconcileBatch_run hR now (fun e he => htext e (hsub e he)) s.table
    rw [htable, (runBatchSync_of_idle hidle hrun').1,
      hother k ((hkeys _).mpr ⟨e, hsub e he, k, hk, rfl⟩),
      hother' k ((hkeys' _).mpr ⟨e, he, k, hk, rfl⟩), reconciled_survivors]
  · refine ⟨_, hlog, hid, ⟨failed,
      (leftOut keys (reconciled R now payload s.table).rows).map BalanceRow.key,
      ?_, hentries, ?_, ?_, ?_, ?_, ?_⟩, ?_, ?_⟩
    · rw [close_errorDetails, herrors, List.map_map]
      rfl
    · exact ((reconciled R now payload s.table).uk_nodup).sublist
        (List.filter_sublist.map BalanceRow.key)
    · intro k hk
      obtain ⟨row, hrow, rfl⟩ := List.mem_map.mp hk
      obtain ⟨hmem, hout⟩ := List.mem_filter.mp hrow
      obtain ⟨b, hb, -, hkey⟩ := hstays row hmem
      refine ⟨⟨b, htable ▸ hb, hkey⟩, ?_⟩
      intro e he hnames
      exact of_decide_eq_true hout ((hkeys _).mpr ⟨e, he, _, hnames, rfl⟩)
    · intro b hb hunnamed
      obtain ⟨b', hb', -, hkey⟩ := reconciled_stays hR payload s.table b hb
      refine List.mem_map.mpr ⟨b', List.mem_filter.mpr ⟨hb', decide_eq_true ?_⟩, hkey⟩
      intro hmem
      rw [BalanceRow.keyText_eq, hkey] at hmem
      exact hhidden b hb ⟨(hkeys _).mp hmem, hunnamed⟩
    · rw [List.length_map]
      exact hprocessed
    · rw [List.length_map, hlength]
      exact hfailed
    · exact finalStatus_completed
    · intro h
      have hle : totals.recordsProcessed ≤ totals.recordsFailed := finalStatus_failed h
      have hfew := failures_length_le R now payload s.table
      show totals.recordsFailed = totals.recordsProcessed
      omega

/-- The row of any record of the payload, one that fails included, is as the record
loop on the other elements leaves it. -/
theorem row_of_named (hR : R.Lawful) (hidle : s.batchRunning = false)
    (htext : ∀ e ∈ payload, HasKeyText e.record) {e : Element} (he : e ∈ payload)
    {k : String × String × String} (hk : Names e.record k) :
    (runBatchSync R now (some payload) s).table.byUk k
      = (reconciled R now (survivors R now payload s.table) s.table).byUk k := by
  obtain ⟨keys, totals, t', hrun, hkeys, -, -, -, -, hother⟩ :=
    reconcileBatch_run hR now htext s.table
  rw [(runBatchSync_of_idle hidle hrun).1, hother k ((hkeys _).mpr ⟨e, he, k, hk, rfl⟩),
    reconciled_survivors]

/-! ## A repository to run on -/

/-- A condition of `where`: TypeORM skips one that is `undefined` or `null`. -/
def holds (v : Option Json) (column : String) : Bool :=
  match v with
  | none => true
  | some .null => true
  | some v => v.text? = some column

/-- The driver writes numbers into the text of the statement, where `NaN` and `Infinity` are
the names of columns that are not there. -/
def sqlNumbers : List JsNumber → Except Exception Unit
  | [] => .ok ()
  | .finite _ :: rest => sqlNumbers rest
  | .infinite _ :: _ => .error (sqlError "no such column: Infinity")
  | .nan :: _ => .error (sqlError "no such column: NaN")

def textColumn (v : Option Json) : Except Exception String :=
  match v with
  | none => .error (constraintError "NOT NULL constraint failed: employee_balances")
  | some .null => .error (constraintError "NOT NULL constraint failed: employee_balances")
  | some v => toText (some v)

def insertRow (t : RowTable) (b : BalanceRow) : Except Exception RowTable :=
  match t.insert? b with
  | some t' => .ok t'
  | none => .error (uniqueError "employee_balances")

/-- SQLite, with generated ids that count on. -/
def sqlite : BalanceRepository where
  findOne employeeId locationId leaveType t :=
    .ok (t.rows.find? fun b =>
      holds employeeId b.employeeId && holds locationId b.locationId && holds leaveType b.leaveType)
  save row t := do
    sqlNumbers [row.totalBalance, row.availableBalance, row.hcmTotalBalance]
    let employeeId ← textColumn row.employeeId
    let locationId ← textColumn row.locationId
    let leaveType ← textColumn row.leaveType
    insertRow t {
      id := t.rows.foldl (fun m b => max m (b.id + 1)) 0
      employeeId := employeeId, locationId := locationId, leaveType := leaveType
      totalBalance := row.totalBalance, availableBalance := row.availableBalance
      pendingBalance := row.pendingBalance, usedBalance := row.usedBalance
      hcmTotalBalance := row.hcmTotalBalance, hcmLastSync := some row.hcmLastSync
      hcmVersion := row.hcmVersion, hasDiscrepancy := false, discrepancyAmount := none }
  update id patch t := do
    -- an amount that is no number comes with an HCM total that is none
    sqlNumbers (patch.totalBalance.toList ++ patch.availableBalance.toList
      ++ patch.hcmTotalBalance.toList)
    .ok (t.modify id (fun b => { b with
      totalBalance := patch.totalBalance.getD b.totalBalance
      availableBalance := patch.availableBalance.getD b.availableBalance
      hcmTotalBalance := patch.hcmTotalBalance.getD b.hcmTotalBalance
      hcmLastSync := some patch.hcmLastSync
      hcmVersion := patch.hcmVersion.getD b.hcmVersion
      hasDiscrepancy := patch.hasDiscrepancy
      discrepancyAmount := patch.discrepancyAmount }) (fun _ => rfl) (fun _ => rfl))

theorem bind_eq_ok {ε α β : Type} {x : Except ε α} {f : α → Except ε β} {b : β}
    (h : x >>= f = .ok b) : ∃ a, x = .ok a ∧ f a = .ok b := by
  cases x with
  | error err => cases h
  | ok a => exact ⟨a, rfl, h⟩

theorem sqlite_lawful : sqlite.Lawful where
  save_keeps := by
    intro row t t' h b hb
    obtain ⟨-, -, h⟩ := bind_eq_ok h
    obtain ⟨employeeId, -, h⟩ := bind_eq_ok h
    obtain ⟨locationId, -, h⟩ := bind_eq_ok h
    obtain ⟨leaveType, -, h⟩ := bind_eq_ok h
    unfold insertRow at h
    split at h
    · rename_i t₁ hinsert
      cases h
      rw [(Table.insert?_some hinsert).1]
      exact List.mem_append_left _ hb
    · cases h
  update_row := by
    intro id patch t t' h
    obtain ⟨-, -, h⟩ := bind_eq_ok h
    cases h
    exact ⟨_, _, _, rfl⟩
  flag_accepted := by
    intro row now t _
    exact ⟨_, rfl⟩

/-! ## The result -/

/-- **A bad record does not stop the batch**, but for two kinds: an element that is
`null` or has a key field without a text ends the run, and a row whose joined text
another key of the payload has is not counted. -/
theorem batch_isolated_iff (hR : R.Lawful) (hidle : s.batchRunning = false)
    (payload : List Element) :
    Isolated R now payload s ↔
      (∀ e ∈ payload, HasKeyText e.record) ∧ ∀ b ∈ s.table.rows, ¬ Hidden payload b := by
  constructor
  · intro hiso
    have htext : ∀ e ∈ payload, HasKeyText e.record := by
      by_contra hbad
      push Not at hbad
      exact not_isolated_of_text hidle hbad hiso
    exact ⟨htext, not_hidden_of_isolated hR hidle htext hiso⟩
  · intro ⟨htext, hhidden⟩
    exact isolated_of_text hR hidle htext hhidden

/-- A row that is there, and a record of its key that is no use beside one that is. -/
def johnRow : BalanceRow where
  id := 0
  employeeId := "john"
  locationId := "NY"
  leaveType := "VACATION"
  totalBalance := .finite 10
  availableBalance := .finite 10
  pendingBalance := .finite 0
  usedBalance := .finite 0
  hcmTotalBalance := .finite 10
  hcmLastSync := none
  hcmVersion := .null
  hasDiscrepancy := false
  discrepancyAmount := none

def oneRow : BatchState where
  table := ⟨[johnRow], by simp, by simp⟩
  batchRunning := false
  syncLogs := []
  nextLog := 0

def johnRecord (total : String) : Json :=
  .obj [("employeeId", .str "john"), ("locationId", .str "NY"), ("leaveType", .str "VACATION"),
    ("totalBalance", .str total)]

/-- A record without a number as its total fails, and the one after it goes through. -/
theorem batch_isolated_iff_bad_total :
    (turn sqlite 0 ⟨johnRecord "n/a", {}⟩ oneRow.table).1.isOk = false
      ∧ Isolated sqlite 0 [⟨johnRecord "n/a", {}⟩, ⟨johnRecord "12.5", {}⟩] oneRow := by
  have hnames : ∀ total, Names (johnRecord total) johnRow.key := fun total => rfl
  refine ⟨by decide +kernel, (batch_isolated_iff sqlite_lawful rfl _).mpr ⟨?_, ?_⟩⟩
  · intro e he
    simp only [List.mem_cons, List.not_mem_nil, or_false] at he
    obtain rfl | rfl := he
    · exact hasKeyText_iff.mpr ⟨_, hnames "n/a"⟩
    · exact hasKeyText_iff.mpr ⟨_, hnames "12.5"⟩
  · intro b hb hhidden
    obtain rfl := List.mem_singleton.mp hb
    exact hhidden.2 _ List.mem_cons_self (hnames "n/a")

/-- One `null` in the payload: the run fails with no element counted. -/
theorem null_ends_batch :
    sqlite.Lawful
      ∧ ((runBatchSync sqlite 0 (some [⟨.null, {}⟩, ⟨johnRecord "12.5", {}⟩]) oneRow).syncLogs.map
          fun l => (l.status, l.recordsProcessed, l.recordsFailed)) = [(.failed, 0, 0)]
      ∧ ¬ Isolated sqlite 0 [⟨.null, {}⟩, ⟨johnRecord "12.5", {}⟩] oneRow := by
  refine ⟨sqlite_lawful, rfl, not_isolated_of_text rfl ⟨⟨.null, {}⟩, List.mem_cons_self, ?_⟩⟩
  intro h
  cases h.1

end LeaveLedger.Payload
