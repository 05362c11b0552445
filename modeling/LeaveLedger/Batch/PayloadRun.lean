import LeaveLedger.Hcm.BatchPayload
import LeaveLedger.Batch.RecordLoop

/-!
# Batch — The passes over a payload

The three passes of `runBatchSync` over an arbitrary payload. A turn that throws
leaves the table as it was, so the record loop comes out as on the payload without
the failing elements (`reconciled_survivors`). On a record of the kind the store
holds a turn asks for the statements of `reconcileRecord` (`Reads.turn_found`).
-/

namespace LeaveLedger.Payload

open Js Lib

/-! ## Computations that keep what they wrote when they throw -/

theorem run_bind {ε σ α β : Type} (x : ExceptT ε (StateM σ) α) (f : α → ExceptT ε (StateM σ) β)
    (s : σ) :
    (x >>= f).run.run s = match x.run.run s with
      | (.ok a, s') => (f a).run.run s'
      | (.error err, s') => (.error err, s') := by
  rw [ExceptT.run_bind, StateT.run_bind]
  show Id.run _ = _
  obtain ⟨a | err, s'⟩ := x.run.run s <;> rfl

/-! ## One turn -/

/-- What a turn returns or throws, and the table after it. -/
def turn (R : BalanceRepository) (now : ℤ) (e : Element) (t : RowTable) :
    Except Exception Bool × RowTable :=
  (reconcileRecord R now e).run.run t

/-- How a turn came out: something was thrown, or the one write went through. -/
inductive TurnCase (R : BalanceRepository) (t : RowTable) : Except Exception Bool × RowTable → Prop
  | failed (err : Exception) : TurnCase R t (.error err, t)
  | saved {row : NewRow} {t' : RowTable} (h : R.save row t = .ok t') : TurnCase R t (.ok true, t')
  | updated {id : Id} {patch : RowPatch} {t' : RowTable} (changed : Bool)
      (h : R.update id patch t = .ok t') : TurnCase R t (.ok changed, t')

variable {R : BalanceRepository} {now : ℤ}

theorem findOne_run (faults : Faults) (employeeId locationId leaveType : Option Json)
    (t : RowTable) :
    ∃ x, (findOne R faults employeeId locationId leaveType).run.run t = (x, t) := by
  unfold findOne
  rw [run_bind]
  cases faults.find with
  | some err => exact ⟨.error err, rfl⟩
  | none => exact ⟨R.findOne employeeId locationId leaveType t, rfl⟩

theorem write_run (faults : Faults) (stmt : RowTable → Except Exception RowTable) (t : RowTable) :
    (write faults stmt).run.run t = match faults.write with
      | some err => (.error err, t)
      | none => match stmt t with
        | .ok t' => (.ok (), t')
        | .error err => (.error err, t) := by
  unfold write
  rw [run_bind]
  cases faults.write with
  | some err => rfl
  | none =>
      show (liftExcept (stmt t) >>= set : Turn Unit).run.run t = _
      rw [run_bind]
      cases stmt t <;> rfl

/-- The write that ends a turn. -/
theorem write_turn (faults : Faults) {stmt : RowTable → Except Exception RowTable} {t : RowTable}
    {changed : Bool} (hwrite : ∀ t', stmt t = .ok t' → TurnCase R t (.ok changed, t')) :
    TurnCase R t ((write faults stmt >>= fun _ => pure changed : Turn Bool).run.run t) := by
  rw [run_bind, write_run]
  cases faults.write with
  | some err => exact .failed err
  | none =>
      cases hstmt : stmt t with
      | error err => exact .failed err
      | ok t' => exact hwrite t' hstmt

theorem turn_cases (R : BalanceRepository) (now : ℤ) (e : Element) (t : RowTable) :
    TurnCase R t (turn R now e t) := by
  unfold turn reconcileRecord
  split
  · exact .failed _
  · rw [run_bind]
    cases toText (e.record.get? "totalBalance") with
    | error err => exact .failed err
    | ok hcmTotalStr =>
        show TurnCase R t ((findOne R e.faults _ _ _ >>= _ : Turn Bool).run.run t)
        obtain ⟨x, hfind⟩ := findOne_run (R := R) e.faults (e.record.get? "employeeId")
          (e.record.get? "locationId") (e.record.get? "leaveType") t
        rw [run_bind, hfind]
        cases x with
        | error err => exact .failed err
        | ok localBalance =>
            cases localBalance with
            | none => exact write_turn e.faults fun t' h => .saved h
            | some localBalance => exact write_turn e.faults fun t' h => .updated _ h

/-! ## The record loop -/

/-- The key fields that the error entry of an element repeats. -/
def keyProperties (r : Json) : Option Json × Option Json × Option Json :=
  (r.get? "employeeId", r.get? "locationId", r.get? "leaveType")

/-- The counters after one element. -/
def Totals.count (totals : Totals) (e : Element) : Except Exception Bool → Totals
  | .ok updated =>
      if updated then
        { totals with
          recordsProcessed := totals.recordsProcessed + 1
          recordsUpdated := totals.recordsUpdated + 1 }
      else { totals with recordsProcessed := totals.recordsProcessed + 1 }
  | .error err =>
      { totals with
        recordsProcessed := totals.recordsProcessed + 1
        recordsFailed := totals.recordsFailed + 1
        errors := totals.errors ++ [⟨some (keyProperties e.record), err.message⟩] }

def processed (R : BalanceRepository) (now : ℤ) (s : Totals × RowTable) (e : Element) :
    Totals × RowTable :=
  (s.1.count e (turn R now e s.2).1, (turn R now e s.2).2)

theorem processRecord_run {e : Element} (hnull : e.record.isNull = false) (totals : Totals)
    (t : RowTable) :
    (processRecord R now totals e).run.run t
      = (.ok (processed R now (totals, t) e).1, (processed R now (totals, t) e).2) := by
  unfold processRecord
  rw [run_bind]
  have hlift : (ExceptT.lift (reconcileRecord R now e).run : Pass _).run.run t
      = (.ok (turn R now e t).1, (turn R now e t).2) := rfl
  rw [hlift]
  unfold processed
  cases (turn R now e t).1 with
  | ok updated => cases updated <;> rfl
  | error err =>
      cases hrecord : e.record with
      | null => rw [hrecord] at hnull; cases hnull
      | _ =>
          simp only [Totals.count, hrecord]
          rfl

/-- **The loop rule**: on elements that are not `null` the record loop throws
nothing and folds `processed`. -/
theorem processRecords_run {payload : List Element}
    (hnull : ∀ e ∈ payload, e.record.isNull = false) (totals : Totals) (t : RowTable) :
    (processRecords R now totals payload).run.run t
      = (.ok (payload.foldl (processed R now) (totals, t)).1,
          (payload.foldl (processed R now) (totals, t)).2) := by
  induction payload generalizing totals t with
  | nil => rfl
  | cons e rest ih =>
      rw [processRecords, run_bind, processRecord_run (hnull e List.mem_cons_self)]
      exact ih (fun e he => hnull e (List.mem_cons_of_mem _ he)) _ _

/-- The table after the record loop. -/
def reconciled (R : BalanceRepository) (now : ℤ) (payload : List Element) (t : RowTable) :
    RowTable :=
  payload.foldl (fun t e => (turn R now e t).2) t

/-- The elements whose reconciliation goes through, in their turn. -/
def survivors (R : BalanceRepository) (now : ℤ) : List Element → RowTable → List Element
  | [], _ => []
  | e :: rest, t =>
      match turn R now e t with
      | (.ok _, t') => e :: survivors R now rest t'
      | (.error _, t') => survivors R now rest t'

/-- The elements whose reconciliation fails. -/
def failures (R : BalanceRepository) (now : ℤ) : List Element → RowTable → List Element
  | [], _ => []
  | e :: rest, t =>
      match turn R now e t with
      | (.ok _, t') => failures R now rest t'
      | (.error _, t') => e :: failures R now rest t'

theorem foldl_processed_table (R : BalanceRepository) (now : ℤ) (payload : List Element)
    (s : Totals × RowTable) :
    (payload.foldl (processed R now) s).2 = reconciled R now payload s.2 := by
  induction payload generalizing s with
  | nil => rfl
  | cons e rest ih => exact ih _

theorem foldl_processed_counts (R : BalanceRepository) (now : ℤ) (payload : List Element)
    (s : Totals × RowTable) :
    (payload.foldl (processed R now) s).1.recordsProcessed
        = s.1.recordsProcessed + payload.length
      ∧ (payload.foldl (processed R now) s).1.recordsFailed
        = s.1.recordsFailed + (failures R now payload s.2).length := by
  induction payload generalizing s with
  | nil => simp [failures]
  | cons e rest ih =>
      obtain ⟨hprocessed, hfailed⟩ := ih (processed R now s e)
      rw [List.foldl_cons, hprocessed, hfailed]
      simp only [processed, failures, List.length_cons]
      obtain ⟨x, t'⟩ := turn R now e s.2
      cases x with
      | ok updated =>
          cases updated <;> simp only [Totals.count] <;> constructor <;> grind
      | error err =>
          simp only [Totals.count, List.length_cons]
          omega

theorem failures_length_le (R : BalanceRepository) (now : ℤ) (payload : List Element)
    (t : RowTable) :
    (failures R now payload t).length ≤ payload.length := by
  induction payload generalizing t with
  | nil => exact le_rfl
  | cons e rest ih =>
      unfold failures
      obtain ⟨x, t'⟩ := turn R now e t
      have hrest := ih t'
      cases x <;> simp only [List.length_cons] <;> omega

/-- Each failing element has its entry. -/
theorem foldl_processed_errors (R : BalanceRepository) (now : ℤ) (payload : List Element)
    (s : Totals × RowTable) :
    (payload.foldl (processed R now) s).1.errors.map ErrorEntry.balance
      = s.1.errors.map ErrorEntry.balance
        ++ (failures R now payload s.2).map fun e => some (keyProperties e.record) := by
  induction payload generalizing s with
  | nil => simp [failures]
  | cons e rest ih =>
      rw [List.foldl_cons, ih]
      simp only [processed, failures]
      obtain ⟨x, t'⟩ := turn R now e s.2
      cases x with
      | ok updated => cases updated <;> rfl
      | error err => simp [Totals.count]

/-- **A failing element leaves nothing behind**: the record loop comes out as on
the payload without those that fail. -/
theorem reconciled_survivors (payload : List Element) (t : RowTable) :
    reconciled R now (survivors R now payload t) t = reconciled R now payload t := by
  induction payload generalizing t with
  | nil => rfl
  | cons e rest ih =>
      have hcase := turn_cases R now e t
      unfold survivors
      cases hturn : turn R now e t with
      | mk x t' =>
          rw [hturn] at hcase
          have hrest : reconciled R now (e :: rest) t = reconciled R now rest t' := by
            simp only [reconciled, List.foldl_cons, hturn]
          rw [hrest, ← ih t']
          cases x with
          | ok updated =>
              show reconciled R now (e :: _) t = _
              simp only [reconciled, List.foldl_cons, hturn]
          | error err =>
              cases hcase
              rfl

theorem survivors_subset (R : BalanceRepository) (now : ℤ) (payload : List Element) (t : RowTable) :
    ∀ e ∈ survivors R now payload t, e ∈ payload := by
  induction payload generalizing t with
  | nil => simp [survivors]
  | cons e rest ih =>
      unfold survivors
      obtain ⟨x, t'⟩ := turn R now e t
      cases x with
      | ok updated =>
          intro e' he'
          obtain rfl | he' := List.mem_cons.mp he'
          · exact List.mem_cons_self
          · exact List.mem_cons_of_mem _ (ih t' e' he')
      | error err =>
          intro e' he'
          exact List.mem_cons_of_mem _ (ih t' e' he')

/-! ## The key set -/

/-- The joined text of three key fields. -/
def joinKey (k : String × String × String) : String := k.1 ++ "|" ++ k.2.1 ++ "|" ++ k.2.2

/-- The texts of the key fields of a record. -/
def keyFields : Json → Option (String × String × String)
  | .null => none
  | r =>
      (Json.propertyText? (r.get? "employeeId")).bind fun employeeId =>
        (Json.propertyText? (r.get? "locationId")).bind fun locationId =>
          (Json.propertyText? (r.get? "leaveType")).map fun leaveType =>
            (employeeId, locationId, leaveType)

/-- The record names the key, field by field. -/
def Names (r : Json) (k : String × String × String) : Prop := keyFields r = some k

/-- The record is no `null`, and each of its key fields has a text: none is made of
an object with a property `toString` of its own. -/
def HasKeyText (r : Json) : Prop :=
  r.isNull = false
    ∧ ∀ field ∈ ["employeeId", "locationId", "leaveType"], ∀ v, r.get? field = some v → v.Printable

theorem BalanceRow.keyText_eq (b : BalanceRow) : b.keyText = joinKey b.key := rfl

theorem keyText_cases (r : Json) :
    (∃ k, keyFields r = some k ∧ keyText r = .ok (joinKey k))
      ∨ keyFields r = none ∧ ∃ err, keyText r = .error err := by
  by_cases hnull : r.isNull
  · cases r <;> simp_all [Json.isNull, keyFields, keyText]
  · have hfields : keyFields r = (Json.propertyText? (r.get? "employeeId")).bind fun employeeId =>
        (Json.propertyText? (r.get? "locationId")).bind fun locationId =>
          (Json.propertyText? (r.get? "leaveType")).map fun leaveType =>
            (employeeId, locationId, leaveType) := by
      cases r <;> simp_all [Json.isNull, keyFields]
    have htext : keyText r = (do
        let employeeId ← toText (r.get? "employeeId")
        let locationId ← toText (r.get? "locationId")
        let leaveType ← toText (r.get? "leaveType")
        pure (employeeId ++ "|" ++ locationId ++ "|" ++ leaveType)) := by
      cases r <;> simp_all [Json.isNull, keyText]
    -- the first field without a text decides
    rw [hfields, htext]
    unfold toText
    cases Json.propertyText? (r.get? "employeeId") with
    | none => exact Or.inr ⟨rfl, _, rfl⟩
    | some e =>
        cases Json.propertyText? (r.get? "locationId") with
        | none => exact Or.inr ⟨rfl, _, rfl⟩
        | some l =>
            cases Json.propertyText? (r.get? "leaveType") with
            | none => exact Or.inr ⟨rfl, _, rfl⟩
            | some t => exact Or.inl ⟨(e, l, t), rfl, rfl⟩

theorem keyText_eq_ok {r : Json} {s : String} :
    keyText r = .ok s ↔ ∃ k, Names r k ∧ joinKey k = s := by
  obtain ⟨k, hk, htext⟩ | ⟨hk, err, htext⟩ := keyText_cases r <;> simp [Names, hk, htext]

theorem hasKeyText_iff {r : Json} : HasKeyText r ↔ ∃ k, Names r k := by
  have hfield : ∀ v : Option Json,
      (Json.propertyText? v).isSome ↔ ∀ v', v = some v' → v'.Printable := by
    intro v
    cases v with
    | none => simp [Json.propertyText?]
    | some v => simpa [Json.propertyText?] using Json.text?_isSome_iff v
  have hnames : (∃ k, Names r k) ↔ r.isNull = false
      ∧ (Json.propertyText? (r.get? "employeeId")).isSome
      ∧ (Json.propertyText? (r.get? "locationId")).isSome
      ∧ (Json.propertyText? (r.get? "leaveType")).isSome := by
    cases r <;> simp [Names, keyFields, Json.isNull, Option.isSome_iff_exists,
      Option.bind_eq_some_iff]
  rw [hnames, hfield, hfield, hfield]
  simp [HasKeyText]

/-- The key set has the joined text of every element. -/
theorem hcmKeySet_ok {payload : List Element} (h : ∀ e ∈ payload, HasKeyText e.record) :
    ∃ keys, (payload.mapM fun e => keyText e.record) = .ok keys
      ∧ ∀ s, s ∈ keys ↔ ∃ e ∈ payload, ∃ k, Names e.record k ∧ joinKey k = s := by
  induction payload with
  | nil => exact ⟨[], rfl, by simp⟩
  | cons e rest ih =>
      obtain ⟨k, hk⟩ := hasKeyText_iff.mp (h e List.mem_cons_self)
      obtain ⟨keys, hkeys, hmem⟩ := ih fun e he => h e (List.mem_cons_of_mem _ he)
      have htext : keyText e.record = .ok (joinKey k) := keyText_eq_ok.mpr ⟨k, hk, rfl⟩
      have honly : ∀ s, (∃ k', Names e.record k' ∧ joinKey k' = s) ↔ s = joinKey k := by
        intro s
        simp only [Names] at hk ⊢
        simp [hk, eq_comm]
      refine ⟨joinKey k :: keys, ?_, ?_⟩
      · rw [List.mapM_cons, htext, hkeys]
        rfl
      · intro s
        rw [List.mem_cons, hmem]
        simp only [List.mem_cons, or_and_right, exists_or, exists_eq_left, honly]

/-- One element without a text, and there is no key set. -/
theorem hcmKeySet_error {payload : List Element} (h : ∃ e ∈ payload, ¬ HasKeyText e.record) :
    ∃ err, (payload.mapM fun e => keyText e.record) = .error err := by
  induction payload with
  | nil =>
      obtain ⟨e, he, -⟩ := h
      cases he
  | cons e rest ih =>
      rw [List.mapM_cons]
      obtain ⟨k, hk, htext⟩ | ⟨hk, err, htext⟩ := keyText_cases e.record
      · have hrest : ∃ e ∈ rest, ¬ HasKeyText e.record := by
          obtain ⟨e', he', hbad⟩ := h
          obtain rfl | he' := List.mem_cons.mp he'
          · exact absurd (hasKeyText_iff.mpr ⟨k, hk⟩) hbad
          · exact ⟨e', he', hbad⟩
        obtain ⟨err, herr⟩ := ih hrest
        refine ⟨err, ?_⟩
        rw [htext, herr]
        rfl
      · refine ⟨err, ?_⟩
        rw [htext]
        rfl

/-! ## Records that are as they should be -/

/-- The element is the record `r`: its key fields are strings and its total reads as a
number. -/
structure Reads (j : Json) (r : HcmRecord) : Prop where
  employeeId : j.get? "employeeId" = some (.str r.employeeId)
  locationId : j.get? "locationId" = some (.str r.locationId)
  leaveType : j.get? "leaveType" = some (.str r.leaveType.text)
  total : ∃ text, toText (j.get? "totalBalance") = .ok text
    ∧ parseFloat text = .finite r.totalBalance
  version : j.get? "version" = r.version.map Json.str

/-- A nullable text column. -/
def textOrNull : Option String → Json
  | some v => .str v
  | none => .null

/-- A row of the store as a row with any columns. -/
def rawRow (b : EmployeeBalance) : BalanceRow where
  id := b.id
  employeeId := b.employeeId
  locationId := b.locationId
  leaveType := b.leaveType.text
  totalBalance := .finite b.totalBalance
  availableBalance := .finite b.availableBalance
  pendingBalance := .finite b.pendingBalance
  usedBalance := .finite b.usedBalance
  hcmTotalBalance := .finite b.hcmTotalBalance
  hcmLastSync := b.hcmLastSync
  hcmVersion := textOrNull b.hcmVersion
  hasDiscrepancy := b.hasDiscrepancy
  discrepancyAmount := b.discrepancyAmount.map .finite

def rawNewRow (n : NewBalance) (now : ℤ) : NewRow where
  employeeId := some (.str n.employeeId)
  locationId := some (.str n.locationId)
  leaveType := some (.str n.leaveType.text)
  totalBalance := .finite n.totalBalance
  availableBalance := .finite n.availableBalance
  pendingBalance := .finite n.pendingBalance
  usedBalance := .finite n.usedBalance
  hcmTotalBalance := .finite n.hcmTotalBalance
  hcmLastSync := now
  hcmVersion := textOrNull n.hcmVersion

def rawPatch (p : BalancePatch) (now : ℤ) : RowPatch where
  totalBalance := p.totalBalance.map .finite
  availableBalance := p.availableBalance.map .finite
  hcmTotalBalance := p.hcmTotalBalance.map .finite
  hcmLastSync := now
  hcmVersion := p.hcmVersion.map textOrNull
  hasDiscrepancy := p.hasDiscrepancy.getD false
  discrepancyAmount := p.discrepancyAmount.join.map .finite

variable {j : Json} {r : HcmRecord}

theorem Reads.isNull (h : Reads j r) : j.isNull = false := by
  have hemployee := h.employeeId
  cases j <;> simp_all [Json.isNull, Json.get?]

theorem Reads.names (h : Reads j r) :
    Names j (r.employeeId, r.locationId, r.leaveType.text) := by
  cases j with
  | null => cases h.isNull
  | _ =>
      simp only [Names, keyFields, h.employeeId, h.locationId, h.leaveType]
      rfl

/-- Its key text is that of the record. -/
theorem Reads.keyText (h : Reads j r) : keyText j = .ok (hcmKey r.key) :=
  keyText_eq_ok.mpr ⟨_, h.names, rfl⟩

theorem Reads.orNull (h : Reads j r) :
    Json.orNull (j.get? "version") = textOrNull (LeaveLedger.orNull r.version) := by
  rw [h.version]
  cases r.version with
  | none => rfl
  | some v =>
      by_cases hempty : v = ""
      · subst hempty
        rfl
      · have hsome : LeaveLedger.orNull (some v) = some v := by
          unfold LeaveLedger.orNull
          split <;> simp_all
        simp [Json.orNull, hsome, textOrNull, hempty]

/-- A key without a row: the columns are those of the record. -/
theorem Reads.newRow (h : Reads j r) (now : ℤ) :
    newRow j (.finite r.totalBalance) now = rawNewRow (r.newBalance now) now := by
  simp only [Payload.newRow, rawNewRow, HcmRecord.newBalance, h.employeeId, h.locationId,
    h.leaveType, h.orNull]

theorem drift_finite (total : ℚ) (b : EmployeeBalance) :
    (JsNumber.finite total).sub (rawRow b).localTotal = .finite (total - b.localTotal) := by
  simp [JsNumber.sub, BalanceRow.localTotal, rawRow, JsNumber.add, JsNumber.neg,
    EmployeeBalance.localTotal, sub_eq_add_neg]

theorem changed_finite (drift : ℚ) :
    (!((JsNumber.finite drift).abs.le driftTolerance)) = decide (0.01 < |drift|) := by
  simp [JsNumber.abs, JsNumber.le, driftTolerance, ← not_le]

/-- A row that was read: the columns are those of the record's patch. -/
theorem Reads.driftPatch (h : Reads j r) (b : EmployeeBalance) (now : ℤ) :
    driftPatch j (.finite r.totalBalance) (rawRow b) now
      = rawPatch (LeaveLedger.reconcilePatch r b now) now := by
  unfold Payload.driftPatch LeaveLedger.reconcilePatch
  simp only [drift_finite, h.orNull, driftTolerance, JsNumber.abs, JsNumber.le, JsNumber.gt,
    decide_eq_true_eq]
  by_cases hsmall : |r.totalBalance - b.localTotal| ≤ 0.01
  · simp [hsmall, rawPatch]
  · by_cases hmore : 0.01 < r.totalBalance - b.localTotal
    · simp [hsmall, hmore, not_le.mpr hmore, rawPatch, rawRow, JsNumber.add]
    · simp [hsmall, hmore, not_lt.mp hmore, rawPatch]

/-- How a turn ends that writes last. -/
def ended (t : RowTable) (changed : Bool) (x : Except Exception RowTable) :
    Except Exception Bool × RowTable :=
  match x with
  | .ok t' => (.ok changed, t')
  | .error err => (.error err, t)

theorem write_ended (stmt : RowTable → Except Exception RowTable) (changed : Bool) (t : RowTable) :
    (write {} stmt >>= fun _ => pure changed : Turn Bool).run.run t = ended t changed (stmt t) := by
  rw [run_bind, write_run]
  cases stmt t <;> rfl

theorem Reads.turn_eq (h : Reads j r) {found : Option BalanceRow} {t : RowTable}
    (hfind : R.findOne (some (.str r.employeeId)) (some (.str r.locationId))
      (some (.str r.leaveType.text)) t = .ok found) :
    turn R now ⟨j, {}⟩ t = match found with
      | none => ended t true (R.save (Payload.newRow j (.finite r.totalBalance) now) t)
      | some b => ended t
          (!(((JsNumber.finite r.totalBalance).sub b.localTotal).abs.le driftTolerance))
          (R.update b.id (Payload.driftPatch j (.finite r.totalBalance) b now) t) := by
  obtain ⟨text, htext, htotal⟩ := h.total
  have hlookup : (findOne R {} (j.get? "employeeId") (j.get? "locationId")
      (j.get? "leaveType")).run.run t = (.ok found, t) := by
    rw [h.employeeId, h.locationId, h.leaveType, ← hfind]
    rfl
  unfold Payload.turn reconcileRecord
  split
  · rename_i hnull
    cases hnull
    cases h.isNull
  · rw [run_bind, htext]
    show (findOne R {} _ _ _ >>= _ : Turn Bool).run.run t = _
    rw [run_bind, hlookup, htotal]
    cases found with
    | none => exact write_ended _ true t
    | some b => exact write_ended _ _ t

/-- A turn on a record of the store's own kind asks for the statements that
`reconcileRecord` asks for, and returns what it returns. -/
theorem Reads.turn_found (h : Reads j r) {b : EmployeeBalance} {t : RowTable}
    (hfind : R.findOne (some (.str r.employeeId)) (some (.str r.locationId))
      (some (.str r.leaveType.text)) t = .ok (some (rawRow b))) :
    turn R now ⟨j, {}⟩ t = ended t (0.01 < |r.totalBalance - b.localTotal|)
      (R.update b.id (rawPatch (LeaveLedger.reconcilePatch r b now) now) t) := by
  rw [h.turn_eq hfind]
  show ended t _ (R.update b.id _ t) = _
  rw [h.driftPatch, drift_finite, changed_finite]

theorem Reads.turn_missing (h : Reads j r) {t : RowTable}
    (hfind : R.findOne (some (.str r.employeeId)) (some (.str r.locationId))
      (some (.str r.leaveType.text)) t = .ok none) :
    turn R now ⟨j, {}⟩ t = ended t true (R.save (rawNewRow (r.newBalance now) now) t) := by
  rw [h.turn_eq hfind, ← h.newRow]

/-! ## The repository -/

/-- What is relied on of `balanceRepository`: a save adds to the rows, an update
changes the row with the id and no key column, and the flag of a row that is
there is accepted, so that only turns of elements fail. -/
structure BalanceRepository.Lawful (R : BalanceRepository) : Prop where
  save_keeps : ∀ row t t', R.save row t = .ok t' → ∀ b ∈ t.rows, b ∈ t'.rows
  update_row : ∀ id patch t t', R.update id patch t = .ok t' →
    ∃ (f : BalanceRow → BalanceRow) (hid : ∀ b, (f b).id = b.id) (hkey : ∀ b, (f b).key = b.key),
      t' = t.modify id f hid hkey
  flag_accepted : ∀ (row : BalanceRow) now t, row.id ∈ t.rows.map BalanceRow.id →
    ∃ t', R.update row.id (missingPatch row now) t = .ok t'

/-- Every row is still there, under its id and its key. -/
def Stays (t t' : RowTable) : Prop :=
  ∀ b ∈ t.rows, ∃ b' ∈ t'.rows, b'.id = b.id ∧ b'.key = b.key

theorem Stays.refl (t : RowTable) : Stays t t := fun b hb => ⟨b, hb, rfl, rfl⟩

theorem Stays.trans {t t' t'' : RowTable} (h : Stays t t') (h' : Stays t' t'') : Stays t t'' := by
  intro b hb
  obtain ⟨b', hb', hid, hkey⟩ := h b hb
  obtain ⟨b'', hb'', hid', hkey'⟩ := h' b' hb'
  exact ⟨b'', hb'', hid'.trans hid, hkey'.trans hkey⟩

theorem stays_modify {t : RowTable} {id : Id} {f : BalanceRow → BalanceRow}
    (hid : ∀ b, (f b).id = b.id) (hkey : ∀ b, (f b).key = b.key) :
    Stays t (t.modify id f hid hkey) := by
  intro b hb
  refine ⟨_, Table.mem_modify.mpr ⟨b, hb, rfl⟩, ?_, ?_⟩
  · by_cases h : b.id = id <;> simp [h, hid]
  · by_cases h : b.id = id <;> simp [h, hkey]

theorem turn_stays (hR : R.Lawful) (e : Element) (t : RowTable) : Stays t (turn R now e t).2 := by
  have hcase := turn_cases R now e t
  generalize turn R now e t = x at hcase ⊢
  cases hcase with
  | failed err => exact .refl t
  | saved h => exact fun b hb => ⟨b, hR.save_keeps _ _ _ h b hb, rfl, rfl⟩
  | updated changed h =>
      obtain ⟨f, hid, hkey, rfl⟩ := hR.update_row _ _ _ _ h
      exact stays_modify hid hkey

theorem reconciled_stays (hR : R.Lawful) (payload : List Element) (t : RowTable) :
    Stays t (reconciled R now payload t) := by
  induction payload generalizing t with
  | nil => exact .refl t
  | cons e rest ih => exact (turn_stays hR e t).trans (ih _)

/-! ## The omitted rows -/

/-- The rows whose text is not in the key set. -/
def leftOut (hcmKeySet : List String) (rows : List BalanceRow) : List BalanceRow :=
  rows.filter fun row => row.keyText ∉ hcmKeySet

/-- The entry about a row that is left out. -/
def missingEntry (k : String × String × String) : ErrorEntry :=
  ⟨some (some (.str k.1), some (.str k.2.1), some (.str k.2.2)), missingMessage⟩

theorem missingEntry_injective : Function.Injective missingEntry := by
  intro k k' h
  simp only [missingEntry, ErrorEntry.mk.injEq, Option.some.injEq, Prod.mk.injEq,
    Json.str.injEq, and_true] at h
  exact Prod.ext h.1 (Prod.ext h.2.1 h.2.2)

/-- The counters after a row that is left out. -/
def Totals.countMissing (totals : Totals) (k : String × String × String) : Totals :=
  { totals with
    recordsProcessed := totals.recordsProcessed + 1
    recordsFailed := totals.recordsFailed + 1
    errors := totals.errors ++ [missingEntry k] }

/-- One row that is left out: it is counted and flagged, and the pass goes on. -/
theorem flagMissing_out (hR : R.Lawful) (now : ℤ) {hcmKeySet : List String} {row : BalanceRow}
    (rest : List BalanceRow) (totals : Totals) {t : RowTable} (hout : row.keyText ∉ hcmKeySet)
    (hrow : row.id ∈ t.rows.map BalanceRow.id) :
    ∃ (f : BalanceRow → BalanceRow) (hid : ∀ b, (f b).id = b.id) (hkey : ∀ b, (f b).key = b.key),
      (flagMissing R now hcmKeySet totals (row :: rest)).run.run t
        = (flagMissing R now hcmKeySet (totals.countMissing row.key) rest).run.run
          (t.modify row.id f hid hkey) := by
  obtain ⟨t₁, hflag⟩ := hR.flag_accepted row now t hrow
  obtain ⟨f, hid, hkey, rfl⟩ := hR.update_row _ _ _ _ hflag
  refine ⟨f, hid, hkey, ?_⟩
  rw [flagMissing, if_neg hout, run_bind]
  show (orFault _ (R.update row.id (missingPatch row now) t) >>= _ : Pass _).run.run t = _
  rw [run_bind, hflag]
  rfl

/-- A row of another id keeps its place under its key. -/
theorem byUk_modify_of_ne {t : RowTable} {b : BalanceRow} {id : Id} (hb : b ∈ t.rows)
    (hbid : b.id = id) {f : BalanceRow → BalanceRow} {hid : ∀ b, (f b).id = b.id}
    {hkey : ∀ b, (f b).key = b.key} {k : String × String × String} (hk : b.key ≠ k) :
    (t.modify id f hid hkey).byUk k = t.byUk k := by
  rw [Table.byUk_modify]
  cases hrow : t.byUk k with
  | none => rfl
  | some c =>
      rw [Option.map_some, if_neg]
      intro hcid
      obtain ⟨hc, hck⟩ := Table.byUk_eq_some.mp hrow
      obtain rfl := Table.eq_of_pk hc hb (hcid.trans hbid.symm)
      exact hk hck

/-- The third pass goes through: it counts the rows that are left out, with an entry
for each, and leaves the rows of the other keys as they are. -/
theorem flagMissing_run (hR : R.Lawful) (now : ℤ) (hcmKeySet : List String) (rows : List BalanceRow)
    (totals : Totals) {t : RowTable} (hrows : ∀ row ∈ rows, ∃ b ∈ t.rows, b.id = row.id
      ∧ b.key = row.key) :
    ∃ totals' t', (flagMissing R now hcmKeySet totals rows).run.run t = (.ok totals', t')
      ∧ totals'.recordsProcessed = totals.recordsProcessed + (leftOut hcmKeySet rows).length
      ∧ totals'.recordsFailed = totals.recordsFailed + (leftOut hcmKeySet rows).length
      ∧ totals'.errors = totals.errors
        ++ (leftOut hcmKeySet rows).map (fun row => missingEntry row.key)
      ∧ Stays t t'
      ∧ ∀ k, joinKey k ∈ hcmKeySet → t'.byUk k = t.byUk k := by
  induction rows generalizing totals t with
  | nil => exact ⟨totals, t, rfl, rfl, rfl, (List.append_nil _).symm, .refl t, fun _ _ => rfl⟩
  | cons row rest ih =>
      have hrest : ∀ row' ∈ rest, ∃ b ∈ t.rows, b.id = row'.id ∧ b.key = row'.key :=
        fun row' hrow' => hrows row' (List.mem_cons_of_mem _ hrow')
      by_cases hmem : row.keyText ∈ hcmKeySet
      · have hkept : leftOut hcmKeySet (row :: rest) = leftOut hcmKeySet rest := by
          simp [leftOut, hmem]
        rw [flagMissing, if_pos hmem, hkept]
        exact ih totals hrest
      · have hout : leftOut hcmKeySet (row :: rest) = row :: leftOut hcmKeySet rest := by
          simp [leftOut, hmem]
        obtain ⟨b, hb, hbid, hbkey⟩ := hrows row List.mem_cons_self
        have hthereid : row.id ∈ t.rows.map BalanceRow.id := List.mem_map.mpr ⟨b, hb, hbid⟩
        obtain ⟨f, hid, hkey, hstep⟩ := flagMissing_out hR now rest totals hmem hthereid
        have hstays : Stays t (t.modify row.id f hid hkey) := stays_modify hid hkey
        have hthere : ∀ row' ∈ rest, ∃ b ∈ (t.modify row.id f hid hkey).rows,
            b.id = row'.id ∧ b.key = row'.key := by
          intro row' hrow'
          obtain ⟨c, hc, hcid, hckey⟩ := hrest row' hrow'
          obtain ⟨c', hc', hid', hkey'⟩ := hstays c hc
          exact ⟨c', hc', hid'.trans hcid, hkey'.trans hckey⟩
        obtain ⟨totals', t', hrun, hprocessed, hfailed, herrors, hstays', hother⟩ := ih _ hthere
        refine ⟨totals', t', hstep.trans hrun, ?_, ?_, ?_, hstays.trans hstays', ?_⟩
        · rw [hprocessed, hout, List.length_cons]
          show totals.recordsProcessed + 1 + _ = _
          omega
        · rw [hfailed, hout, List.length_cons]
          show totals.recordsFailed + 1 + _ = _
          omega
        · rw [herrors, hout, List.map_cons, Totals.countMissing]
          simp
        · intro k hk
          have hne : b.key ≠ k := by
            intro h
            rw [BalanceRow.keyText_eq, ← hbkey, h] at hmem
            exact hmem hk
          rw [hother k hk]
          exact byUk_modify_of_ne hb hbid hne

end LeaveLedger.Payload
