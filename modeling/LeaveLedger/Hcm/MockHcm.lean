import LeaveLedger.Hcm.HcmSyncService

/-!
# Hcm — The mock HCM

`mock-hcm/src/server`: the records of the upstream system and what its
endpoints do to them. A record is found by its triple. An approval takes
its days off both columns, a refresh adds to both, so that a record holds
the days that remain, not the entitlement.
-/

namespace LeaveLedger

/-- A value of `hcmBalances`. -/
structure MockRecord where
  employeeId : String
  locationId : String
  leaveType : LeaveType
  totalBalance : ℚ
  availableBalance : ℚ
  version : String
  deriving DecidableEq

def MockRecord.key (r : MockRecord) : BalanceKey := (r.employeeId, r.locationId, r.leaveType)

/-- Both columns change by `days`, and the version with them. -/
def MockRecord.credit (r : MockRecord) (days : ℚ) (now : ℤ) : MockRecord :=
  { r with
    totalBalance := r.totalBalance + days
    availableBalance := r.availableBalance + days
    version := "v" ++ toString now }

namespace MockHcm

/-- `ensureBalanceRecord`. -/
def ensureBalanceRecord (key : BalanceKey) (records : List MockRecord) : List MockRecord :=
  if records.any (fun r => r.key = key) then records
  else records ++ [⟨key.1, key.2.1, key.2.2, 0, 0, "v1"⟩]

/-- `PUT /hcm/balance`: whether it is a success, and the records after it. -/
def putBalance (m : BalanceMutation) (now : ℤ) (records : List MockRecord) :
    Bool × List MockRecord :=
  let key := (m.employeeId, m.locationId, m.leaveType)
  let records := ensureBalanceRecord key records
  let credited (days : ℚ) := records.map fun r => if r.key = key then r.credit days now else r
  match m.action with
  | .approve =>
      if records.any (fun r => r.key = key && r.availableBalance < m.daysRequested) then
        (false, records)
      else (true, credited (-m.daysRequested))
  | .reject => (true, credited m.daysRequested)

/-- The filters of a refresh, each left out or empty when it is not to apply. -/
structure RefreshFilter where
  employeeId : Option String := none
  locationId : Option String := none
  leaveType : Option LeaveType := none

def passes (filter : Option String) (value : String) : Bool :=
  match filter with
  | none => true
  | some f => f = "" || f = value

def RefreshFilter.admits (f : RefreshFilter) (key : BalanceKey) : Bool :=
  passes f.employeeId key.1 && passes f.locationId key.2.1
    && (match f.leaveType with
        | none => true
        | some t => t = key.2.2)

/-- `POST /admin/anniversary-refresh`, none for a grant that is not positive. -/
def anniversaryRefresh (filter : RefreshFilter) (grantDays : ℚ) (now : ℤ)
    (records : List MockRecord) : Option (List MockRecord) :=
  if grantDays ≤ 0 then none
  else some (records.map fun r => if filter.admits r.key then r.credit grantDays now else r)

/-- A record as the batch sync reads it. -/
def toHcmRecord (r : MockRecord) : HcmRecord where
  employeeId := r.employeeId
  locationId := r.locationId
  leaveType := r.leaveType
  totalBalance := r.totalBalance
  version := some r.version

/-- `GET /hcm/batch-sync`: all the records. -/
def batchSync (records : List MockRecord) : List HcmRecord := records.map toHcmRecord

/-! ## The record of a key -/

/-- The records have one of the key, and this is it. -/
def Holds (records : List MockRecord) (key : BalanceKey) (r : MockRecord) : Prop :=
  records.filter (fun r => r.key = key) = [r]

theorem Holds.key {records : List MockRecord} {key : BalanceKey} {r : MockRecord}
    (h : Holds records key r) : r.key = key := by
  have hmem : r ∈ records.filter (fun r => r.key = key) := by
    rw [h]
    exact List.mem_singleton.mpr rfl
  exact of_decide_eq_true (List.mem_filter.mp hmem).2

/-- Changing records without changing their triples changes the one of the key. -/
theorem Holds.map {records : List MockRecord} {key : BalanceKey} {r : MockRecord}
    (h : Holds records key r) {f : MockRecord → MockRecord} (hf : ∀ r, (f r).key = r.key) :
    Holds (records.map f) key (f r) := by
  have hkey : (fun r : MockRecord => decide (r.key = key)) ∘ f = fun r => decide (r.key = key) := by
    funext r
    simp [hf]
  unfold Holds at h ⊢
  rw [List.filter_map, hkey, h]
  rfl

theorem Holds.ensure {records : List MockRecord} {key : BalanceKey} {r : MockRecord}
    (h : Holds records key r) (key' : BalanceKey) :
    Holds (ensureBalanceRecord key' records) key r := by
  unfold ensureBalanceRecord
  split
  · exact h
  · rename_i hnone
    -- the record of the key is there, so the one that is added is another's
    have hne : key' ≠ key := by
      intro heq
      refine hnone (List.any_eq_true.mpr ⟨r, ?_, ?_⟩)
      · have hmem : r ∈ records.filter (fun r => r.key = key) := by
          rw [h]
          exact List.mem_singleton.mpr rfl
        exact (List.mem_filter.mp hmem).1
      · rw [heq]
        exact decide_eq_true h.key
    unfold Holds at h ⊢
    rw [List.filter_append, h, List.filter_singleton]
    simp [MockRecord.key, hne]

theorem ite_credit_key (p : Prop) [Decidable p] (r : MockRecord) (days : ℚ) (now : ℤ) :
    (if p then r.credit days now else r).key = r.key := by
  split <;> rfl

/-- A mutation changes both columns of the record it is about, or no record. -/
theorem Holds.putBalance {records : List MockRecord} {key : BalanceKey} {r : MockRecord}
    (h : Holds records key r) (m : BalanceMutation) (now : ℤ) :
    ∃ r', Holds (putBalance m now records).2 key r' ∧ (r' = r
      ∨ (m.employeeId, m.locationId, m.leaveType) = key ∧ ∃ days, r' = r.credit days now) := by
  have hens := h.ensure (m.employeeId, m.locationId, m.leaveType)
  have hcredited : ∀ days : ℚ, ∃ r', Holds ((ensureBalanceRecord
        (m.employeeId, m.locationId, m.leaveType) records).map fun r =>
          if r.key = (m.employeeId, m.locationId, m.leaveType) then r.credit days now else r)
        key r' ∧ (r' = r
      ∨ (m.employeeId, m.locationId, m.leaveType) = key ∧ ∃ days, r' = r.credit days now) := by
    intro days
    refine ⟨_, hens.map fun r => ite_credit_key _ r days now, ?_⟩
    rw [h.key]
    split
    · rename_i heq
      exact Or.inr ⟨heq.symm, days, rfl⟩
    · exact Or.inl rfl
  unfold MockHcm.putBalance
  cases m.action with
  | approve =>
      simp only
      split
      · exact ⟨r, hens, Or.inl rfl⟩
      · exact hcredited _
  | reject => exact hcredited _

theorem Holds.refresh {records records' : List MockRecord} {key : BalanceKey} {r : MockRecord}
    (h : Holds records key r) {filter : RefreshFilter} {grantDays : ℚ} {now : ℤ}
    (hgrant : anniversaryRefresh filter grantDays now records = some records') :
    0 < grantDays
      ∧ Holds records' key (if filter.admits key then r.credit grantDays now else r) := by
  unfold anniversaryRefresh at hgrant
  split at hgrant
  · cases hgrant
  · rename_i hpos
    cases hgrant
    refine ⟨not_le.mp hpos, ?_⟩
    have hmapped := h.map (f := fun r => if filter.admits r.key then r.credit grantDays now else r)
      fun r => ite_credit_key _ r grantDays now
    rw [h.key] at hmapped
    exact hmapped

/-- The payload of a batch sync has one record of the key. -/
theorem Holds.batchSync {records : List MockRecord} {key : BalanceKey} {r : MockRecord}
    (h : Holds records key r) :
    (batchSync records).filter (fun r => r.key = key) = [toHcmRecord r] := by
  have hkey : (fun r : HcmRecord => decide (r.key = key)) ∘ toHcmRecord
      = fun r : MockRecord => decide (r.key = key) := rfl
  unfold Holds at h
  rw [MockHcm.batchSync, List.filter_map, hkey, h]
  rfl

end MockHcm

end LeaveLedger
