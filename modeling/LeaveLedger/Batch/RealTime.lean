import LeaveLedger.Batch.Sequential

/-!
# Batch — Real-time and batch reconciliation

`applyHcmRealTimeUpdate` and `_reconcileRecord` hold a row against an HCM
total by one rule: a total that is higher is taken over, a lower one is
flagged, and a drift within a tolerance is noise (`Drift.judge`). Each has
a tolerance of its own, so between the two tolerances they part.
-/

namespace LeaveLedger

open Js Lib

/-! ## The rule -/

/-- What a drift of the HCM total is taken for. -/
inductive Drift where
  | noise | raise | flag
  deriving DecidableEq

def Drift.judge (tolerance drift : ℚ) : Drift :=
  if tolerance < drift then .raise else if drift < -tolerance then .flag else .noise

namespace Drift

variable {t t' d : ℚ}

theorem judge_of_abs_le (h : |d| ≤ t) : judge t d = .noise := by
  obtain ⟨hlow, hhigh⟩ := abs_le.mp h
  simp only [judge, not_lt.mpr hhigh, if_false, not_lt.mpr hlow]

theorem judge_of_lt (h : t < d) : judge t d = .raise := by
  simp only [judge, h, if_true]

theorem judge_of_lt_neg (ht : 0 ≤ t) (h : d < -t) : judge t d = .flag := by
  have hle : ¬ t < d := by linarith
  simp only [judge, hle, if_false, h, if_true]

/-- Two tolerances judge alike exactly the drifts that both hold for noise or both
for none. -/
theorem judge_eq_iff (ht : 0 ≤ t) (hle : t ≤ t') :
    judge t d = judge t' d ↔ |d| ≤ t ∨ t' < |d| := by
  by_cases hnoise : |d| ≤ t
  · simp [judge_of_abs_le hnoise, judge_of_abs_le (hnoise.trans hle), hnoise]
  have hout : t < |d| := not_le.mp hnoise
  rcases le_total 0 d with hpos | hneg
  · rw [abs_of_nonneg hpos] at hout ⊢
    rw [judge_of_lt hout]
    by_cases hbig : t' < d
    · simp [judge_of_lt hbig, hbig]
    · have hin : |d| ≤ t' := by rw [abs_of_nonneg hpos]; exact not_lt.mp hbig
      simp [judge_of_abs_le hin, hbig, not_le.mpr hout]
  · rw [abs_of_nonpos hneg] at hout ⊢
    rw [judge_of_lt_neg ht (by linarith)]
    by_cases hbig : t' < -d
    · simp [judge_of_lt_neg (ht.trans hle) (show d < -t' by linarith), hbig]
    · have hin : |d| ≤ t' := by rw [abs_of_nonpos hneg]; exact not_lt.mp hbig
      simp [judge_of_abs_le hin, hbig, not_le.mpr hout]

end Drift

/-! ## The columns of a row -/

/-- The columns of a reconciliation that are not about the sync itself. -/
structure Reconciliation where
  totalBalance : ℚ
  availableBalance : ℚ
  pendingBalance : ℚ
  usedBalance : ℚ
  hasDiscrepancy : Bool
  discrepancyAmount : Option ℚ
  deriving DecidableEq

def EmployeeBalance.reconciliation (b : EmployeeBalance) : Reconciliation :=
  ⟨b.totalBalance, b.availableBalance, b.pendingBalance, b.usedBalance, b.hasDiscrepancy,
    b.discrepancyAmount⟩

/-- The columns a judgement of the drift against `hcmTotal` gives the row. -/
def EmployeeBalance.judged (b : EmployeeBalance) (hcmTotal : ℚ) : Drift → Reconciliation
  | .noise => ⟨b.totalBalance, b.availableBalance, b.pendingBalance, b.usedBalance, false, none⟩
  | .raise => ⟨hcmTotal, b.availableBalance + (hcmTotal - b.localTotal), b.pendingBalance,
      b.usedBalance, false, none⟩
  | .flag => ⟨b.totalBalance, b.availableBalance, b.pendingBalance, b.usedBalance, true,
      some |hcmTotal - b.localTotal|⟩

/-- Judgements of a drift that is there leave different columns. -/
theorem EmployeeBalance.judged_inj {b : EmployeeBalance} {hcmTotal : ℚ} {v v' : Drift}
    (hdrift : hcmTotal ≠ b.localTotal) (h : b.judged hcmTotal v = b.judged hcmTotal v') :
    v = v' := by
  have hzero : hcmTotal - b.localTotal ≠ 0 := sub_ne_zero.mpr hdrift
  cases v <;> cases v' <;> simp [judged, hzero] at h ⊢

theorem hcmUpdated_reconciliation (hcmData : HcmData) (now t : ℤ) (b : EmployeeBalance) :
    ((hcmUpdated hcmData now b).saveOver t b).reconciliation
      = b.judged hcmData.totalBalance
          (Drift.judge 0.001 (hcmData.totalBalance - b.localTotal)) := by
  have hlocal : b.usedBalance + b.pendingBalance + b.availableBalance = b.localTotal := rfl
  simp only [hcmUpdated, hlocal, Drift.judge]
  by_cases hraise : 0.001 < hcmData.totalBalance - b.localTotal
  · have hflag : ¬ hcmData.totalBalance - b.localTotal < -0.001 := by linarith
    simp [EmployeeBalance.reconciliation, EmployeeBalance.saveOver, EmployeeBalance.judged,
      hraise, hflag]
  · by_cases hflag : hcmData.totalBalance - b.localTotal < -0.001
    · simp [EmployeeBalance.reconciliation, EmployeeBalance.saveOver, EmployeeBalance.judged,
        hraise, hflag]
    · simp [EmployeeBalance.reconciliation, EmployeeBalance.saveOver, EmployeeBalance.judged,
        hraise, hflag]

theorem reconcilePatch_reconciliation (r : HcmRecord) (now t : ℤ) (b : EmployeeBalance) :
    ((reconcilePatch r b now).apply t b).reconciliation
      = b.judged r.totalBalance (Drift.judge 0.01 (r.totalBalance - b.localTotal)) := by
  unfold reconcilePatch
  by_cases hnoise : |r.totalBalance - b.localTotal| ≤ 0.01
  · rw [Drift.judge_of_abs_le hnoise]
    simp only [hnoise, if_true]
    rfl
  · by_cases hraise : 0.01 < r.totalBalance - b.localTotal
    · rw [Drift.judge_of_lt hraise]
      simp only [hnoise, if_false, hraise, if_true]
      rfl
    · have hflag : r.totalBalance - b.localTotal < -0.01 := by
        by_contra hge
        exact hnoise (abs_le.mpr ⟨not_lt.mp hge, not_lt.mp hraise⟩)
      rw [Drift.judge_of_lt_neg (by norm_num) hflag]
      simp only [hnoise, if_false, hraise]
      rfl

/-! ## The two calls -/

/-- `applyHcmRealTimeUpdate` on a row that is there. -/
theorem applyHcmRealTimeUpdate_row {w : World} {b : EmployeeBalance} (hcmData : HcmData)
    (hb : b ∈ w.db.balances.rows) :
    ∃ x w', (applyHcmRealTimeUpdate b.employeeId b.locationId b.leaveType hcmData).Returns
        execTx w x w'
      ∧ w'.db.balances.byUk b.key = some ((hcmUpdated hcmData w.clock b).saveOver w.clock b) := by
  have hrow : w.db.balances.byUk (b.employeeId, b.locationId, b.leaveType) = some b :=
    Table.byUk_eq_some.mpr ⟨hb, rfl⟩
  have hid : w.db.balances.byPk b.id = some b := Table.byPk_eq_some.mpr ⟨hb, rfl⟩
  have hreplaced : w.db.balances.Replaced
      (w.db.saveBalance (hcmUpdated hcmData w.clock b) w.clock).balances b
      ((hcmUpdated hcmData w.clock b).saveOver w.clock b) := by
    simp only [Database.saveBalance]
    exact Table.replaced_modify (f := (hcmUpdated hcmData w.clock b).saveOver w.clock) hb
  have hfind : (Tx.stmt (.findBalance b.employeeId b.locationId b.leaveType)).Returns execTx w
      (some b) { w with uuid := w.uuid + 1 } := by
    rw [Tx.stmt_returns]
    exact ⟨w.db, by rw [Stmt.exec, hrow], rfl⟩
  have hsave : (Tx.stmt (.saveBalance (hcmUpdated hcmData w.clock b))).Returns execTx
      { w with uuid := w.uuid + 1 } ((hcmUpdated hcmData w.clock b).saveOver w.clock b)
      { w with
        db := w.db.saveBalance (hcmUpdated hcmData w.clock b) w.clock
        uuid := w.uuid + 1 + 1 } := by
    rw [Tx.stmt_returns]
    have hsaved : w.db.balances.byPk (hcmUpdated hcmData w.clock b).id = some b := hid
    refine ⟨_, ?_, rfl⟩
    rw [Stmt.exec, hsaved]
    rfl
  refine ⟨some ((hcmUpdated hcmData w.clock b).saveOver w.clock b), { w with
    db := w.db.saveBalance (hcmUpdated hcmData w.clock b) w.clock
    uuid := w.uuid + 1 + 1 }, ?_, Table.byUk_eq_some.mpr ⟨hreplaced.mem_new, rfl⟩⟩
  refine Script.returns_bind.mpr ⟨_, _, hfind, ?_⟩
  refine Script.returns_bind.mpr ⟨_, _, Tx.now_returns.mpr ⟨rfl, rfl⟩, ?_⟩
  exact Script.returns_bind.mpr ⟨_, _, hsave, Script.returns_done.mpr ⟨rfl, rfl⟩⟩

/-- `_reconcileRecord` on a row that is there. -/
theorem reconcileRecord_row {w : World} {r : HcmRecord} {b : EmployeeBalance}
    (hrow : w.db.balances.byUk r.key = some b) :
    ∃ changed w', (reconcileRecord r).Returns (execSvc {}) w changed w'
      ∧ w'.db.balances.byUk r.key = some ((reconcilePatch r b w.clock).apply w.clock b) := by
  refine ⟨decide (0.01 < |r.totalBalance - b.localTotal|), (reconciled r w).2, ?_,
    (reconciled_cases r w).row_of_some hrow⟩
  unfold Script.Returns
  rw [reconcileRecord_run, reconciled, hrow]

/-- **Real time and batch** leave a row alike exactly when the drift is within the
smaller tolerance or beyond the larger. -/
theorem reconciliations_agree_iff (w : World) (b : EmployeeBalance) (hb : b ∈ w.db.balances.rows)
    (hcmTotal : ℚ) (version version' : Option String) :
    ∃ x w₁ changed w₂ b₁ b₂,
      (applyHcmRealTimeUpdate b.employeeId b.locationId b.leaveType ⟨hcmTotal, version⟩).Returns
        execTx w x w₁
      ∧ (reconcileRecord ⟨b.employeeId, b.locationId, b.leaveType, hcmTotal, version'⟩).Returns
        (execSvc {}) w changed w₂
      ∧ w₁.db.balances.byUk b.key = some b₁ ∧ w₂.db.balances.byUk b.key = some b₂
      ∧ (b₁.reconciliation = b₂.reconciliation
        ↔ |hcmTotal - b.localTotal| ≤ 0.001 ∨ 0.01 < |hcmTotal - b.localTotal|) := by
  obtain ⟨x, w₁, hreal, h₁⟩ := applyHcmRealTimeUpdate_row ⟨hcmTotal, version⟩ hb
  obtain ⟨changed, w₂, hbatch, h₂⟩ := reconcileRecord_row
    (r := ⟨b.employeeId, b.locationId, b.leaveType, hcmTotal, version'⟩)
    (Table.byUk_eq_some.mpr ⟨hb, rfl⟩)
  refine ⟨x, w₁, changed, w₂, _, _, hreal, hbatch, h₁, h₂, ?_⟩
  rw [hcmUpdated_reconciliation, reconcilePatch_reconciliation,
    ← Drift.judge_eq_iff (by norm_num) (by norm_num)]
  show b.judged hcmTotal _ = b.judged hcmTotal _ ↔ _
  constructor
  · intro h
    by_cases hdrift : hcmTotal = b.localTotal
    · simp [hdrift, Drift.judge]
      norm_num
    · exact EmployeeBalance.judged_inj hdrift h
  · intro h
    rw [h]

/-- Two days more than the row has: both take them over. -/
theorem reconciliations_agree_iff_raised :
    ∃ b ∈ oneRowWorld.db.balances.rows, ∃ x w₁ changed w₂ b₁ b₂,
      (applyHcmRealTimeUpdate b.employeeId b.locationId b.leaveType ⟨12, none⟩).Returns
        execTx oneRowWorld x w₁
      ∧ (reconcileRecord ⟨b.employeeId, b.locationId, b.leaveType, 12, none⟩).Returns
        (execSvc {}) oneRowWorld changed w₂
      ∧ w₁.db.balances.byUk b.key = some b₁ ∧ w₂.db.balances.byUk b.key = some b₂
      ∧ 0.01 < |12 - b.localTotal| ∧ b₁.reconciliation = b₂.reconciliation := by
  let b : EmployeeBalance :=
    NewBalance.toRow ⟨"E1", "L1", .vacation, 10, 5, 2, 3, 10, none, none⟩ 0 0
  have hb : b ∈ oneRowWorld.db.balances.rows := List.mem_singleton.mpr rfl
  have hdrift : 0.01 < |12 - b.localTotal| := by decide +kernel
  obtain ⟨x, w₁, changed, w₂, b₁, b₂, hreal, hbatch, h₁, h₂, hiff⟩ :=
    reconciliations_agree_iff oneRowWorld b hb 12 none none
  exact ⟨b, hb, x, w₁, changed, w₂, b₁, b₂, hreal, hbatch, h₁, h₂, hdrift,
    hiff.mpr (.inr hdrift)⟩

/-- A total that is half a hundredth higher than the row: in real time it is taken
over, in the batch it is noise. -/
theorem reconciliations_disagree :
    ∃ b ∈ oneRowWorld.db.balances.rows, ∃ x w₁ changed w₂ b₁ b₂,
      (applyHcmRealTimeUpdate b.employeeId b.locationId b.leaveType ⟨10.005, none⟩).Returns
        execTx oneRowWorld x w₁
      ∧ (reconcileRecord ⟨b.employeeId, b.locationId, b.leaveType, 10.005, none⟩).Returns
        (execSvc {}) oneRowWorld changed w₂
      ∧ w₁.db.balances.byUk b.key = some b₁ ∧ w₂.db.balances.byUk b.key = some b₂
      ∧ b₁.availableBalance = 5.005 ∧ b₂.availableBalance = 5 := by
  let b : EmployeeBalance :=
    NewBalance.toRow ⟨"E1", "L1", .vacation, 10, 5, 2, 3, 10, none, none⟩ 0 0
  have hb : b ∈ oneRowWorld.db.balances.rows := List.mem_singleton.mpr rfl
  obtain ⟨x, w₁, hreal, h₁⟩ := applyHcmRealTimeUpdate_row ⟨10.005, none⟩ hb
  obtain ⟨changed, w₂, hbatch, h₂⟩ := reconcileRecord_row
    (r := ⟨"E1", "L1", .vacation, 10.005, none⟩) (Table.byUk_eq_some.mpr ⟨hb, rfl⟩)
  refine ⟨b, hb, x, w₁, changed, w₂, _, _, hreal, hbatch, h₁, h₂, ?_, ?_⟩
  · decide +kernel
  · decide +kernel

end LeaveLedger
