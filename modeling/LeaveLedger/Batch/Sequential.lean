import LeaveLedger.Batch.RecordLoop

/-!
# Batch — Sequential reconciliation

The record loop over a payload with nothing in between, in which keys may
repeat and rows may be new. What one record does to the row of its key
(`reconcilePatch_aligns`, `reconcilePatch_reached`) gives what the loop
does: rows only gain available days, a row with one record ends aligned
with it, and a second pass finds every total already reached.
-/

namespace LeaveLedger

open Js Lib

/-! ## A row and a record -/

/-- The row has at least the total of the record, up to the tolerance. -/
def Reached (r : HcmRecord) (b : EmployeeBalance) : Prop :=
  r.totalBalance - b.localTotal ≤ 0.01

/-- The row agrees with the record up to the tolerance, or is flagged with what it
has too much. -/
def Aligned (r : HcmRecord) (b : EmployeeBalance) : Prop :=
  |b.availableBalance + b.pendingBalance + b.usedBalance - r.totalBalance| ≤ 0.01
      ∧ b.hasDiscrepancy = false
  ∨ (∃ d, b.discrepancyAmount = some d ∧ 0.01 < d
      ∧ b.availableBalance + b.pendingBalance + b.usedBalance - r.totalBalance = d)
    ∧ b.hasDiscrepancy = true

theorem EmployeeBalance.localTotal_eq (b : EmployeeBalance) :
    b.localTotal = b.availableBalance + b.pendingBalance + b.usedBalance := by
  unfold localTotal
  ring

theorem EmployeeBalance.Grew.localTotal_le {b b' : EmployeeBalance} (h : b.Grew b') :
    b.localTotal ≤ b'.localTotal := by
  have := h.available
  rw [b.localTotal_eq, b'.localTotal_eq, h.pending, h.used]
  linarith

theorem Reached.of_grew {r : HcmRecord} {b b' : EmployeeBalance} (h : Reached r b)
    (hgrew : b.Grew b') : Reached r b' := by
  have := hgrew.localTotal_le
  unfold Reached at h ⊢
  linarith

theorem Aligned.reached {r : HcmRecord} {b : EmployeeBalance} (h : Aligned r b) :
    Reached r b := by
  unfold Reached
  rw [b.localTotal_eq]
  rcases h with ⟨hsmall, -⟩ | ⟨⟨d, -, hpos, heq⟩, -⟩
  · rw [abs_le] at hsmall
    linarith [hsmall.1]
  · linarith

/-- The row that a record has been applied to is aligned with it. -/
theorem reconcilePatch_aligns (r : HcmRecord) (b : EmployeeBalance) (now t : ℤ) :
    Aligned r ((reconcilePatch r b now).apply t b) := by
  unfold reconcilePatch
  have htotal := b.localTotal_eq
  by_cases hsmall : |r.totalBalance - b.localTotal| ≤ 0.01
  · simp only [hsmall, if_true]
    refine Or.inl ⟨?_, rfl⟩
    show |b.availableBalance + b.pendingBalance + b.usedBalance - r.totalBalance| ≤ 0.01
    rw [← htotal, abs_sub_comm]
    exact hsmall
  · by_cases hbig : 0.01 < r.totalBalance - b.localTotal
    · simp only [hsmall, if_false, hbig, if_true]
      refine Or.inl ⟨?_, rfl⟩
      show |b.availableBalance + (r.totalBalance - b.localTotal) + b.pendingBalance
        + b.usedBalance - r.totalBalance| ≤ 0.01
      have hzero : b.availableBalance + (r.totalBalance - b.localTotal) + b.pendingBalance
          + b.usedBalance - r.totalBalance = 0 := by linarith
      rw [hzero, abs_zero]
      norm_num
    · simp only [hsmall, if_false, hbig]
      refine Or.inr ⟨⟨|r.totalBalance - b.localTotal|, rfl, not_le.mp hsmall, ?_⟩, rfl⟩
      show b.availableBalance + b.pendingBalance + b.usedBalance - r.totalBalance
        = |r.totalBalance - b.localTotal|
      -- a drift outside the band and not above it is below it
      have hneg : r.totalBalance - b.localTotal ≤ 0 := by
        by_contra hpos
        rw [abs_of_pos (not_le.mp hpos)] at hsmall
        exact hsmall (not_lt.mp hbig)
      rw [abs_of_nonpos hneg]
      linarith

/-- A new row is aligned with its record. -/
theorem newBalance_aligns (r : HcmRecord) (id : Id) (now : ℤ) :
    Aligned r ((r.newBalance now).toRow id now) := by
  refine Or.inl ⟨?_, rfl⟩
  show |r.totalBalance + 0 + 0 - r.totalBalance| ≤ 0.01
  rw [add_zero, add_zero, sub_self, abs_zero]
  norm_num

/-- A record whose total the row has reached leaves its account alone. -/
theorem Reached.account_eq {r : HcmRecord} {b : EmployeeBalance} (h : Reached r b) (now t : ℤ) :
    ((reconcilePatch r b now).apply t b).account = b.account := by
  rw [reconcilePatch_account, if_neg (not_lt.mpr h)]

/-! ## The loop -/

/-- The next id is new. -/
def World.FreshIds (w : World) : Prop := ∀ b ∈ w.db.balances.rows, b.id < w.uuid

/-- A record aligns the row of its key, which it opens when there is none. -/
theorem ReconcileCase.aligns {r : HcmRecord} {w : World} {x : Except Exception Bool × World}
    (h : ReconcileCase r w x) (hfresh : w.FreshIds) :
    ∃ b, x.2.db.balances.byUk r.key = some b ∧ Aligned r b := by
  have hcase := h
  cases h with
  | updated hrow =>
      exact ⟨_, hcase.row_of_some hrow, reconcilePatch_aligns r _ w.clock w.clock⟩
  | opened hmissing hadded => exact ⟨_, hadded.byUk_self, newBalance_aligns r _ w.clock⟩
  | refused hmissing hused =>
      obtain ⟨b, hb, hid⟩ := hused
      have hlt := hfresh b hb
      rw [hid] at hlt
      exact absurd hlt Nat.not_succ_lt_self

theorem ReconcileCase.fresh {r : HcmRecord} {w : World} {x : Except Exception Bool × World}
    (h : ReconcileCase r w x) (hfresh : w.FreshIds) : x.2.FreshIds := by
  intro b hb
  cases h with
  | updated hrow =>
      obtain ⟨c, hc, hid⟩ := mem_updateBalance.mp hb
      have hlt := hfresh c hc
      have hsame : b.id = c.id := by
        rw [hid]
        split <;> rfl
      rw [hsame]
      exact Nat.lt_succ_of_lt (Nat.lt_succ_of_lt hlt)
  | opened hmissing hadded =>
      rcases hadded.mem_iff.mp hb with hmem | rfl
      · exact Nat.lt_succ_of_lt (Nat.lt_succ_of_lt (hfresh b hmem))
      · exact Nat.lt_succ_self _
  | refused hmissing hused => exact Nat.lt_succ_of_lt (hfresh b hb)

theorem foldl_processed_fresh (payload : List HcmRecord) {s : BatchTotals × World}
    (hfresh : s.2.FreshIds) : (payload.foldl processed s).2.FreshIds :=
  foldl_processed_keeps (I := fun s => s.2.FreshIds) (fun _ _ _ h hcase => hcase.fresh h) payload
    hfresh

/-- A row for which the payload has no record stays as it is. -/
theorem foldl_processed_other (payload : List HcmRecord) {k : BalanceKey}
    (hk : ∀ r ∈ payload, r.key ≠ k) (s : BatchTotals × World) :
    (payload.foldl processed s).2.db.balances.byUk k = s.2.db.balances.byUk k := by
  induction payload generalizing s with
  | nil => rfl
  | cons r rest ih =>
      rw [List.foldl_cons, ih fun r hr => hk r (List.mem_cons_of_mem _ hr)]
      exact (reconciled_cases r s.2).row_of_ne (hk r List.mem_cons_self).symm

/-- A row with one record in the payload ends aligned with it. -/
theorem foldl_processed_aligns {payload : List HcmRecord} {s : BatchTotals × World}
    (hfresh : s.2.FreshIds) {k : BalanceKey} {r : HcmRecord}
    (honly : payload.filter (fun r => r.key = k) = [r]) {b : EmployeeBalance}
    (hrow : (payload.foldl processed s).2.db.balances.byUk k = some b) : Aligned r b := by
  obtain ⟨before, after, rfl, hbefore, hkey, hafter⟩ := List.filter_eq_cons_iff.mp honly
  obtain rfl := of_decide_eq_true hkey
  rw [List.foldl_append, List.foldl_cons] at hrow
  rw [foldl_processed_other after ?_] at hrow
  · obtain ⟨c, hc, haligned⟩ :=
      (reconciled_cases r (before.foldl processed s).2).aligns (foldl_processed_fresh before hfresh)
    obtain rfl := Option.some.inj (hrow.symm.trans hc)
    exact haligned
  · intro r' hr' heq
    have hnil := List.filter_eq_nil_iff.mp hafter r' hr'
    exact hnil (decide_eq_true heq)

/-- Every record has a row that has reached its total. -/
def Covered (payload : List HcmRecord) (w : World) : Prop :=
  ∀ r ∈ payload, ∃ b, w.db.balances.byUk r.key = some b ∧ Reached r b

/-- One pass covers the payload: what a record has reached no later one takes back. -/
theorem foldl_processed_covers (payload : List HcmRecord) {s : BatchTotals × World}
    (hfresh : s.2.FreshIds) : Covered payload (payload.foldl processed s).2 := by
  induction payload generalizing s with
  | nil => intro r hr; cases hr
  | cons r rest ih =>
      have hcase := reconciled_cases r s.2
      intro r' hr'
      rcases List.mem_cons.mp hr' with rfl | hr'
      · obtain ⟨b, hb, haligned⟩ := hcase.aligns hfresh
        obtain ⟨b', hb', hgrew⟩ := foldl_processed_grew rest (s := processed s r') hb
        exact ⟨b', hb', haligned.reached.of_grew hgrew⟩
      · exact ih (s := processed s r) (hcase.fresh hfresh) r' hr'

/-- A pass over a payload that is covered changes no account. -/
theorem foldl_processed_covered (payload : List HcmRecord) {s : BatchTotals × World}
    (hcovered : Covered payload s.2) (k : BalanceKey) :
    ((payload.foldl processed s).2.db.balances.byUk k).map EmployeeBalance.account
      = (s.2.db.balances.byUk k).map EmployeeBalance.account := by
  induction payload generalizing s with
  | nil => rfl
  | cons r rest ih =>
      have hcase := reconciled_cases r s.2
      have hrest : Covered rest (processed s r).2 := by
        intro r' hr'
        obtain ⟨b, hb, hreached⟩ := hcovered r' (List.mem_cons_of_mem _ hr')
        obtain ⟨b', hb', hgrew⟩ := hcase.grew hb
        exact ⟨b', hb', hreached.of_grew hgrew⟩
      rw [List.foldl_cons, ih hrest]
      obtain ⟨b, hb, hreached⟩ := hcovered r List.mem_cons_self
      by_cases hk : k = r.key
      · rw [hk, hb]
        show Option.map _ ((reconciled r s.2).2.db.balances.byUk r.key) = _
        rw [hcase.row_of_some hb, Option.map_some, Option.map_some,
          hreached.account_eq s.2.clock s.2.clock]
      · exact congrArg _ (hcase.row_of_ne hk)

/-- **Sequential reconciliation** of a payload in which keys may repeat: no pending
or used days of a row change and no available days are lost; a row with exactly
one record agrees with it, or is flagged with what it has too much; and the same
payload again changes no column of any account. -/
theorem sequential_reconciliation (w : World) (hfresh : w.FreshIds) (payload : List HcmRecord) :
    ∃ t₁ w₁ t₂ w₂,
      (processRecords {} payload).run (execSvc {}) w = some (.ok t₁, w₁)
      ∧ (processRecords {} payload).run (execSvc {}) w₁ = some (.ok t₂, w₂)
      ∧ (∀ b ∈ w.db.balances.rows, ∃ b₁ ∈ w₁.db.balances.rows, b.Grew b₁)
      ∧ (∀ b ∈ w₁.db.balances.rows, ∀ r,
          payload.filter (fun r => r.key = b.key) = [r] → Aligned r b)
      ∧ ∀ k, (w₂.db.balances.byUk k).map EmployeeBalance.account
          = (w₁.db.balances.byUk k).map EmployeeBalance.account := by
  refine ⟨_, _, _, _, processRecords_run payload {} {} w, processRecords_run payload {} {} _,
    ?_, ?_, ?_⟩
  · intro b hb
    obtain ⟨b₁, hb₁, hgrew⟩ :=
      foldl_processed_grew payload (s := ({}, w)) (Table.byUk_eq_some.mpr ⟨hb, rfl⟩)
    exact ⟨b₁, (Table.byUk_eq_some.mp hb₁).1, hgrew⟩
  · intro b hb r honly
    exact foldl_processed_aligns (s := ({}, w)) hfresh honly
      (Table.byUk_eq_some.mpr ⟨hb, rfl⟩)
  · exact foldl_processed_covered payload (s := ({}, _))
      (foldl_processed_covers payload (s := ({}, w)) hfresh)

/-- A table with one row: five days available, two pending, three used. -/
def oneRowWorld : World :=
  { World.initial 0 with
    db := { Database.empty with
      balances := ⟨[NewBalance.toRow ⟨"E1", "L1", .vacation, 10, 5, 2, 3, 10, none, none⟩ 0 0],
        by simp, by simp⟩ }
    uuid := 1 }

/-- A raise of that row, a lower total for it, and a new row. -/
def mixedPayload : List HcmRecord :=
  [⟨"E1", "L1", .vacation, 12, none⟩, ⟨"E1", "L1", .vacation, 9, none⟩,
    ⟨"E2", "L1", .sick, 7, none⟩]

theorem sequential_reconciliation_mixed :
    ∃ t₁ w₁ t₂ w₂,
      (processRecords {} mixedPayload).run (execSvc {}) oneRowWorld = some (.ok t₁, w₁)
      ∧ (processRecords {} mixedPayload).run (execSvc {}) w₁ = some (.ok t₂, w₂)
      ∧ (∀ b ∈ oneRowWorld.db.balances.rows, ∃ b₁ ∈ w₁.db.balances.rows, b.Grew b₁)
      ∧ (∀ b ∈ w₁.db.balances.rows, ∀ r,
          mixedPayload.filter (fun r => r.key = b.key) = [r] → Aligned r b)
      ∧ ∀ k, (w₂.db.balances.byUk k).map EmployeeBalance.account
          = (w₁.db.balances.byUk k).map EmployeeBalance.account := by
  refine sequential_reconciliation oneRowWorld ?_ mixedPayload
  intro b hb
  rw [List.mem_singleton.mp hb]
  exact Nat.zero_lt_one

end LeaveLedger
