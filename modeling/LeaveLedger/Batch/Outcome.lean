import LeaveLedger.Batch.Omitted
import LeaveLedger.Batch.Sequential

/-!
# Batch — What a whole batch does to the ledger

The tables after both loops: the row of a key that the payload has one
record of is that record's patch of the row before, the requests are as
they were, and the ledger invariant holds on.
-/

namespace LeaveLedger

open Js Lib

/-- An update of a row that keeps its account or raises it. -/
theorem LedgerInv.of_update {db : Database} (h : LedgerInv db) {id : Id} {p : BalancePatch}
    {now : ℤ} (hacc : ∀ b ∈ db.balances.rows, b.id = id → (p.apply now b).account = b.account
      ∨ ∃ t, (p.apply now b).account = b.account.raiseTo t) :
    LedgerInv (db.updateBalance id p now) := by
  cases hrow : db.balances.byPk id with
  | some b =>
      obtain ⟨hb, rfl⟩ := Table.byPk_eq_some.mp hrow
      have hreplaced : db.balances.Replaced (db.updateBalance b.id p now).balances b
          (p.apply now b) := by
        simp only [Database.updateBalance]
        exact Table.replaced_modify hb
      exact h.of_raised hreplaced rfl (hacc b hb rfl)
  | none =>
      have hsame : (db.updateBalance id p now).balances.rows = db.balances.rows := by
        simp only [Database.updateBalance]
        exact Table.rows_modify_of_none hrow
      refine ⟨?_, h.positive, ?_⟩
      · intro r hr
        obtain ⟨b, hb, hkey⟩ := h.hasRow r hr
        exact ⟨b, hsame ▸ hb, hkey⟩
      · intro b hb
        exact h.account b (hsame ▸ hb)

variable {w : World}

/-! ## The record loop -/

theorem ReconcileCase.requests {r : HcmRecord} {x : Except Exception Bool × World}
    (h : ReconcileCase r w x) : x.2.db.requests = w.db.requests := by
  cases h <;> rfl

theorem ReconcileCase.ledgerInv {r : HcmRecord} {x : Except Exception Bool × World}
    (h : ReconcileCase r w x) (hinv : LedgerInv w.db) : LedgerInv x.2.db := by
  cases h with
  | @updated b changed hrow =>
      refine hinv.of_update fun c hc hid => ?_
      obtain rfl := Table.eq_of_pk hc (Table.byUk_eq_some.mp hrow).1 hid
      rw [reconcilePatch_account]
      split
      · exact Or.inr ⟨_, rfl⟩
      · exact Or.inl rfl
  | opened hmissing hadded =>
      refine hinv.of_opened hadded rfl ?_
      exact Account.ext rfl (by simp [Account.of, EmployeeBalance.account, NewBalance.toRow,
        HcmRecord.newBalance]) rfl rfl
  | refused hmissing hused => exact hinv

/-- The row of a key with one record after the record loop. -/
theorem foldl_processed_row {payload : List HcmRecord} {k : BalanceKey} {r : HcmRecord}
    (honly : payload.filter (fun r => r.key = k) = [r]) {s : BatchTotals × World}
    {b : EmployeeBalance} (hrow : s.2.db.balances.byUk k = some b) :
    ∃ now, (payload.foldl processed s).2.db.balances.byUk k
      = some ((reconcilePatch r b now).apply now b) := by
  obtain ⟨before, after, rfl, hbefore, hkey, hafter⟩ := List.filter_eq_cons_iff.mp honly
  obtain rfl := of_decide_eq_true hkey
  have hother : ∀ l : List HcmRecord, (∀ x ∈ l, ¬ decide (x.key = r.key) = true) →
      ∀ s, (l.foldl processed s).2.db.balances.byUk r.key = s.2.db.balances.byUk r.key := by
    intro l hl s
    exact foldl_processed_other l (fun x hx heq => hl x hx (decide_eq_true heq)) s
  refine ⟨(before.foldl processed s).2.clock, ?_⟩
  rw [List.foldl_append, List.foldl_cons, hother after (List.filter_eq_nil_iff.mp hafter)]
  refine (reconciled_cases r (before.foldl processed s).2).row_of_some ?_
  rw [hother before hbefore, hrow]

/-! ## The full-refresh safety -/

/-- What every flagged row keeps, the second loop keeps. -/
theorem foldl_flagged_keeps {I : World → Prop}
    (hstep : ∀ s row, I s.2 → I (flagged s row).2) (rows : List EmployeeBalance)
    {s : BatchTotals × World} (h : I s.2) : I (rows.foldl flagged s).2 := by
  induction rows generalizing s with
  | nil => exact h
  | cons row rest ih => exact ih (hstep s row h)

/-- Flagging a row moves no days. -/
theorem missingPatch_account (row b : EmployeeBalance) (now t : ℤ) :
    ((missingPatch row now).apply t b).account = b.account := rfl

/-- A row none of the flagged ones is stays as it is. -/
theorem foldl_flagged_other (rows : List EmployeeBalance) {k : BalanceKey} {b : EmployeeBalance}
    (hne : ∀ row ∈ rows, row.id ≠ b.id) {s : BatchTotals × World}
    (hrow : s.2.db.balances.byUk k = some b) :
    (rows.foldl flagged s).2.db.balances.byUk k = some b := by
  induction rows generalizing s with
  | nil => exact hrow
  | cons row rest ih =>
      refine ih (fun row hr => hne row (List.mem_cons_of_mem _ hr)) ?_
      show (s.2.db.updateBalance row.id _ _).balances.byUk k = some b
      rw [byUk_updateBalance, hrow, Option.map_some, if_neg]
      exact (hne row List.mem_cons_self).symm

/-! ## The batch -/

theorem batchResult_requests (payload : List HcmRecord) :
    (batchResult payload w).2.db.requests = w.db.requests := by
  refine foldl_flagged_keeps (I := fun w' => w'.db.requests = w.db.requests)
    (fun _ _ h => h) _ ?_
  exact foldl_processed_keeps (I := fun s => s.2.db.requests = w.db.requests)
    (fun _ _ _ h hcase => hcase.requests.trans h) payload rfl

theorem batchResult_ledgerInv (payload : List HcmRecord) (hinv : LedgerInv w.db) :
    LedgerInv (batchResult payload w).2.db := by
  refine foldl_flagged_keeps (I := fun w => LedgerInv w.db) ?_ _ ?_
  · intro s row h
    exact h.of_update fun b _ _ => Or.inl (missingPatch_account row b _ _)
  · exact foldl_processed_keeps (I := fun s => LedgerInv s.2.db)
      (fun _ _ _ h hcase => hcase.ledgerInv h) payload hinv

/-- **The row of a key** that the payload has one record of. -/
theorem batchResult_row {payload : List HcmRecord} {k : BalanceKey} {r : HcmRecord}
    (honly : payload.filter (fun r => r.key = k) = [r]) {b : EmployeeBalance}
    (hrow : w.db.balances.byUk k = some b) :
    ∃ now, (batchResult payload w).2.db.balances.byUk k
      = some ((reconcilePatch r b now).apply now b) := by
  obtain ⟨now, hloop⟩ := foldl_processed_row honly (s := ({}, w)) hrow
  refine ⟨now, foldl_flagged_other _ ?_ hloop⟩
  intro row hleft hid
  -- a flagged row with the id is the row of the key, whose text the payload has
  obtain ⟨hmem, hout⟩ := List.mem_filter.mp hleft
  obtain ⟨hb, hkey⟩ := Table.byUk_eq_some.mp hloop
  obtain rfl := Table.eq_of_pk hmem hb hid
  have hr : r ∈ payload.filter (fun r => r.key = k) := by
    rw [honly]
    exact List.mem_singleton.mpr rfl
  obtain ⟨hr, hrk⟩ := List.mem_filter.mp hr
  refine of_decide_eq_true hout (List.mem_map.mpr ⟨r, hr, ?_⟩)
  rw [hkey, of_decide_eq_true hrk]

end LeaveLedger
