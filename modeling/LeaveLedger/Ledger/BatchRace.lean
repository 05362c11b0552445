import LeaveLedger.Ledger.Reconciliation

/-!
# Ledger — A batch reconciliation among transactions

`_reconcileRecord` reads a row and later writes absolute values to it, and
lifecycle operations commit in between. The machine here runs it one
statement at a time among lifecycle operations. What a lifecycle operation
does to a row leaves its total and the gap in its equation alone
(`SameBooks`), so the write alone decides how the run ends, and it ends
well exactly when a raise is written over the available balance it was
computed from.
-/

namespace LeaveLedger

open Js Lib

/-! ## Totals and gaps -/

/-- By how much a row misses `available + pending + used = total`. -/
def EmployeeBalance.gap (b : EmployeeBalance) : ℚ :=
  b.availableBalance + b.pendingBalance + b.usedBalance - b.totalBalance

theorem gap_eq_zero {b : EmployeeBalance} :
    b.gap = 0 ↔ b.availableBalance + b.pendingBalance + b.usedBalance = b.totalBalance := by
  unfold EmployeeBalance.gap
  exact sub_eq_zero

/-- Row by row, two databases have the same keys, totals and gaps. -/
structure SameBooks (db db' : Database) : Prop where
  forth : ∀ b ∈ db.balances.rows, ∃ b' ∈ db'.balances.rows,
    b'.id = b.id ∧ b'.key = b.key ∧ b'.totalBalance = b.totalBalance ∧ b'.gap = b.gap
  back : ∀ b' ∈ db'.balances.rows, ∃ b ∈ db.balances.rows,
    b'.id = b.id ∧ b'.key = b.key ∧ b'.totalBalance = b.totalBalance ∧ b'.gap = b.gap

theorem SameBooks.refl (db : Database) : SameBooks db db :=
  ⟨fun b hb => ⟨b, hb, rfl, rfl, rfl, rfl⟩, fun b hb => ⟨b, hb, rfl, rfl, rfl, rfl⟩⟩

theorem SameBooks.trans {db db' db'' : Database} (h : SameBooks db db')
    (h' : SameBooks db' db'') : SameBooks db db'' := by
  refine ⟨fun b hb => ?_, fun b'' hb'' => ?_⟩
  · obtain ⟨b', hb', hid, hkey, ht, hg⟩ := h.forth b hb
    obtain ⟨b'', hb'', hid', hkey', ht', hg'⟩ := h'.forth b' hb'
    exact ⟨b'', hb'', hid'.trans hid, hkey'.trans hkey, ht'.trans ht, hg'.trans hg⟩
  · obtain ⟨b', hb', hid, hkey, ht, hg⟩ := h'.back b'' hb''
    obtain ⟨b, hb, hid', hkey', ht', hg'⟩ := h.back b' hb'
    exact ⟨b, hb, hid.trans hid', hkey.trans hkey', ht.trans ht', hg.trans hg'⟩

theorem SameBooks.of_replaced {db db' : Database} {b b' : EmployeeBalance}
    (h : db.balances.Replaced db'.balances b b') (ht : b'.totalBalance = b.totalBalance)
    (hg : b'.gap = b.gap) : SameBooks db db' := by
  refine ⟨fun c hc => ?_, fun c hc => ?_⟩
  · obtain ⟨c', hc', hid, hkey, rfl | ⟨rfl, rfl⟩⟩ := h.exists_of_mem hc
    · exact ⟨c', hc', rfl, rfl, rfl, rfl⟩
    · exact ⟨c', hc', hid, hkey, ht, hg⟩
  · rcases h.mem_iff.mp hc with ⟨hmem, -⟩ | rfl
    · exact ⟨c, hmem, rfl, rfl, rfl, rfl⟩
    · exact ⟨b, h.mem, h.pk_eq, h.uk_eq, ht, hg⟩

/-- A movement of days within an account keeps its total and its gap. -/
theorem books_of_account {b b' : EmployeeBalance} {a : Account} (h : b'.account = a)
    (ht : a.total = b.totalBalance)
    (hsum : a.available + a.pending + a.used
      = b.availableBalance + b.pendingBalance + b.usedBalance) :
    b'.totalBalance = b.totalBalance ∧ b'.gap = b.gap := by
  have htot : b'.totalBalance = a.total := congrArg Account.total h
  have hav : b'.availableBalance = a.available := congrArg Account.available h
  have hpe : b'.pendingBalance = a.pending := congrArg Account.pending h
  have hus : b'.usedBalance = a.used := congrArg Account.used h
  refine ⟨htot.trans ht, ?_⟩
  unfold EmployeeBalance.gap
  rw [htot, hav, hpe, hus, hsum, ht]

/-- **Lifecycle operations keep the books**: they move days within a row. -/
theorem lifecycleStep_sameBooks {env : Env} {w w' : World} {l : LifecycleOp × List Fate}
    (h : lifecycleStep env w l = some w') : SameBooks w.db w'.db := by
  refine lifecycleStep_keeps (J := fun db => SameBooks w.db db) ?_ ?_ h (.refl _)
  · intro dto k w₁ w₂ d b b' r rec _ hc hJ
    obtain ⟨ht, hg⟩ := books_of_account (b := b) hc.account rfl
      (by simp only [Account.reserve, EmployeeBalance.account]; ring)
    exact hJ.trans (.of_replaced hc.balances ht hg)
  · intro s id w₁ w₂ r r' b b' hs hJ
    have hop : (s.op b.account r.daysRequested).total = b.totalBalance
        ∧ (s.op b.account r.daysRequested).available
          + (s.op b.account r.daysRequested).pending + (s.op b.account r.daysRequested).used
          = b.availableBalance + b.pendingBalance + b.usedBalance := by
      cases s with
      | approve a =>
          refine ⟨rfl, ?_⟩
          simp only [Settlement.op, Account.finalize, EmployeeBalance.account]; ring
      | reject a reason =>
          refine ⟨rfl, ?_⟩
          simp only [Settlement.op, Account.release, EmployeeBalance.account]; ring
      | cancel reason =>
          refine ⟨rfl, ?_⟩
          simp only [Settlement.op, Account.release, EmployeeBalance.account]; ring
    obtain ⟨ht, hg⟩ := books_of_account hs.account hop.1 hop.2
    exact hJ.trans (.of_replaced hs.balances ht hg)

/-! ## The machine -/

/-- A batch reconciliation under way, with the row it has read. -/
structure BatchState where
  world : World
  batch : Svc Bool
  read : Option EmployeeBalance

inductive BatchLabel where
  | lifecycle (op : LifecycleOp) (fates : List Fate)
  | batch

/-- The row that the answer to a request shows. -/
def observe : (o : SvcOp) → SvcSig.Res o → Option EmployeeBalance → Option EmployeeBalance
  | .stmt (.findBalance _ _ _), .ok row, _ => row
  | _, _, seen => seen

/-- A lifecycle operation to its end, or one request of the batch job. -/
def batchStep (env : Env) (s : BatchState) : BatchLabel → Option BatchState
  | .lifecycle op fates =>
      (lifecycleStep env s.world (op, fates)).map fun w => { s with world := w }
  | .batch =>
      match s.batch with
      | .await o k => (execSvc {} o s.world).map fun r =>
          { world := r.2, batch := k r.1, read := observe o r.1 s.read }
      | .done _ => none
      | .fail _ => none

/-- The call has come to its end. -/
def Svc.finished {α : Type} : Svc α → Bool
  | .done _ | .fail _ => true
  | .await _ _ => false

/-- The next request of the batch job is its write to the row it read. -/
def BatchState.writes (s : BatchState) : Bool :=
  match s.batch with
  | .await (.stmt (.updateBalance _ _)) _ => true
  | _ => false

def batchStart (w : World) (hcmRecord : HcmRecord) : BatchState :=
  ⟨w, reconcileRecord hcmRecord, none⟩

/-! ## What is claimed, and when it holds -/

/-- A step of the batch job makes no more days available than it adds to the
total, so no day reserved since its read is available again. -/
def ReturnsNothing (env : Env) (s : BatchState) (l : BatchLabel) : Prop :=
  l = .batch → ∀ s', batchStep env s l = some s' →
    ∀ b ∈ s.world.db.balances.rows, ∀ b' ∈ s'.world.db.balances.rows, b'.id = b.id →
      b'.availableBalance - b.availableBalance ≤ b'.totalBalance - b.totalBalance

/-- When the batch job is about to raise the row it read, the row still has the
available balance it read. -/
def RaisesFresh (hcmRecord : HcmRecord) (s : BatchState) (l : BatchLabel) : Prop :=
  l = .batch → s.writes → ∀ b₀, s.read = some b₀ →
    0.01 < hcmRecord.totalBalance - b₀.localTotal →
    ∀ b ∈ s.world.db.balances.rows, b.id = b₀.id → b.availableBalance = b₀.availableBalance

instance (hcmRecord : HcmRecord) (s : BatchState) : ∀ l, Decidable (RaisesFresh hcmRecord s l)
  | .lifecycle _ _ => isTrue fun h => by cases h
  | .batch =>
      decidable_of_iff (s.writes → ∀ b₀ ∈ s.read,
          0.01 < hcmRecord.totalBalance - b₀.localTotal →
          ∀ b ∈ s.world.db.balances.rows, b.id = b₀.id →
            b.availableBalance = b₀.availableBalance)
        ⟨fun h _ => h, fun h => h rfl⟩

/-- The row of the record satisfies its equation. -/
def RowBalanced (hcmRecord : HcmRecord) (db : Database) : Prop :=
  ∀ b ∈ db.balances.rows, b.key = hcmRecord.key →
    b.availableBalance + b.pendingBalance + b.usedBalance = b.totalBalance

theorem rowBalanced_of_sameBooks {hcmRecord : HcmRecord} {db db' : Database}
    (h : SameBooks db db') : RowBalanced hcmRecord db' ↔ RowBalanced hcmRecord db := by
  constructor
  · intro hbal b hb hkey
    obtain ⟨b', hb', -, hkey', -, hgap⟩ := h.forth b hb
    rw [← gap_eq_zero, ← hgap, gap_eq_zero]
    exact hbal b' hb' (hkey'.trans hkey)
  · intro hbal b' hb' hkey
    obtain ⟨b, hb, -, hkey', -, hgap⟩ := h.back b' hb'
    rw [← gap_eq_zero, hgap, gap_eq_zero]
    exact hbal b hb (hkey'.symm.trans hkey)

theorem LedgerInv.rowBalanced {hcmRecord : HcmRecord} {db : Database} (h : LedgerInv db) :
    RowBalanced hcmRecord db := by
  intro b hb _
  have hbalanced : b.account.Balanced := by
    rw [h.account b hb]
    exact Account.balanced_of _ _ _
  exact hbalanced

/-! ## After the write -/

variable {env : Env} {hcmRecord : HcmRecord}

theorem returnsNothing_lifecycle {s : BatchState} {op : LifecycleOp} {fates : List Fate} :
    ReturnsNothing env s (.lifecycle op fates) := fun hl => by cases hl

theorem raisesFresh_lifecycle {s : BatchState} {op : LifecycleOp} {fates : List Fate} :
    RaisesFresh hcmRecord s (.lifecycle op fates) := fun hl => by cases hl

/-- A step that leaves the rows it finds as they are makes no day available. -/
theorem returnsNothing_of_keeps {s s₁ : BatchState} (h₁ : batchStep env s .batch = some s₁)
    (hkeeps : ∀ b ∈ s.world.db.balances.rows, ∀ b' ∈ s₁.world.db.balances.rows,
      b'.id = b.id → b' = b) : ReturnsNothing env s .batch := by
  intro _ s₂ h b hb b' hb' hid
  rw [h₁] at h
  cases h
  rw [hkeeps b hb b' hb' hid]
  linarith

theorem raisesFresh_of_not_writes {s : BatchState} (hwrites : s.writes = false) :
    RaisesFresh hcmRecord s .batch := by
  intro _ h
  rw [hwrites] at h
  cases h

/-- Once the batch job is over, the run keeps the books and no condition on a
batch step can fail. -/
theorem run_after (hcmRecord : HcmRecord) {ls : List BatchLabel} {s s' : BatchState}
    (hover : s.batch.finished) (hrun : run (batchStep env) s ls = some s') :
    SameBooks s.world.db s'.world.db ∧ Meets (batchStep env) (ReturnsNothing env) s ls
      ∧ Meets (batchStep env) (RaisesFresh hcmRecord) s ls := by
  have hstuck : ∀ s : BatchState, s.batch.finished → batchStep env s .batch = none := by
    intro s h
    unfold batchStep
    cases hb : s.batch with
    | done a => rfl
    | fail e => rfl
    | await o k => simp [hb, Svc.finished] at h
  have hquiet : ∀ s : BatchState, s.batch.finished → s.writes = false := by
    intro s h
    unfold BatchState.writes
    cases hb : s.batch with
    | done a => rfl
    | fail e => rfl
    | await o k => simp [hb, Svc.finished] at h
  induction ls generalizing s with
  | nil =>
      cases hrun
      exact ⟨.refl _, trivial, trivial⟩
  | cons l ls ih =>
      obtain ⟨s₁, h₁, h₂⟩ := run_cons_some hrun
      cases l with
      | batch => rw [hstuck s hover] at h₁; cases h₁
      | lifecycle op fates =>
          have h₁' := h₁
          obtain ⟨w, hw, rfl⟩ := Option.map_eq_some_iff.mp h₁
          obtain ⟨hbooks, hret, hfresh⟩ := ih (s := { s with world := w }) hover h₂
          refine ⟨(lifecycleStep_sameBooks hw).trans hbooks, ?_, ?_⟩
          · exact (meets_cons_iff h₁').mpr ⟨returnsNothing_lifecycle, hret⟩
          · exact (meets_cons_iff h₁').mpr ⟨raisesFresh_lifecycle, hfresh⟩

/-! ## The write -/

/-- Where the batch job can be before its write, and what it then knows. -/
inductive Underway (hcmRecord : HcmRecord) (s : BatchState) : Prop where
  | reading (hbatch : s.batch = reconcileRecord hcmRecord)
  | missing (hbatch : s.batch = insertReconciled hcmRecord)
  | opening (n : NewBalance) (hbatch : s.batch
        = (Svc.stmt (.insertBalance n)).bind fun _ => .done true)
      (hrow : n.availableBalance = n.totalBalance ∧ n.pendingBalance = 0 ∧ n.usedBalance = 0)
  | found (b₀ b : EmployeeBalance) (hbatch : s.batch = updateReconciled hcmRecord b₀)
      (hread : s.read = some b₀) (hb : b ∈ s.world.db.balances.rows) (hid : b.id = b₀.id)
      (hkey : b.key = hcmRecord.key) (htotal : b.totalBalance = b₀.totalBalance)
      (hgap : b₀.gap = 0)
  | writing (b₀ b : EmployeeBalance) (now : ℤ) (done : Bool)
      (hbatch : s.batch = (Svc.stmt
        (.updateBalance b₀.id (reconcilePatch hcmRecord b₀ now))).bind fun _ => .done done)
      (hread : s.read = some b₀) (hb : b ∈ s.world.db.balances.rows) (hid : b.id = b₀.id)
      (hkey : b.key = hcmRecord.key) (htotal : b.totalBalance = b₀.totalBalance)
      (hgap : b₀.gap = 0)

/-- A lifecycle operation leaves the batch job where it is. -/
theorem Underway.lifecycle {s : BatchState} {w : World} {l : LifecycleOp × List Fate}
    (h : Underway hcmRecord s) (hstep : lifecycleStep env s.world l = some w) :
    Underway hcmRecord { s with world := w } := by
  have hbooks := lifecycleStep_sameBooks hstep
  cases h with
  | reading hbatch => exact .reading hbatch
  | missing hbatch => exact .missing hbatch
  | opening n hbatch hrow => exact .opening n hbatch hrow
  | found b₀ b hbatch hread hb hid hkey htotal hgap =>
      obtain ⟨b', hb', hid', hkey', htotal', -⟩ := hbooks.forth b hb
      exact .found b₀ b' hbatch hread hb' (hid'.trans hid) (hkey'.trans hkey)
        (htotal'.trans htotal) hgap
  | writing b₀ b now done hbatch hread hb hid hkey htotal hgap =>
      obtain ⟨b', hb', hid', hkey', htotal', -⟩ := hbooks.forth b hb
      exact .writing b₀ b' now done hbatch hread hb' (hid'.trans hid) (hkey'.trans hkey)
        (htotal'.trans htotal) hgap

/-- **The write of absolute values.** Of a balanced row it leaves a balanced
row, with no more made available than the total gains, exactly when the row
still has the available balance that was read, or nothing is raised. -/
theorem write_balanced_iff (hcmRecord : HcmRecord) {b₀ b : EmployeeBalance} (now t : ℤ)
    (hgap₀ : b₀.gap = 0) (hgap : b.gap = 0) (htotal : b.totalBalance = b₀.totalBalance) :
    (((reconcilePatch hcmRecord b₀ now).apply t b).gap = 0
      ↔ (0.01 < hcmRecord.totalBalance - b₀.localTotal →
          b.availableBalance = b₀.availableBalance))
    ∧ (((reconcilePatch hcmRecord b₀ now).apply t b).gap = 0 →
        ((reconcilePatch hcmRecord b₀ now).apply t b).availableBalance - b.availableBalance
          ≤ ((reconcilePatch hcmRecord b₀ now).apply t b).totalBalance - b.totalBalance) := by
  have hsame : ((reconcilePatch hcmRecord b₀ now).apply t b).pendingBalance = b.pendingBalance
      ∧ ((reconcilePatch hcmRecord b₀ now).apply t b).usedBalance = b.usedBalance := ⟨rfl, rfl⟩
  have hnew : ((reconcilePatch hcmRecord b₀ now).apply t b).totalBalance
        = (if 0.01 < hcmRecord.totalBalance - b₀.localTotal then hcmRecord.totalBalance
            else b.totalBalance)
      ∧ ((reconcilePatch hcmRecord b₀ now).apply t b).availableBalance
        = (if 0.01 < hcmRecord.totalBalance - b₀.localTotal then
            b₀.availableBalance + (hcmRecord.totalBalance - b₀.localTotal)
            else b.availableBalance) := by
    unfold reconcilePatch
    by_cases hsmall : |hcmRecord.totalBalance - b₀.localTotal| ≤ 0.01
    · have hle : ¬ 0.01 < hcmRecord.totalBalance - b₀.localTotal :=
        not_lt.mpr ((le_abs_self _).trans hsmall)
      simp only [hsmall, if_true, hle, if_false]
      exact ⟨rfl, rfl⟩
    · by_cases hbig : 0.01 < hcmRecord.totalBalance - b₀.localTotal
      · simp only [hsmall, if_false, hbig, if_true]
        exact ⟨rfl, rfl⟩
      · simp only [hsmall, if_false, hbig]
        exact ⟨rfl, rfl⟩
  unfold EmployeeBalance.gap at *
  unfold EmployeeBalance.localTotal at *
  rw [hnew.1, hnew.2, hsame.1, hsame.2]
  by_cases hbig : 0.01 < hcmRecord.totalBalance
      - (b₀.usedBalance + b₀.pendingBalance + b₀.availableBalance)
  · simp only [hbig, if_true, forall_true_left]
    refine ⟨⟨fun h => ?_, fun h => ?_⟩, fun h => ?_⟩ <;> linarith
  · simp only [hbig, if_false, false_imp_iff, iff_true]
    exact ⟨hgap, fun _ => by linarith⟩

/-- What a step of the batch job is: a read, an insert, or the write. -/
inductive BatchStep (hcmRecord : HcmRecord) (s s' : BatchState) : Prop where
  | reads (hwrites : s.writes = false) (hdb : s'.world.db = s.world.db)
      (hunder : Underway hcmRecord s')
  | opens (hwrites : s.writes = false) (hover : s'.batch.finished)
      (hinv : LedgerInv s'.world.db)
      (hold : ∀ b ∈ s.world.db.balances.rows, ∀ b' ∈ s'.world.db.balances.rows,
        b'.id = b.id → b' = b)
  | writes (b₀ b : EmployeeBalance) (now t : ℤ) (hwrites : s.writes = true)
      (hover : s'.batch.finished) (hread : s.read = some b₀) (hid : b.id = b₀.id)
      (hkey : b.key = hcmRecord.key) (htotal : b.totalBalance = b₀.totalBalance)
      (hgap : b₀.gap = 0)
      (hrep : s.world.db.balances.Replaced s'.world.db.balances b
        ((reconcilePatch hcmRecord b₀ now).apply t b))

/-- The read: the job goes on with the row of the key. -/
theorem batch_reads (w : World) (read : Option EmployeeBalance) :
    batchStep env ⟨w, reconcileRecord hcmRecord, read⟩ .batch
      = some ⟨{ w with uuid := w.uuid + 1 },
          reconcileLocal hcmRecord (w.db.balances.byUk hcmRecord.key),
          w.db.balances.byUk hcmRecord.key⟩ := rfl

theorem batch_cases {s s' : BatchState} (hinv : LedgerInv s.world.db)
    (h : Underway hcmRecord s) (hstep : batchStep env s .batch = some s') :
    BatchStep hcmRecord s s' := by
  obtain ⟨w, batch, read⟩ := s
  cases h with
  | reading hbatch =>
      obtain rfl : batch = reconcileRecord hcmRecord := hbatch
      refine .reads rfl ?_ ?_
      · cases hstep; rfl
      cases hrow : w.db.balances.byUk hcmRecord.key with
      | none =>
          refine .missing ?_
          rw [batch_reads, hrow] at hstep
          cases hstep
          rfl
      | some b =>
          obtain ⟨hb, hkey⟩ := Table.byUk_eq_some.mp hrow
          have hgap : b.gap = 0 := gap_eq_zero.mpr (hinv.rowBalanced b hb hkey)
          rw [batch_reads, hrow] at hstep
          cases hstep
          exact .found b b rfl rfl hb rfl hkey rfl hgap
  | missing hbatch =>
      obtain rfl : batch = insertReconciled hcmRecord := hbatch
      cases hstep
      exact .reads rfl rfl (.opening _ rfl ⟨rfl, rfl, rfl⟩)
  | opening n hbatch hrow =>
      obtain rfl : batch = _ := hbatch
      have hstep' : (execSvc {} (.stmt (.insertBalance n)) w).map (fun r =>
          (⟨r.2, (orThrow r.1 : Svc EmployeeBalance).bind fun _ => .done true,
            observe (.stmt (.insertBalance n)) r.1 read⟩ : BatchState)) = some s' := hstep
      simp only [execSvc, Option.map_some, Option.some.injEq] at hstep'
      cases hexec : (Stmt.insertBalance n).exec w.stamp w.db with
      | error e =>
          rw [hexec] at hstep'
          subst hstep'
          refine .opens rfl rfl hinv fun b hb b' hb' hid => ?_
          exact Table.eq_of_pk hb' hb hid
      | ok r =>
          rw [hexec] at hstep'
          subst hstep'
          obtain ⟨hnew, hadded, hreq, -⟩ := Stmt.exec_insertBalance hexec
          refine .opens rfl rfl ?_ fun b hb b' hb' hid => ?_
          · refine hinv.of_opened hadded hreq ?_
            rw [hnew]
            exact Account.ext rfl (by
              simp [Account.of, EmployeeBalance.account, NewBalance.toRow, hrow.1])
              hrow.2.1 hrow.2.2
          · rcases hadded.mem_iff.mp hb' with hmem | rfl
            · exact Table.eq_of_pk hmem hb hid
            · exact absurd hid.symm (hadded.pk_new b hb)
  | found b₀ b hbatch hread hb hid hkey htotal hgap =>
      obtain rfl : batch = updateReconciled hcmRecord b₀ := hbatch
      cases hstep
      exact .reads rfl rfl (.writing b₀ b _ _ rfl hread hb hid hkey htotal hgap)
  | writing b₀ b now done hbatch hread hb hid hkey htotal hgap =>
      obtain rfl : batch = _ := hbatch
      cases hstep
      refine .writes b₀ b now w.clock rfl rfl hread hid hkey htotal hgap ?_
      show w.db.balances.Replaced (w.db.updateBalance b₀.id _ w.clock).balances b _
      rw [← hid]
      simp only [Database.updateBalance]
      exact Table.replaced_modify hb

/-! ## The result -/

/-- What the write does: the row ends balanced exactly when the raise is fresh,
and then the write makes no reserved day available. -/
theorem race_write {s s₁ : BatchState} {b₀ b : EmployeeBalance} {now t : ℤ}
    (hinv : LedgerInv s.world.db) (h₁ : batchStep env s .batch = some s₁)
    (hwrites : s.writes = true) (hread : s.read = some b₀) (hid : b.id = b₀.id)
    (hkey : b.key = hcmRecord.key) (htotal : b.totalBalance = b₀.totalBalance)
    (hgap : b₀.gap = 0)
    (hrep : s.world.db.balances.Replaced s₁.world.db.balances b
      ((reconcilePatch hcmRecord b₀ now).apply t b)) :
    (RowBalanced hcmRecord s₁.world.db ↔ RaisesFresh hcmRecord s .batch)
      ∧ (RowBalanced hcmRecord s₁.world.db → ReturnsNothing env s .batch) := by
  have hb := hrep.mem
  have hgapb : b.gap = 0 := gap_eq_zero.mpr (hinv.rowBalanced b hb hkey)
  obtain ⟨hiff, hle⟩ := write_balanced_iff hcmRecord now t hgap hgapb htotal
  set b' := (reconcilePatch hcmRecord b₀ now).apply t b with hb'
  have hkey' : b'.key = hcmRecord.key := hrep.uk_eq.trans hkey
  -- the row of the record after the write is `b'`
  have hrow : RowBalanced hcmRecord s₁.world.db ↔ b'.gap = 0 := by
    constructor
    · intro h
      exact gap_eq_zero.mpr (h b' hrep.mem_new hkey')
    · intro h c hc hck
      obtain rfl := Table.eq_of_uk hc hrep.mem_new (hck.trans hkey'.symm)
      exact gap_eq_zero.mp h
  have hfreshStep : RaisesFresh hcmRecord s .batch ↔
      (0.01 < hcmRecord.totalBalance - b₀.localTotal →
        b.availableBalance = b₀.availableBalance) := by
    constructor
    · intro h hbig
      exact h rfl hwrites b₀ hread hbig b hb hid
    · intro h _ _ c₀ hc₀ hbig c hc hcid
      rw [hread] at hc₀
      cases hc₀
      rw [Table.eq_of_pk hc hb (hcid.trans hid.symm)]
      exact h hbig
  refine ⟨by rw [hrow, hfreshStep, hiff], fun hbal _ s₂ h c hc c' hc' hcid => ?_⟩
  rw [h₁] at h
  cases h
  rcases hrep.mem_iff.mp hc' with ⟨hmem, -⟩ | rfl
  · rw [Table.eq_of_pk hmem hc hcid]
    linarith
  · obtain rfl := Table.eq_of_pk hc hb (hcid.symm.trans hrep.pk_eq)
    exact hle (hrow.mp hbal)

/-- From any point before the write, the run ends with the row balanced and
nothing returned exactly when the raise is fresh. -/
theorem race_iff {ls : List BatchLabel} {s s' : BatchState} (hinv : LedgerInv s.world.db)
    (hunder : Underway hcmRecord s) (hrun : run (batchStep env) s ls = some s')
    (hover : s'.batch.finished) :
    (RowBalanced hcmRecord s'.world.db ∧ Meets (batchStep env) (ReturnsNothing env) s ls)
      ↔ Meets (batchStep env) (RaisesFresh hcmRecord) s ls := by
  induction ls generalizing s with
  | nil =>
      -- the batch job is not over while it is under way
      cases hrun
      cases hunder with
      | reading h => rw [h] at hover; cases hover
      | missing h => rw [h] at hover; cases hover
      | opening n h hrow => rw [h] at hover; cases hover
      | found b₀ b h => rw [h] at hover; cases hover
      | writing b₀ b now done h => rw [h] at hover; cases hover
  | cons l ls ih =>
      obtain ⟨s₁, h₁, h₂⟩ := run_cons_some hrun
      rw [meets_cons_iff h₁, meets_cons_iff h₁]
      cases l with
      | lifecycle op fates =>
          obtain ⟨w, hw, rfl⟩ := Option.map_eq_some_iff.mp h₁
          have hi := ih (s := { s with world := w }) (lifecycleStep_inv hw hinv)
            (hunder.lifecycle hw) h₂
          rw [and_iff_right returnsNothing_lifecycle, and_iff_right raisesFresh_lifecycle]
          exact hi
      | batch =>
          cases batch_cases hinv hunder h₁ with
          | reads hwrites hdb hunder₁ =>
              have hi := ih (s := s₁) (hdb ▸ hinv) hunder₁ h₂
              have hC₁ : ReturnsNothing env s .batch := by
                refine returnsNothing_of_keeps h₁ fun b hb b' hb' hid => ?_
                rw [hdb] at hb'
                exact Table.eq_of_pk hb' hb hid
              rw [and_iff_right hC₁, and_iff_right (raisesFresh_of_not_writes hwrites)]
              exact hi
          | opens hwrites hover₁ hinv₁ hold =>
              obtain ⟨hbooks, hret, hfresh⟩ := run_after hcmRecord hover₁ h₂
              have hbal : RowBalanced hcmRecord s'.world.db :=
                (rowBalanced_of_sameBooks hbooks).mpr hinv₁.rowBalanced
              exact ⟨fun _ => ⟨raisesFresh_of_not_writes hwrites, hfresh⟩,
                fun _ => ⟨hbal, returnsNothing_of_keeps h₁ hold, hret⟩⟩
          | writes b₀ b now t hwrites hover₁ hread hid hkey htotal hgap hrep =>
              obtain ⟨hbooks, hret, hfresh⟩ := run_after hcmRecord hover₁ h₂
              obtain ⟨hiff, hreturns⟩ :=
                race_write hinv h₁ hwrites hread hid hkey htotal hgap hrep
              rw [rowBalanced_of_sameBooks hbooks, ← hiff]
              exact ⟨fun h => ⟨h.1, hfresh⟩, fun h => ⟨h.1, hreturns h.1, hret⟩⟩

/-- **A batch sync keeps reservations exactly when its raise is fresh.** From
every reachable state, for every record and every interleaving: the row
ends balanced, and the batch job made no reserved day available again, if
and only if a raise, when there is one, was written while the row still
had the available balance that was read. -/
theorem batch_keeps_reservations_iff (env : Env) (clock : ℤ) (ls₀ : List (LedgerOp × List Fate))
    (w₀ : World) (hcmRecord : HcmRecord) (ls : List BatchLabel) (s : BatchState)
    (hreach : run (ledgerStep env) (World.initial clock) ls₀ = some w₀)
    (hrun : run (batchStep env) (batchStart w₀ hcmRecord) ls = some s)
    (hover : s.batch.finished) :
    (RowBalanced hcmRecord s.world.db
        ∧ Meets (batchStep env) (ReturnsNothing env) (batchStart w₀ hcmRecord) ls)
      ↔ Meets (batchStep env) (RaisesFresh hcmRecord) (batchStart w₀ hcmRecord) ls := by
  have hinv : LedgerInv w₀.db :=
    run_induct (I := fun w => LedgerInv w.db) (fun w l w' => ledgerStep_inv) ledgerInv_empty hreach
  exact race_iff (s := batchStart w₀ hcmRecord) hinv (.reading rfl) hrun hover

/-- A record of HCM that grants the sample row two more days than it has. -/
def grantRecord : HcmRecord :=
  ⟨sampleDto.employeeId, sampleDto.locationId, sampleDto.leaveType, 12, none⟩

/-- A create commits between the read and the write. -/
def raceLabels : List BatchLabel :=
  [.batch, .lifecycle (.createRequest sampleDto "key-1") [], .batch, .batch]

/-- The two days are reserved, and available again. -/
theorem raceLabels_outcome : ∃ w₀ s,
    run (ledgerStep .default) (World.initial 0) [seed 10] = some w₀
    ∧ run (batchStep .default) (batchStart w₀ grantRecord) raceLabels = some s
    ∧ s.batch.finished = true
    ∧ s.world.db.balances.rows.map (fun b => (b.key, b.account))
      = [(sampleDto.balanceKey, ⟨12, 12, 2, 0⟩)] := by
  have h : ((run (ledgerStep .default) (World.initial 0) [seed 10]).bind fun w₀ =>
      (run (batchStep .default) (batchStart w₀ grantRecord) raceLabels).map fun s =>
        (s.batch.finished, s.world.db.balances.rows.map fun b => (b.key, b.account)))
      = some (true, [(sampleDto.balanceKey, ⟨12, 12, 2, 0⟩)]) := by
    decide +kernel
  obtain ⟨w₀, h₀, h⟩ := Option.bind_eq_some_iff.mp h
  obtain ⟨s, hs, h⟩ := Option.map_eq_some_iff.mp h
  obtain ⟨hover, hrows⟩ := Prod.mk.inj h
  exact ⟨w₀, s, h₀, hs, hover, hrows⟩

/-- Not every interleaving keeps the reservations. -/
theorem batch_loses_a_reservation :
    ¬ ∀ (env : Env) (clock : ℤ) (ls₀ : List (LedgerOp × List Fate)) (w₀ : World)
        (hcmRecord : HcmRecord) (ls : List BatchLabel) (s : BatchState),
      run (ledgerStep env) (World.initial clock) ls₀ = some w₀ →
      run (batchStep env) (batchStart w₀ hcmRecord) ls = some s → s.batch.finished →
      RowBalanced hcmRecord s.world.db
        ∧ Meets (batchStep env) (ReturnsNothing env) (batchStart w₀ hcmRecord) ls := by
  intro h
  obtain ⟨w₀, s, h₀, hs, hover, hrows⟩ := raceLabels_outcome
  have hbal := (h _ _ _ w₀ grantRecord raceLabels s h₀ hs hover).1
  cases hb : s.world.db.balances.rows with
  | nil => simp [hb] at hrows
  | cons b rest =>
      rw [hb] at hrows
      obtain ⟨hkey, hacc⟩ := Prod.mk.inj (List.cons.inj hrows).1
      have heq := hbal b (by rw [hb]; exact List.mem_cons_self) hkey
      have hsum : b.account.available + b.account.pending + b.account.used = b.account.total := heq
      rw [hacc] at hsum
      norm_num at hsum

/-- The create waits for the write. -/
def lateCreateLabels : List BatchLabel :=
  [.batch, .batch, .batch, .lifecycle (.createRequest sampleDto "key-1") []]

/-- The raise is fresh, and of the twelve days two are reserved. -/
theorem batch_keeps_reservations_late_create : ∃ w₀ s,
    run (batchStep .default) (batchStart w₀ grantRecord) lateCreateLabels = some s
    ∧ s.world.db.balances.rows.map (fun b => (b.key, b.account))
      = [(sampleDto.balanceKey, ⟨12, 10, 2, 0⟩)]
    ∧ Meets (batchStep .default) (RaisesFresh grantRecord) (batchStart w₀ grantRecord)
      lateCreateLabels
    ∧ RowBalanced grantRecord s.world.db
    ∧ Meets (batchStep .default) (ReturnsNothing .default) (batchStart w₀ grantRecord)
      lateCreateLabels := by
  have h : ((run (ledgerStep .default) (World.initial 0) [seed 10]).bind fun w₀ =>
      (run (batchStep .default) (batchStart w₀ grantRecord) lateCreateLabels).map fun s =>
        (decide (s.batch.finished ∧ Meets (batchStep .default) (RaisesFresh grantRecord)
            (batchStart w₀ grantRecord) lateCreateLabels),
          s.world.db.balances.rows.map fun b => (b.key, b.account)))
      = some (true, [(sampleDto.balanceKey, ⟨12, 10, 2, 0⟩)]) := by
    decide +kernel
  obtain ⟨w₀, h₀, h⟩ := Option.bind_eq_some_iff.mp h
  obtain ⟨s, hs, h⟩ := Option.map_eq_some_iff.mp h
  obtain ⟨hdec, hrows⟩ := Prod.mk.inj h
  obtain ⟨hover, hfresh⟩ := of_decide_eq_true hdec
  exact ⟨w₀, s, hs, hrows, hfresh,
    (batch_keeps_reservations_iff .default 0 [seed 10] w₀ grantRecord _ s h₀ hs hover).mpr hfresh⟩

end LeaveLedger
