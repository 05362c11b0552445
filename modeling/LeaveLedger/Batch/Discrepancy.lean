import LeaveLedger.Batch.Outcome
import LeaveLedger.Lib.ScriptFrames

/-!
# Batch — Flags that tell the truth

Three writers set the discrepancy columns of a row: the real-time update,
the reconciliation of a record and the safety for rows a batch leaves out,
each by a rule and with a tolerance of its own. Creates and settlements in
between move days within the row and leave these columns alone, so at any
time the columns say how the total of the row stands to what HCM had last
(`EmployeeBalance.StandsTrue`).
-/

namespace LeaveLedger

open Js Lib

/-! ## How a row stands to HCM -/

/-- The total of a row and the columns that hold it against HCM. -/
structure Standing where
  totalBalance : ℚ
  hcmTotalBalance : ℚ
  hasDiscrepancy : Bool
  discrepancyAmount : Option ℚ
  deriving DecidableEq

def EmployeeBalance.standing (b : EmployeeBalance) : Standing :=
  ⟨b.totalBalance, b.hcmTotalBalance, b.hasDiscrepancy, b.discrepancyAmount⟩

/-- A row without an amount is not flagged and agrees with HCM but for noise. A flagged row
has the amount that HCM lacks, or is flagged for being left out and has the amount zero. -/
def Standing.Truthful (s : Standing) : Prop :=
  match s.discrepancyAmount with
  | none => s.hasDiscrepancy = false ∧ |s.totalBalance - s.hcmTotalBalance| ≤ 0.01
  | some amount => s.hasDiscrepancy = true
      ∧ (amount = s.totalBalance - s.hcmTotalBalance ∧ 0.001 < amount
        ∨ amount = 0 ∧ |s.totalBalance - s.hcmTotalBalance| ≤ 0.01)

abbrev EmployeeBalance.StandsTrue (b : EmployeeBalance) : Prop := b.standing.Truthful

/-- Every row is balanced and stands true. -/
structure TrueFlags (db : Database) : Prop where
  ledger : LedgerInv db
  rows : ∀ b ∈ db.balances.rows, b.StandsTrue

/-- A row that HCM has no less for, or only noise less. -/
theorem standing_clear {total hcm : ℚ} (h : |total - hcm| ≤ 0.01) :
    Standing.Truthful ⟨total, hcm, false, none⟩ := ⟨rfl, h⟩

theorem standing_level (total : ℚ) : Standing.Truthful ⟨total, total, false, none⟩ :=
  standing_clear (by norm_num)

theorem standing_flagged {total hcm : ℚ} (h : 0.001 < total - hcm) :
    Standing.Truthful ⟨total, hcm, true, some (total - hcm)⟩ := ⟨rfl, .inl ⟨rfl, h⟩⟩

/-! ## The three writers -/

/-- The real-time update sets a row true. -/
theorem hcmUpdated_standsTrue (hcmData : HcmData) (now t : ℤ) {b : EmployeeBalance}
    (hlocal : b.localTotal = b.totalBalance) :
    ((hcmUpdated hcmData now b).saveOver t b).StandsTrue := by
  have hsum : b.usedBalance + b.pendingBalance + b.availableBalance = b.totalBalance := hlocal
  show Standing.Truthful ⟨_, _, _, _⟩
  simp only [EmployeeBalance.saveOver, hcmUpdated, hsum]
  by_cases hraise : (0.001 : ℚ) < hcmData.totalBalance - b.totalBalance
  · have hnot : ¬ hcmData.totalBalance - b.totalBalance < -0.001 := by linarith
    simp only [if_pos hraise, if_neg hnot, decide_eq_false hnot]
    exact standing_level _
  · by_cases hflag : hcmData.totalBalance - b.totalBalance < -0.001
    · have habs : |hcmData.totalBalance - b.totalBalance|
          = b.totalBalance - hcmData.totalBalance := by
        rw [abs_of_neg (by linarith)]
        ring
      simp only [if_neg hraise, if_pos hflag, decide_eq_true hflag, habs]
      exact standing_flagged (by linarith)
    · simp only [if_neg hraise, if_neg hflag, decide_eq_false hflag]
      refine standing_clear (abs_le.mpr ⟨?_, ?_⟩)
      · linarith
      · linarith

/-- So does the reconciliation of a record. -/
theorem reconcilePatch_standsTrue (r : HcmRecord) (now t : ℤ) {b : EmployeeBalance}
    (hlocal : b.localTotal = b.totalBalance) :
    ((reconcilePatch r b now).apply t b).StandsTrue := by
  unfold reconcilePatch
  simp only [hlocal]
  by_cases hnoise : |r.totalBalance - b.totalBalance| ≤ 0.01
  · simp only [if_pos hnoise]
    exact standing_clear (by rw [abs_sub_comm]; exact hnoise)
  · by_cases hraise : (0.01 : ℚ) < r.totalBalance - b.totalBalance
    · simp only [if_neg hnoise, if_pos hraise]
      exact standing_level _
    · simp only [if_neg hnoise, if_neg hraise]
      have hless : r.totalBalance - b.totalBalance < -0.01 := by
        by_contra hge
        exact hnoise (abs_le.mpr ⟨not_lt.mp hge, not_lt.mp hraise⟩)
      have habs : |r.totalBalance - b.totalBalance| = b.totalBalance - r.totalBalance := by
        rw [abs_of_neg (by linarith)]
        ring
      show Standing.Truthful ⟨b.totalBalance, r.totalBalance, true, some _⟩
      rw [habs]
      exact standing_flagged (by linarith)

/-- The safety for rows that are left out keeps a row true. -/
theorem missingPatch_standsTrue (now t : ℤ) {b : EmployeeBalance} (h : b.StandsTrue) :
    ((missingPatch b now).apply t b).StandsTrue := by
  show Standing.Truthful ⟨b.totalBalance, b.hcmTotalBalance, true,
    some (b.discrepancyAmount.getD 0)⟩
  unfold EmployeeBalance.StandsTrue Standing.Truthful EmployeeBalance.standing at h
  cases hamount : b.discrepancyAmount with
  | none =>
      simp only [hamount] at h
      exact ⟨rfl, .inr ⟨rfl, h.2⟩⟩
  | some amount =>
      simp only [hamount] at h
      exact ⟨rfl, h.2⟩

/-! ## The transactions leave the columns alone -/

/-- Every row stands to HCM as some row did. -/
def StandingKept (w w' : World) : Prop :=
  ∀ b' ∈ w'.db.balances.rows, ∃ b ∈ w.db.balances.rows, b'.standing = b.standing

instance : IsPreorder World StandingKept where
  refl _ b hb := ⟨b, hb, rfl⟩
  trans w w' w'' h h' b'' hb'' := by
    obtain ⟨b', hb', heq'⟩ := h' b'' hb''
    obtain ⟨b, hb, heq⟩ := h b' hb'
    exact ⟨b, hb, heq'.trans heq⟩

theorem standingKept_of_balances {w w' : World} (h : w'.db.balances = w.db.balances) :
    StandingKept w w' :=
  fun b hb => ⟨b, h ▸ hb, rfl⟩

/-- The statement does not write balances. -/
def Stmt.keepsBalances : Stmt → Bool
  | .saveBalance _ | .insertBalance _ | .updateBalance _ _ => false
  | _ => true

theorem Stmt.exec_balances {o : Stmt} {st : Stamp} {db db' : Database} {r : o.Res}
    (ho : o.keepsBalances) (h : o.exec st db = .ok (r, db')) : db'.balances = db.balances := by
  have hinsert : ∀ {x : TimeOffRequest}, db.insertRequest x = .ok db' →
      db'.balances = db.balances := by
    intro x hins
    unfold Database.insertRequest at hins
    split at hins
    · cases hins
      rfl
    · cases hins
  cases o with
  | saveBalance e => cases ho
  | insertBalance n => cases ho
  | updateBalance id p => cases ho
  | saveRequest e =>
      simp only [Stmt.exec] at h
      split at h
      · cases h
        rfl
      · cases hins : db.insertRequest e with
        | error x => simp [hins, Except.map] at h
        | ok db₁ =>
            simp only [hins, Except.map, Except.ok.injEq, Prod.mk.injEq] at h
            obtain ⟨-, rfl⟩ := h
            exact hinsert hins
  | insertRequest n => exact (Stmt.exec_insertRequest h).2.2.1
  | insertRecord n => exact (Stmt.exec_insertRecord h).2.2.1
  | updateRequest id p =>
      cases h
      rfl
  | _ => exact congrArg Database.balances (Stmt.exec_read rfl h)

section carries
variable {employeeId locationId : String} {leaveType : LeaveType}

theorem carries_stmt {o : Stmt} (ho : o.keepsBalances) :
    (Tx.stmt o).Carries StandingKept execTx := by
  intro w r w' h
  obtain ⟨db', hexec, rfl⟩ := Tx.stmt_returns.mp h
  exact standingKept_of_balances (Stmt.exec_balances ho hexec)

theorem carries_now : Tx.now.Carries StandingKept execTx := by
  intro w r w' h
  obtain ⟨-, rfl⟩ := Tx.now_returns.mp h
  exact standingKept_of_balances rfl

theorem carries_sqlNumber (x : Option ℚ) :
    (sqlNumber x : Tx ℚ).Carries StandingKept execTx := by
  cases x with
  | none => exact Script.carries_fail _
  | some q => exact Script.carries_done q

/-- A row that was read is saved with other day columns. -/
theorem standingKept_save {w w' : World} {b e e' : EmployeeBalance}
    (h : (Tx.stmt (.saveBalance e)).Returns execTx w e' w') (hb : b ∈ w.db.balances.rows)
    (hid : e.id = b.id) (hsame : e.standing = b.standing) : StandingKept w w' := by
  obtain ⟨db', hexec, rfl⟩ := Tx.stmt_returns.mp h
  obtain ⟨rfl, hrep, -, -⟩ := Stmt.exec_saveBalance hb hid hexec
  intro x hx
  rcases hrep.mem_iff.mp hx with ⟨hold, -⟩ | rfl
  · exact ⟨x, hold, rfl⟩
  · exact ⟨b, hb, hsame⟩

theorem atomicDeduct_carries (days : Option ℚ) :
    (atomicDeduct employeeId locationId leaveType days).Carries StandingKept execTx := by
  intro w b' w' h
  obtain ⟨x, w₁, hfind, h⟩ := Script.returns_bind.mp h
  obtain ⟨rfl, rfl⟩ := findBalance_returns hfind
  cases hrow : w.db.balances.byUk (employeeId, locationId, leaveType) with
  | none => simp [hrow] at h
  | some b =>
      obtain ⟨hb, -⟩ := Table.byUk_eq_some.mp hrow
      cases days with
      | none => simp [hrow, sqlNumber] at h
      | some d =>
          by_cases hlt : b.availableBalance < d
          · simp [hrow, hlt] at h
          · simp only [hrow, hlt, if_false, Script.bind_eq, Script.pure_eq, Script.bind_done,
              sqlNumber, Option.map_some] at h
            have hkept := standingKept_save h hb rfl rfl
            exact hkept

theorem movePending_carries {missing underflow wanted : String}
    {move : EmployeeBalance → ℚ → EmployeeBalance} (d : ℚ) (hid : ∀ b d, (move b d).id = b.id)
    (hsame : ∀ b d, (move b d).standing = b.standing) :
    (movePending missing underflow wanted move employeeId locationId leaveType d).Carries
      StandingKept execTx := by
  intro w b' w' h
  obtain ⟨x, w₁, hfind, h⟩ := Script.returns_bind.mp h
  obtain ⟨rfl, rfl⟩ := findBalance_returns hfind
  cases hrow : w.db.balances.byUk (employeeId, locationId, leaveType) with
  | none => simp [hrow] at h
  | some b =>
      obtain ⟨hb, -⟩ := Table.byUk_eq_some.mp hrow
      by_cases hlt : b.pendingBalance < d
      · simp [hrow, hlt] at h
      · simp only [hrow, hlt, if_false] at h
        have hkept := standingKept_save h hb (hid b d) (hsame b d)
        exact hkept

theorem assertNoneOverlaps_carries (startDate endDate : String) (l : List TimeOffRequest) :
    (assertNoneOverlaps startDate endDate l).Carries StandingKept execTx := by
  induction l with
  | nil => exact Script.carries_done ()
  | cons existing rest ih => exact Script.carries_ite (Script.carries_fail _) ih

theorem createTransaction_carries (env : Env) (dto : CreateTimeOffRequestDto) (k hash : String)
    (days : Option ℚ) :
    (createTransaction env dto k hash days).Carries StandingKept execTx := by
  refine Script.carries_bind ?_ fun _ => Script.carries_bind ?_ fun _ =>
    Script.carries_bind (atomicDeduct_carries days) fun _ =>
      Script.carries_bind (carries_sqlNumber _) fun _ =>
        Script.carries_bind (carries_stmt rfl) fun _ => Script.carries_bind carries_now fun _ =>
          Script.carries_bind (carries_stmt rfl) fun saved => Script.carries_done _
  · exact Script.carries_bind (carries_stmt rfl) fun _ => Script.carries_done ()
  · exact Script.carries_bind (carries_stmt rfl) fun active => assertNoneOverlaps_carries _ _ active

theorem settlement_carries (s : Settlement) (requestId : Id) :
    (s.transaction requestId).Carries StandingKept execTx := by
  rw [Settlement.transaction_eq]
  refine Script.carries_bind ?_ fun r => Script.carries_bind ?_ fun _ =>
    Script.carries_bind carries_now fun _ => Script.carries_bind (carries_stmt rfl) fun r' =>
      Script.carries_bind ?_ fun _ => Script.carries_bind ?_ fun _ => Script.carries_done r'
  · refine Script.carries_bind (carries_stmt rfl) fun found => ?_
    cases found with
    | none => exact Script.carries_fail _
    | some x => exact Script.carries_done x
  · exact Script.carries_ite (Script.carries_done ()) (Script.carries_fail _)
  · cases s with
    | approve a => exact movePending_carries _ (fun _ _ => rfl) fun _ _ => rfl
    | reject a reason => exact movePending_carries _ (fun _ _ => rfl) fun _ _ => rfl
    | cancel reason => exact movePending_carries _ (fun _ _ => rfl) fun _ _ => rfl
  · cases s with
    | approve a =>
        intro w u w' h
        obtain rfl := Tx.setImmediate_returns.mp h
        exact standingKept_of_balances rfl
    | reject a reason => exact Script.carries_done ()
    | cancel reason => exact Script.carries_done ()

end carries

/-! ## Runs -/

/-- The operations of the ledger, and a whole batch of numeric records. -/
inductive SyncedOp where
  | ledger (op : LedgerOp) (fates : List Fate)
  | batch (payload : List HcmRecord)

def syncedStep (env : Env) (w : World) : SyncedOp → Option World
  | .ledger op fates => ledgerStep env w (op, fates)
  | .batch payload => some (batchResult payload w).2

variable {env : Env} {w w' : World}

theorem TrueFlags.of_kept (h : TrueFlags w.db) (hledger : LedgerInv w'.db)
    (hkept : StandingKept w w') : TrueFlags w'.db := by
  refine ⟨hledger, fun b' hb' => ?_⟩
  obtain ⟨b, hb, heq⟩ := hkept b' hb'
  unfold EmployeeBalance.StandsTrue
  rw [heq]
  exact h.rows b hb

/-- A row was added that stands true. -/
theorem TrueFlags.of_added (h : TrueFlags w.db) (hledger : LedgerInv w'.db) {b : EmployeeBalance}
    (hadded : w.db.balances.Added w'.db.balances b) (hb : b.StandsTrue) : TrueFlags w'.db := by
  refine ⟨hledger, fun x hx => ?_⟩
  rcases hadded.mem_iff.mp hx with hold | rfl
  · exact h.rows x hold
  · exact hb

/-- A row was rewritten and stands true. -/
theorem TrueFlags.of_replaced (h : TrueFlags w.db) (hledger : LedgerInv w'.db)
    {b b' : EmployeeBalance} (hrep : w.db.balances.Replaced w'.db.balances b b')
    (hb : b'.StandsTrue) : TrueFlags w'.db := by
  refine ⟨hledger, fun x hx => ?_⟩
  rcases hrep.mem_iff.mp hx with ⟨hold, -⟩ | rfl
  · exact h.rows x hold
  · exact hb

theorem lifecycleStep_standing {l : LifecycleOp × List Fate}
    (hstep : lifecycleStep env w l = some w') : StandingKept w w' := by
  have hbody : ∀ {body : Tx TimeOffRequest} {attempt res v v'},
      body.Carries StandingKept execTx → execTransaction attempt body v = some (res, v') →
      StandingKept v v' := by
    intro body attempt res v v' hcarries hexec
    rcases (execTransaction_cases hexec).2 with ⟨a, -, -, hret⟩ | ⟨e, -, hdb⟩
    · exact hcarries v a v' hret
    · exact standingKept_of_balances (congrArg Database.balances hdb)
  obtain ⟨op, fates⟩ := l
  cases op with
  | createRequest dto k =>
      obtain ⟨⟨res, w₁⟩, hrun, rfl⟩ := Option.map_eq_some_iff.mp hstep
      refine Svc.alone_keeps (I := StandingKept w) ?_ createRequest_asks (Std.Refl.refl w) hrun
      intro fate o r v v' ho hkept hexec
      refine IsTrans.trans w v v' hkept ?_
      rcases (createStep ho hexec).2 with hdb | ⟨d, b, b', req, rec, hd, hvalid, hres, rfl, hc⟩
      · exact standingKept_of_balances (congrArg Database.balances hdb)
      · exact hbody (createTransaction_carries _ _ _ _ _) hexec
  | settle s id =>
      obtain ⟨⟨res, w₁⟩, hrun, rfl⟩ := Option.map_eq_some_iff.mp hstep
      refine Svc.alone_keeps (I := StandingKept w) ?_ (settlement_asks s id) (Std.Refl.refl w) hrun
      rintro fate o r v v' rfl hkept hexec
      exact IsTrans.trans w v v' hkept (hbody (settlement_carries s id) hexec)
  | tick ms =>
      cases hstep
      exact standingKept_of_balances rfl

/-- A call alone that ends after inserting a row level with HCM. -/
theorem TrueFlags.of_open {α : Type} {n : NewBalance} {f : EmployeeBalance → Svc α} {v : World}
    {fates fates' : List Fate} {res : Except Exception α} (h : TrueFlags v.db)
    (hledger : LedgerInv w'.db) (hlevel : n.hcmTotalBalance = n.totalBalance)
    (hf : ∀ b w₁, (f b).run execAlone (w₁, fates) = some (res, w', fates') → w' = w₁)
    (hrun : ((Svc.stmt (.insertBalance n)).bind f).run execAlone (v, fates)
      = some (res, w', fates')) : TrueFlags w'.db := by
  rcases alone_stmt hrun with ⟨b, db', hexec, hrest⟩ | ⟨e, -, heq⟩
  · obtain rfl := hf b _ hrest
    obtain ⟨hb, hadded, -, -⟩ := Stmt.exec_insertBalance hexec
    refine TrueFlags.of_added (w := v) h hledger hadded ?_
    rw [hb]
    show Standing.Truthful ⟨n.totalBalance, n.hcmTotalBalance, false, none⟩
    rw [hlevel]
    exact standing_level _
  · cases heq
    exact h

theorem upsertBalance_trueFlags {e l : String} {t : LeaveType} {total : ℚ} {fates : List Fate}
    {res : Except Exception SerializedBalance} (h : TrueFlags w.db) (hledger : LedgerInv w'.db)
    (halone : (upsertBalance env e l t total).alone fates w = some (res, w')) :
    TrueFlags w'.db := by
  obtain ⟨⟨res', w₂, fates'⟩, hrun, heq⟩ := Option.map_eq_some_iff.mp halone
  obtain ⟨rfl, rfl⟩ := Prod.mk.inj heq
  replace hrun := alone_findBalance hrun
  cases hrow : w.db.balances.byUk (e, l, t) with
  | some b =>
      rw [hrow] at hrun
      cases alone_now hrun
      exact h
  | none =>
      rw [hrow] at hrun
      refine TrueFlags.of_open (v := { w with uuid := w.uuid + 1 }) h hledger rfl ?_
        (alone_now hrun)
      intro b w₁ hdone
      exact (congrArg (fun x => x.2.1) (Option.some.inj (alone_now hdone))).symm

theorem applyHcmRealTimeUpdate_trueFlags {e l : String} {t : LeaveType} {data : HcmData}
    {attempt : Attempt} {res : Except Exception (Option EmployeeBalance)} (h : TrueFlags w.db)
    (hledger : LedgerInv w'.db)
    (hrun : execTransaction attempt (applyHcmRealTimeUpdate e l t data) w = some (res, w')) :
    TrueFlags w'.db := by
  rcases (execTransaction_cases hrun).2 with ⟨x, -, -, hret⟩ | ⟨err, -, hdb⟩
  · obtain ⟨found, w₂, hfind, hret⟩ := Script.returns_bind.mp hret
    obtain ⟨rfl, rfl⟩ := findBalance_returns hfind
    cases hrow : w.db.balances.byUk (e, l, t) with
    | none =>
        rw [hrow] at hret
        obtain ⟨-, rfl⟩ := Script.returns_done.mp hret
        exact h
    | some b =>
        obtain ⟨hb, -⟩ := Table.byUk_eq_some.mp hrow
        rw [hrow] at hret
        obtain ⟨now, w₃, hnow, hret⟩ := Script.returns_bind.mp hret
        obtain ⟨rfl, rfl⟩ := Tx.now_returns.mp hnow
        obtain ⟨saved, w₄, hsave, hret⟩ := Script.returns_bind.mp hret
        obtain ⟨-, rfl⟩ := Script.returns_done.mp hret
        obtain ⟨db', hexec, rfl⟩ := Tx.stmt_returns.mp hsave
        have hid : (hcmUpdated data w.clock b).id = b.id := rfl
        obtain ⟨rfl, hrep, -, -⟩ := Stmt.exec_saveBalance hb hid hexec
        exact h.of_replaced hledger hrep
          (hcmUpdated_standsTrue data _ _ (h.ledger.localTotal hb))
  · exact hdb ▸ h

theorem reconcileRecord_trueFlags {r : HcmRecord} {fates : List Fate}
    {res : Except Exception Bool} (h : TrueFlags w.db) (hledger : LedgerInv w'.db)
    (halone : (reconcileRecord r).alone fates w = some (res, w')) : TrueFlags w'.db := by
  obtain ⟨⟨res', w₂, fates'⟩, hrun, heq⟩ := Option.map_eq_some_iff.mp halone
  obtain ⟨rfl, rfl⟩ := Prod.mk.inj heq
  replace hrun := alone_findBalance hrun
  cases hrow : w.db.balances.byUk (r.employeeId, r.locationId, r.leaveType) with
  | none =>
      rw [hrow] at hrun
      refine TrueFlags.of_open (v := { w with uuid := w.uuid + 1 }) h hledger rfl ?_
        (alone_now hrun)
      intro b w₁ hdone
      cases hdone
      rfl
  | some b =>
      obtain ⟨hb, -⟩ := Table.byUk_eq_some.mp hrow
      rw [hrow] at hrun
      rcases alone_stmt (alone_now hrun) with ⟨u, db', hexec, hrest⟩ | ⟨e, hexec, -⟩
      · cases hrest
        obtain ⟨hrep, -, -⟩ := Stmt.exec_updateBalance hb hexec
        exact h.of_replaced hledger hrep
          (reconcilePatch_standsTrue r _ _ (h.ledger.localTotal hb))
      · simp [Stmt.exec] at hexec

/-- **One operation on balances** keeps the flags true. -/
theorem balanceStep_trueFlags {l : BalanceOp × List Fate} (hstep : balanceStep env w l = some w')
    (h : TrueFlags w.db) : TrueFlags w'.db := by
  have hledger := balanceStep_inv hstep h.ledger
  obtain ⟨op, fates⟩ := l
  cases op with
  | upsertBalance e l t total =>
      obtain ⟨⟨res, w₁⟩, halone, rfl⟩ := Option.map_eq_some_iff.mp hstep
      exact upsertBalance_trueFlags h hledger halone
  | applyHcmRealTimeUpdate e l t data =>
      obtain ⟨⟨res, w₁⟩, hrun, rfl⟩ := Option.map_eq_some_iff.mp hstep
      exact applyHcmRealTimeUpdate_trueFlags h hledger hrun
  | reconcileRecord r =>
      obtain ⟨⟨res, w₁⟩, halone, rfl⟩ := Option.map_eq_some_iff.mp hstep
      exact reconcileRecord_trueFlags h hledger halone

/-! ## A batch -/

theorem ReconcileCase.trueFlags {r : HcmRecord} {x : Except Exception Bool × World}
    (hcase : ReconcileCase r w x) (h : TrueFlags w.db) : TrueFlags x.2.db := by
  have hledger := hcase.ledgerInv h.ledger
  cases hcase with
  | @updated b changed hrow =>
      obtain ⟨hb, -⟩ := Table.byUk_eq_some.mp hrow
      have hrep : w.db.balances.Replaced
          (w.db.updateBalance b.id (reconcilePatch r b w.clock) w.clock).balances b
          ((reconcilePatch r b w.clock).apply w.clock b) := by
        simp only [Database.updateBalance]
        exact Table.replaced_modify hb
      have hstands := reconcilePatch_standsTrue r w.clock w.clock (h.ledger.localTotal hb)
      exact TrueFlags.of_replaced h hledger hrep hstands
  | opened hmissing hadded =>
      exact h.of_added hledger hadded (standing_level r.totalBalance)
  | refused hmissing hused => exact h

/-- Each row that is left out is flagged as it was read. -/
theorem foldl_flagged_trueFlags (rows : List EmployeeBalance) {s : BatchTotals × World}
    (hrows : ∀ row ∈ rows, row ∈ s.2.db.balances.rows) (hnd : (rows.map EmployeeBalance.id).Nodup)
    (h : TrueFlags s.2.db) : TrueFlags (rows.foldl flagged s).2.db := by
  induction rows generalizing s with
  | nil => exact h
  | cons row rest ih =>
      obtain ⟨hnew, hrest⟩ := List.nodup_cons.mp hnd
      have hmem := hrows row List.mem_cons_self
      refine ih ?_ hrest ?_
      · intro x hx
        refine mem_updateBalance.mpr ⟨x, hrows x (List.mem_cons_of_mem row hx), ?_⟩
        rw [if_neg]
        intro hid
        exact hnew (hid ▸ List.mem_map_of_mem hx)
      · refine ⟨h.ledger.of_update fun b _ _ => .inl (missingPatch_account row b _ _), ?_⟩
        intro x hx
        obtain ⟨b, hb, rfl⟩ := mem_updateBalance.mp hx
        split
        · rename_i hid
          obtain rfl := Table.eq_of_pk hb hmem hid
          exact missingPatch_standsTrue _ _ (h.rows b hb)
        · exact h.rows b hb

theorem batchResult_trueFlags (payload : List HcmRecord) (h : TrueFlags w.db) :
    TrueFlags (batchResult payload w).2.db := by
  have hloop : TrueFlags (payload.foldl processed ({}, w)).2.db :=
    foldl_processed_keeps (I := fun s => TrueFlags s.2.db)
      (fun _ _ _ hI hcase => hcase.trueFlags hI) payload h
  refine foldl_flagged_trueFlags _ ?_ ?_ hloop
  · intro row hrow
    exact (List.mem_filter.mp hrow).1
  · exact List.Nodup.sublist (List.Sublist.map _ List.filter_sublist)
      (payload.foldl processed ({}, w)).2.db.balances.pk_nodup

/-! ## Any time -/

theorem syncedStep_trueFlags {op : SyncedOp} (hstep : syncedStep env w op = some w')
    (h : TrueFlags w.db) : TrueFlags w'.db := by
  cases op with
  | ledger op fates =>
      cases op with
      | lifecycle op =>
          exact h.of_kept (lifecycleStep_inv hstep h.ledger) (lifecycleStep_standing hstep)
      | balance op => exact balanceStep_trueFlags hstep h
  | batch payload =>
      cases hstep
      exact batchResult_trueFlags payload h

theorem trueFlags_empty : TrueFlags Database.empty :=
  ⟨ledgerInv_empty, fun b hb => by cases hb⟩

/-- **Flags tell the truth**: after any sequence of creates, settlements, openings, real-time
updates, reconciled records and whole batches, a row that is not flagged agrees with the HCM
total it had last but for noise, and a flagged row has as its amount what HCM lacks, or zero
where it was only left out. -/
theorem discrepancies_truthful (env : Env) (clock : ℤ) (ops : List SyncedOp) (w : World)
    (h : run (syncedStep env) (World.initial clock) ops = some w) :
    ∀ b ∈ w.db.balances.rows,
      (b.hasDiscrepancy = true ↔ b.discrepancyAmount ≠ none)
        ∧ (b.hasDiscrepancy = false → |b.totalBalance - b.hcmTotalBalance| ≤ 0.01)
        ∧ ∀ amount, b.discrepancyAmount = some amount →
          amount = b.totalBalance - b.hcmTotalBalance ∧ 0.001 < amount
            ∨ amount = 0 ∧ |b.totalBalance - b.hcmTotalBalance| ≤ 0.01 := by
  have hflags : TrueFlags w.db :=
    run_induct (I := fun w => TrueFlags w.db) (fun _ _ _ hI hstep => syncedStep_trueFlags hstep hI)
      trueFlags_empty h
  intro b hb
  have hrow := hflags.rows b hb
  unfold EmployeeBalance.StandsTrue Standing.Truthful EmployeeBalance.standing at hrow
  cases hamount : b.discrepancyAmount with
  | none =>
      simp only [hamount] at hrow
      simp [hrow.1, hrow.2]
  | some amount =>
      simp only [hamount] at hrow
      simp [hrow.1, hrow.2]

/-- HCM has two days less than the row, of which two are reserved. -/
theorem discrepancies_truthful_lower : ∃ w,
    run (syncedStep .default) (World.initial 0)
        [.ledger (seed 10).1 [], .ledger (.lifecycle (.createRequest sampleDto "key-1")) [],
          .batch [⟨"EMP001", "LOC-NYC", .vacation, 8, none⟩]] = some w
      ∧ (∀ b ∈ w.db.balances.rows,
        (b.hasDiscrepancy = true ↔ b.discrepancyAmount ≠ none)
          ∧ (b.hasDiscrepancy = false → |b.totalBalance - b.hcmTotalBalance| ≤ 0.01)
          ∧ ∀ amount, b.discrepancyAmount = some amount →
            amount = b.totalBalance - b.hcmTotalBalance ∧ 0.001 < amount
              ∨ amount = 0 ∧ |b.totalBalance - b.hcmTotalBalance| ≤ 0.01)
      ∧ w.db.balances.rows.map (fun b => b.discrepancyAmount) = [some 2] := by
  have h : ((run (syncedStep .default) (World.initial 0)
      [.ledger (seed 10).1 [], .ledger (.lifecycle (.createRequest sampleDto "key-1")) [],
        .batch [⟨"EMP001", "LOC-NYC", .vacation, 8, none⟩]]).map fun w =>
      w.db.balances.rows.map fun b => b.discrepancyAmount) = some [some 2] := by
    decide +kernel
  obtain ⟨w, hw, hrows⟩ := Option.map_eq_some_iff.mp h
  exact ⟨w, hw, discrepancies_truthful .default 0 _ w hw, hrows⟩

end LeaveLedger
