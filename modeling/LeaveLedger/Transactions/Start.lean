import LeaveLedger.Ledger.Reconciliation

/-!
# Transactions — Where a run starts

What the operations of the ledger, each made alone, leave behind: a record
has an id that is used up and the key of a request.
-/

namespace LeaveLedger

open Js Lib

/-- The records have ids that are used up. -/
def World.RecordIds (w : World) : Prop := ∀ rec ∈ w.db.records.rows, rec.id < w.uuid

/-- Ids are used up one after the other, and a record takes one of them. -/
structure Ages (w w' : World) : Prop where
  uuid : w.uuid ≤ w'.uuid
  ids : w.RecordIds → w'.RecordIds

theorem Ages.refl (w : World) : Ages w w := ⟨Nat.le_refl _, id⟩

theorem Ages.trans {w w' w'' : World} (h : Ages w w') (h' : Ages w' w'') : Ages w w'' :=
  ⟨h.uuid.trans h'.uuid, fun hw => h'.ids (h.ids hw)⟩

theorem ages_of_records {w w' : World} (hrecords : w'.db.records = w.db.records)
    (huuid : w.uuid ≤ w'.uuid) : Ages w w' := by
  refine ⟨huuid, fun h rec hrec => ?_⟩
  rw [hrecords] at hrec
  exact (h rec hrec).trans_le huuid

theorem insertBalance_records {db db' : Database} {b : EmployeeBalance}
    (h : db.insertBalance b = .ok db') : db'.records = db.records := by
  unfold Database.insertBalance at h
  split at h
  · cases h
    rfl
  · cases h

theorem insertRequest_records {db db' : Database} {r : TimeOffRequest}
    (h : db.insertRequest r = .ok db') : db'.records = db.records := by
  unfold Database.insertRequest at h
  split at h
  · cases h
    rfl
  · cases h

/-- A statement that writes no record, or adds one with the next id. -/
theorem Stmt.exec_records {o : Stmt} {st : Stamp} {db db' : Database} {r : o.Res}
    (h : o.exec st db = .ok (r, db')) :
    db'.records = db.records ∨ ∃ rec, db.records.Added db'.records rec ∧ rec.id = st.uuid := by
  cases o with
  | insertRecord n =>
      obtain ⟨hrow, hadded, -, -⟩ := Stmt.exec_insertRecord h
      exact .inr ⟨r, hadded, by rw [hrow]; rfl⟩
  | insertBalance n => exact .inl (Stmt.exec_insertBalance h).2.2.2
  | insertRequest n => exact .inl (Stmt.exec_insertRequest h).2.2.2
  | saveBalance e =>
      left
      simp only [Stmt.exec] at h
      split at h
      · cases h
        rfl
      · cases hins : db.insertBalance e with
        | error x => simp [hins, Except.map] at h
        | ok db₁ =>
            simp only [hins, Except.map, Except.ok.injEq, Prod.mk.injEq] at h
            obtain ⟨-, rfl⟩ := h
            exact insertBalance_records hins
  | saveRequest e =>
      left
      simp only [Stmt.exec] at h
      split at h
      · cases h
        rfl
      · cases hins : db.insertRequest e with
        | error x => simp [hins, Except.map] at h
        | ok db₁ =>
            simp only [hins, Except.map, Except.ok.injEq, Prod.mk.injEq] at h
            obtain ⟨-, rfl⟩ := h
            exact insertRequest_records hins
  | updateBalance id p => cases h; exact .inl rfl
  | updateRequest id p => cases h; exact .inl rfl
  | _ => exact .inl (congrArg Database.records (Stmt.exec_read rfl h))

theorem execTx_ages {o : TxOp} {r : TxSig.Res o} {w w' : World}
    (h : execTx o w = some (r, w')) : Ages w w' := by
  cases o with
  | now => cases h; exact .refl w
  | setImmediate c => cases h; exact ages_of_records rfl (Nat.le_refl _)
  | stmt o =>
      simp only [execTx, Option.some.injEq] at h
      cases hexec : o.exec w.stamp w.db with
      | error e =>
          rw [hexec] at h
          cases h
          exact .refl w
      | ok x =>
          rw [hexec] at h
          cases h
          rcases Stmt.exec_records hexec with hsame | ⟨rec, hadded, hid⟩
          · exact ages_of_records hsame (Nat.le_succ _)
          · refine ⟨Nat.le_succ _, fun hw y hy => ?_⟩
            rcases hadded.mem_iff.mp hy with hold | rfl
            · exact Nat.lt_succ_of_lt (hw y hold)
            · rw [hid]
              exact Nat.lt_succ_self _

theorem Tx.run_ages {α : Type} (p : Tx α) {w w' : World} {res : Except Exception α}
    (h : p.run execTx w = some (res, w')) : Ages w w' := by
  induction p generalizing w with
  | done a => cases h; exact .refl _
  | fail e => cases h; exact .refl _
  | await o k ih =>
      obtain ⟨⟨r, w₁⟩, h₁, h₂⟩ := Option.bind_eq_some_iff.mp h
      exact (execTx_ages h₁).trans (ih r h₂)

/-- A transaction that is undone has used up ids all the same. -/
theorem execTransaction_ages {α : Type} {attempt : Attempt} {body : Tx α} {w w' : World}
    {res : Except Exception α} (h : execTransaction attempt body w = some (res, w')) :
    Ages w w' := by
  cases attempt with
  | failsAtBegin x => cases h; exact .refl w
  | works =>
      obtain ⟨⟨r, w₁⟩, hrun, h⟩ := Option.map_eq_some_iff.mp h
      have hages := Tx.run_ages body hrun
      cases r with
      | ok a => cases h; exact hages
      | error e => cases h; exact ages_of_records rfl hages.uuid
  | failsAtCommit x =>
      obtain ⟨⟨r, w₁⟩, hrun, h⟩ := Option.map_eq_some_iff.mp h
      have hages := Tx.run_ages body hrun
      cases r with
      | ok a => cases h; exact ages_of_records rfl hages.uuid
      | error e => cases h; exact ages_of_records rfl hages.uuid

theorem execSvc_ages {fate : Fate} {o : SvcOp} {r : SvcSig.Res o} {w w' : World}
    (h : execSvc fate o w = some (r, w')) : Ages w w' := by
  cases o with
  | stmt o => exact execTx_ages (o := .stmt o) h
  | transaction body => exact execTransaction_ages h
  | awaitCreateLock k t =>
      simp only [execSvc] at h
      split at h
      · cases h
        exact .refl w
      · cases h
  | _ => cases h; exact ages_of_records rfl (Nat.le_refl _)

theorem Svc.alone_recordIds {α : Type} {p : Svc α} {P : SvcOp → Prop} (hp : p.Asks P)
    {fates : List Fate} {w w' : World} {res : Except Exception α} (h : w.RecordIds)
    (hrun : p.alone fates w = some (res, w')) : w'.RecordIds :=
  Svc.alone_keeps (fun _ _ _ _ _ _ hw hexec => (execSvc_ages hexec).ids hw) hp h hrun

/-- The records have the keys of requests. -/
def RecordKeys (db : Database) : Prop :=
  ∀ rec ∈ db.records.rows, ∃ r ∈ db.requests.rows, r.idempotencyKey = rec.idempotencyKey

variable {env : Env} {w w' : World}

theorem ledgerStep_recordIds {l : LedgerOp × List Fate} (h : w.RecordIds)
    (hstep : ledgerStep env w l = some w') : w'.RecordIds := by
  obtain ⟨op, fates⟩ := l
  cases op with
  | lifecycle op =>
      cases op with
      | createRequest dto k =>
          obtain ⟨⟨res, w₁⟩, hrun, rfl⟩ := Option.map_eq_some_iff.mp hstep
          exact Svc.alone_recordIds createRequest_asks h hrun
      | settle s id =>
          obtain ⟨⟨res, w₁⟩, hrun, rfl⟩ := Option.map_eq_some_iff.mp hstep
          exact Svc.alone_recordIds (settlement_asks s id) h hrun
      | tick ms => cases hstep; exact h
  | balance op =>
      cases op with
      | upsertBalance e l t total =>
          obtain ⟨⟨res, w₁⟩, hrun, rfl⟩ := Option.map_eq_some_iff.mp hstep
          exact Svc.alone_recordIds upsertBalance_asks h hrun
      | applyHcmRealTimeUpdate e l t data =>
          obtain ⟨⟨res, w₁⟩, hrun, rfl⟩ := Option.map_eq_some_iff.mp hstep
          exact (execTransaction_ages hrun).ids h
      | reconcileRecord r =>
          obtain ⟨⟨res, w₁⟩, hrun, rfl⟩ := Option.map_eq_some_iff.mp hstep
          exact Svc.alone_recordIds reconcileRecord_asks h hrun

theorem ledgerStep_recordKeys {l : LedgerOp × List Fate} (h : RecordKeys w.db)
    (hstep : ledgerStep env w l = some w') : RecordKeys w'.db := by
  obtain ⟨op, fates⟩ := l
  cases op with
  | lifecycle op =>
      refine lifecycleStep_keeps ?_ ?_ hstep h
      · intro dto k w w' d b b' r rec hd hc h x hx
        obtain ⟨i, hr⟩ := hc.request
        obtain ⟨j, hrec⟩ := hc.record
        rcases hc.records.mem_iff.mp hx with hold | rfl
        · obtain ⟨y, hy, hkey⟩ := h x hold
          exact ⟨y, hc.requests.mem_iff.mpr (.inl hy), hkey⟩
        · refine ⟨r, hc.requests.mem_iff.mpr (.inr rfl), ?_⟩
          rw [hr, hrec]
          rfl
      · intro s id w w' r r' b b' hset h x hx
        obtain ⟨y, hy, hkey⟩ := h x (hset.records ▸ hx)
        obtain ⟨y', hy', -, hkey', -⟩ := hset.requests.exists_of_mem hy
        exact ⟨y', hy', hkey'.trans hkey⟩
  | balance op =>
      have hsame : w'.db.requests = w.db.requests ∧ w'.db.records = w.db.records := by
        rcases balanceStep_cases hstep with hdb | hopened | hraised
        · rw [hdb]
          exact ⟨rfl, rfl⟩
        · exact ⟨hopened.requests, hopened.records⟩
        · exact ⟨hraised.requests, hraised.records⟩
      intro x hx
      rw [hsame.1]
      exact h x (hsame.2 ▸ hx)

/-- What the operations of the ledger leave behind. -/
structure Startable (w : World) : Prop where
  ledger : LedgerInv w.db
  recordIds : w.RecordIds
  recordKeys : RecordKeys w.db

theorem startable_run {clock : ℤ} {ls : List (LedgerOp × List Fate)}
    (h : run (ledgerStep env) (World.initial clock) ls = some w) : Startable w := by
  refine run_induct (I := Startable) (fun w l w' hw hstep => ?_) ?_ h
  · exact ⟨ledgerStep_inv hw.ledger hstep, ledgerStep_recordIds hw.recordIds hstep,
      ledgerStep_recordKeys hw.recordKeys hstep⟩
  · refine ⟨ledgerInv_empty, fun rec hrec => ?_, fun rec hrec => ?_⟩
    · cases hrec
    · cases hrec

end LeaveLedger
