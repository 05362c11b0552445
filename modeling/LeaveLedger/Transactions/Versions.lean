import LeaveLedger.Lib.Versions
import LeaveLedger.Sync.Machine
import LeaveLedger.Transactions.Connection

/-!
# Transactions — What a version column says

No statement asks for the version of the row it writes, so a version column
tells the contents of its row apart only as long as nothing is written from
an old copy. The machine here runs any programs of the service one statement
at a time, with their transactions open beside one another. `SavesFresh` is
the exact condition: a save of a copy that is behind its row sets the version
back.
-/

namespace LeaveLedger

open Js Lib

/-- The rows of the second database are those of the first, later. -/
structure Database.Later (db db' : Database) : Prop where
  balances : Lib.Later EmployeeBalance.id EmployeeBalance.version db.balances.rows
    db'.balances.rows
  requests : Lib.Later TimeOffRequest.id TimeOffRequest.version db.requests.rows
    db'.requests.rows
  records : ∀ rec ∈ db.records.rows, rec ∈ db'.records.rows

namespace Database.Later

variable {db db' db'' : Database}

theorem refl (db : Database) : db.Later db := ⟨.refl _, .refl _, fun _ h => h⟩

theorem trans (h : db.Later db') (h' : db'.Later db'') : db.Later db'' :=
  ⟨h.balances.trans h'.balances, h.requests.trans h'.requests,
    fun rec hrec => h'.records rec (h.records rec hrec)⟩

/-- One row rewritten: it stays as it was, or its version is counted on. -/
theorem modify_iff {α κ υ : Type} [DecidableEq κ] {pk : α → κ} {uk : α → υ} {version : α → ℕ}
    {t : Table pk uk} {i : κ} (f : α → α) (hpk : ∀ a, pk (f a) = pk a)
    (huk : ∀ a, uk (f a) = uk a) :
    Lib.Later pk version t.rows (t.modify i f hpk huk).rows
      ↔ ∀ a ∈ t.rows, pk a = i → f a = a ∨ version a < version (f a) := by
  constructor
  · intro h a ha hid
    obtain ⟨a', ha', hsame, hrow⟩ := h a ha
    obtain ⟨x, hx, rfl⟩ := Table.mem_modify.mp ha'
    have hxid : pk x = pk a := by
      split at hsame
      · exact (hpk x).symm.trans hsame
      · exact hsame
    obtain rfl := Table.eq_of_pk hx ha hxid
    rw [if_pos hid] at hrow
    exact hrow
  · intro h a ha
    refine ⟨_, Table.mem_modify.mpr ⟨a, ha, rfl⟩, ?_⟩
    split
    · rename_i hid
      exact ⟨hpk a, h a ha hid⟩
    · exact ⟨rfl, .inl rfl⟩

/-! Where one table changes, only its rows matter. -/

theorem balances_iff {t : Table EmployeeBalance.id EmployeeBalance.key} :
    db.Later { db with balances := t }
      ↔ Lib.Later EmployeeBalance.id EmployeeBalance.version db.balances.rows t.rows :=
  ⟨fun h => h.balances, fun h => ⟨h, .refl _, fun _ hrec => hrec⟩⟩

theorem requests_iff {t : Table TimeOffRequest.id TimeOffRequest.idempotencyKey} :
    db.Later { db with requests := t }
      ↔ Lib.Later TimeOffRequest.id TimeOffRequest.version db.requests.rows t.rows :=
  ⟨fun h => h.requests, fun h => ⟨.refl _, h, fun _ hrec => hrec⟩⟩

theorem of_insertBalance {b : EmployeeBalance} (h : db.insertBalance b = .ok db') :
    db.Later db' := by
  unfold Database.insertBalance at h
  split at h
  · rename_i t ht
    cases h
    exact balances_iff.mpr ((Table.insert?_some ht).1 ▸ .append _ _)
  · cases h

theorem of_insertRequest {r : TimeOffRequest} (h : db.insertRequest r = .ok db') :
    db.Later db' := by
  unfold Database.insertRequest at h
  split at h
  · rename_i t ht
    cases h
    exact requests_iff.mpr ((Table.insert?_some ht).1 ▸ .append _ _)
  · cases h

end Database.Later

/-! ## One statement -/

/-- An entity that is saved is not behind its row. -/
def Stmt.Fresh (db : Database) : Stmt → Prop
  | .saveBalance e => ∀ b ∈ db.balances.rows, b.id = e.id → b.version ≤ e.version
  | .saveRequest e => ∀ r ∈ db.requests.rows, r.id = e.id → r.version ≤ e.version
  | _ => True

instance (db : Database) (o : Stmt) : Decidable (o.Fresh db) := by
  unfold Stmt.Fresh
  split <;> infer_instance

/-- The database after a statement, also when it is refused. -/
def Stmt.after (st : Stamp) (o : Stmt) (db : Database) : Database :=
  match o.exec st db with
  | .ok r => r.2
  | .error _ => db

section
variable {st : Stamp} {db db' : Database} {now : ℤ}

/-- A save leaves its row as it was or counts its version on, unless the entity is behind. -/
theorem saved_later_iff {α : Type} {version : α → ℕ} {e row saved : α}
    (hsame : e = row → saved = row)
    (hversion : e ≠ row →
      version saved = if version e = version row then version row + 1 else version e) :
    (saved = row ∨ version row < version saved) ↔ version row ≤ version e := by
  by_cases heq : e = row
  · exact iff_of_true (.inl (hsame heq)) (heq ▸ Nat.le_refl _)
  have hsaved := hversion heq
  constructor
  · rintro (hkept | hlt)
    · rw [hkept] at hsaved
      split at hsaved <;> omega
    · rw [hsaved] at hlt
      split at hlt <;> omega
  · intro hle
    rw [hsaved]
    split <;> omega

theorem EmployeeBalance.saveOver_later {e b : EmployeeBalance} :
    (e.saveOver now b = b ∨ b.version < (e.saveOver now b).version) ↔ b.version ≤ e.version :=
  saved_later_iff (fun h => by subst h; simp [saveOver]) fun h => by simp [saveOver, h]

theorem TimeOffRequest.saveOver_later {e r : TimeOffRequest} :
    (e.saveOver now r = r ∨ r.version < (e.saveOver now r).version) ↔ r.version ≤ e.version :=
  saved_later_iff (fun h => by subst h; simp [saveOver]) fun h => by simp [saveOver, h]

/-- **One statement**: the rows after it are those before, later, unless it saves an entity that
is behind its row. -/
theorem Stmt.later_after_iff (o : Stmt) : db.Later (o.after st db) ↔ o.Fresh db := by
  cases o with
  | saveBalance e =>
      cases hrow : db.balances.byPk e.id with
      | none =>
          have hfresh : (Stmt.saveBalance e).Fresh db := fun b hb hid =>
            absurd hid (Table.byPk_eq_none.mp hrow b hb)
          refine iff_of_true ?_ hfresh
          simp only [after, exec, hrow]
          cases hins : db.insertBalance e with
          | error x => exact .refl _
          | ok db' => exact .of_insertBalance hins
      | some b =>
          have hafter : (Stmt.saveBalance e).after st db = db.saveBalance e st.now := by
            simp only [after, exec, hrow]
          rw [hafter]
          refine Database.Later.balances_iff.trans
            ((Database.Later.modify_iff (e.saveOver st.now) (fun _ => rfl) fun _ => rfl).trans ?_)
          exact forall₃_congr fun _ _ _ => EmployeeBalance.saveOver_later
  | saveRequest e =>
      cases hrow : db.requests.byPk e.id with
      | none =>
          have hfresh : (Stmt.saveRequest e).Fresh db := fun r hr hid =>
            absurd hid (Table.byPk_eq_none.mp hrow r hr)
          refine iff_of_true ?_ hfresh
          simp only [after, exec, hrow]
          cases hins : db.insertRequest e with
          | error x => exact .refl _
          | ok db' => exact .of_insertRequest hins
      | some r =>
          have hafter : (Stmt.saveRequest e).after st db = db.saveRequest e st.now := by
            simp only [after, exec, hrow]
          rw [hafter]
          refine Database.Later.requests_iff.trans
            ((Database.Later.modify_iff (e.saveOver st.now) (fun _ => rfl) fun _ => rfl).trans ?_)
          exact forall₃_congr fun _ _ _ => TimeOffRequest.saveOver_later
  | updateBalance id p =>
      refine iff_of_true (Database.Later.balances_iff.mpr ?_) trivial
      exact (Database.Later.modify_iff (p.apply st.now) (fun _ => rfl) fun _ => rfl).mpr
        fun b _ _ => .inr (Nat.lt_succ_self b.version)
  | updateRequest id p =>
      refine iff_of_true (Database.Later.requests_iff.mpr ?_) trivial
      exact (Database.Later.modify_iff (p.apply st.now) (fun _ => rfl) fun _ => rfl).mpr
        fun r _ _ => .inr (Nat.lt_succ_self r.version)
  | insertBalance n =>
      refine iff_of_true ?_ trivial
      unfold after
      cases hexec : (Stmt.insertBalance n).exec st db with
      | error x => exact .refl _
      | ok x =>
          obtain ⟨-, hadded, hreq, hrec⟩ := Stmt.exec_insertBalance hexec
          exact ⟨hadded.rows ▸ .append _ _, hreq ▸ .refl _, fun _ h => hrec ▸ h⟩
  | insertRequest n =>
      refine iff_of_true ?_ trivial
      unfold after
      cases hexec : (Stmt.insertRequest n).exec st db with
      | error x => exact .refl _
      | ok x =>
          obtain ⟨-, hadded, hbal, hrec⟩ := Stmt.exec_insertRequest hexec
          exact ⟨hbal ▸ .refl _, hadded.rows ▸ .append _ _, fun _ h => hrec ▸ h⟩
  | insertRecord n =>
      refine iff_of_true ?_ trivial
      unfold after
      cases hexec : (Stmt.insertRecord n).exec st db with
      | error x => exact .refl _
      | ok x =>
          obtain ⟨-, hadded, hbal, hreq⟩ := Stmt.exec_insertRecord hexec
          exact ⟨hbal ▸ .refl _, hreq ▸ .refl _, fun x h => hadded.mem_iff.mpr (.inl h)⟩
  | _ => exact iff_of_true (.refl _) trivial

end

/-! ## Programs beside one another -/

/-- A program of the service and how far it is: between its transactions, or in one, with what
the transaction has written, the latest first, and what the program does with its result. -/
inductive Party where
  | svc (rest : Svc Unit)
  | tx (rest : Tx TimeOffRequest) (undo : List Undo)
      (resume : Except Exception TimeOffRequest → Svc Unit)

structure Interleaving where
  world : World
  parties : List Party

abbrev Interleaving.db (s : Interleaving) : Database := s.world.db

inductive InterleavingLabel where
  /-- a call, a deferred callback, a pass of the worker -/
  | start (p : Svc Unit)
  | step (i : ℕ) (fate : Fate)
  | tick (ms : ℕ)

/-- What a request of a transaction has written. -/
def TxOp.writes (w : World) : (o : TxOp) → TxSig.Res o → List Undo
  | .stmt o, r => o.writes w.clock w.db r
  | .now, _ => []
  | .setImmediate _, _ => []

def World.undo (w : World) (undo : List Undo) : World :=
  { w with db := undo.foldl Database.undo w.db }

/-- One request of a program; its transaction begins, commits or is rolled back. -/
def Party.step (fate : Fate) (w : World) : Party → Option (World × Party)
  | .svc (.await (.transaction body) k) =>
      match fate.attempt with
      | .failsAtBegin e => some (w, .svc (k (.error e.exception)))
      | _ => some (w, .tx body [] k)
  | .svc (.await o k) => (execSvc fate o w).map fun r => (r.2, .svc (k r.1))
  | .svc (.done _) => none
  | .svc (.fail _) => none
  | .tx (.await o k) undo resume => (execTx o w).map fun r =>
      (r.2, .tx (k r.1) (o.writes w r.1 ++ undo) resume)
  | .tx (.done r) undo resume =>
      match fate.attempt with
      | .failsAtCommit e => some (w.undo undo, .svc (resume (.error e.exception)))
      | _ => some (w, .svc (resume (.ok r)))
  | .tx (.fail e) undo resume => some (w.undo undo, .svc (resume (.error e)))

def interleavingStep (s : Interleaving) : InterleavingLabel → Option Interleaving
  | .start p => some { s with parties := s.parties ++ [.svc p] }
  | .step i fate => (s.parties[i]?).bind fun p => (p.step fate s.world).map fun r =>
      ⟨r.1, s.parties.set i r.2⟩
  | .tick ms => some { s with world := { s.world with clock := s.world.clock + ms } }

/-- The statement a program is at. -/
def Party.stmt? : Party → Option Stmt
  | .svc (.await (.stmt o) _) => some o
  | .tx (.await (.stmt o) _) _ _ => some o
  | _ => none

/-- The writes that are taken back when a program goes on. -/
def Party.takesBack (fate : Fate) : Party → List Undo
  | .tx (.done _) undo _ =>
      match fate.attempt with
      | .failsAtCommit _ => undo
      | _ => []
  | .tx (.fail _) undo _ => undo
  | _ => []

/-- No copy that is behind its row is saved. -/
def SavesFresh (s : Interleaving) : InterleavingLabel → Prop
  | .step i _ => ∀ p ∈ s.parties[i]?, ∀ o ∈ p.stmt?, o.Fresh s.db
  | _ => True

instance (s : Interleaving) (l : InterleavingLabel) : Decidable (SavesFresh s l) := by
  unfold SavesFresh
  split <;> infer_instance

theorem savesFresh_step_iff {s : Interleaving} {i : ℕ} {p : Party} {fate : Fate}
    (hp : s.parties[i]? = some p) :
    SavesFresh s (.step i fate) ↔ ∀ o ∈ p.stmt?, o.Fresh s.db := by
  simp only [SavesFresh, hp, Option.mem_some_iff, forall_eq']

/-- No transaction that has written something is rolled back. -/
def KeepsWrites (s : Interleaving) : InterleavingLabel → Prop
  | .step i fate => ∀ p ∈ s.parties[i]?, (p.takesBack fate).isEmpty
  | _ => True

instance (s : Interleaving) (l : InterleavingLabel) : Decidable (KeepsWrites s l) := by
  unfold KeepsWrites
  split <;> infer_instance

/-! ## What one step does -/

variable {w w' : World}

theorem execTx_db {o : Stmt} {r : Except Exception o.Res} (h : execTx (.stmt o) w = some (r, w')) :
    w'.db = o.after w.stamp w.db := by
  simp only [execTx, Option.some.injEq] at h
  unfold Stmt.after
  cases hexec : o.exec w.stamp w.db with
  | error e => rw [hexec] at h; cases h; rfl
  | ok x => rw [hexec] at h; cases h; rfl

/-- Outside a transaction only statements change the tables. -/
theorem execSvc_db {fate : Fate} {o : SvcOp} {r : SvcSig.Res o} (hstmt : ∀ x, o ≠ .stmt x)
    (htx : ∀ body, o ≠ .transaction body) (h : execSvc fate o w = some (r, w')) :
    w'.db = w.db := by
  cases o with
  | stmt o => exact absurd rfl (hstmt o)
  | transaction body => exact absurd rfl (htx body)
  | awaitCreateLock k t =>
      simp only [execSvc] at h
      split at h
      · cases h; rfl
      · cases h
  | _ => cases h; rfl

/-- A step of a program is the statement it is at, unless it takes writes back. -/
theorem Party.step_db {fate : Fate} {p p' : Party} (h : p.step fate w = some (w', p'))
    (hkeeps : (p.takesBack fate).isEmpty) :
    w'.db = (p.stmt?.map fun o => o.after w.stamp w.db).getD w.db := by
  cases p with
  | svc rest =>
      cases rest with
      | done a => cases h
      | fail e => cases h
      | await o k =>
          cases o with
          | stmt o =>
              simp only [Party.step] at h
              obtain ⟨r, hexec, heq⟩ := Option.map_eq_some_iff.mp h
              cases heq
              exact execTx_db (o := o) hexec
          | transaction body =>
              simp only [Party.step] at h
              split at h <;> cases h <;> rfl
          | _ =>
              simp only [Party.step] at h
              obtain ⟨r, hexec, heq⟩ := Option.map_eq_some_iff.mp h
              cases heq
              exact execSvc_db (fun _ => SvcOp.noConfusion) (fun _ => SvcOp.noConfusion) hexec
  | tx rest undo resume =>
      cases rest with
      | done r =>
          cases hattempt : fate.attempt with
          | failsAtCommit e =>
              simp only [Party.takesBack, hattempt, List.isEmpty_iff] at hkeeps
              simp only [Party.step, hattempt, hkeeps, Option.some.injEq, Prod.mk.injEq] at h
              rw [← h.1]
              rfl
          | _ =>
              simp only [Party.step, hattempt, Option.some.injEq, Prod.mk.injEq] at h
              rw [← h.1]
              rfl
      | fail e =>
          simp only [Party.takesBack, List.isEmpty_iff] at hkeeps
          simp only [Party.step, hkeeps, Option.some.injEq, Prod.mk.injEq] at h
          rw [← h.1]
          rfl
      | await o k =>
          simp only [Party.step] at h
          obtain ⟨r, hexec, heq⟩ := Option.map_eq_some_iff.mp h
          cases heq
          cases o with
          | stmt o => exact execTx_db hexec
          | now => cases hexec; rfl
          | setImmediate c => cases hexec; rfl

/-- **One step**: what it makes of the rows is later, unless it saves from a copy that is
behind. -/
theorem later_step_iff {s s' : Interleaving} {l : InterleavingLabel}
    (h : interleavingStep s l = some s') (hkeeps : KeepsWrites s l) :
    s.db.Later s'.db ↔ SavesFresh s l := by
  cases l with
  | start p => cases h; exact iff_of_true (.refl _) trivial
  | tick ms => cases h; exact iff_of_true (.refl _) trivial
  | step i fate =>
      obtain ⟨p, hp, h⟩ := Option.bind_eq_some_iff.mp h
      obtain ⟨⟨w', p'⟩, hstep, rfl⟩ := Option.map_eq_some_iff.mp h
      have hdb := Party.step_db hstep (hkeeps p hp)
      rw [savesFresh_step_iff hp]
      show s.db.Later w'.db ↔ _
      rw [hdb]
      cases p.stmt? with
      | none => exact iff_of_true (.refl _) fun o ho => by cases ho
      | some o =>
          simp only [Option.mem_some_iff, forall_eq']
          exact Stmt.later_after_iff o

/-! ## Runs -/

/-- Between any two moments of the run no row and no record is lost, no version goes down, and
a row that is found with its old version is the same. -/
def VersionsTell (s₀ : Interleaving) (ls : List InterleavingLabel) : Prop :=
  ∀ pre mid post s₁ s₂, ls = pre ++ mid ++ post → run interleavingStep s₀ pre = some s₁ →
    run interleavingStep s₁ mid = some s₂ → s₁.db.Later s₂.db

/-- **Versions tell contents apart** in a run that takes no write back exactly when no step of it
saves a copy that is behind its row. -/
theorem versions_tell_iff {s₀ s : Interleaving} {ls : List InterleavingLabel}
    (hrun : run interleavingStep s₀ ls = some s)
    (hkeeps : Meets interleavingStep KeepsWrites s₀ ls) :
    VersionsTell s₀ ls ↔ Meets interleavingStep SavesFresh s₀ ls := by
  constructor
  · intro hlater
    rw [meets_iff]
    rintro pre l post s₁ rfl hpre
    obtain ⟨s₁', hpre', hrest⟩ := run_append_some hrun
    rw [hpre] at hpre'
    cases hpre'
    obtain ⟨s₂, hstep, -⟩ := run_cons_some hrest
    have hkeep := meets_iff.mp hkeeps pre l post s₁ rfl hpre
    refine (later_step_iff hstep hkeep).mp (hlater pre [l] post s₁ s₂ (by simp) hpre ?_)
    rw [run_cons, hstep]
    rfl
  · rintro hfresh pre mid post s₁ s₂ rfl hpre hmid
    rw [List.append_assoc] at hkeeps hfresh
    have hkeep := ((meets_append hmid).mp ((meets_append hpre).mp hkeeps).2).1
    have hmeets := ((meets_append hmid).mp ((meets_append hpre).mp hfresh).2).1
    have hboth : Meets interleavingStep (fun s l => KeepsWrites s l ∧ SavesFresh s l) s₁ mid :=
      meets_iff.mpr fun pre l post s hls hrun =>
        ⟨meets_iff.mp hkeep pre l post s hls hrun, meets_iff.mp hmeets pre l post s hls hrun⟩
    exact run_meets (I := fun x => s₁.db.Later x.db)
      (fun _ _ _ hI hC hstep => hI.trans ((later_step_iff hstep hC.1).mpr hC.2)) (.refl _) hboth
      hmid

/-- A call, for what it does to the tables. -/
def Svc.program {α : Type} (p : Svc α) : Svc Unit := p.bind fun _ => .done ()

/-- A balance is opened and a request created; its approval and its validation are under way. -/
def underWay : List InterleavingLabel :=
  [.start (Svc.program (upsertBalance .default sampleDto.employeeId sampleDto.locationId
      sampleDto.leaveType 10)), .start (Svc.program (createRequest .default sampleDto "key-1"))]
    ++ List.replicate 4 (.step 0 {}) ++ List.replicate 16 (.step 1 {})
    ++ [.start (Svc.program (approveRequest 8 "MGR001")),
      .start (Callback.script (.notifyHcm 8 sampleDto.employeeId sampleDto.locationId
        sampleDto.leaveType (daysOf sampleDto)))]

/-- The validation is asked for before the approval and noted in the midst of it. -/
def notedAfter : List InterleavingLabel :=
  underWay ++ [.step 3 { answer := validAnswer }] ++ List.replicate 4 (.step 2 {})
    ++ List.replicate 2 (.step 3 {}) ++ List.replicate 4 (.step 2 {})

/-- It is noted when the approval has read the request and has not saved it yet. -/
def notedBefore : List InterleavingLabel :=
  underWay ++ List.replicate 2 (.step 2 {}) ++ List.replicate 3 (.step 3 { answer := validAnswer })
    ++ List.replicate 2 (.step 2 {})

/-- Versions tell contents apart in the first of the two runs, and not in the second, where the
approval sets the version back from 2 to 1. -/
theorem versions_tell_iff_validated :
    (∃ s, run interleavingStep ⟨World.initial 0, []⟩ notedAfter = some s
      ∧ s.db.requests.rows.map (fun r => (r.status, r.hcmSyncStatus, r.version))
        = [(.approved, .success, 3)]
      ∧ Meets interleavingStep SavesFresh ⟨World.initial 0, []⟩ notedAfter
      ∧ VersionsTell ⟨World.initial 0, []⟩ notedAfter)
    ∧ ∃ s, run interleavingStep ⟨World.initial 0, []⟩ notedBefore = some s
      ∧ s.db.requests.rows.map (fun r => (r.status, r.hcmSyncStatus, r.version))
        = [(.approved, .pending, 1)]
      ∧ ¬ Meets interleavingStep SavesFresh ⟨World.initial 0, []⟩ notedBefore
      ∧ ¬ VersionsTell ⟨World.initial 0, []⟩ notedBefore := by
  constructor
  · have h : (run interleavingStep ⟨World.initial 0, []⟩ notedAfter).map (fun s =>
        s.db.requests.rows.map fun r => (r.status, r.hcmSyncStatus, r.version))
        = some [(.approved, .success, 3)] := by
      decide +kernel
    obtain ⟨s, hs, hrows⟩ := Option.map_eq_some_iff.mp h
    have hfresh : Meets interleavingStep SavesFresh ⟨World.initial 0, []⟩ notedAfter := by
      decide +kernel
    exact ⟨s, hs, hrows, hfresh, (versions_tell_iff hs (by decide +kernel)).mpr hfresh⟩
  · have h : (run interleavingStep ⟨World.initial 0, []⟩ notedBefore).map (fun s =>
        s.db.requests.rows.map fun r => (r.status, r.hcmSyncStatus, r.version))
        = some [(.approved, .pending, 1)] := by
      decide +kernel
    obtain ⟨s, hs, hrows⟩ := Option.map_eq_some_iff.mp h
    have hbehind : ¬ Meets interleavingStep SavesFresh ⟨World.initial 0, []⟩ notedBefore := by
      decide +kernel
    exact ⟨s, hs, hrows, hbehind,
      fun htell => hbehind ((versions_tell_iff hs (by decide +kernel)).mp htell)⟩

end LeaveLedger
