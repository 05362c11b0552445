import LeaveLedger.Idempotency.Pool

/-!
# Idempotency — Replay of a committed create

A create that comes back with the key and payload of a committed one. Its
record is still there and carries its hash, so the idempotency check
answers with the stored body until the record expires. The check of the
start date runs before it, and what it accepted once it rejects after
midnight.
-/

namespace LeaveLedger

open Js Lib

/-- `createRequest(dto, k)`, run to its end from `w`, answers `body` and changes
nothing but the ids that are used up. -/
def Replays (env : Env) (dto : CreateTimeOffRequestDto) (k : String) (body : SerializedRequest)
    (w : World) : Prop :=
  ∀ fates, ∃ u, (createRequest env dto k).alone fates w = some (.ok body, { w with uuid := u })

variable {env : Env} {dto : CreateTimeOffRequestDto} {k : String} {w : World}
  {rec : IdempotencyRecord}

/-- The record answers for a payload: it is live and carries the hash. -/
structure Live (k hash : String) (w : World) (rec : IdempotencyRecord) : Prop where
  stored : rec ∈ w.db.records.rows
  key : rec.idempotencyKey = k
  hash : rec.requestHash = hash
  live : w.clock ≤ rec.expiresAt

/-- The check answers with the body of a live record. -/
theorem checkIdempotency_live {e hash : String} (h : Live k hash w rec) (fates : List Fate) :
    (checkIdempotency k e hash).run execAlone (w, fates)
      = some (.ok (some rec.responseBody), ({ w with uuid := w.uuid + 1 }, fates)) := by
  have hfind : w.db.records.byUk k = some rec := Table.byUk_eq_some.mpr ⟨h.stored, h.key⟩
  have hexec : (Stmt.findRecord k).exec w.stamp w.db = .ok (some rec, w.db) :=
    congrArg (fun x => Except.ok (x, w.db)) hfind
  unfold checkIdempotency
  rw [Script.bind_eq, run_alone_stmt, hexec]
  show (if rec.expiresAt < w.clock then _ else _ : Svc (Option SerializedRequest)).run execAlone
    _ = _
  rw [if_neg (not_lt.mpr h.live), if_neg (not_not.mpr h.hash)]
  rfl

/-- A create whose payload has a live record: its start date alone decides
between the stored body and an error. -/
theorem createRequest_live (hvalid : ValidInput dto k) (h : Live k (requestHashOf env dto) w rec)
    (fates : List Fate) :
    (createRequest env dto k).alone fates w
      = if isNotInPast w.clock dto.startDate then
          some (.ok rec.responseBody, { w with uuid := w.uuid + 1 })
        else some (.error (unprocessable .invalidDateRange
          "startDate cannot be in the past"), w) := by
  have hstart : (createRequest env dto k).run execAlone (w, fates)
      = (if !isNotInPast w.clock dto.startDate then
            .fail (unprocessable .invalidDateRange "startDate cannot be in the past")
          else if endsBeforeStart dto then
            .fail (unprocessable .invalidDateRange "endDate must be on or after startDate")
          else createValidated env dto k : Svc SerializedRequest).run execAlone (w, fates) := by
    unfold createRequest
    rw [if_neg hvalid.1]
    rfl
  unfold Svc.alone
  rw [hstart]
  cases isNotInPast w.clock dto.startDate with
  | false => rfl
  | true =>
      have hcheck := checkIdempotency_live (e := dto.employeeId) h fates
      have hrest : (createValidated env dto k).run execAlone (w, fates)
          = some (.ok rec.responseBody, ({ w with uuid := w.uuid + 1 }, fates)) := by
        unfold createValidated
        rw [Script.bind_eq, Script.run_bind, hcheck]
        rfl
      rw [hvalid.2]
      simp only [Bool.not_true, Bool.false_eq_true, if_false, if_true]
      rw [hrest]
      rfl

/-- The record of a committed create answers for its payload as long as it is
live, whatever happens in between. -/
theorem live_of_committed {s₁ s₂ s₃ : Pool} {i : ℕ} {fate : Fate} {t : Thread}
    {ls : List PoolLabel} (hinv : PoolInv env s₁) (ht : s₁.threads[i]? = some t)
    (hcall : t.call = .create dto k) (hstep : poolStep env s₁ (.step i fate) = some s₂)
    (hold : rec ∉ s₁.db.records.rows) (hnew : rec ∈ s₂.db.records.rows)
    (hrun : run (poolStep env) s₂ ls = some s₃) (hlive : s₃.world.clock ≤ rec.expiresAt) :
    ValidInput dto k ∧ Live k (requestHashOf env dto) s₃.world rec := by
  have hlater := (run_extends (poolStep_inv hinv hstep) hrun).records rec hnew
  cases (poolStep_effect hinv hstep).2 with
  | created j fate' t' dto' k' d b b' r rec' hl ht' hcall' hd hvalid hc =>
      obtain ⟨rfl, -⟩ := PoolLabel.step.inj hl
      rw [ht] at ht'
      cases ht'
      rw [hcall] at hcall'
      obtain ⟨rfl, rfl⟩ := Call.create.inj hcall'
      rcases hc.records.mem_iff.mp hnew with hmem | rfl
      · exact absurd hmem hold
      · obtain ⟨id, hrec⟩ := hc.record
        exact ⟨hvalid, hlater, by rw [hrec]; rfl, by rw [hrec]; rfl, hlive⟩
  | updated hext hrec hback => exact absurd (hrec ▸ hnew) hold

/-- **A committed create is replayed exactly while its start date is not in the
past.** After any run, the commit of a create that stores its record, and
any run after it, at a clock not after the expiry of the record. -/
theorem create_replays_iff (env : Env) (clock : ℤ) (ls ls' : List PoolLabel) (s₁ s₂ s₃ : Pool)
    (i : ℕ) (fate : Fate) (t : Thread) (dto : CreateTimeOffRequestDto) (k : String)
    (rec : IdempotencyRecord)
    (hreach : run (poolStep env) (Pool.initial clock) ls = some s₁)
    (ht : s₁.threads[i]? = some t) (hcall : t.call = .create dto k)
    (hcommit : poolStep env s₁ (.step i fate) = some s₂)
    (hold : rec ∉ s₁.db.records.rows) (hnew : rec ∈ s₂.db.records.rows)
    (hafter : run (poolStep env) s₂ ls' = some s₃) (hlive : s₃.world.clock ≤ rec.expiresAt) :
    Replays env dto k rec.responseBody s₃.world
      ↔ isNotInPast s₃.world.clock dto.startDate = true := by
  obtain ⟨hvalid, hrec⟩ :=
    live_of_committed (poolInv_run hreach) ht hcall hcommit hold hnew hafter hlive
  constructor
  · intro h
    obtain ⟨u, hu⟩ := h []
    rw [createRequest_live hvalid hrec] at hu
    by_contra hpast
    rw [if_neg hpast] at hu
    cases hu
  · intro hdate fates
    refine ⟨s₃.world.uuid + 1, ?_⟩
    rw [createRequest_live hvalid hrec, if_pos hdate]

/-- Noon of the day the sample payload starts on. -/
def noonOfStart : ℤ := 1894017600000

/-- A create up to the commit of its transaction. -/
def createUpToCommit : List PoolLabel :=
  [openRow 10, .call (.create sampleDto "key-1")] ++ List.replicate 5 (.step 0 {})

/-- The create commits at noon, and the clock moves on by `ms`. -/
theorem committed_at_noon (ms : ℕ) : ∃ s₁ s₂ t rec,
    run (poolStep .default) (Pool.initial noonOfStart) createUpToCommit = some s₁
    ∧ s₁.threads[0]? = some t ∧ t.call = .create sampleDto "key-1"
    ∧ poolStep .default s₁ (.step 0 {}) = some s₂
    ∧ rec ∉ s₁.db.records.rows ∧ rec ∈ s₂.db.records.rows
    ∧ rec.expiresAt = noonOfStart + 86400000
    ∧ run (poolStep .default) s₂ [.tick ms]
      = some { s₂ with world := { s₂.world with clock := noonOfStart + ms } } := by
  have h : (run (poolStep .default) (Pool.initial noonOfStart) createUpToCommit).bind (fun s₁ =>
      (poolStep .default s₁ (.step 0 {})).map fun s₂ =>
        ((s₁.threads[0]?).map Thread.call, s₁.db.records.rows,
          s₂.db.records.rows.map IdempotencyRecord.expiresAt, s₂.world.clock))
      = some (some (.create sampleDto "key-1"), [], [noonOfStart + 86400000], noonOfStart) := by
    decide +kernel
  obtain ⟨s₁, h₁, h⟩ := Option.bind_eq_some_iff.mp h
  obtain ⟨s₂, h₂, h⟩ := Option.map_eq_some_iff.mp h
  obtain ⟨hcall, h⟩ := Prod.mk.inj h
  obtain ⟨hnone, h⟩ := Prod.mk.inj h
  obtain ⟨hrec, hclock⟩ := Prod.mk.inj h
  obtain ⟨t, ht, hcall⟩ := Option.map_eq_some_iff.mp hcall
  obtain ⟨rec, hrow, hexp⟩ := List.map_eq_singleton_iff.mp hrec
  refine ⟨s₁, s₂, t, rec, h₁, ht, hcall, h₂, by rw [hnone]; simp, by rw [hrow]; simp, hexp, ?_⟩
  rw [← hclock]
  rfl

/-- Not every create is replayed until its record expires: after midnight the
start date is in the past. -/
theorem create_replay_rejected_after_midnight :
    ¬ ∀ (env : Env) (clock : ℤ) (ls ls' : List PoolLabel) (s₁ s₂ s₃ : Pool) (i : ℕ) (fate : Fate)
        (t : Thread) (dto : CreateTimeOffRequestDto) (k : String) (rec : IdempotencyRecord),
      run (poolStep env) (Pool.initial clock) ls = some s₁ →
      s₁.threads[i]? = some t → t.call = .create dto k →
      poolStep env s₁ (.step i fate) = some s₂ →
      rec ∉ s₁.db.records.rows → rec ∈ s₂.db.records.rows →
      run (poolStep env) s₂ ls' = some s₃ → s₃.world.clock ≤ rec.expiresAt →
      Replays env dto k rec.responseBody s₃.world := by
  intro h
  obtain ⟨s₁, s₂, t, rec, h₁, ht, hcall, h₂, hold, hnew, hexp, h₃⟩ := committed_at_noon 50400000
  have hlive : noonOfStart + (50400000 : ℕ) ≤ rec.expiresAt := by rw [hexp]; decide
  have hreplays := h _ _ _ _ s₁ s₂ _ 0 {} t sampleDto "key-1" rec h₁ ht hcall h₂ hold hnew h₃ hlive
  obtain ⟨hvalid, hrec⟩ :=
    live_of_committed (poolInv_run h₁) ht hcall h₂ hold hnew h₃ hlive
  have hpast : isNotInPast (noonOfStart + (50400000 : ℕ)) sampleDto.startDate ≠ true := by
    decide +kernel
  obtain ⟨u, hu⟩ := hreplays []
  rw [createRequest_live hvalid hrec, if_neg hpast] at hu
  cases hu

/-- An hour before that midnight the start date is not past, and the create is replayed. -/
theorem create_replays_same_day : ∃ (w : World) (rec : IdempotencyRecord),
    w.clock = noonOfStart + 39600000 ∧ w.clock ≤ rec.expiresAt
      ∧ isNotInPast w.clock sampleDto.startDate = true
      ∧ Replays .default sampleDto "key-1" rec.responseBody w := by
  obtain ⟨s₁, s₂, t, rec, h₁, ht, hcall, h₂, hold, hnew, hexp, h₃⟩ := committed_at_noon 39600000
  have hlive : noonOfStart + (39600000 : ℕ) ≤ rec.expiresAt := by rw [hexp]; decide
  have htoday : isNotInPast (noonOfStart + (39600000 : ℕ)) sampleDto.startDate = true := by
    decide +kernel
  exact ⟨_, rec, rfl, hlive, htoday, (create_replays_iff .default noonOfStart _ _ s₁ s₂ _ 0 {} t
    sampleDto "key-1" rec h₁ ht hcall h₂ hold hnew h₃ hlive).mpr htoday⟩

end LeaveLedger
