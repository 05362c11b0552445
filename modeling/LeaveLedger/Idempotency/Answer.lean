import LeaveLedger.Idempotency.Pool

/-!
# Idempotency — What a create answers

Does the body that a create returns belong to its payload? A stored body
belongs to the payload its record was made for, and the hash tells payloads
apart. Only the lookup of a request by its key alone, in the recovery of a
failed transaction, can bring back a request of another payload.
-/

namespace LeaveLedger

open Js Lib

/-! ## The hash tells payloads apart -/

/-- The payloads agree in the columns a request is made of. -/
structure SamePayload (dto dto' : CreateTimeOffRequestDto) : Prop where
  employeeId : dto'.employeeId = dto.employeeId
  locationId : dto'.locationId = dto.locationId
  leaveType : dto'.leaveType = dto.leaveType
  startDate : dto'.startDate = dto.startDate
  endDate : dto'.endDate = dto.endDate

/-- The field names of a payload are no array indices. -/
theorem arrayIndex_field : arrayIndex "employeeId" = none ∧ arrayIndex "locationId" = none
    ∧ arrayIndex "leaveType" = none ∧ arrayIndex "startDate" = none ∧ arrayIndex "endDate" = none
    ∧ arrayIndex "notes" = none := by
  decide +kernel

/-- The order of the field names. -/
theorem keyLE_field : keyLE "employeeId" "endDate" ∧ keyLE "endDate" "leaveType"
    ∧ ¬ keyLE "leaveType" "endDate" ∧ keyLE "leaveType" "locationId"
    ∧ ¬ keyLE "locationId" "leaveType" ∧ ¬ keyLE "locationId" "endDate"
    ∧ keyLE "locationId" "notes" ∧ keyLE "locationId" "startDate" ∧ keyLE "leaveType" "startDate"
    ∧ keyLE "leaveType" "notes" ∧ keyLE "endDate" "notes" ∧ ¬ keyLE "startDate" "endDate"
    ∧ ¬ keyLE "startDate" "notes" := by
  decide +kernel

/-- The payload with its keys sorted. -/
theorem sortObjectKeys_toJson (dto : CreateTimeOffRequestDto) :
    sortObjectKeys dto.toJson = .obj ([("employeeId", .str dto.employeeId),
        ("endDate", .str dto.endDate), ("leaveType", .str dto.leaveType.text),
        ("locationId", .str dto.locationId)]
      ++ (match dto.notes with
        | some n => [("notes", .str n)]
        | none => [])
      ++ [("startDate", .str dto.startDate)]) := by
  unfold CreateTimeOffRequestDto.toJson
  cases dto.notes with
  | none => simp [sortObjectKeys, sortFields, setProperty, keyLE_field, arrayIndex_field]
  | some n => simp [sortObjectKeys, sortFields, setProperty, keyLE_field, arrayIndex_field]

theorem samePayload_of_sorted {dto dto' : CreateTimeOffRequestDto}
    (h : sortObjectKeys dto.toJson = sortObjectKeys dto'.toJson) : SamePayload dto dto' := by
  rw [sortObjectKeys_toJson, sortObjectKeys_toJson] at h
  cases hn : dto.notes with
  | none =>
      cases hn' : dto'.notes with
      | none =>
          simp [hn, hn'] at h
          obtain ⟨he, hend, ht, hl, hs⟩ := h
          exact ⟨he.symm, hl.symm, (LeaveType.text_injective ht).symm, hs.symm, hend.symm⟩
      | some n' => simp [hn, hn'] at h
  | some n =>
      cases hn' : dto'.notes with
      | none => simp [hn, hn'] at h
      | some n' =>
          simp [hn, hn'] at h
          obtain ⟨he, hend, ht, hl, -, hs⟩ := h
          exact ⟨he.symm, hl.symm, (LeaveType.text_injective ht).symm, hs.symm, hend.symm⟩

/-! ## Bodies that belong to a payload -/

/-- The body has the values of the payload. -/
structure BodyOf (dto : CreateTimeOffRequestDto) (body : SerializedRequest) : Prop where
  employeeId : body.employeeId = dto.employeeId
  locationId : body.locationId = dto.locationId
  leaveType : body.leaveType = dto.leaveType
  startDate : body.startDate = dto.startDate
  endDate : body.endDate = dto.endDate

instance (dto : CreateTimeOffRequestDto) (body : SerializedRequest) :
    Decidable (BodyOf dto body) :=
  decidable_of_iff (body.employeeId = dto.employeeId ∧ body.locationId = dto.locationId
      ∧ body.leaveType = dto.leaveType ∧ body.startDate = dto.startDate
      ∧ body.endDate = dto.endDate)
    ⟨fun ⟨he, hl, ht, hs, hend⟩ => ⟨he, hl, ht, hs, hend⟩,
      fun h => ⟨h.employeeId, h.locationId, h.leaveType, h.startDate, h.endDate⟩⟩

/-- The body answers the payload: it has its values, and so has a stored
request. -/
def Answered (dto : CreateTimeOffRequestDto) (db : Database) (body : SerializedRequest) : Prop :=
  BodyOf dto body ∧ ∃ r ∈ db.requests.rows, BodyOf dto (serializeRequest r)

section
variable {dto dto' : CreateTimeOffRequestDto} {db db' : Database} {body : SerializedRequest}
  {r r' : TimeOffRequest}

theorem BodyOf.of_samePayload (h : BodyOf dto' body) (hsame : SamePayload dto dto') :
    BodyOf dto body :=
  ⟨h.employeeId.trans hsame.employeeId, h.locationId.trans hsame.locationId,
    h.leaveType.trans hsame.leaveType, h.startDate.trans hsame.startDate,
    h.endDate.trans hsame.endDate⟩

theorem BodyOf.of_sameRequest (h : BodyOf dto (serializeRequest r)) (hsame : SameRequest r r') :
    BodyOf dto (serializeRequest r') :=
  ⟨hsame.employeeId.trans h.employeeId, hsame.locationId.trans h.locationId,
    hsame.leaveType.trans h.leaveType, hsame.startDate.trans h.startDate,
    hsame.endDate.trans h.endDate⟩

theorem Answered.of_samePayload (h : Answered dto' db body) (hsame : SamePayload dto dto') :
    Answered dto db body := by
  obtain ⟨hbody, r, hr, hrow⟩ := h
  exact ⟨hbody.of_samePayload hsame, r, hr, hrow.of_samePayload hsame⟩

theorem Answered.extends (h : Answered dto db body) (hext : Extends db db') :
    Answered dto db' body := by
  obtain ⟨hbody, r, hr, hrow⟩ := h
  obtain ⟨r', hr', hsame⟩ := hext.requests r hr
  exact ⟨hbody, r', hr', hrow.of_sameRequest hsame⟩

theorem answered_of_row (hr : r ∈ db.requests.rows) (h : BodyOf dto (serializeRequest r)) :
    Answered dto db (serializeRequest r) := ⟨h, r, hr, h⟩

theorem Created.bodyOf {env : Env} {k hash : String} {w w' : World} {d : ℚ}
    {b b' : EmployeeBalance} {rec : IdempotencyRecord}
    (h : Created env dto k hash w w' d b b' r rec) : BodyOf dto (serializeRequest r) := by
  obtain ⟨id, rfl⟩ := h.request
  exact ⟨rfl, rfl, rfl, rfl, rfl⟩

end

/-! ## The program of a create, given honest answers -/

/-- The answers a create can trust: what comes back as a body for its hash, as
a request of its key or from its own transaction belongs to its payload. -/
def Honest (dto : CreateTimeOffRequestDto) (hash : String) (db : Database) :
    (o : SvcOp) → SvcSig.Res o → Prop
  | .stmt (.findRecord _) => fun x => ∀ rec, x = .ok (some rec) → rec.requestHash = hash →
      Answered dto db rec.responseBody
  | .stmt (.findRequestByKey _) => fun x => ∀ r, x = .ok (some r) →
      Answered dto db (serializeRequest r)
  | .transaction _ => fun x => ∀ r, x = .ok r → Answered dto db (serializeRequest r)
  | _ => fun _ => True

section
variable {env : Env} {dto : CreateTimeOffRequestDto} {db : Database} {k e hash : String}

theorem checkIdempotency_yields : (checkIdempotency k e hash).Yields (Honest dto hash db)
    (fun c => ∀ body, c = some body → Answered dto db body) (fun _ => True) := by
  intro x hx
  cases x with
  | error err => trivial
  | ok existing =>
      cases existing with
      | none =>
          intro body h
          cases h
      | some rec =>
          intro now _
          show Script.Yields _ _ _ (if rec.expiresAt < now then _ else _)
          split
          · intro body h
            cases h
          · split
            · trivial
            · rename_i hhash
              intro body h
              cases h
              exact hx rec rfl (not_not.mp hhash)

theorem recoverAfterConstraint_yields :
    (recoverAfterConstraint k e hash).Yields (Honest dto hash db)
      (fun c => ∀ body, c = some body → Answered dto db body) (fun _ => True) := by
  refine Script.yields_bind checkIdempotency_yields fun cached hcached => ?_
  cases cached with
  | some body => exact hcached
  | none =>
      intro x hx
      cases x with
      | error err => trivial
      | ok found =>
          cases found with
          | none =>
              intro body h
              cases h
          | some r =>
              intro body h
              cases h
              exact hx r rfl

theorem recoverTransient_yields {err : Exception} :
    (recoverTransient k e hash err).Yields (Honest dto hash db) (Answered dto db)
      (fun _ => True) := by
  unfold recoverTransient
  split
  · refine Script.yields_bind recoverAfterConstraint_yields fun recovered h => ?_
    cases recovered with
    | none => trivial
    | some body => exact h body rfl
  · trivial

theorem recoverCreate_yields {err : Exception} :
    (recoverCreate k e hash err).Yields (Honest dto hash db) (Answered dto db)
      (fun _ => True) := by
  unfold recoverCreate
  split
  · refine Script.yields_bind recoverAfterConstraint_yields fun recovered h => ?_
    cases recovered with
    | none => exact recoverTransient_yields
    | some body => exact h body rfl
  · exact recoverTransient_yields

theorem runCreateTransaction_yields {body : Tx TimeOffRequest} {n : ℕ} :
    ∀ left, (runCreateTransaction (Svc.transaction body) n left).Yields (Honest dto hash db)
      (fun r => Answered dto db (serializeRequest r)) (fun _ => True)
  | 0 => by
      intro x hx
      cases x with
      | error err => trivial
      | ok r => exact hx r rfl
  | left + 1 => by
      refine Script.yields_attempt (F := fun _ => True) ?_ fun err _ => ?_
      · intro x hx
        cases x with
        | error err => trivial
        | ok r => exact hx r rfl
      · split
        · trivial
        · exact fun _ _ => runCreateTransaction_yields left

theorem createLocked_yields {days : Option ℚ} :
    (createLocked env dto k hash days).Yields (Honest dto hash db) (Answered dto db)
      (fun _ => True) := by
  refine Script.yields_bind checkIdempotency_yields fun check hcheck => ?_
  cases check with
  | some body => exact hcheck body rfl
  | none =>
      refine Script.yields_attempt (F := fun _ => True) ?_ fun err _ => recoverCreate_yields
      refine Script.yields_bind (runCreateTransaction_yields 2) fun created hcreated => ?_
      exact fun _ _ => hcreated

theorem createRequest_yields :
    (createRequest env dto k).Yields (Honest dto (requestHashOf env dto) db) (Answered dto db)
      (fun _ => True) := by
  unfold createRequest
  split
  · trivial
  intro now _
  show Script.Yields _ _ _ (if (!isNotInPast now dto.startDate) = true then _ else _)
  split
  · trivial
  split
  · trivial
  refine Script.yields_bind checkIdempotency_yields fun check hcheck => ?_
  cases check with
  | some body => exact hcheck body rfl
  | none =>
      intro ticket _ _ _
      exact Script.yields_ensure createLocked_yields fun _ _ => trivial

end

/-! ## Records belong to the payloads they were made for -/

/-- The payloads of the creates of a pool. -/
def Pool.payloads (s : Pool) : List Json :=
  s.threads.filterMap fun t => match t.call with
    | .create dto _ => some dto.toJson
    | .settle _ _ => none

theorem mem_payloads {s : Pool} {i : ℕ} {t : Thread} {dto : CreateTimeOffRequestDto} {k : String}
    (ht : s.threads[i]? = some t) (hcall : t.call = .create dto k) :
    dto.toJson ∈ s.payloads := by
  refine List.mem_filterMap.mpr ⟨t, List.mem_of_getElem? ht, ?_⟩
  rw [hcall]

/-- Every record was made for the payload of a call, and its body answers it. -/
def RecordsAnswer (env : Env) (s : Pool) : Prop :=
  ∀ rec ∈ s.db.records.rows, ∃ (i : ℕ) (t : Thread) (dto : CreateTimeOffRequestDto) (k : String),
    s.threads[i]? = some t ∧ t.call = .create dto k ∧ rec.requestHash = requestHashOf env dto
      ∧ Answered dto s.db rec.responseBody

variable {env : Env}

theorem recordsAnswer_step {s s' : Pool} {l : PoolLabel} (hinv : PoolInv env s)
    (hrec : RecordsAnswer env s) (hstep : poolStep env s l = some s') : RecordsAnswer env s' := by
  have hkeep : ∀ {i : ℕ} {t : Thread}, s.threads[i]? = some t →
      ∃ t' : Thread, s'.threads[i]? = some t' ∧ t'.call = t.call := by
    intro i t ht
    obtain ⟨t', ht', hcall, -⟩ := poolStep_thread (Q := fun _ => True) hstep ht trivial
      fun _ _ _ _ _ _ _ _ _ => trivial
    exact ⟨t', ht', hcall⟩
  have hext := (poolStep_effect hinv hstep).2.extends
  -- a record that was there answers as before
  have hold : ∀ rec ∈ s.db.records.rows, ∃ (i : ℕ) (t : Thread)
      (dto : CreateTimeOffRequestDto) (k : String), s'.threads[i]? = some t
      ∧ t.call = .create dto k ∧ rec.requestHash = requestHashOf env dto
      ∧ Answered dto s'.db rec.responseBody := by
    intro rec h
    obtain ⟨i, t, dto, k, ht, hcall, hhash, hans⟩ := hrec rec h
    obtain ⟨t', ht', hcall'⟩ := hkeep ht
    exact ⟨i, t', dto, k, ht', hcall'.trans hcall, hhash, hans.extends hext⟩
  intro rec h
  cases (poolStep_effect hinv hstep).2 with
  | updated _ hsame _ => exact hold rec (hsame ▸ h)
  | created i fate t dto k d b b' r rec' hl ht hcall hd hvalid hc =>
      rcases hc.records.mem_iff.mp h with hmem | rfl
      · exact hold rec hmem
      · obtain ⟨t', ht', hcall'⟩ := hkeep ht
        obtain ⟨id, hnew⟩ := hc.record
        refine ⟨i, t', dto, k, ht', hcall'.trans hcall, by rw [hnew]; rfl, ?_⟩
        have hbody : rec.responseBody = serializeRequest r := by rw [hnew]; rfl
        rw [hbody]
        exact answered_of_row (hc.requests.mem_iff.mpr (Or.inr rfl)) hc.bodyOf

/-! ## A create among others -/

/-- The step of thread `i`, when it is the lookup of a request by its key alone,
finds one with the values of the payload, if it finds one. -/
def LookupMatches (dto : CreateTimeOffRequestDto) (i : ℕ) (s : Pool) (l : PoolLabel) : Prop :=
  ∀ fate t key next r, l = .step i fate → s.threads[i]? = some t →
    t.script = .await (.stmt (.findRequestByKey key)) next → s.db.requests.byUk key = some r →
    BodyOf dto (serializeRequest r)

theorem execSvc_findRequestByKey {fate : Fate} {key : String}
    {x : SvcSig.Res (.stmt (.findRequestByKey key))} {w w' : World}
    (h : execSvc fate (.stmt (.findRequestByKey key)) w = some (x, w')) :
    x = .ok (w.db.requests.byUk key) ∧ w'.db = w.db := by
  simp only [execSvc, Stmt.exec, Option.some.injEq, Prod.mk.injEq] at h
  exact ⟨h.1.symm, by rw [← h.2]⟩

theorem execSvc_findRecord {fate : Fate} {key : String}
    {x : SvcSig.Res (.stmt (.findRecord key))} {w w' : World}
    (h : execSvc fate (.stmt (.findRecord key)) w = some (x, w')) :
    x = .ok (w.db.records.byUk key) ∧ w'.db = w.db := by
  simp only [execSvc, Stmt.exec, Option.some.injEq, Prod.mk.injEq] at h
  exact ⟨h.1.symm, by rw [← h.2]⟩

/-- **One step of a create** gets an honest answer: its database is `s`, and
`s'` is the state the run ends in. -/
theorem step_honest {s s' : Pool} {i : ℕ} {t : Thread} {dto : CreateTimeOffRequestDto} {k : String}
    {fate : Fate} {o : SvcOp} {next : SvcSig.Res o → Svc SerializedRequest} {x : SvcSig.Res o}
    {w : World} (hrec : RecordsAnswer env s) (hasks : CreateAsks env dto k o)
    (ht : s.threads[i]? = some t) (hscript : t.script = .await o next)
    (hexec : execSvc fate o s.world = some (x, w)) (hlater : Extends w.db s'.db)
    (hhash : ∀ {j : ℕ} {t' : Thread} {dto' : CreateTimeOffRequestDto} {k' : String},
      s.threads[j]? = some t' → t'.call = .create dto' k' →
      requestHashOf env dto' = requestHashOf env dto → SamePayload dto dto')
    (hlookup : LookupMatches dto i s (.step i fate)) :
    Honest dto (requestHashOf env dto) s'.db o x := by
  cases o with
  | stmt o =>
      cases o with
      | findRecord key =>
          obtain ⟨rfl, hdb⟩ := execSvc_findRecord hexec
          intro rec hx heq
          obtain ⟨hmem, -⟩ := Table.byUk_eq_some.mp (Except.ok.inj hx)
          obtain ⟨j, t', dto', k', ht', hcall', hhash', hans⟩ := hrec rec hmem
          rw [hdb] at hlater
          exact (hans.of_samePayload (hhash ht' hcall' (hhash'.symm.trans heq))).extends hlater
      | findRequestByKey key =>
          obtain ⟨rfl, hdb⟩ := execSvc_findRequestByKey hexec
          intro r hx
          have hfound := Except.ok.inj hx
          obtain ⟨hmem, -⟩ := Table.byUk_eq_some.mp hfound
          have hbody := hlookup fate t key next r rfl ht hscript hfound
          rw [hdb] at hlater
          exact (answered_of_row hmem hbody).extends hlater
      | _ => trivial
  | transaction body =>
      intro r hx
      obtain ⟨-, rfl⟩ : ValidInput dto k ∧ body = _ := hasks
      rcases (execTransaction_cases hexec).2 with ⟨req, rfl, -, hret⟩ | ⟨e, rfl, -⟩
      · obtain ⟨d, b, b', rec, -, hc⟩ := createTransaction_returns hret
        cases hx
        exact (answered_of_row (hc.requests.mem_iff.mpr (Or.inr rfl)) hc.bodyOf).extends hlater
      · cases hx
  | _ => trivial

/-- A create that starts, or goes on, towards an answer goes on so to the end of
the run, when its lookups match. -/
theorem run_answers {ls : List PoolLabel} {s s' : Pool} {i : ℕ} {dto : CreateTimeOffRequestDto}
    {k : String} (hinv : PoolInv env s) (hrec : RecordsAnswer env s)
    (hrun : run (poolStep env) s ls = some s') (hH : env.hashing.NoCollision s'.payloads)
    (hlast : ∃ t, s'.threads[i]? = some t ∧ t.call = .create dto k)
    (hmeets : Meets (poolStep env) (LookupMatches dto i) s ls)
    (hthread : ∀ t, s.threads[i]? = some t → t.script.Yields
      (Honest dto (requestHashOf env dto) s'.db) (Answered dto s'.db) fun _ => True) :
    ∀ t, s'.threads[i]? = some t → t.script.Yields
      (Honest dto (requestHashOf env dto) s'.db) (Answered dto s'.db) fun _ => True := by
  induction ls generalizing s with
  | nil =>
      cases hrun
      exact hthread
  | cons l ls ih =>
      obtain ⟨s₁, h₁, h₂⟩ := run_cons_some hrun
      have hinv₁ := poolStep_inv hinv h₁
      have hlater : Extends s₁.db s'.db := run_extends hinv₁ h₂
      refine ih hinv₁ (recordsAnswer_step hinv hrec h₁) h₂ (hmeets.2 s₁ h₁) fun t₁ ht₁ => ?_
      obtain ⟨tEnd, htEnd, hcallEnd⟩ := hlast
      cases ht : s.threads[i]? with
      | none =>
          have hcall : t₁.call = .create dto k := (run_call h₂ ht₁ htEnd).trans hcallEnd
          rw [poolStep_new_thread h₁ ht ht₁, hcall]
          exact createRequest_yields
      | some t =>
          have hcall : t.call = .create dto k := (run_call hrun ht htEnd).trans hcallEnd
          -- no two payloads of the run share a hash
          have hhash : ∀ {j : ℕ} {t' : Thread} {dto' : CreateTimeOffRequestDto} {k' : String},
              s.threads[j]? = some t' → t'.call = .create dto' k' →
              requestHashOf env dto' = requestHashOf env dto → SamePayload dto dto' := by
            intro j t' dto' k' ht' hcall' heq
            obtain ⟨t'', ht'', hcall''⟩ := run_exists_thread hrun ht'
            exact samePayload_of_sorted (hH _ (mem_payloads htEnd hcallEnd) _
              (mem_payloads ht'' (hcall''.trans hcall')) heq.symm)
          have hnext : ∀ fate o next x w, l = .step i fate → t.script = .await o next →
              execSvc fate o s.world = some (x, w) → s₁.world = w →
              (next x).Yields (Honest dto (requestHashOf env dto) s'.db) (Answered dto s'.db)
                fun _ => True := by
            intro fate o next x w hl hscript hexec hw
            have hasks := (hinv.threads t (List.mem_of_getElem? ht)).asks
            have hyields := hthread t ht
            rw [hscript] at hasks hyields
            rw [hcall] at hasks
            exact hyields x (step_honest hrec hasks.1 ht hscript hexec (hw ▸ hlater) hhash
              (hl ▸ hmeets.1))
          obtain ⟨t', ht', -, hyields⟩ := poolStep_thread h₁ ht (hthread t ht) hnext
          rw [ht₁] at ht'
          cases ht'
          exact hyields

/-- **A create answers its payload exactly when its lookups by key alone do.**
In every run, for every create that has returned normally: its body and a
stored request have the values of its payload if and only if every request
that its recovery found by the key alone had them. -/
theorem create_answers_iff (env : Env) (clock : ℤ) (ls : List PoolLabel) (s : Pool) (i : ℕ)
    (t : Thread) (dto : CreateTimeOffRequestDto) (k : String) (body : SerializedRequest)
    (hrun : run (poolStep env) (Pool.initial clock) ls = some s)
    (ht : s.threads[i]? = some t) (hcall : t.call = .create dto k) (hdone : t.script = .done body)
    (hH : env.hashing.NoCollision s.payloads) :
    (BodyOf dto body ∧ ∃ r ∈ s.db.requests.rows, BodyOf dto (serializeRequest r))
      ↔ Meets (poolStep env) (LookupMatches dto i) (Pool.initial clock) ls := by
  constructor
  · rintro ⟨hbody, -⟩
    rw [meets_iff]
    intro pre l post s₁ hls hpre fate t₁ key next r hl ht₁ hscript hfound
    subst hls hl
    obtain ⟨s₀, h₀, hpost⟩ := run_append_some hrun
    rw [hpre] at h₀
    cases h₀
    obtain ⟨s₂, hstep, hrest⟩ := run_cons_some hpost
    -- what the call does with the request it found is to return it
    obtain ⟨t₀, o, next', x, w, ht₀, hscript', hexec, rfl⟩ := poolStep_step hstep
    rw [ht₁] at ht₀
    cases ht₀
    rw [hscript] at hscript'
    cases hscript'
    obtain ⟨rfl, -⟩ := execSvc_findRequestByKey hexec
    rw [hfound] at hrest
    have hok := (poolInv_run hpre).threads t₁ (List.mem_of_getElem? ht₁)
    have hanswers := hok.answers
    rw [hscript] at hanswers
    have hlt : i < s₁.threads.length := (List.getElem?_eq_some_iff.mp ht₁).1
    obtain ⟨t', ht', -, hends⟩ := run_thread (Q := EndsWith (serializeRequest r))
      (fun o k r h => h.next r) hrest (List.getElem?_set_self hlt) (hanswers.1 r)
    rw [ht] at ht'
    cases ht'
    rw [hdone] at hends
    rw [← hends.eq_of_done]
    exact hbody
  · intro hmeets
    have hinitial : RecordsAnswer env (Pool.initial clock) := fun rec h => by cases h
    have hyields := run_answers (poolInv_initial env clock) hinitial hrun hH ⟨t, ht, hcall⟩ hmeets
      (fun t' ht' => by cases ht') t ht
    rw [hdone] at hyields
    exact hyields

/-- The payload of a create. -/
def Call.payload? : Call → Option Json
  | .create dto _ => some dto.toJson
  | .settle _ _ => none

theorem payloads_of_calls {s : Pool} {cs : List Call} (h : s.threads.map Thread.call = cs) :
    s.payloads = cs.filterMap Call.payload? := by
  rw [← h, List.filterMap_map]
  unfold Pool.payloads
  congr 1

/-- Another payload for the key of the sample one. -/
def otherDto : CreateTimeOffRequestDto :=
  { sampleDto with startDate := "2030-02-04", endDate := "2030-02-05" }

/-- A create commits, its record expires, and its key is used again. -/
def reusedKey : List PoolLabel :=
  [openRow 10, .call (.create sampleDto "key-1")] ++ List.replicate 8 (.step 0 {})
    ++ [.tick 86400001, .call (.create otherDto "key-1")] ++ List.replicate 12 (.step 1 {})

/-- The second create answers with the request of the first. -/
theorem reusedKey_outcome : ∃ s t body,
    run (poolStep .default) (Pool.initial 0) reusedKey = some s
    ∧ s.threads[1]? = some t ∧ t.call = .create otherDto "key-1" ∧ t.script = .done body
    ∧ body.startDate = "2030-01-07" ∧ s.payloads = [sampleDto.toJson, otherDto.toJson] := by
  have h : (run (poolStep .default) (Pool.initial 0) reusedKey).bind (fun s =>
      (s.threads[1]?).bind fun t => match t.script with
        | .done body => some (t.call, body.startDate, s.threads.map Thread.call)
        | _ => none)
      = some (.create otherDto "key-1", "2030-01-07",
          [.create sampleDto "key-1", .create otherDto "key-1"]) := by
    decide +kernel
  obtain ⟨s, hs, h⟩ := Option.bind_eq_some_iff.mp h
  obtain ⟨t, ht, h⟩ := Option.bind_eq_some_iff.mp h
  cases hscript : t.script with
  | done body =>
      rw [hscript] at h
      simp only [Option.some.injEq, Prod.mk.injEq] at h
      obtain ⟨hcall, hdate, hcalls⟩ := h
      exact ⟨s, t, body, hs, ht, hcall, hscript, hdate, payloads_of_calls hcalls⟩
  | fail e => rw [hscript] at h; cases h
  | await o k => rw [hscript] at h; cases h

/-- Not every create that returns answers its payload. -/
theorem create_answers_another_payload :
    ¬ ∀ (env : Env) (clock : ℤ) (ls : List PoolLabel) (s : Pool) (i : ℕ) (t : Thread)
        (dto : CreateTimeOffRequestDto) (k : String) (body : SerializedRequest),
      run (poolStep env) (Pool.initial clock) ls = some s →
      s.threads[i]? = some t → t.call = .create dto k → t.script = .done body →
      env.hashing.NoCollision s.payloads →
      BodyOf dto body ∧ ∃ r ∈ s.db.requests.rows, BodyOf dto (serializeRequest r) := by
  intro h
  obtain ⟨s, t, body, hs, ht, hcall, hdone, hdate, hpayloads⟩ := reusedKey_outcome
  have hH : Env.default.hashing.NoCollision s.payloads := by
    rw [hpayloads]
    have hne : hashObject Hashing.plain sampleDto.toJson
        ≠ hashObject Hashing.plain otherDto.toJson := by
      decide +kernel
    intro a ha b hb heq
    simp only [List.mem_cons, List.not_mem_nil, or_false] at ha hb
    rcases ha with rfl | rfl <;> rcases hb with rfl | rfl
    · rfl
    · exact absurd heq hne
    · exact absurd heq.symm hne
    · rfl
  have hbody := (h _ _ _ s 1 t otherDto "key-1" body hs ht hcall hdone hH).1
  have hstart := hbody.startDate
  rw [hdate] at hstart
  exact absurd hstart (by decide)

/-- A create commits and is cancelled, its record expires, and the same create comes again. -/
def cancelledKey : List PoolLabel :=
  [openRow 10, .call (.create sampleDto "key-1")] ++ List.replicate 8 (.step 0 {})
    ++ [.call (.settle (.cancel none) 8), .step 1 {}, .tick 86400001,
      .call (.create sampleDto "key-1")] ++ List.replicate 12 (.step 2 {})

/-- The theorem at that run: the second create looks its key up and finds the cancelled request,
which has the values of the payload. -/
theorem create_answers_cancelled : ∃ (s : Pool) (body : SerializedRequest),
    run (poolStep .default) (Pool.initial 0) cancelledKey = some s
    ∧ s.threads[2]?.bind (fun t => t.script.answer?) = some body ∧ body.status = .cancelled
    ∧ (BodyOf sampleDto body ∧ ∃ r ∈ s.db.requests.rows, BodyOf sampleDto (serializeRequest r))
    ∧ Meets (poolStep .default) (LookupMatches sampleDto 2) (Pool.initial 0) cancelledKey := by
  have h : (run (poolStep .default) (Pool.initial 0) cancelledKey).bind (fun s =>
      (s.threads[2]?).bind fun t => t.script.answer?.map fun body =>
        (t.call, s.threads.map Thread.call, body.status,
          decide (s.db.requests.rows.map serializeRequest = [body]),
          decide (BodyOf sampleDto body)))
      = some (.create sampleDto "key-1",
          [.create sampleDto "key-1", .settle (.cancel none) 8, .create sampleDto "key-1"],
          .cancelled, true, true) := by
    decide +kernel
  obtain ⟨s, hs, h⟩ := Option.bind_eq_some_iff.mp h
  obtain ⟨t, ht, h⟩ := Option.bind_eq_some_iff.mp h
  obtain ⟨body, hbody, h⟩ := Option.map_eq_some_iff.mp h
  simp only [Prod.mk.injEq, decide_eq_true_eq] at h
  obtain ⟨hcall, hcalls, hstatus, hrows, hvalues⟩ := h
  obtain ⟨r, hr, rfl⟩ := List.map_eq_singleton_iff.mp hrows
  have hanswers : BodyOf sampleDto (serializeRequest r)
      ∧ ∃ x ∈ s.db.requests.rows, BodyOf sampleDto (serializeRequest x) :=
    ⟨hvalues, r, by rw [hr]; exact List.mem_cons_self, hvalues⟩
  have hH : Env.default.hashing.NoCollision s.payloads := by
    rw [payloads_of_calls hcalls]
    intro a ha b hb _
    simp only [List.filterMap_cons, Call.payload?, List.filterMap_nil, List.mem_cons,
      List.not_mem_nil, or_false, or_self] at ha hb
    rw [ha, hb]
  refine ⟨s, serializeRequest r, hs, by rw [ht]; exact hbody, hstatus, hanswers, ?_⟩
  exact (create_answers_iff .default 0 cancelledKey s 2 t sampleDto "key-1" _ hs ht hcall
    (Script.answer?_eq_some.mp hbody) hH).mp hanswers

end LeaveLedger
