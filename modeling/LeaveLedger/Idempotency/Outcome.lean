import LeaveLedger.Ledger.Calls

/-!
# Idempotency — What a call does with an answer

A fact about every point of the programs of the write calls. After the
commit of its transaction, and after it found a request under its key, a
call only schedules its callback, frees its lane and returns that request:
it cannot throw any more and touches no table.
-/

namespace LeaveLedger

open Js Lib

/-- The requests that touch no table and no clock. -/
def Bookkeeping : SvcOp → Prop
  | .setImmediate _ | .releaseCreateLock _ _ => True
  | .stmt _ | .now | .transaction _ | .enqueueCreateLock _ | .awaitCreateLock _ _ | .sleep _
  | .http _ => False

/-- Nothing but bookkeeping is left, and the result is `a`. -/
structure EndsWith {α : Type} (a : α) (p : Svc α) : Prop where
  asks : p.Asks Bookkeeping
  yields : p.Yields (fun _ _ => True) (· = a) (fun _ => False)

namespace EndsWith

variable {α β : Type} {a : α} {b : β}

theorem done (a : α) : EndsWith a (.done a) := ⟨trivial, rfl⟩

theorem bind {p : Svc α} {f : α → Svc β} (hp : EndsWith a p) (hf : EndsWith b (f a)) :
    EndsWith b (p.bind f) := by
  refine ⟨?_, Script.yields_bind hp.yields fun x hx => hx ▸ hf.yields⟩
  have hasks := hp.asks
  have hyields := hp.yields
  clear hp
  induction p with
  | done x => cases hyields; exact hf.asks
  | fail e => trivial
  | await o k ih => exact ⟨hasks.1, fun r => ih r (hasks.2 r) (hyields r trivial)⟩

theorem attempt {p : Svc α} (hp : EndsWith a p) (h : Exception → Svc α) :
    EndsWith a (p.attempt h) := by
  refine ⟨?_, Script.yields_attempt hp.yields fun _ he => he.elim⟩
  have hasks := hp.asks
  have hyields := hp.yields
  clear hp
  induction p with
  | done x => trivial
  | fail e => exact hyields.elim
  | await o k ih => exact ⟨hasks.1, fun r => ih r (hasks.2 r) (hyields r trivial)⟩

theorem ensure {p : Svc α} {fin : Svc Unit} (hp : EndsWith a p) (hfin : EndsWith () fin) :
    EndsWith a (p.ensure fin) :=
  ⟨Script.asks_ensure hp.asks hfin.asks,
    Script.yields_ensure hp.yields (hfin.yields.mono (fun _ _ h => h) (fun _ _ => trivial)
      fun _ h => h)⟩

/-- What is left after an answer still ends with `a`. -/
theorem next {o : SvcOp} {k : SvcSig.Res o → Svc α} (h : EndsWith a (.await o k))
    (r : SvcSig.Res o) : EndsWith a (k r) :=
  ⟨h.asks.2 r, h.yields r trivial⟩

theorem eq_of_done {x : α} (h : EndsWith a (.done x)) : x = a := h.yields

theorem not_fail {e : Exception} (h : EndsWith a (.fail e)) : False := h.yields

end EndsWith

/-- After the commit of a transaction, and after a request was found under a
key, the rest of the script ends with `v` of the request. -/
def Answers {α : Type} (v : TimeOffRequest → α) :
    (o : SvcOp) → (SvcSig.Res o → Svc α) → Prop
  | .transaction _, k => ∀ r, EndsWith (v r) (k (.ok r))
  | .stmt (.findRequestByKey _), k => ∀ r, EndsWith (v r) (k (.ok (some r)))
  | _, _ => True

section
variable {α β : Type} {v : TimeOffRequest → α} {v' : TimeOffRequest → β}

theorem Answers.bind {f : α → Svc β} (hf : ∀ r, EndsWith (v' r) (f (v r))) (o : SvcOp)
    (k : SvcSig.Res o → Svc α) (h : Answers v o k) : Answers v' o fun r => (k r).bind f := by
  cases o with
  | transaction body => exact fun r => (h r).bind (hf r)
  | stmt o =>
      cases o with
      | findRequestByKey key => exact fun r => (h r).bind (hf r)
      | _ => trivial
  | _ => trivial

theorem Answers.attempt (handler : Exception → Svc α) (o : SvcOp) (k : SvcSig.Res o → Svc α)
    (h : Answers v o k) : Answers v o fun r => (k r).attempt handler := by
  cases o with
  | transaction body => exact fun r => (h r).attempt handler
  | stmt o =>
      cases o with
      | findRequestByKey key => exact fun r => (h r).attempt handler
      | _ => trivial
  | _ => trivial

theorem Answers.ensure {fin : Svc Unit} (hfin : EndsWith () fin) (o : SvcOp)
    (k : SvcSig.Res o → Svc α) (h : Answers v o k) : Answers v o fun r => (k r).ensure fin := by
  cases o with
  | transaction body => exact fun r => (h r).ensure hfin
  | stmt o =>
      cases o with
      | findRequestByKey key => exact fun r => (h r).ensure hfin
      | _ => trivial
  | _ => trivial

end

/-! ## The program of a create -/

section
variable {env : Env} {dto : CreateTimeOffRequestDto} {idempotencyKey : String}

theorem checkIdempotency_answers {v : TimeOffRequest → Option SerializedRequest}
    {k e hash : String} : (checkIdempotency k e hash).Always (Answers v) := by
  refine ⟨trivial, fun r => ?_⟩
  cases r with
  | error e => trivial
  | ok existing =>
      cases existing with
      | none => trivial
      | some rec =>
          refine ⟨trivial, fun now => ?_⟩
          show Script.Always _ (if rec.expiresAt < now then _ else _)
          split
          · trivial
          · split <;> trivial

theorem recoverAfterConstraint_answers {k e hash : String} :
    (recoverAfterConstraint k e hash).Always (Answers fun r => some (serializeRequest r)) := by
  refine Script.always_bind (P := Answers fun r => some (serializeRequest r)) ?_
    checkIdempotency_answers fun cached => ?_
  · exact Answers.bind fun r => EndsWith.done (some (serializeRequest r))
  cases cached with
  | some cached => trivial
  | none =>
      refine ⟨fun r => .done _, fun r => ?_⟩
      cases r with
      | error e => trivial
      | ok found => cases found <;> trivial

theorem recoverTransient_answers {k e hash : String} {err : Exception} :
    (recoverTransient k e hash err).Always (Answers serializeRequest) := by
  unfold recoverTransient
  split
  · refine Script.always_bind ?_ recoverAfterConstraint_answers fun recovered => ?_
    · exact Answers.bind fun r => EndsWith.done (serializeRequest r)
    cases recovered <;> trivial
  · trivial

theorem recoverCreate_answers {k e hash : String} {err : Exception} :
    (recoverCreate k e hash err).Always (Answers serializeRequest) := by
  unfold recoverCreate
  split
  · refine Script.always_bind ?_ recoverAfterConstraint_answers fun recovered => ?_
    · exact Answers.bind fun r => EndsWith.done (serializeRequest r)
    cases recovered with
    | some body => trivial
    | none => exact recoverTransient_answers
  · exact recoverTransient_answers

theorem runCreateTransaction_answers {body : Tx TimeOffRequest} {n : ℕ} :
    ∀ left, (runCreateTransaction (Svc.transaction body) n left).Always (Answers id)
  | 0 => ⟨fun r => .done r, fun r => by cases r <;> trivial⟩
  | left + 1 => by
      refine Script.always_attempt (Answers.attempt _)
        ⟨fun r => .done r, fun r => by cases r <;> trivial⟩ fun err => ?_
      split
      · trivial
      · exact ⟨trivial, fun _ => runCreateTransaction_answers left⟩

theorem createLocked_answers {hash : String} {days : Option ℚ} :
    (createLocked env dto idempotencyKey hash days).Always (Answers serializeRequest) := by
  refine Script.always_bind (P := Answers fun r => some (serializeRequest r)) ?_
    checkIdempotency_answers fun check => ?_
  · exact Answers.bind fun r => EndsWith.done (serializeRequest r)
  cases check with
  | some body => trivial
  | none =>
      refine Script.always_attempt (Answers.attempt _) ?_ fun err => recoverCreate_answers
      refine Script.always_bind (P := Answers id) (Answers.bind fun r => ?_)
        (runCreateTransaction_answers 2) fun created => ⟨trivial, fun _ => trivial⟩
      exact ⟨⟨trivial, fun _ => trivial⟩, fun _ _ => rfl⟩

theorem createRequest_answers :
    (createRequest env dto idempotencyKey).Always (Answers serializeRequest) := by
  unfold createRequest
  split
  · trivial
  refine ⟨trivial, fun now => ?_⟩
  show Script.Always _ (if (!isNotInPast now dto.startDate) = true then _ else _)
  split
  · trivial
  split
  · trivial
  refine Script.always_bind (P := Answers fun r => some (serializeRequest r)) ?_
    checkIdempotency_answers fun check => ?_
  · exact Answers.bind fun r => EndsWith.done (serializeRequest r)
  cases check with
  | some body => trivial
  | none =>
      refine ⟨trivial, fun ticket => ⟨trivial, fun _ => ?_⟩⟩
      refine Script.always_ensure (Answers.ensure ?_) createLocked_answers
        (fun a => ⟨trivial, fun _ => trivial⟩) fun e => ⟨trivial, fun _ => trivial⟩
      exact ⟨⟨trivial, fun _ => trivial⟩, fun _ _ => rfl⟩

end

theorem settlement_answers (s : Settlement) (requestId : Id) :
    (s.request requestId).Always (Answers serializeRequest) := by
  rw [Settlement.request_eq]
  refine ⟨fun r => .done (serializeRequest r), fun r => ?_⟩
  cases r <;> trivial

end LeaveLedger
