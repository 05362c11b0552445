import LeaveLedger.Transactions.PointSteps

/-!
# Transactions — The lane of a create

`createRequest` opens its transaction only while it holds the lane of its
employee and location. `InLane` follows a program through its lane, one
answer at a time; the machine keeps it, so two creates of a lane never have
their transactions open together.
-/

namespace LeaveLedger

open Js Lib

/-- How far a create is in its lane; it looks its key up before it enters, and again before its
transaction. -/
inductive LanePhase where
  | before (looked : Bool)
  | queued (ticket : ℕ)
  | holding (ticket : ℕ) (looked : Bool)
  | left
  deriving DecidableEq

def LanePhase.ticket? : LanePhase → Option ℕ
  | .before _ => none
  | .queued t => some t
  | .holding t _ => some t
  | .left => none

/-- How often it has looked its key up, at least. -/
def LanePhase.lookups : LanePhase → ℕ
  | .before looked => looked.toNat
  | .queued _ => 1
  | .holding _ looked => 1 + looked.toNat
  | .left => 0

/-- The phase after a statement. -/
def LanePhase.looked : LanePhase → Option LanePhase
  | .before _ => some (.before true)
  | .holding t _ => some (.holding t true)
  | .queued _ => none
  | .left => none

/-- The phase after an answer, `none` for what a create does not ask for in its phase. -/
def LanePhase.next (lockKey : String) : LanePhase → (o : SvcOp) → SvcSig.Res o → Option LanePhase
  | phase, .stmt _, _ => phase.looked
  | .before true, .enqueueCreateLock k, t => if k = lockKey then some (.queued t) else none
  | .before looked, .now, _ => some (.before looked)
  | .queued t, .awaitCreateLock k t', _ =>
      if k = lockKey ∧ t' = t then some (.holding t false) else none
  | .holding t _, .releaseCreateLock k t', _ =>
      if k = lockKey ∧ t' = t then some .left else none
  | .holding t looked, .now, _ => some (.holding t looked)
  | .holding t looked, .setImmediate _, _ => some (.holding t looked)
  | .holding t looked, .sleep _, _ => some (.holding t looked)
  | .holding t true, .transaction _, _ => some (.holding t true)
  | _, _, _ => none

section next
variable {lockKey k : String} {phase phase' : LanePhase}

theorem LanePhase.next_stmt {o : Stmt} {r : Except Exception o.Res}
    (h : phase.next lockKey (.stmt o) r = some phase') : phase.looked = some phase' := by
  rcases phase with (_ | _) | t | ⟨t, _ | _⟩ | _ <;> exact h

/-- What is answered without a move in the lane. -/
theorem LanePhase.next_stays {o : SvcOp} {r : SvcSig.Res o}
    (ho : o = .now ∨ (∃ c, o = .setImmediate c) ∨ ∃ ms, o = .sleep ms)
    (h : phase.next lockKey o r = some phase') : phase' = phase := by
  rcases ho with rfl | ⟨c, rfl⟩ | ⟨ms, rfl⟩
  all_goals
    rcases phase with (_ | _) | t | ⟨t, _ | _⟩ | _
    all_goals first | exact (Option.some.inj h).symm | cases h

theorem LanePhase.next_enqueue {t : ℕ}
    (h : phase.next lockKey (.enqueueCreateLock k) t = some phase') :
    k = lockKey ∧ phase = .before true ∧ phase' = .queued t := by
  rcases phase with (_ | _) | t' | ⟨t', _ | _⟩ | _
  case before.true =>
    obtain ⟨hk, heq⟩ := Option.ite_none_right_eq_some.mp h
    exact ⟨hk, rfl, (Option.some.inj heq).symm⟩
  all_goals cases h

theorem LanePhase.next_await {t : ℕ} {r : Unit}
    (h : phase.next lockKey (.awaitCreateLock k t) r = some phase') :
    k = lockKey ∧ phase = .queued t ∧ phase' = .holding t false := by
  rcases phase with (_ | _) | t' | ⟨t', _ | _⟩ | _
  case queued =>
    obtain ⟨⟨hk, rfl⟩, heq⟩ := Option.ite_none_right_eq_some.mp h
    exact ⟨hk, rfl, (Option.some.inj heq).symm⟩
  all_goals cases h

theorem LanePhase.next_release {t : ℕ} {r : Unit}
    (h : phase.next lockKey (.releaseCreateLock k t) r = some phase') :
    k = lockKey ∧ (∃ looked, phase = .holding t looked) ∧ phase' = .left := by
  rcases phase with (_ | _) | t' | ⟨t', looked⟩ | _
  case holding =>
    have hnext : (if k = lockKey ∧ t = t' then some LanePhase.left else none) = some phase' := by
      cases looked <;> exact h
    obtain ⟨⟨hk, rfl⟩, heq⟩ := Option.ite_none_right_eq_some.mp hnext
    exact ⟨hk, ⟨looked, rfl⟩, (Option.some.inj heq).symm⟩
  all_goals cases h

theorem LanePhase.next_transaction {body : Tx TimeOffRequest}
    {r : Except Exception TimeOffRequest}
    (h : phase.next lockKey (.transaction body) r = some phase') :
    (∃ t, phase = .holding t true) ∧ phase' = phase := by
  rcases phase with (_ | _) | t | ⟨t, _ | _⟩ | _
  case holding.true => exact ⟨⟨t, rfl⟩, (Option.some.inj h).symm⟩
  all_goals cases h

end next

/-- From its phase on the program keeps to the lane, however it is answered. -/
def Svc.InLane {α : Type} (lockKey : String) : LanePhase → Svc α → Prop
  | _, .done _ => True
  | _, .fail _ => True
  | phase, .await o k =>
      ∀ r, ∃ phase', phase.next lockKey o r = some phase' ∧ Svc.InLane lockKey phase' (k r)

section inLane
variable {α β : Type} {lockKey : String}

/-- What a program asks for before it enters its lane. -/
def Prelude : SvcOp → Prop
  | .stmt _ | .now => True
  | _ => False

theorem Svc.InLane.bind {p : Svc α} {f : α → Svc β} (hp : p.Asks Prelude)
    (hf : ∀ a, (f a).InLane lockKey (.before true)) :
    Svc.InLane lockKey (.before true) (p.bind f) := by
  induction p with
  | done a => exact hf a
  | fail e => trivial
  | await o k ih =>
      intro r
      have hrest := ih r (hp.2 r)
      have ho : Prelude o := hp.1
      cases o with
      | stmt o => exact ⟨_, rfl, hrest⟩
      | now => exact ⟨_, rfl, hrest⟩
      | _ => exact ho.elim

/-- The body of a create under its lane, which it releases in the end. -/
theorem inLane_ensure {p : Svc α} {env : Env} {dto : CreateTimeOffRequestDto} {k : String} {t : ℕ}
    (hp : p.Asks (CreateBodyAsks env dto k)) :
    Svc.InLane lockKey (.holding t true) (p.ensure (Svc.releaseCreateLock lockKey t)) := by
  have hrelease : ∀ f : Unit → Svc α, (∀ u, (f u).InLane lockKey .left) →
      Svc.InLane lockKey (.holding t true) ((Svc.releaseCreateLock lockKey t).bind f) := by
    intro f hf u
    exact ⟨.left, by simp [LanePhase.next], hf u⟩
  induction p with
  | done a => exact hrelease _ fun _ => trivial
  | fail e => exact hrelease _ fun _ => trivial
  | await o next ih =>
      intro r
      have hrest := ih r (hp.2 r)
      obtain ⟨hasks, hno⟩ := hp.1
      cases o with
      | stmt o => exact ⟨_, rfl, hrest⟩
      | now => exact ⟨_, rfl, hrest⟩
      | setImmediate c => exact ⟨_, rfl, hrest⟩
      | transaction body => exact ⟨_, rfl, hrest⟩
      | sleep ms => exact ⟨_, rfl, hrest⟩
      | http request => exact hasks.elim
      | _ => cases hno

end inLane

/-- `employeeId:locationId`. -/
def CreateTimeOffRequestDto.lane (dto : CreateTimeOffRequestDto) : String :=
  dto.employeeId ++ ":" ++ dto.locationId

section create
variable {env : Env} {dto : CreateTimeOffRequestDto} {k : String}

theorem checkIdempotency_prelude {key e hash : String} :
    (checkIdempotency key e hash).Asks Prelude := by
  refine Script.asks_bind (asks_stmt trivial) fun existing => ?_
  cases existing with
  | none => trivial
  | some existing =>
      refine Script.asks_bind (asks_now trivial) fun now => ?_
      split
      · trivial
      · split <;> trivial

theorem createRequest_inLane : (createRequest env dto k).InLane dto.lane (.before false) := by
  unfold createRequest
  split
  · trivial
  rename_i hkey
  intro now
  refine ⟨.before false, rfl, ?_⟩
  show Svc.InLane _ _ (if _ then _ else _)
  split
  · trivial
  split
  · trivial
  rename_i hends
  have hvalid : ValidInput dto k := ⟨hkey, Bool.eq_false_iff.mpr hends⟩
  have hprelude : (checkIdempotency k dto.employeeId (requestHashOf env dto)).Asks Prelude :=
    checkIdempotency_prelude
  have hlocked : (createLocked env dto k (requestHashOf env dto) (daysOf dto)).Asks
      (CreateBodyAsks env dto k) := createLocked_asks hvalid
  -- the first request of both parts looks the key up
  intro existing
  refine ⟨.before true, rfl, ?_⟩
  refine Svc.InLane.bind (hprelude.2 existing) fun check => ?_
  cases check with
  | some body => trivial
  | none =>
      intro ticket
      refine ⟨.queued ticket, if_pos rfl, fun _ => ⟨.holding ticket false, if_pos ⟨rfl, rfl⟩, ?_⟩⟩
      intro existing'
      exact ⟨.holding ticket true, rfl, inLane_ensure (hlocked.2 existing')⟩

/-- The transaction is asked for only when the start is not in the past. -/
def Timely (dto : CreateTimeOffRequestDto) : SvcOp → Prop
  | .transaction _ => ∃ now, isNotInPast now dto.startDate = true
  | _ => True

theorem createRequest_timely : (createRequest env dto k).Asks (Timely dto) := by
  have hasks : (createRequest env dto k).Asks (CreateAsks env dto k) := createRequest_asks
  unfold createRequest at hasks ⊢
  split
  · trivial
  rename_i hkey
  rw [if_neg hkey] at hasks
  refine ⟨trivial, fun now => ?_⟩
  have hrest := hasks.2 now
  by_cases hpast : isNotInPast now dto.startDate = true
  · refine Script.Asks.mono (fun o ho => ?_) hrest
    cases o with
    | transaction body => exact ⟨now, hpast⟩
    | _ => trivial
  · show Script.Asks _ (if _ then _ else _)
    rw [if_pos (by simp [hpast])]
    trivial

end create

/-! ## What remains of a call -/

/-- What remains of a create outside its transaction. -/
structure CreateRest (env : Env) (dto : CreateTimeOffRequestDto) (k : String) (phase : LanePhase)
    (committed : Bool) (p : Svc SerializedRequest) : Prop where
  asks : p.Asks (CreateAsks env dto k)
  timely : p.Asks (Timely dto)
  answers : p.Always (Answers serializeRequest)
  lane : p.InLane dto.lane phase
  bookkeeping : committed = true → p.Asks Bookkeeping

/-- What remains of a settlement outside its transaction. -/
inductive SettleRest (s : Settlement) (id : Id) : Bool → Svc SerializedRequest → Prop
  | begins : SettleRest s id false (s.request id)
  | returned {body : SerializedRequest} : SettleRest s id true (.done body)
  | thrown {e : Exception} : SettleRest s id false (.fail e)

/-- All that a settlement asks for is its transaction. -/
theorem SettleRest.begins_of_await {s : Settlement} {id : Id} {committed : Bool} {o : SvcOp}
    {f : SvcSig.Res o → Svc SerializedRequest} (h : SettleRest s id committed (.await o f)) :
    Script.await o f = s.request id ∧ committed = false := by
  generalize hp : (Script.await o f : Svc SerializedRequest) = p at h
  cases h with
  | begins => exact ⟨rfl, rfl⟩
  | returned => cases hp
  | thrown => cases hp

def Call.Rest (env : Env) : Call → LanePhase → Bool → Svc SerializedRequest → Prop
  | .create dto k, phase, committed, p => CreateRest env dto k phase committed p
  | .settle s id, phase, committed, p => phase = .before false ∧ SettleRest s id committed p

theorem Call.rest_script (env : Env) (c : Call) :
    c.Rest env (.before false) false (c.script env) := by
  cases c with
  | create dto k =>
      exact ⟨createRequest_asks, createRequest_timely, createRequest_answers, createRequest_inLane,
        fun h => by cases h⟩
  | settle s id => exact ⟨rfl, .begins⟩

theorem CreateRest.next {env : Env} {dto : CreateTimeOffRequestDto} {k : String}
    {phase : LanePhase} {committed : Bool} {o : SvcOp} {f : SvcSig.Res o → Svc SerializedRequest}
    (h : CreateRest env dto k phase committed (.await o f)) (r : SvcSig.Res o) :
    ∃ phase', phase.next dto.lane o r = some phase'
      ∧ CreateRest env dto k phase' committed (f r) := by
  obtain ⟨phase', hphase, hlane⟩ := h.lane r
  exact ⟨phase', hphase, h.asks.2 r, h.timely.2 r, h.answers.2 r, hlane,
    fun hc => (h.bookkeeping hc).2 r⟩

/-- A create commits at most once: after the commit only bookkeeping is left. -/
theorem CreateRest.commit {env : Env} {dto : CreateTimeOffRequestDto} {k : String}
    {phase : LanePhase} {committed : Bool} {body : Tx TimeOffRequest}
    {f : Except Exception TimeOffRequest → Svc SerializedRequest}
    (h : CreateRest env dto k phase committed (.await (.transaction body) f)) :
    committed = false ∧ body = createBody env dto k ∧ ValidInput dto k
      ∧ (∃ now, isNotInPast now dto.startDate = true) ∧ (∃ t, phase = .holding t true)
      ∧ (∀ r, CreateRest env dto k phase true (f (.ok r)))
      ∧ ∀ e, CreateRest env dto k phase false (f (.error e)) := by
  have hcommitted : committed = false := by
    cases committed with
    | false => rfl
    | true => exact (h.bookkeeping rfl).1.elim
  obtain ⟨phase', hphase, -⟩ := h.lane (.error (.driver "" ""))
  have hholds := (LanePhase.next_transaction hphase).1
  have hrest : ∀ r, CreateRest env dto k phase false (f r) := by
    intro r
    obtain ⟨phase', hphase, hnext⟩ := h.next r
    rw [(LanePhase.next_transaction hphase).2] at hnext
    exact hcommitted ▸ hnext
  obtain ⟨hvalid, hbody⟩ : ValidInput dto k ∧ body = createBody env dto k := h.asks.1
  refine ⟨hcommitted, hbody, hvalid, h.timely.1, hholds, fun r => ?_, fun e => hrest _⟩
  have hok := hrest (.ok r)
  exact ⟨hok.asks, hok.timely, hok.answers, hok.lane, fun _ => (h.answers.1 r).asks⟩

end LeaveLedger
