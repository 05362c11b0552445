import LeaveLedger.Transactions.Lane

/-!
# Transactions — Where a call is

The place of a call is the point of its transaction and the phase of its lane.
`Session.step_place` says what one step of a call does, from place to place:
what it does to rows is said by `PlaceStep`, and nothing above unfolds the
programs or the machine.
-/

namespace LeaveLedger

open Js Lib

structure Place where
  point : Point
  phase : LanePhase

/-- What holds of a create whose transaction is open. -/
def Call.Entered : Call → LanePhase → Prop
  | .create dto k, phase => ValidInput dto k ∧ (∃ now, isNotInPast now dto.startDate = true)
      ∧ ∃ t, phase = .holding t true
  | .settle _ _, phase => phase = .before false

/-- The call is at the place. -/
def Session.At (env : Env) (c : Session) (pl : Place) : Prop :=
  match c.stage with
  | .svc p => pl.point = .outside ∧ c.call.Rest env pl.phase c.committed p
  | .tx t => c.committed = false ∧ Transaction.At env c.call pl.point t.rest t.undo t.loaded
      ∧ c.call.Entered pl.phase ∧ (∀ r, c.call.Rest env pl.phase true (t.resume (.ok r)))
      ∧ ∀ e, c.call.Rest env pl.phase false (t.resume (.error e))

/-- What a step outside a transaction does to the lanes, and to the ids that are used up. -/
inductive LaneStep (lockKey : String) (w w' : World) : LanePhase → LanePhase → Prop
  | stay {phase : LanePhase} (hlocks : w'.createLocks = w.createLocks)
      (hticket : w'.nextTicket = w.nextTicket) (huuid : w'.uuid = w.uuid) :
      LaneStep lockKey w w' phase phase
  | look {phase phase' : LanePhase} (hphase : phase.looked = some phase')
      (hlocks : w'.createLocks = w.createLocks) (hticket : w'.nextTicket = w.nextTicket)
      (huuid : w'.uuid = w.uuid + 1) : LaneStep lockKey w w' phase phase'
  | enqueue (hlocks : w'.createLocks = w.createLocks ++ [(lockKey, w.nextTicket)])
      (hticket : w'.nextTicket = w.nextTicket + 1) (huuid : w'.uuid = w.uuid) :
      LaneStep lockKey w w' (.before true) (.queued w.nextTicket)
  | enter {t : ℕ} (hhead : w.laneHead lockKey = some t) (hlocks : w'.createLocks = w.createLocks)
      (hticket : w'.nextTicket = w.nextTicket) (huuid : w'.uuid = w.uuid) :
      LaneStep lockKey w w' (.queued t) (.holding t false)
  | leave {t : ℕ} {looked : Bool}
      (hlocks : w'.createLocks = w.createLocks.filter fun l => l ≠ (lockKey, t))
      (hticket : w'.nextTicket = w.nextTicket) (huuid : w'.uuid = w.uuid) :
      LaneStep lockKey w w' (.holding t looked) .left

/-- A step of a call from place to place. -/
inductive PlaceStep (env : Env) (w : World) : Call → Place → World → Place → Bool → Prop
  | ask {dto : CreateTimeOffRequestDto} {k : String} {phase phase' : LanePhase} {w' : World}
      (hdb : w'.db = w.db) (hlane : LaneStep dto.lane w w' phase phase') :
      PlaceStep env w (.create dto k) ⟨.outside, phase⟩ w' ⟨.outside, phase'⟩ false
  /-- its transaction has not begun -/
  | fail {c : Call} {phase : LanePhase} :
      PlaceStep env w c ⟨.outside, phase⟩ w ⟨.outside, phase⟩ false
  | settle {s : Settlement} {id : Id} {phase : LanePhase} :
      PlaceStep env w (.settle s id) ⟨.outside, phase⟩ w ⟨.finding, phase⟩ false
  | create {dto : CreateTimeOffRequestDto} {k : String} {t : ℕ} :
      PlaceStep env w (.create dto k) ⟨.outside, .holding t true⟩ w ⟨.listing, .holding t true⟩
        false
  | within {c : Call} {p p' : Point} {phase : LanePhase} {w' : World}
      (h : PointStep env w c p w' p') : PlaceStep env w c ⟨p, phase⟩ w' ⟨p', phase⟩ false
  | commit {c : Call} {r : TimeOffRequest} {p : Point} {phase : LanePhase}
      (hp : p = .settled r ∨ p = .stored r) :
      PlaceStep env w c ⟨p, phase⟩ w ⟨.outside, phase⟩ true
  | throw {c : Call} {e : Exception} {phase : LanePhase} :
      PlaceStep env w c ⟨.refused e, phase⟩ w ⟨.outside, phase⟩ false
  | revert {dto : CreateTimeOffRequestDto} {k : String} {e : Exception}
      {b b₀ b' : EmployeeBalance} {d : ℚ} {phase : LanePhase} {db : Database}
      (hd : daysOf dto = some d) (hkey : b.key = dto.balanceKey)
      (haccount : b₀.account = b.account.reserve d)
      (hbalances : w.db.balances.Replaced db.balances b₀ b)
      (hrequests : db.requests = w.db.requests) (hrecords : db.records = w.db.records) :
      PlaceStep env w (.create dto k) ⟨.undoing e b b' d, phase⟩ { w with db := db }
        ⟨.outside, phase⟩ false

section lanes
variable {w w' : World} {dto : CreateTimeOffRequestDto} {k : String}

/-- A statement that reads is answered. -/
theorem Stmt.read_answers {o : Stmt} {st : Stamp} {db : Database} (ho : o.isRead) :
    ∃ r, o.exec st db = .ok (r, db) := by
  cases o <;> first | exact ⟨_, rfl⟩ | cases ho

/-- A step of a create outside its transaction. -/
theorem laneStep_of_exec {env : Env} {o : SvcOp} {r : SvcSig.Res o} {phase phase' : LanePhase}
    (hasks : CreateAsks env dto k o) (ho : ∀ body, o ≠ .transaction body)
    (h : execSvc {} o w = some (r, w')) (hphase : phase.next dto.lane o r = some phase') :
    w'.db = w.db ∧ LaneStep dto.lane w w' phase phase' := by
  cases o with
  | stmt o =>
      obtain ⟨x, hexec⟩ : ∃ x, o.exec w.stamp w.db = .ok (x, w.db) := Stmt.read_answers hasks
      simp only [execSvc, hexec, Option.some.injEq] at h
      cases h
      exact ⟨rfl, .look (LanePhase.next_stmt hphase) rfl rfl rfl⟩
  | now =>
      obtain rfl := LanePhase.next_stays (.inl rfl) hphase
      cases h
      exact ⟨rfl, .stay rfl rfl rfl⟩
  | setImmediate c =>
      obtain rfl := LanePhase.next_stays (.inr (.inl ⟨c, rfl⟩)) hphase
      cases h
      exact ⟨rfl, .stay rfl rfl rfl⟩
  | sleep ms =>
      obtain rfl := LanePhase.next_stays (.inr (.inr ⟨ms, rfl⟩)) hphase
      cases h
      exact ⟨rfl, .stay rfl rfl rfl⟩
  | transaction body => exact absurd rfl (ho body)
  | http request => exact hasks.elim
  | enqueueCreateLock key =>
      cases h
      obtain ⟨rfl, rfl, rfl⟩ := LanePhase.next_enqueue hphase
      exact ⟨rfl, .enqueue rfl rfl rfl⟩
  | awaitCreateLock key t =>
      obtain ⟨rfl, rfl, rfl⟩ := LanePhase.next_await hphase
      simp only [execSvc] at h
      split at h
      case isTrue hhead =>
        cases h
        exact ⟨rfl, .enter hhead rfl rfl rfl⟩
      case isFalse => cases h
  | releaseCreateLock key t =>
      cases h
      obtain ⟨rfl, ⟨looked, rfl⟩, rfl⟩ := LanePhase.next_release hphase
      exact ⟨rfl, .leave rfl rfl rfl⟩

end lanes

section steps
variable {env : Env} {w w' : World} {c c' : Session} {pl : Place}

/-- A step outside the transaction. -/
theorem Session.step_svc {o : SvcOp} {f : SvcSig.Res o → Svc SerializedRequest}
    (hat : c.At env pl) (hstage : c.stage = .svc (.await o f)) (h : c.step w = some (w', c')) :
    ∃ pl', c'.At env pl' ∧ c'.call = c.call ∧ c'.committed = c.committed
      ∧ PlaceStep env w c.call pl w' pl' false := by
  obtain ⟨call, stage, committed⟩ := c
  obtain ⟨point, phase⟩ := pl
  subst hstage
  obtain ⟨rfl, hrest⟩ : point = .outside ∧ call.Rest env phase committed (.await o f) := hat
  obtain ⟨⟨w₁, stage⟩, hadvance, heq⟩ := Option.map_eq_some_iff.mp h
  cases heq
  cases call with
  | settle s id =>
      obtain ⟨rfl, hsettle⟩ := hrest
      obtain ⟨heq, rfl⟩ := hsettle.begins_of_await
      rw [Settlement.request_eq] at heq
      cases heq
      cases hadvance
      exact ⟨⟨.finding, .before false⟩, ⟨rfl, .finding, rfl, fun r => ⟨rfl, .returned⟩,
        fun e => ⟨rfl, .thrown⟩⟩, rfl, rfl, .settle⟩
  | create dto k =>
      by_cases hopens : ∃ body, o = .transaction body
      · obtain ⟨body, rfl⟩ := hopens
        obtain ⟨rfl, rfl, hvalid, htimely, ⟨t, rfl⟩, hok, herror⟩ := CreateRest.commit hrest
        cases hadvance
        exact ⟨⟨.listing, .holding t true⟩, ⟨rfl, .listing, ⟨hvalid, htimely, t, rfl⟩, hok, herror⟩,
          rfl, rfl, .create⟩
      · have hmap : (execSvc {} o w).map (fun r => (r.2, Stage.svc (f r.1)))
            = some (w₁, stage) := by
          cases o with
          | transaction body => exact absurd ⟨body, rfl⟩ hopens
          | _ => exact hadvance
        obtain ⟨⟨r, w₂⟩, hexec, heq⟩ := Option.map_eq_some_iff.mp hmap
        cases heq
        obtain ⟨phase', hphase, hnext⟩ := CreateRest.next hrest r
        obtain ⟨hdb, hlane⟩ := laneStep_of_exec hrest.asks.1
          (fun body heq => hopens ⟨body, heq⟩) hexec hphase
        exact ⟨⟨.outside, phase'⟩, ⟨rfl, hnext⟩, rfl, rfl, .ask hdb hlane⟩

/-- A transaction comes to its end: it commits, or it throws and is undone. -/
theorem Session.step_end {call : Call} {t : Transaction} {p : Point} {phase : LanePhase}
    (hok : ∀ r, call.Rest env phase true (t.resume (.ok r)))
    (herror : ∀ e, call.Rest env phase false (t.resume (.error e))) (hready : p.Ready w call)
    (hund : t.Undisturbed w.db) (hends : Ends call p t.undo t.rest)
    (h : Session.step ⟨call, .tx t, false⟩ w = some (w', c')) :
    ∃ commits, c'.At env ⟨.outside, phase⟩ ∧ c'.call = call ∧ c'.committed = commits
      ∧ PlaceStep env w call ⟨p, phase⟩ w' ⟨.outside, phase⟩ commits := by
  obtain ⟨⟨w₁, stage, commits⟩, hstep, heq⟩ := Option.map_eq_some_iff.mp h
  cases heq
  obtain ⟨rest, undo, loaded, resume⟩ := t
  cases hends with
  | settled =>
      rw [Transaction.step_done rfl] at hstep
      cases hstep
      exact ⟨true, ⟨rfl, hok _⟩, rfl, rfl, .commit (.inl rfl)⟩
  | stored =>
      rw [Transaction.step_done rfl] at hstep
      cases hstep
      exact ⟨true, ⟨rfl, hok _⟩, rfl, rfl, .commit (.inr rfl)⟩
  | refused =>
      rw [Transaction.step_fail rfl] at hstep
      cases hstep
      exact ⟨false, ⟨rfl, herror _⟩, rfl, rfl, .throw⟩
  | @undoing dto k e before after d hd hkey hid haccount =>
      rw [Transaction.step_fail rfl] at hstep
      cases hstep
      -- the row stands as it was written, and what it was is put back
      obtain ⟨b₀, hb₀, hid₀, hsame⟩ : ∃ b₀ ∈ w.db.balances.rows,
          b₀.id = after.id ∧ b₀.account = after.account :=
        hund (.balance after (some before)) List.mem_cons_self
      obtain ⟨b₁, hb₁, hid₁, hkey₁⟩ : ∃ b₁ ∈ w.db.balances.rows,
          b₁.id = before.id ∧ b₁.key = before.key := hready
      obtain rfl := Table.eq_of_pk hb₀ hb₁ (hid₀.trans (hid.trans hid₁.symm))
      exact ⟨false, ⟨rfl, herror _⟩, rfl, rfl, .revert hd hkey (hsame.trans haccount)
        (Table.replaced_restore hb₀ hid₁ hkey₁) rfl rfl⟩

/-- **One step of a call** leads from its place to the next, and commits or does not. -/
theorem Session.step_place (hat : c.At env pl) (hready : pl.point.Ready w c.call)
    (hund : ∀ t, c.stage = .tx t → t.Undisturbed w.db) (h : c.step w = some (w', c')) :
    ∃ pl' commits, c'.At env pl' ∧ c'.call = c.call ∧ c'.committed = (c.committed || commits)
      ∧ PlaceStep env w c.call pl w' pl' commits := by
  obtain ⟨call, stage, committed⟩ := c
  obtain ⟨point, phase⟩ := pl
  cases stage with
  | svc p =>
      cases p with
      | await o f =>
          obtain ⟨pl', hat', hcall, hcommitted, hstep⟩ := Session.step_svc hat rfl h
          exact ⟨pl', false, hat', hcall, by rw [hcommitted, Bool.or_false], hstep⟩
      | done a => cases h
      | fail e => cases h
  | tx t =>
      obtain ⟨rfl, hpoint, hentered, hok, herror⟩ := hat
      rcases hpoint.step hready (hund t rfl) with
        ⟨w₂, t', p', hgo, hat', hresume, hpointStep⟩ | hends
      · obtain ⟨x, hstep, heq⟩ := Option.map_eq_some_iff.mp h
        rw [hgo] at hstep
        cases hstep
        cases heq
        refine ⟨⟨p', phase⟩, false, ⟨rfl, hat', hentered, ?_, ?_⟩, rfl, rfl, .within hpointStep⟩
        · rw [hresume]; exact hok
        · rw [hresume]; exact herror
      · obtain ⟨commits, hplace⟩ := Session.step_end hok herror hready (hund t rfl) hends h
        exact ⟨_, commits, hplace⟩

/-- A transaction that does not begin leaves its call outside. -/
theorem Session.failToBegin_place {e : Transient} (hat : c.At env pl)
    (h : c.failToBegin e = some c') :
    c'.At env pl ∧ c'.call = c.call ∧ c'.committed = c.committed
      ∧ PlaceStep env w c.call pl w pl false := by
  obtain ⟨call, stage, committed⟩ := c
  obtain ⟨point, phase⟩ := pl
  unfold Session.failToBegin at h
  split at h
  case h_2 => cases h
  case h_1 body f hstage =>
    cases h
    cases hstage
    obtain ⟨rfl, hrest⟩ : point = .outside ∧ call.Rest env phase committed _ := hat
    cases call with
    | settle s id =>
        obtain ⟨rfl, hsettle⟩ := hrest
        obtain ⟨heq, rfl⟩ := hsettle.begins_of_await
        rw [Settlement.request_eq] at heq
        cases heq
        exact ⟨⟨rfl, rfl, .thrown⟩, rfl, rfl, .fail⟩
    | create dto k =>
        obtain ⟨rfl, -, -, -, -, -, herror⟩ := CreateRest.commit hrest
        exact ⟨⟨rfl, herror _⟩, rfl, rfl, .fail⟩

end steps

/-! ## The places of all calls

A run is followed with the list of the places its calls are at. A step of the
machine moves one of them (`SeatStep`), and that is all the invariants look at.
-/

/-- A call and its place. -/
abbrev Seat := Session × Place

abbrev Seat.call (g : Seat) : Call := g.1.call
abbrev Seat.point (g : Seat) : Point := g.2.point
abbrev Seat.phase (g : Seat) : LanePhase := g.2.phase

structure Seated (env : Env) (s : Connection) (gs : List Seat) : Prop where
  sessions : s.sessions = gs.map Prod.fst
  places : ∀ g ∈ gs, g.1.At env g.2

inductive SeatStep (env : Env) (w : World) (gs : List Seat) : World → List Seat → Prop
  | call (c : Call) :
      SeatStep env w gs w (gs ++ [(⟨c, .svc (c.script env), false⟩, ⟨.outside, .before false⟩)])
  | step {i : ℕ} {g g' : Seat} {w' : World} {commits : Bool} (hg : gs[i]? = some g)
      (hat : g.1.At env g.2) (hat' : g'.1.At env g'.2) (hcall : g'.call = g.call)
      (hcommitted : g'.1.committed = (g.1.committed || commits))
      (h : PlaceStep env w g.call g.2 w' g'.2 commits) : SeatStep env w gs w' (gs.set i g')
  | tick (ms : ℕ) : SeatStep env w gs { w with clock := w.clock + ms } gs

variable {env : Env}

theorem seated_start (w : World) : Seated env (.start w) [] :=
  ⟨rfl, fun g hg => by cases hg⟩

theorem Seated.set {s : Connection} {gs : List Seat} {i : ℕ} {w : World} {c' : Session} {pl : Place}
    (h : Seated env s gs) (hat : c'.At env pl) :
    Seated env ⟨w, s.sessions.set i c'⟩ (gs.set i (c', pl)) := by
  refine ⟨?_, fun g hg => ?_⟩
  · rw [List.map_set, ← h.sessions]
  · rcases List.mem_or_eq_of_mem_set hg with hold | rfl
    · exact h.places g hold
    · exact hat

/-- **One step of the machine** moves one call. -/
theorem connectionStep_seat {s s' : Connection} {l : ConnectionLabel} {gs : List Seat}
    (h : Seated env s gs) (hready : ∀ g ∈ gs, g.point.Ready s.world g.call)
    (hund : s.Undisturbed l) (hstep : connectionStep env s l = some s') :
    ∃ gs', Seated env s' gs' ∧ SeatStep env s.world gs s'.world gs' := by
  have hfind : ∀ {i : ℕ} {c : Session}, s.sessions[i]? = some c →
      ∃ pl : Place, gs[i]? = some (c, pl) := by
    intro i c hc
    rw [h.sessions, List.getElem?_map] at hc
    obtain ⟨g, hg, rfl⟩ := Option.map_eq_some_iff.mp hc
    exact ⟨g.2, hg⟩
  cases l with
  | call c =>
      cases hstep
      refine ⟨_, ⟨?_, fun g hg => ?_⟩, .call c⟩
      · rw [List.map_append, ← h.sessions]
        rfl
      · rcases List.mem_append.mp hg with hold | hnew
        · exact h.places g hold
        · obtain rfl := List.mem_singleton.mp hnew
          exact ⟨rfl, c.rest_script env⟩
  | step i =>
      obtain ⟨c, hc, hstep⟩ := Option.bind_eq_some_iff.mp hstep
      obtain ⟨⟨w', c'⟩, hmove, rfl⟩ := Option.map_eq_some_iff.mp hstep
      obtain ⟨pl, hg⟩ := hfind hc
      have hmem : (c, pl) ∈ gs := List.mem_of_getElem? hg
      obtain ⟨pl', commits, hat', hcall, hcommitted, hplace⟩ :=
        Session.step_place (h.places _ hmem) (hready _ hmem)
          ((Connection.undisturbed_step hc).mp hund) hmove
      exact ⟨_, h.set hat', .step hg (h.places _ hmem) hat' hcall hcommitted hplace⟩
  | failsToBegin i e =>
      obtain ⟨c, hc, hstep⟩ := Option.bind_eq_some_iff.mp hstep
      obtain ⟨c', hfail, rfl⟩ := Option.map_eq_some_iff.mp hstep
      obtain ⟨pl, hg⟩ := hfind hc
      have hat := h.places _ (List.mem_of_getElem? hg)
      obtain ⟨hat', hcall, hcommitted, hplace⟩ := Session.failToBegin_place (w := s.world) hat hfail
      exact ⟨_, h.set hat', .step hg hat hat' hcall (by rw [hcommitted, Bool.or_false]) hplace⟩
  | tick ms => cases hstep; exact ⟨gs, ⟨h.sessions, h.places⟩, .tick ms⟩

end LeaveLedger
