import LeaveLedger.Transactions.Exclusion

/-!
# Transactions — What a call knows between its statements

What a call has read is old when it writes. `Point.Known` is what is still
true of the rows then, whatever the other calls have done: that a row is
there, that no request has come to the dates a create has checked, that the
key of a create has no record.
-/

namespace LeaveLedger

open Js Lib

/-- The row is there, under its keys. -/
def Database.Holds (db : Database) (b : EmployeeBalance) : Prop :=
  ∃ b₀ ∈ db.balances.rows, b₀.id = b.id ∧ b₀.key = b.key

/-- No row of the key is overdrawn. -/
def Database.Covers (db : Database) (key : BalanceKey) : Prop :=
  ∀ b ∈ db.balances.rows, b.key = key → 0 ≤ b.availableBalance

def Point.Known (db : Database) : Call → Point → Prop
  | .settle _ _, .found r => ∃ r₀ ∈ db.requests.rows, SameRequest r r₀
  | .settle _ _, .marking r _ => ∃ r₀ ∈ db.requests.rows, SameRequest r r₀
  | .settle _ _, .marked r =>
      0 < r.daysRequested ∧ ∃ b ∈ db.balances.rows, b.key = r.balanceKey
  | .settle _ _, .moving r b => 0 < r.daysRequested ∧ db.Holds b
  | .create dto _, .booking => FreeDates dto db
  | .create dto _, .deducting b d => FreeDates dto db ∧ db.Holds b ∧ 0 < d
  | .create dto _, .inserting b _ d =>
      FreeDates dto db ∧ db.Holds b ∧ 0 < d ∧ db.Covers b.key
  | .create _ _, .undoing _ b _ d => db.Holds b ∧ 0 < d
  | .create _ k, .noting _ => (∃ r ∈ db.requests.rows, r.idempotencyKey = k)
      ∧ ∀ rec ∈ db.records.rows, rec.idempotencyKey ≠ k
  | .create _ k, .recording _ _ => (∃ r ∈ db.requests.rows, r.idempotencyKey = k)
      ∧ ∀ rec ∈ db.records.rows, rec.idempotencyKey ≠ k
  | _, _ => True

/-- The dates a create has checked, until its request is stored. -/
def Point.checked : Point → Bool
  | .booking | .deducting _ _ | .inserting _ _ _ => true
  | _ => false

/-- Between the request of a create and its record. -/
def Point.stores : Point → Bool
  | .noting _ | .recording _ _ => true
  | _ => false

/-- The key a create is storing. -/
def Seat.storing? (g : Seat) : Option String :=
  match g.call with
  | .create _ k => if g.point.stores then some k else none
  | .settle _ _ => none

/-- The statements of the transaction that are behind. -/
def Point.statements : Point → ℕ
  | .checking => 1
  | .booking => 2
  | .deducting _ _ => 3
  | .inserting _ _ _ => 4
  | _ => 0

/-- What holds of the rows, however far the calls are. -/
structure World.Rooted (w : World) : Prop where
  requests : ∀ r ∈ w.db.requests.rows,
    0 < r.daysRequested ∧ ∃ b ∈ w.db.balances.rows, b.key = r.balanceKey
  records : ∀ rec ∈ w.db.records.rows,
    rec.id < w.uuid ∧ ∃ r ∈ w.db.requests.rows, r.idempotencyKey = rec.idempotencyKey

/-- And what holds between the calls and the rows. -/
structure KnownInv (w : World) (gs : List Seat) : Prop extends World.Rooted w where
  points : ∀ g ∈ gs, g.point.Known w.db g.call
  storing : ∀ (i j : ℕ) (g g' : Seat) (k : String), gs[i]? = some g → gs[j]? = some g' →
    g.storing? = some k → g'.storing? = some k → i = j
  statements : ∀ g ∈ gs, g.phase.lookups + g.point.statements ≤ w.uuid

variable {env : Env} {w w' : World} {c : Call} {pl pl' : Place} {commits : Bool}
  {gs gs' : List Seat}

/-! ## What a step does to each table -/

/-- A balance keeps its total, and a row that was not overdrawn is not overdrawn. -/
theorem PlaceStep.balances (h : PlaceStep env w c pl w' pl' commits)
    (hknown : pl.point.Known w.db c) :
    w'.db.balances = w.db.balances
    ∨ ∃ b b', w.db.balances.Replaced w'.db.balances b b' ∧ b'.totalBalance = b.totalBalance
      ∧ (0 ≤ b.availableBalance → 0 ≤ b'.availableBalance) := by
  cases h with
  | ask hdb hlane => exact .inl (by rw [hdb])
  | @revert dto k e b b₀ b' d phase db hd hkey haccount hbalances hrequests hrecords =>
      have hpos : 0 < d := hknown.2
      have htotal : b₀.totalBalance = b.totalBalance := congrArg Account.total haccount
      have hav : b₀.availableBalance = b.availableBalance - d :=
        congrArg Account.available haccount
      exact .inr ⟨b₀, b, hbalances, htotal.symm, fun h => by linarith⟩
  | within h =>
      cases h with
      | @move s id r b b₀ b' p db hid hkey haccount hbalances hrequests hrecords hp =>
          have hpos : 0 < r.daysRequested := hknown.1
          refine .inr ⟨b₀, b', hbalances, ?_, fun h => ?_⟩
          · cases s <;> exact congrArg Account.total haccount
          · have hav := congrArg Account.available haccount
            cases s with
            | approve a =>
                have hsame : b'.availableBalance = b₀.availableBalance := hav
                linarith
            | reject a reason =>
                have hmore : b'.availableBalance = b₀.availableBalance + r.daysRequested := hav
                linarith
            | cancel reason =>
                have hmore : b'.availableBalance = b₀.availableBalance + r.daysRequested := hav
                linarith
      | @deduct dto k b b₀ b' d db hd hkey henough haccount hbalances hrequests hrecords =>
          have hav : b'.availableBalance = b₀.availableBalance - d :=
            congrArg Account.available haccount
          exact .inr ⟨b₀, b', hbalances, congrArg Account.total haccount, fun _ => by linarith⟩
      | mark hid hrow hpending hsaved hrequests hbalances hrecords => exact .inl hbalances
      | insert hd hkey hrow hrequests hbalances hrecords => exact .inl hbalances
      | record hid hkey hadded hbalances hrequests => exact .inl hbalances
      | _ => exact .inl rfl
  | _ => exact .inl rfl

/-- The request of the call has been stored, or marked. -/
def Point.done : Point → Bool
  | .marked _ | .moving _ _ | .scheduling _ | .settled _ => true
  | .noting _ | .recording _ _ | .stored _ => true
  | _ => false

/-- What a step does to the requests. -/
inductive RequestsStep (w w' : World) (c : Call) (pl pl' : Place) (commits : Bool) : Prop
  | same (h : w'.db.requests = w.db.requests)
      (hdone : (commits || pl'.point.done) = pl.point.done)
  | marked (s : Settlement) (id : Id) (r r' : TimeOffRequest) (hcall : c = .settle s id)
      (hid : r.id = id) (hrequests : w.db.requests.Replaced w'.db.requests r r')
      (hsame : SameRequest r r') (hpending : r.status = .pending) (hstatus : r'.status = s.target)
      (hopen : pl.point ≠ .outside) (hbefore : pl.point.done = false)
      (hafter : pl'.point.done = true)
  | stored (dto : CreateTimeOffRequestDto) (k : String) (b b' : EmployeeBalance) (d : ℚ)
      (hcall : c = .create dto k) (hpoint : pl.point = .inserting b b' d) (hd : daysOf dto = some d)
      (hkey : b.key = dto.balanceKey)
      (hadded : w.db.requests.Added w'.db.requests ((newRequest dto k d).toRow w.uuid w.clock))
      (huuid : w'.uuid = w.uuid + 1) (hafter : pl'.point.done = true)

/-- A save of a copy of the row changes its status and nothing that a copy can have wrong. -/
theorem marked_same {s : Settlement} {r r₀ r' : TimeOffRequest} {now clock : ℤ}
    (hsaved : r' = (s.mark now r).saveOver clock r₀) (hcopy : SameRequest r r₀) :
    SameRequest r₀ r' := by
  have hmark : SameRequest r (s.mark now r) := by
    cases s <;> exact ⟨rfl, rfl, rfl, rfl, rfl, rfl, rfl, rfl⟩
  subst hsaved
  exact ⟨rfl, rfl, hmark.employeeId.trans hcopy.employeeId.symm,
    hmark.locationId.trans hcopy.locationId.symm, hmark.leaveType.trans hcopy.leaveType.symm,
    hmark.startDate.trans hcopy.startDate.symm, hmark.endDate.trans hcopy.endDate.symm,
    hmark.daysRequested.trans hcopy.daysRequested.symm⟩

theorem PlaceStep.requests (h : PlaceStep env w c pl w' pl' commits)
    (hknown : pl.point.Known w.db c) : RequestsStep w w' c pl pl' commits := by
  cases h with
  | ask hdb hlane => exact .same (by rw [hdb]) rfl
  | revert hd hkey haccount hbalances hrequests hrecords => exact .same hrequests rfl
  | commit hp => rcases hp with rfl | rfl <;> exact .same rfl rfl
  | within h =>
      cases h with
      | @mark s id r r₀ r' now db hid hrow hpending hsaved hrequests hbalances hrecords =>
          obtain ⟨r₁, hr₁, hcopy⟩ : ∃ r₁ ∈ w.db.requests.rows, SameRequest r r₁ := hknown
          obtain rfl := Table.eq_of_pk hr₁ hrequests.mem (hcopy.id.trans hrow.symm)
          refine .marked s id r₁ r' rfl (hrow.trans hid) hrequests (marked_same hsaved hcopy)
            hpending ?_ Point.noConfusion rfl rfl
          rw [hsaved]
          exact s.mark_status now r
      | @insert dto k b b' d r db hd hkey hrow hrequests hbalances hrecords =>
          exact .stored dto k b b' d rfl rfl hd hkey (hrow ▸ hrequests) rfl rfl
      | move hid hkey haccount hbalances hrequests hrecords hp =>
          rcases hp with rfl | rfl <;> exact .same hrequests rfl
      | deduct hd hkey henough haccount hbalances hrequests hrecords => exact .same hrequests rfl
      | record hid hkey hadded hbalances hrequests => exact .same hrequests rfl
      | refuse hp hu => rcases hp with rfl | rfl | rfl <;> exact .same rfl rfl
      | _ => exact .same rfl rfl
  | _ => exact .same rfl rfl

/-- What it does to the records. -/
theorem PlaceStep.records (h : PlaceStep env w c pl w' pl' commits) :
    w'.db.records = w.db.records
    ∨ ∃ dto k r now rec, c = .create dto k ∧ pl.point = .recording r now
      ∧ w.db.records.Added w'.db.records rec ∧ rec.id = w.uuid ∧ w.uuid < w'.uuid
      ∧ rec.idempotencyKey = k := by
  cases h with
  | ask hdb hlane => exact .inl (by rw [hdb])
  | revert hd hkey haccount hbalances hrequests hrecords => exact .inl hrecords
  | within h =>
      cases h with
      | mark hid hrow hpending hsaved hrequests hbalances hrecords => exact .inl hrecords
      | insert hd hkey hrow hrequests hbalances hrecords => exact .inl hrecords
      | move hid hkey haccount hbalances hrequests hrecords hp => exact .inl hrecords
      | deduct hd hkey henough haccount hbalances hrequests hrecords => exact .inl hrecords
      | record hid hkey hadded hbalances hrequests =>
          exact .inr ⟨_, _, _, _, _, rfl, rfl, hadded, hid, Nat.lt_succ_self _, hkey⟩
      | _ => exact .inl rfl
  | _ => exact .inl rfl

/-- A call that looks its key up has done so once more. -/
theorem LaneStep.lookups {lockKey : String} {phase phase' : LanePhase}
    (h : LaneStep lockKey w w' phase phase') :
    w.uuid ≤ w'.uuid ∧ (phase.lookups ≤ w.uuid → phase'.lookups ≤ w'.uuid) := by
  cases h with
  | stay hlocks hticket huuid => rw [huuid]; exact ⟨Nat.le_refl _, id⟩
  | look hphase hlocks hticket huuid =>
      have hmore : phase'.lookups ≤ phase.lookups + 1 := by
        cases phase with
        | before looked => cases hphase; cases looked <;> simp [LanePhase.lookups]
        | holding t looked => cases hphase; cases looked <;> simp [LanePhase.lookups]
        | _ => cases hphase
      rw [huuid]
      exact ⟨Nat.le_succ _, fun h => hmore.trans (Nat.succ_le_succ h)⟩
  | enqueue hlocks hticket huuid => rw [huuid]; exact ⟨Nat.le_refl _, id⟩
  | enter hhead hlocks hticket huuid => rw [huuid]; exact ⟨Nat.le_refl _, id⟩
  | leave hlocks hticket huuid => rw [huuid]; exact ⟨Nat.le_refl _, fun _ => Nat.zero_le _⟩

theorem PointStep.statements {p p' : Point} (h : PointStep env w c p w' p') :
    w.uuid ≤ w'.uuid ∧ p'.statements + w.uuid ≤ p.statements + w'.uuid := by
  cases h with
  | refuse hp hu => exact ⟨hu, Nat.add_le_add (Nat.zero_le _) hu⟩
  | move hid hkey haccount hbalances hrequests hrecords hp =>
      rcases hp with rfl | rfl <;> exact ⟨Nat.le_succ _, by simp [Point.statements]⟩
  | _ =>
      refine ⟨?_, ?_⟩
      · first | exact Nat.le_refl _ | exact Nat.le_succ _
      · simp only [Point.statements]
        omega

/-- Ids are used up, and the statements of a call are counted. -/
theorem PlaceStep.statements (h : PlaceStep env w c pl w' pl' commits) :
    w.uuid ≤ w'.uuid ∧ (pl.phase.lookups + pl.point.statements ≤ w.uuid →
      pl'.phase.lookups + pl'.point.statements ≤ w'.uuid) := by
  cases h with
  | ask hdb hlane => exact hlane.lookups
  | within h =>
      obtain ⟨hle, hmore⟩ := h.statements
      exact ⟨hle, fun h => by simp only at h ⊢; omega⟩
  | _ => exact ⟨Nat.le_refl _, fun h => Nat.le_trans (Nat.add_le_add_left (Nat.zero_le _) _) h⟩

/-! ## What a step leaves as it was -/

/-- What the rows of `db` show is still shown by those of `db'`. -/
structure Keeps (db db' : Database) : Prop where
  holds : ∀ b ∈ db.balances.rows, db'.Holds b
  covers : ∀ key, db.Covers key → db'.Covers key
  copies : ∀ r ∈ db.requests.rows, ∃ r' ∈ db'.requests.rows, SameRequest r r'

theorem Keeps.held {db db' : Database} (h : Keeps db db') {b : EmployeeBalance}
    (hb : db.Holds b) : db'.Holds b := by
  obtain ⟨b₀, hb₀, hid, hkey⟩ := hb
  obtain ⟨b₁, hb₁, hid₁, hkey₁⟩ := h.holds b₀ hb₀
  exact ⟨b₁, hb₁, hid₁.trans hid, hkey₁.trans hkey⟩

theorem Keeps.row {db db' : Database} (h : Keeps db db') {key : BalanceKey}
    (hb : ∃ b ∈ db.balances.rows, b.key = key) : ∃ b ∈ db'.balances.rows, b.key = key := by
  obtain ⟨b, hb, hkey⟩ := hb
  obtain ⟨b', hb', -, hkey'⟩ := h.holds b hb
  exact ⟨b', hb', hkey'.trans hkey⟩

theorem PlaceStep.keeps (h : PlaceStep env w c pl w' pl' commits)
    (hknown : pl.point.Known w.db c) : Keeps w.db w'.db := by
  refine ⟨fun x hx => ?_, fun key hcovers x hx hkey => ?_, fun r hr => ?_⟩
  · rcases h.balances hknown with hsame | ⟨b, b', hrep, -, -⟩
    · exact ⟨x, by rw [hsame]; exact hx, rfl, rfl⟩
    · obtain ⟨x', hx', hid, hkey, -⟩ := hrep.exists_of_mem hx
      exact ⟨x', hx', hid, hkey⟩
  · rcases h.balances hknown with hsame | ⟨b, b', hrep, -, hav⟩
    · exact hcovers x (hsame ▸ hx) hkey
    · rcases hrep.mem_iff.mp hx with ⟨hold, -⟩ | rfl
      · exact hcovers x hold hkey
      · exact hav (hcovers b hrep.mem (hrep.uk_eq.symm.trans hkey))
  · cases h.requests hknown with
    | same heq hdone => exact ⟨r, by rw [heq]; exact hr, .refl r⟩
    | marked s id r₀ r' hcall hid hrep hsame hpending hstatus hopen hbefore hafter =>
        obtain ⟨r₁, hr₁, -, -, rfl | ⟨rfl, rfl⟩⟩ := hrep.exists_of_mem hr
        · exact ⟨r₁, hr₁, .refl r₁⟩
        · exact ⟨r₁, hr₁, hsame⟩
    | stored dto k b b' d hcall hpoint hd hkey hadded huuid hafter =>
        exact ⟨r, hadded.mem_iff.mpr (.inl hr), .refl r⟩

theorem Keeps.copy {db db' : Database} (h : Keeps db db') {r : TimeOffRequest}
    (hr : ∃ r₀ ∈ db.requests.rows, SameRequest r r₀) :
    ∃ r₀ ∈ db'.requests.rows, SameRequest r r₀ := by
  obtain ⟨r₀, hr₀, hsame⟩ := hr
  obtain ⟨r₁, hr₁, hsame'⟩ := h.copies r₀ hr₀
  exact ⟨r₁, hr₁, hsame.trans hsame'⟩

theorem Keeps.key {db db' : Database} (h : Keeps db db') {k : String}
    (hr : ∃ r ∈ db.requests.rows, r.idempotencyKey = k) :
    ∃ r ∈ db'.requests.rows, r.idempotencyKey = k := by
  obtain ⟨r, hr, hk⟩ := hr
  obtain ⟨r', hr', hsame⟩ := h.copies r hr
  exact ⟨r', hr', hsame.idempotencyKey.trans hk⟩

/-- What a call knows outlives a step that keeps the rows it relies on. -/
theorem Point.Known.keep {db db' : Database} {p : Point} (h : p.Known db c)
    (hkeeps : Keeps db db')
    (hfree : ∀ dto k, c = .create dto k → p.checked = true → FreeDates dto db → FreeDates dto db')
    (hrecords : ∀ dto k, c = .create dto k → p.stores = true →
      (∀ rec ∈ db.records.rows, rec.idempotencyKey ≠ k) →
      ∀ rec ∈ db'.records.rows, rec.idempotencyKey ≠ k) : p.Known db' c := by
  cases c with
  | settle s id =>
      cases p with
      | found r => exact hkeeps.copy h
      | marking r now => exact hkeeps.copy h
      | marked r => exact ⟨h.1, hkeeps.row h.2⟩
      | moving r b => exact ⟨h.1, hkeeps.held h.2⟩
      | _ => trivial
  | create dto k =>
      cases p with
      | booking => exact hfree dto k rfl rfl h
      | deducting b d => exact ⟨hfree dto k rfl rfl h.1, hkeeps.held h.2.1, h.2.2⟩
      | inserting b b' d =>
          exact ⟨hfree dto k rfl rfl h.1, hkeeps.held h.2.1, h.2.2.1, hkeeps.covers _ h.2.2.2⟩
      | undoing e b b' d => exact ⟨hkeeps.held h.1, h.2⟩
      | noting r => exact ⟨hkeeps.key h.1, hrecords dto k rfl rfl h.2⟩
      | recording r now => exact ⟨hkeeps.key h.1, hrecords dto k rfl rfl h.2⟩
      | _ => trivial

/-- What the call that moves knows then. -/
theorem PlaceStep.known (h : PlaceStep env w c pl w' pl' commits)
    (hknown : pl.point.Known w.db c) (hrooted : w.Rooted) : pl'.point.Known w'.db c := by
  have hkeeps := h.keeps hknown
  cases h with
  | ask hdb hlane => trivial
  | fail => cases c <;> trivial
  | settle => trivial
  | create => trivial
  | commit hp => cases c <;> trivial
  | throw => cases c <;> trivial
  | revert hd hkey haccount hbalances hrequests hrecords => trivial
  | within h =>
      cases h with
      | refuse hp hu => cases c <;> trivial
      | find hr hid hpending => exact ⟨_, hr, .refl _⟩
      | look => exact hknown
      | @mark s id r r₀ r' now db hid hrow hpending hsaved hrep hbalances hrec =>
          obtain ⟨r₁, hr₁, hcopy⟩ : ∃ r₁ ∈ w.db.requests.rows, SameRequest r r₁ := hknown
          obtain rfl := Table.eq_of_pk hr₁ hrep.mem (hcopy.id.trans hrow.symm)
          have hsame := marked_same hsaved hcopy
          obtain ⟨hpos, hb⟩ := hrooted.requests r₁ hr₁
          refine ⟨hsame.daysRequested ▸ hpos, hkeeps.row ?_⟩
          rw [hsame.balanceKey]
          exact hb
      | @load s id r b hb hkey => exact ⟨hknown.1, b, hb, rfl, rfl⟩
      | move hid hkey haccount hbalances hreq hrec hp => rcases hp with rfl | rfl <;> trivial
      | schedule => trivial
      | list => trivial
      | check hfree => exact hfree
      | @book dto k b d hb hd hkey henough => exact ⟨hknown, ⟨b, hb, rfl, rfl⟩, daysOf_pos hd⟩
      | @deduct dto k b b₀ b' d db hd hkey henough haccount hbalances hreq hrec =>
          refine ⟨fun x hx => hknown.1 x (hreq ▸ hx), hkeeps.holds b₀ hbalances.mem, hknown.2.2,
            fun x hx hxkey => ?_⟩
          have hav : b'.availableBalance = b₀.availableBalance - d :=
            congrArg Account.available haccount
          obtain rfl := Table.eq_of_uk hx hbalances.mem_new (hxkey.trans hbalances.uk_eq.symm)
          linarith
      | conflict => exact ⟨hknown.2.1, hknown.2.2.1⟩
      | @insert dto k b b' d r db hd hkey hrow hadded hbalances hrec =>
          refine ⟨⟨r, hadded.mem_iff.mpr (.inr rfl), by rw [hrow]; rfl⟩, fun rec hmem heq => ?_⟩
          obtain ⟨-, x, hx, hxkey⟩ := hrooted.records rec (hrec ▸ hmem)
          refine hadded.uk_new x hx (hxkey.trans (heq.trans ?_))
          rw [hrow]
          rfl
      | note => exact hknown
      | record hid hkey hadded hbalances hreq => trivial

/-- **What holds of the rows** still holds. -/
theorem PlaceStep.rooted (h : PlaceStep env w c pl w' pl' commits)
    (hknown : pl.point.Known w.db c) (hrooted : w.Rooted) : w'.Rooted := by
  have hkeeps := h.keeps hknown
  constructor
  · intro r hr
    cases h.requests hknown with
    | same heq hdone =>
        obtain ⟨hpos, hb⟩ := hrooted.requests r (heq ▸ hr)
        exact ⟨hpos, hkeeps.row hb⟩
    | marked s id r₀ r' hset hid hrep hsame hpending hstatus hopen hbefore hafter =>
        rcases hrep.mem_iff.mp hr with ⟨hold, -⟩ | rfl
        · obtain ⟨hpos, hb⟩ := hrooted.requests r hold
          exact ⟨hpos, hkeeps.row hb⟩
        · obtain ⟨hpos, hb⟩ := hrooted.requests r₀ hrep.mem
          rw [hsame.daysRequested, hsame.balanceKey]
          exact ⟨hpos, hkeeps.row hb⟩
    | stored dto k b b' d hcreate hpoint hd hkey hadded huuid hafter =>
        rcases hadded.mem_iff.mp hr with hold | rfl
        · obtain ⟨hpos, hb⟩ := hrooted.requests r hold
          exact ⟨hpos, hkeeps.row hb⟩
        · rw [hcreate, hpoint] at hknown
          obtain ⟨-, ⟨b₀, hb₀, -, hkey₀⟩, hpos, -⟩ := hknown
          exact ⟨hpos, hkeeps.row ⟨b₀, hb₀, hkey₀.trans hkey⟩⟩
  · intro rec hrec
    rcases h.records with hsame | ⟨dto, k, r, now, rec', hcreate, hpoint, hadded, hid, hlt, hkey⟩
    · obtain ⟨hold, hr⟩ := hrooted.records rec (hsame ▸ hrec)
      exact ⟨hold.trans_le h.statements.1, hkeeps.key hr⟩
    · rcases hadded.mem_iff.mp hrec with hmem | rfl
      · obtain ⟨hold, hr⟩ := hrooted.records rec hmem
        exact ⟨hold.trans hlt, hkeeps.key hr⟩
      · rw [hcreate, hpoint] at hknown
        rw [hid, hkey]
        exact ⟨hlt, hkeeps.key hknown.1⟩

end LeaveLedger
