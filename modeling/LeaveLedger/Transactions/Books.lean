import LeaveLedger.Transactions.KnownSteps

/-!
# Transactions — The accounts in the middle of calls

Between the two writes of a call its days are in one of the tables only. What
a call holds of a row is what the row has pending beside its pending requests
(`held`), and what it has not yet as used of its approved ones (`unspent`).
With them every row is an account after every step.
-/

namespace LeaveLedger

open Js Lib

/-- The days that are pending in the row of the key and in no pending request. -/
def Point.held (key : BalanceKey) : Call → Point → ℚ
  | .settle _ _, .marked r => if r.balanceKey = key then r.daysRequested else 0
  | .settle _ _, .moving r _ => if r.balanceKey = key then r.daysRequested else 0
  | .create dto _, .inserting _ _ d => if dto.balanceKey = key then d else 0
  | .create dto _, .undoing _ _ _ d => if dto.balanceKey = key then d else 0
  | _, _ => 0

/-- The days of an approved request that the row of the key has not as used. -/
def Point.unspent (key : BalanceKey) : Call → Point → ℚ
  | .settle (.approve _) _, .marked r => if r.balanceKey = key then r.daysRequested else 0
  | .settle (.approve _) _, .moving r _ => if r.balanceKey = key then r.daysRequested else 0
  | _, _ => 0

def Seat.held (key : BalanceKey) (g : Seat) : ℚ := g.point.held key g.call

def Seat.unspent (key : BalanceKey) (g : Seat) : ℚ := g.point.unspent key g.call

/-- What the row of a key has pending. -/
def pendingOf (db : Database) (gs : List Seat) (key : BalanceKey) : ℚ :=
  daysIn .pending key db.requests.rows + (gs.map (Seat.held key)).sum

/-- What it has used. -/
def usedOf (db : Database) (gs : List Seat) (key : BalanceKey) : ℚ :=
  daysIn .approved key db.requests.rows - (gs.map (Seat.unspent key)).sum

/-- Every row is the account of its requests and of what the calls hold. -/
def Books (db : Database) (gs : List Seat) : Prop :=
  ∀ b ∈ db.balances.rows, b.account
    = Account.of b.totalBalance (pendingOf db gs b.key) (usedOf db gs b.key)

variable {env : Env} {w w' : World} {gs gs' : List Seat} {db db' : Database}

theorem Books.of_same (h : Books db gs) (hbalances : db'.balances = db.balances)
    (hpending : ∀ key, pendingOf db' gs' key = pendingOf db gs key)
    (hused : ∀ key, usedOf db' gs' key = usedOf db gs key) : Books db' gs' := by
  intro b hb
  rw [hpending, hused]
  exact h b (hbalances ▸ hb)

theorem Books.of_replaced (h : Books db gs) {b b' : EmployeeBalance}
    (hrep : db.balances.Replaced db'.balances b b')
    (hother : ∀ key, key ≠ b.key → pendingOf db' gs' key = pendingOf db gs key
      ∧ usedOf db' gs' key = usedOf db gs key)
    (haccount : b'.account
      = Account.of b'.totalBalance (pendingOf db' gs' b.key) (usedOf db' gs' b.key)) :
    Books db' gs' := by
  intro x hx
  rcases hrep.mem_iff.mp hx with ⟨hold, hne⟩ | rfl
  · have hkey : x.key ≠ b.key := fun heq =>
      hne (congrArg EmployeeBalance.id (Table.eq_of_uk hold hrep.mem heq))
    rw [(hother x.key hkey).1, (hother x.key hkey).2]
    exact h x hold
  · rw [show x.key = b.key from hrep.uk_eq]
    exact haccount

/-- Of the seats one has changed. -/
theorem sum_set (f : Seat → ℚ) {i : ℕ} {g : Seat} (g' : Seat) (hg : gs[i]? = some g) :
    ((gs.set i g').map f).sum = (gs.map f).sum - f g + f g' := by
  obtain ⟨hi, hget⟩ := List.getElem?_eq_some_iff.mp hg
  have hlen : i < (gs.map f).length := by rw [List.length_map]; exact hi
  rw [List.map_set, List.sum_set', dif_pos hlen, List.getElem_map, hget]
  ring

section hold
variable {i : ℕ} {g g' : Seat}

theorem pendingOf_set (db : Database) (hg : gs[i]? = some g) (key : BalanceKey) :
    pendingOf db' (gs.set i g') key = pendingOf db gs key
      + (daysIn .pending key db'.requests.rows - daysIn .pending key db.requests.rows)
      + (g'.held key - g.held key) := by
  unfold pendingOf
  rw [sum_set _ g' hg]
  ring

theorem usedOf_set (db : Database) (hg : gs[i]? = some g) (key : BalanceKey) :
    usedOf db' (gs.set i g') key = usedOf db gs key
      + (daysIn .approved key db'.requests.rows - daysIn .approved key db.requests.rows)
      - (g'.unspent key - g.unspent key) := by
  unfold usedOf
  rw [sum_set _ g' hg]
  ring

/-- A step that moves no days. -/
theorem Books.of_idle (h : Books db gs) (hg : gs[i]? = some g)
    (hbalances : db'.balances = db.balances) (hrequests : db'.requests = db.requests)
    (hheld : ∀ key, g'.held key = g.held key) (hunspent : ∀ key, g'.unspent key = g.unspent key) :
    Books db' (gs.set i g') := by
  refine h.of_same hbalances (fun key => ?_) (fun key => ?_)
  · rw [pendingOf_set db hg, hheld, hrequests]
    ring
  · rw [usedOf_set db hg, hunspent, hrequests]
    ring

/-- A request is marked: the days it had pending are held from now on. -/
theorem Books.of_marked (h : Books db gs) (hg : gs[i]? = some g)
    (hbalances : db'.balances = db.balances) {s : Settlement} {r r' : TimeOffRequest}
    (hrep : db.requests.Replaced db'.requests r r') (hsame : SameRequest r r')
    (hpending : r.status = .pending) (hstatus : r'.status = s.target)
    (hheld : ∀ key, g'.held key - g.held key
      = if r.balanceKey = key then r.daysRequested else 0)
    (hunspent : ∀ key, g'.unspent key - g.unspent key
      = if s.target = .approved ∧ r.balanceKey = key then r.daysRequested else 0) :
    Books db' (gs.set i g') := by
  have htarget : s.target ≠ .pending := s.target_ne_pending
  refine h.of_same hbalances (fun key => ?_) (fun key => ?_)
  · rw [pendingOf_set db hg, hheld, daysIn_replaced hrep, hpending, hstatus]
    simp [htarget]
  · rw [usedOf_set db hg, hunspent, daysIn_replaced hrep, hpending, hstatus,
      hsame.balanceKey, hsame.daysRequested]
    simp

/-- A request is stored: its days are pending with it, and held no longer. -/
theorem Books.of_stored (h : Books db gs) (hg : gs[i]? = some g)
    (hbalances : db'.balances = db.balances) {r : TimeOffRequest}
    (hadded : db.requests.Added db'.requests r) (hstatus : r.status = .pending)
    (hheld : ∀ key, g'.held key - g.held key
      = - if r.balanceKey = key then r.daysRequested else 0)
    (hunspent : ∀ key, g'.unspent key = g.unspent key) : Books db' (gs.set i g') := by
  refine h.of_same hbalances (fun key => ?_) (fun key => ?_)
  · rw [pendingOf_set db hg, hheld, daysIn_added hadded, hstatus]
    simp
  · rw [usedOf_set db hg, hunspent, daysIn_added hadded, hstatus]
    simp

/-- Days are moved in one row. -/
theorem Books.of_moved (h : Books db gs) (hg : gs[i]? = some g) {b b' : EmployeeBalance}
    {δ ε : ℚ} (hrep : db.balances.Replaced db'.balances b b')
    (hrequests : db'.requests = db.requests)
    (hheld : ∀ key, g'.held key - g.held key = if b.key = key then δ else 0)
    (hunspent : ∀ key, g'.unspent key - g.unspent key = if b.key = key then ε else 0)
    (haccount : ∀ t p u, b.account = Account.of t p u → b'.account = Account.of t (p + δ) (u - ε)) :
    Books db' (gs.set i g') := by
  have hpendingOf : ∀ key, pendingOf db' (gs.set i g') key
      = pendingOf db gs key + if b.key = key then δ else 0 := by
    intro key
    rw [pendingOf_set db hg, hheld, hrequests]
    ring
  have husedOf : ∀ key, usedOf db' (gs.set i g') key
      = usedOf db gs key - if b.key = key then ε else 0 := by
    intro key
    rw [usedOf_set db hg, hunspent, hrequests]
    ring
  refine h.of_replaced hrep (fun key hne => ?_) ?_
  · rw [hpendingOf, husedOf, if_neg (Ne.symm hne), if_neg (Ne.symm hne)]
    exact ⟨add_zero _, sub_zero _⟩
  · have hnew := haccount _ _ _ (h b hrep.mem)
    have htotal : b'.totalBalance = b.totalBalance := congrArg Account.total hnew
    rw [hpendingOf, husedOf, if_pos rfl, if_pos rfl, htotal]
    exact hnew

end hold

/-! ## One step -/

/-- The points at which a call holds days. -/
def Point.holding : Point → Bool
  | .marked _ | .moving _ _ | .inserting _ _ _ | .undoing _ _ _ _ => true
  | _ => false

theorem Point.held_eq_zero {p : Point} (h : p.holding = false) (c : Call) (key : BalanceKey) :
    p.held key c = 0 ∧ p.unspent key c = 0 := by
  cases c with
  | create dto k =>
      cases p with
      | inserting b b' d => cases h
      | undoing e b b' d => cases h
      | _ => exact ⟨rfl, rfl⟩
  | settle s id =>
      cases p with
      | marked r => cases h
      | moving r b => cases h
      | _ => cases s <;> exact ⟨rfl, rfl⟩

section moves
variable {i : ℕ} {g g' : Seat}

/-- A step of a call that holds nothing, before or after. -/
theorem Books.of_unheld (h : Books db gs) (hg : gs[i]? = some g)
    (hbalances : db'.balances = db.balances) (hrequests : db'.requests = db.requests)
    (hp : g.point.holding = false) (hp' : g'.point.holding = false) :
    Books db' (gs.set i g') := by
  refine h.of_idle hg hbalances hrequests (fun key => ?_) (fun key => ?_)
  · unfold Seat.held
    rw [(Point.held_eq_zero hp _ key).1, (Point.held_eq_zero hp' _ key).1]
  · unfold Seat.unspent
    rw [(Point.held_eq_zero hp _ key).2, (Point.held_eq_zero hp' _ key).2]

/-- A settlement saves its request. -/
theorem Books.mark (h : Books db gs) {s : Settlement} {id : Id} {r r₀ r' : TimeOffRequest}
    {now clock : ℤ} (hg : gs[i]? = some g) (hcall : g.call = .settle s id)
    (hpoint : g.point = .marking r now) (hcall' : g'.call = g.call)
    (hpoint' : g'.point = .marked r') (hcopy : SameRequest r r₀) (hpending : r₀.status = .pending)
    (hsaved : r' = (s.mark now r).saveOver clock r₀)
    (hrequests : db.requests.Replaced db'.requests r₀ r')
    (hbalances : db'.balances = db.balances) : Books db' (gs.set i g') := by
  have hsame := marked_same hsaved hcopy
  have hstatus : r'.status = s.target := by
    rw [hsaved]
    exact s.mark_status now r
  have hnone : g.point.holding = false := by rw [hpoint]; rfl
  refine h.of_marked hg hbalances hrequests hsame hpending hstatus (fun key => ?_) (fun key => ?_)
  · unfold Seat.held
    rw [(Point.held_eq_zero hnone _ key).1, hcall', hcall, hpoint', sub_zero]
    simp only [Point.held]
    rw [hsame.balanceKey, hsame.daysRequested]
  · unfold Seat.unspent
    rw [(Point.held_eq_zero hnone _ key).2, hcall', hcall, hpoint', sub_zero, ← hsame.balanceKey,
      ← hsame.daysRequested]
    cases s <;> simp [Point.unspent, Settlement.target]

/-- A settlement moves the days of its request. -/
theorem Books.move (h : Books db gs) {s : Settlement} {id : Id} {r : TimeOffRequest}
    {b b₀ b' : EmployeeBalance} (hg : gs[i]? = some g) (hcall : g.call = .settle s id)
    (hpoint : g.point = .moving r b) (hp' : g'.point.holding = false)
    (hkey : b₀.key = r.balanceKey) (haccount : b'.account = s.op b₀.account r.daysRequested)
    (hbalances : db.balances.Replaced db'.balances b₀ b')
    (hrequests : db'.requests = db.requests) : Books db' (gs.set i g') := by
  refine h.of_moved (δ := -r.daysRequested)
    (ε := if s.target = .approved then -r.daysRequested else 0) hg hbalances hrequests
    (fun key => ?_) (fun key => ?_) (fun t p u heq => ?_)
  · unfold Seat.held
    rw [(Point.held_eq_zero hp' _ key).1, hcall, hpoint, hkey]
    simp only [Point.held]
    split <;> ring
  · unfold Seat.unspent
    rw [(Point.held_eq_zero hp' _ key).2, hcall, hpoint, hkey]
    cases s with
    | approve a =>
        simp only [Point.unspent, Settlement.target, if_true]
        split <;> ring
    | reject a reason => simp [Point.unspent, Settlement.target]
    | cancel reason => simp [Point.unspent, Settlement.target]
  · rw [haccount, heq]
    cases s with
    | approve a =>
        simp only [Settlement.op, Account.finalize_of, Settlement.target, if_true]
        rw [sub_neg_eq_add, sub_eq_add_neg]
    | reject a reason =>
        simp [Settlement.op, Account.release_of, Settlement.target, sub_eq_add_neg]
    | cancel reason =>
        simp [Settlement.op, Account.release_of, Settlement.target, sub_eq_add_neg]

end moves

/-- A step of a transaction. -/
theorem Books.within (h : Books w.db gs) {i : ℕ} {c : Call} {p p' : Point}
    {stage stage' : Stage} {committed committed' : Bool} {phase phase' : LanePhase}
    (hg : gs[i]? = some (⟨c, stage, committed⟩, ⟨p, phase⟩)) (hknown : p.Known w.db c)
    (hstep : PointStep env w c p w' p') :
    Books w'.db (gs.set i (⟨c, stage', committed'⟩, ⟨p', phase'⟩)) := by
  cases hstep with
  | refuse hp hu =>
      refine h.of_unheld hg rfl rfl ?_ rfl
      rcases hp with rfl | rfl | rfl <;> rfl
  | mark hid hrow hpending hsaved hrequests hbalances hrecords =>
      obtain ⟨r₁, hr₁, hcopy⟩ := hknown
      obtain rfl := Table.eq_of_pk hr₁ hrequests.mem (hcopy.id.trans hrow.symm)
      exact h.mark hg rfl rfl rfl rfl hcopy hpending hsaved hrequests hbalances
  | @load s id r b hb hkey =>
      exact h.of_idle hg rfl rfl (fun _ => rfl) (fun _ => by cases s <;> rfl)
  | move hid hkey haccount hbalances hrequests hrecords hp =>
      obtain ⟨b₁, hb₁, hid₁, hkey₁⟩ := hknown.2
      obtain rfl := Table.eq_of_pk hb₁ hbalances.mem (hid₁.trans hid.symm)
      refine h.move hg rfl rfl ?_ (hkey₁.trans hkey) haccount hbalances hrequests
      rcases hp with rfl | rfl <;> rfl
  | @deduct dto k b b₀ b' d db hd hkey henough haccount hbalances hrequests hrecords =>
      refine h.of_moved (δ := d) (ε := 0) hg hbalances hrequests (fun key => ?_) (fun key => ?_)
        (fun t p u heq => ?_)
      · rw [hkey]
        simp [Seat.held, Point.held]
      · simp [Seat.unspent, Point.unspent]
      · rw [haccount, heq, Account.reserve_of, sub_zero]
  | conflict => exact h.of_idle hg rfl rfl (fun _ => rfl) (fun _ => rfl)
  | @insert dto k b b' d r db hd hkey hrow hadded hbalances hrecords =>
      have hdays : r.daysRequested = d := by rw [hrow]; rfl
      have hrkey : r.balanceKey = dto.balanceKey := by rw [hrow]; rfl
      refine h.of_stored hg hbalances hadded (by rw [hrow]; rfl) (fun key => ?_) (fun _ => rfl)
      rw [hdays, hrkey]
      simp [Seat.held, Point.held]
  | record hid hkey hadded hbalances hrequests => exact h.of_unheld hg hbalances hrequests rfl rfl
  | _ => exact h.of_unheld hg rfl rfl rfl rfl

/-- The days of a transaction that is undone go back. -/
theorem Books.revert (h : Books db gs) {i : ℕ} {g g' : Seat} {dto : CreateTimeOffRequestDto}
    {k : String} {e : Exception} {b b₀ b' : EmployeeBalance} {d : ℚ} (hg : gs[i]? = some g)
    (hcall : g.call = .create dto k) (hpoint : g.point = .undoing e b b' d)
    (hp' : g'.point.holding = false) (hkey : b.key = dto.balanceKey)
    (haccount : b₀.account = b.account.reserve d)
    (hbalances : db.balances.Replaced db'.balances b₀ b)
    (hrequests : db'.requests = db.requests) : Books db' (gs.set i g') := by
  have hkey₀ : b₀.key = dto.balanceKey := hbalances.uk_eq.symm.trans hkey
  refine h.of_moved (δ := -d) (ε := 0) hg hbalances hrequests (fun key => ?_) (fun key => ?_)
    (fun t p u heq => ?_)
  · unfold Seat.held
    rw [(Point.held_eq_zero hp' _ key).1, hcall, hpoint, hkey₀]
    simp only [Point.held]
    split <;> ring
  · unfold Seat.unspent
    rw [(Point.held_eq_zero hp' _ key).2, hcall, hpoint]
    simp [Point.unspent]
  · rw [haccount] at heq
    rw [Account.eq_of_reserve heq, sub_zero, sub_eq_add_neg]

/-- **One step keeps the books.** -/
theorem Books.step (h : Books w.db gs) (hknown : KnownInv w gs)
    (hstep : SeatStep env w gs w' gs') : Books w'.db gs' := by
  cases hstep with
  | call c =>
      refine h.of_same rfl (fun key => ?_) (fun key => ?_)
      · simp [pendingOf, Seat.held, (Point.held_eq_zero (p := .outside) rfl c key).1]
      · simp [usedOf, Seat.unspent, (Point.held_eq_zero (p := .outside) rfl c key).2]
  | tick ms => exact h
  | @step i g g' w' commits hg hat hat' hcall hcommitted hplace =>
      have hmine := hknown.points g (List.mem_of_getElem? hg)
      obtain ⟨⟨call, stage, committed⟩, point, phase⟩ := g
      obtain ⟨⟨call', stage', committed'⟩, point', phase'⟩ := g'
      obtain rfl : call' = call := hcall
      cases hplace with
      | ask hdb hlane => exact h.of_unheld hg (by rw [hdb]) (by rw [hdb]) rfl rfl
      | commit hp =>
          refine h.of_unheld hg rfl rfl ?_ rfl
          rcases hp with rfl | rfl <;> rfl
      | revert hd hkey haccount hbalances hrequests hrecords =>
          exact h.revert hg rfl rfl rfl hkey haccount hbalances hrequests
      | within hpoint => exact h.within hg hmine hpoint
      | _ => exact h.of_unheld hg rfl rfl rfl rfl

/-! ## What the books say of a row -/

/-- A call holds no less than what it has not spent. -/
theorem unspent_le_held {db : Database} {c : Call} {p : Point} (h : p.Known db c)
    (key : BalanceKey) : 0 ≤ p.unspent key c ∧ p.unspent key c ≤ p.held key c := by
  have hite : ∀ {P : Prop} [Decidable P] {d : ℚ}, 0 < d → 0 ≤ if P then d else 0 := by
    intro P _ d hd
    split
    · exact hd.le
    · exact le_refl _
  cases c with
  | create dto k =>
      refine ⟨le_refl _, ?_⟩
      cases p with
      | inserting b b' d => exact hite h.2.2.1
      | undoing e b b' d => exact hite h.2
      | _ => exact le_refl _
  | settle s id =>
      cases p with
      | marked r =>
          cases s with
          | approve a => exact ⟨hite h.1, le_refl _⟩
          | _ => exact ⟨le_refl _, hite h.1⟩
      | moving r b =>
          cases s with
          | approve a => exact ⟨hite h.1, le_refl _⟩
          | _ => exact ⟨le_refl _, hite h.1⟩
      | _ => cases s <;> exact ⟨le_refl _, le_refl _⟩

/-- Of what all calls hold, each holds its part. -/
theorem held_le_sum (h : ∀ g ∈ gs, g.point.Known db g.call) {g : Seat} (hg : g ∈ gs)
    (key : BalanceKey) : g.held key ≤ (gs.map (Seat.held key)).sum := by
  refine List.single_le_sum (fun x hx => ?_) _ (List.mem_map_of_mem hg)
  obtain ⟨y, hy, rfl⟩ := List.mem_map.mp hx
  have hle := unspent_le_held (h y hy) key
  exact hle.1.trans hle.2

/-- And the part of it that is not spent. -/
theorem reserved_le_sum (h : ∀ g ∈ gs, g.point.Known db g.call) {g : Seat} (hg : g ∈ gs)
    (key : BalanceKey) : g.held key - g.unspent key
      ≤ (gs.map (Seat.held key)).sum - (gs.map (Seat.unspent key)).sum := by
  have hsplit : (gs.map (Seat.held key)).sum
      = (gs.map fun x => x.held key - x.unspent key).sum + (gs.map (Seat.unspent key)).sum := by
    rw [← List.sum_map_add]
    simp
  have hmine : g.held key - g.unspent key ≤ (gs.map fun x => x.held key - x.unspent key).sum := by
    refine List.single_le_sum (fun x hx => ?_) _
      (List.mem_map_of_mem (f := fun g : Seat => g.held key - g.unspent key) hg)
    obtain ⟨y, hy, rfl⟩ := List.mem_map.mp hx
    exact sub_nonneg.mpr (unspent_le_held (h y hy) key).2
  linarith

theorem daysIn_nonneg {status : RequestStatus} {key : BalanceKey} {l : List TimeOffRequest}
    (h : ∀ r ∈ l, 0 < r.daysRequested) : 0 ≤ daysIn status key l :=
  sumWhere_nonneg fun r hr _ => (h r hr).le

/-- **No step throws for want of a row or of its days**: what it needs is there. -/
theorem KnownInv.ready (h : KnownInv w gs) (hbooks : Books w.db gs) :
    ∀ g ∈ gs, g.point.Ready w g.call := by
  intro g hg
  have hknown := h.points g hg
  have hheld := held_le_sum h.points hg
  obtain ⟨⟨call, stage, committed⟩, point, phase⟩ := g
  cases call with
  | settle s id =>
      cases point with
      | marked r =>
          obtain ⟨b, hb, hkey⟩ := hknown.2
          refine ⟨b, hb, hkey, ?_⟩
          have hpending : b.pendingBalance = pendingOf w.db gs b.key :=
            congrArg Account.pending (hbooks b hb)
          have hmine : r.daysRequested ≤ (gs.map (Seat.held b.key)).sum := by
            have hle := hheld b.key
            simp only [Seat.held, Point.held, hkey, if_true] at hle
            exact hkey ▸ hle
          have hnonneg : 0 ≤ daysIn .pending b.key w.db.requests.rows :=
            daysIn_nonneg fun r hr => (h.requests r hr).1
          rw [hpending]
          unfold pendingOf
          linarith
      | _ => trivial
  | create dto k =>
      cases point with
      | deducting b d => exact hknown.2.1
      | undoing e b b' d => exact hknown.1
      | recording r now =>
          exact fun rec hrec => ⟨Nat.ne_of_lt (h.records rec hrec).1, hknown.2 rec hrec⟩
      | _ => trivial

end LeaveLedger
