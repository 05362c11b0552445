import LeaveLedger.Transactions.Books
import LeaveLedger.Transactions.Alone

/-!
# Transactions — The serial order

Beside the run whole calls are made one after the other: a settlement when it
saves its request, a create when it stores its own. `Serial` says how their
tables resemble those of the run. The requests are the same but for the
columns that tell the time, and of the balances only the totals, since the
days of a call are moved in one step here and in several there.
-/

namespace LeaveLedger

open Js Lib

/-- The columns of a request that a serial run has as well. -/
def TimeOffRequest.core (r : TimeOffRequest) :
    Id × String × BalanceKey × (String × String) × ℚ × RequestStatus :=
  (r.id, r.idempotencyKey, r.balanceKey, (r.startDate, r.endDate), r.daysRequested, r.status)

theorem TimeOffRequest.core_inj {r r' : TimeOffRequest} :
    r.core = r'.core ↔ SameRequest r r' ∧ r'.status = r.status := by
  constructor
  · intro h
    simp only [core, balanceKey, Prod.mk.injEq] at h
    obtain ⟨hid, hkey, ⟨hemp, hloc, htype⟩, ⟨hstart, hend⟩, hdays, hstatus⟩ := h
    exact ⟨⟨hid.symm, hkey.symm, hemp.symm, hloc.symm, htype.symm, hstart.symm, hend.symm,
      hdays.symm⟩, hstatus.symm⟩
  · rintro ⟨hsame, hstatus⟩
    simp only [core, hsame.id, hsame.idempotencyKey, hsame.balanceKey, hsame.startDate,
      hsame.endDate, hsame.daysRequested, hstatus]

/-- The days of a key are the same where the requests look alike. -/
theorem daysIn_of_core {l l' : List TimeOffRequest}
    (h : l.map TimeOffRequest.core = l'.map TimeOffRequest.core) (status : RequestStatus)
    (key : BalanceKey) : daysIn status key l = daysIn status key l' := by
  have hdays : ∀ l : List TimeOffRequest, daysIn status key l
      = sumWhere (fun c => c.2.2.2.2.2 = status ∧ c.2.2.1 = key) (fun c => c.2.2.2.2.1)
        (l.map TimeOffRequest.core) := by
    intro l
    simp only [daysIn, sumWhere, List.filter_map, List.map_map]
    rfl
  rw [hdays, hdays, h]

/-- The days of a pending request are pending in its balance row. -/
theorem LedgerInv.pending_covers {db : Database} (h : LedgerInv db) {r : TimeOffRequest}
    (hr : r ∈ db.requests.rows) (hpending : r.status = .pending) :
    ∃ b ∈ db.balances.rows, b.key = r.balanceKey ∧ r.daysRequested ≤ b.pendingBalance := by
  obtain ⟨b, hb, hkey⟩ := h.hasRow r hr
  have hsum := le_daysIn h.positive hr
  rw [hpending, ← hkey] at hsum
  have hbalance : b.pendingBalance = daysIn .pending b.key db.requests.rows :=
    congrArg Account.pending (h.account b hb)
  exact ⟨b, hb, hkey, hsum.trans_eq hbalance.symm⟩

/-! ## The serial run beside the run -/

/-- The call, when it has its place in the order. -/
def Seat.ordered? (g : Seat) : Option Call :=
  if g.1.committed || g.point.done then some g.call else none

/-- `db'` is what whole calls in this order make of `db₀`, and resembles the tables of the run. -/
structure Serial (env : Env) (db₀ : Database) (w : World) (gs : List Seat) (order : List Call)
    (db' : Database) : Prop where
  serial : Serially env db₀ order db'
  calls : order.Perm (gs.filterMap Seat.ordered?)
  ledger : LedgerInv db'
  requests : db'.requests.rows.map TimeOffRequest.core
    = w.db.requests.rows.map TimeOffRequest.core
  balances : db'.balances.rows.map (fun b => (b.key, b.totalBalance))
    = w.db.balances.rows.map (fun b => (b.key, b.totalBalance))
  records : ∀ rec ∈ db'.records.rows,
    rec.id ≤ w.uuid ∧ ∃ r ∈ db'.requests.rows, r.idempotencyKey = rec.idempotencyKey

variable {env : Env} {db₀ db₁ : Database} {w w' : World} {gs gs' : List Seat} {order : List Call}

namespace Serial

/-- A request of the run, in the serial run. -/
theorem request (h : Serial env db₀ w gs order db₁) {r : TimeOffRequest}
    (hr : r ∈ w.db.requests.rows) :
    ∃ x ∈ db₁.requests.rows, SameRequest x r ∧ r.status = x.status := by
  have hcore : r.core ∈ db₁.requests.rows.map TimeOffRequest.core := by
    rw [h.requests]
    exact List.mem_map_of_mem hr
  obtain ⟨x, hx, heq⟩ := List.mem_map.mp hcore
  exact ⟨x, hx, TimeOffRequest.core_inj.mp heq⟩

theorem request_back (h : Serial env db₀ w gs order db₁) {r : TimeOffRequest}
    (hr : r ∈ db₁.requests.rows) :
    ∃ x ∈ w.db.requests.rows, SameRequest r x ∧ x.status = r.status := by
  have hcore : r.core ∈ w.db.requests.rows.map TimeOffRequest.core := by
    rw [← h.requests]
    exact List.mem_map_of_mem hr
  obtain ⟨x, hx, heq⟩ := List.mem_map.mp hcore
  exact ⟨x, hx, TimeOffRequest.core_inj.mp heq.symm⟩

/-- A balance of the run, in the serial run. -/
theorem balance (h : Serial env db₀ w gs order db₁) {b : EmployeeBalance}
    (hb : b ∈ w.db.balances.rows) :
    ∃ x ∈ db₁.balances.rows, x.key = b.key ∧ x.totalBalance = b.totalBalance := by
  have hmem : (b.key, b.totalBalance)
      ∈ db₁.balances.rows.map fun b => (b.key, b.totalBalance) := by
    rw [h.balances]
    exact List.mem_map_of_mem (f := fun b : EmployeeBalance => (b.key, b.totalBalance)) hb
  obtain ⟨x, hx, heq⟩ := List.mem_map.mp hmem
  exact ⟨x, hx, (Prod.mk.inj heq).1, (Prod.mk.inj heq).2⟩

/-- A step that is none of the serial run. -/
theorem idle (h : Serial env db₀ w gs order db₁)
    (hcalls : gs'.filterMap Seat.ordered? = gs.filterMap Seat.ordered?)
    (hrequests : w'.db.requests = w.db.requests)
    (hbalances : w'.db.balances.rows.map (fun b => (b.key, b.totalBalance))
      = w.db.balances.rows.map (fun b => (b.key, b.totalBalance)))
    (huuid : w.uuid ≤ w'.uuid) : Serial env db₀ w' gs' order db₁ where
  serial := h.serial
  calls := by rw [hcalls]; exact h.calls
  ledger := h.ledger
  requests := by rw [hrequests]; exact h.requests
  balances := by rw [hbalances]; exact h.balances
  records := fun rec hrec => ⟨(h.records rec hrec).1.trans huuid, (h.records rec hrec).2⟩

/-- **A settlement takes its place in the order** when its request has been saved. -/
theorem settle (h : Serial env db₀ w gs order db₁) {s : Settlement} {id : Id}
    {r r' : TimeOffRequest}
    (hcalls : (order ++ [Call.settle s id]).Perm (gs'.filterMap Seat.ordered?))
    (hid : r.id = id) (hrep : w.db.requests.Replaced w'.db.requests r r')
    (hsame : SameRequest r r') (hpending : r.status = .pending) (hstatus : r'.status = s.target)
    (hbalances : w'.db.balances.rows.map (fun b => (b.key, b.totalBalance))
      = w.db.balances.rows.map (fun b => (b.key, b.totalBalance)))
    (huuid : w.uuid ≤ w'.uuid) :
    ∃ db₂, Serial env db₀ w' gs' (order ++ [Call.settle s id]) db₂ := by
  -- the request is pending in the serial run too
  obtain ⟨x, hx, hxr, hxstatus⟩ := h.request hrep.mem
  have hxpending : x.status = .pending := hxstatus.symm.trans hpending
  obtain ⟨b, hb, hbkey, henough⟩ := h.ledger.pending_covers hx hxpending
  obtain ⟨body, x', b', v, halone, hset⟩ := settlement_alone (s := s)
    (w := { World.initial 0 with db := db₁ }) hx (hxr.id.symm.trans hid) hxpending hb hbkey henough
  have hxsame : SameRequest x x' := saveOver_same hset.row
  have hkept : ∀ k, (∃ r ∈ db₁.requests.rows, r.idempotencyKey = k) →
      ∃ r ∈ v.db.requests.rows, r.idempotencyKey = k := by
    rintro k ⟨y, hy, rfl⟩
    obtain ⟨y', hy', -, hkey, -⟩ := hset.requests.exists_of_mem hy
    exact ⟨y', hy', hkey⟩
  refine ⟨v.db,
    ⟨.call h.serial halone, hcalls, hset.ledgerInv h.ledger, ?_, ?_, fun rec hrec => ?_⟩⟩
  · refine hset.requests.map_congr hrep (g := Prod.fst) (fun _ => rfl) h.requests
      (TimeOffRequest.core_inj.mpr ⟨hxr, hxstatus⟩) (TimeOffRequest.core_inj.mpr ⟨?_, ?_⟩)
    · exact hxsame.symm.trans (hxr.trans hsame)
    · exact hstatus.trans hset.status.symm
  · rw [hbalances, ← h.balances]
    refine hset.balances.map_same ?_
    have htotal : b'.totalBalance = b.totalBalance := by
      have hop := congrArg Account.total hset.account
      cases s <;> exact hop
    exact Prod.ext hset.balances.uk_eq htotal
  · have hold : rec ∈ db₁.records.rows := by
      rw [hset.records] at hrec
      exact hrec
    exact ⟨(h.records rec hold).1.trans huuid, hkept _ (h.records rec hold).2⟩

/-- A row of the serial run has as much available as that of the run, and what the calls hold of
it beside. -/
theorem available (h : Serial env db₀ w gs order db₁) (hbooks : Books w.db gs)
    {x b : EmployeeBalance} (hx : x ∈ db₁.balances.rows) (hb : b ∈ w.db.balances.rows)
    (hkey : x.key = b.key) (htotal : x.totalBalance = b.totalBalance) :
    x.availableBalance = b.availableBalance
      + ((gs.map (Seat.held b.key)).sum - (gs.map (Seat.unspent b.key)).sum) := by
  have hserial : x.availableBalance = x.totalBalance
      - daysIn .pending x.key db₁.requests.rows - daysIn .approved x.key db₁.requests.rows :=
    congrArg Account.available (h.ledger.account x hx)
  have hrun : b.availableBalance
      = b.totalBalance - pendingOf w.db gs b.key - usedOf w.db gs b.key :=
    congrArg Account.available (hbooks b hb)
  rw [hserial, hrun, hkey, htotal, daysIn_of_core h.requests, daysIn_of_core h.requests]
  unfold pendingOf usedOf
  ring

/-! A create that has deducted its days and is about to store its request. -/

section create
variable {g : Seat} {dto : CreateTimeOffRequestDto} {k : String} {b b' : EmployeeBalance} {d : ℚ}

/-- Its days are available in the serial run. -/
theorem covers (h : Serial env db₀ w gs order db₁) (hknown : KnownInv w gs)
    (hbooks : Books w.db gs) (hg : g ∈ gs) (hcall : g.call = .create dto k)
    (hpoint : g.point = .inserting b b' d) (hkey : b.key = dto.balanceKey) :
    ∃ x ∈ db₁.balances.rows, x.key = dto.balanceKey ∧ d ≤ x.availableBalance := by
  have hmine : Point.Known w.db (.create dto k) (.inserting b b' d) := by
    rw [← hcall, ← hpoint]
    exact hknown.points g hg
  obtain ⟨-, ⟨b₀, hb₀, -, hkey₀⟩, -, hcovers⟩ := hmine
  obtain ⟨x, hx, hxkey, hxtotal⟩ := h.balance hb₀
  refine ⟨x, hx, hxkey.trans (hkey₀.trans hkey), ?_⟩
  have hreserved := reserved_le_sum hknown.points hg b₀.key
  have hheld : g.held b₀.key - g.unspent b₀.key = d := by
    unfold Seat.held Seat.unspent
    rw [hpoint, hcall]
    simp [Point.held, Point.unspent, ← hkey, hkey₀]
  have hav := hcovers b₀ hb₀ hkey₀
  rw [h.available hbooks hx hb₀ hxkey hxtotal]
  linarith

/-- Its dates are free in the serial run. -/
theorem freeDates (h : Serial env db₀ w gs order db₁) (hfree : FreeDates dto w.db) :
    FreeDates dto db₁ := by
  intro y hy hemp hloc hactive
  obtain ⟨y', hy', hsame, hstatus⟩ := h.request_back hy
  rw [← hsame.startDate, ← hsame.endDate]
  refine hfree y' hy' (hsame.employeeId.trans hemp) (hsame.locationId.trans hloc) ?_
  unfold TimeOffRequest.isActive at hactive ⊢
  rw [hstatus]
  exact hactive

/-- The call alone starts six ids back: then its request has the id that it has in the run. -/
theorem creatable (h : Serial env db₀ w gs order db₁) (hfree : FreeDates dto w.db)
    (hd : daysOf dto = some d)
    (hadded : w.db.requests.Added w'.db.requests ((newRequest dto k d).toRow w.uuid w.clock))
    (hsix : 6 ≤ w.uuid) {x : EmployeeBalance} (hx : x ∈ db₁.balances.rows)
    (hxkey : x.key = dto.balanceKey) (henough : d ≤ x.availableBalance) (now : ℤ) :
    Creatable dto k d x { World.initial now with db := db₁, uuid := w.uuid - 6 + 2 } := by
  have hid : w.uuid - 6 + 6 = w.uuid := Nat.sub_add_cancel hsix
  have hnewRequest : ∀ r ∈ db₁.requests.rows, r.id ≠ w.uuid - 6 + 6 ∧ r.idempotencyKey ≠ k := by
    intro r hr
    obtain ⟨r', hr', hsame, -⟩ := h.request_back hr
    rw [hid, ← hsame.id, ← hsame.idempotencyKey]
    exact ⟨hadded.pk_new r' hr', hadded.uk_new r' hr'⟩
  have hnewRecord : ∀ rec ∈ db₁.records.rows,
      rec.id ≠ w.uuid - 6 + 7 ∧ rec.idempotencyKey ≠ k := by
    intro rec hrec
    obtain ⟨hle, r, hr, hrk⟩ := h.records rec hrec
    refine ⟨?_, hrk ▸ (hnewRequest r hr).2⟩
    rw [show w.uuid - 6 + 7 = w.uuid + 1 from congrArg (· + 1) hid]
    exact Nat.ne_of_lt (Nat.lt_succ_of_le hle)
  exact ⟨h.freeDates hfree, hd, hx, hxkey, henough, hnewRequest, hnewRecord⟩

/-- **A create takes its place in the order** when it has stored its request. -/
theorem create (h : Serial env db₀ w gs order db₁) (hknown : KnownInv w gs)
    (hbooks : Books w.db gs) (hg : g ∈ gs) (hat : g.1.At env g.2)
    (hcall : g.call = .create dto k) (hpoint : g.point = .inserting b b' d)
    (hcalls : (order ++ [Call.create dto k]).Perm (gs'.filterMap Seat.ordered?))
    (hd : daysOf dto = some d) (hkey : b.key = dto.balanceKey)
    (hadded : w.db.requests.Added w'.db.requests ((newRequest dto k d).toRow w.uuid w.clock))
    (hbalances : w'.db.balances.rows.map (fun b => (b.key, b.totalBalance))
      = w.db.balances.rows.map (fun b => (b.key, b.totalBalance)))
    (huuid : w'.uuid = w.uuid + 1) :
    ∃ db₂, Serial env db₀ w' gs' (order ++ [Call.create dto k]) db₂ := by
  have hmine : Point.Known w.db (.create dto k) (.inserting b b' d) := by
    rw [← hcall, ← hpoint]
    exact hknown.points g hg
  have hopen : g.point ≠ .outside := by
    rw [hpoint]
    exact Point.noConfusion
  obtain ⟨-, hentered⟩ := hat.entered hopen
  rw [show g.1.call = _ from hcall] at hentered
  obtain ⟨hvalid, ⟨now, hnow⟩, t, hphase⟩ := hentered
  have hsix : 6 ≤ w.uuid := by
    have hle := hknown.statements g hg
    rw [hpoint, show g.phase = _ from hphase] at hle
    exact hle
  have hid : w.uuid - 6 + 6 = w.uuid := Nat.sub_add_cancel hsix
  obtain ⟨x, hx, hxkey, henough⟩ := h.covers hknown hbooks hg hcall hpoint hkey
  obtain ⟨body, v, halone, hstores⟩ := create_alone env
    (w := { World.initial now with db := db₁, uuid := w.uuid - 6 }) hvalid hnow rfl
    (h.creatable hmine.1 hd hadded hsix hx hxkey henough now)
  obtain ⟨x', hrep, htotal⟩ := hstores.balance
  obtain ⟨rec, hrecAdded, hrecId, hrecKey⟩ := hstores.record
  refine ⟨v.db, ⟨.call h.serial halone, hcalls, hstores.ledger h.ledger, ?_, ?_, fun y hy => ?_⟩⟩
  · rw [hstores.request.rows, hadded.rows, List.map_append, List.map_append, h.requests, hid]
    rfl
  · rw [hbalances, ← h.balances]
    exact hrep.map_same (Prod.ext hrep.uk_eq htotal)
  · rw [huuid]
    rcases hrecAdded.mem_iff.mp hy with hold | rfl
    · obtain ⟨hle, r, hr, hrk⟩ := h.records y hold
      exact ⟨Nat.le_succ_of_le hle, r, hstores.request.mem_iff.mpr (.inl hr), hrk⟩
    · rw [hrecId, hid, hrecKey]
      exact ⟨Nat.le_refl _, _, hstores.request.mem_iff.mpr (.inr rfl), rfl⟩

end create

end Serial

/-- **One step keeps the serial run**, or adds a call to it. -/
theorem Serial.step (h : Serial env db₀ w gs order db₁) (hknown : KnownInv w gs)
    (hbooks : Books w.db gs) (hstep : SeatStep env w gs w' gs') :
    ∃ order' db₂, Serial env db₀ w' gs' order' db₂ := by
  cases hstep with
  | call c =>
      refine ⟨order, db₁, h.idle ?_ rfl rfl (Nat.le_refl _)⟩
      rw [List.filterMap_append]
      simp [Seat.ordered?, Point.done]
  | tick ms => exact ⟨order, db₁, h.idle rfl rfl rfl (Nat.le_refl _)⟩
  | @step i g g' w' commits hg hat hat' hcall hcommitted hplace =>
      have hmem : g ∈ gs := List.mem_of_getElem? hg
      have hmine := hknown.points g hmem
      have hbalances : w'.db.balances.rows.map (fun b => (b.key, b.totalBalance))
          = w.db.balances.rows.map (fun b => (b.key, b.totalBalance)) := by
        rcases hplace.balances hmine with hsame | ⟨b, b', hrep, htotal, -⟩
        · rw [hsame]
        · exact hrep.map_same (Prod.ext hrep.uk_eq htotal)
      have huuid := hplace.statements.1
      -- a call that comes to its place in the order is not committed yet
      have hnew : g.point ≠ .outside → g.point.done = false → g'.point.done = true →
          (order ++ [g.call]).Perm ((gs.set i g').filterMap Seat.ordered?) := by
        intro hopen hbefore hafter
        have hnone : g.ordered? = none := by
          unfold Seat.ordered?
          rw [(hat.entered hopen).1, hbefore]
          rfl
        have hsome : g'.ordered? = some g.call := by
          unfold Seat.ordered?
          rw [hafter, Bool.or_true, hcall]
          rfl
        exact (h.calls.append_right _).trans (filterMap_set_some hg hnone hsome)
      cases hplace.requests hmine with
      | same heq hdone =>
          refine ⟨order, db₁, h.idle (filterMap_set_same hg ?_) heq hbalances huuid⟩
          have hdone' : (commits || g'.point.done) = g.point.done := hdone
          unfold Seat.ordered?
          rw [hcall, hcommitted, Bool.or_assoc, hdone']
      | marked s id r r' hset hid hrep hsame hpending hstatus hopen hbefore hafter =>
          have hcalls := hnew hopen hbefore hafter
          rw [hset] at hcalls
          exact ⟨_, h.settle hcalls hid hrep hsame hpending hstatus hbalances huuid⟩
      | stored dto k b b' d hcreate hpoint hd hkey hadded hnext hafter =>
          have hpoint' : g.point = .inserting b b' d := hpoint
          have hcalls := hnew (by rw [hpoint']; exact Point.noConfusion) (by rw [hpoint']; rfl)
            hafter
          rw [hcreate] at hcalls
          exact ⟨_, h.create hknown hbooks hmem hat hcreate hpoint' hcalls hd hkey hadded hbalances
            hnext⟩

end LeaveLedger
