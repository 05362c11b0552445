import LeaveLedger.Transactions.Serial
import LeaveLedger.Transactions.Start

/-!
# Transactions — Runs that are serializable

A run from tables that the operations of the ledger can make: every request
leaves PENDING at most once, and when no transaction is open the books are in
order and the outcome is that of the calls that succeeded one after the other.
It is so when no step writes over what another call has changed, and it is not
so in general: nothing locks a row on sqlite.
-/

namespace LeaveLedger

open Js Lib

variable {env : Env}

/-! ## The invariant -/

/-- The run so far, its calls at their places, and beside it a serial run. -/
structure Followed (env : Env) (db₀ : Database) (s : Connection) (gs : List Seat) : Prop where
  seated : Seated env s gs
  lanes : LanesInv s.world gs
  known : KnownInv s.world gs
  books : Books s.db gs
  serial : ∃ order db₁, Serial env db₀ s.world gs order db₁

theorem followed_start {w : World} (h : Startable w) : Followed env w.db (.start w) [] where
  seated := seated_start w
  lanes := lanesInv_start w
  known :=
    { points := fun g hg => by cases hg
      requests := fun r hr => ⟨h.ledger.positive r hr, h.ledger.hasRow r hr⟩
      records := fun rec hrec => ⟨h.recordIds rec hrec, h.recordKeys rec hrec⟩
      storing := fun i j g g' k hg => by simp at hg
      statements := fun g hg => by cases hg }
  books b hb := by
    have haccount := h.ledger.account b hb
    simp only [pendingOf, usedOf, List.map_nil, List.sum_nil, add_zero, sub_zero]
    exact haccount
  serial := ⟨[], w.db,
    { serial := .nil
      calls := List.Perm.refl _
      ledger := h.ledger
      requests := rfl
      balances := rfl
      records := fun rec hrec => ⟨(h.recordIds rec hrec).le, h.recordKeys rec hrec⟩ }⟩

/-- **One step** keeps the invariant, when it disturbs no transaction. -/
theorem Followed.step {db₀ : Database} {s s' : Connection} {gs : List Seat} {l : ConnectionLabel}
    (h : Followed env db₀ s gs) (hund : s.Undisturbed l)
    (hstep : connectionStep env s l = some s') :
    ∃ gs', Followed env db₀ s' gs' ∧ SeatStep env s.world gs s'.world gs' := by
  have hready := h.known.ready h.books
  obtain ⟨gs', hseated, hseat⟩ := connectionStep_seat h.seated hready hund hstep
  obtain ⟨order, db₁, hserial⟩ := h.serial
  refine ⟨gs', ⟨hseated, h.lanes.step hseat, h.known.step h.lanes h.seated.places hseat,
    h.books.step h.known hseat, hserial.step h.known h.books hseat⟩, hseat⟩

theorem followed_run {w : World} (h : Startable w) {ls : List ConnectionLabel} {s : Connection}
    (hmeets : Meets (connectionStep env) Connection.Undisturbed (.start w) ls)
    (hrun : run (connectionStep env) (.start w) ls = some s) : ∃ gs, Followed env w.db s gs := by
  refine run_meets (I := fun s => ∃ gs, Followed env w.db s gs) ?_ ⟨[], followed_start h⟩ hmeets
    hrun
  intro s l s' hI hund hstep
  obtain ⟨gs, hfollowed⟩ := hI
  obtain ⟨gs', hnext, -⟩ := hfollowed.step hund hstep
  exact ⟨gs', hnext⟩

/-! ## The status of a request -/

/-- A request that is pending stays so or is settled, and one that is settled stays so. -/
theorem SeatStep.status {w w' : World} {gs gs' : List Seat} (hknown : KnownInv w gs)
    (hstep : SeatStep env w gs w' gs') {r : TimeOffRequest} (hr : r ∈ w.db.requests.rows) :
    ∃ r' ∈ w'.db.requests.rows, r'.id = r.id
      ∧ (r'.status = r.status ∨ r.status = .pending ∧ r'.status ≠ .pending) := by
  cases hstep with
  | call c => exact ⟨r, hr, rfl, .inl rfl⟩
  | tick ms => exact ⟨r, hr, rfl, .inl rfl⟩
  | @step i g g' w' commits hg hat hat' hcall hcommitted hplace =>
      cases hplace.requests (hknown.points g (List.mem_of_getElem? hg)) with
      | same heq hdone => exact ⟨r, heq ▸ hr, rfl, .inl rfl⟩
      | marked s id r₀ r' hset hid hrep hsame hpending hstatus hopen hbefore hafter =>
          by_cases hrow : r.id = r₀.id
          · obtain rfl := Table.eq_of_pk hr hrep.mem hrow
            refine ⟨r', hrep.mem_new, hsame.id, .inr ⟨hpending, ?_⟩⟩
            rw [hstatus]
            exact s.target_ne_pending
          · exact ⟨r, hrep.mem_iff.mpr (.inl ⟨hr, hrow⟩), rfl, .inl rfl⟩
      | stored dto k b b' d hcreate hpoint hd hkey hadded huuid hafter =>
          exact ⟨r, hadded.mem_iff.mpr (.inl hr), rfl, .inl rfl⟩

/-- The request has been settled. -/
def Connection.SettledRequest (id : Id) (s : Connection) : Prop :=
  ∃ r ∈ s.db.requests.rows, r.id = id ∧ r.status ≠ .pending

/-- A step that changes a status settles a request that is pending. -/
theorem Followed.settles {db₀ : Database} {s s' : Connection} {gs : List Seat}
    {l : ConnectionLabel} {id : Id} (h : Followed env db₀ s gs) (hund : s.Undisturbed l)
    (hstep : connectionStep env s l = some s') (hchanges : ChangesStatus id s s') :
    (∀ r ∈ s.db.requests.rows, r.id = id → r.status = .pending) ∧ s'.SettledRequest id := by
  obtain ⟨gs', -, hseat⟩ := h.step hund hstep
  obtain ⟨r, hr, hid, hchanged⟩ := hchanges
  obtain ⟨r', hr', hid', hstatus⟩ := hseat.status h.known hr
  have hne := hchanged r' hr' (hid'.trans hid)
  obtain hsame | ⟨hpending, hsettled⟩ := hstatus
  · exact absurd hsame hne
  · refine ⟨fun x hx hxid => ?_, r', hr', hid'.trans hid, hsettled⟩
    rw [Table.eq_of_pk hx hr (hxid.trans hid.symm)]
    exact hpending

/-- A request that has been settled stays so. -/
theorem settled_run {db₀ : Database} {s s' : Connection} {gs : List Seat}
    {ls : List ConnectionLabel} {id : Id} (h : Followed env db₀ s gs)
    (hmeets : Meets (connectionStep env) Connection.Undisturbed s ls)
    (hrun : run (connectionStep env) s ls = some s') (hsettled : s.SettledRequest id) :
    s'.SettledRequest id := by
  refine (run_meets (I := fun s => (∃ gs, Followed env db₀ s gs) ∧ s.SettledRequest id) ?_
    ⟨⟨gs, h⟩, hsettled⟩ hmeets hrun).2
  intro s l s' hI hund hstep
  obtain ⟨⟨gs, hfollowed⟩, r, hr, hid, hstatus⟩ := hI
  obtain ⟨gs', hnext, hseat⟩ := hfollowed.step hund hstep
  obtain ⟨r', hr', hid', hcases⟩ := hseat.status hfollowed.known hr
  refine ⟨⟨gs', hnext⟩, r', hr', hid'.trans hid, ?_⟩
  obtain hsame | ⟨hpending, -⟩ := hcases
  · rw [hsame]
    exact hstatus
  · exact absurd hpending hstatus

/-- Of two steps that change the status of one request neither comes first. -/
theorem not_settled_twice {w : World} (h : Startable w) {ls : List ConnectionLabel}
    (hmeets : Meets (connectionStep env) Connection.Undisturbed (.start w) ls) {id : Id} {m n : ℕ}
    {l l' : ConnectionLabel} {s₁ s₂ s₃ s₄ : Connection}
    (hm : StepAt (connectionStep env) (.start w) ls m s₁ l s₂) (hfirst : ChangesStatus id s₁ s₂)
    (hn : StepAt (connectionStep env) (.start w) ls n s₃ l' s₄) (hsecond : ChangesStatus id s₃ s₄) :
    ¬ m < n := by
  intro hlt
  obtain ⟨mid, hmid, hmeets'⟩ := hmeets.between hlt hm hn
  obtain ⟨hbefore, hund, -⟩ := hmeets.at hm
  obtain ⟨gs, hfollowed⟩ := followed_run h hbefore hm.before
  obtain ⟨-, hsettled⟩ := hfollowed.settles hund hm.step hfirst
  obtain ⟨gs', hnext, -⟩ := hfollowed.step hund hm.step
  obtain ⟨r, hr, hid, hstatus⟩ := settled_run hnext hmeets' hmid hsettled
  obtain ⟨hbefore', hund', -⟩ := hmeets.at hn
  obtain ⟨gs₃, hfollowed'⟩ := followed_run h hbefore' hn.before
  exact hstatus ((hfollowed'.settles hund' hn.step hsecond).1 r hr hid)

/-! ## When no transaction is open -/

section quiet
variable {db₀ : Database} {s : Connection} {gs : List Seat}

theorem Followed.outside (h : Followed env db₀ s gs) (hquiet : s.Quiet) :
    ∀ g ∈ gs, g.point = .outside := by
  intro g hg
  have hmem : g.1 ∈ s.sessions := by
    rw [h.seated.sessions]
    exact List.mem_map_of_mem hg
  have hat := h.seated.places g hg
  obtain ⟨⟨call, stage, committed⟩, point, phase⟩ := g
  cases stage with
  | svc p => exact hat.1
  | tx t => exact absurd rfl (hquiet _ hmem t)

/-- Then no call holds anything. -/
theorem Followed.holds_nothing (h : Followed env db₀ s gs) (hquiet : s.Quiet) (key : BalanceKey) :
    ∀ g ∈ gs, g.held key = 0 ∧ g.unspent key = 0 := by
  intro g hg
  have hnone : g.point.holding = false := by
    rw [h.outside hquiet g hg]
    rfl
  exact Point.held_eq_zero hnone g.call key

/-- Then the books are in order. -/
theorem Followed.ledgerInv (h : Followed env db₀ s gs) (hquiet : s.Quiet) : LedgerInv s.db where
  hasRow r hr := (h.known.requests r hr).2
  positive r hr := (h.known.requests r hr).1
  account b hb := by
    have hnothing := h.holds_nothing hquiet b.key
    have hheld : (gs.map (Seat.held b.key)).sum = 0 :=
      List.sum_eq_zero fun x hx => by
        obtain ⟨g, hg, rfl⟩ := List.mem_map.mp hx
        exact (hnothing g hg).1
    have hunspent : (gs.map (Seat.unspent b.key)).sum = 0 :=
      List.sum_eq_zero fun x hx => by
        obtain ⟨g, hg, rfl⟩ := List.mem_map.mp hx
        exact (hnothing g hg).2
    have haccount := h.books b hb
    rw [pendingOf, usedOf, hheld, hunspent, add_zero, sub_zero] at haccount
    exact haccount

/-- And the calls in the order are those that have been committed. -/
theorem Followed.succeeded (h : Followed env db₀ s gs) (hquiet : s.Quiet) :
    gs.filterMap Seat.ordered? = s.succeeded := by
  have hout := h.outside hquiet
  unfold Connection.succeeded
  rw [h.seated.sessions, List.filter_map, List.map_map, ← List.filterMap_eq_map,
    List.filterMap_filter]
  refine List.filterMap_congr fun g hg => ?_
  unfold Seat.ordered?
  rw [hout g hg]
  simp [Point.done]

end quiet

/-- Two databases whose books are in order, with like requests and like totals. -/
theorem sameOutcome_of_books {db db' : Database} (h : LedgerInv db) (h' : LedgerInv db')
    (hrequests : db.requests.rows.map TimeOffRequest.core
      = db'.requests.rows.map TimeOffRequest.core)
    (hbalances : db.balances.rows.map (fun b => (b.key, b.totalBalance))
      = db'.balances.rows.map (fun b => (b.key, b.totalBalance))) : SameOutcome db db' := by
  have haccounts : ∀ {db : Database}, LedgerInv db →
      db.balances.rows.map (fun b => (b.key, b.account))
        = (db.balances.rows.map fun b => (b.key, b.totalBalance)).map fun x =>
            (x.1, Account.of x.2 (daysIn .pending x.1 db.requests.rows)
              (daysIn .approved x.1 db.requests.rows)) := by
    intro db h
    rw [List.map_map]
    refine List.map_congr_left fun b hb => ?_
    rw [h.account b hb]
    rfl
  constructor
  · rw [haccounts h, haccounts h', hbalances]
    refine List.map_congr_left fun x _ => ?_
    rw [daysIn_of_core hrequests, daysIn_of_core hrequests]
  · have hmap := congrArg (List.map fun c => (c.1, c.2.2.2.2.2)) hrequests
    rw [List.map_map, List.map_map] at hmap
    exact hmap.symm

/-- **Runs in which no call writes over another's work settle serially**, from any tables that
the operations of the ledger make. -/
theorem settles_serially {clock : ℤ} {ls₀ : List (LedgerOp × List Fate)} {w₀ : World}
    (h₀ : run (ledgerStep env) (World.initial clock) ls₀ = some w₀) {ls : List ConnectionLabel}
    (hmeets : Meets (connectionStep env) Connection.Undisturbed (.start w₀) ls) {s : Connection}
    (hrun : run (connectionStep env) (.start w₀) ls = some s) : SettlesSerially env w₀ ls s := by
  have hstart := startable_run h₀
  obtain ⟨gs, hfollowed⟩ := followed_run hstart hmeets hrun
  constructor
  · intro id m n l l' s₁ s₂ s₃ s₄ hm hfirst hn hsecond
    obtain ⟨hbefore, hund, -⟩ := hmeets.at hm
    obtain ⟨gs₁, hfollowed₁⟩ := followed_run hstart hbefore hm.before
    refine ⟨?_, (hfollowed₁.settles hund hm.step hfirst).1⟩
    have hlt := not_settled_twice hstart hmeets hm hfirst hn hsecond
    have hgt := not_settled_twice hstart hmeets hn hsecond hm hfirst
    omega
  · exact hfollowed.ledgerInv
  · intro hquiet
    obtain ⟨order, db₁, hserial⟩ := hfollowed.serial
    refine ⟨order, db₁, ?_, hserial.serial, ?_⟩
    · rw [← hfollowed.succeeded hquiet]
      exact hserial.calls
    · exact sameOutcome_of_books hserial.ledger (hfollowed.ledgerInv hquiet) hserial.requests
        hserial.balances

/-- Two of ten days are requested. -/
def twoDaysRequested : List (LedgerOp × List Fate) :=
  [seed 10, (.lifecycle (.createRequest sampleDto "key-1"), [])]

def sampleApprove : Call := .settle (.approve "MGR001") 8

/-- The request is approved while another is made of the same balance. -/
def approveBesideCreate : List ConnectionLabel :=
  [.call sampleApprove, .call (.create { sampleDto with
    startDate := "2030-01-09", endDate := "2030-01-09" } "key-2")]
  -- up to the loading of the balance row
  ++ List.replicate 8 (.step 1)
  -- the request is saved
  ++ List.replicate 4 (.step 0)
  ++ List.replicate 3 (.step 1)
  ++ List.replicate 4 (.step 0)
  ++ List.replicate 3 (.step 1)

/-- The theorem at a run in which the statements of two transactions alternate. -/
theorem settles_serially_beside_create : ∃ w₀ s,
    run (ledgerStep .default) (World.initial 0) twoDaysRequested = some w₀
    ∧ run (connectionStep .default) (.start w₀) approveBesideCreate = some s
    ∧ s.sessions.map Session.committed = [true, true]
    ∧ SettlesSerially .default w₀ approveBesideCreate s := by
  have h : ((run (ledgerStep .default) (World.initial 0) twoDaysRequested).bind fun w₀ =>
      (run (connectionStep .default) (.start w₀) approveBesideCreate).map fun s =>
        decide (s.sessions.map Session.committed = [true, true]
          ∧ Meets (connectionStep .default) Connection.Undisturbed (.start w₀)
              approveBesideCreate)) = some true := by
    decide +kernel
  obtain ⟨w₀, h₀, h⟩ := Option.bind_eq_some_iff.mp h
  obtain ⟨s, hs, h⟩ := Option.map_eq_some_iff.mp h
  obtain ⟨hcommitted, hmeets⟩ := of_decide_eq_true h
  exact ⟨w₀, s, h₀, hs, hcommitted, settles_serially h₀ hmeets hs⟩

def sampleCancel : Call := .settle (.cancel none) 8

/-- Both find the request pending, and then both the balance row, before either saves it. -/
def approveBesideCancel : List ConnectionLabel :=
  [.call sampleApprove, .call sampleCancel,
    .step 0, .step 0, .step 0, .step 1, .step 1, .step 1,
    -- the request is saved, and saved again
    .step 0, .step 1,
    .step 0, .step 1,
    -- the days are released, and then used
    .step 1, .step 0,
    .step 0, .step 0, .step 1]

/-- The request is settled twice, and the release of its days is lost. -/
theorem settles_twice : ∃ w₀ s,
    run (ledgerStep .default) (World.initial 0) twoDaysRequested = some w₀
    ∧ run (connectionStep .default) (.start w₀) approveBesideCancel = some s
    ∧ s.succeeded = [sampleApprove, sampleCancel]
    ∧ s.db.requests.rows.map (fun r => (r.id, r.status)) = [(8, .cancelled)]
    ∧ s.db.balances.rows.map EmployeeBalance.account = [⟨10, 8, 0, 2⟩]
    ∧ ¬ SettlesSerially .default w₀ approveBesideCancel s := by
  have h : ((run (ledgerStep .default) (World.initial 0) twoDaysRequested).bind fun w₀ =>
      (run (connectionStep .default) (.start w₀) approveBesideCancel).map fun s =>
        decide (s.Quiet ∧ s.succeeded = [sampleApprove, sampleCancel]
          ∧ s.db.requests.rows.map (fun r => (r.id, r.status)) = [(8, .cancelled)]
          ∧ s.db.balances.rows.map EmployeeBalance.account = [⟨10, 8, 0, 2⟩]
          ∧ s.db.balances.rows.map (fun b => daysIn .approved b.key s.db.requests.rows) = [0]))
      = some true := by
    decide +kernel
  obtain ⟨w₀, h₀, h⟩ := Option.bind_eq_some_iff.mp h
  obtain ⟨s, hs, h⟩ := Option.map_eq_some_iff.mp h
  obtain ⟨hquiet, hsucceeded, hrequests, hbalances, hdays⟩ := of_decide_eq_true h
  refine ⟨w₀, s, h₀, hs, hsucceeded, hrequests, hbalances, fun hserial => ?_⟩
  -- two days are used, and no request is approved
  have hledger := hserial.books hquiet
  cases hb : s.db.balances.rows with
  | nil => simp [hb] at hbalances
  | cons b rest =>
      rw [hb] at hbalances hdays
      have haccount := hledger.account b (by rw [hb]; exact List.mem_cons_self)
      have hdays' : daysIn .approved b.key s.db.requests.rows = 0 := (List.cons.inj hdays).1
      rw [(List.cons.inj hbalances).1, hdays'] at haccount
      have hused : (2 : ℚ) = 0 := congrArg Account.used haccount
      norm_num at hused

end LeaveLedger
