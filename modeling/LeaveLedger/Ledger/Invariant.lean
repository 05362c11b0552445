import LeaveLedger.Ledger.Movement

/-!
# Ledger — The ledger invariant

`LedgerInv` ties the balance rows to the requests: the account of a row is
the one its total, its pending requests and its approved requests make
(`Account.of`). It needs two facts beside it, that every request has its
row and that its days are positive. One lemma says what a change of one
row must establish (`LedgerInv.of_replaced`); each transaction is then an
instance.
-/

namespace LeaveLedger

open Lib

structure LedgerInv (db : Database) : Prop where
  hasRow : ∀ r ∈ db.requests.rows, ∃ b ∈ db.balances.rows, b.key = r.balanceKey
  positive : ∀ r ∈ db.requests.rows, 0 < r.daysRequested
  account : ∀ b ∈ db.balances.rows, b.account = Account.of b.totalBalance
    (daysIn .pending b.key db.requests.rows) (daysIn .approved b.key db.requests.rows)

/-- Nothing is overdrawn. -/
def NonNegative (db : Database) : Prop := ∀ b ∈ db.balances.rows, 0 ≤ b.availableBalance

theorem ledgerInv_empty : LedgerInv Database.empty where
  hasRow r hr := by cases hr
  positive r hr := by cases hr
  account b hb := by cases hb

theorem nonNegative_empty : NonNegative Database.empty := fun b hb => by cases hb

/-! ## The days of a key -/

section daysIn
variable {t t' : RequestTable} {r r' : TimeOffRequest} {status : RequestStatus}
  {key : BalanceKey}

theorem daysIn_added (h : t.Added t' r) :
    daysIn status key t'.rows
      = daysIn status key t.rows
        + if r.status = status ∧ r.balanceKey = key then r.daysRequested else 0 := by
  simpa [daysIn] using h.sum
    (fun r => decide (r.status = status ∧ r.balanceKey = key)) TimeOffRequest.daysRequested

theorem daysIn_replaced (h : t.Replaced t' r r') :
    daysIn status key t'.rows
      = daysIn status key t.rows
        - (if r.status = status ∧ r.balanceKey = key then r.daysRequested else 0)
        + if r'.status = status ∧ r'.balanceKey = key then r'.daysRequested else 0 := by
  simpa [daysIn] using h.sum
    (fun r => decide (r.status = status ∧ r.balanceKey = key)) TimeOffRequest.daysRequested

/-- A request is part of its sum. -/
theorem le_daysIn (hpos : ∀ r ∈ t.rows, 0 < r.daysRequested) (hr : r ∈ t.rows) :
    r.daysRequested ≤ daysIn r.status r.balanceKey t.rows :=
  le_sumWhere (fun b hb _ => (hpos b hb).le) hr (by simp)

end daysIn

/-! ## Changing one row -/

variable {db db' : Database} {b b' : EmployeeBalance}

theorem LedgerInv.of_replaced (h : LedgerInv db)
    (hb : db.balances.Replaced db'.balances b b')
    (hreq : ∀ r ∈ db'.requests.rows,
      0 < r.daysRequested ∧ ∃ c ∈ db.balances.rows, c.key = r.balanceKey)
    (hother : ∀ k, k ≠ b.key → ∀ s,
      daysIn s k db'.requests.rows = daysIn s k db.requests.rows)
    (hacc : b'.account = Account.of b'.totalBalance
      (daysIn .pending b.key db'.requests.rows) (daysIn .approved b.key db'.requests.rows)) :
    LedgerInv db' where
  hasRow r hr := by
    obtain ⟨c, hc, hkey⟩ := (hreq r hr).2
    obtain ⟨c', hc', -, huk, -⟩ := hb.exists_of_mem hc
    exact ⟨c', hc', huk.trans hkey⟩
  positive r hr := (hreq r hr).1
  account c hc := by
    rcases hb.mem_iff.mp hc with ⟨hmem, hne⟩ | rfl
    · have hk : c.key ≠ b.key := fun heq =>
        hne (congrArg EmployeeBalance.id (Table.eq_of_uk hmem hb.mem heq))
      rw [hother c.key hk, hother c.key hk]
      exact h.account c hmem
    · rw [hb.uk_eq]
      exact hacc

/-- A row whose account is raised to a new total, or left as it is. -/
theorem LedgerInv.of_raised (h : LedgerInv db) (hb : db.balances.Replaced db'.balances b b')
    (hreq : db'.requests = db.requests)
    (hacc : b'.account = b.account ∨ ∃ t, b'.account = b.account.raiseTo t) :
    LedgerInv db' := by
  refine h.of_replaced hb (fun r hr => ?_) (fun k _ s => by rw [hreq]) ?_
  · rw [hreq] at hr
    exact ⟨h.positive r hr, h.hasRow r hr⟩
  · have hold := h.account b hb.mem
    rw [hreq]
    rcases hacc with hsame | ⟨t, hraise⟩
    · have ht : b'.totalBalance = b.totalBalance := congrArg Account.total hsame
      rw [hsame, hold, ht]
    · have ht : b'.totalBalance = t := by
        rw [show b'.totalBalance = b'.account.total from rfl, hraise]; rfl
      rw [hraise, hold, Account.raiseTo_of, ht]

/-- A new row whose whole total is available. -/
theorem LedgerInv.of_opened (h : LedgerInv db) (hb : db.balances.Added db'.balances b)
    (hreq : db'.requests = db.requests)
    (hacc : b.account = Account.of b.totalBalance 0 0) : LedgerInv db' where
  hasRow r hr := by
    rw [hreq] at hr
    obtain ⟨c, hc, hkey⟩ := h.hasRow r hr
    exact ⟨c, hb.mem_iff.mpr (Or.inl hc), hkey⟩
  positive r hr := h.positive r (hreq ▸ hr)
  account c hc := by
    rw [hreq]
    rcases hb.mem_iff.mp hc with hmem | rfl
    · exact h.account c hmem
    · -- no request can have the key of a row that was not there
      have hnone : ∀ s, daysIn s c.key db.requests.rows = 0 := by
        intro s
        refine sumWhere_eq_zero _ _ fun r hr hp => ?_
        obtain ⟨d, hd, hkey⟩ := h.hasRow r hr
        have hkey' : r.balanceKey = c.key := (of_decide_eq_true hp).2
        exact hb.uk_new d hd (hkey.trans hkey')
      rw [hnone, hnone]
      exact hacc

/-! ## The transactions keep the invariant -/

variable {w w' : World}

theorem Created.ledgerInv {env : Env} {dto : CreateTimeOffRequestDto}
    {idempotencyKey requestHash : String} {d : ℚ} {r : TimeOffRequest}
    {rec : IdempotencyRecord}
    (hc : Created env dto idempotencyKey requestHash w w' d b b' r rec) (hd : 0 < d)
    (h : LedgerInv w.db) : LedgerInv w'.db := by
  obtain ⟨id, hr⟩ := hc.request
  have hkey : r.balanceKey = b.key := by rw [hr, hc.key]; rfl
  have hdays : r.daysRequested = d := by rw [hr]; rfl
  have hstatus : r.status = .pending := by rw [hr]; rfl
  refine h.of_replaced hc.balances (fun x hx => ?_) (fun k hk s => ?_) ?_
  · rcases hc.requests.mem_iff.mp hx with hold | rfl
    · exact ⟨h.positive x hold, h.hasRow x hold⟩
    · exact ⟨hdays ▸ hd, b, hc.balances.mem, hkey.symm⟩
  · rw [daysIn_added hc.requests, if_neg (fun hp => hk (hp.2.symm.trans hkey)), add_zero]
  · have hold := h.account b hc.balances.mem
    have hacc := hc.account
    rw [hold, Account.reserve_of] at hacc
    have ht : b'.totalBalance = b.totalBalance := congrArg Account.total hacc
    rw [hacc, ht, daysIn_added hc.requests, daysIn_added hc.requests, hstatus, hkey, hdays]
    simp

theorem Settled.ledgerInv {s : Settlement} {requestId : Id} {r r' : TimeOffRequest}
    (hs : Settled s requestId w w' r r' b b') (h : LedgerInv w.db) : LedgerInv w'.db := by
  refine h.of_replaced hs.balances (fun x hx => ?_) (fun k hk st => ?_) ?_
  · rcases hs.requests.mem_iff.mp hx with ⟨hold, -⟩ | rfl
    · exact ⟨h.positive x hold, h.hasRow x hold⟩
    · rw [hs.days, hs.balanceKey]
      exact ⟨h.positive r hs.requests.mem, h.hasRow r hs.requests.mem⟩
  · rw [daysIn_replaced hs.requests, hs.balanceKey, ← hs.key,
      if_neg (fun hp => hk hp.2.symm), if_neg (fun hp => hk hp.2.symm)]
    ring
  · have hold := h.account b hs.balances.mem
    have hacc := hs.account
    rw [hold] at hacc
    rw [daysIn_replaced hs.requests, daysIn_replaced hs.requests, hs.balanceKey, ← hs.key,
      hs.pending, hs.status, hs.days]
    cases s with
    | approve a =>
        simp only [Settlement.op, Account.finalize_of] at hacc
        have ht : b'.totalBalance = b.totalBalance := congrArg Account.total hacc
        rw [hacc, ht]
        simp [Settlement.target]
    | reject a reason =>
        simp only [Settlement.op, Account.release_of] at hacc
        have ht : b'.totalBalance = b.totalBalance := congrArg Account.total hacc
        rw [hacc, ht]
        simp [Settlement.target]
    | cancel reason =>
        simp only [Settlement.op, Account.release_of] at hacc
        have ht : b'.totalBalance = b.totalBalance := congrArg Account.total hacc
        rw [hacc, ht]
        simp [Settlement.target]

/-! ## Nothing gets overdrawn -/

theorem NonNegative.of_replaced (h : NonNegative db)
    (hb : db.balances.Replaced db'.balances b b') (hnew : 0 ≤ b'.availableBalance) :
    NonNegative db' := by
  intro c hc
  rcases hb.mem_iff.mp hc with ⟨hmem, -⟩ | rfl
  · exact h c hmem
  · exact hnew

theorem Created.nonNegative {env : Env} {dto : CreateTimeOffRequestDto}
    {idempotencyKey requestHash : String} {d : ℚ} {r : TimeOffRequest}
    {rec : IdempotencyRecord}
    (hc : Created env dto idempotencyKey requestHash w w' d b b' r rec)
    (h : NonNegative w.db) : NonNegative w'.db := by
  refine h.of_replaced hc.balances ?_
  have hav : b'.availableBalance = b.availableBalance - d :=
    congrArg Account.available hc.account
  have henough := hc.enough
  linarith

theorem Settled.nonNegative {s : Settlement} {requestId : Id} {r r' : TimeOffRequest}
    (hs : Settled s requestId w w' r r' b b') (hdays : 0 < r.daysRequested)
    (h : NonNegative w.db) : NonNegative w'.db := by
  refine h.of_replaced hs.balances ?_
  have hold := h b hs.balances.mem
  have hav : b'.availableBalance = (s.op b.account r.daysRequested).available :=
    congrArg Account.available hs.account
  cases s with
  | approve a =>
      rw [hav]
      exact hold
  | reject a reason =>
      rw [hav]
      exact add_nonneg hold hdays.le
  | cancel reason =>
      rw [hav]
      exact add_nonneg hold hdays.le

end LeaveLedger
