import LeaveLedger.Store.Entities
import LeaveLedger.Lib.Table
import Mathlib.Tactic.Linarith

/-!
# Ledger — Accounts

What a balance row is for: an account that is a function of a total and of
the days that are pending and used (`Account.of`). Each movement of days
is an operation on accounts, and on accounts of that form it changes only
what it is named after. `EmployeeBalance.account` reads the account off a
row.
-/

namespace LeaveLedger

open Lib

@[ext] structure Account where
  total : ℚ
  available : ℚ
  pending : ℚ
  used : ℚ
  deriving DecidableEq

namespace Account

/-- The account with a given total whose days are pending and used as said. -/
def of (total pending used : ℚ) : Account := ⟨total, total - pending - used, pending, used⟩

/-- `available + pending + used = total`. -/
def Balanced (a : Account) : Prop := a.available + a.pending + a.used = a.total

theorem balanced_of (total pending used : ℚ) : (of total pending used).Balanced := by
  simp only [Balanced, of]; ring

/-- Days go from available to pending. -/
def reserve (a : Account) (d : ℚ) : Account :=
  { a with available := a.available - d, pending := a.pending + d }

/-- Days go back from pending to available. -/
def release (a : Account) (d : ℚ) : Account :=
  { a with available := a.available + d, pending := a.pending - d }

/-- Days go from pending to used. -/
def finalize (a : Account) (d : ℚ) : Account :=
  { a with pending := a.pending - d, used := a.used + d }

/-- The total rises to `t` and what it gains is available. -/
def raiseTo (a : Account) (t : ℚ) : Account :=
  { a with total := t, available := a.available + (t - (a.used + a.pending + a.available)) }

theorem reserve_of (t p u d : ℚ) : (of t p u).reserve d = of t (p + d) u := by
  refine Account.ext rfl ?_ rfl rfl
  simp only [reserve, of]
  ring

/-- An account from which days were reserved, before that. -/
theorem eq_of_reserve {a : Account} {t p u d : ℚ} (h : a.reserve d = of t p u) :
    a = of t (p - d) u := by
  have htotal : a.total = t := congrArg Account.total h
  have hav : a.available - d = t - p - u := congrArg Account.available h
  have hpending : a.pending + d = p := congrArg Account.pending h
  have hused : a.used = u := congrArg Account.used h
  refine Account.ext htotal ?_ ?_ hused
  · show a.available = t - (p - d) - u
    linarith
  · show a.pending = p - d
    linarith

theorem release_of (t p u d : ℚ) : (of t p u).release d = of t (p - d) u := by
  refine Account.ext rfl ?_ rfl rfl
  simp only [release, of]
  ring

theorem finalize_of (t p u d : ℚ) : (of t p u).finalize d = of t (p - d) (u + d) := by
  refine Account.ext rfl ?_ rfl rfl
  simp only [finalize, of]
  ring

theorem raiseTo_of (t p u t' : ℚ) : (of t p u).raiseTo t' = of t' p u := by
  refine Account.ext rfl ?_ rfl rfl
  simp only [raiseTo, of]
  ring

end Account

/-- The account a balance row holds. -/
def EmployeeBalance.account (b : EmployeeBalance) : Account :=
  ⟨b.totalBalance, b.availableBalance, b.pendingBalance, b.usedBalance⟩

/-- The days of the requests of one key that are in one status. -/
def daysIn (status : RequestStatus) (key : BalanceKey) (requests : List TimeOffRequest) : ℚ :=
  sumWhere (fun r => r.status = status ∧ r.balanceKey = key) TimeOffRequest.daysRequested requests

end LeaveLedger
