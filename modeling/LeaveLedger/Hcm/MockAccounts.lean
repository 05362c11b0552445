import LeaveLedger.Hcm.MockServer
import LeaveLedger.Lib.Accounts
import Mathlib.Tactic.Linarith

/-!
# Hcm — The accounts of the mock HCM

Over any run of both applications, with requests refused, delayed and served
in any order, the days available under a key are those that were put there
less those that successful answers took off. No answer takes off more than
there is, and apart from injected records the two columns are always equal.
-/

namespace LeaveLedger

namespace MockServer

open Lib

variable {p : Instability} {k : String}

/-! ## Columns under a key -/

/-- A column of the record under a key, zero where there is none. -/
def columnOf (column : Balance → ℚ) (k : String) (balances : LiveMap String Balance) : ℚ :=
  ((balances.get k).map column).getD 0

/-- The days available under a key. -/
def State.available (k : String) (s : State) : ℚ :=
  columnOf Balance.availableBalance k s.hcmBalances

theorem columnOf_set (column : Balance → ℚ) (k key : String) (record : Balance)
    (balances : LiveMap String Balance) : columnOf column k (balances.set key record)
      = if key = k then column record else columnOf column k balances := by
  unfold columnOf
  by_cases hkey : key = k
  · rw [if_pos hkey, hkey, LiveMap.get_set_self]
    rfl
  · rw [if_neg hkey, LiveMap.get_set_of_ne (Ne.symm hkey)]

/-- The record that is made where there is none has nothing in its columns. -/
theorem columnOf_ensure {column : Balance → ℚ} (hzero : ∀ s, column (emptyBalance s) = 0)
    (k : String) (subject : Subject) (balances : LiveMap String Balance) :
    columnOf column k (ensureBalanceRecord subject balances).2 = columnOf column k balances := by
  unfold ensureBalanceRecord
  cases hget : balances.get (getBalanceKey subject) with
  | some record => rfl
  | none =>
      rw [columnOf_set]
      split
      · rename_i hkey
        rw [hzero, columnOf, ← hkey, hget]
        rfl
      · rfl

theorem ensure_column {column : Balance → ℚ} (hzero : ∀ s, column (emptyBalance s) = 0)
    (subject : Subject) (balances : LiveMap String Balance) :
    column (ensureBalanceRecord subject balances).1
      = columnOf column (getBalanceKey subject) balances := by
  unfold ensureBalanceRecord columnOf
  cases hget : balances.get (getBalanceKey subject) with
  | some record => rfl
  | none => exact hzero subject

/-! ## Credits and debits -/

/-- The days that a request served with success puts under its key. -/
def ApiRequest.returned : ApiRequest → ℚ
  | .putBalance _ daysRequested action => if action = "REJECT" then daysRequested.getD 0 else 0
  | _ => 0

/-- The days that it takes off. -/
def ApiRequest.taken : ApiRequest → ℚ
  | .putBalance _ daysRequested action => if action = "APPROVE" then daysRequested.getD 0 else 0
  | .timeOff _ daysRequested _ => daysRequested.getD 0
  | _ => 0

def ApiRequest.key : ApiRequest → Option String
  | .getBalance subject => some (getBalanceKey subject)
  | .validate subject _ => some (getBalanceKey subject)
  | .timeOff subject _ _ => some (getBalanceKey subject)
  | .putBalance subject _ _ => some (getBalanceKey subject)
  | .batchSync => none

/-- `x` for a request that changes the record of the key, nothing for any other. -/
def whereServed (k : String) (now : ℤ) (s : State) (request : ApiRequest) (x : ℚ) : ℚ :=
  if request.key = some k ∧ (serve now s request).1.succeeds then x else 0

/-- The days put under a key in an event. -/
def credits (k : String) (s : State) : Event → ℚ
  | .arrives _ _ => 0
  | .served request now => whereServed k now s request request.returned
  | .admin (.inject subject _ availableBalance) _ =>
      if getBalanceKey subject = k then availableBalance else 0
  | .admin (.anniversaryRefresh employeeId locationId leaveType grantDays) _ =>
      match s.hcmBalances.get k with
      | none => 0
      | some r =>
          if 0 < grantDays.getD 1 ∧ admits employeeId locationId leaveType r then grantDays.getD 1
          else 0
  | .admin (.yearRefresh defaultTotal) _ =>
      match s.hcmBalances.get k with
      | none => 0
      | some _ => if 0 ≤ defaultTotal.getD 15 then defaultTotal.getD 15 else 0
  | .admin (.behavior _ _ _ _ _) _ => 0
  | .admin .resetBehavior _ => 0

/-- The days taken off a key in an event. What is set anew has been taken off before. -/
def debits (k : String) (s : State) : Event → ℚ
  | .arrives _ _ => 0
  | .served request now => whereServed k now s request request.taken
  | .admin (.inject subject _ _) _ => if getBalanceKey subject = k then s.available k else 0
  | .admin (.anniversaryRefresh _ _ _ _) _ => 0
  | .admin (.yearRefresh defaultTotal) _ =>
      if 0 ≤ defaultTotal.getD 15 then s.available k else 0
  | .admin (.behavior _ _ _ _ _) _ => 0
  | .admin .resetBehavior _ => 0

/-! ## Served requests -/

section served
variable {column : Balance → ℚ} (hzero : ∀ s, column (emptyBalance s) = 0)
  (hcredit : ∀ r days version, column (Balance.credit r days version) = column r + days)
include hzero hcredit

theorem timeOff_column (now : ℤ) (s : State) (subject : Subject) (daysRequested : Option ℚ)
    (referenceId : Option String) :
    columnOf column k (timeOff now s subject daysRequested referenceId).2.hcmBalances
      = columnOf column k s.hcmBalances
        - if getBalanceKey subject = k
            ∧ (timeOff now s subject daysRequested referenceId).1.succeeds
          then daysRequested.getD 0 else 0 := by
  unfold timeOff
  cases daysRequested with
  | none => simp [Reply.succeeds]
  | some days =>
      have hensure := columnOf_ensure hzero k subject s.hcmBalances
      have hcolumn := ensure_column hzero subject s.hcmBalances
      simp only
      split
      · simp [Reply.succeeds]
      split
      · simp [Reply.succeeds]
      split
      · simp [Reply.succeeds, insufficientBalance, hensure]
      · simp only [columnOf_set, hcredit, hensure, hcolumn, Reply.succeeds, and_true,
          Option.getD_some]
        split
        · rename_i hkey
          rw [hkey]
          ring
        · ring

theorem putBalance_column (now : ℤ) (s : State) (subject : Subject) (daysRequested : Option ℚ)
    (action : String) :
    columnOf column k (putBalance now s subject daysRequested action).2.hcmBalances
      = columnOf column k s.hcmBalances
        + if getBalanceKey subject = k ∧ (putBalance now s subject daysRequested action).1.succeeds
          then (if action = "REJECT" then daysRequested.getD 0 else 0)
            - (if action = "APPROVE" then daysRequested.getD 0 else 0) else 0 := by
  have hensure := columnOf_ensure hzero k subject s.hcmBalances
  have hcolumn := ensure_column hzero subject s.hcmBalances
  unfold putBalance
  simp only
  split
  · rename_i happrove
    subst happrove
    split
    · simp [Reply.succeeds, insufficientBalance, hensure]
    · simp only [columnOf_set, hcredit, hensure, hcolumn, Reply.succeeds, and_true]
      split
      · rename_i hkey
        rw [hkey]
        simp
      · simp
  · split
    · rename_i hreject
      subst hreject
      simp only [columnOf_set, hcredit, hensure, hcolumn, Reply.succeeds, and_true]
      split
      · rename_i hkey
        rw [hkey]
        simp
      · simp
    · simp [Reply.succeeds, hensure]

/-- What serving a request does to a column that counts days. -/
theorem serve_column (now : ℤ) (s : State) (request : ApiRequest) :
    columnOf column k (serve now s request).2.hcmBalances
        + whereServed k now s request request.taken
      = columnOf column k s.hcmBalances + whereServed k now s request request.returned := by
  cases request with
  | getBalance subject => simp [serve, whereServed, ApiRequest.taken, ApiRequest.returned]
  | validate subject days => simp [serve, whereServed, ApiRequest.taken, ApiRequest.returned]
  | batchSync => simp [serve, whereServed, ApiRequest.taken, ApiRequest.returned]
  | timeOff subject daysRequested referenceId =>
      have htimeOff := timeOff_column (k := k) hzero hcredit now s subject daysRequested referenceId
      simp only [serve, whereServed, ApiRequest.taken, ApiRequest.returned, ApiRequest.key,
        Option.some.injEq] at htimeOff ⊢
      rw [htimeOff]
      split <;> ring
  | putBalance subject daysRequested action =>
      have hput := putBalance_column (k := k) hzero hcredit now s subject daysRequested action
      simp only [serve, whereServed, ApiRequest.taken, ApiRequest.returned, ApiRequest.key,
        Option.some.injEq] at hput ⊢
      rw [hput]
      split <;> ring

end served

theorem available_zero (s : Subject) : (emptyBalance s).availableBalance = 0 := rfl

theorem total_zero (s : Subject) : (emptyBalance s).totalBalance = 0 := rfl

theorem available_credit (r : Balance) (days : ℚ) (version : String) :
    (r.credit days version).availableBalance = r.availableBalance + days := rfl

theorem total_credit (r : Balance) (days : ℚ) (version : String) :
    (r.credit days version).totalBalance = r.totalBalance + days := rfl

/-! ## One event -/

theorem columnOf_mapValues (column : Balance → ℚ) (f : Balance → Balance)
    (balances : LiveMap String Balance) :
    columnOf column k (balances.mapValues f)
      = ((balances.get k).map fun r => column (f r)).getD 0 := by
  unfold columnOf
  rw [LiveMap.get_mapValues, Option.map_map]
  rfl

/-- **One event** changes the days available under a key by what it puts there and takes
off. -/
theorem available_settles (p : Instability) (k : String) :
    Settles (State.after p) (State.available k) (credits k) (debits k) := by
  intro s e
  cases e with
  | arrives request random =>
      simp [State.after, react, credits, debits, State.available]
  | served request now => exact serve_column available_zero available_credit now s request
  | admin request now =>
      cases request with
      | inject subject total available =>
          simp only [State.after, react, administer, credits, debits, State.available,
            columnOf_set]
          split <;> ring
      | anniversaryRefresh employeeId locationId leaveType grantDays =>
          simp only [State.after, react, administer, credits, debits, State.available]
          split
          · rename_i hrefused
            have hnone : ¬ 0 < grantDays.getD 1 := not_lt.mpr hrefused
            cases s.hcmBalances.get k <;> simp [hnone]
          · rename_i hgrant
            rw [State.refresh, columnOf_mapValues, columnOf]
            cases s.hcmBalances.get k with
            | none => simp
            | some r =>
                simp only [Option.map_some, Option.getD_some, not_le.mp hgrant, true_and, add_zero]
                split
                · rfl
                · ring
      | yearRefresh defaultTotal =>
          simp only [State.after, react, administer, credits, debits, State.available]
          split
          · rename_i hrefused
            have hnone : ¬ 0 ≤ defaultTotal.getD 15 := not_le.mpr hrefused
            cases s.hcmBalances.get k <;> simp [hnone]
          · rename_i hset
            rw [State.refresh, columnOf_mapValues, columnOf]
            cases s.hcmBalances.get k with
            | none => simp
            | some r => simp [not_lt.mp hset, add_comm]
      | behavior mode count override partially stale =>
          simp [State.after, react, administer, credits, debits, State.available]
      | resetBehavior => simp [State.after, react, administer, credits, debits, State.available]

/-! ## Solvency -/

/-- No success takes off more than there is. -/
theorem taken_le (now : ℤ) (s : State) (request : ApiRequest) (hkey : request.key = some k)
    (hsuccess : (serve now s request).1.succeeds) (htaken : request.taken ≠ 0) :
    request.taken ≤ s.available k := by
  cases request with
  | getBalance subject => exact absurd rfl htaken
  | validate subject days => exact absurd rfl htaken
  | batchSync => exact absurd rfl htaken
  | timeOff subject daysRequested referenceId =>
      have hcolumn := ensure_column available_zero subject s.hcmBalances
      cases hkey
      simp only [serve, timeOff] at hsuccess
      cases daysRequested with
      | none => exact absurd rfl htaken
      | some days =>
          simp only at hsuccess
          split at hsuccess
          · cases hsuccess
          split at hsuccess
          · cases hsuccess
          split at hsuccess
          · cases hsuccess
          · rename_i henough
            rw [hcolumn] at henough
            exact not_lt.mp henough
  | putBalance subject daysRequested action =>
      have hcolumn := ensure_column available_zero subject s.hcmBalances
      cases hkey
      simp only [ApiRequest.taken] at htaken ⊢
      split at htaken
      · rename_i happrove
        simp only [serve, putBalance, happrove, if_true] at hsuccess ⊢
        split at hsuccess
        · cases hsuccess
        · rename_i henough
          rw [hcolumn] at henough
          exact not_lt.mp henough
      · exact absurd rfl htaken

/-- The event puts nothing negative anywhere: no returned days, no injected balance. -/
def Event.Sound : Event → Prop
  | .served (.putBalance _ daysRequested action) _ => action = "REJECT" → 0 ≤ daysRequested.getD 0
  | .admin (.inject _ _ availableBalance) _ => 0 ≤ availableBalance
  | _ => True

theorem returned_nonneg {request : ApiRequest} {now : ℤ} (h : (Event.served request now).Sound) :
    0 ≤ request.returned := by
  cases request with
  | putBalance subject daysRequested action =>
      simp only [ApiRequest.returned]
      split
      · rename_i hreject
        exact h hreject
      · exact le_refl 0
  | getBalance subject => exact le_refl 0
  | validate subject days => exact le_refl 0
  | timeOff subject daysRequested referenceId => exact le_refl 0
  | batchSync => exact le_refl 0

theorem available_nonneg {s : State} {e : Event} (hsound : e.Sound) (h : 0 ≤ s.available k) :
    0 ≤ (s.after p e).available k := by
  have hsettles := available_settles p k s e
  cases e with
  | arrives request random =>
      simp only [credits, debits] at hsettles
      linarith
  | served request now =>
      have hreturned := returned_nonneg hsound
      simp only [credits, debits, whereServed] at hsettles
      split at hsettles
      · rename_i hserved
        by_cases htaken : request.taken = 0
        · rw [htaken] at hsettles
          linarith
        · have hle := taken_le now s request hserved.1 hserved.2 htaken
          linarith
      · linarith
  | admin request now =>
      cases request with
      | inject subject total available =>
          have hinjected : 0 ≤ available := hsound
          simp only [credits, debits] at hsettles
          split at hsettles <;> linarith
      | anniversaryRefresh employeeId locationId leaveType grantDays =>
          simp only [credits, debits] at hsettles
          cases hget : s.hcmBalances.get k with
          | none =>
              simp only [hget] at hsettles
              linarith
          | some r =>
              simp only [hget] at hsettles
              split at hsettles
              · rename_i hgranted
                linarith [hgranted.1]
              · linarith
      | yearRefresh defaultTotal =>
          simp only [credits, debits] at hsettles
          have hnone : s.hcmBalances.get k = none → s.available k = 0 := by
            intro hget
            simp [State.available, columnOf, hget]
          cases hget : s.hcmBalances.get k with
          | none =>
              simp only [hget, hnone hget] at hsettles
              split at hsettles <;> linarith
          | some r =>
              simp only [hget] at hsettles
              split at hsettles <;> linarith
      | behavior mode count override partially stale =>
          simp only [credits, debits] at hsettles
          linarith
      | resetBehavior =>
          simp only [credits, debits] at hsettles
          linarith

/-! ## Both columns -/

/-- Both columns are equal under every key. -/
def State.Level (s : State) : Prop :=
  ∀ k, columnOf Balance.totalBalance k s.hcmBalances = s.available k

/-- A balance that is injected has equal columns. -/
def Event.Level : Event → Prop
  | .admin (.inject _ totalBalance availableBalance) _ => totalBalance = availableBalance
  | _ => True

/-- A refresh that changes equal columns to equal columns. -/
theorem level_mapValues {s : State} {f : Balance → Balance} (h : s.Level)
    (hf : ∀ r, r.totalBalance = r.availableBalance →
      (f r).totalBalance = (f r).availableBalance) (k : String) :
    columnOf Balance.totalBalance k (s.hcmBalances.mapValues f)
      = columnOf Balance.availableBalance k (s.hcmBalances.mapValues f) := by
  have hlevel := h k
  rw [columnOf_mapValues, columnOf_mapValues]
  simp only [State.available, columnOf] at hlevel
  cases hget : s.hcmBalances.get k with
  | none => rfl
  | some r =>
      simp only [hget, Option.map_some, Option.getD_some] at hlevel ⊢
      exact hf r hlevel

theorem Level.after {s : State} {e : Event} (he : e.Level) (h : s.Level) :
    (s.after p e).Level := by
  intro k
  cases e with
  | arrives request random => exact h k
  | served request now =>
      have htotal := serve_column (k := k) total_zero total_credit now s request
      have havailable := serve_column (k := k) available_zero available_credit now s request
      have hlevel := h k
      simp only [State.available] at hlevel
      show columnOf _ k (serve now s request).2.hcmBalances
        = columnOf _ k (serve now s request).2.hcmBalances
      linarith
  | admin request now =>
      cases request with
      | inject subject total available =>
          have hsame : total = available := he
          have hlevel := h k
          simp only [State.after, react, administer, State.available, columnOf_set, hsame]
            at hlevel ⊢
          rw [hlevel]
      | anniversaryRefresh employeeId locationId leaveType grantDays =>
          simp only [State.after, react, administer, State.available]
          split
          · exact h k
          · refine level_mapValues h (fun r hr => ?_) k
            split
            · simp [Balance.credit, hr]
            · exact hr
      | yearRefresh defaultTotal =>
          simp only [State.after, react, administer, State.available]
          split
          · exact h k
          · exact level_mapValues h (fun r _ => rfl) k
      | behavior mode count override partially stale => exact h k
      | resetBehavior => exact h k

/-! ## Runs -/

theorem available_nonneg_run {events : List Event} (hsound : ∀ e ∈ events, e.Sound) {s : State}
    (h : 0 ≤ s.available k) : 0 ≤ (events.foldl (State.after p) s).available k := by
  induction events generalizing s with
  | nil => exact h
  | cons e events ih =>
      have hfirst := available_nonneg (p := p) (hsound e List.mem_cons_self) h
      exact ih (fun x hx => hsound x (List.mem_cons_of_mem e hx)) hfirst

theorem level_run {events : List Event} (hlevel : ∀ e ∈ events, e.Level) {s : State}
    (h : s.Level) : (events.foldl (State.after p) s).Level := by
  induction events generalizing s with
  | nil => exact h
  | cons e events ih =>
      have hfirst := Level.after (p := p) (hlevel e List.mem_cons_self) h
      exact ih (fun x hx => hlevel x (List.mem_cons_of_mem e hx)) hfirst

/-- The records the server starts with have equal columns, and days in them. -/
theorem initial_columns (k : String) :
    columnOf Balance.totalBalance k State.initial.hcmBalances = State.initial.available k
      ∧ 0 ≤ State.initial.available k := by
  simp only [State.initial, State.available, columnOf_set]
  split
  · norm_num
  split
  · norm_num
  · exact ⟨rfl, le_refl 0⟩

/-- **The accounts of the mock HCM.** After any run, the days available under a key and all
that was taken off are what there was and all that was put there. They are never fewer than
none unless a negative number was returned or injected, and they are the total unless a
balance with other columns was injected. -/
theorem mock_accounts (p : Instability) (events : List Event) (k : String) :
    let s := events.foldl (State.after p) .initial
    s.available k + along (State.after p) (debits k) .initial events
        = State.initial.available k + along (State.after p) (credits k) .initial events
    ∧ ((∀ e ∈ events, e.Sound) → 0 ≤ s.available k)
    ∧ ((∀ e ∈ events, e.Level) →
      columnOf Balance.totalBalance k s.hcmBalances = s.available k) := by
  intro s
  refine ⟨(available_settles p k).run .initial events, ?_, ?_⟩
  · intro hsound
    exact available_nonneg_run hsound (initial_columns k).2
  · intro hlevel
    exact level_run hlevel (fun k => (initial_columns k).1) k

end MockServer

end LeaveLedger
