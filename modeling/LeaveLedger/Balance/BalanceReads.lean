import LeaveLedger.Balance.BalanceService
import Mathlib.Data.List.Sort
import Mathlib.Data.String.Basic

/-!
# Balance — Reading balances

The reads of `modules/balance/balance.service`: one balance, all balances of
an employee at a location in the order of their leave types, and whether a
balance is stale. A read does not write, so it is a function of the
database. The leave type of `getBalance` comes from the path and is not
checked against the enumeration.
-/

namespace LeaveLedger

open Js Lib

/-- `findOne({ employeeId, locationId, leaveType })`, the type as the path has it. -/
def Database.findBalanceOf (db : Database) (employeeId locationId leaveType : String) :
    Option EmployeeBalance :=
  db.balances.rows.find? fun b =>
    b.employeeId = employeeId ∧ b.locationId = locationId ∧ b.leaveType.text = leaveType

/-- `getBalance`. -/
def getBalance (env : Env) (now : ℤ) (db : Database) (employeeId locationId leaveType : String) :
    Except Exception SerializedBalance :=
  match db.findBalanceOf employeeId locationId leaveType with
  | none =>
      .error (notFound .balanceNotFound ("No balance record found for employee=" ++ employeeId
        ++ ", location=" ++ locationId ++ ", type=" ++ leaveType))
  | some balance => .ok (serializeBalance env now balance)

/-- The rows of an employee at a location, by leave type. -/
def Database.findBalancesOf (db : Database) (employeeId locationId : String) :
    List EmployeeBalance :=
  (db.balances.rows.filter fun b => b.employeeId = employeeId ∧ b.locationId = locationId)
    |>.insertionSort fun a b => a.leaveType.text ≤ b.leaveType.text

/-- `getBalancesForEmployee`. -/
def getBalancesForEmployee (env : Env) (now : ℤ) (db : Database)
    (employeeId locationId : String) : List SerializedBalance :=
  (db.findBalancesOf employeeId locationId).map (serializeBalance env now)

/-- `isBalanceStale`: a balance that is not there is stale. -/
def isBalanceStale (env : Env) (now : ℤ) (db : Database)
    (employeeId locationId leaveType : String) : Bool :=
  match db.findBalanceOf employeeId locationId leaveType with
  | none => true
  | some balance => isStale now balance.hcmLastSync env.staleBalanceThresholdMs

/-! ## A list in the order of a column -/

section sorting
variable {α β : Type} [LinearOrder β] {f : α → β}

/-- **Reading in order**: elements whose column holds no value twice, sorted by it, are what
is found for the values of the column, taken in their order. -/
theorem insertionSort_eq_filterMap {l : List α} {ks : List β} (hnd : (l.map f).Nodup)
    (hks : ks.Pairwise (· < ·)) (hall : ∀ a ∈ l, f a ∈ ks) :
    l.insertionSort (fun a b => f a ≤ f b) = ks.filterMap fun k => l.find? fun a => f a = k := by
  have hfind : ∀ {k a}, (l.find? fun a => f a = k) = some a ↔ a ∈ l ∧ f a = k := by
    intro k a
    constructor
    · intro h
      exact ⟨List.mem_of_find?_eq_some h, by simpa using List.find?_some h⟩
    · rintro ⟨ha, rfl⟩
      cases h : l.find? fun b => decide (f b = f a) with
      | none => exact absurd ha fun ha => by simpa using List.find?_eq_none.mp h a ha
      | some b =>
          have hb : f b = f a := by simpa using List.find?_some h
          rw [List.inj_on_of_nodup_map hnd (List.mem_of_find?_eq_some h) ha hb]
  have hsorted : (ks.filterMap fun k => l.find? fun a => f a = k).Pairwise
      fun a b => f a < f b := by
    rw [List.pairwise_filterMap]
    refine hks.imp fun hlt a ha b hb => ?_
    rw [(hfind.mp ha).2, (hfind.mp hb).2]
    exact hlt
  have hle := hsorted.imp fun h => le_of_lt h
  refine List.Perm.eq_of_pairwise ?_ (List.pairwise_insertionSort _ l) hle ?_
  · intro a b ha hb hab hba
    have hmem : b ∈ l := by
      obtain ⟨k, -, hk⟩ := List.mem_filterMap.mp hb
      exact (hfind.mp hk).1
    exact List.inj_on_of_nodup_map hnd ((List.mem_insertionSort _).mp ha) hmem
      (le_antisymm hab hba)
  · refine (List.perm_insertionSort _ l).trans ?_
    refine (List.perm_ext_iff_of_nodup (List.Nodup.of_map f hnd)
      (hsorted.imp fun h heq => absurd (congrArg f heq) h.ne)).mpr fun a => ?_
    rw [List.mem_filterMap]
    constructor
    · intro ha
      exact ⟨f a, hall a ha, hfind.mpr ⟨ha, rfl⟩⟩
    · rintro ⟨k, -, hk⟩
      exact (hfind.mp hk).1

end sorting

/-! ## The list against the single reads -/

/-- The leave types in the order of their texts. -/
def LeaveType.alphabetical : List LeaveType :=
  [.bereavement, .maternity, .paternity, .personal, .sick, .vacation]

theorem LeaveType.mem_alphabetical (t : LeaveType) : t ∈ alphabetical := by
  cases t <;> decide

theorem LeaveType.alphabetical_sorted :
    (alphabetical.map LeaveType.text).Pairwise (· < ·) := by
  decide +kernel

section
variable {db : Database} {employeeId locationId : String}

/-- A leave type of the enumeration finds the row of its key. -/
theorem findBalanceOf_text (t : LeaveType) :
    db.findBalanceOf employeeId locationId t.text
      = db.balances.byUk (employeeId, locationId, t) := by
  unfold Database.findBalanceOf Table.byUk
  congr 1
  funext b
  simp [EmployeeBalance.key, LeaveType.text_injective.eq_iff]

theorem findBalancesOf_eq : db.findBalancesOf employeeId locationId
    = LeaveType.alphabetical.filterMap fun t => db.balances.byUk (employeeId, locationId, t) := by
  have hnd : ((db.balances.rows.filter fun b =>
      b.employeeId = employeeId ∧ b.locationId = locationId).map
        fun b => b.leaveType.text).Nodup := by
    refine List.Nodup.map_on ?_ ((List.Nodup.of_map _ db.balances.pk_nodup).filter _)
    intro a ha b hb heq
    obtain ⟨hmem, hkey⟩ := List.mem_filter.mp ha
    obtain ⟨hmem', hkey'⟩ := List.mem_filter.mp hb
    have hown := of_decide_eq_true hkey
    have hown' := of_decide_eq_true hkey'
    refine Table.eq_of_uk hmem hmem' ?_
    simp [EmployeeBalance.key, hown, hown', LeaveType.text_injective heq]
  have hall : ∀ b ∈ db.balances.rows.filter fun b =>
      b.employeeId = employeeId ∧ b.locationId = locationId,
      b.leaveType.text ∈ LeaveType.alphabetical.map LeaveType.text :=
    fun b _ => List.mem_map_of_mem b.leaveType.mem_alphabetical
  unfold Database.findBalancesOf
  rw [insertionSort_eq_filterMap hnd LeaveType.alphabetical_sorted hall, List.filterMap_map]
  refine List.filterMap_congr fun t _ => ?_
  rw [← findBalanceOf_text, Function.comp_apply, List.find?_filter]
  unfold Database.findBalanceOf
  congr 1
  funext b
  simp [and_assoc]

/-- **The balances of an employee** are the single balances that are found, in the order of
their leave types, and the staleness each one shows is the one `isBalanceStale` reports. -/
theorem getBalancesForEmployee_eq (env : Env) (now : ℤ) (db : Database)
    (employeeId locationId : String) :
    getBalancesForEmployee env now db employeeId locationId
        = LeaveType.alphabetical.filterMap (fun t =>
            (getBalance env now db employeeId locationId t.text).toOption)
      ∧ (∀ s ∈ getBalancesForEmployee env now db employeeId locationId,
          s.stale = isBalanceStale env now db employeeId locationId s.leaveType.text)
      ∧ ∀ t, (∀ s ∈ getBalancesForEmployee env now db employeeId locationId, s.leaveType.text ≠ t) →
          isBalanceStale env now db employeeId locationId t = true
            ∧ (getBalance env now db employeeId locationId t).toOption = none := by
  have hlist : getBalancesForEmployee env now db employeeId locationId
      = LeaveType.alphabetical.filterMap (fun t =>
          (db.balances.byUk (employeeId, locationId, t)).map (serializeBalance env now)) := by
    rw [getBalancesForEmployee, findBalancesOf_eq, List.map_filterMap]
  refine ⟨?_, ?_, ?_⟩
  · rw [hlist]
    refine List.filterMap_congr fun t _ => ?_
    unfold getBalance
    rw [findBalanceOf_text]
    cases db.balances.byUk (employeeId, locationId, t) <;> rfl
  · intro s hs
    rw [hlist] at hs
    obtain ⟨t, -, hs⟩ := List.mem_filterMap.mp hs
    obtain ⟨b, hb, rfl⟩ := Option.map_eq_some_iff.mp hs
    have hkey : b.key = (employeeId, locationId, t) := (Table.byUk_eq_some.mp hb).2
    have ht : b.leaveType = t := congrArg (fun k => k.2.2) hkey
    unfold isBalanceStale
    rw [show (serializeBalance env now b).leaveType = t from ht, findBalanceOf_text, hb]
    rfl
  · intro t hnone
    have hmissing : db.findBalanceOf employeeId locationId t = none := by
      cases hrow : db.findBalanceOf employeeId locationId t with
      | none => rfl
      | some b =>
          have hmem : b ∈ db.balances.rows := List.mem_of_find?_eq_some hrow
          have hown : b.employeeId = employeeId ∧ b.locationId = locationId
              ∧ b.leaveType.text = t := by
            simpa using List.find?_some hrow
          have hlisted : b ∈ db.findBalancesOf employeeId locationId :=
            (List.mem_insertionSort _).mpr
              (List.mem_filter.mpr ⟨hmem, decide_eq_true ⟨hown.1, hown.2.1⟩⟩)
          exact absurd hown.2.2 (hnone _ (List.mem_map_of_mem hlisted))
    unfold isBalanceStale getBalance
    rw [hmissing]
    exact ⟨rfl, rfl⟩

end

end LeaveLedger
