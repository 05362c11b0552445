import Mathlib.Data.List.Nodup
import Mathlib.Data.List.Basic
import Mathlib.Tactic.Common
import Mathlib.Tactic.Abel
import Mathlib.Algebra.BigOperators.Group.List.Basic

/-!
# Lib — Maps that may change while they are iterated

A `LiveMap` keeps its entries in the order of their insertion. Setting a key
that is there keeps its place, deleting and setting it again moves it to the
end. Each entry has the stamp of its insertion, so an iteration is a stamp to
go on from: it visits the first entry that is not older (`after`), whatever
was inserted and deleted since its last visit. That stamps go up and keys
differ is part of the type.
-/

namespace LeaveLedger.Lib

/-- An entry and the stamp of its insertion. -/
structure Slot (κ ν : Type) where
  stamp : ℕ
  key : κ
  value : ν
deriving DecidableEq

/-- A map in insertion order. -/
structure LiveMap (κ ν : Type) where
  slots : List (Slot κ ν)
  /-- the stamp of the next insertion -/
  next : ℕ
  sorted : slots.Pairwise fun a b => a.stamp < b.stamp
  older : ∀ e ∈ slots, e.stamp < next
  distinct : (slots.map Slot.key).Nodup

namespace LiveMap

variable {κ ν : Type}

def empty : LiveMap κ ν where
  slots := []
  next := 0
  sorted := List.Pairwise.nil
  older _ he := absurd he (List.not_mem_nil)
  distinct := List.nodup_nil

/-- Nothing is left, and what comes later is still newer than what was there. -/
def clear (m : LiveMap κ ν) : LiveMap κ ν where
  slots := []
  next := m.next
  sorted := List.Pairwise.nil
  older _ he := absurd he (List.not_mem_nil)
  distinct := List.nodup_nil

def size (m : LiveMap κ ν) : ℕ := m.slots.length

/-- The key inserted first. -/
def oldest (m : LiveMap κ ν) : Option κ := m.slots.head?.map Slot.key

/-- The entry an iteration visits that has come to `stamp`. -/
def after (m : LiveMap κ ν) (stamp : ℕ) : Option (Slot κ ν) :=
  m.slots.find? fun e => stamp ≤ e.stamp

/-- How many entries an iteration has ahead that has come to `stamp`. -/
def ahead (m : LiveMap κ ν) (stamp : ℕ) : ℕ := (m.slots.filter fun e => stamp ≤ e.stamp).length

variable [DecidableEq κ]

def get (m : LiveMap κ ν) (key : κ) : Option ν :=
  (m.slots.find? fun e => e.key = key).map Slot.value

def has (m : LiveMap κ ν) (key : κ) : Bool := (m.get key).isSome

def delete (m : LiveMap κ ν) (key : κ) : LiveMap κ ν where
  slots := m.slots.filter fun e => e.key ≠ key
  next := m.next
  sorted := m.sorted.filter _
  older e he := m.older e (List.mem_of_mem_filter he)
  distinct := m.distinct.sublist (List.filter_sublist.map _)

/-- A key that is there has its value replaced. -/
def replace (m : LiveMap κ ν) (key : κ) (value : ν) : LiveMap κ ν where
  slots := m.slots.map fun e => if e.key = key then { e with value := value } else e
  next := m.next
  sorted := by
    rw [List.pairwise_map]
    refine m.sorted.imp fun {a b} hab => ?_
    split <;> split <;> exact hab
  older e he := by
    obtain ⟨e₀, he₀, rfl⟩ := List.mem_map.mp he
    have := m.older e₀ he₀
    split <;> exact this
  distinct := by
    have hkeys : (m.slots.map fun e => if e.key = key then { e with value := value } else e).map
        Slot.key = m.slots.map Slot.key := by
      rw [List.map_map]
      refine List.map_congr_left fun e _ => ?_
      simp only [Function.comp_apply]
      split <;> rfl
    rw [hkeys]
    exact m.distinct

/-- Every value is changed in its place. -/
def mapValues (f : ν → ν) (m : LiveMap κ ν) : LiveMap κ ν where
  slots := m.slots.map fun e => { e with value := f e.value }
  next := m.next
  sorted := List.pairwise_map.mpr m.sorted
  older e he := by
    obtain ⟨e₀, he₀, rfl⟩ := List.mem_map.mp he
    exact m.older e₀ he₀
  distinct := by
    rw [List.map_map]
    exact m.distinct

/-- A new key comes to the end. -/
def append (m : LiveMap κ ν) (key : κ) (value : ν) (hnew : ∀ e ∈ m.slots, e.key ≠ key) :
    LiveMap κ ν where
  slots := m.slots ++ [⟨m.next, key, value⟩]
  next := m.next + 1
  sorted := by
    rw [List.pairwise_append]
    refine ⟨m.sorted, List.pairwise_singleton .., fun a ha b hb => ?_⟩
    rw [List.mem_singleton.mp hb]
    exact m.older a ha
  older e he := by
    rcases List.mem_append.mp he with he | he
    · exact Nat.lt_succ_of_lt (m.older e he)
    · rw [List.mem_singleton.mp he]
      exact Nat.lt_succ_self _
  distinct := by
    rw [List.map_append, List.nodup_append]
    refine ⟨m.distinct, List.nodup_singleton _, fun k hk k' hk' => ?_⟩
    obtain ⟨e, he, rfl⟩ := List.mem_map.mp hk
    rw [List.mem_singleton.mp hk']
    exact hnew e he

theorem mem_slots_of_get_none {m : LiveMap κ ν} {key : κ} (h : m.get key = none) :
    ∀ e ∈ m.slots, e.key ≠ key := by
  intro e he hkey
  rw [get, Option.map_eq_none_iff, List.find?_eq_none] at h
  exact h e he (decide_eq_true hkey)

def set (m : LiveMap κ ν) (key : κ) (value : ν) : LiveMap κ ν :=
  if h : m.get key = none then m.append key value (mem_slots_of_get_none h)
  else m.replace key value

/-! ## Entries -/

section slots
variable {m : LiveMap κ ν} {key k : κ} {value v : ν} {e e' : Slot κ ν}

omit [DecidableEq κ] in
theorem slot_eq_of_key (he : e ∈ m.slots) (he' : e' ∈ m.slots) (h : e.key = e'.key) : e = e' :=
  List.inj_on_of_nodup_map m.distinct he he' h

omit [DecidableEq κ] in
theorem slot_eq_of_stamp (he : e ∈ m.slots) (he' : e' ∈ m.slots) (h : e.stamp = e'.stamp) :
    e = e' := by
  have hnd : (m.slots.map Slot.stamp).Nodup := by
    rw [List.Nodup, List.pairwise_map]
    exact m.sorted.imp fun hlt => Nat.ne_of_lt hlt
  exact List.inj_on_of_nodup_map hnd he he' h

theorem get_eq_some_iff : m.get key = some v ↔ ∃ e ∈ m.slots, e.key = key ∧ e.value = v := by
  unfold get
  constructor
  · intro h
    obtain ⟨e, hfind, hv⟩ := Option.map_eq_some_iff.mp h
    exact ⟨e, List.mem_of_find?_eq_some hfind, of_decide_eq_true (List.find?_some hfind :), hv⟩
  · rintro ⟨e, he, rfl, rfl⟩
    cases hfind : m.slots.find? fun e' => e'.key = e.key with
    | none => exact absurd (decide_eq_true rfl) (List.find?_eq_none.mp hfind e he)
    | some e' =>
        have hkey : e'.key = e.key := of_decide_eq_true (List.find?_some hfind :)
        rw [slot_eq_of_key (List.mem_of_find?_eq_some hfind) he hkey]
        rfl

theorem get_eq_none_iff : m.get key = none ↔ ∀ e ∈ m.slots, e.key ≠ key := by
  constructor
  · exact mem_slots_of_get_none
  · intro h
    cases hget : m.get key with
    | none => rfl
    | some v =>
        obtain ⟨e, he, hkey, -⟩ := get_eq_some_iff.mp hget
        exact absurd hkey (h e he)

theorem mem_delete : e ∈ (m.delete key).slots ↔ e ∈ m.slots ∧ e.key ≠ key := by
  simp [delete]

theorem mem_replace : e ∈ (m.replace key value).slots ↔
    ∃ e₀ ∈ m.slots, (if e₀.key = key then { e₀ with value := value } else e₀) = e := by
  simp [replace]

/-- Setting a key leaves the other entries as they are. A key that is there
keeps its stamp, a new one has the next. -/
theorem mem_set : e ∈ (m.set key value).slots ↔ (e ∈ m.slots ∧ e.key ≠ key)
    ∨ (e.key = key ∧ e.value = value
      ∧ ((∃ e₀ ∈ m.slots, e₀.key = key ∧ e₀.stamp = e.stamp)
        ∨ m.get key = none ∧ e.stamp = m.next)) := by
  unfold set
  split
  case isTrue hnone =>
    have hnew := mem_slots_of_get_none hnone
    simp only [append, List.mem_append, List.mem_singleton]
    constructor
    · rintro (he | rfl)
      · exact .inl ⟨he, hnew e he⟩
      · exact .inr ⟨rfl, rfl, .inr ⟨hnone, rfl⟩⟩
    · rintro (⟨he, -⟩ | ⟨hkey, hval, ⟨e₀, he₀, hkey₀, -⟩ | ⟨-, hstamp⟩⟩)
      · exact .inl he
      · exact absurd hkey₀ (hnew e₀ he₀)
      · right
        cases e
        simp_all
  case isFalse hsome =>
    rw [mem_replace]
    constructor
    · rintro ⟨e₀, he₀, rfl⟩
      by_cases hkey : e₀.key = key
      · rw [if_pos hkey]
        exact .inr ⟨hkey, rfl, .inl ⟨e₀, he₀, hkey, rfl⟩⟩
      · rw [if_neg hkey]
        exact .inl ⟨he₀, hkey⟩
    · rintro (⟨he, hne⟩ | ⟨hkey, hval, ⟨e₀, he₀, hkey₀, hstamp⟩ | ⟨hnone, -⟩⟩)
      · exact ⟨e, he, if_neg hne⟩
      · refine ⟨e₀, he₀, ?_⟩
        rw [if_pos hkey₀]
        cases e
        simp_all
      · exact absurd hnone hsome

theorem key_or_value_of_mem_set (he : e ∈ (m.set key value).slots) :
    (e ∈ m.slots ∧ e.key ≠ key) ∨ (e.key = key ∧ e.value = value) :=
  (mem_set.mp he).imp_right fun h => ⟨h.1, h.2.1⟩

/-- Setting a key of a set leaves it as it is, or adds an entry that is newer than all. -/
theorem mem_or_newer_of_mem_set {m : LiveMap κ Unit} {e : Slot κ Unit}
    (he : e ∈ (m.set key ()).slots) : e ∈ m.slots ∨ m.next ≤ e.stamp := by
  rcases mem_set.mp he with ⟨he, -⟩ | ⟨hkey, -, ⟨e₀, he₀, hkey₀, hstamp⟩ | ⟨-, hstamp⟩⟩
  · exact .inl he
  · left
    have heq : e₀ = e := by
      cases e₀
      cases e
      simp_all
    exact heq ▸ he₀
  · exact .inr (Nat.le_of_eq hstamp.symm)

theorem next_set : m.next ≤ (m.set key value).next := by
  unfold set
  split
  · exact Nat.le_succ _
  · exact Nat.le_refl _

@[simp] theorem get_set_self : (m.set key value).get key = some value := by
  refine get_eq_some_iff.mpr ?_
  cases hget : m.get key with
  | none => exact ⟨⟨m.next, key, value⟩, mem_set.mpr (.inr ⟨rfl, rfl, .inr ⟨hget, rfl⟩⟩), rfl, rfl⟩
  | some v =>
      obtain ⟨e₀, he₀, hkey, -⟩ := get_eq_some_iff.mp hget
      exact ⟨⟨e₀.stamp, key, value⟩,
        mem_set.mpr (.inr ⟨rfl, rfl, .inl ⟨e₀, he₀, hkey, rfl⟩⟩), rfl, rfl⟩

/-- What holds of the same entries is found the same. -/
theorem get_congr {m' : LiveMap κ ν}
    (h : ∀ e : Slot κ ν, e.key = k → (e ∈ m'.slots ↔ e ∈ m.slots)) : m'.get k = m.get k := by
  cases hget : m.get k with
  | none =>
      exact get_eq_none_iff.mpr fun e he hkey => get_eq_none_iff.mp hget e ((h e hkey).mp he) hkey
  | some v =>
      obtain ⟨e, he, hkey, hval⟩ := get_eq_some_iff.mp hget
      exact get_eq_some_iff.mpr ⟨e, (h e hkey).mpr he, hkey, hval⟩

theorem get_set_of_ne (hne : k ≠ key) : (m.set key value).get k = m.get k := by
  refine get_congr fun e hkey => ?_
  have hother : e.key ≠ key := by rwa [hkey]
  simp [mem_set, hother]

@[simp] theorem get_delete_self : (m.delete key).get key = none :=
  get_eq_none_iff.mpr fun _ he => (mem_delete.mp he).2

theorem get_delete_of_ne (hne : k ≠ key) : (m.delete key).get k = m.get k := by
  refine get_congr fun e hkey => ?_
  have hother : e.key ≠ key := by rwa [hkey]
  simp [mem_delete, hother]

@[simp] theorem get_clear : m.clear.get k = none := rfl

theorem get_mapValues (f : ν → ν) : (m.mapValues f).get k = (m.get k).map f := by
  have hkey : (fun e : Slot κ ν => decide (e.key = k))
      ∘ (fun e : Slot κ ν => { e with value := f e.value }) = fun e => decide (e.key = k) := rfl
  unfold get
  rw [mapValues, List.find?_map, hkey, Option.map_map, Option.map_map]
  rfl

end slots

/-! ## Iteration -/

section iteration
variable {m : LiveMap κ ν} {stamp : ℕ} {e e' : Slot κ ν}

omit [DecidableEq κ] in
theorem mem_of_after (h : m.after stamp = some e) : e ∈ m.slots := List.mem_of_find?_eq_some h

omit [DecidableEq κ] in
theorem le_of_after (h : m.after stamp = some e) : stamp ≤ e.stamp :=
  of_decide_eq_true (List.find?_some h :)

omit [DecidableEq κ] in
theorem after_eq_none_iff : m.after stamp = none ↔ ∀ e ∈ m.slots, e.stamp < stamp := by
  simp [after]

omit [DecidableEq κ] in
/-- An iteration leaves out no entry that it has ahead. -/
theorem le_stamp_of_after (h : m.after stamp = some e) (he' : e' ∈ m.slots)
    (hle : stamp ≤ e'.stamp) : e.stamp ≤ e'.stamp := by
  obtain ⟨-, before, behind, hslots, hbefore⟩ := List.find?_eq_some_iff_append.mp h
  have hsorted := m.sorted
  rw [hslots] at he' hsorted
  rcases List.mem_append.mp he' with hmem | hmem
  · have := hbefore e' hmem
    simp only [Bool.not_eq_true', decide_eq_false_iff_not] at this
    exact absurd hle this
  · rcases List.mem_cons.mp hmem with rfl | hmem
    · exact Nat.le_refl _
    · have := (List.pairwise_cons.mp (List.pairwise_append.mp hsorted).2.1).1 e' hmem
      exact Nat.le_of_lt this

omit [DecidableEq κ] in
/-- A visited entry is not ahead any more. -/
theorem ahead_lt_of_after (h : m.after stamp = some e) : m.ahead (e.stamp + 1) < m.ahead stamp := by
  unfold ahead
  have hsub : ∀ l : List (Slot κ ν), (l.filter fun e' => e.stamp + 1 ≤ e'.stamp).length
      ≤ (l.filter fun e' => stamp ≤ e'.stamp).length := by
    intro l
    refine (List.monotone_filter_right l fun e' h' => ?_).length_le
    have := le_of_after h
    simp only [decide_eq_true_eq] at h' ⊢
    omega
  obtain ⟨before, behind, hslots⟩ := List.append_of_mem (mem_of_after h)
  have hhere := le_of_after h
  have hb := hsub before
  have hc := hsub behind
  rw [hslots, List.filter_append, List.filter_append, List.filter_cons_of_neg (by simp),
    List.filter_cons_of_pos (by simpa using hhere)]
  simp only [List.length_append, List.length_cons]
  omega

end iteration

/-! ## Totals -/

section totals
variable {m : LiveMap κ ν} {key : κ} {value v : ν} {M : Type*} [AddCommMonoid M]

/-- The sum of `f` over the values. -/
def total (f : ν → M) (m : LiveMap κ ν) : M := (m.slots.map fun e => f e.value).sum

/-- The entry of a key, between entries of other keys. -/
theorem exists_around (h : m.get key = some v) : ∃ before e behind,
    m.slots = before ++ e :: behind ∧ e.key = key ∧ e.value = v
      ∧ (∀ e' ∈ before, e'.key ≠ key) ∧ ∀ e' ∈ behind, e'.key ≠ key := by
  obtain ⟨e, he, rfl, rfl⟩ := get_eq_some_iff.mp h
  obtain ⟨before, behind, hslots⟩ := List.append_of_mem he
  have hnd := m.distinct
  rw [hslots, List.map_append, List.map_cons] at hnd
  obtain ⟨-, hcons, hdisjoint⟩ := List.nodup_append.mp hnd
  have hbehind := (List.nodup_cons.mp hcons).1
  refine ⟨before, e, behind, hslots, rfl, rfl, fun e' he' => ?_, fun e' he' hkey => ?_⟩
  · exact hdisjoint _ (List.mem_map_of_mem he') _ List.mem_cons_self
  · exact hbehind (hkey ▸ List.mem_map_of_mem he')

theorem slots_delete_of_none (h : m.get key = none) : (m.delete key).slots = m.slots := by
  refine List.filter_eq_self.mpr fun e he => ?_
  simpa using mem_slots_of_get_none h e he

theorem total_delete (f : ν → M) :
    total f (m.delete key) + ((m.get key).map f).getD 0 = total f m := by
  cases hget : m.get key with
  | none => simp [total, slots_delete_of_none hget]
  | some v =>
      obtain ⟨before, e, behind, hslots, rfl, rfl, hbefore, hbehind⟩ := exists_around hget
      have hfilter : (m.delete e.key).slots = before ++ behind := by
        show m.slots.filter (fun e' => e'.key ≠ e.key) = _
        rw [hslots, List.filter_append, List.filter_cons_of_neg (by simp)]
        rw [List.filter_eq_self.mpr (by simpa using hbefore),
          List.filter_eq_self.mpr (by simpa using hbehind)]
      simp only [total, hfilter, hslots, List.map_append, List.map_cons, List.sum_append,
        List.sum_cons, Option.map_some, Option.getD_some]
      rw [add_assoc, add_comm _ (f e.value)]

theorem slots_set_of_none (h : m.get key = none) :
    (m.set key value).slots = m.slots ++ [⟨m.next, key, value⟩] := by
  unfold set
  rw [dif_pos h]
  rfl

theorem total_set_of_none (f : ν → M) (h : m.get key = none) :
    total f (m.set key value) = total f m + f value := by
  simp [total, slots_set_of_none h]

theorem slots_set_of_some (h : m.get key = some v) : (m.set key value).slots
    = m.slots.map fun e => if e.key = key then { e with value := value } else e := by
  unfold set
  rw [dif_neg (by simp [h])]
  rfl

theorem total_set_of_some (f : ν → M) (h : m.get key = some v) :
    total f (m.set key value) + f v = total f m + f value := by
  obtain ⟨before, e, behind, hslots, rfl, rfl, hbefore, hbehind⟩ := exists_around h
  have hsame : ∀ l : List (Slot κ ν), (∀ e' ∈ l, e'.key ≠ e.key) →
      (l.map fun e' => if e'.key = e.key then { e' with value := value } else e') = l := by
    intro l hl
    conv_rhs => rw [← List.map_id l]
    refine List.map_congr_left fun e' he' => ?_
    rw [if_neg (hl e' he')]
    rfl
  rw [total, slots_set_of_some h, hslots, List.map_append, List.map_cons, hsame _ hbefore,
    hsame _ hbehind, if_pos rfl, total, hslots]
  simp only [List.map_append, List.map_cons, List.sum_append, List.sum_cons]
  abel

theorem size_set_of_none (h : m.get key = none) : (m.set key value).size = m.size + 1 := by
  simp [size, slots_set_of_none h]

theorem size_set_of_some (h : m.get key = some v) : (m.set key value).size = m.size := by
  simp [size, slots_set_of_some h]

theorem size_delete_le : (m.delete key).size ≤ m.size := List.length_filter_le _ _

/-- Deleting the first entry leaves the others. -/
theorem slots_delete_first {e : Slot κ ν} {rest : List (Slot κ ν)} (h : m.slots = e :: rest) :
    (m.delete e.key).slots = rest := by
  have hnd := m.distinct
  rw [h, List.map_cons] at hnd
  show m.slots.filter (fun e' => e'.key ≠ e.key) = rest
  rw [h, List.filter_cons_of_neg (by simp), List.filter_eq_self]
  intro e' he'
  have hne : e'.key ≠ e.key := fun hkey =>
    (List.nodup_cons.mp hnd).1 (hkey ▸ List.mem_map_of_mem he')
  simpa using hne

theorem size_delete_first {e : Slot κ ν} {rest : List (Slot κ ν)} (h : m.slots = e :: rest) :
    (m.delete e.key).size = rest.length := by
  rw [size, slots_delete_first h]

/-! ## What is newer -/

omit [DecidableEq κ] in
theorem ahead_lt_size {e : Slot κ ν} (he : e ∈ m.slots) : m.ahead (e.stamp + 1) < m.size := by
  obtain ⟨before, behind, hslots⟩ := List.append_of_mem he
  unfold ahead size
  rw [hslots, List.filter_append, List.filter_cons_of_neg (by simp)]
  have hb := List.length_filter_le (fun e' : Slot κ ν => decide (e.stamp + 1 ≤ e'.stamp)) before
  have hc := List.length_filter_le (fun e' : Slot κ ν => decide (e.stamp + 1 ≤ e'.stamp)) behind
  simp only [List.length_append, List.length_cons]
  omega

omit [DecidableEq κ] in
/-- All but the first entry are newer than it. -/
theorem ahead_first {e : Slot κ ν} {rest : List (Slot κ ν)} (h : m.slots = e :: rest) :
    m.ahead (e.stamp + 1) = rest.length := by
  have hsorted := m.sorted
  rw [h] at hsorted
  unfold ahead
  rw [h, List.filter_cons_of_neg (by simp)]
  rw [List.filter_eq_self.mpr fun e' he' => ?_]
  exact decide_eq_true ((List.pairwise_cons.mp hsorted).1 e' he')

theorem ahead_delete_le (stamp : ℕ) : (m.delete key).ahead stamp ≤ m.ahead stamp := by
  unfold ahead
  exact (List.filter_sublist.filter _).length_le

theorem ahead_delete_first {e : Slot κ ν} {rest : List (Slot κ ν)} (h : m.slots = e :: rest)
    {stamp : ℕ} (hlt : e.stamp < stamp) : (m.delete e.key).ahead stamp = m.ahead stamp := by
  unfold ahead
  rw [slots_delete_first h, h, List.filter_cons_of_neg (by simpa using hlt)]

theorem ahead_set_of_none (h : m.get key = none) {stamp : ℕ} (hle : stamp ≤ m.next) :
    (m.set key value).ahead stamp = m.ahead stamp + 1 := by
  unfold ahead
  rw [slots_set_of_none h, List.filter_append, List.filter_cons_of_pos (by simpa using hle)]
  simp

theorem ahead_set_of_some (h : m.get key = some v) (stamp : ℕ) :
    (m.set key value).ahead stamp = m.ahead stamp := by
  have hstamp : (fun e : Slot κ ν => decide (stamp ≤ e.stamp))
      ∘ (fun e => if e.key = key then { e with value := value } else e)
      = fun e => decide (stamp ≤ e.stamp) := by
    funext e
    simp only [Function.comp_apply]
    split <;> rfl
  unfold ahead
  rw [slots_set_of_some h, List.filter_map, List.length_map, hstamp]

end totals

end LiveMap

end LeaveLedger.Lib
