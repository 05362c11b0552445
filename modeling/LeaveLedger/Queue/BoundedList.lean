import LeaveLedger.Queue.Heap
import LeaveLedger.Lib.Machine
import Mathlib.Data.List.Sort

/-!
# Queue — The bounded sorted list

What the priority queue is for: a list that is kept sorted by priority and
insertion number. When it is full an entry that is not less than the last
one is dropped, and otherwise the last one is evicted. The order is part of
the type.
-/

namespace LeaveLedger

open ExtNumber

variable {T : Type}

/-- The entries in order, and the next insertion number, which none of them has. -/
structure BoundedList (T : Type) where
  items : List (Entry T)
  seq : ℕ
  sorted : items.Pairwise fun a b => a.key < b.key
  fresh : ∀ e ∈ items, e.insertSeq < seq

/-- An entry with a key of its own has one place in a sorted list. -/
theorem sorted_orderedInsert {e : Entry T} {items : List (Entry T)}
    (hsorted : items.Pairwise fun a b => a.key < b.key) (hne : ∀ a ∈ items, a.key ≠ e.key) :
    (items.orderedInsert (fun a b => a.key ≤ b.key) e).Pairwise fun a b => a.key < b.key := by
  induction items with
  | nil => simp
  | cons b rest ih =>
      rw [List.pairwise_cons] at hsorted
      rw [List.orderedInsert_cons]
      split
      · rename_i hle
        have hlt : e.key < b.key := lt_of_le_of_ne hle (hne b List.mem_cons_self).symm
        rw [List.pairwise_cons, List.pairwise_cons]
        refine ⟨fun a ha => ?_, hsorted⟩
        rcases List.mem_cons.mp ha with rfl | ha
        · exact hlt
        · exact hlt.trans (hsorted.1 a ha)
      · rename_i hle
        rw [List.pairwise_cons]
        refine ⟨fun a ha => ?_, ih hsorted.2 fun a ha => hne a (List.mem_cons_of_mem _ ha)⟩
        rcases (List.mem_orderedInsert _).mp ha with rfl | ha
        · exact not_le.mp hle
        · exact hsorted.1 a ha

theorem Entry.key_ne_of_seq {a b : Entry T} (h : a.insertSeq < b.insertSeq) : a.key ≠ b.key := by
  intro heq
  have hseq := (Prod.mk.inj (toLex_inj.mp heq)).2
  omega

namespace BoundedList

variable (maxSize : ExtNumber) (s : BoundedList T)

def empty : BoundedList T := ⟨[], 0, List.Pairwise.nil, by simp⟩

/-- Number and insert an entry. -/
def insert (value : T) (priority : ExtNumber) : BoundedList T where
  items := s.items.orderedInsert (fun a b => a.key ≤ b.key) ⟨priority, value, s.seq⟩
  seq := s.seq + 1
  sorted := sorted_orderedInsert s.sorted fun e he => Entry.key_ne_of_seq (s.fresh e he)
  fresh := by
    intro e he
    rcases (List.mem_orderedInsert _).mp he with rfl | he
    · exact Nat.lt_succ_self _
    · exact Nat.lt_succ_of_lt (s.fresh e he)

/-- Use up an insertion number. -/
def skip : BoundedList T where
  items := s.items
  seq := s.seq + 1
  sorted := s.sorted
  fresh e he := Nat.lt_succ_of_lt (s.fresh e he)

/-- A part of the entries. -/
def restrict (items : List (Entry T)) (h : items.Sublist s.items) : BoundedList T where
  items := items
  seq := s.seq
  sorted := s.sorted.sublist h
  fresh e he := s.fresh e (h.subset he)

/-- The evicted entry and the list afterwards. -/
def enqueue (value : T) (priority : ExtNumber) : Option (Entry T) × BoundedList T :=
  if maxSize.atMost s.items.length then
    match s.items.getLast? with
    | none => (none, s.insert value priority)
    | some last =>
        if last.key ≤ (⟨priority, value, s.seq⟩ : Entry T).key then (none, s.skip)
        else (some last,
          (s.restrict s.items.dropLast (List.dropLast_sublist _)).insert value priority)
  else (none, s.insert value priority)

def dequeue : Option T × BoundedList T :=
  (s.items.head?.map Entry.value, s.restrict s.items.tail (List.tail_sublist _))

def drain : List T × BoundedList T :=
  (s.items.map Entry.value, s.restrict [] (List.nil_sublist _))

def removeWhere (predicate : T → Bool) : ℕ × BoundedList T :=
  (s.items.countP fun e => predicate e.value,
    s.restrict (s.items.filter fun e => !predicate e.value) List.filter_sublist)

end BoundedList

/-! ## The two machines -/

inductive QueueOp (T : Type) where
  | enqueue (value : T) (priority : ExtNumber)
  | dequeue
  | peek
  | peekPriority
  | drain
  | size
  | removeWhere (predicate : T → Bool)

inductive QueueAnswer (T : Type) where
  | evicted (entry : Option (Entry T))
  | value (value : Option T)
  | priority (priority : Option ExtNumber)
  | values (values : List T)
  | count (n : ℕ)

/-- An operation on the queue, none where the code fails. -/
def PriorityQueue.exec :
    QueueOp T → PriorityQueue T → Option (QueueAnswer T × PriorityQueue T)
  | .enqueue value priority, q =>
      (q.enqueue value priority).map fun r => (.evicted r.1, r.2)
  | .dequeue, q => some (.value q.dequeue.1, q.dequeue.2)
  | .peek, q => some (.value q.peek, q)
  | .peekPriority, q => some (.priority q.peekPriority, q)
  | .drain, q => some (.values q.drain.1, q.drain.2)
  | .size, q => some (.count q.size, q)
  | .removeWhere predicate, q =>
      some (.count (q.removeWhere predicate).1, (q.removeWhere predicate).2)

def BoundedList.exec (maxSize : ExtNumber) :
    QueueOp T → BoundedList T → Option (QueueAnswer T × BoundedList T)
  | .enqueue value priority, s =>
      some (.evicted (s.enqueue maxSize value priority).1, (s.enqueue maxSize value priority).2)
  | .dequeue, s => some (.value s.dequeue.1, s.dequeue.2)
  | .peek, s => some (.value (s.items.head?.map Entry.value), s)
  | .peekPriority, s => some (.priority (s.items.head?.map Entry.priority), s)
  | .drain, s => some (.values s.drain.1, s.drain.2)
  | .size, s => some (.count s.items.length, s)
  | .removeWhere predicate, s =>
      some (.count (s.removeWhere predicate).1, (s.removeWhere predicate).2)

end LeaveLedger
