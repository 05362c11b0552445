import LeaveLedger.Lib.BinaryHeap
import Mathlib.Algebra.Order.Field.Rat
import Mathlib.Data.Prod.Lex
import Mathlib.Order.WithBotTop
import Mathlib.Tactic.Linarith

/-!
# Common — PriorityQueue

`common/utils/priority-queue.util` with the default comparator: the binary
heap with its sifts, its rebuild and its search for the worst entry. A
comparison of two priorities is a subtraction, which has no result for two
infinities of one sign; `||` then goes on to the insertion numbers.
-/

namespace LeaveLedger

open Lib.BinaryHeap

/-! ## Numbers -/

/-- A number other than `NaN`. -/
inductive ExtNumber where
  | negInf
  | finite (q : ℚ)
  | posInf
  deriving DecidableEq

namespace ExtNumber

/-- `a - b`, none for `NaN`. -/
def sub : ExtNumber → ExtNumber → Option ExtNumber
  | .finite a, .finite b => some (.finite (a - b))
  | .posInf, .posInf => none
  | .negInf, .negInf => none
  | .posInf, _ => some .posInf
  | _, .negInf => some .posInf
  | .negInf, _ => some .negInf
  | _, .posInf => some .negInf

/-- `x || y`: what is `NaN` or zero is passed over. -/
def orElse : Option ExtNumber → Option ExtNumber → Option ExtNumber
  | none, y => y
  | some x, y => if x = .finite 0 then y else some x

/-- `x < 0`. -/
def isNegative : Option ExtNumber → Bool
  | some .negInf => true
  | some (.finite q) => q < 0
  | some .posInf => false
  | none => false

/-- `x > 0`. -/
def isPositive : Option ExtNumber → Bool
  | some .posInf => true
  | some (.finite q) => 0 < q
  | some .negInf => false
  | none => false

/-- `x >= 0`. -/
def isNonNegative : Option ExtNumber → Bool
  | some .posInf => true
  | some (.finite q) => 0 ≤ q
  | some .negInf => false
  | none => false

/-- The length `n` is at least `x`. -/
def atMost (x : ExtNumber) (n : ℕ) : Bool :=
  match x with
  | .negInf => true
  | .finite q => q ≤ n
  | .posInf => false

/-- The place of a number among all numbers. -/
def toOrder : ExtNumber → WithBot (WithTop ℚ)
  | .negInf => ⊥
  | .finite q => ((q : WithTop ℚ) : WithBot (WithTop ℚ))
  | .posInf => ((⊤ : WithTop ℚ) : WithBot (WithTop ℚ))

theorem toOrder_injective : Function.Injective toOrder := by
  intro a b h
  cases a <;> cases b <;> simp_all [toOrder]

instance : LinearOrder ExtNumber := LinearOrder.lift' toOrder toOrder_injective

theorem lt_iff {a b : ExtNumber} : a < b ↔ a.toOrder < b.toOrder := Iff.rfl

@[simp] theorem finite_lt_finite {p q : ℚ} : finite p < finite q ↔ p < q := by
  simp [lt_iff, toOrder]

@[simp] theorem negInf_lt_finite {q : ℚ} : negInf < finite q := by
  simp [lt_iff, toOrder]

@[simp] theorem negInf_lt_posInf : negInf < posInf := by
  simp [lt_iff, toOrder]

@[simp] theorem finite_lt_posInf {q : ℚ} : finite q < posInf :=
  WithBot.coe_lt_coe.mpr (WithTop.coe_lt_top q)

theorem not_lt_negInf {a : ExtNumber} : ¬ a < negInf := fun h => not_lt_bot (lt_iff.mp h)

theorem not_posInf_lt {a : ExtNumber} : ¬ posInf < a := by
  intro h
  cases a with
  | negInf => exact absurd h not_lt_negInf
  | finite q => exact absurd h finite_lt_posInf.asymm
  | posInf => exact absurd h (lt_irrefl _)

theorem isNegative_iff {d : ExtNumber} : isNegative (some d) = true ↔ d < finite 0 := by
  cases d <;> simp [isNegative, not_posInf_lt]

theorem isPositive_iff {d : ExtNumber} : isPositive (some d) = true ↔ finite 0 < d := by
  cases d <;> simp [isPositive, not_lt_negInf]

theorem isNonNegative_iff {d : ExtNumber} : isNonNegative (some d) = true ↔ ¬ d < finite 0 := by
  cases d <;> simp [isNonNegative, not_posInf_lt]

/-- The difference of two numbers has the sign of their order. -/
theorem sub_of_lt {a b : ExtNumber} (h : a < b) : ∃ d, a.sub b = some d ∧ d < finite 0 := by
  cases a with
  | negInf =>
      cases b with
      | negInf => exact absurd h (lt_irrefl _)
      | finite q => exact ⟨_, rfl, negInf_lt_finite⟩
      | posInf => exact ⟨_, rfl, negInf_lt_finite⟩
  | finite p =>
      cases b with
      | negInf => exact absurd h not_lt_negInf
      | finite q => exact ⟨_, rfl, by simpa using h⟩
      | posInf => exact ⟨_, rfl, negInf_lt_finite⟩
  | posInf => exact absurd h not_posInf_lt

theorem sub_of_gt {a b : ExtNumber} (h : b < a) : ∃ d, a.sub b = some d ∧ finite 0 < d := by
  cases a with
  | negInf => exact absurd h not_lt_negInf
  | finite p =>
      cases b with
      | negInf => exact ⟨_, rfl, finite_lt_posInf⟩
      | finite q => exact ⟨_, rfl, by simpa using h⟩
      | posInf => exact absurd h not_posInf_lt
  | posInf =>
      cases b with
      | negInf => exact ⟨_, rfl, finite_lt_posInf⟩
      | finite q => exact ⟨_, rfl, finite_lt_posInf⟩
      | posInf => exact absurd h (lt_irrefl _)

/-- Equal numbers have no difference that `||` would stop at. -/
theorem orElse_sub_self (a : ExtNumber) (y : Option ExtNumber) : orElse (a.sub a) y = y := by
  cases a with
  | negInf => rfl
  | finite q => simp [sub, orElse]
  | posInf => rfl

theorem orElse_of_ne {d : ExtNumber} (h : d ≠ finite 0) (y : Option ExtNumber) :
    orElse (some d) y = some d := if_neg h

end ExtNumber

open ExtNumber

/-! ## Entries -/

structure Entry (T : Type) where
  priority : ExtNumber
  value : T
  insertSeq : ℕ

variable {T : Type}

/-- The default comparator,
`a.priority - b.priority || a.insertSeq - b.insertSeq`. -/
def comparator (a b : Entry T) : Option ExtNumber :=
  orElse (a.priority.sub b.priority) (some (.finite (a.insertSeq - b.insertSeq)))

/-- Priority first, then insertion number. -/
def Entry.key (e : Entry T) : ExtNumber ×ₗ ℕ := toLex (e.priority, e.insertSeq)

theorem Entry.key_lt_iff {a b : Entry T} : a.key < b.key
    ↔ a.priority < b.priority ∨ a.priority = b.priority ∧ a.insertSeq < b.insertSeq :=
  Prod.Lex.lt_iff

theorem comparator_of_lt {a b : Entry T} (h : a.key < b.key) :
    ∃ d, comparator a b = some d ∧ d < finite 0 := by
  rcases Entry.key_lt_iff.mp h with hlt | ⟨heq, hseq⟩
  · obtain ⟨d, hd, hneg⟩ := sub_of_lt hlt
    refine ⟨d, ?_, hneg⟩
    rw [comparator, hd, orElse_of_ne hneg.ne]
  · refine ⟨_, ?_, finite_lt_finite.mpr (sub_neg.mpr (Nat.cast_lt.mpr hseq))⟩
    rw [comparator, heq, orElse_sub_self]

theorem comparator_of_gt {a b : Entry T} (h : b.key < a.key) :
    ∃ d, comparator a b = some d ∧ finite 0 < d := by
  rcases Entry.key_lt_iff.mp h with hlt | ⟨heq, hseq⟩
  · obtain ⟨d, hd, hpos⟩ := sub_of_gt hlt
    refine ⟨d, ?_, hpos⟩
    rw [comparator, hd, orElse_of_ne hpos.ne']
  · refine ⟨_, ?_, finite_lt_finite.mpr (sub_pos.mpr (Nat.cast_lt.mpr hseq))⟩
    rw [comparator, heq, orElse_sub_self]

theorem comparator_of_eq {a b : Entry T} (h : a.key = b.key) :
    comparator a b = some (finite 0) := by
  obtain ⟨hpriority, hseq⟩ := Prod.mk.inj (toLex_inj.mp h)
  rw [comparator, hpriority, orElse_sub_self, hseq, sub_self]

/-- The three tests that the code makes of a comparison. -/
theorem comparator_neg_iff {a b : Entry T} :
    isNegative (comparator a b) = true ↔ a.key < b.key := by
  rcases lt_trichotomy a.key b.key with h | h | h
  · obtain ⟨d, hd, hneg⟩ := comparator_of_lt h
    rw [hd, isNegative_iff]
    exact iff_of_true hneg h
  · rw [comparator_of_eq h, isNegative_iff]
    exact iff_of_false (lt_irrefl _) h.not_lt
  · obtain ⟨d, hd, hpos⟩ := comparator_of_gt h
    rw [hd, isNegative_iff]
    exact iff_of_false hpos.asymm h.asymm

theorem comparator_pos_iff {a b : Entry T} :
    isPositive (comparator a b) = true ↔ b.key < a.key := by
  rcases lt_trichotomy a.key b.key with h | h | h
  · obtain ⟨d, hd, hneg⟩ := comparator_of_lt h
    rw [hd, isPositive_iff]
    exact iff_of_false hneg.asymm h.asymm
  · rw [comparator_of_eq h, isPositive_iff]
    exact iff_of_false (lt_irrefl _) h.not_gt
  · obtain ⟨d, hd, hpos⟩ := comparator_of_gt h
    rw [hd, isPositive_iff]
    exact iff_of_true hpos h

theorem comparator_nonneg_iff {a b : Entry T} :
    isNonNegative (comparator a b) = true ↔ b.key ≤ a.key := by
  rcases lt_trichotomy a.key b.key with h | h | h
  · obtain ⟨d, hd, hneg⟩ := comparator_of_lt h
    rw [hd, isNonNegative_iff]
    exact iff_of_false (not_not.mpr hneg) (not_le.mpr h)
  · rw [comparator_of_eq h, isNonNegative_iff]
    exact iff_of_true (lt_irrefl _) h.ge
  · obtain ⟨d, hd, hpos⟩ := comparator_of_gt h
    rw [hd, isNonNegative_iff]
    exact iff_of_true hpos.asymm h.le

/-! ## The heap -/

/-- The comparison of the entries at two positions. -/
def compareAt (heap : Array (Entry T)) (i j : ℕ) : Option ExtNumber :=
  match heap[i]?, heap[j]? with
  | some a, some b => comparator a b
  | _, _ => none

/-- `_siftUp`. -/
def siftUp (heap : Array (Entry T)) (idx : ℕ) : Array (Entry T) :=
  if 0 < idx then
    if isNegative (compareAt heap idx (parent idx)) then
      siftUp (heap.swapIfInBounds idx (parent idx)) (parent idx)
    else heap
  else heap
termination_by idx
decreasing_by exact parent_lt ‹0 < idx›

/-- `smallest`: the position of the least entry among `idx` and its children. -/
def smallest (heap : Array (Entry T)) (idx : ℕ) : ℕ :=
  let left := 2 * idx + 1
  let right := 2 * idx + 2
  let smallest := if left < heap.size ∧ isNegative (compareAt heap left idx) then left else idx
  if right < heap.size ∧ isNegative (compareAt heap right smallest) then right else smallest

theorem smallest_cases (heap : Array (Entry T)) (idx : ℕ) :
    smallest heap idx = idx
    ∨ (smallest heap idx = 2 * idx + 1 ∨ smallest heap idx = 2 * idx + 2)
      ∧ smallest heap idx < heap.size := by
  unfold smallest
  grind

/-- `_siftDown`. -/
def siftDown (heap : Array (Entry T)) (idx : ℕ) : Array (Entry T) :=
  if smallest heap idx = idx then heap
  else siftDown (heap.swapIfInBounds idx (smallest heap idx)) (smallest heap idx)
termination_by heap.size - idx
decreasing_by
  have := smallest_cases heap idx
  rw [Array.size_swapIfInBounds]
  omega

theorem size_siftDown (heap : Array (Entry T)) (idx : ℕ) :
    (siftDown heap idx).size = heap.size := by
  fun_induction siftDown heap idx with
  | case1 heap idx h => rfl
  | case2 heap idx h ih => rw [ih, Array.size_swapIfInBounds]

/-- The turns of the loop in `_buildHeap` for the positions below `n`. -/
def siftDownBelow (heap : Array (Entry T)) : ℕ → Array (Entry T)
  | 0 => heap
  | i + 1 => siftDownBelow (siftDown heap i) i

/-- `_buildHeap`. -/
def buildHeap (heap : Array (Entry T)) : Array (Entry T) := siftDownBelow heap (heap.size / 2)

/-- The loop of `_findMaxIndex` from position `i` on. -/
def findMaxFrom (heap : Array (Entry T)) (maxIdx i : ℕ) : ℕ :=
  if i < heap.size then
    findMaxFrom heap (if isPositive (compareAt heap i maxIdx) then i else maxIdx) (i + 1)
  else maxIdx
termination_by heap.size - i

/-- `_findMaxIndex`: the search goes through the leaves only. -/
def findMaxIndex (heap : Array (Entry T)) : ℕ :=
  findMaxFrom heap (heap.size / 2) (heap.size / 2 + 1)

/-! ## The queue -/

structure PriorityQueue (T : Type) where
  heap : Array (Entry T)
  maxSize : ExtNumber
  seq : ℕ

namespace PriorityQueue

/-- `new PriorityQueue({ maxSize })`. -/
def new (maxSize : ExtNumber := .posInf) : PriorityQueue T := ⟨#[], maxSize, 0⟩

def size (q : PriorityQueue T) : ℕ := q.heap.size

/-- Put an entry into the heap: `push` and `_siftUp`. -/
def push (q : PriorityQueue T) (entry : Entry T) : PriorityQueue T :=
  { q with heap := siftUp (q.heap.push entry) q.heap.size }

/-- `enqueue`: the evicted entry and the queue afterwards; none where the code
fails on a queue that is full and empty. -/
def enqueue (q : PriorityQueue T) (value : T) (priority : ExtNumber) :
    Option (Option (Entry T) × PriorityQueue T) :=
  let entry : Entry T := ⟨priority, value, q.seq⟩
  let q := { q with seq := q.seq + 1 }
  if q.maxSize.atMost q.heap.size then
    let worstIdx := findMaxIndex q.heap
    match q.heap[worstIdx]? with
    | none => none
    | some worst =>
        if isNonNegative (comparator entry worst) then some (none, q)
        else
          some (some worst,
            { q with heap := buildHeap (q.heap.eraseIdxIfInBounds worstIdx) }.push entry)
  else some (none, q.push entry)

/-- `dequeue`. -/
def dequeue (q : PriorityQueue T) : Option T × PriorityQueue T :=
  match q.heap[0]?, q.heap.back? with
  | some min, some last =>
      if q.heap.size = 1 then (some last.value, { q with heap := q.heap.pop })
      else (some min.value, { q with heap := siftDown (q.heap.pop.setIfInBounds 0 last) 0 })
  | _, _ => (none, q)

def peek (q : PriorityQueue T) : Option T := q.heap[0]?.map Entry.value

def peekPriority (q : PriorityQueue T) : Option ExtNumber := q.heap[0]?.map Entry.priority

theorem size_dequeue (q : PriorityQueue T) : q.dequeue.2.heap.size = q.heap.size - 1 := by
  unfold dequeue
  split
  · split
    · rw [Array.size_pop]
    · rw [size_siftDown, Array.size_setIfInBounds, Array.size_pop]
  · rename_i hnone
    by_cases hsize : q.heap.size = 0
    · rw [hsize]
    · refine absurd (Array.getElem?_eq_getElem (Nat.pos_of_ne_zero hsize)) fun hfirst => ?_
      refine hnone _ (q.heap.back (Nat.pos_of_ne_zero hsize)) hfirst ?_
      rw [Array.back?_eq_getElem?]
      exact Array.getElem?_eq_getElem _

/-- `drain`: `dequeue` until the queue is empty. -/
def drain (q : PriorityQueue T) : List T × PriorityQueue T :=
  if q.heap.size = 0 then ([], q)
  else (q.dequeue.1.toList ++ (drain q.dequeue.2).1, (drain q.dequeue.2).2)
termination_by q.heap.size
decreasing_by all_goals rw [size_dequeue]; omega

/-- `removeWhere`: the number of entries removed. -/
def removeWhere (q : PriorityQueue T) (predicate : T → Bool) : ℕ × PriorityQueue T :=
  let heap := buildHeap (q.heap.filter fun e => !predicate e.value)
  (q.heap.size - heap.size, { q with heap := heap })

end PriorityQueue

end LeaveLedger
