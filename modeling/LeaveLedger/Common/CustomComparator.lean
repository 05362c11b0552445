import LeaveLedger.Common.PriorityQueue

/-!
# Common — PriorityQueue with a comparator of its own

The operations of `common/utils/priority-queue.util` over the comparator that
the constructor keeps: the default one, or a given one, which is called with
the values of two entries and sees nothing else of them. With the default
comparator they are the operations of the queue as it is used.
-/

namespace LeaveLedger

open Lib.BinaryHeap ExtNumber

variable {T : Type}

/-- `this._comparator`, from the comparator among the options. -/
def keptComparator :
    Option (T → T → Option ExtNumber) → Entry T → Entry T → Option ExtNumber
  | some custom => fun a b => custom a.value b.value
  | none => comparator

variable (compare : Entry T → Entry T → Option ExtNumber)

/-! ## The heap -/

/-- The comparison of the entries at two positions. -/
def compareAtBy (heap : Array (Entry T)) (i j : ℕ) : Option ExtNumber :=
  match heap[i]?, heap[j]? with
  | some a, some b => compare a b
  | _, _ => none

/-- `_siftUp`. -/
def siftUpBy (heap : Array (Entry T)) (idx : ℕ) : Array (Entry T) :=
  if 0 < idx then
    if isNegative (compareAtBy compare heap idx (parent idx)) then
      siftUpBy (heap.swapIfInBounds idx (parent idx)) (parent idx)
    else heap
  else heap
termination_by idx
decreasing_by exact parent_lt ‹0 < idx›

/-- `smallest`: the position of the least entry among `idx` and its children. -/
def smallestBy (heap : Array (Entry T)) (idx : ℕ) : ℕ :=
  let left := 2 * idx + 1
  let right := 2 * idx + 2
  let smallest :=
    if left < heap.size ∧ isNegative (compareAtBy compare heap left idx) then left else idx
  if right < heap.size ∧ isNegative (compareAtBy compare heap right smallest) then right
  else smallest

theorem smallestBy_cases (heap : Array (Entry T)) (idx : ℕ) :
    smallestBy compare heap idx = idx
    ∨ (smallestBy compare heap idx = 2 * idx + 1 ∨ smallestBy compare heap idx = 2 * idx + 2)
      ∧ smallestBy compare heap idx < heap.size := by
  unfold smallestBy
  grind

/-- `_siftDown`. -/
def siftDownBy (heap : Array (Entry T)) (idx : ℕ) : Array (Entry T) :=
  if smallestBy compare heap idx = idx then heap
  else
    siftDownBy (heap.swapIfInBounds idx (smallestBy compare heap idx))
      (smallestBy compare heap idx)
termination_by heap.size - idx
decreasing_by
  have := smallestBy_cases compare heap idx
  rw [Array.size_swapIfInBounds]
  omega

/-- The turns of the loop in `_buildHeap` for the positions below `n`. -/
def siftDownBelowBy (heap : Array (Entry T)) : ℕ → Array (Entry T)
  | 0 => heap
  | i + 1 => siftDownBelowBy (siftDownBy compare heap i) i

/-- `_buildHeap`. -/
def buildHeapBy (heap : Array (Entry T)) : Array (Entry T) :=
  siftDownBelowBy compare heap (heap.size / 2)

/-- The loop of `_findMaxIndex` from position `i` on. -/
def findMaxFromBy (heap : Array (Entry T)) (maxIdx i : ℕ) : ℕ :=
  if i < heap.size then
    findMaxFromBy heap (if isPositive (compareAtBy compare heap i maxIdx) then i else maxIdx)
      (i + 1)
  else maxIdx
termination_by heap.size - i

/-- `_findMaxIndex`: the search goes through the leaves only. -/
def findMaxIndexBy (heap : Array (Entry T)) : ℕ :=
  findMaxFromBy compare heap (heap.size / 2) (heap.size / 2 + 1)

/-! ## The queue -/

namespace PriorityQueue

/-- Put an entry into the heap: `push` and `_siftUp`. -/
def pushBy (q : PriorityQueue T) (entry : Entry T) : PriorityQueue T :=
  { q with heap := siftUpBy compare (q.heap.push entry) q.heap.size }

/-- `enqueue`: the evicted entry and the queue afterwards; none where the code
fails on a queue that is full and empty. -/
def enqueueBy (q : PriorityQueue T) (value : T) (priority : ExtNumber) :
    Option (Option (Entry T) × PriorityQueue T) :=
  let entry : Entry T := ⟨priority, value, q.seq⟩
  let q := { q with seq := q.seq + 1 }
  if q.maxSize.atMost q.heap.size then
    let worstIdx := findMaxIndexBy compare q.heap
    match q.heap[worstIdx]? with
    | none => none
    | some worst =>
        if isNonNegative (compare entry worst) then some (none, q)
        else
          some (some worst,
            { q with heap := buildHeapBy compare (q.heap.eraseIdxIfInBounds worstIdx) }.pushBy
              compare entry)
  else some (none, q.pushBy compare entry)

/-- `dequeue`. -/
def dequeueBy (q : PriorityQueue T) : Option T × PriorityQueue T :=
  match q.heap[0]?, q.heap.back? with
  | some min, some last =>
      if q.heap.size = 1 then (some last.value, { q with heap := q.heap.pop })
      else
        (some min.value,
          { q with heap := siftDownBy compare (q.heap.pop.setIfInBounds 0 last) 0 })
  | _, _ => (none, q)

/-- `removeWhere`: the number of entries removed. -/
def removeWhereBy (q : PriorityQueue T) (predicate : T → Bool) : ℕ × PriorityQueue T :=
  let heap := buildHeapBy compare (q.heap.filter fun e => !predicate e.value)
  (q.heap.size - heap.size, { q with heap := heap })

end PriorityQueue

/-! ## The default comparator -/

theorem siftUp_eq (heap : Array (Entry T)) (idx : ℕ) :
    siftUp heap idx = siftUpBy comparator heap idx := by
  fun_induction siftUp heap idx with
  | case1 heap idx hpos hneg ih =>
      rw [siftUpBy, if_pos hpos]
      exact ih.trans (if_pos hneg).symm
  | case2 heap idx hpos hneg =>
      rw [siftUpBy, if_pos hpos]
      exact (if_neg hneg).symm
  | case3 heap idx hpos => rw [siftUpBy, if_neg hpos]

theorem siftDown_eq (heap : Array (Entry T)) (idx : ℕ) :
    siftDown heap idx = siftDownBy comparator heap idx := by
  fun_induction siftDown heap idx with
  | case1 heap idx hstop =>
      rw [siftDownBy]
      exact (if_pos hstop).symm
  | case2 heap idx hmove ih =>
      rw [siftDownBy]
      exact ih.trans (if_neg hmove).symm

theorem siftDownBelow_eq (heap : Array (Entry T)) (n : ℕ) :
    siftDownBelow heap n = siftDownBelowBy comparator heap n := by
  induction n generalizing heap with
  | zero => rfl
  | succ n ih => rw [siftDownBelow, siftDownBelowBy, siftDown_eq, ih]

theorem buildHeap_eq (heap : Array (Entry T)) :
    buildHeap heap = buildHeapBy comparator heap :=
  siftDownBelow_eq heap _

theorem findMaxFrom_eq (heap : Array (Entry T)) (maxIdx i : ℕ) :
    findMaxFrom heap maxIdx i = findMaxFromBy comparator heap maxIdx i := by
  fun_induction findMaxFrom heap maxIdx i with
  | case1 maxIdx i hi ih =>
      rw [findMaxFromBy, if_pos hi]
      exact ih
  | case2 maxIdx i hi => rw [findMaxFromBy, if_neg hi]

theorem findMaxIndex_eq (heap : Array (Entry T)) :
    findMaxIndex heap = findMaxIndexBy comparator heap :=
  findMaxFrom_eq heap _ _

/-- **Without a comparator among the options** the operations are those of the queue
as it is used. -/
theorem PriorityQueue.enqueue_eq (q : PriorityQueue T) (value : T) (priority : ExtNumber) :
    q.enqueue value priority = q.enqueueBy (keptComparator none) value priority := by
  simp only [enqueue, push, siftUp_eq, buildHeap_eq, findMaxIndex_eq]
  rfl

theorem PriorityQueue.dequeue_eq (q : PriorityQueue T) :
    q.dequeue = q.dequeueBy (keptComparator none) := by
  simp only [dequeue, siftDown_eq]
  rfl

theorem PriorityQueue.removeWhere_eq (q : PriorityQueue T) (predicate : T → Bool) :
    q.removeWhere predicate = q.removeWhereBy (keptComparator none) predicate := by
  simp only [removeWhere, buildHeap_eq]
  rfl

end LeaveLedger
