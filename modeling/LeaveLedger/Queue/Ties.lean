import LeaveLedger.Queue.RankedHeap
import Mathlib.Order.Antisymmetrization

/-!
# Queue — Ties under a custom comparator

A custom comparator sees values only, so between two entries that it calls
equal nothing tells which was enqueued first, and a sift may put the later
one on top. What `dequeue` returns is always one of the least. It is the one
enqueued first as long as all the least have one value, which a comparator
that never calls different values equal makes sure of, and no other does.
-/

namespace LeaveLedger

open Lib.BinaryHeap ExtNumber

variable {T : Type}

/-- The comparator orders the values by the total preorder `le`. -/
structure Compares (custom : T → T → Option ExtNumber) (le : T → T → Prop) : Prop where
  total : ∀ a b, le a b ∨ le b a
  trans : ∀ a b c, le a b → le b c → le a c
  neg_iff : ∀ a b, isNegative (custom a b) = true ↔ ¬ le b a
  pos_iff : ∀ a b, isPositive (custom a b) = true ↔ ¬ le a b
  nonneg_iff : ∀ a b, isNonNegative (custom a b) = true ↔ le b a

variable {custom : T → T → Option ExtNumber} {le : T → T → Prop}

/-- A total preorder is the order of a rank. -/
theorem Compares.exists_rank (h : Compares custom le) :
    ∃ (κ : Type) (_ : LinearOrder κ) (rank : T → κ), ∀ a b, rank a ≤ rank b ↔ le a b := by
  classical
  let preorder : Preorder T :=
    { le := le
      le_refl := fun a => (h.total a a).elim id id
      le_trans := h.trans }
  have : @Std.Total T (· ≤ ·) := ⟨h.total⟩
  exact ⟨Antisymmetrization T (· ≤ ·), inferInstance, toAntisymmetrization (· ≤ ·),
    fun _ _ => toAntisymmetrization_le_toAntisymmetrization_iff⟩

theorem Compares.ranksBy {κ : Type} [LinearOrder κ] {rank : T → κ} (h : Compares custom le)
    (hrank : ∀ a b, rank a ≤ rank b ↔ le a b) :
    RanksBy (keptComparator (some custom)) fun e => rank e.value where
  neg_iff {a b} := by
    rw [← not_le, hrank]
    exact h.neg_iff a.value b.value
  pos_iff {a b} := by
    rw [← not_le, hrank]
    exact h.pos_iff a.value b.value
  nonneg_iff {a b} := by
    rw [hrank]
    exact h.nonneg_iff a.value b.value

/-! ## The calls -/

inductive QueueCall (T : Type) where
  | enqueue (value : T) (priority : ExtNumber)
  | dequeue
  | removeWhere (predicate : T → Bool)

/-- The queue after a call. An `enqueue` that fails has used up its number. -/
def PriorityQueue.after (compare : Entry T → Entry T → Option ExtNumber) (q : PriorityQueue T) :
    QueueCall T → PriorityQueue T
  | .enqueue value priority =>
      match q.enqueueBy compare value priority with
      | some (_, q') => q'
      | none => { q with seq := q.seq + 1 }
  | .dequeue => (q.dequeueBy compare).2
  | .removeWhere predicate => (q.removeWhereBy compare predicate).2

/-- `new PriorityQueue({ maxSize, comparator })` after a sequence of calls. -/
def queueAfter (custom : T → T → Option ExtNumber) (maxSize : ExtNumber)
    (calls : List (QueueCall T)) : PriorityQueue T :=
  calls.foldl (PriorityQueue.after (keptComparator (some custom))) (PriorityQueue.new maxSize)

/-! ## The heap -/

section Heap

variable {κ : Type} [LinearOrder κ] {compare : Entry T → Entry T → Option ExtNumber}
  {rank : Entry T → κ} {q : PriorityQueue T}

theorem RanksBy.pushBy_heap (hrank : RanksBy compare rank)
    (h : HeapFrom (rankAt rank q.heap) 0) (e : Entry T) :
    HeapFrom (rankAt rank (q.pushBy compare e).heap) 0 :=
  hrank.siftUp_heap _ (by rw [Array.size_push]; exact Nat.lt_succ_self _) (upTo_push h e)

theorem RanksBy.enqueueBy_heap (hrank : RanksBy compare rank)
    (h : HeapFrom (rankAt rank q.heap) 0) {value : T} {priority : ExtNumber}
    {evicted : Option (Entry T)} {q' : PriorityQueue T}
    (henqueue : q.enqueueBy compare value priority = some (evicted, q')) :
    HeapFrom (rankAt rank q'.heap) 0 := by
  unfold PriorityQueue.enqueueBy at henqueue
  dsimp only at henqueue
  split at henqueue
  · split at henqueue
    · cases henqueue
    · split at henqueue
      · cases henqueue
        exact h
      · cases henqueue
        exact hrank.pushBy_heap (hrank.buildHeap_heap _) _
  · cases henqueue
    exact hrank.pushBy_heap h _

theorem RanksBy.dequeueBy_heap (hrank : RanksBy compare rank)
    (h : HeapFrom (rankAt rank q.heap) 0) :
    HeapFrom (rankAt rank (q.dequeueBy compare).2.heap) 0 := by
  unfold PriorityQueue.dequeueBy
  split
  · rename_i hfirst _
    have hsize := lt_size_of_some hfirst
    split
    · intro c _ _
      rw [rankAt_of_le (i := c) (by rw [Array.size_pop]; omega)]
      exact le_top
    · refine hrank.siftDown_heap 0 ?_ (downAt_dequeue h _)
      rw [Array.size_setIfInBounds, Array.size_pop]
      omega
  · exact h

/-- **One call** keeps the array a heap. -/
theorem RanksBy.after_heap (hrank : RanksBy compare rank)
    (h : HeapFrom (rankAt rank q.heap) 0) (call : QueueCall T) :
    HeapFrom (rankAt rank (q.after compare call).heap) 0 := by
  cases call with
  | enqueue value priority =>
      rw [PriorityQueue.after]
      cases henqueue : q.enqueueBy compare value priority with
      | none => exact h
      | some r => exact hrank.enqueueBy_heap h henqueue
  | dequeue => exact hrank.dequeueBy_heap h
  | removeWhere predicate => exact hrank.buildHeap_heap _

theorem RanksBy.foldl_after_heap (hrank : RanksBy compare rank) (calls : List (QueueCall T))
    (h : HeapFrom (rankAt rank q.heap) 0) :
    HeapFrom (rankAt rank (calls.foldl (PriorityQueue.after compare) q).heap) 0 := by
  induction calls generalizing q with
  | nil => exact h
  | cons call calls ih => exact ih (hrank.after_heap h call)

/-- `dequeue` returns the value at the root. -/
theorem dequeueBy_fst (compare : Entry T → Entry T → Option ExtNumber) (q : PriorityQueue T) :
    (q.dequeueBy compare).1 = q.heap[0]?.map Entry.value := by
  unfold PriorityQueue.dequeueBy
  split
  · rename_i min last hfirst hlast
    split
    · rename_i hone
      rw [Array.back?_eq_getElem?, hone] at hlast
      rw [hlast]
      rfl
    · rw [hfirst]
      rfl
  · rename_i hnone
    by_cases hsize : q.heap.size = 0
    · rw [Array.getElem?_eq_none (Nat.le_of_eq hsize)]
      rfl
    · have hend : q.heap.size - 1 < q.heap.size := by omega
      obtain ⟨first, hfirst⟩ := exists_entry (Nat.pos_of_ne_zero hsize)
      obtain ⟨last, hlast⟩ := exists_entry hend
      rw [← Array.back?_eq_getElem?] at hlast
      exact absurd hlast (hnone first last hfirst)

end Heap

/-! ## What dequeue returns -/

/-- The entry is one of the least of those held. -/
def LeastOf (le : T → T → Prop) (held : List (Entry T)) (e : Entry T) : Prop :=
  e ∈ held ∧ ∀ a ∈ held, le e.value a.value

/-- The value is that of a least entry and, of the entries that compare equal to it, of
the one enqueued first; there is none where no entry is held. -/
def FirstLeast (le : T → T → Prop) (held : List (Entry T)) : Option T → Prop
  | none => held = []
  | some v => ∃ e, LeastOf le held e ∧ e.value = v
      ∧ ∀ a ∈ held, le a.value e.value → e.insertSeq ≤ a.insertSeq

/-- **What `dequeue` returns is one of the least**, after every sequence of calls. -/
theorem Compares.root_leastOf (h : Compares custom le) (maxSize : ExtNumber)
    (calls : List (QueueCall T)) {first : Entry T}
    (hfirst : (queueAfter custom maxSize calls).heap[0]? = some first) :
    LeastOf le (queueAfter custom maxSize calls).heap.toList first := by
  obtain ⟨κ, _, rank, hrank⟩ := h.exists_rank
  have hnew : HeapFrom (rankAt (fun e : Entry T => rank e.value)
      (PriorityQueue.new maxSize : PriorityQueue T).heap) 0 := by
    intro c _ _
    rw [rankAt_of_le (Nat.zero_le _)]
    exact le_top
  have hheap := (h.ranksBy hrank).foldl_after_heap calls hnew
  refine ⟨List.mem_iff_getElem?.mpr ⟨0, by rw [Array.getElem?_toList]; exact hfirst⟩, ?_⟩
  intro a ha
  obtain ⟨i, hi⟩ := List.mem_iff_getElem?.mp ha
  rw [Array.getElem?_toList] at hi
  have hle := hheap.root_le i
  change rankAt _ (queueAfter custom maxSize calls).heap 0
    ≤ rankAt _ (queueAfter custom maxSize calls).heap i at hle
  rw [rankAt_of_some hfirst, rankAt_of_some hi, WithTop.coe_le_coe] at hle
  exact (hrank _ _).mp hle

/-- Of the entries that satisfy `p` one was enqueued first. -/
theorem exists_first {held : List (Entry T)} {p : Entry T → Prop} {e : Entry T} (he : e ∈ held)
    (hp : p e) : ∃ a ∈ held, p a ∧ ∀ b ∈ held, p b → a.insertSeq ≤ b.insertSeq := by
  classical
  have hexists : ∃ n, ∃ a ∈ held, p a ∧ a.insertSeq = n := ⟨_, e, he, hp, rfl⟩
  obtain ⟨a, ha, hpa, hseq⟩ := Nat.find_spec hexists
  refine ⟨a, ha, hpa, fun b hb hpb => ?_⟩
  rw [hseq]
  exact Nat.find_min' hexists ⟨b, hb, hpb, rfl⟩

/-- The least entries held have one value. -/
def OneLeast (le : T → T → Prop) (held : List (Entry T)) : Prop :=
  ∀ a b, LeastOf le held a → LeastOf le held b → a.value = b.value

/-- Where the least entries have one value, each of them stands for the first. -/
theorem Compares.firstLeast (h : Compares custom le) (maxSize : ExtNumber)
    (calls : List (QueueCall T))
    (hone : OneLeast le (queueAfter custom maxSize calls).heap.toList) :
    FirstLeast le (queueAfter custom maxSize calls).heap.toList
      ((queueAfter custom maxSize calls).dequeueBy (keptComparator (some custom))).1 := by
  rw [dequeueBy_fst]
  cases hfirst : (queueAfter custom maxSize calls).heap[0]? with
  | none =>
      show (queueAfter custom maxSize calls).heap.toList = []
      rw [← List.length_eq_zero_iff, Array.length_toList]
      exact Nat.le_zero.mp (Array.getElem?_eq_none_iff.mp hfirst)
  | some first =>
      have hleast := h.root_leastOf maxSize calls hfirst
      obtain ⟨e, he, htie, hfirst'⟩ :=
        exists_first (p := fun a => le a.value first.value) hleast.1
          (hleast.2 first hleast.1)
      have heleast : LeastOf le (queueAfter custom maxSize calls).heap.toList e :=
        ⟨he, fun a ha => h.trans _ _ _ htie (hleast.2 a ha)⟩
      refine ⟨e, heleast, hone e first heleast hleast, fun a ha hle => hfirst' a ha ?_⟩
      exact h.trans _ _ _ hle htie

/-! ## Three ties -/

/-- Three values that compare equal, and the first of them taken out. -/
def threeTies (a b c : T) : List (QueueCall T) :=
  [.enqueue a (.finite 0), .enqueue b (.finite 0), .enqueue c (.finite 0), .dequeue]

/-- The last of three ties takes the place of the first, ahead of the second. -/
theorem threeTies_heap {a b c : T} (hba : isNegative (custom b a) = false)
    (hca : isNegative (custom c a) = false) (hbc : isNegative (custom b c) = false) :
    (queueAfter custom .posInf (threeTies a b c)).heap
      = #[⟨.finite 0, c, 2⟩, ⟨.finite 0, b, 1⟩] := by
  simp [queueAfter, threeTies, PriorityQueue.after, PriorityQueue.new, PriorityQueue.enqueueBy,
    PriorityQueue.pushBy, PriorityQueue.dequeueBy, atMost, siftUpBy, siftDownBy, smallestBy,
    compareAtBy, keptComparator, parent, hba, hca, hbc]

/-- Then the third is returned, although the second was enqueued first. -/
theorem not_firstLeast_threeTies {a b c : T} (hba : isNegative (custom b a) = false)
    (hca : isNegative (custom c a) = false) (hbc : isNegative (custom b c) = false)
    (htie : le b c) (hne : b ≠ c) :
    ¬ FirstLeast le (queueAfter custom .posInf (threeTies a b c)).heap.toList
      ((queueAfter custom .posInf (threeTies a b c)).dequeueBy
        (keptComparator (some custom))).1 := by
  rw [dequeueBy_fst, threeTies_heap hba hca hbc]
  rintro ⟨e, ⟨hmem, -⟩, hvalue, hfirst⟩
  have hthird : e = ⟨.finite 0, c, 2⟩ := by
    rcases List.mem_cons.mp hmem with hthird | hsecond
    · exact hthird
    · rw [List.mem_singleton.mp hsecond] at hvalue
      exact absurd hvalue hne
  have hlate := hfirst ⟨.finite 0, b, 1⟩ (by simp) (by rw [hthird]; exact htie)
  rw [hthird] at hlate
  exact Nat.not_succ_le_self 1 hlate

theorem Compares.isNegative_of_le (h : Compares custom le) {a b : T} (hle : le b a) :
    isNegative (custom a b) = false := by
  rw [Bool.eq_false_iff, ne_eq, h.neg_iff, not_not]
  exact hle

/-- **When the queue is first in, first out among equals**: `dequeue` returns the least
value that was enqueued first wherever the least entries have one value, and it does so
after every sequence of calls exactly for the comparators that never call two different
values equal. -/
theorem dequeue_firstLeast_iff (h : Compares custom le) :
    (∀ maxSize calls, OneLeast le (queueAfter custom maxSize calls).heap.toList →
      FirstLeast le (queueAfter custom maxSize calls).heap.toList
        ((queueAfter custom maxSize calls).dequeueBy (keptComparator (some custom))).1)
    ∧ ((∀ maxSize calls, FirstLeast le (queueAfter custom maxSize calls).heap.toList
          ((queueAfter custom maxSize calls).dequeueBy (keptComparator (some custom))).1)
      ↔ ∀ a b, le a b → le b a → a = b) := by
  refine ⟨h.firstLeast, fun hfifo a b hab hba => ?_, fun hanti maxSize calls => ?_⟩
  · by_contra hne
    have haa : le a a := (h.total a a).elim id id
    exact not_firstLeast_threeTies (h.isNegative_of_le haa) (h.isNegative_of_le hab)
      (h.isNegative_of_le hba) hab hne (hfifo .posInf (threeTies a a b))
  · refine h.firstLeast maxSize calls fun a b ha hb => ?_
    exact hanti _ _ (ha.2 b hb.1) (hb.2 a ha.1)

/-- `(a, b) => b.score - a.score`, on the scores. -/
def byScore (a b : ℚ) : Option ExtNumber := some (.finite (b - a))

theorem compares_byScore : Compares byScore fun a b => b ≤ a where
  total a b := le_total b a
  trans a b c hab hbc := hbc.trans hab
  neg_iff a b := by simp [byScore, isNegative]
  pos_iff a b := by simp [byScore, isPositive]
  nonneg_iff a b := by simp [byScore, isNonNegative]

/-- Scores that compare equal are one score, so the greatest first enqueued is returned. -/
theorem dequeue_firstLeast_byScore :
    FirstLeast (fun a b => b ≤ a)
      (queueAfter byScore (.finite 4)
        [.enqueue 5 (.finite 0), .enqueue 9 (.finite 0), .enqueue 9 (.finite 0),
          .dequeue]).heap.toList
      ((queueAfter byScore (.finite 4)
        [.enqueue 5 (.finite 0), .enqueue 9 (.finite 0), .enqueue 9 (.finite 0),
          .dequeue]).dequeueBy
        (keptComparator (some byScore))).1 :=
  (dequeue_firstLeast_iff compares_byScore).2.mpr (fun _ _ hba hab => le_antisymm hab hba) _ _

/-- `(a, b) => a.length - b.length`. -/
def byLength (a b : String) : Option ExtNumber := some (.finite (a.length - b.length))

theorem compares_byLength : Compares byLength fun a b => a.length ≤ b.length where
  total a b := Nat.le_total _ _
  trans a b c := Nat.le_trans
  neg_iff a b := by simp [byLength, isNegative]
  pos_iff a b := by simp [byLength, isPositive]
  nonneg_iff a b := by simp [byLength, isNonNegative]

/-- Of three texts that the comparator calls equal the third overtakes the second. -/
theorem threeTies_overtaken :
    Compares byLength (fun a b => a.length ≤ b.length)
    ∧ ¬ FirstLeast (fun a b => a.length ≤ b.length)
      (queueAfter byLength .posInf (threeTies "low" "mid" "top")).heap.toList
      ((queueAfter byLength .posInf (threeTies "low" "mid" "top")).dequeueBy
        (keptComparator (some byLength))).1 := by
  refine ⟨compares_byLength, ?_⟩
  refine not_firstLeast_threeTies ?_ ?_ ?_ (Nat.le_refl 3) (by decide)
  all_goals exact compares_byLength.isNegative_of_le (Nat.le_refl 3)

end LeaveLedger
