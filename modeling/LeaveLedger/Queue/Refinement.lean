import LeaveLedger.Queue.BoundedList

/-!
# Queue — The heap refines the bounded list

Heap and list hold the same entries, number them alike, and the array is a
heap. So the root is the first of the list, the entry the search among the
leaves finds is the last, and every operation answers alike and keeps the
relation.
-/

namespace LeaveLedger

open Lib Lib.BinaryHeap ExtNumber

variable {T : Type}

structure Refines (maxSize : ExtNumber) (q : PriorityQueue T) (s : BoundedList T) : Prop where
  maxSize : q.maxSize = maxSize
  seq : q.seq = s.seq
  heap : HeapFrom (keyAt q.heap) 0
  perm : q.heap.toList.Perm s.items

theorem refines_new (maxSize : ExtNumber) :
    Refines maxSize (PriorityQueue.new maxSize : PriorityQueue T) BoundedList.empty where
  maxSize := rfl
  seq := rfl
  heap := by
    intro c _ _
    rw [keyAt_of_le (Nat.zero_le _)]
    exact le_top
  perm := List.Perm.refl _

variable {maxSize : ExtNumber} {q : PriorityQueue T} {s : BoundedList T}

theorem Refines.size_eq (h : Refines maxSize q s) : q.heap.size = s.items.length := by
  rw [← Array.length_toList]
  exact h.perm.length_eq

theorem Refines.mem_of_some (h : Refines maxSize q s) {i : ℕ} {e : Entry T}
    (he : q.heap[i]? = some e) : e ∈ s.items := by
  rw [← h.perm.mem_iff, List.mem_iff_getElem?]
  exact ⟨i, by rw [Array.getElem?_toList]; exact he⟩

theorem Refines.some_of_mem (h : Refines maxSize q s) {e : Entry T} (he : e ∈ s.items) :
    ∃ i : ℕ, q.heap[i]? = some e := by
  rw [← h.perm.mem_iff, List.mem_iff_getElem?] at he
  obtain ⟨i, hi⟩ := he
  exact ⟨i, by rw [← Array.getElem?_toList]; exact hi⟩

/-- The root is the first entry of the list. -/
theorem Refines.root (h : Refines maxSize q s) : q.heap[0]? = s.items.head? := by
  cases hitems : s.items with
  | nil =>
      have hsize := h.size_eq
      rw [hitems, List.length_nil] at hsize
      exact Array.getElem?_eq_none (Nat.le_of_eq hsize)
  | cons first rest =>
      have hsize := h.size_eq
      rw [hitems, List.length_cons] at hsize
      have hpos : 0 < q.heap.size := by omega
      obtain ⟨e, he⟩ := exists_entry hpos
      rw [he, List.head?_cons]
      have hmem := h.mem_of_some he
      have hsorted := s.sorted
      rw [hitems] at hmem hsorted
      rcases List.mem_cons.mp hmem with rfl | hrest
      · rfl
      · -- the first entry is in the heap, and the root is at most that
        obtain ⟨i, hi⟩ := h.some_of_mem (e := first) (by rw [hitems]; exact List.mem_cons_self)
        have hle := h.heap.root_le i
        rw [keyAt_of_some he, keyAt_of_some hi, WithTop.coe_le_coe] at hle
        exact absurd ((List.pairwise_cons.mp hsorted).1 e hrest) (not_lt.mpr hle)

/-- The entry that the search finds is the last of the list. -/
theorem Refines.worst (h : Refines maxSize q s) (hne : s.items ≠ []) :
    findMaxIndex q.heap < q.heap.size
    ∧ q.heap[findMaxIndex q.heap]? = some (s.items.getLast hne) := by
  have hpos : 0 < q.heap.size := by
    rw [h.size_eq]
    exact List.length_pos_iff.mpr hne
  obtain ⟨hlt, hgreatest⟩ := findMaxIndex_greatest hpos h.heap
  refine ⟨hlt, ?_⟩
  obtain ⟨e, he⟩ := exists_entry hlt
  rw [he]
  have hmem := h.mem_of_some he
  have hsorted := s.sorted
  obtain ⟨i, hi⟩ := h.some_of_mem (List.getLast_mem hne)
  have hle := hgreatest i (lt_size_of_some hi)
  rw [keyAt_of_some he, keyAt_of_some hi, WithTop.coe_le_coe] at hle
  rw [← List.dropLast_append_getLast hne] at hmem hsorted
  rcases List.mem_append.mp hmem with hinit | hlast
  · have hless := (List.pairwise_append.mp hsorted).2.2 e hinit _ (List.mem_singleton.mpr rfl)
    exact absurd hless (not_lt.mpr hle)
  · rw [List.mem_singleton.mp hlast]

/-! ## enqueue -/

theorem Refines.push (h : Refines maxSize q s) (value : T) (priority : ExtNumber) :
    Refines maxSize ({ q with seq := q.seq + 1 }.push ⟨priority, value, q.seq⟩)
      (s.insert value priority) where
  maxSize := h.maxSize
  seq := congrArg (· + 1) h.seq
  heap := siftUp_heap _ (by rw [Array.size_push]; exact Nat.lt_succ_self _) (upTo_push h.heap _)
  perm := by
    refine (perm_siftUp _ _).trans ?_
    rw [Array.toList_push, h.seq]
    refine (List.perm_append_singleton _ _).trans ?_
    refine (h.perm.cons _).trans ?_
    exact (List.perm_orderedInsert _ _ _).symm

theorem Refines.evict (h : Refines maxSize q s) (hne : s.items ≠ []) :
    Refines maxSize
      { q with heap := buildHeap (q.heap.eraseIdxIfInBounds (findMaxIndex q.heap)) }
      (s.restrict s.items.dropLast (List.dropLast_sublist _)) where
  maxSize := h.maxSize
  seq := h.seq
  heap := buildHeap_heap _
  perm := by
    obtain ⟨hlt, hworst⟩ := h.worst hne
    refine (perm_buildHeap _).trans ?_
    rw [Array.eraseIdxIfInBounds_eq, dif_pos hlt, Array.toList_eraseIdx]
    have hpick : q.heap.toList[findMaxIndex q.heap] = s.items.getLast hne := by
      rw [Array.getElem_toList]
      exact Option.some.inj ((Array.getElem?_eq_getElem hlt).symm.trans hworst)
    -- the same entry is taken out of the array and off the end of the list
    have hheap :=
      List.getElem_cons_eraseIdx_perm (l := q.heap.toList) (n := findMaxIndex q.heap) hlt
    have hlist : s.items.Perm (s.items.getLast hne :: s.items.dropLast) := by
      conv_lhs => rw [← List.dropLast_append_getLast hne]
      exact List.perm_append_singleton _ _
    rw [hpick] at hheap
    exact ((hheap.trans h.perm).trans hlist).cons_inv

theorem atMost_pos {n : ℕ} (hmax : finite 1 ≤ maxSize) (h : maxSize.atMost n = true) : 0 < n := by
  cases maxSize with
  | negInf => exact absurd negInf_lt_finite (not_lt.mpr hmax)
  | posInf => cases h
  | finite m =>
      have hone : 1 ≤ m := not_lt.mp fun hlt => not_lt.mpr hmax (finite_lt_finite.mpr hlt)
      have hle : m ≤ n := of_decide_eq_true h
      exact Nat.cast_pos.mp (lt_of_lt_of_le zero_lt_one (hone.trans hle))

theorem enqueue_room {value : T} {priority : ExtNumber}
    (hroom : ¬ q.maxSize.atMost q.heap.size = true) :
    q.enqueue value priority
      = some (none, { q with seq := q.seq + 1 }.push ⟨priority, value, q.seq⟩) :=
  if_neg hroom

theorem enqueue_full {value : T} {priority : ExtNumber} {worst : Entry T}
    (hfull : q.maxSize.atMost q.heap.size = true)
    (hworst : q.heap[findMaxIndex q.heap]? = some worst) :
    q.enqueue value priority
      = if worst.key ≤ (⟨priority, value, q.seq⟩ : Entry T).key then
          some (none, { q with seq := q.seq + 1 })
        else
          some (some worst, PriorityQueue.push
            ⟨buildHeap (q.heap.eraseIdxIfInBounds (findMaxIndex q.heap)), q.maxSize, q.seq + 1⟩
            ⟨priority, value, q.seq⟩) := by
  unfold PriorityQueue.enqueue
  simp only [hfull, if_true, hworst, comparator_nonneg_iff]

theorem BoundedList.enqueue_room {value : T} {priority : ExtNumber}
    (hroom : ¬ maxSize.atMost s.items.length = true) :
    s.enqueue maxSize value priority = (none, s.insert value priority) :=
  if_neg hroom

theorem BoundedList.enqueue_full {value : T} {priority : ExtNumber}
    (hfull : maxSize.atMost s.items.length = true) (hne : s.items ≠ []) :
    s.enqueue maxSize value priority
      = if (s.items.getLast hne).key ≤ (⟨priority, value, s.seq⟩ : Entry T).key then
          (none, s.skip)
        else
          (some (s.items.getLast hne),
            (s.restrict s.items.dropLast (List.dropLast_sublist _)).insert value priority) := by
  unfold BoundedList.enqueue
  simp only [hfull, if_true, List.getLast?_eq_some_getLast hne]

theorem Refines.enqueue (h : Refines maxSize q s) (hmax : finite 1 ≤ maxSize) (value : T)
    (priority : ExtNumber) :
    ∃ q', q.enqueue value priority = some ((s.enqueue maxSize value priority).1, q')
      ∧ Refines maxSize q' (s.enqueue maxSize value priority).2 := by
  by_cases hfull : q.maxSize.atMost q.heap.size = true
  · have hfull' : ExtNumber.atMost maxSize s.items.length = true := by
      rw [← h.maxSize, ← h.size_eq]
      exact hfull
    have hne : s.items ≠ [] := by
      rw [← List.length_pos_iff]
      exact atMost_pos hmax hfull'
    rw [enqueue_full hfull (h.worst hne).2, BoundedList.enqueue_full hfull' hne, h.seq]
    split
    · exact ⟨_, rfl, h.maxSize, rfl, h.heap, h.perm⟩
    · refine ⟨_, rfl, ?_⟩
      have hpush := (h.evict hne).push value priority
      rw [h.seq] at hpush
      exact hpush
  · have hroom : ¬ ExtNumber.atMost maxSize s.items.length = true := by
      rw [← h.maxSize, ← h.size_eq]
      exact hfull
    rw [enqueue_room hfull, BoundedList.enqueue_room hroom]
    exact ⟨_, rfl, h.push value priority⟩

/-! ## dequeue and drain -/

theorem dequeue_empty (hsize : q.heap.size = 0) : q.dequeue = (none, q) := by
  unfold PriorityQueue.dequeue
  rw [Array.getElem?_eq_none (Nat.le_of_eq hsize)]

theorem dequeue_one {first : Entry T} (hroot : q.heap[0]? = some first)
    (hone : q.heap.size = 1) :
    q.dequeue = (some first.value, { q with heap := q.heap.pop }) := by
  have hback : q.heap.back? = some first := by
    rw [Array.back?_eq_getElem?, hone]
    exact hroot
  unfold PriorityQueue.dequeue
  simp only [hroot, hback, hone, if_true]

theorem dequeue_more {first last : Entry T} (hroot : q.heap[0]? = some first)
    (hback : q.heap.back? = some last) (hmore : q.heap.size ≠ 1) :
    q.dequeue = (some first.value,
      { q with heap := siftDown (q.heap.pop.setIfInBounds 0 last) 0 }) := by
  unfold PriorityQueue.dequeue
  simp only [hroot, hback, hmore, if_false]

/-- The array is its root and the others, which are the rest of the list. -/
theorem Refines.perm_tail (h : Refines maxSize q s) : q.heap.toList.tail.Perm s.items.tail := by
  have hroot := h.root
  have hperm := h.perm
  rw [← Array.getElem?_toList, ← List.head?_eq_getElem?] at hroot
  cases hheap : q.heap.toList with
  | nil =>
      rw [hheap] at hperm
      rw [List.nil_perm.mp hperm]
  | cons first others =>
      cases hitems : s.items with
      | nil =>
          rw [hitems] at hperm
          rw [List.perm_nil.mp hperm] at hheap
          cases hheap
      | cons first' rest =>
          rw [hheap, hitems] at hroot hperm
          cases hroot
          exact hperm.cons_inv

theorem Refines.dequeue (h : Refines maxSize q s) :
    q.dequeue.1 = s.dequeue.1 ∧ Refines maxSize q.dequeue.2 s.dequeue.2 := by
  have hroot := h.root
  by_cases hempty : q.heap.size = 0
  · have hitems : s.items = [] := by
      rw [← List.length_eq_zero_iff, ← h.size_eq]
      exact hempty
    rw [dequeue_empty hempty]
    refine ⟨?_, h.maxSize, h.seq, h.heap, ?_⟩
    · show none = s.items.head?.map Entry.value
      rw [hitems]
      rfl
    · show q.heap.toList.Perm s.items.tail
      have hperm := h.perm
      rw [hitems] at hperm ⊢
      exact hperm
  · obtain ⟨first, hfirst⟩ := exists_entry (Nat.pos_of_ne_zero hempty)
    have hvalue : some first.value = s.dequeue.1 := by
      show _ = s.items.head?.map Entry.value
      rw [← hroot, hfirst]
      rfl
    by_cases hone : q.heap.size = 1
    · rw [dequeue_one hfirst hone]
      refine ⟨hvalue, h.maxSize, h.seq, ?_, ?_⟩
      · intro c _ _
        rw [keyAt_of_le (i := c) (by rw [Array.size_pop]; omega)]
        exact le_top
      · refine List.Perm.trans ?_ h.perm_tail
        have hnil : q.heap.pop.toList = [] := by
          rw [← List.length_eq_zero_iff, Array.length_toList, Array.size_pop]
          omega
        have hnil' : q.heap.toList.tail = [] := by
          rw [← List.length_eq_zero_iff, List.length_tail, Array.length_toList]
          omega
        rw [hnil, hnil']
    · have hback : q.heap.back? = some (q.heap.back (Nat.pos_of_ne_zero hempty)) := by
        rw [Array.back?_eq_getElem?]
        exact Array.getElem?_eq_getElem _
      rw [dequeue_more hfirst hback hone]
      refine ⟨hvalue, h.maxSize, h.seq, ?_, ?_⟩
      · refine siftDown_heap 0 ?_ (downAt_dequeue h.heap _)
        rw [Array.size_setIfInBounds, Array.size_pop]
        omega
      · exact ((perm_siftDown _ _).trans (perm_dequeue hback hone)).trans h.perm_tail

theorem Refines.items_nil (h : Refines maxSize q s) (hempty : q.heap.size = 0) :
    s.items = [] := by
  rw [← List.length_eq_zero_iff, ← h.size_eq]
  exact hempty

theorem Refines.drain (h : Refines maxSize q s) :
    q.drain.1 = s.drain.1 ∧ Refines maxSize q.drain.2 s.drain.2 := by
  fun_induction PriorityQueue.drain q generalizing s with
  | case1 q hempty =>
      have hperm := h.perm
      rw [h.items_nil hempty] at hperm
      refine ⟨?_, h.maxSize, h.seq, h.heap, hperm⟩
      show [] = s.items.map Entry.value
      rw [h.items_nil hempty]
      rfl
  | case2 q hmore ih =>
      obtain ⟨hvalue, hrest⟩ := h.dequeue
      obtain ⟨hvalues, hdrained⟩ := ih hrest
      refine ⟨?_, hdrained⟩
      rw [hvalue, hvalues]
      show (s.items.head?.map Entry.value).toList ++ s.items.tail.map Entry.value
        = s.items.map Entry.value
      cases s.items <;> rfl

/-! ## removeWhere -/

theorem Refines.removeWhere (h : Refines maxSize q s) (predicate : T → Bool) :
    (q.removeWhere predicate).1 = (s.removeWhere predicate).1
    ∧ Refines maxSize (q.removeWhere predicate).2 (s.removeWhere predicate).2 := by
  have hperm : (buildHeap (q.heap.filter fun e => !predicate e.value)).toList.Perm
      (s.items.filter fun e => !predicate e.value) := by
    refine (perm_buildHeap _).trans ?_
    rw [Array.toList_filter]
    exact h.perm.filter _
  refine ⟨?_, h.maxSize, h.seq, buildHeap_heap _, hperm⟩
  have hlength := hperm.length_eq
  rw [Array.length_toList] at hlength
  show q.heap.size - (buildHeap (q.heap.filter fun e => !predicate e.value)).size
    = s.items.countP fun e => predicate e.value
  have hcount := List.length_eq_countP_add_countP (fun e => predicate e.value) (l := s.items)
  rw [hlength, h.size_eq, ← List.countP_eq_length_filter, hcount]
  simp

/-! ## The result -/

/-- **One operation**: heap and list answer alike and stay related. -/
theorem Refines.exec (hmax : finite 1 ≤ maxSize) (op : QueueOp T) (h : Refines maxSize q s) :
    ∃ r q' s', PriorityQueue.exec op q = some (r, q')
      ∧ BoundedList.exec maxSize op s = some (r, s') ∧ Refines maxSize q' s' := by
  cases op with
  | enqueue value priority =>
      obtain ⟨q', henqueue, hrefines⟩ := h.enqueue hmax value priority
      refine ⟨_, q', _, ?_, rfl, hrefines⟩
      rw [PriorityQueue.exec, henqueue]
      rfl
  | dequeue =>
      obtain ⟨hvalue, hrefines⟩ := h.dequeue
      refine ⟨_, _, _, rfl, ?_, hrefines⟩
      rw [BoundedList.exec, hvalue]
  | peek =>
      refine ⟨_, _, _, rfl, ?_, h⟩
      rw [BoundedList.exec, PriorityQueue.peek, h.root]
  | peekPriority =>
      refine ⟨_, _, _, rfl, ?_, h⟩
      rw [BoundedList.exec, PriorityQueue.peekPriority, h.root]
  | drain =>
      obtain ⟨hvalues, hrefines⟩ := h.drain
      refine ⟨_, _, _, rfl, ?_, hrefines⟩
      rw [BoundedList.exec, hvalues]
  | size =>
      refine ⟨_, _, _, rfl, ?_, h⟩
      rw [BoundedList.exec, PriorityQueue.size, h.size_eq]
  | removeWhere predicate =>
      obtain ⟨hcount, hrefines⟩ := h.removeWhere predicate
      refine ⟨_, _, _, rfl, ?_, hrefines⟩
      rw [BoundedList.exec, hcount]

/-- **The priority queue is a bounded sorted list**: every sequence of operations
runs without failing and gets from the heap the answers that the list gives. -/
theorem queue_refines_list (maxSize : ExtNumber) (hmax : finite 1 ≤ maxSize)
    (ops : List (QueueOp T)) :
    ∃ rs, answers PriorityQueue.exec ops (PriorityQueue.new maxSize) = some rs
      ∧ answers (BoundedList.exec maxSize) ops BoundedList.empty = some rs :=
  answers_of_simulation (fun op _ _ h => h.exec hmax op) (refines_new maxSize)

/-- At capacity two an entry is evicted, one is dropped, and equal priorities come out
in the order they went in. -/
theorem queue_refines_list_two :
    ∃ rs, answers PriorityQueue.exec
        [.enqueue "low" (.finite 100), .enqueue "high" (.finite 1), .enqueue "medium" (.finite 50),
          .enqueue "late" (.finite 50), .removeWhere (· = "high"), .enqueue "next" .negInf, .drain]
        (PriorityQueue.new (.finite 2)) = some rs
      ∧ answers (BoundedList.exec (.finite 2))
        [.enqueue "low" (.finite 100), .enqueue "high" (.finite 1), .enqueue "medium" (.finite 50),
          .enqueue "late" (.finite 50), .removeWhere (· = "high"), .enqueue "next" .negInf, .drain]
        BoundedList.empty = some rs :=
  queue_refines_list (.finite 2) (not_lt.mp fun h => absurd (finite_lt_finite.mp h) (by norm_num)) _

end LeaveLedger
