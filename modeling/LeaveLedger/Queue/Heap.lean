import LeaveLedger.Queue.RankedHeap

/-!
# Queue — The array is a heap

The heap of the queue as it is used: its comparator goes by priority and
insertion number, so what holds for a rank holds for `keyAt`, the key at
each position with `⊤` behind the end.
-/

namespace LeaveLedger

open Lib.BinaryHeap ExtNumber

variable {T : Type} {heap : Array (Entry T)} {i j : ℕ}

/-- The key at position `i`, above all keys where there is no entry. -/
def keyAt (heap : Array (Entry T)) (i : ℕ) : WithTop (ExtNumber ×ₗ ℕ) :=
  match heap[i]? with
  | some e => (e.key : WithTop (ExtNumber ×ₗ ℕ))
  | none => ⊤

theorem keyAt_of_some {e : Entry T} (h : heap[i]? = some e) : keyAt heap i = e.key :=
  rankAt_of_some h

theorem keyAt_of_le (h : heap.size ≤ i) : keyAt heap i = ⊤ := rankAt_of_le h

theorem perm_siftUp (heap : Array (Entry T)) (idx : ℕ) :
    (siftUp heap idx).toList.Perm heap.toList := by
  rw [siftUp_eq]
  exact perm_siftUpBy comparator heap idx

/-- `_siftUp` restores the order where only the entry it starts from may be less
than its parent. -/
theorem siftUp_heap (idx : ℕ) (hidx : idx < heap.size) (h : UpTo (keyAt heap) idx) :
    HeapFrom (keyAt (siftUp heap idx)) 0 := by
  rw [siftUp_eq]
  exact comparator_ranksBy.siftUp_heap idx hidx h

theorem perm_siftDown (heap : Array (Entry T)) (idx : ℕ) :
    (siftDown heap idx).toList.Perm heap.toList := by
  rw [siftDown_eq]
  exact perm_siftDownBy comparator heap idx

/-- `_siftDown` restores the order where only the entry it starts from may be
greater than its children. -/
theorem siftDown_heap {lo : ℕ} (idx : ℕ) (hidx : idx < heap.size)
    (h : DownAt (keyAt heap) lo idx) : HeapFrom (keyAt (siftDown heap idx)) lo := by
  rw [siftDown_eq]
  exact comparator_ranksBy.siftDown_heap idx hidx h

theorem perm_buildHeap (heap : Array (Entry T)) : (buildHeap heap).toList.Perm heap.toList := by
  rw [buildHeap_eq]
  exact perm_buildHeapBy comparator heap

/-- `_buildHeap` makes a heap of any array. -/
theorem buildHeap_heap (heap : Array (Entry T)) : HeapFrom (keyAt (buildHeap heap)) 0 := by
  rw [buildHeap_eq]
  exact comparator_ranksBy.buildHeap_heap heap

/-- **The worst entry is a leaf**: the search through the leaves finds the greatest
key of the whole heap. -/
theorem findMaxIndex_greatest (hne : 0 < heap.size) (h : HeapFrom (keyAt heap) 0) :
    findMaxIndex heap < heap.size
    ∧ ∀ i, i < heap.size → keyAt heap i ≤ keyAt heap (findMaxIndex heap) := by
  rw [findMaxIndex_eq]
  exact comparator_ranksBy.findMaxIndex_greatest hne h

end LeaveLedger
