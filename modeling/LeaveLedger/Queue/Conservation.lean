import LeaveLedger.Lib.Accounts
import LeaveLedger.Queue.Ties
import Mathlib.Algebra.Order.Group.Multiset

/-!
# Queue — Nothing is lost

Whatever the comparator answers, an order of the entries or not, no call of
the queue makes or loses an entry. Each one that was enqueued is held, or it
has left with one call: returned, evicted, turned away by a queue that is
full of better ones, or removed. An `enqueue` answers the same of an entry
that it admits and of one that it turns away: whether the queue was full says
which it was.
-/

namespace LeaveLedger

open Lib Lib.BinaryHeap ExtNumber

variable {T : Type} (compare : Entry T → Entry T → Option ExtNumber)

/-! ## What comes and what goes -/

/-- The entries that calls enqueue, with the numbers from `n` on. -/
def enqueuedFrom : ℕ → List (QueueCall T) → List (Entry T)
  | _, [] => []
  | n, .enqueue value priority :: calls => ⟨priority, value, n⟩ :: enqueuedFrom (n + 1) calls
  | n, .dequeue :: calls => enqueuedFrom n calls
  | n, .removeWhere _ :: calls => enqueuedFrom n calls

namespace PriorityQueue

/-- The entries that leave with a call. A queue that is full of better entries turns the
new one away, and so does the call that fails. -/
def parted (q : PriorityQueue T) : QueueCall T → List (Entry T)
  | .enqueue value priority =>
      match q.enqueueBy compare value priority with
      | some (some evicted, _) => [evicted]
      | some (none, q') => if q'.size = q.size then [⟨priority, value, q.seq⟩] else []
      | none => [⟨priority, value, q.seq⟩]
  | .dequeue => q.heap[0]?.toList
  | .removeWhere predicate => q.heap.toList.filter fun e => predicate e.value

/-- What a call answers about the entries that leave with it. An `enqueue` that evicts an
entry names it and holds the new one; one that evicts none has turned the new one away
where the queue was full. -/
def Tells (q : PriorityQueue T) : QueueCall T → Prop
  | .enqueue value priority =>
      match q.enqueueBy compare value priority with
      | some (some evicted, q') =>
          q.parted compare (.enqueue value priority) = [evicted]
            ∧ evicted ∈ q.heap.toList ∧ ⟨priority, value, q.seq⟩ ∈ q'.heap.toList
      | some (none, _) =>
          q.parted compare (.enqueue value priority)
            = if q.maxSize.atMost q.size then [⟨priority, value, q.seq⟩] else []
      | none => q.size = 0 ∧ q.maxSize.atMost 0
  | .dequeue => (q.dequeueBy compare).1 = (q.parted compare .dequeue).head?.map Entry.value
  | .removeWhere predicate =>
      (q.removeWhereBy compare predicate).1
        = (q.parted compare (.removeWhere predicate)).length

/-! ## One call -/

theorem perm_pushBy (q : PriorityQueue T) (e : Entry T) :
    (q.pushBy compare e).heap.toList.Perm (e :: q.heap.toList) := by
  have hsift := perm_siftUpBy compare (q.heap.push e) q.heap.size
  rw [Array.toList_push] at hsift
  exact hsift.trans (List.perm_append_singleton e _)

/-- An entry of the array and what is left in it without that entry. -/
theorem perm_evict (heap : Array (Entry T)) {i : ℕ} {worst : Entry T}
    (h : heap[i]? = some worst) :
    (worst :: (buildHeapBy compare (heap.eraseIdxIfInBounds i)).toList).Perm heap.toList := by
  have hi : i < heap.toList.length := by simpa using lt_size_of_some h
  have hworst : heap.toList[i] = worst := by
    rw [← Array.getElem?_toList, List.getElem?_eq_getElem hi] at h
    exact Option.some.inj h
  have hbuild := perm_buildHeapBy compare (heap.eraseIdxIfInBounds i)
  rw [Array.toList_eraseIdxIfInBounds] at hbuild
  have herase := List.getElem_cons_eraseIdx_perm hi
  rw [hworst] at herase
  exact (hbuild.cons worst).trans herase

theorem findMaxFromBy_lt (heap : Array (Entry T)) {maxIdx : ℕ} (i : ℕ)
    (h : maxIdx < heap.size) : findMaxFromBy compare heap maxIdx i < heap.size := by
  fun_induction findMaxFromBy compare heap maxIdx i with
  | case1 maxIdx i hi ih =>
      apply ih
      split
      · exact hi
      · exact h
  | case2 maxIdx i hi => exact h

theorem findMaxIndexBy_lt (heap : Array (Entry T)) (h : heap.size ≠ 0) :
    findMaxIndexBy compare heap < heap.size :=
  findMaxFromBy_lt compare heap _ (by omega)

theorem size_of_perm_cons {q q' : PriorityQueue T} {e : Entry T}
    (h : q'.heap.toList.Perm (e :: q.heap.toList)) : q'.size = q.size + 1 := by
  simpa [size] using h.length_eq

/-- How an `enqueue` ends. -/
inductive Enqueued (q : PriorityQueue T) (e : Entry T) :
    Option (Option (Entry T) × PriorityQueue T) → Prop
  | fails (hfull : q.maxSize.atMost q.size) (hempty : q.size = 0) : Enqueued q e none
  | turnedAway (hfull : q.maxSize.atMost q.size) :
      Enqueued q e (some (none, { q with seq := q.seq + 1 }))
  | evicts {worst : Entry T} {rest : List (Entry T)} {q' : PriorityQueue T}
      (hmax : q'.maxSize = q.maxSize) (hseq : q'.seq = q.seq + 1)
      (hworst : (worst :: rest).Perm q.heap.toList)
      (hperm : q'.heap.toList.Perm (e :: rest)) :
      Enqueued q e (some (some worst, q'))
  | admits {q' : PriorityQueue T} (hroom : ¬ q.maxSize.atMost q.size)
      (hmax : q'.maxSize = q.maxSize) (hseq : q'.seq = q.seq + 1)
      (hperm : q'.heap.toList.Perm (e :: q.heap.toList)) :
      Enqueued q e (some (none, q'))

theorem enqueueBy_enqueued (q : PriorityQueue T) (value : T) (priority : ExtNumber) :
    Enqueued q ⟨priority, value, q.seq⟩ (q.enqueueBy compare value priority) := by
  unfold enqueueBy
  by_cases hfull : q.maxSize.atMost q.heap.size
  · simp only [hfull, if_true]
    cases hworst : q.heap[findMaxIndexBy compare q.heap]? with
    | none =>
        refine .fails hfull ?_
        by_contra hne
        obtain ⟨e, he⟩ := exists_entry (findMaxIndexBy_lt compare q.heap hne)
        simp [he] at hworst
    | some worst =>
        simp only
        split
        · exact .turnedAway hfull
        · have hpush := perm_pushBy compare
            { q with
              seq := q.seq + 1
              heap := buildHeapBy compare
                (q.heap.eraseIdxIfInBounds (findMaxIndexBy compare q.heap)) }
            ⟨priority, value, q.seq⟩
          exact .evicts rfl rfl (perm_evict compare q.heap hworst) hpush
  · simp only [hfull, Bool.false_eq_true, if_false]
    exact .admits hfull rfl rfl (perm_pushBy compare { q with seq := q.seq + 1 } _)

theorem perm_dequeueBy (q : PriorityQueue T) :
    (q.heap[0]?.toList ++ (q.dequeueBy compare).2.heap.toList).Perm q.heap.toList := by
  unfold dequeueBy
  split
  · rename_i first last hfirst hlast
    have hhead : q.heap.toList = first :: q.heap.toList.tail := by
      have hcons : q.heap.toList.head? = some first := by
        rw [List.head?_eq_getElem?, Array.getElem?_toList]
        exact hfirst
      cases hlist : q.heap.toList with
      | nil => simp [hlist] at hcons
      | cons a rest => simpa [hlist] using hcons
    rw [hfirst]
    split
    · rename_i hone
      have htail : q.heap.toList.tail = [] := by
        rw [← List.length_eq_zero_iff, List.length_tail, Array.length_toList, hone]
      have hlist : q.heap.toList = [first] := by rw [hhead, htail]
      rw [Array.toList_pop, hlist]
      exact List.Perm.refl _
    · rename_i hone
      have hsift := perm_siftDownBy compare (q.heap.pop.setIfInBounds 0 last) 0
      have hrest := hsift.trans (perm_dequeue hlast hone)
      conv_rhs => rw [hhead]
      exact hrest.cons first
  · rename_i hnone
    cases hfirst : q.heap[0]? with
    | none => simp
    | some first =>
        have hsize := lt_size_of_some hfirst
        have hend : q.heap.size - 1 < q.heap.size := by omega
        obtain ⟨last, hlast⟩ := exists_entry hend
        rw [← Array.back?_eq_getElem?] at hlast
        exact absurd hlast (hnone first last hfirst)

/-- **One call** makes or loses no entry. -/
theorem after_settles : Settles (after compare)
    (fun q => (q.heap.toList : Multiset (Entry T)))
    (fun q call => (enqueuedFrom q.seq [call] : Multiset (Entry T)))
    (fun q call => (q.parted compare call : Multiset (Entry T))) := by
  intro q call
  refine Multiset.coe_eq_coe.mpr ?_
  cases call with
  | enqueue value priority =>
      have hends := q.enqueueBy_enqueued compare value priority
      simp only [after, parted, enqueuedFrom]
      cases henqueue : q.enqueueBy compare value priority with
      | none => exact List.Perm.refl _
      | some r =>
          rw [henqueue] at hends
          cases hends with
          | turnedAway hfull => simp [size]
          | evicts hmax hseq hworst hperm =>
              have hheld := (hperm.cons _).trans ((List.Perm.swap _ _ _).trans (hworst.cons _))
              have hfirst := (List.perm_append_singleton _ _).trans hheld
              exact hfirst.trans (List.perm_append_singleton _ _).symm
          | @admits q' hroom hmax hseq hperm =>
              have hne : q'.size ≠ q.size := by
                rw [size_of_perm_cons hperm]
                exact Nat.succ_ne_self _
              simp only [hne, if_false, List.append_nil]
              exact hperm.trans (List.perm_append_singleton _ _).symm
  | dequeue =>
      have hperm := q.perm_dequeueBy compare
      rw [enqueuedFrom, enqueuedFrom, List.append_nil]
      exact List.perm_append_comm.trans hperm
  | removeWhere predicate =>
      have hbuild := perm_buildHeapBy compare (q.heap.filter fun e => !predicate e.value)
      rw [Array.toList_filter] at hbuild
      rw [enqueuedFrom, enqueuedFrom, List.append_nil]
      refine (hbuild.append_right _).trans ?_
      exact List.perm_append_comm.trans (List.filter_append_perm _ _)

theorem dequeueBy_rest (q : PriorityQueue T) :
    (q.dequeueBy compare).2.maxSize = q.maxSize ∧ (q.dequeueBy compare).2.seq = q.seq := by
  unfold dequeueBy
  split
  · split <;> exact ⟨rfl, rfl⟩
  · exact ⟨rfl, rfl⟩

/-- A call moves the number on when it enqueues. -/
theorem after_seq (q : PriorityQueue T) (call : QueueCall T) (calls : List (QueueCall T)) :
    enqueuedFrom q.seq (call :: calls)
      = enqueuedFrom q.seq [call] ++ enqueuedFrom (q.after compare call).seq calls := by
  cases call with
  | enqueue value priority =>
      have hends := q.enqueueBy_enqueued compare value priority
      simp only [after, enqueuedFrom]
      cases henqueue : q.enqueueBy compare value priority with
      | none => rfl
      | some r =>
          rw [henqueue] at hends
          cases hends with
          | turnedAway hfull => rfl
          | evicts hmax hseq hworst hperm => simp [hseq]
          | admits hroom hmax hseq hperm => simp [hseq]
  | dequeue => simp [after, enqueuedFrom, (q.dequeueBy_rest compare).2]
  | removeWhere predicate => rfl

theorem along_enqueued (q : PriorityQueue T) (calls : List (QueueCall T)) :
    along (after compare) (fun q call => (enqueuedFrom q.seq [call] : Multiset (Entry T))) q calls
      = enqueuedFrom q.seq calls := by
  induction calls generalizing q with
  | nil => rfl
  | cons call calls ih => rw [along, ih, q.after_seq compare call calls, Multiset.coe_add]

/-! ## The size -/

/-- The queue has this maximum and holds no more. -/
structure Within (maxSize : ExtNumber) (q : PriorityQueue T) : Prop where
  kept : q.maxSize = maxSize
  size_le : ∀ n, maxSize.atMost n → q.size ≤ n

theorem atMost_mono {x : ExtNumber} {m n : ℕ} (hle : m ≤ n) (h : x.atMost m) : x.atMost n := by
  cases x with
  | negInf => rfl
  | posInf => cases h
  | finite a =>
      have hcast : (m : ℚ) ≤ n := Nat.cast_le.mpr hle
      have ha : a ≤ m := of_decide_eq_true h
      exact decide_eq_true (ha.trans hcast)

theorem after_maxSize (q : PriorityQueue T) (call : QueueCall T) :
    (q.after compare call).maxSize = q.maxSize := by
  cases call with
  | enqueue value priority =>
      have hends := q.enqueueBy_enqueued compare value priority
      simp only [after]
      cases henqueue : q.enqueueBy compare value priority with
      | none => rfl
      | some r =>
          rw [henqueue] at hends
          cases hends with
          | turnedAway hfull => rfl
          | evicts hmax hseq hworst hperm => exact hmax
          | admits hroom hmax hseq hperm => exact hmax
  | dequeue => exact (q.dequeueBy_rest compare).1
  | removeWhere predicate => rfl

theorem after_size (q : PriorityQueue T) (call : QueueCall T) :
    (q.after compare call).size + (q.parted compare call).length
      = q.size + (enqueuedFrom q.seq [call]).length := by
  have hcard := congrArg Multiset.card (after_settles compare q call)
  simpa [size] using hcard

theorem Within.after {maxSize : ExtNumber} {q : PriorityQueue T} (h : Within maxSize q)
    (call : QueueCall T) : Within maxSize (q.after compare call) := by
  refine ⟨(q.after_maxSize compare call).trans h.kept, fun n hn => ?_⟩
  have hold := h.size_le n hn
  have hsize := q.after_size compare call
  cases call with
  | enqueue value priority =>
      have hends := q.enqueueBy_enqueued compare value priority
      simp only [PriorityQueue.after] at hsize ⊢
      cases henqueue : q.enqueueBy compare value priority with
      | none => exact hold
      | some r =>
          rw [henqueue] at hends
          cases hends with
          | turnedAway hfull => exact hold
          | evicts hmax hseq hworst hperm =>
              simp [parted, enqueuedFrom, henqueue] at hsize ⊢
              omega
          | admits hroom hmax hseq hperm =>
              have hlt : q.size < n := by
                by_contra hle
                rw [h.kept] at hroom
                exact hroom (atMost_mono (by omega) hn)
              have hheld := size_of_perm_cons hperm
              simp only
              omega
  | dequeue =>
      simp only [enqueuedFrom, List.length_nil] at hsize
      omega
  | removeWhere predicate =>
      simp only [enqueuedFrom, List.length_nil] at hsize
      omega

theorem Within.foldl {maxSize : ExtNumber} {q : PriorityQueue T} (h : Within maxSize q)
    (calls : List (QueueCall T)) :
    Within maxSize (calls.foldl (PriorityQueue.after compare) q) := by
  induction calls generalizing q with
  | nil => exact h
  | cons call calls ih => exact ih (h.after compare call)

/-! ## Answers -/

theorem tells (q : PriorityQueue T) (call : QueueCall T) : q.Tells compare call := by
  cases call with
  | enqueue value priority =>
      have hends := q.enqueueBy_enqueued compare value priority
      simp only [Tells, parted]
      cases henqueue : q.enqueueBy compare value priority with
      | none =>
          rw [henqueue] at hends
          obtain ⟨hfull, hempty⟩ := hends
          exact ⟨hempty, hempty ▸ hfull⟩
      | some r =>
          rw [henqueue] at hends
          cases hends with
          | turnedAway hfull => exact (if_pos rfl).trans (if_pos hfull).symm
          | evicts hmax hseq hworst hperm =>
              exact ⟨rfl, hworst.subset List.mem_cons_self,
                hperm.symm.subset List.mem_cons_self⟩
          | @admits q' hroom hmax hseq hperm =>
              have hne : q'.size ≠ q.size := by
                rw [size_of_perm_cons hperm]
                exact Nat.succ_ne_self _
              exact (if_neg hne).trans (if_neg hroom).symm
  | dequeue =>
      show (q.dequeueBy compare).1 = q.heap[0]?.toList.head?.map Entry.value
      rw [dequeueBy_fst]
      cases q.heap[0]? <;> rfl
  | removeWhere predicate =>
      have hsize := q.after_size compare (.removeWhere predicate)
      simp only [enqueuedFrom, List.length_nil] at hsize
      show q.size - (q.after compare (.removeWhere predicate)).size = _
      omega

theorem size_dequeueBy (q : PriorityQueue T) :
    (q.dequeueBy compare).2.size = q.size - 1 := by
  have hlength := (q.perm_dequeueBy compare).length_eq
  cases hfirst : q.heap[0]? with
  | none =>
      have hempty : q.heap.size = 0 := by simpa using hfirst
      simp [hfirst, size] at hlength ⊢
      omega
  | some first =>
      simp [hfirst, size] at hlength ⊢
      omega

/-- `drain`: `dequeue` until the queue is empty. -/
def drainBy (q : PriorityQueue T) : List T × PriorityQueue T :=
  if q.size = 0 then ([], q)
  else
    ((q.dequeueBy compare).1.toList ++ (drainBy (q.dequeueBy compare).2).1,
      (drainBy (q.dequeueBy compare).2).2)
termination_by q.size
decreasing_by all_goals rw [size_dequeueBy]; omega

theorem drain_eq (q : PriorityQueue T) : q.drain = q.drainBy (keptComparator none) := by
  fun_induction drain q with
  | case1 q hempty =>
      rw [drainBy]
      exact (if_pos hempty).symm
  | case2 q hne ih =>
      rw [drainBy, ih, dequeue_eq]
      exact (if_neg hne).symm

/-- What is drained are the values of what is held. -/
theorem perm_drainBy (q : PriorityQueue T) :
    (q.drainBy compare).1.Perm (q.heap.toList.map Entry.value)
      ∧ (q.drainBy compare).2.size = 0 := by
  fun_induction drainBy compare q with
  | case1 q hempty =>
      have hnil : q.heap.toList = [] := by simpa [size] using hempty
      simp [hnil, hempty]
  | case2 q hne ih =>
      have hperm := (q.perm_dequeueBy compare).map Entry.value
      rw [List.map_append] at hperm
      have hhead : (q.dequeueBy compare).1.toList = q.heap[0]?.toList.map Entry.value := by
        rw [dequeueBy_fst]
        cases q.heap[0]? <;> rfl
      rw [hhead]
      exact ⟨(ih.1.append_left _).trans hperm, ih.2⟩

end PriorityQueue

/-! ## Runs -/

theorem nodup_enqueuedFrom (n : ℕ) (calls : List (QueueCall T)) :
    ((enqueuedFrom n calls).map Entry.insertSeq).Nodup
      ∧ ∀ e ∈ enqueuedFrom n calls, n ≤ e.insertSeq := by
  induction calls generalizing n with
  | nil => simp [enqueuedFrom]
  | cons call calls ih =>
      cases call with
      | enqueue value priority =>
          obtain ⟨hnd, hle⟩ := ih (n + 1)
          constructor
          · simp only [enqueuedFrom, List.map_cons, List.nodup_cons]
            refine ⟨fun hmem => ?_, hnd⟩
            obtain ⟨e, he, hseq⟩ := List.mem_map.mp hmem
            have := hle e he
            omega
          · intro e he
            rcases List.mem_cons.mp he with rfl | he
            · exact Nat.le_refl n
            · have := hle e he
              omega
      | dequeue => exact ih n
      | removeWhere predicate => exact ih n

open PriorityQueue in
/-- **Nothing is lost and nothing is handed out twice.** After any calls on a new queue,
with any comparator, the entries held and those that have left are the entries that were
enqueued, no two of them with one number, and each call tells as much of what leaves with
it. The queue holds no more than any whole number that is at least its maximum, and
draining it returns what it holds. -/
theorem queue_conserves (maxSize : ExtNumber) (calls : List (QueueCall T)) :
    let q := calls.foldl (after compare) (new maxSize)
    (q.heap.toList : Multiset (Entry T))
        + along (after compare) (fun q call => (q.parted compare call : Multiset (Entry T)))
          (new maxSize) calls
      = enqueuedFrom 0 calls
    ∧ ((enqueuedFrom 0 calls).map Entry.insertSeq).Nodup
    ∧ (∀ call, q.Tells compare call)
    ∧ (∀ n, maxSize.atMost n → q.size ≤ n)
    ∧ (q.drainBy compare).1.Perm (q.heap.toList.map Entry.value)
    ∧ (q.drainBy compare).2.size = 0 := by
  intro q
  have hsettled := (after_settles compare).run (new maxSize) calls
  have hempty : ((new maxSize : PriorityQueue T).heap.toList : Multiset (Entry T)) = 0 := rfl
  rw [along_enqueued, hempty, zero_add] at hsettled
  have hwithin : Within maxSize (new maxSize : PriorityQueue T) := ⟨rfl, fun n _ => Nat.zero_le n⟩
  exact ⟨hsettled, (nodup_enqueuedFrom 0 calls).1, q.tells compare,
    (hwithin.foldl compare calls).size_le, q.perm_drainBy compare⟩

end LeaveLedger
