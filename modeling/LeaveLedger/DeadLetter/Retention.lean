import LeaveLedger.DeadLetter.Redrive
import LeaveLedger.Lib.Accounts

/-!
# DeadLetter — What is kept, and for how long

The queue keeps a message until as many newer ones have come as it has room
for, whatever else is enqueued again, deleted or redriven. A run is a list of
what happens to the queue, from any number of callers and of redrives under
way: a redrive hands out a record, and what becomes of the queue at its end
is an operation like the others.
-/

namespace LeaveLedger

open Lib

namespace DeadLetterQueue

variable {π : Type}

/-! ## Runs -/

/-- What happens to a queue. The processor of a message may succeed at any time after the
message was handed out; when it fails, the message is enqueued. -/
inductive Happening (π : Type)
  | op (op : Op π)
  | redriven (id : String)

def Queue.happen (q : Queue π) : Happening π → Queue π
  | .op op => q.apply op
  | .redriven id => { q.delete id with totalRedriven := q.totalRedriven + 1 }

theorem Queue.foldl_op (q : Queue π) (ops : List (Op π)) :
    (ops.map Happening.op).foldl happen q = ops.foldl apply q := by
  induction ops generalizing q with
  | nil => rfl
  | cons op ops ih => exact ih _

/-- A redrive is a list of happenings. -/
theorem Queue.redrive_happens {q : Queue π} {id : String} {processor : Record π → Await π}
    {out : Redriven π} (h : q.redrive id processor = .ok out) :
    ∃ hs : List (Happening π), out.queue = hs.foldl happen q := by
  unfold redrive at h
  cases hget : q.messages.get id with
  | none =>
      rw [hget] at h
      cases h
      exact ⟨[], rfl⟩
  | some record =>
      rw [hget] at h
      simp only at h
      cases hsettled : (processor record).settled with
      | fulfilled =>
          rw [hsettled] at h
          cases h
          refine ⟨(processor record).meanwhile.map Happening.op ++ [.redriven id], ?_⟩
          rw [List.foldl_append, foldl_op]
          rfl
      | rejected error =>
          rw [hsettled] at h
          let item : Item π := ⟨record.id, record.channel, record.payload, error⟩
          refine ⟨(processor record).meanwhile.map Happening.op
            ++ [.op (.enqueue item (processor record).reading)], ?_⟩
          rw [List.foldl_append, foldl_op]
          cases henqueue : ((processor record).meanwhile.foldl apply q).enqueue item
              (processor record).reading with
          | error e => simp [item, henqueue, bind, Except.bind] at h
          | ok stored =>
              simp only [item, bind, Except.bind, pure, Except.pure] at h henqueue
              rw [henqueue] at h
              cases h
              simp [happen, apply, item, henqueue]

/-- And so is a pass over the queue. -/
theorem Pass.loop_happens {now : ℚ} {around : Around π} {fuel : ℕ} {p r : Pass π}
    (h : Pass.loop now around fuel p = some (.ok r)) :
    ∃ hs : List (Happening π), r.queue = hs.foldl Queue.happen p.queue := by
  induction fuel generalizing p with
  | zero => cases h
  | succ fuel ih =>
      unfold loop at h
      cases hafter : p.queue.messages.after p.cursor with
      | none =>
          rw [hafter] at h
          cases h
          exact ⟨[], rfl⟩
      | some e =>
          rw [hafter] at h
          simp only at h
          split at h
          · cases hredrive : p.queue.redrive e.key (around.processor p) with
            | error err => simp [hredrive] at h
            | ok out =>
                rw [hredrive] at h
                obtain ⟨first, hfirst⟩ := Queue.redrive_happens hredrive
                obtain ⟨rest, hrest⟩ := ih h
                refine ⟨first ++ (around.between (p.count e.stamp out)).map Happening.op ++ rest,
                  ?_⟩
                rw [List.foldl_append, List.foldl_append, Queue.foldl_op, ← hfirst]
                exact hrest
          · have hrest := ih h
            exact hrest

/-! ## One happening -/

/-- The happening takes the message out of the queue by its id. -/
def Happening.Removes (id : String) : Happening π → Prop
  | .op (.enqueue _ _) => False
  | .op (.delete id') => id' = id
  | .op .clear => True
  | .redriven id' => id' = id

def Happening.Enqueues : Happening π → Prop
  | .op (.enqueue _ _) => True
  | _ => False

/-- One for an `enqueue` that is accepted. -/
def Queue.takes (q : Queue π) : Happening π → ℕ
  | .op (.enqueue item reading) => if (q.enqueue item reading).isOk then 1 else 0
  | _ => 0

/-- One for a message that was not there. -/
def Queue.arrives (q : Queue π) : Happening π → ℕ
  | .op (.enqueue item reading) =>
      if (q.messages.get item.id).isNone then q.takes (.op (.enqueue item reading)) else 0
  | _ => 0

/-- One for a further attempt of the message. -/
def Queue.repeats (id : String) (q : Queue π) : Happening π → ℕ
  | .op op => if q.stores id op then 1 else 0
  | .redriven _ => 0

/-- What a happening does to the messages and to the counts of them. -/
inductive Queue.Changes (q : Queue π) : Happening π → Queue π → Prop
  | refused {item : Item π} {reading : Reading} (herr : (q.enqueue item reading).isOk = false) :
      Queue.Changes q (.op (.enqueue item reading)) q
  | again {item : Item π} {reading : Reading} {record : Record π} {q' : Queue π}
      (hok : (q.enqueue item reading).isOk = true)
      (hget : q.messages.get item.id = some record)
      (hm : q'.messages = q.messages.set item.id (q.again record item reading))
      (hs : q'.toSettings = q.toSettings) (hcount : q'.totalEnqueued = q.totalEnqueued + 1)
      (htaxonomy : ∃ category, q'.errorTaxonomy
        = q.errorTaxonomy.set category ((q.errorTaxonomy.get category).getD 0 + 1)) :
      Queue.Changes q (.op (.enqueue item reading)) q'
  | arrived {item : Item π} {reading : Reading} {q' : Queue π}
      (hok : (q.enqueue item reading).isOk = true)
      (hget : q.messages.get item.id = none)
      (hm : q'.messages = q.evict.messages.set item.id (q.fresh item reading))
      (hs : q'.toSettings = q.toSettings) (hcount : q'.totalEnqueued = q.totalEnqueued + 1)
      (htaxonomy : ∃ category, q'.errorTaxonomy
        = q.errorTaxonomy.set category ((q.errorTaxonomy.get category).getD 0 + 1)) :
      Queue.Changes q (.op (.enqueue item reading)) q'
  | deleted (id : String) : Queue.Changes q (.op (.delete id)) (q.delete id)
  | cleared : Queue.Changes q (.op .clear) q.clear
  | redriven (id : String) :
      Queue.Changes q (.redriven id) { q.delete id with totalRedriven := q.totalRedriven + 1 }

section happenings
variable {q q' : Queue π} {x : Happening π}

@[simp] theorem Queue.evict_rest (q : Queue π) : q.evict.totalEnqueued = q.totalEnqueued
    ∧ q.evict.errorTaxonomy = q.errorTaxonomy ∧ q.evict.messages.next = q.messages.next := by
  unfold evict
  split
  · split <;> exact ⟨rfl, rfl, rfl⟩
  · exact ⟨rfl, rfl, rfl⟩

theorem Queue.enqueue_counts {item : Item π} {reading : Reading} {stored : Record π}
    (h : q.enqueue item reading = .ok (stored, q')) :
    q'.totalEnqueued = q.totalEnqueued + 1 ∧ q'.errorTaxonomy = q.errorTaxonomy.set
      (errorCategory item.error) ((q.errorTaxonomy.get (errorCategory item.error)).getD 0 + 1) := by
  obtain ⟨hcount, htaxonomy, -⟩ := q.evict_rest
  unfold enqueue at h
  split at h
  · cases h
  split at h
  · cases h
  split at h
  case h_1 record hget =>
    obtain ⟨-, rfl⟩ := Prod.mk.inj (Except.ok.inj h)
    exact ⟨rfl, rfl⟩
  case h_2 hget =>
    obtain ⟨-, rfl⟩ := Prod.mk.inj (Except.ok.inj h)
    simp [count, put]

theorem Queue.happen_changes (q : Queue π) (x : Happening π) : q.Changes x (q.happen x) := by
  cases x with
  | redriven id => exact .redriven id
  | op op =>
      cases op with
      | delete id => exact .deleted id
      | clear => exact .cleared
      | enqueue item reading =>
          cases h : q.enqueue item reading with
          | error err =>
              have hsame : q.happen (.op (.enqueue item reading)) = q := by
                simp [happen, apply, h]
              rw [hsame]
              exact .refused (by simp [h, Except.isOk, Except.toBool])
          | ok out =>
              obtain ⟨stored, q'⟩ := out
              have hgoes : q.happen (.op (.enqueue item reading)) = q' := by
                simp [happen, apply, h]
              have hok : (q.enqueue item reading).isOk = true := by
                simp [h, Except.isOk, Except.toBool]
              obtain ⟨hcount, htaxonomy⟩ := enqueue_counts h
              rw [hgoes]
              rcases enqueue_cases h with ⟨record, hget, rfl, hm, hs⟩ | ⟨hget, rfl, hm, hs⟩
              · exact .again hok hget hm hs hcount ⟨_, htaxonomy⟩
              · exact .arrived hok hget hm hs hcount ⟨_, htaxonomy⟩

theorem Queue.Changes.settings (h : q.Changes x q') : q'.toSettings = q.toSettings := by
  cases h with
  | refused herr => rfl
  | again hok hget hm hs hcount htaxonomy => exact hs
  | arrived hok hget hm hs hcount htaxonomy => exact hs
  | deleted id => rfl
  | cleared => rfl
  | redriven id => rfl

theorem Queue.Changes.next_le (h : q.Changes x q') : q.messages.next ≤ q'.messages.next := by
  cases h with
  | refused herr => exact Nat.le_refl _
  | again hok hget hm hs hcount htaxonomy => exact hm ▸ LiveMap.next_set
  | arrived hok hget hm hs hcount htaxonomy =>
      obtain ⟨-, -, hnext⟩ := q.evict_rest
      exact hm ▸ hnext ▸ LiveMap.next_set
  | deleted id => exact Nat.le_refl _
  | cleared => exact Nat.le_refl _
  | redriven id => exact Nat.le_refl _

theorem settings_run (q : Queue π) (xs : List (Happening π)) :
    (xs.foldl Queue.happen q).toSettings = q.toSettings := by
  induction xs generalizing q with
  | nil => rfl
  | cons x xs ih => exact (ih (q.happen x)).trans (q.happen_changes x).settings

/-- What an eviction does. -/
theorem Queue.evict_cases (q : Queue π) :
    q.evict.messages = q.messages ∧ (q.maxCapacity ≤ q.messages.size → q.messages.slots = [])
    ∨ q.maxCapacity ≤ q.messages.size ∧ ∃ e rest, q.messages.slots = e :: rest
      ∧ q.evict.messages = q.messages.delete e.key := by
  unfold evict
  by_cases hfull : q.maxCapacity ≤ q.messages.size
  · rw [if_pos hfull]
    cases hslots : q.messages.slots with
    | nil => exact .inl ⟨by simp [LiveMap.oldest, hslots], fun _ => rfl⟩
    | cons e rest => exact .inr ⟨hfull, e, rest, rfl, by simp [LiveMap.oldest, hslots, delete]⟩
  · rw [if_neg hfull]
    exact .inl ⟨rfl, fun h => absurd h hfull⟩

theorem Queue.get_evict_none {id : String} (h : q.messages.get id = none) :
    q.evict.messages.get id = none := by
  rcases q.get_evict id with hnone | hsame
  · exact hnone
  · rw [hsame, h]

/-! ## Room -/

/-- The number of messages the queue has room for. The newest is kept in any case. -/
def Settings.room (s : Settings) : ℚ := max s.maxCapacity 1

/-- The queue has no more messages than it has room for. -/
def Queue.Bounded (q : Queue π) : Prop := (q.messages.size : ℚ) < q.room + 1

theorem Queue.Changes.bounded (h : q.Changes x q') (hq : q.Bounded) : q'.Bounded := by
  have hroom : q'.room = q.room := congrArg Settings.room h.settings
  have hcapacity : q.maxCapacity ≤ q.room := le_max_left _ _
  have hone : 1 ≤ q.room := le_max_right _ _
  unfold Bounded at hq ⊢
  rw [hroom]
  have hle : q'.messages.size ≤ q.messages.size → (q'.messages.size : ℚ) < q.room + 1 := by
    intro hle
    have hcast : (q'.messages.size : ℚ) ≤ q.messages.size := Nat.cast_le.mpr hle
    linarith
  cases h with
  | refused herr => exact hq
  | again hok hget hm hs hcount htaxonomy =>
      exact hle (by rw [hm, LiveMap.size_set_of_some hget])
  | @arrived item reading _ hok hget hm hs hcount htaxonomy =>
      rw [hm, LiveMap.size_set_of_none (q.get_evict_none hget)]
      rcases q.evict_cases with ⟨hsame, hempty⟩ | ⟨hfull, e, rest, hslots, hdelete⟩
      · rw [hsame]
        by_cases hfull : q.maxCapacity ≤ q.messages.size
        · have hzero : q.messages.size = 0 := by simp [LiveMap.size, hempty hfull]
          rw [hzero]
          push_cast
          linarith
        · push_cast
          linarith
      · rw [hdelete, LiveMap.size_delete_first hslots]
        have hlength : q.messages.size = rest.length + 1 := by simp [LiveMap.size, hslots]
        rw [hlength] at hq
        exact hq
  | deleted id => exact hle LiveMap.size_delete_le
  | cleared => exact hle (Nat.zero_le _)
  | redriven id => exact hle LiveMap.size_delete_le

/-! ## A message that stays -/

/-- The entry is one of before, `k` attempts later. -/
structure Continues (k : ℕ) (e e' : Slot String (Record π)) : Prop where
  stamp : e'.stamp = e.stamp
  key : e'.key = e.key
  attempts : e'.value.attempts = e.value.attempts + k
  channel : e'.value.channel = e.value.channel
  payload : e'.value.payload = e.value.payload
  initialError : e'.value.initialError = e.value.initialError
  createdAt : e'.value.createdAt = e.value.createdAt

theorem Continues.refl (e : Slot String (Record π)) : Continues 0 e e :=
  ⟨rfl, rfl, rfl, rfl, rfl, rfl, rfl⟩

theorem Continues.trans {j k : ℕ} {e e' e'' : Slot String (Record π)} (h : Continues j e e')
    (h' : Continues k e' e'') : Continues (j + k) e e'' where
  stamp := h'.stamp.trans h.stamp
  key := h'.key.trans h.key
  attempts := by rw [h'.attempts, h.attempts, Nat.add_assoc]
  channel := h'.channel.trans h.channel
  payload := h'.payload.trans h.payload
  initialError := h'.initialError.trans h.initialError
  createdAt := h'.createdAt.trans h.createdAt

variable {e : Slot String (Record π)}

/-- A message with room for one more newer one is not the one that is evicted. -/
theorem Queue.mem_evict (he : e ∈ q.messages.slots)
    (hroom : ((q.messages.ahead (e.stamp + 1) + 1 : ℕ) : ℚ) < q.room) :
    e ∈ q.evict.messages.slots := by
  rcases q.evict_cases with ⟨hsame, -⟩ | ⟨hfull, first, rest, hslots, hdelete⟩
  · rw [hsame]
    exact he
  · rw [hdelete]
    refine LiveMap.mem_delete.mpr ⟨he, fun hkey => ?_⟩
    have hfirst : first ∈ q.messages.slots := hslots ▸ List.mem_cons_self
    rw [LiveMap.slot_eq_of_key he hfirst hkey, LiveMap.ahead_first hslots] at hroom
    have hlength : q.messages.size = rest.length + 1 := by simp [LiveMap.size, hslots]
    rw [← hlength] at hroom
    -- the oldest of a full queue has no such room
    rcases lt_max_iff.mp hroom with hlt | hlt
    · exact absurd hfull (not_le.mpr hlt)
    · have hpos : (1 : ℚ) ≤ q.messages.size := by
        rw [hlength]
        push_cast
        linarith [Nat.cast_nonneg (α := ℚ) rest.length]
      linarith

/-- **One happening** that does not remove a message leaves it where there is room. -/
theorem Queue.Changes.stays (h : q.Changes x q') (he : e ∈ q.messages.slots)
    (hnot : ¬ x.Removes e.key)
    (hroom : ((q.messages.ahead (e.stamp + 1) + q.arrives x : ℕ) : ℚ) < q.room) :
    (∃ e' ∈ q'.messages.slots, Continues (q.repeats e.key x) e e')
      ∧ q'.messages.ahead (e.stamp + 1) ≤ q.messages.ahead (e.stamp + 1) + q.arrives x := by
  have hstays : ∀ {k}, k = 0 → e ∈ q'.messages.slots →
      ∃ e' ∈ q'.messages.slots, Continues k e e' := by
    rintro k rfl hmem
    exact ⟨e, hmem, .refl e⟩
  cases h with
  | refused herr => exact ⟨hstays (by simp [repeats, stores, herr]) he, Nat.le_add_right _ _⟩
  | @again item reading record _ hok hget hm hs hcount htaxonomy =>
      constructor
      · rw [hm]
        by_cases hkey : e.key = item.id
        · have hrecord : record = e.value := by
            rw [LiveMap.get_eq_some_iff.mpr ⟨e, he, hkey, rfl⟩] at hget
            exact (Option.some.inj hget).symm
          refine ⟨{ e with value := q.again record item reading },
            LiveMap.mem_set.mpr (.inr ⟨hkey, rfl, .inl ⟨e, he, hkey, rfl⟩⟩), ?_⟩
          have hone : q.repeats e.key (.op (.enqueue item reading)) = 1 := by
            simp [repeats, stores, hok, hkey]
          rw [hone, hrecord]
          exact ⟨rfl, rfl, rfl, rfl, rfl, rfl, rfl⟩
        · have hzero : q.repeats e.key (.op (.enqueue item reading)) = 0 := by
            simp [repeats, stores, Ne.symm hkey]
          rw [hzero]
          exact ⟨e, LiveMap.mem_set.mpr (.inl ⟨he, hkey⟩), .refl e⟩
      · rw [hm, LiveMap.ahead_set_of_some hget]
        exact Nat.le_add_right _ _
  | @arrived item reading _ hok hget hm hs hcount htaxonomy =>
      have harrives : q.arrives (.op (.enqueue item reading)) = 1 := by
        simp [arrives, takes, hget, hok]
      have hkey : e.key ≠ item.id := LiveMap.mem_slots_of_get_none hget e he
      rw [harrives] at hroom ⊢
      have hold := q.mem_evict he hroom
      obtain ⟨-, -, hnext⟩ := q.evict_rest
      have hbefore : e.stamp + 1 ≤ q.evict.messages.next := hnext ▸ q.messages.older e he
      have hahead : q.evict.messages.ahead (e.stamp + 1) ≤ q.messages.ahead (e.stamp + 1) := by
        rcases q.evict_cases with ⟨hsame, -⟩ | ⟨-, first, rest, -, hdelete⟩
        · rw [hsame]
        · rw [hdelete]
          exact LiveMap.ahead_delete_le _
      constructor
      · refine hstays (by simp [repeats, stores, Ne.symm hkey]) ?_
        rw [hm]
        exact LiveMap.mem_set.mpr (.inl ⟨hold, hkey⟩)
      · rw [hm, LiveMap.ahead_set_of_none (q.get_evict_none hget) hbefore]
        omega
  | deleted id =>
      exact ⟨hstays rfl (LiveMap.mem_delete.mpr ⟨he, fun hkey => hnot hkey.symm⟩),
        LiveMap.ahead_delete_le _⟩
  | cleared => exact absurd trivial hnot
  | redriven id =>
      exact ⟨hstays rfl (LiveMap.mem_delete.mpr ⟨he, fun hkey => hnot hkey.symm⟩),
        LiveMap.ahead_delete_le _⟩

/-- An entry that an `enqueue` leaves was there, and each new message is newer. -/
theorem Queue.Changes.stayed (h : q.Changes x q') (henqueues : x.Enqueues)
    {stamp : ℕ} (hstamp : stamp < q.messages.next) (he : e ∈ q'.messages.slots)
    (heq : e.stamp = stamp) :
    (∃ e₀ ∈ q.messages.slots, e₀.stamp = stamp)
      ∧ q'.messages.ahead (stamp + 1) = q.messages.ahead (stamp + 1) + q.arrives x := by
  cases h with
  | @refused item reading herr =>
      refine ⟨⟨e, he, heq⟩, ?_⟩
      simp [arrives, takes, herr]
  | @again item reading record _ hok hget hm hs hcount htaxonomy =>
      rw [hm] at he ⊢
      constructor
      · rcases LiveMap.mem_set.mp he with ⟨hold, -⟩ | ⟨-, -, ⟨e₀, he₀, -, hsame⟩ | ⟨hnone, -⟩⟩
        · exact ⟨e, hold, heq⟩
        · exact ⟨e₀, he₀, hsame.trans heq⟩
        · rw [hget] at hnone
          cases hnone
      · rw [LiveMap.ahead_set_of_some hget]
        simp [arrives, hget]
  | @arrived item reading _ hok hget hm hs hcount htaxonomy =>
      have harrives : q.arrives (.op (.enqueue item reading)) = 1 := by
        simp [arrives, takes, hget, hok]
      have hnone := q.get_evict_none hget
      obtain ⟨-, -, hnext⟩ := q.evict_rest
      rw [hm] at he ⊢
      have hold : e ∈ q.evict.messages.slots := by
        rcases LiveMap.mem_set.mp he with ⟨hold, -⟩ | ⟨-, -, ⟨e₀, he₀, hkey, -⟩ | ⟨-, hnew⟩⟩
        · exact hold
        · exact absurd hkey (LiveMap.mem_slots_of_get_none hnone e₀ he₀)
        · rw [hnext] at hnew
          omega
      rw [harrives, LiveMap.ahead_set_of_none hnone (by rw [hnext]; exact hstamp)]
      rcases q.evict_cases with ⟨hsame, -⟩ | ⟨-, first, rest, hslots, hdelete⟩
      · rw [hsame] at hold ⊢
        exact ⟨⟨e, hold, heq⟩, rfl⟩
      · rw [hdelete] at hold ⊢
        obtain ⟨hmem, hne⟩ := LiveMap.mem_delete.mp hold
        have hfirst : first.stamp < stamp := by
          rw [hslots] at hmem
          rcases List.mem_cons.mp hmem with rfl | hrest
          · exact absurd rfl hne
          · have hsorted := q.messages.sorted
            rw [hslots] at hsorted
            exact heq ▸ (List.pairwise_cons.mp hsorted).1 e hrest
        rw [LiveMap.ahead_delete_first hslots (by omega)]
        exact ⟨⟨e, hmem, heq⟩, rfl⟩
  | deleted id => exact False.elim henqueues
  | cleared => exact False.elim henqueues
  | redriven id => exact False.elim henqueues

end happenings

/-! ## Retention -/

theorem bounded_run {q : Queue π} (h : q.Bounded) (xs : List (Happening π)) :
    (xs.foldl Queue.happen q).Bounded := by
  induction xs generalizing q with
  | nil => exact h
  | cons x xs ih => exact ih ((q.happen_changes x).bounded h)

theorem bounded_create (options : Options) : (create options : Queue π).Bounded := by
  have hone : (1 : ℚ) ≤ (create options : Queue π).room := le_max_right _ _
  have hzero : (create options : Queue π).messages.size = 0 := rfl
  unfold Queue.Bounded
  rw [hzero]
  push_cast
  linarith

/-- A message stays while there is room for the newer ones. -/
theorem stays_run (xs : List (Happening π)) {q : Queue π} {e : Slot String (Record π)}
    (he : e ∈ q.messages.slots) (hnot : ∀ x ∈ xs, ¬ x.Removes e.key)
    (hroom : ((q.messages.ahead (e.stamp + 1) + along Queue.happen Queue.arrives q xs : ℕ) : ℚ)
      < q.room) :
    ∃ e' ∈ (xs.foldl Queue.happen q).messages.slots,
      Continues (along Queue.happen (Queue.repeats e.key) q xs) e e' := by
  induction xs generalizing q e with
  | nil => exact ⟨e, he, .refl e⟩
  | cons x xs ih =>
      have hchange := q.happen_changes x
      rw [along] at hroom
      have hfirst : ((q.messages.ahead (e.stamp + 1) + q.arrives x : ℕ) : ℚ) < q.room := by
        push_cast at hroom ⊢
        have hrest := Nat.cast_nonneg (α := ℚ) (along Queue.happen Queue.arrives (q.happen x) xs)
        linarith
      obtain ⟨⟨e₁, he₁, hcontinues⟩, hahead⟩ :=
        hchange.stays he (hnot x List.mem_cons_self) hfirst
      have hnot₁ : ∀ y ∈ xs, ¬ y.Removes e₁.key := fun y hy =>
        hcontinues.key ▸ hnot y (List.mem_cons_of_mem x hy)
      have hroom₁ : (((q.happen x).messages.ahead (e₁.stamp + 1)
          + along Queue.happen Queue.arrives (q.happen x) xs : ℕ) : ℚ) < (q.happen x).room := by
        rw [hcontinues.stamp, Settings.room, hchange.settings]
        refine lt_of_le_of_lt ?_ hroom
        rw [← Nat.add_assoc]
        exact Nat.cast_le.mpr (Nat.add_le_add_right hahead _)
      obtain ⟨e₂, he₂, hrest⟩ := ih he₁ hnot₁ hroom₁
      rw [hcontinues.key] at hrest
      exact ⟨e₂, he₂, hcontinues.trans hrest⟩

/-- A message that is still there after nothing but enqueues has the new ones ahead of it. -/
theorem stayed_run (xs : List (Happening π)) (henqueues : ∀ x ∈ xs, x.Enqueues) {q : Queue π}
    {stamp : ℕ} (hstamp : stamp < q.messages.next) {e : Slot String (Record π)}
    (he : e ∈ (xs.foldl Queue.happen q).messages.slots) (heq : e.stamp = stamp) :
    (∃ e₀ ∈ q.messages.slots, e₀.stamp = stamp)
      ∧ (xs.foldl Queue.happen q).messages.ahead (stamp + 1)
        = q.messages.ahead (stamp + 1) + along Queue.happen Queue.arrives q xs := by
  induction xs generalizing q with
  | nil => exact ⟨⟨e, he, heq⟩, rfl⟩
  | cons x xs ih =>
      have hchange := q.happen_changes x
      have hnext := hchange.next_le
      obtain ⟨⟨e₁, he₁, hsame⟩, hrest⟩ :=
        ih (fun y hy => henqueues y (List.mem_cons_of_mem x hy)) (lt_of_lt_of_le hstamp hnext) he
      obtain ⟨hold, hfirst⟩ :=
        hchange.stayed (henqueues x List.mem_cons_self) hstamp he₁ hsame
      refine ⟨hold, ?_⟩
      rw [along, ← Nat.add_assoc, ← hfirst]
      exact hrest

/-- **How long a message is kept.** In every run, a message that is not deleted or redriven
is kept, with its attempts counted on, while there is room for all the messages that are
newer; when messages are only enqueued, it is evicted as soon as there is not. -/
theorem messages_retained (options : Options) (before xs : List (Happening π)) :
    let q := before.foldl Queue.happen (create options)
    ∀ e ∈ q.messages.slots,
      let newer := q.messages.ahead (e.stamp + 1) + along Queue.happen Queue.arrives q xs
      ((∀ x ∈ xs, ¬ x.Removes e.key) → (newer : ℚ) < q.room →
        ∃ e' ∈ (xs.foldl Queue.happen q).messages.slots,
          Continues (along Queue.happen (Queue.repeats e.key) q xs) e e')
      ∧ ((∀ x ∈ xs, x.Enqueues) → q.room ≤ newer →
        ∀ e' ∈ (xs.foldl Queue.happen q).messages.slots, e'.stamp ≠ e.stamp) := by
  intro q e he newer
  constructor
  · intro hnot hroom
    exact stays_run xs he hnot hroom
  · intro henqueues hfull e' he' hstamp
    obtain ⟨-, hahead⟩ := stayed_run xs henqueues (q.messages.older e he) he' hstamp
    have hbounded := bounded_run (bounded_run (bounded_create options) before) xs
    have hlt := LiveMap.ahead_lt_size he'
    rw [hstamp, hahead] at hlt
    have hroom : (xs.foldl Queue.happen q).room = q.room := by
      rw [Settings.room, Settings.room, settings_run]
    have hcast : ((newer + 1 : ℕ) : ℚ) ≤ (xs.foldl Queue.happen q).messages.size :=
      Nat.cast_le.mpr hlt
    have hbound : ((xs.foldl Queue.happen q).messages.size : ℚ) < q.room + 1 := hroom ▸ hbounded
    push_cast at hcast
    linarith

end DeadLetterQueue

end LeaveLedger
