import LeaveLedger.DeadLetter.Retention

/-!
# DeadLetter — The statistics add up

`getStats` reports counters that no operation compares with the messages.
In every run they still account for them: each accepted `enqueue` is one
attempt of a message that is held or has left, one message that came or came
again, and one error of its category since the last `clear`.
-/

namespace LeaveLedger

open Lib

namespace DeadLetterQueue

variable {π : Type}

/-! ## getStats -/

structure Stats where
  size : ℕ
  poisonCount : ℕ
  totalEnqueued : ℕ
  totalRedriven : ℕ
  totalEvicted : ℕ
  oldestMessageAgeMs : ℚ
  errorTaxonomy : LiveMap String ℕ

/-- The least `createdAt` of the messages. -/
def oldestTimestamp : List (Record π) → Option ℚ
  | [] => none
  | record :: records =>
      match oldestTimestamp records with
      | none => some record.createdAt
      | some t => some (min record.createdAt t)

/-- `getStats`. -/
def Queue.getStats (q : Queue π) (now : ℚ) : Stats where
  size := q.messages.size
  poisonCount := q.messages.slots.countP fun e => e.value.isPoison
  totalEnqueued := q.totalEnqueued
  totalRedriven := q.totalRedriven
  totalEvicted := q.totalEvicted
  oldestMessageAgeMs :=
    match oldestTimestamp (q.messages.slots.map Slot.value) with
    | none => 0
    | some t => now - t
  errorTaxonomy := q.errorTaxonomy

/-! ## What leaves -/

/-- The record an arriving message evicts. -/
def Queue.evicted (q : Queue π) : Option (Record π) :=
  if q.maxCapacity ≤ q.messages.size then q.messages.slots.head?.map Slot.value else none

/-- The sum of `f` over the records that leave with a happening. -/
def Queue.leaves (f : Record π → ℕ) (q : Queue π) : Happening π → ℕ
  | .op (.enqueue item reading) =>
      if q.arrives (.op (.enqueue item reading)) = 1 then (q.evicted.map f).getD 0 else 0
  | .op (.delete id) => ((q.messages.get id).map f).getD 0
  | .op .clear => q.messages.total f
  | .redriven id => ((q.messages.get id).map f).getD 0

/-- The counted errors that a `clear` forgets. -/
def Queue.forgets (q : Queue π) : Happening π → ℕ
  | .op .clear => q.errorTaxonomy.total id
  | _ => 0

section happenings
variable {q q' : Queue π} {x : Happening π}

theorem Queue.total_evict (f : Record π → ℕ) (q : Queue π) :
    q.evict.messages.total f + (q.evicted.map f).getD 0 = q.messages.total f := by
  unfold evicted
  rcases q.evict_cases with ⟨hsame, hempty⟩ | ⟨hfull, e, rest, hslots, hdelete⟩
  · rw [hsame]
    split
    · rename_i hfull
      simp [hempty hfull]
    · simp
  · have hget : q.messages.get e.key = some e.value :=
      LiveMap.get_eq_some_iff.mpr ⟨e, hslots ▸ List.mem_cons_self, rfl, rfl⟩
    have htotal : (q.messages.delete e.key).total f + ((q.messages.get e.key).map f).getD 0
        = q.messages.total f := LiveMap.total_delete f
    rw [hget] at htotal
    simpa [hdelete, hfull, hslots] using htotal

/-- What an `enqueue` adds to a sum over the records: `a` for one that comes again, `b` for
one that is new. -/
theorem records_settle {f : Record π → ℕ} {a b : ℕ}
    (hagain : ∀ (q : Queue π) record item reading,
      f (q.again record item reading) = f record + a)
    (hfresh : ∀ (q : Queue π) item reading, f (q.fresh item reading) = b) :
    Settles Queue.happen (fun q : Queue π => q.messages.total f)
      (fun q x => if q.arrives x = 1 then b else a * q.takes x) (Queue.leaves f) := by
  intro q x
  have hchange := q.happen_changes x
  generalize q.happen x = q' at hchange
  cases hchange with
  | refused herr => simp [Queue.takes, Queue.leaves, Queue.arrives, herr]
  | @again item reading record _ hok hget hm hs hcount htaxonomy =>
      have htotal : (q.messages.set item.id (q.again record item reading)).total f + f record
          = q.messages.total f + f (q.again record item reading) :=
        LiveMap.total_set_of_some f hget
      rw [hagain] at htotal
      simp [Queue.takes, Queue.leaves, Queue.arrives, hok, hget, hm]
      omega
  | @arrived item reading _ hok hget hm hs hcount htaxonomy =>
      have htotal : (q.evict.messages.set item.id (q.fresh item reading)).total f
          = q.evict.messages.total f + f (q.fresh item reading) :=
        LiveMap.total_set_of_none f (q.get_evict_none hget)
      have hevict := q.total_evict f
      rw [hfresh] at htotal
      simp [Queue.takes, Queue.leaves, Queue.arrives, hok, hget, hm]
      omega
  | deleted id =>
      have htotal : (q.messages.delete id).total f + ((q.messages.get id).map f).getD 0
          = q.messages.total f := LiveMap.total_delete f
      show (q.messages.delete id).total f + ((q.messages.get id).map f).getD 0
        = q.messages.total f + if (0 : ℕ) = 1 then b else a * 0
      simpa using htotal
  | cleared =>
      simp [Queue.takes, Queue.arrives, Queue.leaves, Queue.clear, LiveMap.total, LiveMap.clear]
  | redriven id =>
      have htotal : (q.messages.delete id).total f + ((q.messages.get id).map f).getD 0
          = q.messages.total f := LiveMap.total_delete f
      show (q.messages.delete id).total f + ((q.messages.get id).map f).getD 0
        = q.messages.total f + if (0 : ℕ) = 1 then b else a * 0
      simpa using htotal

theorem arrives_le_takes (q : Queue π) (x : Happening π) : q.arrives x ≤ q.takes x := by
  cases x with
  | redriven id => exact Nat.le_refl 0
  | op op =>
      cases op with
      | delete id => exact Nat.le_refl 0
      | clear => exact Nat.le_refl 0
      | enqueue item reading =>
          simp only [Queue.arrives]
          split
          · exact Nat.le_refl _
          · exact Nat.zero_le _

theorem takes_le_one (q : Queue π) (x : Happening π) : q.takes x ≤ 1 := by
  cases x with
  | redriven id => exact Nat.zero_le 1
  | op op =>
      cases op with
      | delete id => exact Nat.zero_le 1
      | clear => exact Nat.zero_le 1
      | enqueue item reading =>
          simp only [Queue.takes]
          split <;> simp

/-- Each accepted `enqueue` is an attempt of a message held or of one that has left. -/
theorem attempts_settle : Settles Queue.happen
    (fun q : Queue π => q.messages.total Record.attempts) Queue.takes
    (Queue.leaves Record.attempts) := by
  intro q x
  have hsettle := records_settle (f := Record.attempts) (a := 1) (b := 1)
    (fun q record item reading => rfl) (fun q item reading => rfl) q x
  have hle := arrives_le_takes q x
  have hone := takes_le_one q x
  dsimp only at hsettle ⊢
  split at hsettle <;> omega

/-- Each new message is held or has left. -/
theorem messages_settle : Settles Queue.happen
    (fun q : Queue π => q.messages.total fun _ => 1) Queue.arrives (Queue.leaves fun _ => 1) := by
  intro q x
  have hsettle := records_settle (f := fun _ => 1) (a := 0) (b := 1)
    (fun q record item reading => rfl) (fun q item reading => rfl) q x
  have hle := arrives_le_takes q x
  have hone := takes_le_one q x
  dsimp only at hsettle ⊢
  split at hsettle <;> omega

/-- Each accepted `enqueue` is an error that is counted or forgotten. -/
theorem errors_settle : Settles Queue.happen
    (fun q : Queue π => q.errorTaxonomy.total id) Queue.takes Queue.forgets := by
  intro q x
  have hchange := q.happen_changes x
  generalize q.happen x = q' at hchange
  have hcounted : ∀ {category : String}, q'.errorTaxonomy
      = q.errorTaxonomy.set category ((q.errorTaxonomy.get category).getD 0 + 1) →
      q'.errorTaxonomy.total id = q.errorTaxonomy.total id + 1 := by
    intro category hset
    rw [hset]
    cases hget : q.errorTaxonomy.get category with
    | none => exact LiveMap.total_set_of_none id hget
    | some n =>
        have htotal : (q.errorTaxonomy.set category (n + 1)).total id + n
            = q.errorTaxonomy.total id + (n + 1) := LiveMap.total_set_of_some id hget
        simp only [Option.getD_some]
        omega
  cases hchange with
  | refused herr => simp [Queue.takes, Queue.forgets, herr]
  | again hok hget hm hs hcount htaxonomy =>
      obtain ⟨category, hset⟩ := htaxonomy
      simp [Queue.takes, Queue.forgets, hok, hcounted hset]
  | arrived hok hget hm hs hcount htaxonomy =>
      obtain ⟨category, hset⟩ := htaxonomy
      simp [Queue.takes, Queue.forgets, hok, hcounted hset]
  | deleted id => rfl
  | cleared => simp [Queue.takes, Queue.forgets, Queue.clear, LiveMap.total, LiveMap.clear]
  | redriven id => rfl

theorem enqueued_settle : Settles Queue.happen (fun q : Queue π => q.totalEnqueued) Queue.takes
    fun _ _ => 0 := by
  intro q x
  have hchange := q.happen_changes x
  generalize q.happen x = q' at hchange
  cases hchange with
  | refused herr => simp [Queue.takes, herr]
  | again hok hget hm hs hcount htaxonomy => simp [Queue.takes, hok, hcount]
  | arrived hok hget hm hs hcount htaxonomy => simp [Queue.takes, hok, hcount]
  | deleted id => rfl
  | cleared => rfl
  | redriven id => rfl

end happenings

theorem total_one {κ ν : Type} [DecidableEq κ] (m : LiveMap κ ν) :
    (m.total fun _ => 1) = m.size := by
  simp [LiveMap.total, LiveMap.size]

/-- The poison messages are those with all their attempts. -/
theorem Queue.poisonCount_eq (q : Queue π) :
    (q.messages.slots.countP fun e => e.value.isPoison)
      = q.messages.slots.countP fun e => q.maxRetries ≤ e.value.attempts := by
  refine List.countP_congr fun e he => ?_
  rw [(q.kept e he).poison]

/-- **The statistics add up**, in every run. The attempts of the messages held and of those
that have left are the enqueues counted; so are the errors of the taxonomy and those that a
`clear` forgot. Every message that came is held or has left. The poison messages are the ones
with all their attempts. -/
theorem statistics_add_up (options : Options) (xs : List (Happening π)) (now : ℚ) :
    let q := xs.foldl Queue.happen (create options)
    let stats := q.getStats now
    q.messages.total Record.attempts
        + along Queue.happen (Queue.leaves Record.attempts) (create options) xs
      = stats.totalEnqueued
    ∧ stats.errorTaxonomy.total id + along Queue.happen Queue.forgets (create options) xs
      = stats.totalEnqueued
    ∧ stats.size + along Queue.happen (Queue.leaves fun _ => 1) (create options) xs
      = along Queue.happen Queue.arrives (create options) xs
    ∧ stats.poisonCount
      = q.messages.slots.countP fun e => q.maxRetries ≤ e.value.attempts := by
  intro q stats
  let start : Queue π := create options
  have hattempts : q.messages.total Record.attempts
      + along Queue.happen (Queue.leaves Record.attempts) start xs
        = along Queue.happen Queue.takes start xs :=
    (attempts_settle.run start xs).trans (Nat.zero_add _)
  have herrors : q.errorTaxonomy.total id + along Queue.happen Queue.forgets start xs
      = along Queue.happen Queue.takes start xs :=
    (errors_settle.run start xs).trans (Nat.zero_add _)
  have hmessages : (q.messages.total fun _ => 1)
      + along Queue.happen (Queue.leaves fun _ => 1) start xs
        = along Queue.happen Queue.arrives start xs :=
    (messages_settle.run start xs).trans (Nat.zero_add _)
  have henqueued : q.totalEnqueued = along Queue.happen Queue.takes start xs := by
    have hrun : q.totalEnqueued + along Queue.happen (fun _ _ => 0) start xs
        = along Queue.happen Queue.takes start xs :=
      (enqueued_settle.run start xs).trans (Nat.zero_add _)
    rw [along_of_step fun _ => 0] at hrun
    simpa using hrun
  rw [total_one] at hmessages
  exact ⟨hattempts.trans henqueued.symm, herrors.trans henqueued.symm, hmessages,
    q.poisonCount_eq⟩

end DeadLetterQueue

end LeaveLedger
