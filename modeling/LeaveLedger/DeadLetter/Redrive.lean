import LeaveLedger.Common.DeadLetterQueue
import Mathlib

/-!
# DeadLetter — One redrive among other calls

The record that `redrive` writes back was read before the processor was
awaited. A failure counts on from whatever is under its id by then, so what
it leaves depends on how often callers have enqueued the message since it was
last removed (`sinceRemoval`).
-/

namespace LeaveLedger

open Lib

namespace DeadLetterQueue

variable {π : Type}

/-! ## Attempts -/

section attempts
variable {q q' : Queue π} {id : String} {item : Item π} {reading : Reading} {record : Record π}

/-- The attempts of a message: none when it is not there. -/
def Queue.attemptsOf (q : Queue π) (id : String) : ℕ :=
  ((q.messages.get id).map Record.attempts).getD 0

theorem Queue.attemptsOf_of_get (h : q.messages.get id = some record) :
    q.attemptsOf id = record.attempts := by
  simp [attemptsOf, h]

theorem Queue.attemptsOf_eq_zero_iff : q.attemptsOf id = 0 ↔ q.messages.get id = none := by
  cases hget : q.messages.get id with
  | none => simp [attemptsOf, hget]
  | some record =>
      have := (q.kept_of_get hget).tried
      rw [attemptsOf_of_get hget]
      simp only [reduceCtorEq, iff_false]
      omega

/-- An accepted `enqueue` is one more attempt, also of a message that is not there. -/
theorem Queue.attemptsOf_enqueue {stored : Record π}
    (h : q.enqueue item reading = .ok (stored, q')) :
    q'.messages.get item.id = some stored ∧ stored.attempts = q.attemptsOf item.id + 1 := by
  rcases enqueue_cases h with ⟨record, hget, rfl, hm, -⟩ | ⟨hget, rfl, hm, -⟩
  · rw [hm, LiveMap.get_set_self, attemptsOf_of_get hget]
    exact ⟨rfl, rfl⟩
  · rw [hm, LiveMap.get_set_self, attemptsOf_eq_zero_iff.mpr hget]
    exact ⟨rfl, rfl⟩

theorem Queue.get_evict (q : Queue π) (id : String) :
    q.evict.messages.get id = none ∨ q.evict.messages.get id = q.messages.get id := by
  unfold evict
  split
  · split
    case h_1 oldestKey _ =>
      by_cases hid : id = oldestKey
      · exact .inl (hid ▸ LiveMap.get_delete_self)
      · exact .inr (LiveMap.get_delete_of_ne hid)
    case h_2 => exact .inr rfl
  · exact .inr rfl

/-- The operation is an accepted `enqueue` of `id`. -/
def Queue.stores (q : Queue π) (id : String) : Op π → Bool
  | .enqueue item reading => item.id = id && (q.enqueue item reading).isOk
  | .delete _ => false
  | .clear => false

/-- Every other operation removes the message or leaves it alone. -/
theorem Queue.get_apply {op : Op π} (h : q.stores id op = false) :
    (q.apply op).messages.get id = none ∨ (q.apply op).messages.get id = q.messages.get id := by
  cases op with
  | delete other =>
      by_cases hid : id = other
      · exact .inl (hid ▸ LiveMap.get_delete_self)
      · exact .inr (LiveMap.get_delete_of_ne hid)
  | clear => exact .inl LiveMap.get_clear
  | enqueue item reading =>
      cases henqueue : q.enqueue item reading with
      | error _ => simp [apply, henqueue]
      | ok out =>
          have hid : id ≠ item.id := by
            rintro rfl
            simp [stores, henqueue, Except.isOk, Except.toBool] at h
          simp only [apply, henqueue]
          rcases enqueue_cases henqueue with ⟨-, -, -, hm, -⟩ | ⟨-, -, hm, -⟩
          · rw [hm, LiveMap.get_set_of_ne hid]
            exact .inr rfl
          · rw [hm, LiveMap.get_set_of_ne hid]
            exact q.get_evict id

theorem Queue.attemptsOf_apply_of_stores {op : Op π} (h : q.stores id op = true) :
    (q.apply op).attemptsOf id = q.attemptsOf id + 1 := by
  cases op with
  | delete other => cases h
  | clear => cases h
  | enqueue item reading =>
      cases henqueue : q.enqueue item reading with
      | error _ => simp [stores, henqueue, Except.isOk, Except.toBool] at h
      | ok out =>
          obtain ⟨rfl, -⟩ : item.id = id ∧ _ := by
            simpa [stores] using h
          obtain ⟨hget, hattempts⟩ := attemptsOf_enqueue henqueue
          simp only [apply, henqueue]
          rw [attemptsOf_of_get hget, hattempts]

end attempts

/-! ## Since the last removal -/

/-- One operation, and how often callers have enqueued `id` since it was last removed. -/
def Queue.tally (id : String) (s : Queue π × Option ℕ) (op : Op π) : Queue π × Option ℕ :=
  let q := s.1.apply op
  (q, if (q.messages.get id).isNone then some 0
    else if s.1.stores id op then s.2.map (· + 1) else s.2)

/-- How often callers enqueue `id` after it was last deleted or evicted, and `none` when it never
was. -/
def Queue.sinceRemoval (q : Queue π) (id : String) (ops : List (Op π)) : Option ℕ :=
  (ops.foldl (tally id) (q, none)).2

/-- What the count says about the attempts. -/
structure Tallied (id : String) (began : ℕ) (s : Queue π × Option ℕ) : Prop where
  never : s.2 = none → began ≤ s.1.attemptsOf id
  since : ∀ k, s.2 = some k → s.1.attemptsOf id = k

theorem Tallied.tally {id : String} {began : ℕ} {s : Queue π × Option ℕ} (h : Tallied id began s)
    (op : Op π) : Tallied id began (Queue.tally id s op) := by
  obtain ⟨q, count⟩ := s
  unfold Queue.tally
  -- a removal begins the count anew, and an absent message has no attempts
  by_cases hnone : (q.apply op).messages.get id = none
  · have hzero := Queue.attemptsOf_eq_zero_iff.mpr hnone
    simp only [hnone, Option.isNone_none, if_true]
    exact ⟨fun hc => absurd hc (by simp), fun k hk => hzero.trans (Option.some.inj hk)⟩
  have hsome : ((q.apply op).messages.get id).isNone = false := by
    simpa [Option.isNone_eq_false_iff, Option.isSome_iff_ne_none] using hnone
  simp only [hsome, Bool.false_eq_true, if_false]
  by_cases hstores : q.stores id op = true
  · have hone := Queue.attemptsOf_apply_of_stores hstores
    rw [if_pos hstores]
    constructor
    · intro hc
      have := h.never (Option.map_eq_none_iff.mp hc)
      simp only at this ⊢
      omega
    · intro k hk
      obtain ⟨k₀, hk₀, rfl⟩ := Option.map_eq_some_iff.mp hk
      exact hone.trans (congrArg (· + 1) (h.since k₀ hk₀))
  · have hsame : (q.apply op).attemptsOf id = q.attemptsOf id := by
      rcases Queue.get_apply (Bool.eq_false_iff.mpr hstores) with hgone | hsame
      · exact absurd hgone hnone
      · unfold Queue.attemptsOf
        rw [hsame]
    rw [if_neg hstores]
    exact ⟨fun hc => hsame ▸ h.never hc, fun k hk => hsame.trans (h.since k hk)⟩

theorem Tallied.foldl {id : String} {began : ℕ} {s : Queue π × Option ℕ} (h : Tallied id began s)
    (ops : List (Op π)) : Tallied id began (ops.foldl (Queue.tally id) s) := by
  induction ops generalizing s with
  | nil => exact h
  | cons op ops ih => exact ih (h.tally op)

theorem Queue.tally_fst (id : String) (ops : List (Op π)) (s : Queue π × Option ℕ) :
    (ops.foldl (tally id) s).1 = ops.foldl apply s.1 := by
  induction ops generalizing s with
  | nil => rfl
  | cons op ops ih => exact ih _

/-! ## A redrive that fails -/

/-- After a failed redrive the message is absent, because it was removed and no caller has enqueued
it since, or it has one more attempt than at the beginning, and is poison as soon as it has the
attempts for it. -/
def Queue.NeverReset (q : Queue π) (id : String) (began : Record π) (meanwhile : List (Op π))
    (after : Queue π) : Prop :=
  match after.messages.get id with
  | none => q.sinceRemoval id meanwhile = some 0
  | some record => began.attempts + 1 ≤ record.attempts
      ∧ (after.maxRetries ≤ record.attempts → record.isPoison = true)

/-- A redrive fails when its processor does; it then counts on from what the others have left. -/
theorem Queue.redrive_rejected {q : Queue π} {id : String} {record : Record π}
    {processor : Record π → Await π} {error : Option Failure}
    (hget : q.messages.get id = some record)
    (hsettled : (processor record).settled = .rejected error) :
    ∃ out stored, q.redrive id processor = .ok out ∧ out.answer = false
      ∧ out.queue.messages.get id = some stored
      ∧ stored.attempts = ((processor record).meanwhile.foldl apply q).attemptsOf id + 1 := by
  have hkept := q.kept_of_get hget
  obtain ⟨stored, q', henqueue⟩ := enqueue_of_named ((processor record).meanwhile.foldl apply q)
    ⟨record.id, record.channel, record.payload, error⟩ (processor record).reading
    (hkept.keyed ▸ hkept.named) hkept.addressed
  obtain ⟨hstored, hattempts⟩ := attemptsOf_enqueue henqueue
  simp only [hkept.keyed] at hstored hattempts
  refine ⟨⟨false, some record, q'⟩, stored, ?_, rfl, hstored, hattempts⟩
  unfold redrive
  simp [hget, hsettled, henqueue, bind, Except.bind, pure, Except.pure]

/-- A failed redrive keeps the attempts of its message, if and only if the message was not removed
while the processor was awaited, or callers have since enqueued it as often as it had been tried. -/
theorem Queue.failed_redrive_iff (q : Queue π) (id : String) (record : Record π)
    (processor : Record π → Await π) (error : Option Failure)
    (hget : q.messages.get id = some record)
    (hsettled : (processor record).settled = .rejected error) :
    ∃ out, q.redrive id processor = .ok out ∧ out.answer = false
      ∧ (q.NeverReset id record (processor record).meanwhile out.queue
        ↔ ∀ k, q.sinceRemoval id (processor record).meanwhile = some k → record.attempts ≤ k) := by
  obtain ⟨out, stored, hout, hanswer, hstored, hattempts⟩ := redrive_rejected hget hsettled
  refine ⟨out, hout, hanswer, ?_⟩
  have htallied : Tallied id record.attempts
      ((processor record).meanwhile.foldl (tally id) (q, none)) :=
    Tallied.foldl ⟨fun _ => (attemptsOf_of_get hget).ge, fun _ hk => absurd hk (by simp)⟩ _
  rw [← tally_fst id (processor record).meanwhile (q, none)] at hattempts
  have hpoison : out.queue.maxRetries ≤ stored.attempts → stored.isPoison = true := fun hle => by
    rw [(out.queue.kept_of_get hstored).poison]
    exact decide_eq_true hle
  unfold NeverReset sinceRemoval
  simp only [hstored]
  constructor
  · rintro ⟨hle, -⟩ k hk
    rw [hattempts, htallied.since k hk] at hle
    exact Nat.le_of_succ_le_succ hle
  · intro hk
    refine ⟨?_, hpoison⟩
    rw [hattempts]
    -- never removed, the message has at least the attempts it had
    cases hcount : ((processor record).meanwhile.foldl (tally id) (q, none)).2 with
    | none => exact Nat.succ_le_succ (htallied.never hcount)
    | some k =>
        rw [htallied.since k hcount]
        exact Nat.succ_le_succ (hk k hcount)

section deleted

/-- The clock at 0 and the smallest random number. -/
def atZero : Reading := ⟨0, 0, 0, le_refl _, le_refl _, by norm_num⟩

/-- A message that has been tried twice, of the three times after which it is poison. -/
def triedTwice : Queue ℕ :=
  [Op.enqueue ⟨"m1", "c1", 7, none⟩ atZero, .enqueue ⟨"m1", "c1", 7, none⟩ atZero].foldl
    Queue.apply (create ⟨none, none, none, none⟩)

/-- A processor that fails after somebody has deleted its message. -/
def failsDeleted (_ : Record ℕ) : Await ℕ := ⟨[.delete "m1"], .rejected none, atZero⟩

/-- Nobody enqueues the deleted message again; the failure brings it back with one attempt. -/
theorem failed_redrive_resurrects :
    ∃ record out, triedTwice.messages.get "m1" = some record ∧ record.attempts = 2
      ∧ triedTwice.redrive "m1" failsDeleted = .ok out ∧ out.answer = false
      ∧ ((out.queue.messages.get "m1").map Record.attempts) = some 1
      ∧ ¬ triedTwice.NeverReset "m1" record (failsDeleted record).meanwhile out.queue := by
  have hattempts : (triedTwice.messages.get "m1").map Record.attempts = some 2 := by
    decide +kernel
  obtain ⟨record, hget, htwo⟩ := Option.map_eq_some_iff.mp hattempts
  have hout : (triedTwice.redrive "m1" failsDeleted).toOption.map
      (fun out => (out.answer, (out.queue.messages.get "m1").map Record.attempts))
        = some (false, some 1) := by
    decide +kernel
  obtain ⟨out, hsome, hpair⟩ := Option.map_eq_some_iff.mp hout
  have hone : (out.queue.messages.get "m1").map Record.attempts = some 1 := congrArg Prod.snd hpair
  obtain ⟨stored, hstored, hstoredOne⟩ := Option.map_eq_some_iff.mp hone
  refine ⟨record, out, hget, htwo, ?_, congrArg Prod.fst hpair, hone, fun hkept => ?_⟩
  · cases hredrive : triedTwice.redrive "m1" failsDeleted with
    | error err => simp [hredrive, Except.toOption] at hsome
    | ok out' => simpa [hredrive, Except.toOption] using hsome
  · unfold Queue.NeverReset at hkept
    simp only [hstored, hstoredOne, htwo] at hkept
    omega

/-- The message is deleted and enqueued twice again. -/
def replacement : List (Op ℕ) :=
  [.delete "m1", .enqueue ⟨"m1", "c1", 7, none⟩ atZero, .enqueue ⟨"m1", "c1", 7, none⟩ atZero]

/-- A processor that fails after its message was replaced. -/
def failsReplaced (_ : Record ℕ) : Await ℕ := ⟨replacement, .rejected none, atZero⟩

theorem failed_redrive_iff_replaced :
    ∃ record, triedTwice.messages.get "m1" = some record ∧ record.attempts = 2
      ∧ triedTwice.sinceRemoval "m1" replacement = some 2
      ∧ ∃ out, triedTwice.redrive "m1" failsReplaced = .ok out ∧ out.answer = false
        ∧ triedTwice.NeverReset "m1" record replacement out.queue := by
  have hattempts : (triedTwice.messages.get "m1").map Record.attempts = some 2 := by
    decide +kernel
  obtain ⟨record, hget, htwo⟩ := Option.map_eq_some_iff.mp hattempts
  have hsince : triedTwice.sinceRemoval "m1" replacement = some 2 := by decide +kernel
  obtain ⟨out, hredrive, hanswer, hiff⟩ :=
    Queue.failed_redrive_iff triedTwice "m1" record failsReplaced none hget rfl
  refine ⟨record, hget, htwo, hsince, out, hredrive, hanswer, hiff.mpr fun k hk => ?_⟩
  cases hsince.symm.trans hk
  exact htwo.le

end deleted

end DeadLetterQueue

end LeaveLedger
