import LeaveLedger.Common.DeadLetterQueue
import Mathlib

/-!
# DeadLetter — One pass over the queue

`redriveEligible` goes over a map that it changes itself, and that its
processor changes. It ends because the time it compares with stays: whatever
is enqueued during a pass is due after the pass has begun, so messages only
stop being due (`NoneDue`), and each call of the processor takes one away.
-/

namespace LeaveLedger

open Lib

namespace DeadLetterQueue

variable {π : Type}

/-- A message that a pass begun at `now` redrives. -/
def Record.Due (now : ℚ) (record : Record π) : Prop :=
  record.isPoison = false ∧ record.nextRetryAt ≤ now

instance (now : ℚ) (record : Record π) : Decidable (record.Due now) :=
  inferInstanceAs (Decidable (_ ∧ _))

theorem Queue.canRetry_iff {q : Queue π} {id : String} {now : ℚ} :
    q.canRetry id now = true ↔ ∃ record, q.messages.get id = some record ∧ record.Due now := by
  unfold canRetry
  split
  case h_1 hget => simp [hget]
  case h_2 record hget =>
    simp only [hget, Option.some.injEq, exists_eq_left', Record.Due]
    split <;> simp_all

/-! ## What is enqueued is not due -/

section enqueued
variable {q q' q'' : Queue π} {now : ℚ}

theorem Queue.lt_calculateNextRetry (hbase : 1 ≤ q.baseBackoffMs) (hmax : 1 ≤ q.maxBackoffMs)
    (attempt : ℕ) (reading : Reading) :
    reading.retryNow < q.calculateNextRetry attempt reading := by
  unfold calculateNextRetry
  have hfactor : (1 : ℚ) ≤ 2 ^ min attempt 10 := one_le_pow₀ (by norm_num)
  have hscaled : 1 ≤ q.baseBackoffMs * 2 ^ min attempt 10 :=
    one_le_mul_of_one_le_of_one_le hbase hfactor
  have hdelay : 1 ≤ min (q.baseBackoffMs * 2 ^ min attempt 10) q.maxBackoffMs :=
    le_min hscaled hmax
  have hjitter : 0 ≤ min (q.baseBackoffMs * 2 ^ min attempt 10) q.maxBackoffMs * (1 / 5)
      * reading.random :=
    mul_nonneg (mul_nonneg (by linarith) (by norm_num)) reading.nonneg
  have hfloor : (1 : ℤ) ≤ ⌊min (q.baseBackoffMs * 2 ^ min attempt 10) q.maxBackoffMs
      + min (q.baseBackoffMs * 2 ^ min attempt 10) q.maxBackoffMs * (1 / 5) * reading.random⌋ := by
    rw [Int.le_floor]
    push_cast
    linarith
  have hcast : (1 : ℚ) ≤ (⌊min (q.baseBackoffMs * 2 ^ min attempt 10) q.maxBackoffMs
      + min (q.baseBackoffMs * 2 ^ min attempt 10) q.maxBackoffMs
        * (1 / 5) * reading.random⌋ : ℤ) := by
    exact_mod_cast hfloor
  simp only
  linarith

/-- `q'` came of `q` and has no message due that was not due there. -/
structure NoneDue (now : ℚ) (q q' : Queue π) : Prop where
  settings : q'.toSettings = q.toSettings
  slots : ∀ e ∈ q'.messages.slots, e.value.Due now → e ∈ q.messages.slots

namespace NoneDue

theorem refl (q : Queue π) : NoneDue now q q := ⟨rfl, fun _ he _ => he⟩

theorem trans (h : NoneDue now q q') (h' : NoneDue now q' q'') : NoneDue now q q'' :=
  ⟨h'.settings.trans h.settings, fun e he hdue => h.slots e (h'.slots e he hdue) hdue⟩

theorem delete (q : Queue π) (id : String) : NoneDue now q (q.delete id) :=
  ⟨rfl, fun _ he _ => (LiveMap.mem_delete.mp he).1⟩

theorem clear (q : Queue π) : NoneDue now q q.clear :=
  ⟨rfl, fun _ he _ => absurd he List.not_mem_nil⟩

theorem evict (q : Queue π) : NoneDue now q q.evict := by
  refine ⟨q.evict_settings, fun e he _ => ?_⟩
  unfold Queue.evict at he
  split at he
  · split at he
    · exact (LiveMap.mem_delete.mp he).1
    · exact he
  · exact he

/-- An accepted `enqueue` makes nothing due, and leaves its own message not due. -/
theorem enqueue {item : Item π} {reading : Reading} {stored : Record π}
    (hbase : 1 ≤ q.baseBackoffMs) (hmax : 1 ≤ q.maxBackoffMs) (hnow : now ≤ reading.retryNow)
    (h : q.enqueue item reading = .ok (stored, q')) :
    NoneDue now q q' ∧ ∀ e ∈ q'.messages.slots, e.key = item.id → ¬ e.value.Due now := by
  have hlater : ∀ attempt, now < q.calculateNextRetry attempt reading := fun attempt =>
    lt_of_le_of_lt hnow (q.lt_calculateNextRetry hbase hmax attempt reading)
  -- both a new record and one that fails again are due later than `now`
  have hstored : ¬ stored.Due now := by
    rintro ⟨-, hdue⟩
    rcases Queue.enqueue_cases h with ⟨record, -, rfl, -⟩ | ⟨-, rfl, -⟩
    · exact absurd hdue (not_le.mpr (hlater _))
    · exact absurd hdue (not_le.mpr (hlater _))
  obtain ⟨q₀, hq₀, hmessages, hsettings⟩ : ∃ q₀, NoneDue now q q₀
      ∧ q'.messages = q₀.messages.set item.id stored ∧ q'.toSettings = q.toSettings := by
    rcases Queue.enqueue_cases h with ⟨-, -, -, hm, hs⟩ | ⟨-, -, hm, hs⟩
    · exact ⟨q, refl q, hm, hs⟩
    · exact ⟨q.evict, evict q, hm, hs⟩
  constructor
  · refine ⟨hsettings, fun e he hdue => ?_⟩
    rw [hmessages] at he
    rcases LiveMap.key_or_value_of_mem_set he with ⟨he, -⟩ | ⟨-, hval⟩
    · exact hq₀.slots e he hdue
    · rw [hval] at hdue
      exact absurd hdue hstored
  · intro e he hkey
    rw [hmessages] at he
    rcases LiveMap.key_or_value_of_mem_set he with ⟨-, hne⟩ | ⟨-, hval⟩
    · exact absurd hkey hne
    · rw [hval]
      exact hstored

end NoneDue

end enqueued

/-! ## The clock during a pass -/

/-- The clock has not gone back behind `now` when the operation reads it. -/
def Op.From (now : ℚ) : Op π → Prop
  | .enqueue _ reading => now ≤ reading.now
  | .delete _ => True
  | .clear => True

structure Await.From (now : ℚ) (awaited : Await π) : Prop where
  meanwhile : ∀ op ∈ awaited.meanwhile, op.From now
  reading : now ≤ awaited.reading.now

/-- The clock is never behind `now` while a pass is under way. -/
structure Around.From (now : ℚ) (around : Around π) : Prop where
  processor : ∀ p record, (around.processor p record).From now
  between : ∀ p, ∀ op ∈ around.between p, op.From now

section pass
variable {q q' : Queue π} {now : ℚ} {around : Around π} {p : Pass π}

/-- Backoffs that last. -/
structure Settings.Lasting (s : Settings) : Prop where
  base : 1 ≤ s.baseBackoffMs
  max : 1 ≤ s.maxBackoffMs

theorem NoneDue.apply (hs : q.toSettings.Lasting) {op : Op π} (hop : op.From now) :
    NoneDue now q (q.apply op) := by
  cases op with
  | delete id => exact .delete q id
  | clear => exact .clear q
  | enqueue item reading =>
      cases h : q.enqueue item reading with
      | error _ => simpa only [Queue.apply, h] using .refl q
      | ok out =>
          simpa only [Queue.apply, h] using
            (NoneDue.enqueue hs.base hs.max (hop.trans reading.ordered) h).1

theorem NoneDue.foldl {ops : List (Op π)} (hs : q.toSettings.Lasting)
    (hops : ∀ op ∈ ops, op.From now) : NoneDue now q (ops.foldl Queue.apply q) := by
  induction ops generalizing q with
  | nil => exact .refl q
  | cons op ops ih =>
      have hone : NoneDue now q (q.apply op) := .apply hs (hops op (List.mem_cons_self ..))
      exact hone.trans (ih (hone.settings ▸ hs) fun o ho => hops o (List.mem_cons_of_mem _ ho))

/-- A redrive of a message that is there hands it to the processor, makes nothing due, and leaves
nothing due under its id. -/
theorem Queue.redrive_spec (hs : q.toSettings.Lasting) {id : String} {record : Record π}
    (hget : q.messages.get id = some record) {processor : Record π → Await π}
    (hfrom : (processor record).From now) :
    ∃ out, q.redrive id processor = .ok out ∧ out.handed = some record
      ∧ NoneDue now q out.queue
      ∧ ∀ e ∈ out.queue.messages.slots, e.key = id → ¬ e.value.Due now := by
  have hkept := q.kept_of_get hget
  have hmeanwhile : NoneDue now q ((processor record).meanwhile.foldl Queue.apply q) :=
    .foldl hs hfrom.meanwhile
  unfold redrive
  simp only [hget]
  cases hsettled : (processor record).settled with
  | fulfilled =>
      refine ⟨_, rfl, rfl, hmeanwhile.trans ⟨rfl, (NoneDue.delete _ id).slots⟩, ?_⟩
      intro e he hkey
      exact absurd hkey (LiveMap.mem_delete.mp he).2
  | rejected error =>
      obtain ⟨stored, q', henqueue⟩ := Queue.enqueue_of_named
        ((processor record).meanwhile.foldl Queue.apply q)
        ⟨record.id, record.channel, record.payload, error⟩ (processor record).reading
        (hkept.keyed ▸ hkept.named) hkept.addressed
      have hs' : ((processor record).meanwhile.foldl Queue.apply q).toSettings.Lasting :=
        hmeanwhile.settings ▸ hs
      obtain ⟨hnone, hown⟩ := NoneDue.enqueue hs'.base hs'.max
        (hfrom.reading.trans (processor record).reading.ordered) henqueue
      refine ⟨⟨false, some record, q'⟩, ?_, rfl, hmeanwhile.trans hnone, ?_⟩
      · simp [henqueue, bind, Except.bind, pure, Except.pure]
      · exact fun e he hkey => hown e he (hkey.trans hkept.keyed.symm)

/-! ## The loop -/

/-- How many messages are due. -/
def Queue.dueCount (q : Queue π) (now : ℚ) : ℕ :=
  (q.messages.slots.filter fun e => e.value.Due now).length

/-- A message that is no longer due is one less. -/
theorem NoneDue.dueCount_lt (h : NoneDue now q q') {e : Slot String (Record π)}
    (he : e ∈ q.messages.slots) (hdue : e.value.Due now)
    (hgone : ∀ e' ∈ q'.messages.slots, e'.key = e.key → ¬ e'.value.Due now) :
    q'.dueCount now < q.dueCount now := by
  have hnodup : (e :: q'.messages.slots.filter fun e' => e'.value.Due now).Nodup := by
    refine List.nodup_cons.mpr ⟨fun hmem => ?_, (List.Nodup.of_map _ q'.messages.distinct).filter _⟩
    obtain ⟨hmem, -⟩ := List.mem_filter.mp hmem
    exact hgone e hmem rfl hdue
  have hsub : (e :: q'.messages.slots.filter fun e' => e'.value.Due now)
      ⊆ q.messages.slots.filter fun e' => e'.value.Due now := by
    intro e' he'
    rcases List.mem_cons.mp he' with rfl | he'
    · exact List.mem_filter.mpr ⟨he, decide_eq_true hdue⟩
    · obtain ⟨hmem, hdue'⟩ := List.mem_filter.mp he'
      exact List.mem_filter.mpr ⟨h.slots e' hmem (of_decide_eq_true hdue'), hdue'⟩
  have hle := (List.subperm_of_subset hnodup hsub).length_le
  rw [List.length_cons] at hle
  exact hle

/-- What holds of a pass over `q` whenever its loop goes on. -/
structure Under (now : ℚ) (q : Queue π) (p : Pass π) : Prop where
  sofar : NoneDue now q p.queue
  spent : ∀ e ∈ p.queue.messages.slots, e.value.Due now → e.key ∉ p.invoked
  once : p.invoked.Nodup
  wasDue : ∀ id ∈ p.invoked, ∃ record, q.messages.get id = some record ∧ record.Due now
  counted : p.succeeded + p.failed = p.invoked.length

theorem Under.begin (q : Queue π) : Under now q ⟨q, 0, 0, 0, []⟩ where
  sofar := .refl q
  spent _ _ _ := List.not_mem_nil
  once := List.nodup_nil
  wasDue _ h := absurd h List.not_mem_nil
  counted := rfl

/-- A redrive of a due message leaves fewer that are due. -/
theorem Under.redrive (h : Under now q p) (hs : q.toSettings.Lasting) (hfrom : around.From now)
    {e : Slot String (Record π)} (he : e ∈ p.queue.messages.slots) (hdue : e.value.Due now) :
    ∃ out, p.queue.redrive e.key (around.processor p) = .ok out
      ∧ Under now q ((p.count e.stamp out).resume around)
      ∧ ((p.count e.stamp out).resume around).queue.dueCount now < p.queue.dueCount now := by
  have hget : p.queue.messages.get e.key = some e.value :=
    LiveMap.get_eq_some_iff.mpr ⟨e, he, rfl, rfl⟩
  have hkeyed : e.value.id = e.key := (p.queue.kept e he).keyed
  have hs' : p.queue.toSettings.Lasting := h.sofar.settings ▸ hs
  obtain ⟨out, hout, hhanded, hnone, hgone⟩ :=
    p.queue.redrive_spec hs' hget (hfrom.processor p e.value)
  have hlater : NoneDue now out.queue ((p.count e.stamp out).resume around).queue :=
    .foldl (hnone.settings ▸ hs') (hfrom.between _)
  -- a due entry under this key would have been one after the redrive already
  have hgone' : ∀ e' ∈ ((p.count e.stamp out).resume around).queue.messages.slots,
      e'.key = e.key → ¬ e'.value.Due now :=
    fun e' he' hkey hdue' => hgone e' (hlater.slots e' he' hdue') hkey hdue'
  have hall : NoneDue now p.queue ((p.count e.stamp out).resume around).queue := hnone.trans hlater
  have hinvoked : ((p.count e.stamp out).resume around).invoked = p.invoked ++ [e.key] := by
    simp [Pass.resume, Pass.count, hhanded, hkeyed]
  refine ⟨out, hout, ?_, hall.dueCount_lt he hdue hgone'⟩
  constructor
  · exact h.sofar.trans hall
  · intro e' he' hdue'
    rw [hinvoked, List.mem_append, List.mem_singleton]
    rintro (hmem | hkey)
    · exact h.spent e' (hall.slots e' he' hdue') hdue' hmem
    · exact hgone' e' he' hkey hdue'
  · rw [hinvoked]
    refine List.nodup_append.mpr ⟨h.once, List.nodup_singleton _, fun id hid id' hid' heq => ?_⟩
    rw [List.mem_singleton] at hid'
    exact h.spent e he hdue (hid' ▸ heq ▸ hid)
  · intro id hid
    rw [hinvoked, List.mem_append, List.mem_singleton] at hid
    rcases hid with hid | rfl
    · exact h.wasDue id hid
    · exact ⟨e.value, LiveMap.get_eq_some_iff.mpr ⟨e, h.sofar.slots e he hdue, rfl, rfl⟩, hdue⟩
  · rw [hinvoked, List.length_append, List.length_singleton, ← h.counted]
    simp only [Pass.resume, Pass.count]
    split <;> omega

theorem Pass.loop_add {fuel : ℕ} {r : Except TypeError (Pass π)}
    (h : Pass.loop now around fuel p = some r) (more : ℕ) :
    Pass.loop now around (fuel + more) p = some r := by
  induction fuel generalizing p with
  | zero => cases h
  | succ fuel ih =>
      rw [Nat.succ_add]
      unfold loop at h ⊢
      split
      case h_1 hafter =>
        simpa only [hafter] using h
      case h_2 e hafter =>
        simp only [hafter] at h
        split
        case isTrue hretry =>
          rw [if_pos hretry] at h
          split
          case h_1 hredrive => simpa only [hredrive] using h
          case h_2 out hredrive =>
            simp only [hredrive] at h
            exact ih h
        case isFalse hretry =>
          rw [if_neg hretry] at h
          exact ih h

/-- The loop ends. Each redrive leaves fewer messages due, and between two of them the iteration
comes closer to the end. -/
theorem Under.loop_ends {p : Pass π} (h : Under now q p) (hs : q.toSettings.Lasting)
    (hfrom : around.From now) :
    ∃ fuel r, Pass.loop now around fuel p = some (.ok r) ∧ Under now q r := by
  cases hafter : p.queue.messages.after p.cursor with
  | none =>
      refine ⟨1, p, ?_, h⟩
      simp only [Pass.loop, hafter]
  | some e =>
      have hmem := LiveMap.mem_of_after hafter
      -- a redrive takes off the first component of the measure, a visit the second
      by_cases hretry : p.queue.canRetry e.key now = true
      · have hdue : e.value.Due now := by
          obtain ⟨record, hget, hdue⟩ := Queue.canRetry_iff.mp hretry
          rw [LiveMap.get_eq_some_iff.mpr ⟨e, hmem, rfl, rfl⟩] at hget
          exact Option.some.inj hget ▸ hdue
        obtain ⟨out, hout, hunder, hfewer⟩ := h.redrive hs hfrom hmem hdue
        obtain ⟨fuel, r, hloop, hr⟩ := hunder.loop_ends hs hfrom
        refine ⟨fuel + 1, r, ?_, hr⟩
        simp only [Pass.loop, hafter, if_pos hretry, hout]
        exact hloop
      · have hcloser := LiveMap.ahead_lt_of_after hafter
        have hunder : Under now q { p with cursor := e.stamp + 1 } := ⟨h.1, h.2, h.3, h.4, h.5⟩
        obtain ⟨fuel, r, hloop, hr⟩ := hunder.loop_ends hs hfrom
        refine ⟨fuel + 1, r, ?_, hr⟩
        simp only [Pass.loop, hafter, if_neg hretry]
        exact hloop
termination_by (p.queue.dueCount now, p.queue.messages.ahead p.cursor)
decreasing_by
  · exact Prod.Lex.left _ _ hfewer
  · exact Prod.Lex.right _ hcloser

end pass

/-- A pass ends, calls its processor at most once for a message, and only for messages that were
there, not poison and due when it began. -/
theorem Queue.redriveEligible_once (q : Queue π) (now : ℚ) (around : Around π)
    (hbase : 1 ≤ q.baseBackoffMs) (hmax : 1 ≤ q.maxBackoffMs) (hclock : around.From now) :
    ∃ enough p, (∀ fuel, enough ≤ fuel → q.redriveEligible now around fuel = some (.ok p))
      ∧ p.invoked.Nodup
      ∧ (∀ id ∈ p.invoked, ∃ record, q.messages.get id = some record
          ∧ record.isPoison = false ∧ record.nextRetryAt ≤ now)
      ∧ p.succeeded + p.failed = p.invoked.length := by
  obtain ⟨enough, p, hloop, h⟩ := (Under.begin q).loop_ends ⟨hbase, hmax⟩ hclock
  refine ⟨enough, p, fun fuel hle => ?_, h.once, h.wasDue, h.counted⟩
  obtain ⟨more, rfl⟩ := Nat.exists_eq_add_of_le hle
  exact Pass.loop_add hloop more

section failing

/-- A reading at a time, with the middle random number. -/
def readingAt (now : ℚ) : Reading := ⟨now, now, 1 / 2, le_refl _, by norm_num, by norm_num⟩

/-- Two messages that wait for their second try. -/
def twoWaiting : Queue ℕ :=
  [Op.enqueue ⟨"m1", "c1", 1, none⟩ (readingAt 0),
    .enqueue ⟨"m2", "c2", 2, none⟩ (readingAt 0)].foldl
    Queue.apply (create ⟨none, none, none, none⟩)

/-- A processor that deletes its message, enqueues it again with another one, and fails. -/
def restless : Around ℕ where
  processor _ record := {
    meanwhile := [.delete record.id, .enqueue ⟨record.id, "c3", 3, none⟩ (readingAt 1001),
      .enqueue ⟨"m3", "c3", 3, none⟩ (readingAt 1001)]
    settled := .rejected none
    reading := readingAt 1002 }
  between _ := []

theorem redriveEligible_once_restless :
    ∃ enough p, (∀ fuel, enough ≤ fuel →
        twoWaiting.redriveEligible 1000 restless fuel = some (.ok p))
      ∧ p.invoked.Nodup
      ∧ (∀ id ∈ p.invoked, ∃ record, twoWaiting.messages.get id = some record
          ∧ record.isPoison = false ∧ record.nextRetryAt ≤ 1000)
      ∧ p.succeeded + p.failed = p.invoked.length := by
  refine Queue.redriveEligible_once twoWaiting 1000 restless ?_ ?_ ⟨fun p record => ⟨?_, ?_⟩, ?_⟩
  · decide +kernel
  · decide +kernel
  · intro op hop
    simp only [restless, List.mem_cons, List.not_mem_nil, or_false] at hop
    rcases hop with rfl | rfl | rfl
    · trivial
    · show (1000 : ℚ) ≤ 1001
      norm_num
    · show (1000 : ℚ) ≤ 1001
      norm_num
  · show (1000 : ℚ) ≤ 1002
    norm_num
  · intro p op hop
    cases hop

end failing

end DeadLetterQueue

end LeaveLedger
