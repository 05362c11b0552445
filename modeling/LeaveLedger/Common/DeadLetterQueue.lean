import LeaveLedger.Lib.LiveMap
import Mathlib

/-!
# Common — DeadLetterQueue

`common/utils/dead-letter-queue.util`, in exact arithmetic. A queue carries
what its operations keep of every record (`Kept`). While a processor is
awaited anybody may change the queue: an `Await` lists the changes, and the
code after the `await` goes on from the queue they leave.
-/

namespace LeaveLedger

open Lib

namespace DeadLetterQueue

variable {π : Type}

/-! ## Records -/

structure RecordedError where
  category : String
  message : String
  timestamp : ℚ

structure Record (π : Type) where
  id : String
  channel : String
  payload : π
  attempts : ℕ
  initialError : RecordedError
  lastError : RecordedError
  createdAt : ℚ
  updatedAt : ℚ
  isPoison : Bool
  nextRetryAt : ℚ
  redriveCount : ℕ

/-- What a queue keeps of the record under `id`. -/
structure Kept (maxRetries : ℚ) (id : String) (record : Record π) : Prop where
  keyed : record.id = id
  named : id ≠ ""
  addressed : record.channel ≠ ""
  tried : 1 ≤ record.attempts
  poison : record.isPoison = decide (maxRetries ≤ record.attempts)

/-- A truthy error: the texts that are read of it, `""` where it has none. -/
structure Failure where
  code : String
  name : String
  message : String
  /-- `String(error)` -/
  text : String

/-- `a || b` of texts. -/
def textOr (a b : String) : String := if a = "" then b else a

def errorCategory (error : Option Failure) : String :=
  match error with
  | some e => textOr e.code (textOr e.name "UNKNOWN_ERROR")
  | none => "UNKNOWN_ERROR"

def errorMessage (error : Option Failure) : String :=
  match error with
  | some e => textOr e.message e.text
  | none => "Unspecified error"

/-- What one `enqueue` reads of the clock, first for the record and then for its next retry,
and of the random numbers. -/
structure Reading where
  now : ℚ
  retryNow : ℚ
  random : ℚ
  ordered : now ≤ retryNow
  nonneg : 0 ≤ random
  lt_one : random < 1

def recordedError (error : Option Failure) (reading : Reading) : RecordedError :=
  ⟨errorCategory error, errorMessage error, reading.now⟩

/-! ## The queue -/

structure Options where
  maxRetries : Option ℚ
  baseBackoffMs : Option ℚ
  maxBackoffMs : Option ℚ
  maxCapacity : Option ℚ

/-- `x || default` of a number that may be absent. -/
def numberOr (x : Option ℚ) (default : ℚ) : ℚ := if x.getD 0 = 0 then default else x.getD 0

structure Settings where
  maxRetries : ℚ
  baseBackoffMs : ℚ
  maxBackoffMs : ℚ
  maxCapacity : ℚ

structure Queue (π : Type) extends Settings where
  messages : LiveMap String (Record π)
  errorTaxonomy : LiveMap String ℕ
  totalEnqueued : ℕ
  totalRedriven : ℕ
  totalEvicted : ℕ
  kept : ∀ e ∈ messages.slots, Kept maxRetries e.key e.value

/-- The constructor. -/
def create (options : Options) : Queue π where
  maxRetries := numberOr options.maxRetries 3
  baseBackoffMs := numberOr options.baseBackoffMs 100
  maxBackoffMs := numberOr options.maxBackoffMs 5000
  maxCapacity := numberOr options.maxCapacity 1000
  messages := LiveMap.empty
  errorTaxonomy := LiveMap.empty
  totalEnqueued := 0
  totalRedriven := 0
  totalEvicted := 0
  kept _ he := absurd he List.not_mem_nil

theorem Queue.kept_of_get {q : Queue π} {id : String} {record : Record π}
    (h : q.messages.get id = some record) : Kept q.maxRetries id record := by
  obtain ⟨e, he, rfl, rfl⟩ := LiveMap.get_eq_some_iff.mp h
  exact q.kept e he

/-- `get`, of a record that nobody changes any more. -/
def Queue.get (q : Queue π) (id : String) : Option (Record π) := q.messages.get id

/-- `delete`. -/
def Queue.delete (q : Queue π) (id : String) : Queue π :=
  { q with
    messages := q.messages.delete id
    kept := fun e he => q.kept e (LiveMap.mem_delete.mp he).1 }

/-- `clear`. -/
def Queue.clear (q : Queue π) : Queue π :=
  { q with
    messages := q.messages.clear
    errorTaxonomy := q.errorTaxonomy.clear
    kept := fun _ he => absurd he List.not_mem_nil }

/-- The record in the place of the one under its `id`, or at the end. -/
def Queue.put (q : Queue π) (record : Record π) (h : Kept q.maxRetries record.id record) :
    Queue π :=
  { q with
    messages := q.messages.set record.id record
    kept := fun e he => by
      rcases LiveMap.key_or_value_of_mem_set he with ⟨he, -⟩ | ⟨hkey, hval⟩
      · exact q.kept e he
      · rw [hkey, hval]
        exact h }

/-- FIFO eviction if the capacity is exceeded. -/
def Queue.evict (q : Queue π) : Queue π :=
  if q.maxCapacity ≤ q.messages.size then
    match q.messages.oldest with
    | some oldestKey => { q.delete oldestKey with totalEvicted := q.totalEvicted + 1 }
    | none => { q with totalEvicted := q.totalEvicted + 1 }
  else q

/-- `_calculateNextRetry`. -/
def Queue.calculateNextRetry (q : Queue π) (attempt : ℕ) (reading : Reading) : ℚ :=
  let factor : ℚ := 2 ^ min attempt 10
  let delay := min (q.baseBackoffMs * factor) q.maxBackoffMs
  let jitter := delay * (1 / 5) * reading.random
  reading.retryNow + ⌊delay + jitter⌋

structure Item (π : Type) where
  id : String
  channel : String
  payload : π
  error : Option Failure

structure TypeError where
  message : String
deriving DecidableEq

/-- A record that fails once more. -/
def Queue.again (q : Queue π) (record : Record π) (item : Item π) (reading : Reading) :
    Record π :=
  let attempts := record.attempts + 1
  { record with
    attempts := attempts
    lastError := recordedError item.error reading
    updatedAt := reading.now
    isPoison := q.maxRetries ≤ attempts
    nextRetryAt := q.calculateNextRetry attempts reading }

/-- The record of an item that was not there. -/
def Queue.fresh (q : Queue π) (item : Item π) (reading : Reading) : Record π where
  id := item.id
  channel := item.channel
  payload := item.payload
  attempts := 1
  initialError := recordedError item.error reading
  lastError := recordedError item.error reading
  createdAt := reading.now
  updatedAt := reading.now
  isPoison := q.maxRetries ≤ 1
  nextRetryAt := q.calculateNextRetry 1 reading
  redriveCount := 0

/-- The counters of `enqueue`. -/
def Queue.count (q : Queue π) (category : String) : Queue π :=
  { q with
    totalEnqueued := q.totalEnqueued + 1
    errorTaxonomy := q.errorTaxonomy.set category ((q.errorTaxonomy.get category).getD 0 + 1) }

theorem Queue.kept_again (q : Queue π) {record : Record π} (item : Item π) (reading : Reading)
    (h : Kept q.maxRetries record.id record) :
    Kept q.maxRetries record.id (q.again record item reading) where
  keyed := rfl
  named := h.named
  addressed := h.addressed
  tried := Nat.le_add_left 1 _
  poison := rfl

theorem Queue.kept_fresh (q : Queue π) {item : Item π} (reading : Reading)
    (hid : item.id ≠ "") (hchannel : item.channel ≠ "") :
    Kept q.maxRetries item.id (q.fresh item reading) where
  keyed := rfl
  named := hid
  addressed := hchannel
  tried := Nat.le_refl 1
  poison := by simp [fresh]

@[simp] theorem Queue.evict_settings (q : Queue π) : q.evict.toSettings = q.toSettings := by
  unfold evict
  split
  · split <;> rfl
  · rfl

/-- `enqueue`. -/
def Queue.enqueue (q : Queue π) (item : Item π) (reading : Reading) :
    Except TypeError (Record π × Queue π) :=
  if hid : item.id = "" then .error ⟨"Message ID must be a non-empty string"⟩
  else if hchannel : item.channel = "" then .error ⟨"Channel must be a non-empty string"⟩
  else
    match hget : q.messages.get item.id with
    | some record =>
        have hkept := q.kept_of_get hget
        let record' := q.again record item reading
        .ok (record', (q.put record' (q.kept_again item reading
          (hkept.keyed ▸ hkept))).count (errorCategory item.error))
    | none =>
        -- the oldest message goes first, so it is never the new one that is evicted
        let record := q.fresh item reading
        .ok (record, (q.evict.put record (q.evict_settings ▸
          q.kept_fresh reading hid hchannel)).count (errorCategory item.error))

/-- `canRetry`. -/
def Queue.canRetry (q : Queue π) (id : String) (now : ℚ) : Bool :=
  match q.messages.get id with
  | none => false
  | some record => if record.isPoison then false else decide (now ≥ record.nextRetryAt)

/-! ## Redrives -/

/-- What somebody else does to the queue. -/
inductive Op (π : Type)
  | enqueue (item : Item π) (reading : Reading)
  | delete (id : String)
  | clear

/-- An `enqueue` that throws changes nothing. -/
def Queue.apply (q : Queue π) : Op π → Queue π
  | .enqueue item reading =>
      match q.enqueue item reading with
      | .ok (_, q') => q'
      | .error _ => q
  | .delete id => q.delete id
  | .clear => q.clear

/-- How a call of the processor ends. -/
inductive Settled
  | fulfilled
  | rejected (error : Option Failure)

/-- An awaited call of the processor: what is done to the queue while it is awaited, how it ends,
and the reading that a failure is recorded with. -/
structure Await (π : Type) where
  meanwhile : List (Op π)
  settled : Settled
  reading : Reading

/-- What a redrive did: its answer, and the record whose payload and channel it handed to the
processor. -/
structure Redriven (π : Type) where
  answer : Bool
  handed : Option (Record π)
  queue : Queue π

/-- `redrive`; the processor is a function that behaves as `processor` says. -/
def Queue.redrive (q : Queue π) (id : String) (processor : Record π → Await π) :
    Except TypeError (Redriven π) :=
  match q.messages.get id with
  | none => .ok ⟨false, none, q⟩
  | some record =>
      -- the record is from before the `await`, the queue is what the others leave
      let awaited := processor record
      let q := awaited.meanwhile.foldl Queue.apply q
      match awaited.settled with
      | .fulfilled =>
          .ok ⟨true, some record, { q.delete id with totalRedriven := q.totalRedriven + 1 }⟩
      | .rejected error => do
          -- whether or not the message is still there
          let (_, q) ← q.enqueue ⟨record.id, record.channel, record.payload, error⟩ awaited.reading
          return ⟨false, some record, q⟩

/-- A pass under way: where its iteration has come to, its counts, and the messages the processor
was called for. -/
structure Pass (π : Type) where
  queue : Queue π
  cursor : ℕ
  succeeded : ℕ
  failed : ℕ
  invoked : List String

/-- A visited message that was redriven. -/
def Pass.count (p : Pass π) (stamp : ℕ) (out : Redriven π) : Pass π where
  queue := out.queue
  cursor := stamp + 1
  succeeded := if out.answer then p.succeeded + 1 else p.succeeded
  failed := if out.answer then p.failed else p.failed + 1
  invoked := p.invoked ++ out.handed.toList.map Record.id

/-- What is around a pass: the processor, and what is done to the queue after a redrive has
returned and before the pass goes on. Both may depend on all that the pass has done. -/
structure Around (π : Type) where
  processor : Pass π → Record π → Await π
  between : Pass π → List (Op π)

def Pass.resume (around : Around π) (p : Pass π) : Pass π :=
  { p with queue := (around.between p).foldl Queue.apply p.queue }

/-- The loop of `redriveEligible` over the live map, and `none` when the fuel does not do. -/
def Pass.loop (now : ℚ) (around : Around π) : ℕ → Pass π → Option (Except TypeError (Pass π))
  | 0, _ => none
  | fuel + 1, p =>
      match p.queue.messages.after p.cursor with
      | none => some (.ok p)
      | some e =>
          if p.queue.canRetry e.key now then
            match p.queue.redrive e.key (around.processor p) with
            | .error err => some (.error err)
            | .ok out => loop now around fuel ((p.count e.stamp out).resume around)
          else loop now around fuel { p with cursor := e.stamp + 1 }

/-- `redriveEligible`; the clock reads `now` when it is called. -/
def Queue.redriveEligible (q : Queue π) (now : ℚ) (around : Around π) (fuel : ℕ) :
    Option (Except TypeError (Pass π)) :=
  Pass.loop now around fuel ⟨q, 0, 0, 0, []⟩

/-! ## What the operations do -/

section operations
variable {q : Queue π} {id : String} {item : Item π} {reading : Reading} {record : Record π}

/-- What an accepted `enqueue` can do. -/
theorem Queue.enqueue_cases {stored : Record π} {q' : Queue π}
    (h : q.enqueue item reading = .ok (stored, q')) :
    (∃ record, q.messages.get item.id = some record ∧ stored = q.again record item reading
      ∧ q'.messages = q.messages.set item.id stored ∧ q'.toSettings = q.toSettings)
    ∨ (q.messages.get item.id = none ∧ stored = q.fresh item reading
      ∧ q'.messages = q.evict.messages.set item.id stored ∧ q'.toSettings = q.toSettings) := by
  unfold enqueue at h
  split at h
  · cases h
  split at h
  · cases h
  split at h
  case h_1 record hget =>
    obtain ⟨rfl, rfl⟩ := Prod.mk.inj (Except.ok.inj h)
    have hid : item.id = (q.again record item reading).id := (q.kept_of_get hget).keyed.symm
    refine .inl ⟨record, hget, rfl, ?_, rfl⟩
    exact congrArg (q.messages.set · _) hid.symm
  case h_2 hget =>
    obtain ⟨rfl, rfl⟩ := Prod.mk.inj (Except.ok.inj h)
    exact .inr ⟨hget, rfl, rfl, q.evict_settings⟩

/-- A message of the queue has all that `enqueue` asks for. -/
theorem Queue.enqueue_of_named (q : Queue π) (item : Item π) (reading : Reading)
    (hid : item.id ≠ "") (hchannel : item.channel ≠ "") :
    ∃ stored q', q.enqueue item reading = .ok (stored, q') := by
  unfold enqueue
  rw [dif_neg hid, dif_neg hchannel]
  split
  · exact ⟨_, _, rfl⟩
  · exact ⟨_, _, rfl⟩

end operations

end DeadLetterQueue

end LeaveLedger
