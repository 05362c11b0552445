import LeaveLedger.Lib.LiveMap
import LeaveLedger.Lib.Machine
import Mathlib

/-!
# Common — EventBus

`common/utils/event-bus.util`. A `Set` of listeners lives on while somebody
iterates over it, also when the bus has dropped it, so the sets of an event
are numbered and `_listeners` has the number of the current one; the history
buffers likewise. Deliveries and replays are frames on a stack. The step
machine interleaves them with whatever running handlers and other code do:
a handler that is called runs until it returns or throws, and the top frame
goes on then.
-/

namespace LeaveLedger

open Lib

namespace EventBus

variable {η π : Type}

/-! ## The bus -/

/-- The function that one call of `subscribeOnce` makes. -/
structure Wrapper (η : Type) where
  number : ℕ
  eventName : String
  handler : η
deriving DecidableEq

/-- A function that is subscribed. -/
inductive Listener (η : Type)
  | plain (handler : η)
  | once (wrapper : Wrapper η)
deriving DecidableEq

/-- The handler that a call of the listener runs. -/
def Listener.handler : Listener η → η
  | .plain handler => handler
  | .once wrapper => wrapper.handler

/-- A replay that waits in `setImmediate`: its buffer and whom it calls. -/
structure Replay (η : Type) where
  eventName : String
  past : ℕ
  listener : Listener η
deriving DecidableEq

structure Bus (η π : Type) where
  /-- `_listeners`: which of its sets an event has -/
  listeners : String → Option ℕ
  sets : String → ℕ → LiveMap (Listener η) Unit
  setsMade : String → ℕ
  /-- `_onceListeners` -/
  onceListeners : η → Option (Wrapper η)
  wrappersMade : ℕ
  /-- `_history`: which of its buffers an event has -/
  history : String → Option ℕ
  buffers : String → ℕ → List π
  buffersMade : String → ℕ
  historyMaxSize : ℕ
  immediates : List (Replay η)
  numbered : ∀ eventName n, listeners eventName = some n → n < setsMade eventName

/-- The constructor. -/
def create (historyMaxSize : Option ℕ) : Bus η π where
  listeners _ := none
  sets _ _ := LiveMap.empty
  setsMade _ := 0
  onceListeners _ := none
  wrappersMade := 0
  history _ := none
  buffers _ _ := []
  buffersMade _ := 0
  historyMaxSize := historyMaxSize.getD 0
  immediates := []
  numbered _ _ h := by cases h

/-- An event without listeners gets a new set. -/
def Bus.ensureSet (b : Bus η π) (eventName : String) : Bus η π :=
  if b.listeners eventName = none then
    { b with
      listeners := Function.update b.listeners eventName (some (b.setsMade eventName))
      sets := Function.update b.sets eventName
        (Function.update (b.sets eventName) (b.setsMade eventName) LiveMap.empty)
      setsMade := Function.update b.setsMade eventName (b.setsMade eventName + 1)
      numbered := fun e n h => by
        by_cases he : e = eventName
        · subst he
          rw [Function.update_self] at h ⊢
          cases h
          exact Nat.lt_succ_self _
        · rw [Function.update_of_ne he] at h ⊢
          exact b.numbered e n h }
  else b

/-- A change to the set that the event has. -/
def Bus.changeSet (b : Bus η π) (eventName : String)
    (change : LiveMap (Listener η) Unit → LiveMap (Listener η) Unit) : Bus η π :=
  match b.listeners eventName with
  | some n =>
      { b with
        sets := Function.update b.sets eventName
          (Function.update (b.sets eventName) n (change (b.sets eventName n))) }
  | none => b

/-- The event has no set any more; who iterates over it still does. -/
def Bus.dropSet (b : Bus η π) (eventName : String) : Bus η π :=
  { b with
    listeners := Function.update b.listeners eventName none
    numbered := fun e n h => by
      by_cases he : e = eventName
      · subst he
        rw [Function.update_self] at h
        cases h
      · rw [Function.update_of_ne he] at h
        exact b.numbered e n h }

section operations
variable [DecidableEq η]

/-- `subscribe`. -/
def Bus.subscribe (b : Bus η π) (eventName : String) (handler : Listener η) : Bus η π :=
  let b := (b.ensureSet eventName).changeSet eventName (·.set handler ())
  if 0 < b.historyMaxSize then
    match b.history eventName with
    | some past => { b with immediates := b.immediates ++ [⟨eventName, past, handler⟩] }
    | none => b
  else b

/-- A new wrapper is tracked for its handler, unless another one is. -/
def Bus.track (b : Bus η π) (wrapper : Wrapper η) : Bus η π :=
  { b with
    onceListeners := if b.onceListeners wrapper.handler = none
      then Function.update b.onceListeners wrapper.handler (some wrapper) else b.onceListeners
    wrappersMade := b.wrappersMade + 1 }

/-- `subscribeOnce`. -/
def Bus.subscribeOnce (b : Bus η π) (eventName : String) (handler : η) : Bus η π :=
  let wrapper : Wrapper η := ⟨b.wrappersMade, eventName, handler⟩
  (b.track wrapper).subscribe eventName (.once wrapper)

/-- Whom `unsubscribe` removes: the wrapper tracked for a handler, if there is one. -/
def Bus.resolve (b : Bus η π) : Listener η → Listener η
  | .plain handler =>
      match b.onceListeners handler with
      | some wrapper => .once wrapper
      | none => .plain handler
  | .once wrapper => .once wrapper

/-- `unsubscribe`. -/
def Bus.unsubscribe (b : Bus η π) (eventName : String) (handler : Listener η) : Bus η π :=
  match b.listeners eventName with
  | none => b
  | some n =>
      -- the wrapper may be of another event, or have left long ago
      let b := b.changeSet eventName (·.delete (b.resolve handler))
      if (b.sets eventName n).size = 0 then b.dropSet eventName else b

/-- What a call of the listener does before it runs its handler. -/
def Bus.enter (b : Bus η π) : Listener η → Bus η π
  | .plain _ => b
  | .once wrapper => b.unsubscribe wrapper.eventName (.once wrapper)

end operations

/-- `clear`; an empty name is no name. -/
def Bus.clear (b : Bus η π) (eventName : Option String) : Bus η π :=
  let named := eventName.getD ""
  if named ≠ "" then
    { b.dropSet named with history := Function.update b.history named none }
  else
    { b with
      listeners := fun _ => none
      history := fun _ => none
      numbered := fun _ _ h => by cases h }

/-- A `clear` that names the event, or none. -/
def Clears (e : String) (eventName : Option String) : Prop :=
  eventName.getD "" = "" ∨ eventName = some e

instance (e : String) (eventName : Option String) : Decidable (Clears e eventName) :=
  inferInstanceAs (Decidable (_ ∨ _))

theorem Bus.clear_of_clears {b : Bus η π} {e : String} {eventName : Option String}
    (h : Clears e eventName) : (b.clear eventName).listeners e = none
      ∧ (b.clear eventName).history e = none := by
  simp only [clear]
  split
  case isTrue hnamed =>
    rcases h with hempty | rfl
    · exact absurd hempty hnamed
    · exact ⟨Function.update_self .., Function.update_self ..⟩
  case isFalse => exact ⟨rfl, rfl⟩

/-- Other events keep what they have. -/
theorem Bus.clear_of_not_clears {b : Bus η π} {e : String} {eventName : Option String}
    (h : ¬ Clears e eventName) : (b.clear eventName).listeners e = b.listeners e
      ∧ (b.clear eventName).history e = b.history e := by
  unfold Clears at h
  push Not at h
  have hother : e ≠ eventName.getD "" := by
    intro heq
    cases eventName with
    | none => exact h.1 rfl
    | some nm => exact h.2 (congrArg some heq.symm)
  simp [clear, dropSet, h.1, Function.update_of_ne hother]

/-- The ring buffer of `publish`. -/
def Bus.remember (b : Bus η π) (eventName : String) (payload : π) : Bus η π :=
  if 0 < b.historyMaxSize then
    let buffer := ((b.history eventName).map (b.buffers eventName)).getD []
    let n := (b.history eventName).getD (b.buffersMade eventName)
    let pushed := buffer ++ [payload]
    { b with
      history := Function.update b.history eventName (some n)
      buffers := Function.update b.buffers eventName (Function.update (b.buffers eventName) n
        (if b.historyMaxSize < pushed.length then pushed.tail else pushed))
      buffersMade := if b.history eventName = none
        then Function.update b.buffersMade eventName (n + 1) else b.buffersMade }
  else b

/-- `listenerCount`. -/
def Bus.listenerCount (b : Bus η π) (eventName : String) : ℕ :=
  match b.listeners eventName with
  | some n => (b.sets eventName n).size
  | none => 0

/-! ## Runs -/

/-- A call of a listener. -/
structure Invocation (η π : Type) where
  eventName : String
  listener : Listener η
  payload : π

/-- A loop that calls listeners: over a set for one payload, or over the first `length` payloads of
a buffer for one listener. -/
inductive Frame (η π : Type)
  | delivery (eventName : String) (payload : π) (set cursor notified : ℕ)
  | replay (eventName : String) (past : ℕ) (listener : Listener η) (index length : ℕ)

/-- The next call of the loop, and the loop after it. -/
def Frame.next (b : Bus η π) : Frame η π → Option (Invocation η π × Frame η π)
  | .delivery e payload set cursor notified =>
      ((b.sets e set).after cursor).map fun slot =>
        (⟨e, slot.key, payload⟩, .delivery e payload set (slot.stamp + 1) (notified + 1))
  | .replay e past listener index length =>
      (((b.buffers e past).take length)[index]?).map fun payload =>
        (⟨e, listener, payload⟩, .replay e past listener (index + 1) length)

/-- The bus, the loops under way with the latest first, all calls of listeners, and what the
`publish` that returned last has returned. -/
structure State (η π : Type) where
  bus : Bus η π
  stack : List (Frame η π)
  log : List (Invocation η π)
  answer : ℕ

def State.initial (historyMaxSize : Option ℕ) : State η π := ⟨create historyMaxSize, [], [], 0⟩

/-- What code may do, and what handlers that run may do. -/
inductive Label (η π : Type)
  | subscribe (eventName : String) (handler : η)
  | subscribeOnce (eventName : String) (handler : η)
  | unsubscribe (eventName : String) (handler : η)
  | publish (eventName : String) (payload : π)
  | clear (eventName : Option String)
  /-- the handler that runs returns -/
  | returns
  /-- the handler that runs throws, and with it the loop that has called it -/
  | throws
  /-- the event loop runs the first immediate -/
  | immediate

section steps
variable [DecidableEq η]

/-- The loop on top calls its next listener, or it ends and its caller runs on. -/
def State.proceed (s : State η π) : State η π :=
  match s.stack with
  | [] => s
  | frame :: rest =>
      match frame.next s.bus with
      | some (call, frame') =>
          -- a wrapper has left its event when its handler begins to run
          { s with
            bus := s.bus.enter call.listener
            stack := frame' :: rest
            log := s.log ++ [call] }
      | none =>
          match frame with
          | .delivery _ _ _ _ notified => { s with stack := rest, answer := notified }
          | .replay .. => { s with stack := rest }

/-- `publish`, up to the first listener. -/
def State.publish (s : State η π) (eventName : String) (payload : π) : State η π :=
  let bus := s.bus.remember eventName payload
  match bus.listeners eventName with
  | none => { s with bus := bus, answer := 0 }
  | some n =>
      if (bus.sets eventName n).size = 0 then { s with bus := bus, answer := 0 }
      else State.proceed { s with
        bus := bus, stack := .delivery eventName payload n 0 0 :: s.stack }

/-- `past.forEach(...)`: the loop has its length from the start. -/
def Replay.frame (b : Bus η π) (r : Replay η) : Frame η π :=
  .replay r.eventName r.past r.listener 0 (b.buffers r.eventName r.past).length

/-- The replay, up to the first payload. -/
def State.startReplay (s : State η π) (r : Replay η) : State η π :=
  State.proceed { s with stack := r.frame s.bus :: s.stack }

def step (s : State η π) : Label η π → Option (State η π)
  | .subscribe e h => some { s with bus := s.bus.subscribe e (.plain h) }
  | .subscribeOnce e h => some { s with bus := s.bus.subscribeOnce e h }
  | .unsubscribe e h => some { s with bus := s.bus.unsubscribe e (.plain h) }
  | .publish e payload => some (s.publish e payload)
  | .clear e => some { s with bus := s.bus.clear e }
  | .returns => if s.stack = [] then none else some s.proceed
  | .throws =>
      match s.stack with
      | [] => none
      | _ :: rest => some { s with stack := rest }
  | .immediate =>
      match s.stack, s.bus.immediates with
      | [], r :: rest => some ({ s with bus := { s.bus with immediates := rest } }.startReplay r)
      | _, _ => none

end steps

/-! ## What the steps do -/

section inversion
variable [DecidableEq η] {s s' : State η π}

theorem step_returns (h : step s .returns = some s') : s' = s.proceed := by
  simp only [step] at h
  split at h
  · cases h
  · exact (Option.some.inj h).symm

theorem step_throws (h : step s .throws = some s') :
    ∃ frame rest, s.stack = frame :: rest ∧ s' = { s with stack := rest } := by
  simp only [step] at h
  split at h
  · cases h
  case h_2 frame rest hstack => exact ⟨frame, rest, hstack, (Option.some.inj h).symm⟩

theorem step_immediate (h : step s .immediate = some s') :
    ∃ r rest, s.stack = [] ∧ s.bus.immediates = r :: rest
      ∧ s' = State.startReplay { s with bus := { s.bus with immediates := rest } } r := by
  simp only [step] at h
  split at h
  case h_1 r rest hstack himm => exact ⟨r, rest, hstack, himm, (Option.some.inj h).symm⟩
  · cases h

end inversion

/-! ## What the operations do -/

section effects
variable {b : Bus η π} {e e' : String} {k : ℕ} {named : Option String} {payload : π}

/-! `publish` remembers a payload and leaves all else. -/

@[simp] theorem Bus.remember_listeners : (b.remember e payload).listeners = b.listeners := by
  unfold remember
  split <;> rfl

@[simp] theorem Bus.remember_sets : (b.remember e payload).sets = b.sets := by
  unfold remember
  split <;> rfl

@[simp] theorem Bus.remember_setsMade : (b.remember e payload).setsMade = b.setsMade := by
  unfold remember
  split <;> rfl

@[simp] theorem Bus.remember_wrappersMade :
    (b.remember e payload).wrappersMade = b.wrappersMade := by
  unfold remember
  split <;> rfl

@[simp] theorem Bus.remember_immediates : (b.remember e payload).immediates = b.immediates := by
  unfold remember
  split <;> rfl

/-! `clear` drops sets and buffers, which stay as they are. -/

@[simp] theorem Bus.clear_sets : (b.clear named).sets = b.sets := by
  simp only [clear]
  split <;> rfl

@[simp] theorem Bus.clear_setsMade : (b.clear named).setsMade = b.setsMade := by
  simp only [clear]
  split <;> rfl

@[simp] theorem Bus.clear_wrappersMade : (b.clear named).wrappersMade = b.wrappersMade := by
  simp only [clear]
  split <;> rfl

@[simp] theorem Bus.clear_buffers : (b.clear named).buffers = b.buffers := by
  simp only [clear]
  split <;> rfl

@[simp] theorem Bus.clear_historyMaxSize :
    (b.clear named).historyMaxSize = b.historyMaxSize := by
  simp only [clear]
  split <;> rfl

@[simp] theorem Bus.clear_immediates : (b.clear named).immediates = b.immediates := by
  simp only [clear]
  split <;> rfl

theorem Bus.changeSet_sets {change : LiveMap (Listener η) Unit → LiveMap (Listener η) Unit} :
    (b.changeSet e change).sets e' k
      = if e' = e ∧ b.listeners e = some k then change (b.sets e' k) else b.sets e' k := by
  unfold changeSet
  cases hset : b.listeners e with
  | none => simp
  | some n =>
      by_cases he : e' = e
      · subst he
        by_cases hk : k = n
        · simp [hk]
        · simp [Function.update_of_ne hk, Ne.symm hk]
      · simp [he]

@[simp] theorem Bus.changeSet_listeners
    {change : LiveMap (Listener η) Unit → LiveMap (Listener η) Unit} :
    (b.changeSet e change).listeners = b.listeners := by
  unfold changeSet
  split <;> rfl

@[simp] theorem Bus.changeSet_setsMade
    {change : LiveMap (Listener η) Unit → LiveMap (Listener η) Unit} :
    (b.changeSet e change).setsMade = b.setsMade := by
  unfold changeSet
  split <;> rfl

/-- An event has a set, or gets one that was not made before. -/
theorem Bus.ensureSet_cases (b : Bus η π) (e : String) :
    (∃ n, b.listeners e = some n ∧ b.ensureSet e = b)
    ∨ (b.listeners e = none ∧ (b.ensureSet e).listeners e = some (b.setsMade e)
      ∧ (b.ensureSet e).sets e (b.setsMade e) = LiveMap.empty) := by
  unfold ensureSet
  cases hset : b.listeners e with
  | some n => exact .inl ⟨n, rfl, by simp⟩
  | none => exact .inr ⟨rfl, by simp, by simp⟩

/-- Only the set that was not made before changes. -/
theorem Bus.ensureSet_sets (h : e' = e → k ≠ b.setsMade e) :
    (b.ensureSet e).sets e' k = b.sets e' k := by
  unfold ensureSet
  split
  · by_cases he : e' = e
    · subst he
      simp [Function.update_of_ne (h rfl)]
    · simp [he]
  · rfl

theorem Bus.mem_ensureSet {slot : Slot (Listener η) Unit}
    (h : slot ∈ ((b.ensureSet e).sets e' k).slots) : slot ∈ (b.sets e' k).slots := by
  by_cases hnew : e' = e ∧ k = b.setsMade e
  · obtain ⟨rfl, rfl⟩ := hnew
    rcases b.ensureSet_cases e' with ⟨n, -, hsame⟩ | ⟨-, -, hempty⟩
    · rwa [hsame] at h
    · rw [hempty] at h
      exact absurd h List.not_mem_nil
  · rwa [ensureSet_sets fun he hk => hnew ⟨he, hk⟩] at h

theorem Bus.ensureSet_listeners_of_ne (h : e' ≠ e) :
    (b.ensureSet e).listeners e' = b.listeners e' := by
  unfold ensureSet
  split
  · simp [Function.update_of_ne h]
  · rfl

theorem Bus.setsMade_ensureSet : b.setsMade e' ≤ (b.ensureSet e).setsMade e' := by
  unfold ensureSet
  split
  · by_cases he : e' = e
    · subst he
      simp
    · simp [Function.update_of_ne he]
  · exact Nat.le_refl _

end effects

section effects
variable [DecidableEq η] {b : Bus η π} {e e' : String} {k : ℕ} {l : Listener η}
  {slot : Slot (Listener η) Unit}

/-- The part of `subscribe` that changes listeners. -/
theorem Bus.subscribe_sets : (b.subscribe e l).sets
    = ((b.ensureSet e).changeSet e (·.set l ())).sets := by
  unfold subscribe
  simp only
  split
  · split <;> rfl
  · rfl

theorem Bus.subscribe_listeners : (b.subscribe e l).listeners = (b.ensureSet e).listeners := by
  unfold subscribe
  simp only
  split
  · split <;> simp
  · simp

theorem Bus.subscribe_setsMade : (b.subscribe e l).setsMade = (b.ensureSet e).setsMade := by
  unfold subscribe
  simp only
  split
  · split <;> simp
  · simp

/-- What is in a set after `subscribe` was there, or is the new listener of the event. -/
theorem Bus.mem_subscribe (h : slot ∈ ((b.subscribe e l).sets e' k).slots) :
    slot ∈ (b.sets e' k).slots
      ∨ (e' = e ∧ (b.subscribe e l).listeners e = some k ∧ slot.key = l) := by
  rw [subscribe_sets, changeSet_sets] at h
  split at h
  case isTrue hcur =>
    rcases LiveMap.key_or_value_of_mem_set h with ⟨hmem, -⟩ | ⟨hkey, -⟩
    · exact .inl (mem_ensureSet hmem)
    · exact .inr ⟨hcur.1, by rw [subscribe_listeners]; exact hcur.2, hkey⟩
  case isFalse => exact .inl (mem_ensureSet h)

/-- The event has the listener then. -/
theorem Bus.subscribe_listens (b : Bus η π) (e : String) (l : Listener η) :
    ∃ n, (b.subscribe e l).listeners e = some n
      ∧ ((b.subscribe e l).sets e n).get l = some () := by
  obtain ⟨n, hn⟩ : ∃ n, (b.ensureSet e).listeners e = some n := by
    rcases b.ensureSet_cases e with ⟨n, hn, hsame⟩ | ⟨-, hnew, -⟩
    · exact ⟨n, by rw [hsame]; exact hn⟩
    · exact ⟨_, hnew⟩
  refine ⟨n, by rw [subscribe_listeners]; exact hn, ?_⟩
  rw [subscribe_sets, changeSet_sets, if_pos ⟨rfl, hn⟩, LiveMap.get_set_self]

theorem Bus.unsubscribe_sets : (b.unsubscribe e l).sets e' k
    = if e' = e ∧ b.listeners e = some k then (b.sets e' k).delete (b.resolve l)
      else b.sets e' k := by
  have hsets : (b.unsubscribe e l).sets = (b.changeSet e (·.delete (b.resolve l))).sets := by
    unfold unsubscribe
    cases hset : b.listeners e with
    | none => simp [changeSet, hset]
    | some n =>
        simp only
        split <;> rfl
  rw [hsets, changeSet_sets]

/-- `unsubscribe` removes one listener from the set the event has. -/
theorem Bus.mem_unsubscribe : slot ∈ ((b.unsubscribe e l).sets e' k).slots
    ↔ slot ∈ (b.sets e' k).slots
      ∧ ¬ (e' = e ∧ b.listeners e = some k ∧ slot.key = b.resolve l) := by
  rw [unsubscribe_sets]
  split
  case isTrue hcur => simp [LiveMap.mem_delete, hcur.1, hcur.2]
  case isFalse hcur =>
    have hother : ¬ (e' = e ∧ b.listeners e = some k ∧ slot.key = b.resolve l) :=
      fun h => hcur ⟨h.1, h.2.1⟩
    simp [hother]

/-- It drops the set when nobody is left in it. -/
theorem Bus.unsubscribe_listeners (b : Bus η π) (e e' : String) (l : Listener η) :
    (b.unsubscribe e l).listeners e' = b.listeners e'
    ∨ (e' = e ∧ (b.unsubscribe e l).listeners e = none
      ∧ ∀ n, b.listeners e = some n → ((b.unsubscribe e l).sets e n).slots = []) := by
  unfold unsubscribe
  cases hset : b.listeners e with
  | none => exact .inl rfl
  | some n =>
      simp only
      split
      case isTrue hempty =>
        by_cases he : e' = e
        · right
          refine ⟨he, by simp [dropSet], fun n' hn' => ?_⟩
          rw [← Option.some.inj hn']
          exact List.length_eq_zero_iff.mp hempty
        · left
          simp [dropSet, he]
      case isFalse => simp

/-- What `subscribe` defers: a replay of the history, if there is one. -/
def Bus.deferred (b : Bus η π) (e : String) (l : Listener η) : List (Replay η) :=
  if 0 < b.historyMaxSize then ((b.history e).map fun past => ⟨e, past, l⟩).toList else []

/-- The part of `subscribe` that is about the history. -/
theorem Bus.subscribe_history (b : Bus η π) (e : String) (l : Listener η) :
    (b.subscribe e l).immediates = b.immediates ++ b.deferred e l
      ∧ (b.subscribe e l).history = b.history ∧ (b.subscribe e l).buffers = b.buffers
      ∧ (b.subscribe e l).historyMaxSize = b.historyMaxSize := by
  have hsame : ((b.ensureSet e).changeSet e (·.set l ())).immediates = b.immediates
      ∧ ((b.ensureSet e).changeSet e (·.set l ())).history = b.history
      ∧ ((b.ensureSet e).changeSet e (·.set l ())).buffers = b.buffers
      ∧ ((b.ensureSet e).changeSet e (·.set l ())).historyMaxSize = b.historyMaxSize := by
    unfold ensureSet changeSet
    split <;> split <;> exact ⟨rfl, rfl, rfl, rfl⟩
  unfold subscribe deferred
  simp only [hsame]
  split
  · cases hpast : b.history e <;> simp [hsame]
  · simp [hsame]

omit [DecidableEq η] in
theorem Bus.mem_deferred {r : Replay η} (h : r ∈ b.deferred e l) :
    r.eventName = e ∧ r.listener = l := by
  unfold deferred at h
  split at h
  · obtain ⟨past, -, rfl⟩ := Option.map_eq_some_iff.mp (Option.mem_toList.mp h)
    exact ⟨rfl, rfl⟩
  · exact absurd h List.not_mem_nil

theorem Bus.mem_immediates_subscribe {r : Replay η} (h : r ∈ (b.subscribe e l).immediates) :
    r ∈ b.immediates ∨ (r.eventName = e ∧ r.listener = l) := by
  rw [(b.subscribe_history e l).1] at h
  exact (List.mem_append.mp h).imp_right mem_deferred

/-- `b'` differs from `b` in who listens, and in nothing else. -/
structure Bus.SameRest (b b' : Bus η π) : Prop where
  setsMade : b'.setsMade = b.setsMade
  onceListeners : b'.onceListeners = b.onceListeners
  wrappersMade : b'.wrappersMade = b.wrappersMade
  history : b'.history = b.history
  buffers : b'.buffers = b.buffers
  historyMaxSize : b'.historyMaxSize = b.historyMaxSize
  immediates : b'.immediates = b.immediates

theorem Bus.unsubscribe_rest (b : Bus η π) (e : String) (l : Listener η) :
    SameRest b (b.unsubscribe e l) := by
  unfold unsubscribe changeSet
  split
  · exact ⟨rfl, rfl, rfl, rfl, rfl, rfl, rfl⟩
  · simp only
    split <;> split <;> exact ⟨rfl, rfl, rfl, rfl, rfl, rfl, rfl⟩

theorem Bus.enter_rest (b : Bus η π) (l : Listener η) : SameRest b (b.enter l) := by
  cases l with
  | plain h => exact ⟨rfl, rfl, rfl, rfl, rfl, rfl, rfl⟩
  | once wrapper => exact b.unsubscribe_rest _ _

/-- What the loop on top does. -/
theorem State.proceed_cases (s : State η π) :
    (s.stack = [] ∧ s.proceed = s)
    ∨ (∃ frame rest call frame', s.stack = frame :: rest ∧ frame.next s.bus = some (call, frame')
        ∧ s.proceed = { s with
            bus := s.bus.enter call.listener
            stack := frame' :: rest
            log := s.log ++ [call] })
    ∨ (∃ frame rest answer, s.stack = frame :: rest ∧ frame.next s.bus = none
        ∧ s.proceed = { s with stack := rest, answer := answer }) := by
  obtain ⟨bus, stack, log, answer⟩ := s
  cases stack with
  | nil => exact .inl ⟨rfl, rfl⟩
  | cons frame rest =>
      cases hnext : frame.next bus with
      | some next =>
          exact .inr (.inl ⟨frame, rest, next.1, next.2, rfl, hnext, by simp [proceed, hnext]⟩)
      | none =>
          cases frame with
          | delivery e payload set cursor notified =>
              exact .inr (.inr ⟨_, rest, notified, rfl, hnext, by simp [proceed, hnext]⟩)
          | replay e past listener index length =>
              exact .inr (.inr ⟨_, rest, answer, rfl, hnext, by simp [proceed, hnext]⟩)

/-- `publish` finds nobody, or begins a delivery. -/
theorem State.publish_cases (s : State η π) (e : String) (payload : π) :
    ((∀ n, (s.bus.remember e payload).listeners e = some n →
        ((s.bus.remember e payload).sets e n).slots = [])
      ∧ s.publish e payload = { s with bus := s.bus.remember e payload, answer := 0 })
    ∨ ∃ n, (s.bus.remember e payload).listeners e = some n
      ∧ ((s.bus.remember e payload).sets e n).slots ≠ []
      ∧ s.publish e payload = State.proceed { s with
          bus := s.bus.remember e payload
          stack := .delivery e payload n 0 0 :: s.stack } := by
  unfold publish
  simp only
  cases hset : (s.bus.remember e payload).listeners e with
  | none => exact .inl ⟨fun _ hn => absurd hn (by simp), rfl⟩
  | some n =>
      simp only
      split
      case isTrue hempty =>
        refine .inl ⟨fun n' hn' => ?_, rfl⟩
        rw [← Option.some.inj hn']
        exact List.length_eq_zero_iff.mp hempty
      case isFalse hsome =>
        exact .inr ⟨n, rfl, fun hnil => hsome (List.length_eq_zero_iff.mpr hnil), rfl⟩

end effects

end EventBus

end LeaveLedger
