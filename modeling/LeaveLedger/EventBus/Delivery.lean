import LeaveLedger.Common.EventBus
import Mathlib

/-!
# EventBus — One delivery

A delivery goes over the live set of listeners, so it does what a delivery to
the listeners present at the call would do (`eachPresent`), and then it goes
on with the listeners that were added meanwhile. It is the former exactly
when there is none of the latter.
-/

namespace LeaveLedger

open Lib

namespace EventBus

variable {η π : Type}

/-- What a handler that does not publish may do with the bus. -/
inductive Act (η : Type)
  | subscribe (eventName : String) (handler : η)
  | subscribeOnce (eventName : String) (handler : η)
  | unsubscribe (eventName : String) (handler : η)

def Act.label : Act η → Label η π
  | .subscribe e h => .subscribe e h
  | .subscribeOnce e h => .subscribeOnce e h
  | .unsubscribe e h => .unsubscribe e h

/-- What the handlers do: the one called last may let it depend on the bus and on all calls. -/
abbrev Handlers (η π : Type) := Bus η π → List (Invocation η π) → List (Act η)

section delivery
variable [DecidableEq η]

def Bus.act (b : Bus η π) : Act η → Bus η π
  | .subscribe e h => b.subscribe e (.plain h)
  | .subscribeOnce e h => b.subscribeOnce e h
  | .unsubscribe e h => b.unsubscribe e (.plain h)

/-- The bus when the handler called last returns. -/
def Bus.handled (b : Bus η π) (handlers : Handlers η π) (log : List (Invocation η π)) : Bus η π :=
  (handlers b log).foldl Bus.act b

/-- The handler that runs does its part and returns. -/
def State.turn (handlers : Handlers η π) (s : State η π) : State η π :=
  State.proceed { s with bus := s.bus.handled handlers s.log }

/-- Turns until no more loops are under way than `depth`, and `none` when the fuel does not do. -/
def State.finish (handlers : Handlers η π) (depth : ℕ) : ℕ → State η π → Option (State η π)
  | 0, _ => none
  | fuel + 1, s =>
      if s.stack.length ≤ depth then some s else finish handlers depth fuel (s.turn handlers)

/-- `publish` to its end. -/
def State.publishAll (handlers : Handlers η π) (s : State η π) (e : String) (payload : π)
    (fuel : ℕ) : Option (State η π) :=
  (s.publish e payload).finish handlers s.stack.length fuel

/-- A delivery to listeners in their order, each called once unless it has been removed before its
turn: the bus and the calls after it. -/
def eachPresent (handlers : Handlers η π) (e : String) (payload : π) (n : ℕ) :
    List (Slot (Listener η) Unit) → Bus η π × List (Invocation η π) →
      Bus η π × List (Invocation η π)
  | [], s => s
  | slot :: rest, (b, log) =>
      if slot ∈ (b.sets e n).slots then
        let log := log ++ [⟨e, slot.key, payload⟩]
        eachPresent handlers e payload n rest ((b.enter slot.key).handled handlers log, log)
      else eachPresent handlers e payload n rest (b, log)

/-- What a delivery to the listeners present at the call leaves. -/
def State.toPresent (handlers : Handlers η π) (s : State η π) (e : String) (payload : π) :
    Bus η π × List (Invocation η π) :=
  let b := s.bus.remember e payload
  match b.listeners e with
  | none => (b, s.log)
  | some n => eachPresent handlers e payload n (b.sets e n).slots (b, s.log)

/-! ## Turns are steps -/

theorem step_act (s : State η π) (a : Act η) :
    step s a.label = some { s with bus := s.bus.act a } := by
  cases a <;> rfl

theorem run_acts (s : State η π) (acts : List (Act η)) :
    run step s (acts.map Act.label) = some { s with bus := acts.foldl Bus.act s.bus } := by
  induction acts generalizing s with
  | nil => rfl
  | cons a acts ih =>
      rw [List.map_cons, run_cons, step_act, Option.bind_some]
      exact ih _

/-- What `finish` does is a run of the machine. -/
theorem State.finish_run {handlers : Handlers η π} {depth fuel : ℕ} {s s' : State η π}
    (h : s.finish handlers depth fuel = some s') : ∃ labels, run step s labels = some s' := by
  induction fuel generalizing s with
  | zero => cases h
  | succ fuel ih =>
      unfold finish at h
      split at h
      case isTrue => exact ⟨[], h⟩
      case isFalse hdeep =>
        obtain ⟨labels, hrun⟩ := ih h
        refine ⟨(handlers s.bus s.log).map Act.label ++ .returns :: labels, ?_⟩
        have hstack : s.stack ≠ [] := fun hnil => hdeep (by simp [hnil])
        rw [run_append, run_acts, Option.bind_some, run_cons]
        simp only [step, if_neg hstack, Option.bind_some]
        exact hrun

/-- More fuel gives the same. -/
theorem State.finish_add {handlers : Handlers η π} {depth fuel : ℕ} {s s' : State η π}
    (h : s.finish handlers depth fuel = some s') (more : ℕ) :
    s.finish handlers depth (fuel + more) = some s' := by
  induction fuel generalizing s with
  | zero => cases h
  | succ fuel ih =>
      rw [Nat.succ_add]
      unfold finish at h ⊢
      split
      case isTrue hdone => rwa [if_pos hdone] at h
      case isFalse hdeep =>
        rw [if_neg hdeep] at h
        exact ih h

/-! ## The listeners of a set -/

/-- Of the set, `b'` has what `b` had, and newer listeners. -/
structure Bus.Aged (e : String) (n : ℕ) (b b' : Bus η π) : Prop where
  made : n < b'.setsMade e
  next : (b.sets e n).next ≤ (b'.sets e n).next
  slots : ∀ slot ∈ (b'.sets e n).slots, slot ∈ (b.sets e n).slots ∨ (b.sets e n).next ≤ slot.stamp

section aged
variable {e : String} {n : ℕ} {b b' b'' : Bus η π}

omit [DecidableEq η] in
theorem Bus.Aged.refl (hmade : n < b.setsMade e) : b.Aged e n b :=
  ⟨hmade, Nat.le_refl _, fun _ hmem => .inl hmem⟩

omit [DecidableEq η] in
theorem Bus.Aged.trans (h : b.Aged e n b') (h' : b'.Aged e n b'') : b.Aged e n b'' := by
  refine ⟨h'.made, h.next.trans h'.next, fun slot hmem => ?_⟩
  rcases h'.slots slot hmem with hold | hnew
  · exact h.slots slot hold
  · exact .inr (h.next.trans hnew)

theorem Bus.Aged.unsubscribe (hmade : n < b.setsMade e) (e' : String) (l : Listener η) :
    b.Aged e n (b.unsubscribe e' l) := by
  refine ⟨?_, ?_, fun slot hmem => .inl (mem_unsubscribe.mp hmem).1⟩
  · rw [(b.unsubscribe_rest e' l).setsMade]
    exact hmade
  · rw [unsubscribe_sets]
    split <;> exact Nat.le_refl _

theorem Bus.Aged.enter (hmade : n < b.setsMade e) (l : Listener η) : b.Aged e n (b.enter l) := by
  cases l with
  | plain _ => exact .refl hmade
  | once wrapper => exact .unsubscribe hmade _ _

theorem Bus.Aged.subscribe (hmade : n < b.setsMade e) (e' : String) (l : Listener η) :
    b.Aged e n (b.subscribe e' l) := by
  have hold : (b.ensureSet e').sets e n = b.sets e n :=
    ensureSet_sets fun he => he ▸ Nat.ne_of_lt hmade
  refine ⟨?_, ?_, fun slot hmem => ?_⟩
  · rw [subscribe_setsMade]
    exact Nat.lt_of_lt_of_le hmade setsMade_ensureSet
  · rw [subscribe_sets, changeSet_sets, hold]
    split
    · exact LiveMap.next_set
    · exact Nat.le_refl _
  · rw [subscribe_sets, changeSet_sets, hold] at hmem
    split at hmem
    · exact LiveMap.mem_or_newer_of_mem_set hmem
    · exact .inl hmem

theorem Bus.Aged.act (hmade : n < b.setsMade e) (a : Act η) : b.Aged e n (b.act a) := by
  cases a with
  | subscribe e' h => exact .subscribe hmade e' _
  | unsubscribe e' h => exact .unsubscribe hmade e' _
  | subscribeOnce e' h =>
      have hsub := Aged.subscribe (b := b.track ⟨b.wrappersMade, e', h⟩) hmade e'
        (.once ⟨b.wrappersMade, e', h⟩)
      exact ⟨hsub.made, hsub.next, hsub.slots⟩

theorem Bus.Aged.foldl (hmade : n < b.setsMade e) (acts : List (Act η)) :
    b.Aged e n (acts.foldl Bus.act b) := by
  induction acts generalizing b with
  | nil => exact .refl hmade
  | cons a acts ih =>
      have hone := Aged.act hmade a
      exact hone.trans (ih hone.made)

/-- A turn of a listener. -/
theorem Bus.Aged.handled (hmade : n < b.setsMade e) (l : Listener η) (handlers : Handlers η π)
    (log : List (Invocation η π)) : b.Aged e n ((b.enter l).handled handlers log) :=
  (Aged.enter hmade l).trans (.foldl (Aged.enter hmade l).made _)

end aged

/-! ## The listeners that were present -/

/-- The delivery has come to `cursor`, with the listeners `rest` of those present still to have
their turn; whoever else is ahead is not older than `newest`. -/
structure Ahead (e : String) (n newest : ℕ) (rest : List (Slot (Listener η) Unit)) (cursor : ℕ)
    (b : Bus η π) : Prop where
  made : n < b.setsMade e
  newer : newest ≤ (b.sets e n).next
  reached : cursor ≤ newest
  present : ∀ slot ∈ rest, cursor ≤ slot.stamp ∧ slot.stamp < newest
  sorted : rest.Pairwise fun slot slot' => slot.stamp < slot'.stamp
  others : ∀ slot ∈ (b.sets e n).slots, cursor ≤ slot.stamp → slot ∈ rest ∨ newest ≤ slot.stamp

section ahead
variable {e : String} {n newest cursor : ℕ} {slot : Slot (Listener η) Unit}
  {rest : List (Slot (Listener η) Unit)} {b b' : Bus η π}

omit [DecidableEq η] in
theorem Ahead.skip (h : Ahead e n newest (slot :: rest) cursor b)
    (hgone : slot ∉ (b.sets e n).slots) : Ahead e n newest rest cursor b where
  made := h.made
  newer := h.newer
  reached := h.reached
  present s hs := h.present s (List.mem_cons_of_mem _ hs)
  sorted := (List.pairwise_cons.mp h.sorted).2
  others s hs hle := by
    rcases h.others s hs hle with hmem | hnew
    · rcases List.mem_cons.mp hmem with rfl | hmem
      · exact absurd hs hgone
      · exact .inl hmem
    · exact .inr hnew

omit [DecidableEq η] in
/-- The next call is for the first of those present, unless it has been removed. -/
theorem Ahead.after (h : Ahead e n newest (slot :: rest) cursor b)
    (hmem : slot ∈ (b.sets e n).slots) : (b.sets e n).after cursor = some slot := by
  obtain ⟨hle, hlt⟩ := h.present slot (List.mem_cons_self ..)
  cases hafter : (b.sets e n).after cursor with
  | none => exact absurd (LiveMap.after_eq_none_iff.mp hafter slot hmem) (Nat.not_lt.mpr hle)
  | some first =>
      have hfirst := LiveMap.mem_of_after hafter
      have hmin : first.stamp ≤ slot.stamp := LiveMap.le_stamp_of_after hafter hmem hle
      rcases h.others first hfirst (LiveMap.le_of_after hafter) with hin | hnew
      · rcases List.mem_cons.mp hin with rfl | hin
        · rfl
        · have := (List.pairwise_cons.mp h.sorted).1 first hin
          omega
      · omega

omit [DecidableEq η] in
theorem Ahead.visit (h : Ahead e n newest (slot :: rest) cursor b) (haged : b.Aged e n b') :
    Ahead e n newest rest (slot.stamp + 1) b' where
  made := haged.made
  newer := h.newer.trans haged.next
  reached := (h.present slot (List.mem_cons_self ..)).2
  present s hs := by
    have hlt := (List.pairwise_cons.mp h.sorted).1 s hs
    exact ⟨hlt, (h.present s (List.mem_cons_of_mem _ hs)).2⟩
  sorted := (List.pairwise_cons.mp h.sorted).2
  others s hs hle := by
    have hcursor := (h.present slot (List.mem_cons_self ..)).1
    rcases haged.slots s hs with hold | hnew
    · rcases h.others s hold (by omega) with hin | hnew
      · rcases List.mem_cons.mp hin with rfl | hin
        · omega
        · exact .inl hin
      · exact .inr hnew
    · exact .inr (h.newer.trans hnew)

end ahead

/-- In the middle of a delivery. -/
def delivering (e : String) (payload : π) (n : ℕ) (under : List (Frame η π)) (answer : ℕ)
    (b : Bus η π) (log : List (Invocation η π)) (cursor notified : ℕ) : State η π :=
  ⟨b, .delivery e payload n cursor notified :: under, log, answer⟩

section turns
variable {handlers : Handlers η π} {e : String} {payload : π} {n : ℕ} {under : List (Frame η π)}
  {answer : ℕ} {b : Bus η π} {log : List (Invocation η π)} {cursor notified fuel : ℕ}

theorem delivering_proceed_some {slot : Slot (Listener η) Unit}
    (h : (b.sets e n).after cursor = some slot) :
    (delivering e payload n under answer b log cursor notified).proceed
      = delivering e payload n under answer (b.enter slot.key) (log ++ [⟨e, slot.key, payload⟩])
          (slot.stamp + 1) (notified + 1) := by
  simp [delivering, State.proceed, Frame.next, h]

theorem delivering_proceed_none (h : (b.sets e n).after cursor = none) :
    (delivering e payload n under answer b log cursor notified).proceed
      = ⟨b, under, log, notified⟩ := by
  simp [delivering, State.proceed, Frame.next, h]

theorem delivering_finish :
    (delivering e payload n under answer b log cursor notified).finish handlers under.length
        (fuel + 1)
      = (delivering e payload n under answer (b.handled handlers log) log cursor
          notified).proceed.finish handlers under.length fuel := by
  simp [delivering, State.finish, State.turn]

/-- The turns of those present, by induction over them; what comes after is left to do. -/
theorem Ahead.turns {newest : ℕ} {rest : List (Slot (Listener η) Unit)}
    (handlers : Handlers η π) (payload : π) (under : List (Frame η π)) (answer : ℕ)
    (log : List (Invocation η π)) (notified : ℕ) (h : Ahead e n newest rest cursor b) :
    ∃ turns cursor' notified',
      Ahead e n newest [] cursor' (eachPresent handlers e payload n rest (b, log)).1
      ∧ ∀ fuel,
        (delivering e payload n under answer b log cursor notified).proceed.finish handlers
            under.length (fuel + turns)
          = (delivering e payload n under answer (eachPresent handlers e payload n rest (b, log)).1
              (eachPresent handlers e payload n rest (b, log)).2 cursor' notified').proceed.finish
                handlers under.length fuel := by
  -- the cursor stays behind the listeners of `rest`, wherever it has come to
  induction rest generalizing b log cursor notified with
  | nil => exact ⟨0, cursor, notified, h, fun _ => rfl⟩
  | cons slot rest ih =>
      by_cases hmem : slot ∈ (b.sets e n).slots
      · have haged : b.Aged e n ((b.enter slot.key).handled handlers
            (log ++ [⟨e, slot.key, payload⟩])) := .handled h.made slot.key handlers _
        obtain ⟨turns, cursor', notified', hahead, hfinish⟩ :=
          ih (log ++ [⟨e, slot.key, payload⟩]) (notified + 1) (h.visit haged)
        have hpresent : eachPresent handlers e payload n (slot :: rest) (b, log)
            = eachPresent handlers e payload n rest ((b.enter slot.key).handled handlers
                (log ++ [⟨e, slot.key, payload⟩]), log ++ [⟨e, slot.key, payload⟩]) :=
          if_pos hmem
        rw [hpresent]
        refine ⟨turns + 1, cursor', notified', hahead, fun fuel => ?_⟩
        rw [← hfinish, delivering_proceed_some (h.after hmem), ← Nat.add_assoc, delivering_finish]
      · have hpresent : eachPresent handlers e payload n (slot :: rest) (b, log)
            = eachPresent handlers e payload n rest (b, log) := if_neg hmem
        rw [hpresent]
        exact ih log notified (h.skip hmem)

end turns

/-- Calls are not taken back. -/
theorem State.log_proceed (s : State η π) : s.log <+: s.proceed.log := by
  rcases s.proceed_cases with ⟨-, heq⟩ | ⟨frame, rest, call, frame', -, -, heq⟩
    | ⟨frame, rest, answer, -, -, heq⟩
  · rw [heq]
  · rw [heq]
    exact List.prefix_append _ _
  · rw [heq]

theorem State.log_finish {handlers : Handlers η π} {depth fuel : ℕ} {s s' : State η π}
    (h : s.finish handlers depth fuel = some s') : s.log <+: s'.log := by
  induction fuel generalizing s with
  | zero => cases h
  | succ fuel ih =>
      unfold finish at h
      split at h
      · cases h
        exact List.prefix_rfl
      · have hturn : s.log <+: (s.turn handlers).log :=
          State.log_proceed { s with bus := s.bus.handled handlers s.log }
        exact hturn.trans (ih h)

/-! ## publish -/

/-- `publish` returns, and has called the listeners that were present, each once and in their
order, unless removed before their turn, and no others. -/
def Delivers (handlers : Handlers η π) (s : State η π) (e : String) (payload : π) : Prop :=
  ∃ enough s', (∀ fuel, enough ≤ fuel → s.publishAll handlers e payload fuel = some s')
    ∧ s'.log = (s.toPresent handlers e payload).2

/-- When all listeners present at the call have had their turn, none that was added meanwhile is
left in the set that they were in. -/
def NoneAdded (handlers : Handlers η π) (s : State η π) (e : String) (payload : π) : Prop :=
  ∀ n, (s.bus.remember e payload).listeners e = some n →
    ∀ slot ∈ ((s.toPresent handlers e payload).1.sets e n).slots,
      slot.stamp < ((s.bus.remember e payload).sets e n).next

omit [DecidableEq η] in
/-- At the start everybody present is ahead, and nobody else. -/
theorem Ahead.begin {e : String} {n : ℕ} {b : Bus η π} (h : b.listeners e = some n) :
    Ahead e n (b.sets e n).next (b.sets e n).slots 0 b where
  made := b.numbered e n h
  newer := Nat.le_refl _
  reached := Nat.zero_le _
  present slot hmem := ⟨Nat.zero_le _, (b.sets e n).older slot hmem⟩
  sorted := (b.sets e n).sorted
  others _ hmem _ := .inl hmem

/-- `publish` delivers to the listeners present at the call, if and only if none of the listeners
added meanwhile is left when these have had their turn. -/
theorem publish_delivers_iff (handlers : Handlers η π) (s : State η π) (e : String) (payload : π) :
    Delivers handlers s e payload ↔ NoneAdded handlers s e payload := by
  rcases s.publish_cases e payload with ⟨hnobody, hpublish⟩ | ⟨n, hset, -, hpublish⟩
  · have hpresent : s.toPresent handlers e payload = (s.bus.remember e payload, s.log) := by
      unfold State.toPresent
      cases hset : (s.bus.remember e payload).listeners e with
      | none => simp only [hset]
      | some n => simp only [hset, hnobody n hset, eachPresent]
    refine iff_of_true ⟨1, { s with bus := s.bus.remember e payload, answer := 0 },
      fun fuel hfuel => ?_, by rw [hpresent]⟩ fun n hn slot hmem => ?_
    · obtain ⟨more, rfl⟩ := Nat.exists_eq_add_of_le' hfuel
      rw [State.publishAll, hpublish, State.finish, if_pos (Nat.le_refl _)]
    · rw [hpresent, hnobody n hn] at hmem
      exact absurd hmem List.not_mem_nil
  have hpresent : s.toPresent handlers e payload = eachPresent handlers e payload n
      ((s.bus.remember e payload).sets e n).slots (s.bus.remember e payload, s.log) := by
    simp only [State.toPresent, hset]
  obtain ⟨turns, cursor, notified, hahead, hfinish⟩ :=
    (Ahead.begin hset).turns handlers payload s.stack s.answer s.log 0
  have hbegin : s.publish e payload = (delivering e payload n s.stack s.answer
      (s.bus.remember e payload) s.log 0 0).proceed := hpublish
  rw [← hbegin, ← hpresent] at hfinish
  rw [← hpresent] at hahead
  cases hafter : ((s.toPresent handlers e payload).1.sets e n).after cursor with
  | none =>
      refine iff_of_true ⟨1 + turns, ⟨(s.toPresent handlers e payload).1, s.stack,
        (s.toPresent handlers e payload).2, notified⟩, fun fuel hfuel => ?_, rfl⟩
        fun n' hn' slot hmem => ?_
      · obtain ⟨more, rfl⟩ := Nat.exists_eq_add_of_le' hfuel
        rw [State.publishAll, ← Nat.add_assoc, hfinish, delivering_proceed_none hafter,
          State.finish, if_pos (Nat.le_refl _)]
      · rw [hset] at hn'
        obtain rfl := Option.some.inj hn'
        exact Nat.lt_of_lt_of_le (LiveMap.after_eq_none_iff.mp hafter slot hmem) hahead.reached
  | some slot =>
      -- somebody is left to be called, who was not there: one call too many, or no end
      refine iff_of_false ?_ fun hnone => ?_
      · rintro ⟨enough, s', hall, hlog⟩
        have hs' := hall (enough + turns) (Nat.le_add_right _ _)
        rw [State.publishAll, hfinish, delivering_proceed_some hafter] at hs'
        have hlonger := (State.log_finish hs').length_le
        rw [hlog] at hlonger
        simp [delivering] at hlonger
      · have hnew := (hahead.others slot (LiveMap.mem_of_after hafter)
          (LiveMap.le_of_after hafter)).resolve_left List.not_mem_nil
        exact absurd (hnone n hset slot (LiveMap.mem_of_after hafter)) (Nat.not_lt.mpr hnew)

end delivery

section recruiting

/-- The handler 0 subscribes the handler 1 to the event that it is called for. -/
def recruit : Handlers ℕ ℕ := fun _ log =>
  match log.getLast? with
  | some call => if call.listener = .plain 0 then [.subscribe call.eventName 1] else []
  | none => []

/-- The handler 0 alone listens. -/
def recruiter : State ℕ ℕ := { State.initial none with
  bus := (create none).subscribe "e" (.plain 0) }

/-- A listener that was not present at the call is called in the same delivery. -/
theorem publish_delivers_too_much : ¬ Delivers recruit recruiter "e" 7 := by
  rintro ⟨enough, s', hall, hlog⟩
  have hboth : (recruiter.publishAll recruit "e" 7 5).map
      (fun s => s.log.map fun call => call.listener.handler) = some [0, 1] := by
    decide +kernel
  have hpresent : (recruiter.toPresent recruit "e" 7).2.map
      (fun call => call.listener.handler) = [0] := by
    decide +kernel
  obtain ⟨t, ht, hcalled⟩ := Option.map_eq_some_iff.mp hboth
  have hsame := (hall (5 + enough) (Nat.le_add_left _ _)).symm.trans (State.finish_add ht enough)
  rw [← Option.some.inj hsame, hlog, hpresent] at hcalled
  exact absurd hcalled (by decide)

end recruiting

end EventBus

end LeaveLedger
