import LeaveLedger.EventBus.Absence
import Mathlib

/-!
# EventBus — What unsubscribe leaves

`unsubscribe(e, h)` takes one listener out of the current set of `e`: the
wrapper that is tracked for `h`, of whatever event and registration, or else
`h` itself. It is final when that is all that was left of `h` on `e`
(`Removable`).
-/

namespace LeaveLedger

open Lib

namespace EventBus

variable {η π : Type} [DecidableEq η]

/-- The listener runs the handler. -/
def Runs (h : η) (l : Listener η) : Prop := l.handler = h

/-- The label registers the handler on the event. -/
def Label.Registers (e : String) (h : η) : Label η π → Prop
  | .subscribe e' h' => e' = e ∧ h' = h
  | .subscribeOnce e' h' => e' = e ∧ h' = h
  | _ => False

/-- `unsubscribe(e, h)` would leave nothing of `h`: in the set of `e` there is no other listener
that runs `h` than the one it resolves to, no replay of `e` for `h` waits or has payloads left, and
no delivery goes over a set that the bus has dropped and still comes to `h`. -/
structure Removable (e : String) (h : η) (s : State η π) : Prop where
  tracked : ∀ n, s.bus.listeners e = some n → ∀ slot ∈ (s.bus.sets e n).slots,
    Runs h slot.key → slot.key = s.bus.resolve (.plain h)
  awaited : ∀ r ∈ s.bus.immediates, r.eventName = e → ¬ Runs h r.listener
  underway : ∀ frame ∈ s.stack, frame.Owes s.bus e (Runs h) →
    ∃ payload n cursor notified, frame = .delivery e payload n cursor notified
      ∧ s.bus.listeners e = some n

theorem Removable.gone {e : String} {h : η} {s : State η π} (hs : Removable e h s) :
    Gone e (Runs h) { s with bus := s.bus.unsubscribe e (.plain h) } where
  unlisted n hn slot hmem hruns := by
    have hsame : s.bus.listeners e = some n := by
      rcases s.bus.unsubscribe_listeners e e (.plain h) with heq | ⟨-, hnone, -⟩
      · exact heq ▸ hn
      · exact absurd (hnone.symm.trans hn) (by simp)
    obtain ⟨hmem, hother⟩ := Bus.mem_unsubscribe.mp hmem
    exact hother ⟨rfl, hsame, hs.tracked n hsame slot hmem hruns⟩
  awaited r hr := by
    rw [(s.bus.unsubscribe_rest e (.plain h)).immediates] at hr
    exact hs.awaited r hr
  underway frame hframe howes := by
    -- a delivery over the set of the event loses the one listener that `h` has there
    obtain ⟨payload, n, cursor, notified, rfl, hn⟩ :=
      hs.underway frame hframe (howes.of_noMore (.unsubscribe s.bus e _))
    obtain ⟨-, slot, hmem, -, hruns⟩ := howes
    obtain ⟨hmem, hother⟩ := Bus.mem_unsubscribe.mp hmem
    exact hother ⟨rfl, hn, hs.tracked n hn slot hmem hruns⟩

/-- After an `unsubscribe(e, h)` that is removable, and until `h` is registered on `e` again,
nothing on `e` calls `h`. -/
theorem unsubscribe_final (historyMaxSize : Option ℕ) (labels : List (Label η π))
    (s s₁ s₂ : State η π) (m : ℕ) (e : String) (h : η)
    (hrun : run step (State.initial historyMaxSize) labels = some s)
    (hat : StepAt step (State.initial historyMaxSize) labels m s₁ (.unsubscribe e h) s₂)
    (hremovable : Removable e h s₁)
    (hagain : ∀ label ∈ labels.drop (m + 1), ¬ label.Registers e h) :
    ∃ calls, s.log = s₂.log ++ calls
      ∧ ∀ call ∈ calls, ¬ (call.eventName = e ∧ call.listener.handler = h) := by
  have hgone : Gone e (Runs h) s₂ := by
    obtain rfl := Option.some.inj hat.step
    exact hremovable.gone
  have hadds : ∀ (s' : State η π) (label : Label η π), label.Adds e (Runs h) s' →
      label.Registers e h := by
    intro s' label hlabel
    cases label <;> exact hlabel
  have hmeets : Meets step (fun s label => ¬ label.Adds e (Runs h) s) s₂
      (labels.drop (m + 1)) := by
    refine meets_iff.mpr fun before label after s' heq _ hlabel => ?_
    exact hagain label (by simp [heq]) (hadds s' label hlabel)
  obtain ⟨calls, hlog, hcalls⟩ := (hgone.run hmeets (hat.after hrun)).2
  exact ⟨calls, hlog, fun call hcall hboth => hcalls call hcall hboth.1 hboth.2⟩

section tracked

/-- A handler subscribed once on one event, and for good on another, where it is removed. -/
def trackedElsewhere : List (Label ℕ ℕ) :=
  [.subscribeOnce "e1" 0, .subscribe "e2" 0, .unsubscribe "e2" 0, .publish "e2" 7]

/-- The wrapper of the one event is looked for on the other, and the handler stays. -/
theorem unsubscribe_not_final :
    ¬ ∀ (labels : List (Label ℕ ℕ)) (s s₁ s₂ : State ℕ ℕ) (m : ℕ) (e : String) (h : ℕ),
      run step (State.initial none) labels = some s →
      StepAt step (State.initial none) labels m s₁ (.unsubscribe e h) s₂ →
      (∀ label ∈ labels.drop (m + 1), ¬ label.Registers e h) →
      ∃ calls, s.log = s₂.log ++ calls
        ∧ ∀ call ∈ calls, ¬ (call.eventName = e ∧ call.listener.handler = h) := by
  intro hclaim
  have hcalled : (run step (State.initial none) trackedElsewhere).map
      (fun s => s.log.map fun call => (call.eventName, call.listener.handler))
        = some [("e2", 0)] := by
    decide +kernel
  obtain ⟨s, hrun, hlog⟩ := Option.map_eq_some_iff.mp hcalled
  obtain ⟨s₁, h₁, hrest⟩ := run_take hrun 2
  obtain ⟨s₂, h₂, h₃⟩ := run_cons_some hrest
  have hquiet : s₂.log = [] := by
    have hnone : (run step (State.initial none) (trackedElsewhere.take 3)).map
        (fun s => s.log.length) = some 0 := by
      decide +kernel
    have hupto : run step (State.initial none) (trackedElsewhere.take 3) = some s₂ := by
      show run step (State.initial none) (trackedElsewhere.take 2 ++ [.unsubscribe "e2" 0])
        = some s₂
      rw [run_append, h₁]
      simp [h₂]
    rw [hupto] at hnone
    exact List.length_eq_zero_iff.mp (Option.some.inj hnone)
  obtain ⟨calls, hcalls, hnever⟩ := hclaim trackedElsewhere s s₁ s₂ 2 "e2" 0 hrun
    ⟨h₁, rfl, h₂⟩ (by simp [trackedElsewhere, Label.Registers])
  rw [hquiet, List.nil_append] at hcalls
  obtain ⟨call, hcall, hpair⟩ :
      ∃ call ∈ s.log, (call.eventName, call.listener.handler) = ("e2", 0) :=
    List.mem_map.mp (hlog ▸ List.mem_singleton_self _)
  exact hnever call (hcalls ▸ hcall) (Prod.mk.inj hpair)

/-- A handler that is subscribed twice on an event with a history, and gets the history each
time; another is subscribed beside it. -/
def registeredTwice : List (Label ℕ ℕ) :=
  [.publish "e" 7, .subscribe "e" 0, .immediate, .returns, .subscribe "e" 1, .immediate, .returns,
    .subscribe "e" 0, .immediate, .returns, .unsubscribe "e" 0, .publish "e" 8, .returns]

/-- The removed handler has had the history twice, and only the other one gets the next payload. -/
theorem unsubscribe_final_registeredTwice :
    ∃ (s s₁ s₂ : State ℕ ℕ), run step (State.initial (some 2)) registeredTwice = some s
      ∧ s.log.map (fun call => (call.listener.handler, call.payload))
        = [(0, 7), (1, 7), (0, 7), (1, 8)]
      ∧ StepAt step (State.initial (some 2)) registeredTwice 10 s₁ (.unsubscribe "e" 0) s₂
      ∧ ∃ calls, s.log = s₂.log ++ calls
        ∧ ∀ call ∈ calls, ¬ (call.eventName = "e" ∧ call.listener.handler = 0) := by
  have hcalled : (run step (State.initial (some 2)) registeredTwice).map
      (fun s => s.log.map fun call => (call.listener.handler, call.payload))
        = some [(0, 7), (1, 7), (0, 7), (1, 8)] := by
    decide +kernel
  have hbefore : (run step (State.initial (some 2)) (registeredTwice.take 10)).map (fun s =>
      decide (s.stack.length = 0 ∧ s.bus.immediates.length = 0 ∧ s.bus.listeners "e" = some 0
        ∧ (s.bus.sets "e" 0).slots.map Slot.key = [.plain 0, .plain 1]
        ∧ s.bus.resolve (.plain 0) = .plain 0)) = some true := by
    decide +kernel
  obtain ⟨s, hrun, hlog⟩ := Option.map_eq_some_iff.mp hcalled
  obtain ⟨s₁, h₁, hrest⟩ := run_take hrun 10
  obtain ⟨s₂, h₂, -⟩ := run_cons_some hrest
  rw [h₁, Option.map_some] at hbefore
  obtain ⟨hstack, himm, hset, hkeys, hresolve⟩ := of_decide_eq_true (Option.some.inj hbefore)
  have hremovable : Removable "e" 0 s₁ := by
    refine ⟨fun n hn slot hmem hruns => ?_, fun r hr => ?_, fun frame hframe => ?_⟩
    · cases hset.symm.trans hn
      have hkey : slot.key ∈ [Listener.plain 0, .plain 1] := hkeys ▸ List.mem_map_of_mem hmem
      rw [hresolve]
      simp only [List.mem_cons, List.not_mem_nil, or_false] at hkey
      rcases hkey with hkey | hkey
      · exact hkey
      · rw [hkey] at hruns
        cases hruns
    · rw [List.length_eq_zero_iff.mp himm] at hr
      cases hr
    · rw [List.length_eq_zero_iff.mp hstack] at hframe
      cases hframe
  exact ⟨s, s₁, s₂, hrun, hlog, ⟨h₁, rfl, h₂⟩,
    unsubscribe_final (some 2) registeredTwice s s₁ s₂ 10 "e" 0 hrun ⟨h₁, rfl, h₂⟩ hremovable
      (by simp [registeredTwice, Label.Registers])⟩

end tracked

end EventBus

end LeaveLedger
