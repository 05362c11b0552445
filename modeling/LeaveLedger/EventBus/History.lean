import LeaveLedger.Common.EventBus
import LeaveLedger.Lib.Samples
import Mathlib

/-!
# EventBus — What the history remembers

After any run the buffer of an event has the last payloads published on it
since it was cleared, as many as it may have (`remembers_run`), and an event
has a buffer when there are any.
-/

namespace LeaveLedger

open Lib

namespace EventBus

variable {η π : Type}

/-- What has been published on an event and not been cleared, after one more label. -/
def Label.record (e : String) (published : List π) : Label η π → List π
  | .publish e' payload => if e' = e then published ++ [payload] else published
  | .clear named => if Clears e named then [] else published
  | _ => published

/-- What the labels publish on an event since it was last cleared. -/
def published (e : String) (labels : List (Label η π)) : List π :=
  labels.foldl (Label.record e) []

/-- The buffer has the last `n` of them. -/
structure Remembers (e : String) (n : ℕ) (published : List π) (b : Bus η π) : Prop where
  size : b.historyMaxSize = n
  nothing : published = [] → b.history e = none
  last : published ≠ [] → ∃ k, b.history e = some k ∧ b.buffers e k = published.rtake n

/-- `b'` has the same history of the event. -/
structure Bus.SameHistory (e : String) (b b' : Bus η π) : Prop where
  size : b'.historyMaxSize = b.historyMaxSize
  history : b'.history e = b.history e
  buffers : b'.buffers e = b.buffers e

section
variable {e : String} {n : ℕ} {past : List π} {b b' : Bus η π}

theorem Bus.SameHistory.trans {b'' : Bus η π} (h : b.SameHistory e b') (h' : b'.SameHistory e b'') :
    b.SameHistory e b'' :=
  ⟨h'.size.trans h.size, h'.history.trans h.history, h'.buffers.trans h.buffers⟩

theorem Bus.SameHistory.of_rest (h : b.SameRest b') : b.SameHistory e b' :=
  ⟨h.historyMaxSize, congrFun h.history e, congrFun h.buffers e⟩

theorem Bus.SameHistory.remember (b : Bus η π) {e' : String} (he : e ≠ e') (payload : π) :
    b.SameHistory e (b.remember e' payload) := by
  unfold Bus.remember
  split
  · exact ⟨rfl, Function.update_of_ne he _ _, Function.update_of_ne he _ _⟩
  · exact ⟨rfl, rfl, rfl⟩

theorem Bus.SameHistory.clear (b : Bus η π) {named : Option String} (h : ¬ Clears e named) :
    b.SameHistory e (b.clear named) :=
  ⟨clear_historyMaxSize, (clear_of_not_clears h).2, by rw [clear_buffers]⟩

theorem Remembers.of_same (h : Remembers e n past b) (hsame : b.SameHistory e b') :
    Remembers e n past b' where
  size := hsame.size.trans h.size
  nothing hnil := hsame.history.trans (h.nothing hnil)
  last hne := by
    obtain ⟨k, hk, hbuffer⟩ := h.last hne
    exact ⟨k, hsame.history.trans hk, by rw [hsame.buffers, hbuffer]⟩

theorem Remembers.remember (h : Remembers e n past b) (hn : 0 < n) (payload : π) :
    Remembers e n (past ++ [payload]) (b.remember e payload) := by
  have hbuffer : ((b.history e).map (b.buffers e)).getD [] = past.rtake n := by
    by_cases hnil : past = []
    · simp [h.nothing hnil, hnil, List.rtake]
    · obtain ⟨k, hk, hlast⟩ := h.last hnil
      simp [hk, hlast]
  have hsize : 0 < b.historyMaxSize := h.size ▸ hn
  unfold Bus.remember
  rw [if_pos hsize]
  refine ⟨h.size, fun hnil => absurd hnil (by simp), fun _ => ⟨_, Function.update_self .., ?_⟩⟩
  simp only [Function.update_self, hbuffer, h.size]
  exact rtake_concat hn past payload

theorem Remembers.clear (h : Remembers e n past b) {named : Option String}
    (hclears : Clears e named) : Remembers e n [] (b.clear named) where
  size := Bus.clear_historyMaxSize.trans h.size
  nothing _ := (Bus.clear_of_clears hclears).2
  last hne := absurd rfl hne

end

section steps
variable [DecidableEq η] {e : String} {n : ℕ} {past : List π} {s s' : State η π}

theorem Bus.SameHistory.proceed (s : State η π) : s.bus.SameHistory e s.proceed.bus := by
  rcases s.proceed_cases with ⟨-, heq⟩ | ⟨frame, rest, call, frame', -, -, heq⟩
    | ⟨frame, rest, answer, -, -, heq⟩
  · rw [heq]
    exact ⟨rfl, rfl, rfl⟩
  · rw [heq]
    exact .of_rest (s.bus.enter_rest call.listener)
  · rw [heq]
    exact ⟨rfl, rfl, rfl⟩

/-- Beyond the ring buffer, `publish` does not touch the history. -/
theorem Bus.SameHistory.publish (s : State η π) (e' : String) (payload : π) :
    (s.bus.remember e' payload).SameHistory e (s.publish e' payload).bus := by
  rcases s.publish_cases e' payload with ⟨-, heq⟩ | ⟨n, -, -, heq⟩
  · rw [heq]
    exact ⟨rfl, rfl, rfl⟩
  · rw [heq]
    exact .proceed { s with bus := s.bus.remember e' payload, stack := _ :: s.stack }

theorem Bus.SameHistory.subscribe (b : Bus η π) (e' : String) (l : Listener η) :
    b.SameHistory e (b.subscribe e' l) := by
  obtain ⟨-, hhistory, hbuffers, hsize⟩ := b.subscribe_history e' l
  exact ⟨hsize, congrFun hhistory e, congrFun hbuffers e⟩

theorem Remembers.step (h : Remembers e n past s.bus) (hn : 0 < n) {label : Label η π}
    (hstep : step s label = some s') : Remembers e n (label.record e past) s'.bus := by
  cases label with
  | subscribe e' h' =>
      cases hstep
      exact h.of_same (.subscribe s.bus e' _)
  | subscribeOnce e' h' =>
      cases hstep
      have hsub := Bus.SameHistory.subscribe (e := e) (s.bus.track ⟨s.bus.wrappersMade, e', h'⟩) e'
        (.once ⟨s.bus.wrappersMade, e', h'⟩)
      exact h.of_same ⟨hsub.size, hsub.history, hsub.buffers⟩
  | unsubscribe e' h' =>
      cases hstep
      exact h.of_same (.of_rest (s.bus.unsubscribe_rest e' _))
  | publish e' payload =>
      cases hstep
      simp only [Label.record]
      split
      case isTrue he =>
        subst he
        exact (h.remember hn payload).of_same (.publish s e' payload)
      case isFalse he =>
        exact h.of_same ((Bus.SameHistory.remember s.bus (Ne.symm he) payload).trans
          (.publish s e' payload))
  | clear named =>
      cases hstep
      simp only [Label.record]
      split
      case isTrue hclears => exact h.clear hclears
      case isFalse hclears => exact h.of_same (.clear s.bus hclears)
  | returns =>
      obtain rfl := step_returns hstep
      exact h.of_same (.proceed s)
  | throws =>
      obtain ⟨frame, rest, -, rfl⟩ := step_throws hstep
      exact h
  | immediate =>
      obtain ⟨r, rest, -, -, rfl⟩ := step_immediate hstep
      have hleft : Remembers e n past { s.bus with immediates := rest } :=
        ⟨h.size, h.nothing, h.last⟩
      exact hleft.of_same (.proceed { s with
        bus := { s.bus with immediates := rest }
        stack := r.frame { s.bus with immediates := rest } :: s.stack })

theorem Remembers.run (h : Remembers e n past s.bus) (hn : 0 < n) {labels : List (Label η π)}
    (hrun : run EventBus.step s labels = some s') :
    Remembers e n (labels.foldl (Label.record e) past) s'.bus := by
  induction labels generalizing s past with
  | nil =>
      cases hrun
      exact h
  | cons label labels ih =>
      obtain ⟨s₁, hstep, hrest⟩ := run_cons_some hrun
      exact ih (h.step hn hstep) hrest

/-- The history of an event after a run from the beginning. -/
theorem remembers_run {labels : List (Label η π)} (hn : 0 < n)
    (hrun : run EventBus.step (State.initial (some n)) labels = some s) :
    Remembers e n (published e labels) s.bus :=
  Remembers.run ⟨rfl, fun _ => rfl, fun hne => absurd rfl hne⟩ hn hrun

end steps

end EventBus

end LeaveLedger
