import LeaveLedger.EventBus.Absence
import Mathlib

/-!
# EventBus — Listeners for one call

A wrapper of `subscribeOnce` leaves the set of its event before it runs its
handler, which bounds the calls by publications. A replay calls it for every
payload of the buffer, whether it has left or not; so a wrapper runs at most
once when each replay finds no more than what it may still run for.
-/

namespace LeaveLedger

open Lib

namespace EventBus

variable {η π : Type} [DecidableEq η]

/-- How often the wrapper has been called. -/
def State.firings (s : State η π) (w : Wrapper η) : ℕ :=
  (s.log.filter fun call => call.listener = .once w).length

/-! ## Wrappers are new -/

section wrappersMade
variable {s s' : State η π}

@[simp] theorem Bus.subscribe_wrappersMade (b : Bus η π) (e : String) (l : Listener η) :
    (b.subscribe e l).wrappersMade = b.wrappersMade := by
  unfold subscribe ensureSet changeSet
  simp only
  split <;> split <;> split <;> (try split) <;> rfl

@[simp] theorem State.proceed_wrappersMade (s : State η π) :
    s.proceed.bus.wrappersMade = s.bus.wrappersMade := by
  rcases s.proceed_cases with ⟨-, heq⟩ | ⟨frame, rest, call, frame', -, -, heq⟩
    | ⟨frame, rest, answer, -, -, heq⟩
  · rw [heq]
  · rw [heq]
    exact (s.bus.enter_rest call.listener).wrappersMade
  · rw [heq]

/-- Only `subscribeOnce` makes wrappers. -/
theorem step_wrappersMade {label : Label η π} (hstep : step s label = some s') :
    s'.bus.wrappersMade = s.bus.wrappersMade
      ∨ ∃ e h, label = .subscribeOnce e h ∧ s'.bus.wrappersMade = s.bus.wrappersMade + 1 := by
  cases label with
  | subscribe e h =>
      cases hstep
      exact .inl (Bus.subscribe_wrappersMade ..)
  | subscribeOnce e h =>
      cases hstep
      exact .inr ⟨e, h, rfl, Bus.subscribe_wrappersMade ..⟩
  | unsubscribe e h =>
      cases hstep
      exact .inl (s.bus.unsubscribe_rest e _).wrappersMade
  | publish e payload =>
      cases hstep
      left
      rcases s.publish_cases e payload with ⟨-, heq⟩ | ⟨n, -, -, heq⟩ <;> simp [heq]
  | clear named =>
      cases hstep
      exact .inl Bus.clear_wrappersMade
  | returns =>
      obtain rfl := step_returns hstep
      exact .inl s.proceed_wrappersMade
  | throws =>
      obtain ⟨frame, rest, -, rfl⟩ := step_throws hstep
      exact .inl rfl
  | immediate =>
      obtain ⟨r, rest, -, -, rfl⟩ := step_immediate hstep
      exact .inl (State.proceed_wrappersMade _)

/-- The listener is the wrapper. -/
def IsOnce (w : Wrapper η) (l : Listener η) : Prop := l = .once w

omit [DecidableEq η] in
/-- Nobody adds a wrapper but the `subscribeOnce` that makes it. -/
theorem Label.not_adds {e : String} {w : Wrapper η} {label : Label η π}
    (h : ∀ e' h', label = .subscribeOnce e' h' → w.number ≠ s.bus.wrappersMade ∨ e' ≠ e) :
    ¬ label.Adds e (IsOnce w) s := by
  cases label with
  | subscribe e' h' => exact fun hadds => absurd hadds.2 (by simp [IsOnce])
  | subscribeOnce e' h' =>
      rintro ⟨he, hw⟩
      have hnumber : s.bus.wrappersMade = w.number :=
        congrArg Wrapper.number (Listener.once.inj hw)
      rcases h e' h' rfl with hne | hne
      · exact hne hnumber.symm
      · exact hne he
  | _ => exact id

/-- A wrapper that is still to be made is nowhere. -/
structure Unmade (w : Wrapper η) (s : State η π) : Prop where
  nowhere : ∀ e, Gone e (IsOnce w) s
  uncalled : s.firings w = 0

theorem Uncalled.firings_eq {w : Wrapper η}
    (h : ∀ e, Uncalled e (IsOnce w) s s') : s'.firings w = s.firings w := by
  obtain ⟨calls, hlog, -⟩ := h ""
  have hnone : calls.filter (fun call => decide (call.listener = .once w)) = [] := by
    refine List.filter_eq_nil_iff.mpr fun call hcall hw => ?_
    obtain ⟨calls', hlog', hcalls'⟩ := h call.eventName
    have hsame : calls = calls' := List.append_cancel_left (hlog.symm.trans hlog')
    have honce : call.listener = .once w := of_decide_eq_true hw
    exact hcalls' call (hsame ▸ hcall) rfl honce
  unfold State.firings
  rw [hlog, List.filter_append, hnone, List.append_nil]

theorem unmade_run {historyMaxSize : Option ℕ} {labels : List (Label η π)}
    (hrun : run step (State.initial historyMaxSize) labels = some s) :
    ∀ w : Wrapper η, s.bus.wrappersMade ≤ w.number → Unmade w s := by
  refine run_induct (I := fun s : State η π => ∀ w : Wrapper η, s.bus.wrappersMade ≤ w.number →
    Unmade w s) (fun s label s' hs hstep w hle => ?_) ?_ hrun
  · have hmade : s.bus.wrappersMade ≤ w.number := by
      rcases step_wrappersMade hstep with h | ⟨-, -, -, h⟩ <;> omega
    have hadds : ∀ e, ¬ label.Adds e (IsOnce w) s := by
      refine fun e => Label.not_adds fun e' h' hlabel => .inl ?_
      rcases step_wrappersMade hstep with h | ⟨-, -, -, h⟩
      · cases hlabel
        cases hstep
        have : (s.bus.subscribeOnce e' h').wrappersMade = s.bus.wrappersMade + 1 :=
          Bus.subscribe_wrappersMade ..
        simp only at h
        omega
      · omega
    have hstepped := fun e => ((hs w hmade).nowhere e).step (hadds e) hstep
    exact ⟨fun e => (hstepped e).1,
      (Uncalled.firings_eq fun e => (hstepped e).2).trans (hs w hmade).uncalled⟩
  · exact fun w _ => ⟨fun e => .initial e _ historyMaxSize, rfl⟩

end wrappersMade

/-! ## One call -/

/-- What holds of a wrapper from the call of `subscribeOnce` on: who still comes to it goes over
the set that its event has, and when it has been called, the event does not have it any more. -/
structure OneShot (w : Wrapper η) (s : State η π) : Prop where
  underway : ∀ frame ∈ s.stack, frame.Owes s.bus w.eventName (IsOnce w) →
    ∃ payload n cursor notified, frame = .delivery w.eventName payload n cursor notified
      ∧ s.bus.listeners w.eventName = some n
  fired : s.firings w ≤ 1
  spent : s.firings w = 1 → ∀ n, s.bus.listeners w.eventName = some n →
    ∀ slot ∈ (s.bus.sets w.eventName n).slots, ¬ IsOnce w slot.key

section oneShot
variable {w : Wrapper η} {s s' : State η π} {b' : Bus η π}

theorem OneShot.of_bus (h : OneShot w s) (hnoMore : s.bus.NoMore w.eventName (IsOnce w) b')
    (hkeeps : s.bus.Keeps w.eventName (IsOnce w) b') : OneShot w { s with bus := b' } where
  underway frame hframe howes := by
    obtain ⟨payload, n, cursor, notified, rfl, hn⟩ :=
      h.underway frame hframe (howes.of_noMore hnoMore)
    obtain ⟨-, slot, hmem, -, hw⟩ := howes
    exact ⟨payload, n, cursor, notified, rfl, hkeeps n hn ⟨slot, hmem, hw⟩⟩
  fired := h.fired
  spent hone n hn slot hmem hw :=
    h.spent hone n (hnoMore.current n hn slot hmem hw) slot (hnoMore.slots n slot hmem hw) hw

/-- The loops under way are some of those, or deliveries to the sets that events have. -/
theorem OneShot.of_stack (h : OneShot w s) {stack : List (Frame η π)} {answer : ℕ}
    (hstack : ∀ frame ∈ stack, frame ∈ s.stack ∨ ¬ frame.Owes s.bus w.eventName (IsOnce w)
      ∨ ∃ e payload n cursor notified, frame = .delivery e payload n cursor notified
        ∧ s.bus.listeners e = some n) :
    OneShot w { s with stack := stack, answer := answer } where
  underway frame hframe howes := by
    rcases hstack frame hframe with hold | hnot | ⟨e, payload, n, cursor, notified, rfl, hn⟩
    · exact h.underway frame hold howes
    · exact absurd howes hnot
    · obtain ⟨rfl, -⟩ := howes
      exact ⟨payload, n, cursor, notified, rfl, hn⟩
  fired := h.fired
  spent := h.spent

/-- The wrapper is called for the first time, while those who still come to it go over the set of
its event. -/
theorem OneShot.called (h : OneShot w s) (hfirst : s.firings w = 0) (call : Invocation η π)
    (hcall : call.listener = .once w) :
    OneShot w { s with
      bus := s.bus.enter (.once w)
      log := s.log ++ [call] } := by
  have hgone : ∀ n, s.bus.listeners w.eventName = some n →
      ∀ slot ∈ ((s.bus.enter (.once w)).sets w.eventName n).slots, ¬ IsOnce w slot.key := by
    intro n hn slot hmem hw
    exact (Bus.mem_unsubscribe.mp hmem).2 ⟨rfl, hn, hw⟩
  have hnoMore : s.bus.NoMore w.eventName (IsOnce w) (s.bus.enter (.once w)) := .enter _ _
  have hcount : (s.log ++ [call]).filter (fun call => decide (call.listener = .once w))
      = s.log.filter (fun call => decide (call.listener = .once w)) ++ [call] := by
    simp [List.filter_append, hcall]
  refine ⟨fun frame hframe howes => ?_, ?_, fun _ n hn slot hmem hw => ?_⟩
  · obtain ⟨payload, n, cursor, notified, rfl, hn⟩ :=
      h.underway frame hframe (howes.of_noMore hnoMore)
    obtain ⟨-, slot, hmem, -, hw⟩ := howes
    exact absurd hw (hgone n hn slot hmem)
  · unfold State.firings at hfirst ⊢
    rw [hcount, List.length_append, hfirst, List.length_singleton]
  · exact hgone n (hnoMore.current n hn slot hmem hw) slot hmem hw

/-- Somebody else is called. -/
theorem OneShot.otherCalled (h : OneShot w s) (call : Invocation η π)
    (hcall : call.listener ≠ .once w) :
    OneShot w { s with
      bus := s.bus.enter call.listener
      log := s.log ++ [call] } := by
  have hcount : ({ s with log := s.log ++ [call] } : State η π).firings w = s.firings w := by
    simp [State.firings, List.filter_append, hcall]
  have hlogged : OneShot w { s with log := s.log ++ [call] } :=
    ⟨h.underway, hcount ▸ h.fired, hcount ▸ h.spent⟩
  exact hlogged.of_bus (.enter s.bus call.listener) (.enter s.bus call.listener)

omit [DecidableEq η] in
/-- A delivery goes on over the same set. -/
theorem Frame.next_delivery {b : Bus η π} {e : String} {payload : π} {n cursor notified : ℕ}
    {call : Invocation η π} {frame' : Frame η π}
    (h : (Frame.delivery e payload n cursor notified).next b = some (call, frame')) :
    ∃ slot, (b.sets e n).after cursor = some slot ∧ call = ⟨e, slot.key, payload⟩
      ∧ frame' = .delivery e payload n (slot.stamp + 1) (notified + 1) := by
  obtain ⟨slot, hafter, heq⟩ := Option.map_eq_some_iff.mp h
  obtain ⟨rfl, rfl⟩ := Prod.mk.inj heq
  exact ⟨slot, hafter, rfl, rfl⟩

theorem OneShot.proceed (h : OneShot w s)
    (helsewhere : ∀ e, e ≠ w.eventName → Gone e (IsOnce w) s) : OneShot w s.proceed := by
  rcases s.proceed_cases with ⟨-, heq⟩ | ⟨frame, rest, call, frame', hstack, hnext, heq⟩
    | ⟨frame, rest, answer, hstack, -, heq⟩
  · rwa [heq]
  · rw [heq]
    have hmem : frame ∈ s.stack := by simp [hstack]
    have hadvanced : OneShot w { s with stack := frame' :: rest } := by
      refine h.of_stack fun f hf => ?_
      rcases List.mem_cons.mp hf with rfl | hf
      · by_cases howes : frame.Owes s.bus w.eventName (IsOnce w)
        · obtain ⟨payload, n, cursor, notified, rfl, hn⟩ := h.underway frame hmem howes
          obtain ⟨slot, -, -, rfl⟩ := Frame.next_delivery hnext
          exact .inr (.inr ⟨_, _, n, _, _, rfl, hn⟩)
        · exact .inr (.inl fun hf => howes ((Frame.owes_of_next hnext).2 hf))
      · exact .inl (by simp [hstack, hf])
    by_cases hw : call.listener = .once w
    · have hevent : call.eventName = w.eventName := by
        by_contra hne
        exact (helsewhere call.eventName hne).underway frame hmem
          ((Frame.owes_of_next hnext).1 rfl hw)
      have howes : frame.Owes s.bus w.eventName (IsOnce w) :=
        (Frame.owes_of_next hnext).1 hevent hw
      -- a wrapper that has been called is in no set that it could be called from
      have hfirst : s.firings w = 0 := by
        have hone := h.fired
        by_contra hne
        obtain ⟨payload, n, cursor, notified, rfl, hn⟩ := h.underway frame hmem howes
        obtain ⟨-, slot, hslot, -, hkey⟩ := howes
        exact h.spent (by omega) n hn slot hslot hkey
      have hcalled := hadvanced.called hfirst call hw
      rw [← hw] at hcalled
      exact hcalled
    · exact hadvanced.otherCalled call hw
  · rw [heq]
    exact h.of_stack fun f hf => .inl (hstack ▸ List.mem_cons_of_mem _ hf)

/-- Clearing other events, or when nobody under way still comes to the wrapper. -/
theorem OneShot.clear (h : OneShot w s) {named : Option String}
    (hbear : Clears w.eventName named →
      ∀ frame ∈ s.stack, ¬ frame.Owes s.bus w.eventName (IsOnce w)) :
    OneShot w { s with bus := s.bus.clear named } := by
  have hnoMore : s.bus.NoMore w.eventName (IsOnce w) (s.bus.clear named) := .clear s.bus named
  by_cases hclears : Clears w.eventName named
  · refine ⟨fun frame hframe howes => ?_, h.fired, fun hone n hn slot hmem hw => ?_⟩
    · exact absurd (howes.of_noMore hnoMore) (hbear hclears frame hframe)
    · exact h.spent hone n (hnoMore.current n hn slot hmem hw) slot
        (hnoMore.slots n slot hmem hw) hw
  · exact h.of_bus hnoMore fun n hn _ => (Bus.clear_of_not_clears hclears).1.trans hn

theorem OneShot.publish (h : OneShot w s)
    (helsewhere : ∀ e, e ≠ w.eventName → Gone e (IsOnce w) s) (e : String) (payload : π) :
    OneShot w (s.publish e payload) := by
  have hbus : OneShot w { s with bus := s.bus.remember e payload } :=
    h.of_bus (.remember s.bus e payload) (.remember s.bus e payload)
  have hbusElsewhere : ∀ e', e' ≠ w.eventName →
      Gone e' (IsOnce w) { s with bus := s.bus.remember e payload } :=
    fun e' he' => (helsewhere e' he').of_noMore (.remember s.bus e payload)
  rcases s.publish_cases e payload with ⟨-, heq⟩ | ⟨n, hn, -, heq⟩
  · rw [heq]
    exact ⟨hbus.underway, hbus.fired, hbus.spent⟩
  · rw [heq]
    refine OneShot.proceed (hbus.of_stack fun f hf => ?_) fun e' he' => ?_
    · rcases List.mem_cons.mp hf with rfl | hf
      · exact .inr (.inr ⟨e, payload, n, 0, 0, rfl, hn⟩)
      · exact .inl hf
    · exact (hbusElsewhere e' he').push ((hbusElsewhere e' he').not_owes hn payload 0 0)

/-- A replay runs with nothing else under way. When it is for the wrapper, it finds no more payloads
than the wrapper may still be called for. -/
theorem OneShot.startReplay (h : OneShot w s)
    (helsewhere : ∀ e, e ≠ w.eventName → Gone e (IsOnce w) s) (hstack : s.stack = [])
    {r : Replay η} (hr : IsOnce w r.listener → r.eventName = w.eventName
      ∧ (s.bus.buffers r.eventName r.past).length + s.firings w ≤ 1) :
    OneShot w (s.startReplay r) := by
  by_cases hw : IsOnce w r.listener
  · obtain ⟨hevent, hfew⟩ := hr hw
    unfold State.startReplay
    rcases State.proceed_cases { s with stack := r.frame s.bus :: s.stack } with
      ⟨hnil, -⟩ | ⟨frame, rest, call, frame', hpushed, hnext, heq⟩
        | ⟨frame, rest, answer, hpushed, -, heq⟩
    · cases hnil
    · obtain ⟨rfl, rfl⟩ := List.cons.inj hpushed
      obtain ⟨payload, hget, hpair⟩ := Option.map_eq_some_iff.mp hnext
      obtain ⟨rfl, rfl⟩ := Prod.mk.inj hpair
      -- the one payload there is, so that the loop has come to its end
      have hsome : 0 < (s.bus.buffers r.eventName r.past).length := by
        have := (List.getElem?_eq_some_iff.mp hget).1
        rw [List.length_take] at this
        omega
      have hdone : OneShot w { s with stack := [.replay r.eventName r.past r.listener 1
          (s.bus.buffers r.eventName r.past).length] } := by
        refine h.of_stack fun f hf => .inr (.inl ?_)
        obtain rfl := List.mem_singleton.mp hf
        rintro ⟨-, -, hlt⟩
        omega
      have hcalled := hdone.called (show s.firings w = 0 by omega)
        ⟨r.eventName, r.listener, payload⟩ hw
      rw [heq, hstack]
      simp only [show r.listener = .once w from hw] at hcalled ⊢
      exact hcalled
    · obtain ⟨rfl, rfl⟩ := List.cons.inj hpushed
      rw [heq]
      exact h.of_stack fun f hf => .inl hf
  · have hnot : ∀ e, ¬ (r.frame s.bus).Owes s.bus e (IsOnce w) := fun e howes => hw howes.2.1
    refine OneShot.proceed (h.of_stack fun f hf => ?_) fun e he => (helsewhere e he).push (hnot e)
    rcases List.mem_cons.mp hf with rfl | hf
    · exact .inr (.inl (hnot _))
    · exact .inl hf

end oneShot

/-! ## Runs -/

/-- The step is one that a wrapper can bear: a replay for it that starts finds at most one payload,
and none when the wrapper has been called; and its event is not cleared by a handler while a
delivery is under way that still comes to it. -/
def Bearable (w : Wrapper η) (s : State η π) : Label η π → Prop
  | .immediate => ∀ r rest, s.bus.immediates = r :: rest → r.listener = .once w →
      (s.bus.buffers r.eventName r.past).length + s.firings w ≤ 1
  | .clear named => Clears w.eventName named →
      ∀ frame ∈ s.stack, ¬ frame.Owes s.bus w.eventName (IsOnce w)
  | _ => True

/-- A wrapper that has been made. -/
structure Made (w : Wrapper η) (s : State η π) : Prop where
  made : w.number < s.bus.wrappersMade
  elsewhere : ∀ e, e ≠ w.eventName → Gone e (IsOnce w) s
  oneShot : OneShot w s

section runs
variable {w : Wrapper η} {s s' : State η π}

theorem Made.step (h : Made w s) {label : Label η π} (hbear : Bearable w s label)
    (hstep : step s label = some s') : Made w s' := by
  have hadds : ∀ e, e ≠ w.eventName → ¬ label.Adds e (IsOnce w) s :=
    fun e _ => Label.not_adds fun _ _ _ => .inl (Nat.ne_of_lt h.made)
  have hmade : w.number < s'.bus.wrappersMade := by
    have := h.made
    rcases step_wrappersMade hstep with heq | ⟨-, -, -, heq⟩ <;> omega
  refine ⟨hmade, fun e he => ((h.elsewhere e he).step (hadds e he) hstep).1, ?_⟩
  have hone := h.oneShot
  cases label with
  | subscribe e h' =>
      cases hstep
      exact hone.of_bus (.subscribe s.bus fun _ hw => by cases hw) (.subscribe s.bus e _)
  | subscribeOnce e h' =>
      cases hstep
      have hother : e = w.eventName → ¬ IsOnce w (.once ⟨s.bus.wrappersMade, e, h'⟩) := by
        rintro - hw
        have hnumber := congrArg Wrapper.number (Listener.once.inj hw)
        exact absurd hnumber (Nat.ne_of_gt h.made)
      exact hone.of_bus (.subscribeOnce s.bus hother) (.subscribe (s.bus.track _) e _)
  | unsubscribe e h' =>
      cases hstep
      exact hone.of_bus (.unsubscribe s.bus e _) (.unsubscribe s.bus e _)
  | publish e payload =>
      cases hstep
      exact hone.publish h.elsewhere e payload
  | clear named =>
      cases hstep
      exact hone.clear hbear
  | returns =>
      obtain rfl := step_returns hstep
      exact hone.proceed h.elsewhere
  | throws =>
      obtain ⟨frame, rest, hstack, rfl⟩ := step_throws hstep
      exact hone.of_stack fun f hf => .inl (hstack ▸ List.mem_cons_of_mem _ hf)
  | immediate =>
      obtain ⟨r, rest, hstack, himm, rfl⟩ := step_immediate hstep
      have hleft : OneShot w { s with bus := { s.bus with immediates := rest } } :=
        ⟨hone.underway, hone.fired, hone.spent⟩
      refine hleft.startReplay (fun e he => ?_) hstack fun hw => ⟨?_, hbear r rest himm hw⟩
      · exact ⟨(h.elsewhere e he).unlisted, fun r' hr' =>
          (h.elsewhere e he).awaited r' (himm ▸ List.mem_cons_of_mem _ hr'),
          (h.elsewhere e he).underway⟩
      · by_contra hne
        exact (h.elsewhere _ hne).awaited r (himm ▸ List.mem_cons_self ..) rfl hw

theorem Unmade.made {e : String} {h : η} (hs : Unmade ⟨s.bus.wrappersMade, e, h⟩ s) :
    Made ⟨s.bus.wrappersMade, e, h⟩ { s with bus := s.bus.subscribeOnce e h } := by
  have hmade : (s.bus.subscribeOnce e h).wrappersMade = s.bus.wrappersMade + 1 :=
    Bus.subscribe_wrappersMade ..
  refine ⟨?_, fun e' he' => ?_, ?_, ?_, ?_⟩
  · show s.bus.wrappersMade < (s.bus.subscribeOnce e h).wrappersMade
    omega
  · exact (hs.nowhere e').of_noMore (.subscribeOnce s.bus fun he => absurd he.symm he')
  · -- only a delivery to the set it joins can come to a new wrapper
    intro frame hframe howes
    cases frame with
    | replay => exact absurd howes ((hs.nowhere e).underway _ hframe)
    | delivery e' payload n cursor notified =>
        obtain ⟨rfl, slot, hmem, hle, hw⟩ := howes
        rcases Bus.mem_subscribe hmem with hold | ⟨-, hn, -⟩
        · exact absurd ⟨rfl, slot, hold, hle, hw⟩ ((hs.nowhere _).underway _ hframe)
        · exact ⟨payload, n, cursor, notified, rfl, hn⟩
  · exact hs.uncalled.le.trans (Nat.zero_le 1)
  · exact fun hone => absurd (hs.uncalled.symm.trans hone) (by decide)

/-- The wrapper that a call of `subscribeOnce` makes is called at most once, in every run whose
steps it can bear. -/
theorem once_fires_at_most_once (historyMaxSize : Option ℕ) (before after : List (Label η π))
    (s₁ s₂ s₃ : State η π) (e : String) (h : η)
    (hbefore : run step (State.initial historyMaxSize) before = some s₁)
    (hstep : step s₁ (.subscribeOnce e h) = some s₂)
    (hbear : Meets step (Bearable ⟨s₁.bus.wrappersMade, e, h⟩) s₂ after)
    (hafter : run step s₂ after = some s₃) :
    s₃.firings ⟨s₁.bus.wrappersMade, e, h⟩ ≤ 1 := by
  cases hstep
  have hmade := (unmade_run hbefore ⟨s₁.bus.wrappersMade, e, h⟩ (Nat.le_refl _)).made
  exact (run_meets (fun _ _ _ hs hC hstep => hs.step hC hstep) hmade hbear hafter).oneShot.fired

/-- The replay of two payloads calls the wrapper twice. -/
theorem once_fires_twice :
    ¬ ∀ (historyMaxSize : Option ℕ) (before after : List (Label ℕ ℕ)) (s₁ s₂ s₃ : State ℕ ℕ)
      (e : String) (h : ℕ), run step (State.initial historyMaxSize) before = some s₁ →
      step s₁ (.subscribeOnce e h) = some s₂ → run step s₂ after = some s₃ →
      s₃.firings ⟨s₁.bus.wrappersMade, e, h⟩ ≤ 1 := by
  intro hclaim
  have honce := hclaim (some 2) [.publish "e" 7, .publish "e" 8] [.immediate, .returns] _ _ _ "e" 0
    rfl rfl rfl
  exact absurd honce (by decide +kernel)

/-- A replay of one payload, before anything else is published. -/
theorem once_fires_at_most_once_replayed :
    ∃ (s₁ s₂ s₃ : State ℕ ℕ),
      run step (State.initial (some 2)) [.publish "e" 7] = some s₁
      ∧ step s₁ (.subscribeOnce "e" 0) = some s₂
      ∧ run step s₂ [.immediate, .returns] = some s₃
      ∧ s₃.firings ⟨s₁.bus.wrappersMade, "e", 0⟩ ≤ 1 := by
  refine ⟨_, _, _, rfl, rfl, rfl, ?_⟩
  refine once_fires_at_most_once (some 2) [.publish "e" 7] [.immediate, .returns] _ _ _ "e" 0
    rfl rfl ⟨fun r rest himm _ => ?_, fun s' _ => ⟨trivial, fun _ _ => trivial⟩⟩ rfl
  obtain ⟨rfl, -⟩ := List.cons.inj himm
  decide +kernel

end runs

end EventBus

end LeaveLedger
