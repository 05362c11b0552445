import LeaveLedger.Common.EventBus
import Mathlib

/-!
# EventBus — Listeners that are gone

When an event has no listener of a kind, no replay for one waits and no loop
under way comes to one (`Gone`), then that stays so, and none is called on
the event, until somebody adds one.
-/

namespace LeaveLedger

open Lib

namespace EventBus

variable {η π : Type}

/-! ## Nobody is left -/

/-- The loop still comes to a listener of the kind on the event. -/
def Frame.Owes (b : Bus η π) (e : String) (P : Listener η → Prop) : Frame η π → Prop
  | .delivery e' _ set cursor _ =>
      e' = e ∧ ∃ slot ∈ (b.sets e set).slots, cursor ≤ slot.stamp ∧ P slot.key
  | .replay e' _ listener index length => e' = e ∧ P listener ∧ index < length

/-- No listener of the kind is left on the event. -/
structure Gone (e : String) (P : Listener η → Prop) (s : State η π) : Prop where
  unlisted : ∀ n, s.bus.listeners e = some n → ∀ slot ∈ (s.bus.sets e n).slots, ¬ P slot.key
  awaited : ∀ r ∈ s.bus.immediates, r.eventName = e → ¬ P r.listener
  underway : ∀ frame ∈ s.stack, ¬ frame.Owes s.bus e P

theorem Gone.initial (e : String) (P : Listener η → Prop) (historyMaxSize : Option ℕ) :
    Gone e P (State.initial historyMaxSize : State η π) where
  unlisted n hn := by cases hn
  awaited _ hr := absurd hr List.not_mem_nil
  underway _ hframe := absurd hframe List.not_mem_nil

/-- `b'` came of `b` and has no listener of the kind that was not there. -/
structure Bus.NoMore (e : String) (P : Listener η → Prop) (b b' : Bus η π) : Prop where
  current : ∀ n, b'.listeners e = some n → ∀ slot ∈ (b'.sets e n).slots, P slot.key →
    b.listeners e = some n
  slots : ∀ n, ∀ slot ∈ (b'.sets e n).slots, P slot.key → slot ∈ (b.sets e n).slots
  waiting : ∀ r ∈ b'.immediates, r.eventName = e → P r.listener → r ∈ b.immediates

section noMore
variable {e e' : String} {P : Listener η → Prop} {b b' : Bus η π}

theorem Frame.Owes.of_noMore {frame : Frame η π} (h : b.NoMore e P b')
    (howes : frame.Owes b' e P) : frame.Owes b e P := by
  cases frame with
  | delivery e' payload set cursor notified =>
      obtain ⟨he, slot, hmem, hahead, hP⟩ := howes
      exact ⟨he, slot, h.slots set slot hmem hP, hahead, hP⟩
  | replay => exact howes

theorem Gone.of_noMore {s : State η π} (hs : Gone e P s) (h : s.bus.NoMore e P b') :
    Gone e P { s with bus := b' } where
  unlisted n hn slot hmem hP :=
    hs.unlisted n (h.current n hn slot hmem hP) slot (h.slots n slot hmem hP) hP
  awaited r hr he hP := hs.awaited r (h.waiting r hr he hP) he hP
  underway frame hframe howes := hs.underway frame hframe (howes.of_noMore h)

theorem Bus.NoMore.clear (b : Bus η π) (named : Option String) : b.NoMore e P (b.clear named) where
  current n hn _ _ _ := by
    by_cases hclears : Clears e named
    · rw [(clear_of_clears hclears).1] at hn
      cases hn
    · rwa [(clear_of_not_clears hclears).1] at hn
  slots n slot hmem _ := by rwa [clear_sets] at hmem
  waiting r hr _ _ := by rwa [clear_immediates] at hr

theorem Bus.NoMore.remember (b : Bus η π) (e' : String) (payload : π) :
    b.NoMore e P (b.remember e' payload) where
  current n hn _ _ _ := by rwa [remember_listeners] at hn
  slots n slot hmem _ := by rwa [remember_sets] at hmem
  waiting r hr _ _ := by rwa [remember_immediates] at hr

variable [DecidableEq η]

theorem Bus.NoMore.unsubscribe (b : Bus η π) (e' : String) (l : Listener η) :
    b.NoMore e P (b.unsubscribe e' l) where
  current n hn _ _ _ := by
    rcases b.unsubscribe_listeners e' e l with h | ⟨rfl, h, -⟩
    · exact h ▸ hn
    · rw [h] at hn
      cases hn
  slots n slot hmem _ := (mem_unsubscribe.mp hmem).1
  waiting r hr _ _ := (b.unsubscribe_rest e' l).immediates ▸ hr

theorem Bus.NoMore.enter (b : Bus η π) (l : Listener η) : b.NoMore e P (b.enter l) := by
  cases l with
  | plain _ => exact ⟨fun _ hn _ _ _ => hn, fun _ _ hmem _ => hmem, fun _ hr _ _ => hr⟩
  | once wrapper => exact .unsubscribe b _ _

/-- A listener of another kind, or on another event. -/
theorem Bus.NoMore.subscribe (b : Bus η π) {l : Listener η} (h : e' = e → ¬ P l) :
    b.NoMore e P (b.subscribe e' l) where
  current n hn slot hmem hP := by
    rw [subscribe_listeners] at hn
    by_cases he : e' = e
    · subst he
      -- a new set has the new listener alone
      rcases b.ensureSet_cases e' with ⟨n', hn', hsame⟩ | ⟨-, hnew, hempty⟩
      · rwa [hsame] at hn
      · rw [hnew] at hn
        obtain rfl := Option.some.inj hn
        rw [subscribe_sets, changeSet_sets, if_pos ⟨rfl, hnew⟩, hempty] at hmem
        rcases LiveMap.key_or_value_of_mem_set hmem with ⟨hmem, -⟩ | ⟨hkey, -⟩
        · exact absurd hmem List.not_mem_nil
        · exact absurd (hkey ▸ hP) (h rfl)
    · rwa [ensureSet_listeners_of_ne fun h => he h.symm] at hn
  slots n slot hmem hP := by
    rcases mem_subscribe hmem with hold | ⟨he, -, hkey⟩
    · exact hold
    · exact absurd (hkey ▸ hP) (h he.symm)
  waiting r hr he hP := by
    rcases mem_immediates_subscribe hr with hold | ⟨he', hl⟩
    · exact hold
    · exact absurd (hl ▸ hP) (h (he' ▸ he))

theorem Bus.NoMore.subscribeOnce (b : Bus η π) {h : η}
    (hother : e' = e → ¬ P (.once ⟨b.wrappersMade, e', h⟩)) :
    b.NoMore e P (b.subscribeOnce e' h) := by
  have hsub := NoMore.subscribe (b.track ⟨b.wrappersMade, e', h⟩) hother
  exact ⟨hsub.current, hsub.slots, hsub.waiting⟩

end noMore

/-! ## Sets that stay -/

/-- The set an event has stays while a listener of the kind is in it. -/
def Bus.Keeps (e : String) (P : Listener η → Prop) (b b' : Bus η π) : Prop :=
  ∀ n, b.listeners e = some n → (∃ slot ∈ (b'.sets e n).slots, P slot.key) →
    b'.listeners e = some n

section keeps
variable {e : String} {P : Listener η → Prop} [DecidableEq η]

theorem Bus.Keeps.unsubscribe (b : Bus η π) (e' : String) (l : Listener η) :
    b.Keeps e P (b.unsubscribe e' l) := by
  rintro n hn ⟨slot, hmem, -⟩
  rcases b.unsubscribe_listeners e' e l with heq | ⟨rfl, -, hempty⟩
  · rw [heq, hn]
  · rw [hempty n hn] at hmem
    exact absurd hmem List.not_mem_nil

theorem Bus.Keeps.enter (b : Bus η π) (l : Listener η) : b.Keeps e P (b.enter l) := by
  cases l with
  | plain _ => exact fun n hn _ => hn
  | once wrapper => exact .unsubscribe b _ _

theorem Bus.Keeps.subscribe (b : Bus η π) (e' : String) (l : Listener η) :
    b.Keeps e P (b.subscribe e' l) := by
  intro n hn _
  rw [subscribe_listeners]
  by_cases he : e = e'
  · subst he
    rcases b.ensureSet_cases e with ⟨n', -, hsame⟩ | ⟨hnone, -⟩
    · rw [hsame, hn]
    · rw [hnone] at hn
      cases hn
  · rw [ensureSet_listeners_of_ne he, hn]

omit [DecidableEq η] in
theorem Bus.Keeps.remember (b : Bus η π) (e' : String) (payload : π) :
    b.Keeps e P (b.remember e' payload) := by
  intro n hn _
  rw [remember_listeners, hn]

end keeps

/-! ## And nobody is called -/

section calls
variable {e : String} {P : Listener η → Prop} {s s' s'' : State η π}

/-- What a loop calls, it owed. -/
theorem Frame.owes_of_next {b : Bus η π} {frame frame' : Frame η π} {call : Invocation η π}
    (h : frame.next b = some (call, frame')) :
    (call.eventName = e → P call.listener → frame.Owes b e P)
      ∧ (frame'.Owes b e P → frame.Owes b e P) := by
  cases frame with
  | delivery e' payload set cursor notified =>
      obtain ⟨slot, hafter, heq⟩ := Option.map_eq_some_iff.mp h
      obtain ⟨rfl, rfl⟩ := Prod.mk.inj heq
      have hle := LiveMap.le_of_after hafter
      constructor
      · intro he hP
        obtain rfl : e' = e := he
        exact ⟨rfl, slot, LiveMap.mem_of_after hafter, hle, hP⟩
      · rintro ⟨he, slot', hmem, hahead, hP⟩
        exact ⟨he, slot', hmem, by omega, hP⟩
  | replay e' past listener index length =>
      obtain ⟨payload, hget, heq⟩ := Option.map_eq_some_iff.mp h
      obtain ⟨rfl, rfl⟩ := Prod.mk.inj heq
      have hlt : index < length := by
        have := (List.getElem?_eq_some_iff.mp hget).1
        rw [List.length_take] at this
        omega
      constructor
      · exact fun he hP => ⟨he, hP, hlt⟩
      · rintro ⟨he, hP, -⟩
        exact ⟨he, hP, hlt⟩

/-- From `s` to `s'` nobody of the kind was called on the event. -/
def Uncalled (e : String) (P : Listener η → Prop) (s s' : State η π) : Prop :=
  ∃ calls, s'.log = s.log ++ calls ∧ ∀ call ∈ calls, call.eventName = e → ¬ P call.listener

theorem Uncalled.of_log_eq (h : s'.log = s.log) : Uncalled e P s s' :=
  ⟨[], by rw [h, List.append_nil], fun _ hcall => absurd hcall List.not_mem_nil⟩

theorem Uncalled.trans (h : Uncalled e P s s') (h' : Uncalled e P s' s'') :
    Uncalled e P s s'' := by
  obtain ⟨calls, hlog, hcalls⟩ := h
  obtain ⟨calls', hlog', hcalls'⟩ := h'
  refine ⟨calls ++ calls', by rw [hlog', hlog, List.append_assoc], fun call hcall => ?_⟩
  exact (List.mem_append.mp hcall).elim (hcalls call) (hcalls' call)

variable [DecidableEq η]

theorem Gone.proceed (hs : Gone e P s) : Gone e P s.proceed ∧ Uncalled e P s s.proceed := by
  rcases s.proceed_cases with ⟨-, heq⟩ | ⟨frame, rest, call, frame', hstack, hnext, heq⟩
    | ⟨frame, rest, answer, hstack, -, heq⟩
  · rw [heq]
    exact ⟨hs, .of_log_eq rfl⟩
  · have htop : ¬ frame.Owes s.bus e P := hs.underway frame (by simp [hstack])
    obtain ⟨hcall, hframe⟩ := Frame.owes_of_next (e := e) (P := P) hnext
    have hcalled : Gone e P { s with stack := frame' :: rest, log := s.log ++ [call] } := by
      refine ⟨hs.unlisted, hs.awaited, fun f hf howes => ?_⟩
      rcases List.mem_cons.mp hf with rfl | hf
      · exact htop (hframe howes)
      · exact hs.underway f (by simp [hstack, hf]) howes
    rw [heq]
    refine ⟨hcalled.of_noMore (.enter s.bus call.listener), [call], rfl, fun c hc he hP => ?_⟩
    obtain rfl := List.mem_singleton.mp hc
    exact htop (hcall he hP)
  · rw [heq]
    refine ⟨⟨hs.unlisted, hs.awaited, fun f hf => hs.underway f ?_⟩, .of_log_eq rfl⟩
    rw [hstack]
    exact List.mem_cons_of_mem _ hf

omit [DecidableEq η] in
theorem Gone.push (hs : Gone e P s) {frame : Frame η π} (hframe : ¬ frame.Owes s.bus e P) :
    Gone e P { s with stack := frame :: s.stack } := by
  refine ⟨hs.unlisted, hs.awaited, fun f hf => ?_⟩
  rcases List.mem_cons.mp hf with rfl | hf
  · exact hframe
  · exact hs.underway f hf

omit [DecidableEq η] in
/-- A delivery to the set of an event. -/
theorem Gone.not_owes (hs : Gone e P s) {e' : String} {n : ℕ} (hn : s.bus.listeners e' = some n)
    (payload : π) (cursor notified : ℕ) :
    ¬ (Frame.delivery e' payload n cursor notified).Owes s.bus e P := by
  rintro ⟨rfl, slot, hmem, -, hP⟩
  exact hs.unlisted n hn slot hmem hP

theorem Gone.publish (hs : Gone e P s) (e' : String) (payload : π) :
    Gone e P (s.publish e' payload) ∧ Uncalled e P s (s.publish e' payload) := by
  have hbus : Gone e P { s with bus := s.bus.remember e' payload } :=
    hs.of_noMore (.remember s.bus e' payload)
  rcases s.publish_cases e' payload with ⟨-, heq⟩ | ⟨n, hn, -, heq⟩
  · rw [heq]
    exact ⟨⟨hbus.unlisted, hbus.awaited, hbus.underway⟩, .of_log_eq rfl⟩
  · rw [heq]
    exact (hbus.push (hbus.not_owes hn payload 0 0)).proceed

theorem Gone.startReplay (hs : Gone e P s) {r : Replay η} (hr : r.eventName = e → ¬ P r.listener) :
    Gone e P (s.startReplay r) ∧ Uncalled e P s (s.startReplay r) :=
  (hs.push fun howes : (r.frame s.bus).Owes s.bus e P => hr howes.1 howes.2.1).proceed

/-- The label adds a listener of the kind to the event. -/
def Label.Adds (e : String) (P : Listener η → Prop) (s : State η π) : Label η π → Prop
  | .subscribe e' h => e' = e ∧ P (.plain h)
  | .subscribeOnce e' h => e' = e ∧ P (.once ⟨s.bus.wrappersMade, e', h⟩)
  | _ => False

theorem Gone.step (hs : Gone e P s) {label : Label η π} (hadds : ¬ label.Adds e P s)
    (hstep : step s label = some s') : Gone e P s' ∧ Uncalled e P s s' := by
  cases label with
  | subscribe e' h =>
      cases hstep
      exact ⟨hs.of_noMore (.subscribe s.bus fun he hP => hadds ⟨he, hP⟩), .of_log_eq rfl⟩
  | subscribeOnce e' h =>
      cases hstep
      exact ⟨hs.of_noMore (.subscribeOnce s.bus fun he hP => hadds ⟨he, hP⟩), .of_log_eq rfl⟩
  | unsubscribe e' h =>
      cases hstep
      exact ⟨hs.of_noMore (.unsubscribe s.bus e' _), .of_log_eq rfl⟩
  | publish e' payload =>
      cases hstep
      exact hs.publish e' payload
  | clear named =>
      cases hstep
      exact ⟨hs.of_noMore (.clear s.bus named), .of_log_eq rfl⟩
  | returns =>
      obtain rfl := step_returns hstep
      exact hs.proceed
  | throws =>
      obtain ⟨frame, rest, hstack, rfl⟩ := step_throws hstep
      refine ⟨⟨hs.unlisted, hs.awaited, fun f hf => hs.underway f ?_⟩, .of_log_eq rfl⟩
      rw [hstack]
      exact List.mem_cons_of_mem _ hf
  | immediate =>
      obtain ⟨r, rest, -, himm, rfl⟩ := step_immediate hstep
      have hleft : Gone e P { s with bus := { s.bus with immediates := rest } } :=
        ⟨hs.unlisted, fun r' hr' => hs.awaited r' (himm ▸ List.mem_cons_of_mem _ hr'), hs.underway⟩
      exact hleft.startReplay (hs.awaited r (himm ▸ List.mem_cons_self ..))

/-- While nobody adds a listener of the kind, none is there and none is called. -/
theorem Gone.run (hs : Gone e P s) {labels : List (Label η π)}
    (hadds : Meets EventBus.step (fun s label => ¬ label.Adds e P s) s labels)
    (hrun : run EventBus.step s labels = some s') : Gone e P s' ∧ Uncalled e P s s' :=
  run_meets (I := fun s₁ => Gone e P s₁ ∧ Uncalled e P s s₁)
    (fun _ _ _ h hC hstep => ⟨(h.1.step hC hstep).1, h.2.trans (h.1.step hC hstep).2⟩)
    ⟨hs, .of_log_eq rfl⟩ hadds hrun

end calls

end EventBus

end LeaveLedger
