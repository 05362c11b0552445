import LeaveLedger.EventBus.Absence
import LeaveLedger.EventBus.History
import Mathlib

/-!
# EventBus — Late subscribers

What is outstanding for a subscriber is what the loops under way and the
replays that wait still have for it. What it has received and what is
outstanding are together what it is to receive (`Following`), as long as
nothing is published on its event while something is outstanding.
-/

namespace LeaveLedger

open Lib

namespace EventBus

variable {η π : Type} [DecidableEq η]

/-! ## What is outstanding -/

def IsPlain (h : η) (l : Listener η) : Prop := l = .plain h

/-- The payloads that a loop still has for the handler on the event. -/
def Frame.rest (b : Bus η π) (e : String) (h : η) : Frame η π → List π
  | .delivery e' payload set cursor _ =>
      if e' = e ∧ ∃ slot ∈ (b.sets e set).slots, cursor ≤ slot.stamp ∧ slot.key = .plain h
      then [payload] else []
  | .replay e' past listener index length =>
      if e' = e ∧ listener = .plain h then ((b.buffers e past).take length).drop index else []

/-- The payloads that a waiting replay has for it. -/
def Replay.rest (b : Bus η π) (e : String) (h : η) (r : Replay η) : List π :=
  if r.eventName = e ∧ r.listener = .plain h then b.buffers e r.past else []

def State.outstanding (s : State η π) (e : String) (h : η) : List π :=
  s.stack.flatMap (Frame.rest s.bus e h) ++ s.bus.immediates.flatMap (Replay.rest s.bus e h)

/-- What the handler has been called with on the event, through its own subscription. -/
def State.received (s : State η π) (e : String) (h : η) : List π :=
  (s.log.filter fun call => call.eventName = e ∧ call.listener = .plain h).map Invocation.payload

section rest
variable {e : String} {h : η} {b b' : Bus η π} {frame frame' : Frame η π}
  {call : Invocation η π}

theorem Frame.rest_of_not_owes (hnot : ¬ frame.Owes b e (IsPlain h)) : frame.rest b e h = [] := by
  cases frame with
  | delivery e' payload set cursor notified => exact if_neg hnot
  | replay e' past listener index length =>
      simp only [rest]
      split
      case isTrue hmine =>
        have hdone : length ≤ index := by
          by_contra hlt
          exact hnot ⟨hmine.1, hmine.2, Nat.lt_of_not_le hlt⟩
        refine List.drop_eq_nil_of_le ?_
        rw [List.length_take]
        omega
      case isFalse => rfl

/-- The bus has the same for the handler. -/
structure Bus.SameFor (e : String) (h : η) (b b' : Bus η π) : Prop where
  slots : ∀ n (slot : Slot (Listener η) Unit), slot.key = .plain h →
    (slot ∈ (b'.sets e n).slots ↔ slot ∈ (b.sets e n).slots)
  buffers : b'.buffers e = b.buffers e

theorem Frame.rest_of_same (hsame : b.SameFor e h b') (frame : Frame η π) :
    frame.rest b' e h = frame.rest b e h := by
  cases frame with
  | replay e' past listener index length => simp only [rest, hsame.buffers]
  | delivery e' payload set cursor notified =>
      have hcoming : (∃ slot ∈ (b'.sets e set).slots, cursor ≤ slot.stamp ∧ slot.key = .plain h)
          ↔ ∃ slot ∈ (b.sets e set).slots, cursor ≤ slot.stamp ∧ slot.key = .plain h := by
        constructor
        · rintro ⟨slot, hmem, hle, hkey⟩
          exact ⟨slot, (hsame.slots set slot hkey).mp hmem, hle, hkey⟩
        · rintro ⟨slot, hmem, hle, hkey⟩
          exact ⟨slot, (hsame.slots set slot hkey).mpr hmem, hle, hkey⟩
      simp only [rest, hcoming]

theorem Replay.rest_of_same (hsame : b.SameFor e h b') (r : Replay η) :
    r.rest b' e h = r.rest b e h := by
  simp only [rest, hsame.buffers]

/-- A call takes the first of what a loop has for the handler, if it is for the handler. -/
theorem Frame.rest_of_next (hnext : frame.next b = some (call, frame')) :
    frame.rest b e h
      = (if call.eventName = e ∧ call.listener = .plain h then [call.payload] else [])
      ++ frame'.rest b e h := by
  cases frame with
  | replay e' past listener index length =>
      obtain ⟨payload, hget, hpair⟩ := Option.map_eq_some_iff.mp hnext
      obtain ⟨rfl, rfl⟩ := Prod.mk.inj hpair
      by_cases hmine : e' = e ∧ listener = .plain h
      · obtain ⟨rfl, rfl⟩ := hmine
        obtain ⟨hlt, hat⟩ := List.getElem?_eq_some_iff.mp hget
        simp only [rest, and_self, if_true]
        rw [List.drop_eq_getElem_cons hlt, hat, List.singleton_append]
      · simp only [rest, if_neg hmine, List.nil_append]
  | delivery e' payload set cursor notified =>
      obtain ⟨slot, hafter, hpair⟩ := Option.map_eq_some_iff.mp hnext
      obtain ⟨rfl, rfl⟩ := Prod.mk.inj hpair
      by_cases he : e' = e
      · subst he
        have hmem := LiveMap.mem_of_after hafter
        have hle := LiveMap.le_of_after hafter
        by_cases hkey : slot.key = .plain h
        · have hnow : ∃ slot ∈ (b.sets e' set).slots, cursor ≤ slot.stamp ∧ slot.key = .plain h :=
            ⟨slot, hmem, hle, hkey⟩
          have hlater : ¬ ∃ s ∈ (b.sets e' set).slots, slot.stamp + 1 ≤ s.stamp
              ∧ s.key = .plain h := by
            rintro ⟨s, hs, hlt, hskey⟩
            rw [LiveMap.slot_eq_of_key hs hmem (hskey.trans hkey.symm)] at hlt
            omega
          have hfirst : (Frame.delivery e' payload set cursor notified).rest b e' h = [payload] :=
            if_pos ⟨rfl, hnow⟩
          have hrest : (Frame.delivery e' payload set (slot.stamp + 1) (notified + 1)).rest b e' h
              = [] := if_neg fun hcoming => hlater hcoming.2
          rw [hfirst, hrest, if_pos ⟨rfl, hkey⟩, List.append_nil]
        · -- somebody else is called, and no entry is left out on the way
          have hsame : (∃ s ∈ (b.sets e' set).slots, cursor ≤ s.stamp ∧ s.key = .plain h)
              ↔ ∃ s ∈ (b.sets e' set).slots, slot.stamp + 1 ≤ s.stamp ∧ s.key = .plain h := by
            constructor
            · rintro ⟨s, hs, hcursor, hskey⟩
              have hmin := LiveMap.le_stamp_of_after hafter hs hcursor
              have hne : slot.stamp ≠ s.stamp := fun heq =>
                hkey (LiveMap.slot_eq_of_stamp hmem hs heq ▸ hskey)
              exact ⟨s, hs, by omega, hskey⟩
            · rintro ⟨s, hs, hlt, hskey⟩
              exact ⟨s, hs, by omega, hskey⟩
          simp [rest, hsame, hkey]
      · simp [rest, he]

theorem Frame.rest_of_next_none (hnext : frame.next b = none) : frame.rest b e h = [] := by
  cases frame with
  | replay e' past listener index length =>
      have hend := List.getElem?_eq_none_iff.mp (Option.map_eq_none_iff.mp hnext)
      simp only [rest]
      split
      case isTrue hmine =>
        obtain ⟨rfl, -⟩ := hmine
        exact List.drop_eq_nil_of_le hend
      case isFalse => rfl
  | delivery e' payload set cursor notified =>
      refine rest_of_not_owes ?_
      rintro ⟨rfl, slot, hmem, hle, -⟩
      have := LiveMap.after_eq_none_iff.mp (Option.map_eq_none_iff.mp hnext) slot hmem
      omega

end rest

/-! ## Changes to the bus -/

section same
variable {e e' : String} {h : η} {b : Bus η π}

theorem Bus.SameFor.unsubscribe (b : Bus η π) {l : Listener η}
    (hother : e' = e → b.resolve l ≠ .plain h) : b.SameFor e h (b.unsubscribe e' l) where
  slots n slot hkey := by
    refine mem_unsubscribe.trans (and_iff_left ?_)
    rintro ⟨rfl, -, hresolve⟩
    exact hother rfl (hresolve.symm.trans hkey)
  buffers := by rw [(b.unsubscribe_rest e' l).buffers]

theorem Bus.SameFor.enter (b : Bus η π) (l : Listener η) : b.SameFor e h (b.enter l) := by
  cases l with
  | plain _ => exact ⟨fun _ _ _ => Iff.rfl, rfl⟩
  | once wrapper => exact .unsubscribe b fun _ hplain => by cases hplain

/-- Where somebody listens, `subscribe` makes no set. -/
theorem Bus.SameFor.subscribe (b : Bus η π) {l : Listener η} (hlistens : b.listeners e ≠ none)
    (hother : e' = e → l ≠ .plain h) : b.SameFor e h (b.subscribe e' l) where
  slots n slot hkey := by
    rw [subscribe_sets, changeSet_sets]
    by_cases he : e = e'
    · subst he
      have hensure : b.ensureSet e = b := by
        rcases b.ensureSet_cases e with ⟨-, -, hsame⟩ | ⟨hnone, -⟩
        · exact hsame
        · exact absurd hnone hlistens
      have hne : slot.key ≠ l := fun heq => hother rfl (heq.symm.trans hkey)
      rw [hensure]
      split
      · simp [LiveMap.mem_set, hne]
      · rfl
    · rw [if_neg fun hcur => he hcur.1, ensureSet_sets fun heq => absurd heq he]
  buffers := by rw [(b.subscribe_history e' l).2.2.1]

end same

/-! ## Following an event -/

/-- The handler listens on the event, and what it has received and what is outstanding are together
what it is to receive. -/
structure Following (e : String) (h : η) (expected : List π) (s : State η π) : Prop where
  listens : ∃ n, s.bus.listeners e = some n
    ∧ ∃ slot ∈ (s.bus.sets e n).slots, IsPlain h slot.key
  received : s.received e h ++ s.outstanding e h = expected
  awaited : ∀ r ∈ s.bus.immediates, r.eventName = e → r.listener = .plain h →
    s.bus.buffers e r.past ≠ []
  underway : ∀ past index length, .replay e past (.plain h) index length ∈ s.stack →
    index < length → length ≤ (s.bus.buffers e past).length

section following
variable {e : String} {h : η} {expected : List π} {s s' : State η π}

theorem Following.of_bus (hs : Following e h expected s) {b' : Bus η π}
    (hsame : s.bus.SameFor e h b') (hkeeps : s.bus.Keeps e (IsPlain h) b')
    (deferred : List (Replay η)) (himmediates : b'.immediates = s.bus.immediates ++ deferred)
    (hdeferred : ∀ r ∈ deferred, ¬ (r.eventName = e ∧ r.listener = .plain h)) :
    Following e h expected { s with bus := b' } where
  listens := by
    obtain ⟨n, hn, slot, hmem, hkey⟩ := hs.listens
    have hmem' : slot ∈ (b'.sets e n).slots := (hsame.slots n slot hkey).mpr hmem
    exact ⟨n, hkeeps n hn ⟨slot, hmem', hkey⟩, slot, hmem', hkey⟩
  received := by
    have hframes : Frame.rest b' e h = Frame.rest s.bus e h :=
      funext fun frame => Frame.rest_of_same hsame frame
    have hreplays : Replay.rest b' e h = Replay.rest s.bus e h :=
      funext fun r => Replay.rest_of_same hsame r
    have hnone : deferred.flatMap (Replay.rest s.bus e h) = [] :=
      List.flatMap_eq_nil_iff.mpr fun r hr => if_neg (hdeferred r hr)
    have houtstanding : ({ s with bus := b' } : State η π).outstanding e h
        = s.outstanding e h := by
      unfold State.outstanding
      rw [hframes, hreplays, himmediates, List.flatMap_append, hnone, List.append_nil]
    rw [houtstanding]
    exact hs.received
  awaited r hr he hl := by
    rw [himmediates] at hr
    rw [hsame.buffers]
    rcases List.mem_append.mp hr with hold | hnew
    · exact hs.awaited r hold he hl
    · exact absurd ⟨he, hl⟩ (hdeferred r hnew)
  underway past index length hframe hlt := by
    rw [hsame.buffers]
    exact hs.underway past index length hframe hlt

/-- A loop more under way, that has nothing for the handler yet or as much as is added to what it is
to receive. -/
theorem Following.push (hs : Following e h expected s) {frame : Frame η π} {more : List π}
    (hrest : frame.rest s.bus e h = more) (hlast : more = [] ∨ s.outstanding e h = [])
    (hreplay : ∀ past index length, frame = .replay e past (.plain h) index length →
      length ≤ (s.bus.buffers e past).length) :
    Following e h (expected ++ more) { s with stack := frame :: s.stack } where
  listens := hs.listens
  received := by
    have houtstanding : ({ s with stack := frame :: s.stack } : State η π).outstanding e h
        = more ++ s.outstanding e h := by
      simp only [State.outstanding, List.flatMap_cons, hrest, List.append_assoc]
    rw [houtstanding]
    rcases hlast with rfl | hnil
    · rw [List.nil_append, List.append_nil]
      exact hs.received
    · have hreceived := hs.received
      rw [hnil, List.append_nil] at hreceived ⊢
      rw [← hreceived]
      rfl
  awaited := hs.awaited
  underway past index length hframe hlt := by
    rcases List.mem_cons.mp hframe with heq | hold
    · exact hreplay past index length heq.symm
    · exact hs.underway past index length hold hlt

omit [DecidableEq η] in
/-- A replay comes of the same one, a payload earlier. -/
theorem Frame.next_replay {b : Bus η π} {frame : Frame η π} {call : Invocation η π} {e : String}
    {past index length : ℕ} {l : Listener η}
    (hnext : frame.next b = some (call, .replay e past l index length)) :
    ∃ i, frame = .replay e past l i length ∧ index = i + 1 := by
  cases frame with
  | delivery e' payload set cursor notified =>
      obtain ⟨slot, -, hpair⟩ := Option.map_eq_some_iff.mp hnext
      exact absurd (Prod.mk.inj hpair).2 (by simp)
  | replay e' past' l' i length' =>
      obtain ⟨payload, -, hpair⟩ := Option.map_eq_some_iff.mp hnext
      obtain ⟨rfl, rfl, rfl, rfl, rfl⟩ := Frame.replay.inj (Prod.mk.inj hpair).2
      exact ⟨i, rfl, rfl⟩

theorem Following.proceed (hs : Following e h expected s) : Following e h expected s.proceed := by
  rcases s.proceed_cases with ⟨-, heq⟩ | ⟨frame, rest, call, frame', hstack, hnext, heq⟩
    | ⟨frame, rest, answer, hstack, hnext, heq⟩
  · rwa [heq]
  · have hcalled : Following e h expected { s with
        stack := frame' :: rest, log := s.log ++ [call] } := by
      refine ⟨hs.listens, ?_, hs.awaited, fun past index length hframe hlt => ?_⟩
      · rw [← hs.received]
        simp only [State.outstanding, State.received, hstack, List.flatMap_cons,
          Frame.rest_of_next hnext, List.filter_append, List.map_append, List.append_assoc]
        by_cases hmine : call.eventName = e ∧ call.listener = .plain h
        · simp [hmine]
        · simp [hmine]
      · rcases List.mem_cons.mp hframe with rfl | hold
        · obtain ⟨i, hreplay⟩ := Frame.next_replay hnext
          have hbefore := hs.underway past i length (by simp [hstack, hreplay.1]) (by omega)
          exact hbefore
        · exact hs.underway past index length (by simp [hstack, hold]) hlt
    rw [heq]
    exact hcalled.of_bus (.enter s.bus call.listener) (.enter s.bus call.listener) []
      (by rw [(s.bus.enter_rest call.listener).immediates, List.append_nil])
      fun _ hr => absurd hr List.not_mem_nil
  · rw [heq]
    refine ⟨hs.listens, ?_, hs.awaited, fun past index length hframe hlt => ?_⟩
    · rw [← hs.received]
      simp only [State.outstanding, State.received, hstack, List.flatMap_cons,
        Frame.rest_of_next_none hnext, List.nil_append]
    · exact hs.underway past index length (by simp [hstack, hframe]) hlt

/-- Something is published on another event. -/
theorem Following.publish_other (hs : Following e h expected s) {e' : String} (he : e' ≠ e)
    (payload : π) : Following e h expected (s.publish e' payload) := by
  have hsame : s.bus.SameFor e h (s.bus.remember e' payload) :=
    ⟨fun n slot _ => by rw [Bus.remember_sets],
      (Bus.SameHistory.remember s.bus (Ne.symm he) payload).buffers⟩
  have hbus : Following e h expected { s with bus := s.bus.remember e' payload } :=
    hs.of_bus hsame (.remember s.bus e' payload) []
      (by rw [Bus.remember_immediates, List.append_nil]) fun _ hr => absurd hr List.not_mem_nil
  rcases s.publish_cases e' payload with ⟨-, heq⟩ | ⟨n, -, -, heq⟩
  · rw [heq]
    exact ⟨hbus.listens, hbus.received, hbus.awaited, hbus.underway⟩
  · have hpushed : Following e h (expected ++ []) { s with
        bus := s.bus.remember e' payload
        stack := .delivery e' payload n 0 0 :: s.stack } :=
      hbus.push (if_neg fun hmine => he hmine.1) (.inl rfl) fun _ _ _ heq => by cases heq
    rw [List.append_nil] at hpushed
    rw [heq]
    exact hpushed.proceed

/-- Something is published on the event while nothing is outstanding: no replay for the handler
waits, and those under way have come to their end, so the buffer may change. -/
theorem Following.remember (hs : Following e h expected s) (hquiet : s.outstanding e h = [])
    (payload : π) : Following e h expected { s with bus := s.bus.remember e payload }
      ∧ ({ s with bus := s.bus.remember e payload } : State η π).outstanding e h = [] := by
  obtain ⟨hframes, hreplays⟩ := List.append_eq_nil_iff.mp hquiet
  -- a waiting replay would have a payload, since a buffer that exists is not empty
  have hnoneAwaited : ∀ r ∈ s.bus.immediates, ¬ (r.eventName = e ∧ r.listener = .plain h) := by
    rintro r hr ⟨he, hl⟩
    have hrest := List.flatMap_eq_nil_iff.mp hreplays r hr
    simp only [Replay.rest, he, hl, and_self, if_true] at hrest
    exact hs.awaited r hr he hl (by rw [hrest])
  -- the buffer has all payloads that the loop is to go over, so the loop is at its end
  have hended : ∀ past index length, .replay e past (.plain h) index length ∈ s.stack →
      length ≤ index := by
    intro past index length hframe
    by_contra hlt
    have hrest := List.flatMap_eq_nil_iff.mp hframes _ hframe
    simp only [Frame.rest, and_self, if_true, List.drop_eq_nil_iff, List.length_take] at hrest
    have := hs.underway past index length hframe (by omega)
    omega
  have hstill : ({ s with bus := s.bus.remember e payload } : State η π).outstanding e h = [] := by
    refine List.append_eq_nil_iff.mpr ⟨List.flatMap_eq_nil_iff.mpr fun frame hframe => ?_,
      List.flatMap_eq_nil_iff.mpr fun r hr => ?_⟩
    · have hrest := List.flatMap_eq_nil_iff.mp hframes frame hframe
      cases frame with
      | delivery e' p set cursor notified =>
          simp only [Frame.rest, Bus.remember_sets] at hrest ⊢
          exact hrest
      | replay e' past l index length =>
          simp only [Frame.rest]
          split
          case isTrue hmine =>
            obtain ⟨rfl, rfl⟩ := hmine
            have := hended past index length hframe
            rw [List.drop_eq_nil_iff, List.length_take]
            omega
          case isFalse => rfl
    · exact if_neg (hnoneAwaited r (Bus.remember_immediates ▸ hr))
  refine ⟨⟨?_, ?_, fun r hr he hl => ?_, fun past index length hframe hlt => ?_⟩, hstill⟩
  · simp only [Bus.remember_sets, Bus.remember_listeners]
    exact hs.listens
  · rw [hstill, List.append_nil]
    have hreceived := hs.received
    rwa [hquiet, List.append_nil] at hreceived
  · exact absurd ⟨he, hl⟩ (hnoneAwaited r (Bus.remember_immediates ▸ hr))
  · have := hended past index length hframe
    omega

theorem Following.publish (hs : Following e h expected s) (hquiet : s.outstanding e h = [])
    (payload : π) : Following e h (expected ++ [payload]) (s.publish e payload) := by
  obtain ⟨hbus, hstill⟩ := hs.remember hquiet payload
  obtain ⟨n, hn, slot, hmem, hkey⟩ := hbus.listens
  rcases s.publish_cases e payload with ⟨hnobody, -⟩ | ⟨n', hn', -, heq⟩
  · rw [hnobody n hn] at hmem
    exact absurd hmem List.not_mem_nil
  · obtain rfl := Option.some.inj (hn.symm.trans hn')
    have hcoming :
        (Frame.delivery e payload n 0 0).rest (s.bus.remember e payload) e h = [payload] :=
      if_pos ⟨rfl, slot, hmem, Nat.zero_le _, hkey⟩
    rw [heq]
    exact (hbus.push hcoming (.inr hstill) fun _ _ _ hreplay => by cases hreplay).proceed

/-- The first immediate runs. -/
theorem Following.startReplay (hs : Following e h expected s) (hstack : s.stack = [])
    {r : Replay η} {later : List (Replay η)} (himmediates : s.bus.immediates = r :: later) :
    Following e h expected
      (State.startReplay { s with bus := { s.bus with immediates := later } } r) := by
  refine Following.proceed ⟨hs.listens, ?_, fun r' hr' =>
    hs.awaited r' (himmediates ▸ List.mem_cons_of_mem _ hr'), fun past index length hframe _ => ?_⟩
  · have hrest : (r.frame s.bus).rest s.bus e h = r.rest s.bus e h := by
      simp only [Replay.frame, Frame.rest, Replay.rest, List.drop_zero]
      split
      case isTrue hmine =>
        rw [hmine.1]
        exact List.take_length
      case isFalse => rfl
    rw [← hs.received]
    have hmoved : ({ s with
        bus := { s.bus with immediates := later }
        stack := r.frame s.bus :: s.stack } : State η π).outstanding e h
          = s.outstanding e h := by
      simp only [State.outstanding, hstack, himmediates, List.flatMap_cons, List.flatMap_nil,
        List.append_nil, List.nil_append]
      exact congrArg (· ++ _) hrest
    exact congrArg (s.received e h ++ ·) hmoved
  · rcases List.mem_cons.mp hframe with heq | hold
    · obtain ⟨rfl, rfl, -, -, rfl⟩ := Frame.replay.inj heq
      exact Nat.le_refl _
    · rw [hstack] at hold
      exact absurd hold List.not_mem_nil

end following

/-! ## Runs -/

/-- The label leaves the handler its one subscription to the event. -/
def Label.Leaves (e : String) (h : η) : Label η π → Prop
  | .subscribe e' h' => ¬ (e' = e ∧ h' = h)
  | .unsubscribe e' h' => ¬ (e' = e ∧ h' = h)
  | .clear named => ¬ Clears e named
  | _ => True

/-- Nothing is published on the event, and no loop is broken off, while something is outstanding:
for a publication anywhere, for a handler that throws in the loop that called it. -/
def Calm (e : String) (h : η) (s : State η π) : Label η π → Prop
  | .publish e' _ => e' = e → s.outstanding e h = []
  | .throws => ∀ frame ∈ s.stack.head?, frame.rest s.bus e h = []
  | _ => True

section runs
variable {e : String} {h : η} {expected : List π} {s s' : State η π}

omit [DecidableEq η] in
theorem Bus.resolve_plain_ne (b : Bus η π) {h' : η} (hne : h' ≠ h) :
    b.resolve (.plain h') ≠ .plain h := by
  simp only [resolve]
  split
  case h_1 => simp
  case h_2 => simpa using hne

theorem Following.subscribe (hs : Following e h expected s) {e' : String} {l : Listener η}
    (hother : e' = e → l ≠ .plain h) :
    Following e h expected { s with bus := s.bus.subscribe e' l } := by
  obtain ⟨n, hn, -⟩ := hs.listens
  refine hs.of_bus (.subscribe s.bus (by simp [hn]) hother) (.subscribe s.bus e' l) _
    (s.bus.subscribe_history e' l).1 fun r hr hmine => ?_
  obtain ⟨he, hl⟩ := Bus.mem_deferred hr
  exact hother (he.symm.trans hmine.1) (hl.symm.trans hmine.2)

theorem Following.step (hs : Following e h expected s) {label : Label η π}
    (hleaves : label.Leaves e h) (hcalm : Calm e h s label) (hstep : step s label = some s') :
    Following e h (label.record e expected) s' := by
  cases label with
  | subscribe e' h' =>
      cases hstep
      exact hs.subscribe fun he hl => hleaves ⟨he, Listener.plain.inj hl⟩
  | subscribeOnce e' h' =>
      cases hstep
      have htracked : Following e h expected
          { s with bus := s.bus.track ⟨s.bus.wrappersMade, e', h'⟩ } :=
        ⟨hs.listens, hs.received, hs.awaited, hs.underway⟩
      exact htracked.subscribe fun _ hl => by cases hl
  | unsubscribe e' h' =>
      cases hstep
      have hother : e' = e → s.bus.resolve (.plain h') ≠ .plain h :=
        fun he => s.bus.resolve_plain_ne fun hh => hleaves ⟨he, hh⟩
      exact hs.of_bus (.unsubscribe s.bus hother) (.unsubscribe s.bus e' _) []
        (by rw [(s.bus.unsubscribe_rest e' _).immediates, List.append_nil])
        fun _ hr => absurd hr List.not_mem_nil
  | publish e' payload =>
      cases hstep
      simp only [Label.record]
      split
      case isTrue he =>
        subst he
        exact hs.publish (hcalm rfl) payload
      case isFalse he => exact hs.publish_other he payload
  | clear named =>
      cases hstep
      have hkept := Bus.clear_of_not_clears (b := s.bus) hleaves
      simp only [Label.record, if_neg (show ¬ Clears e named from hleaves)]
      refine hs.of_bus ⟨fun n slot _ => by rw [Bus.clear_sets], by rw [Bus.clear_buffers]⟩
        (fun n hn _ => hkept.1.trans hn) [] (by rw [Bus.clear_immediates, List.append_nil])
        fun _ hr => absurd hr List.not_mem_nil
  | returns =>
      obtain rfl := step_returns hstep
      exact hs.proceed
  | throws =>
      obtain ⟨frame, rest, hstack, rfl⟩ := step_throws hstep
      refine ⟨hs.listens, ?_, hs.awaited, fun past index length hframe hlt => ?_⟩
      · have hnone : frame.rest s.bus e h = [] := hcalm frame (by simp [hstack])
        have hreceived := hs.received
        simp only [State.outstanding, hstack, List.flatMap_cons, hnone, List.nil_append]
          at hreceived
        exact hreceived
      · exact hs.underway past index length (by simp [hstack, hframe]) hlt
  | immediate =>
      obtain ⟨r, rest, hstack, himmediates, rfl⟩ := step_immediate hstep
      exact hs.startReplay hstack himmediates

theorem Following.run (hs : Following e h expected s) {labels : List (Label η π)}
    (hleaves : ∀ label ∈ labels, label.Leaves e h) (hcalm : Meets EventBus.step (Calm e h) s labels)
    (hrun : run EventBus.step s labels = some s') :
    Following e h (labels.foldl (Label.record e) expected) s' := by
  induction labels generalizing s expected with
  | nil =>
      cases hrun
      exact hs
  | cons label labels ih =>
      obtain ⟨s₁, hstep, hrest⟩ := run_cons_some hrun
      exact ih (hs.step (hleaves label (List.mem_cons_self ..)) hcalm.1 hstep)
        (fun l hl => hleaves l (List.mem_cons_of_mem _ hl)) (hcalm.2 s₁ hstep) hrest

/-! ## The sets that deliveries go over -/

/-- Deliveries go over sets that have been made. -/
def Framed (s : State η π) : Prop :=
  ∀ e payload n cursor notified, .delivery e payload n cursor notified ∈ s.stack →
    n < s.bus.setsMade e

omit [DecidableEq η] in
theorem Framed.of_bus (hs : Framed s) {b' : Bus η π}
    (hmade : ∀ e, s.bus.setsMade e ≤ b'.setsMade e) : Framed { s with bus := b' } :=
  fun e payload n cursor notified hframe =>
    Nat.lt_of_lt_of_le (hs e payload n cursor notified hframe) (hmade e)

theorem Framed.proceed (hs : Framed s) : Framed s.proceed := by
  rcases s.proceed_cases with ⟨-, heq⟩ | ⟨frame, rest, call, frame', hstack, hnext, heq⟩
    | ⟨frame, rest, answer, hstack, -, heq⟩
  · rwa [heq]
  · intro e payload n cursor notified hframe
    rw [heq] at hframe ⊢
    simp only [(s.bus.enter_rest call.listener).setsMade]
    rcases List.mem_cons.mp hframe with rfl | hold
    · cases frame with
      | delivery e' payload' n' cursor' notified' =>
          obtain ⟨slot, -, hpair⟩ := Option.map_eq_some_iff.mp hnext
          obtain ⟨rfl, rfl, rfl, -, -⟩ := Frame.delivery.inj (Prod.mk.inj hpair).2
          exact hs _ _ _ _ _ (hstack ▸ List.mem_cons_self ..)
      | replay e' past l index length =>
          obtain ⟨payload', -, hpair⟩ := Option.map_eq_some_iff.mp hnext
          exact absurd (Prod.mk.inj hpair).2 (by simp)
    · exact hs e payload n cursor notified (hstack ▸ List.mem_cons_of_mem _ hold)
  · intro e payload n cursor notified hframe
    rw [heq] at hframe ⊢
    exact hs e payload n cursor notified (hstack ▸ List.mem_cons_of_mem _ hframe)

theorem Framed.step (hs : Framed s) {label : Label η π} (hstep : step s label = some s') :
    Framed s' := by
  have hsubscribe : ∀ (b : Bus η π) (e e' : String) (l : Listener η),
      b.setsMade e ≤ (b.subscribe e' l).setsMade e := fun b e e' l => by
    rw [Bus.subscribe_setsMade]
    exact Bus.setsMade_ensureSet
  cases label with
  | subscribe e' h' =>
      cases hstep
      exact hs.of_bus fun e => hsubscribe s.bus e e' _
  | subscribeOnce e' h' =>
      cases hstep
      exact hs.of_bus fun e => hsubscribe (s.bus.track _) e e' _
  | unsubscribe e' h' =>
      cases hstep
      exact hs.of_bus fun e => by rw [(s.bus.unsubscribe_rest e' _).setsMade]
  | publish e' payload =>
      cases hstep
      have hbus : Framed { s with bus := s.bus.remember e' payload } :=
        hs.of_bus fun e => by rw [Bus.remember_setsMade]
      rcases s.publish_cases e' payload with ⟨-, heq⟩ | ⟨n, hn, -, heq⟩
      · rw [heq]
        exact hbus
      · rw [heq]
        refine Framed.proceed fun e payload' n' cursor notified hframe => ?_
        rcases List.mem_cons.mp hframe with hnew | hold
        · obtain ⟨rfl, -, rfl, -, -⟩ := Frame.delivery.inj hnew
          exact (s.bus.remember e payload).numbered e n' hn
        · exact hbus e payload' n' cursor notified hold
  | clear named =>
      cases hstep
      exact hs.of_bus fun e => by rw [Bus.clear_setsMade]
  | returns =>
      obtain rfl := step_returns hstep
      exact hs.proceed
  | throws =>
      obtain ⟨frame, rest, hstack, rfl⟩ := step_throws hstep
      exact fun e payload n cursor notified hframe =>
        hs e payload n cursor notified (hstack ▸ List.mem_cons_of_mem _ hframe)
  | immediate =>
      obtain ⟨r, rest, hstack, -, rfl⟩ := step_immediate hstep
      refine Framed.proceed fun e payload n cursor notified hframe => ?_
      rcases List.mem_cons.mp hframe with hnew | hold
      · cases hnew
      · rw [hstack] at hold
        exact absurd hold List.not_mem_nil

/-! ## Subscribing -/

/-- No delivery is under way over the set that the event has. -/
def NotUnderWay (e : String) (s : State η π) : Prop :=
  ∀ payload n cursor notified, .delivery e payload n cursor notified ∈ s.stack →
    s.bus.listeners e ≠ some n

/-- Nobody under way comes to a handler that subscribes. -/
theorem Framed.not_owes (hs : Framed s) (hgone : Gone e (IsPlain h) s) (hnot : NotUnderWay e s)
    {frame : Frame η π} (hframe : frame ∈ s.stack) :
    ¬ frame.Owes (s.bus.subscribe e (.plain h)) e (IsPlain h) := by
  intro howes
  cases frame with
  | replay => exact hgone.underway _ hframe howes
  | delivery e' payload n cursor notified =>
      obtain ⟨rfl, slot, hmem, hle, hkey⟩ := howes
      rcases Bus.mem_subscribe hmem with hold | ⟨-, hn, -⟩
      · exact hgone.underway _ hframe ⟨rfl, slot, hold, hle, hkey⟩
      · rw [Bus.subscribe_listeners] at hn
        rcases s.bus.ensureSet_cases e' with ⟨n', hn', hsame⟩ | ⟨-, hnew, -⟩
        · rw [hsame] at hn
          exact hnot payload n cursor notified hframe hn
        · have := hs e' payload n cursor notified hframe
          rw [hnew] at hn
          have := Option.some.inj hn
          omega

/-- A handler that has never been on the event subscribes: what is outstanding then is what the
history remembers. -/
theorem Following.begin {n : ℕ} {past : List π} (hn : 0 < n)
    (hgone : Gone e (IsPlain h) s) (hcalls : s.received e h = []) (hframed : Framed s)
    (hnot : NotUnderWay e s) (hpast : Remembers e n past s.bus) :
    Following e h (past.rtake n) { s with bus := s.bus.subscribe e (.plain h) } := by
  obtain ⟨himmediates, -, hbuffers, -⟩ := s.bus.subscribe_history e (.plain h)
  have hdeferred : ∀ r ∈ s.bus.deferred e (.plain h),
      s.bus.buffers e r.past = past.rtake n ∧ past ≠ [] := by
    intro r hr
    unfold Bus.deferred at hr
    rw [if_pos (hpast.size ▸ hn)] at hr
    obtain ⟨k, hk, rfl⟩ := Option.map_eq_some_iff.mp (Option.mem_toList.mp hr)
    have hsome : past ≠ [] := fun hnil => by simp [hpast.nothing hnil] at hk
    obtain ⟨k', hk', hbuffer⟩ := hpast.last hsome
    obtain rfl := Option.some.inj (hk.symm.trans hk')
    exact ⟨hbuffer, hsome⟩
  have houtstanding : ({ s with bus := s.bus.subscribe e (.plain h) } : State η π).outstanding e h
      = past.rtake n := by
    have hframes : s.stack.flatMap (Frame.rest (s.bus.subscribe e (.plain h)) e h) = [] :=
      List.flatMap_eq_nil_iff.mpr fun frame hframe =>
        Frame.rest_of_not_owes (hframed.not_owes hgone hnot hframe)
    have hold : s.bus.immediates.flatMap (Replay.rest (s.bus.subscribe e (.plain h)) e h) = [] :=
      List.flatMap_eq_nil_iff.mpr fun r hr =>
        if_neg fun hmine => hgone.awaited r hr hmine.1 hmine.2
    simp only [State.outstanding, hframes, himmediates, List.flatMap_append, hold,
      List.nil_append]
    unfold Bus.deferred
    rw [if_pos (hpast.size ▸ hn)]
    by_cases hnil : past = []
    · simp [hpast.nothing hnil, hnil, List.rtake]
    · obtain ⟨k, hk, hbuffer⟩ := hpast.last hnil
      simp [hk, Replay.rest, hbuffers, hbuffer]
  refine ⟨?_, ?_, fun r hr he hl => ?_, fun past' index length hframe hlt => ?_⟩
  · obtain ⟨n', hn', hget⟩ := s.bus.subscribe_listens e (.plain h)
    obtain ⟨slot, hmem, hkey, -⟩ := LiveMap.get_eq_some_iff.mp hget
    exact ⟨n', hn', slot, hmem, hkey⟩
  · rw [houtstanding]
    exact congrArg (· ++ past.rtake n) hcalls
  · rw [himmediates] at hr
    rcases List.mem_append.mp hr with hold | hnew
    · exact absurd hl (hgone.awaited r hold he)
    · obtain ⟨hbuffer, hsome⟩ := hdeferred r hnew
      rw [hbuffers, hbuffer]
      intro hnil
      have := congrArg List.length hnil
      simp only [List.rtake, List.length_drop, List.length_nil] at this
      have := List.length_pos_iff.mpr hsome
      omega
  · exact absurd ⟨rfl, rfl, hlt⟩ (hgone.underway _ hframe)

omit [DecidableEq η] in
theorem record_append {labels : List (Label η π)} (hleaves : ∀ label ∈ labels, label.Leaves e h)
    (past : List π) : labels.foldl (Label.record e) past = past ++ published e labels := by
  unfold published
  induction labels generalizing past with
  | nil => exact (List.append_nil past).symm
  | cons label labels ih =>
      have hrest := ih fun l hl => hleaves l (List.mem_cons_of_mem _ hl)
      have hone : label.record e past = past ++ label.record e [] := by
        have hlabel := hleaves label (List.mem_cons_self ..)
        cases label with
        | publish e' payload =>
            simp only [Label.record]
            split <;> simp
        | clear named => simp [Label.record, show ¬ Clears e named from hlabel]
        | _ => simp [Label.record]
      simp only [List.foldl_cons]
      rw [hrest, hone, List.append_assoc, ← hrest]

/-- A handler that subscribes while no delivery is under way over the set it joins, and for which
nothing is outstanding whenever something is published, has at any time received what was in the
history and all that was published since, in order, less what is outstanding; and all of it when
nothing is under way. -/
theorem late_subscriber_receives (n : ℕ) (hn : 1 ≤ n) (before after : List (Label η π))
    (s₁ s₂ s₃ : State η π) (e : String) (h : η)
    (hbefore : run step (State.initial (some n)) before = some s₁)
    (hfirst : ∀ label ∈ before, label ≠ .subscribe e h)
    (hnot : NotUnderWay e s₁)
    (hstep : step s₁ (.subscribe e h) = some s₂)
    (honly : ∀ label ∈ after, label.Leaves e h)
    (hcalm : Meets step (Calm e h) s₂ after)
    (hafter : run step s₂ after = some s₃) :
    s₃.received e h ++ s₃.outstanding e h = (published e before).rtake n ++ published e after
      ∧ (s₃.stack = [] → s₃.bus.immediates = [] →
        s₃.received e h = (published e before).rtake n ++ published e after) := by
  have hadds : Meets step (fun s label => ¬ label.Adds e (IsPlain h) s)
      (State.initial (some n)) before := by
    refine meets_iff.mpr fun pre label post s heq _ hlabel => ?_
    cases label with
    | subscribe e' h' =>
        obtain ⟨rfl, hplain⟩ := hlabel
        exact hfirst _ (by simp [heq]) (congrArg (Label.subscribe e') (Listener.plain.inj hplain))
    | subscribeOnce e' h' => cases hlabel.2
    | _ => exact hlabel
  obtain ⟨hgone, calls, hlog, hcalls⟩ := (Gone.initial e (IsPlain h) (some n)).run hadds hbefore
  have hframed : Framed s₁ := run_induct (fun _ _ _ hs hstep => hs.step hstep)
    (fun _ _ _ _ _ hframe => absurd hframe List.not_mem_nil) hbefore
  have hnone : s₁.received e h = [] := by
    unfold State.received
    rw [List.map_eq_nil_iff, List.filter_eq_nil_iff, hlog]
    intro call hcall hmine
    obtain ⟨he, hl⟩ := of_decide_eq_true hmine
    exact hcalls call hcall he hl
  cases hstep
  have hfollowing := (Following.begin hn hgone hnone hframed hnot (remembers_run hn hbefore)).run
    honly hcalm hafter
  rw [record_append honly] at hfollowing
  refine ⟨hfollowing.received, fun hstack himmediates => ?_⟩
  have hreceived := hfollowing.received
  simp only [State.outstanding, hstack, himmediates, List.flatMap_nil, List.append_nil]
    at hreceived
  exact hreceived

/-- What is published before the replay runs is received twice, and what was published before the
subscription is not received. -/
theorem late_subscriber_misses :
    ¬ ∀ (n : ℕ) (before after : List (Label ℕ ℕ)) (s₁ s₂ s₃ : State ℕ ℕ) (e : String) (h : ℕ),
      1 ≤ n → run step (State.initial (some n)) before = some s₁ →
      (∀ label ∈ before, label ≠ .subscribe e h) → step s₁ (.subscribe e h) = some s₂ →
      (∀ label ∈ after, label.Leaves e h) → run step s₂ after = some s₃ →
      s₃.stack = [] → s₃.bus.immediates = [] →
      s₃.received e h = (published e before).rtake n ++ published e after := by
  intro hclaim
  have hall := hclaim 1 [.publish "e" 7] [.publish "e" 8, .returns, .immediate, .returns] _ _ _
    "e" 0 (Nat.le_refl 1) rfl (by simp) rfl (by simp [Label.Leaves]) rfl rfl rfl
  exact absurd hall (by decide +kernel)

/-- One payload before the subscription. -/
def publishedBefore : List (Label ℕ ℕ) := [.publish "e" 7]

/-- A replay that runs before the next publication. -/
def replayedFirst : List (Label ℕ ℕ) := [.immediate, .returns, .publish "e" 8, .returns]

theorem late_subscriber_receives_both :
    ∃ (s₁ s₂ s₃ : State ℕ ℕ),
      run step (State.initial (some 1)) publishedBefore = some s₁
      ∧ step s₁ (.subscribe "e" 0) = some s₂
      ∧ run step s₂ replayedFirst = some s₃
      ∧ s₃.received "e" 0 ++ s₃.outstanding "e" 0
        = (published "e" publishedBefore).rtake 1 ++ published "e" replayedFirst
      ∧ (s₃.stack = [] → s₃.bus.immediates = [] → s₃.received "e" 0
        = (published "e" publishedBefore).rtake 1 ++ published "e" replayedFirst) := by
  refine ⟨_, _, _, rfl, rfl, rfl, ?_⟩
  refine late_subscriber_receives 1 (Nat.le_refl 1) publishedBefore replayedFirst _ _ _ "e" 0 rfl
    (by simp [publishedBefore]) ?_ rfl (by simp [replayedFirst, Label.Leaves]) ?_ rfl
  · intro payload n cursor notified hframe
    exact absurd hframe List.not_mem_nil
  · refine ⟨trivial, fun s' hs' => ⟨trivial, fun s'' hs'' => ⟨fun _ => ?_, fun _ _ =>
      ⟨trivial, fun _ _ => trivial⟩⟩⟩⟩
    cases hs'
    cases hs''
    decide +kernel

end runs

end EventBus

end LeaveLedger
