import LeaveLedger.Lib.Machine
import LeaveLedger.Store.World
import Mathlib.Data.List.AList

/-!
# TimeOff — _withCreateLock

The lanes of `createRequest` are chains of promises. A call takes the
promise of the call before it as `previous`, leaves `next = previous.then(()
=> gate)` in the map for the call after it, awaits `previous`, runs its body,
and resolves its own gate in `finally`. `next` is fulfilled in three turns of
the microtask queue: the handler runs and `next` follows `gate`, `next`
subscribes to `gate`, and the reaction to `gate` fulfills it.

Jobs run in any order here, first come first served or not. The lock does not
depend on it: what a job has to wait for is fulfilled or it is not.
-/

namespace LeaveLedger

open Lib

/-- How far `next` has come. -/
inductive NextPromise where
  /-- the handler `() => gate` waits for `previous` -/
  | registered
  /-- the handler has returned `gate` -/
  | following
  /-- `gate.then` has been called for `next` -/
  | subscribed
  | fulfilled
  deriving DecidableEq

/-- How far a call has come; `α` is what its body comes to, a result or an
error. -/
inductive BodyPhase (α : Type) where
  | awaiting
  | running
  /-- the body has ended, its `finally` has not run -/
  | ended (r : α)
  | settled (r : α)
  deriving DecidableEq

structure LockCall (α : Type) where
  key : String
  /-- the call whose `next` is `previous`, none for `Promise.resolve()` -/
  previous : Option ℕ
  next : NextPromise
  /-- `release` has been called -/
  released : Bool
  phase : BodyPhase α
  deriving DecidableEq

/-- The jobs of one call, and the end of its body. -/
inductive LockMove (α : Type) where
  | runHandler | subscribe | fulfillNext | resume
  | endBody (r : α)
  /-- the `finally` block -/
  | leave
  deriving DecidableEq

namespace LockCall

variable {α : Type}

/-- What one move does to its call, where `ready` says that `previous` is
fulfilled. -/
def move (ready : Bool) (c : LockCall α) : LockMove α → Option (LockCall α)
  | .runHandler =>
      if ready && c.next = .registered then some { c with next := .following } else none
  | .subscribe => if c.next = .following then some { c with next := .subscribed } else none
  | .fulfillNext =>
      if c.released && c.next = .subscribed then some { c with next := .fulfilled } else none
  | .resume =>
      match c.phase with
      | .awaiting => if ready then some { c with phase := .running } else none
      | _ => none
  | .endBody r =>
      match c.phase with
      | .running => some { c with phase := .ended r }
      | _ => none
  | .leave =>
      match c.phase with
      | .ended r => some { c with phase := .settled r, released := true }
      | _ => none

def Settled (c : LockCall α) : Prop := ∃ r, c.phase = .settled r

/-- The body has started and its lane is not yet released. -/
def Active (c : LockCall α) : Prop := c.phase = .running ∨ ∃ r, c.phase = .ended r

/-- The moves with their guards. -/
inductive MoveCase (ready : Bool) (c : LockCall α) : LockMove α → LockCall α → Prop
  | runHandler (hready : ready = true) (hnext : c.next = .registered) :
      MoveCase ready c .runHandler { c with next := .following }
  | subscribe (hnext : c.next = .following) :
      MoveCase ready c .subscribe { c with next := .subscribed }
  | fulfillNext (hreleased : c.released = true) (hnext : c.next = .subscribed) :
      MoveCase ready c .fulfillNext { c with next := .fulfilled }
  | resume (hready : ready = true) (hphase : c.phase = .awaiting) :
      MoveCase ready c .resume { c with phase := .running }
  | endBody {r : α} (hphase : c.phase = .running) :
      MoveCase ready c (.endBody r) { c with phase := .ended r }
  | leave {r : α} (hphase : c.phase = .ended r) :
      MoveCase ready c .leave { c with phase := .settled r, released := true }

theorem move_cases {ready : Bool} {c c' : LockCall α} {m : LockMove α}
    (h : c.move ready m = some c') : MoveCase ready c m c' := by
  cases m with
  | runHandler =>
      simp only [move, Bool.and_eq_true, decide_eq_true_eq, Option.ite_none_right_eq_some,
        Option.some.injEq] at h
      obtain ⟨⟨hready, hnext⟩, rfl⟩ := h
      exact .runHandler hready hnext
  | subscribe =>
      simp only [move, Option.ite_none_right_eq_some, Option.some.injEq] at h
      obtain ⟨hnext, rfl⟩ := h
      exact .subscribe hnext
  | fulfillNext =>
      simp only [move, Bool.and_eq_true, decide_eq_true_eq, Option.ite_none_right_eq_some,
        Option.some.injEq] at h
      obtain ⟨⟨hreleased, hnext⟩, rfl⟩ := h
      exact .fulfillNext hreleased hnext
  | resume =>
      simp only [move] at h
      split at h
      · next hphase =>
        simp only [Option.ite_none_right_eq_some, Option.some.injEq] at h
        obtain ⟨hready, rfl⟩ := h
        exact .resume hready hphase
      · cases h
  | endBody r =>
      simp only [move] at h
      split at h
      · next hphase => cases h; exact .endBody hphase
      · cases h
  | leave =>
      simp only [move] at h
      split at h
      · next r hphase => cases h; exact .leave hphase
      · cases h

/-- A move of a call keeps its lane and what the calls behind it wait for. -/
structure Onward (c c' : LockCall α) : Prop where
  key : c'.key = c.key
  previous : c'.previous = c.previous
  settled : c.Settled → c'.Settled
  fulfilled : c.next = .fulfilled → c'.next = .fulfilled

theorem MoveCase.onward {ready : Bool} {c c' : LockCall α} {m : LockMove α}
    (h : MoveCase ready c m c') : Onward c c' := by
  cases h with
  | runHandler _ hnext => exact ⟨rfl, rfl, id, fun hf => by rw [hf] at hnext; cases hnext⟩
  | subscribe hnext => exact ⟨rfl, rfl, id, fun hf => by rw [hf] at hnext; cases hnext⟩
  | fulfillNext => exact ⟨rfl, rfl, id, fun _ => rfl⟩
  | resume _ hphase =>
      exact ⟨rfl, rfl, fun ⟨r, hr⟩ => (by rw [hr] at hphase; cases hphase), id⟩
  | endBody hphase =>
      exact ⟨rfl, rfl, fun ⟨r, hr⟩ => (by rw [hr] at hphase; cases hphase), id⟩
  | leave => exact ⟨rfl, rfl, fun _ => ⟨_, rfl⟩, id⟩

/-- Only leaving settles a call. -/
theorem MoveCase.settled {ready : Bool} {c c' : LockCall α} {m : LockMove α}
    (h : MoveCase ready c m c') (hs : c'.Settled) : c.Settled ∨ m = .leave := by
  cases h with
  | resume => obtain ⟨r, hr⟩ := hs; cases hr
  | endBody => obtain ⟨r, hr⟩ := hs; cases hr
  | leave => exact Or.inr rfl
  | _ => exact Or.inl hs

end LockCall

/-- `_createLocks` and the calls made so far, numbered in their order. -/
structure LockChain (α : Type) where
  calls : List (LockCall α)
  createLocks : AList fun _ : String => ℕ

inductive LockLabel (α : Type) where
  | call (lockKey : String)
  | move (i : ℕ) (m : LockMove α)
  deriving DecidableEq

namespace LockChain

variable {α : Type}

def initial : LockChain α := ⟨[], ∅⟩

/-- `previous` of a call is fulfilled. -/
def ready (s : LockChain α) (c : LockCall α) : Bool :=
  match c.previous with
  | none => true
  | some p =>
      match s.calls[p]? with
      | some d => d.next = .fulfilled
      | none => false

/-- `_withCreateLock` up to its `await`. -/
def enter (s : LockChain α) (lockKey : String) : LockChain α where
  calls := s.calls ++ [⟨lockKey, s.createLocks.lookup lockKey, .registered, false, .awaiting⟩]
  createLocks := s.createLocks.insert lockKey s.calls.length

/-- The map after a move: leaving deletes the entry that is still its own. -/
def locksAfter (s : LockChain α) (i : ℕ) (lockKey : String) :
    LockMove α → AList fun _ : String => ℕ
  | .leave =>
      if s.createLocks.lookup lockKey = some i then s.createLocks.erase lockKey
      else s.createLocks
  | _ => s.createLocks

def step (s : LockChain α) : LockLabel α → Option (LockChain α)
  | .call lockKey => some (s.enter lockKey)
  | .move i m =>
      match s.calls[i]? with
      | some c => (c.move (s.ready c) m).map fun c' =>
          ⟨s.calls.set i c', s.locksAfter i c.key m⟩
      | none => none

/-! ## One step -/

inductive StepCase (s : LockChain α) : LockLabel α → LockChain α → Prop
  | call (lockKey : String) : StepCase s (.call lockKey) (s.enter lockKey)
  | move {i : ℕ} {m : LockMove α} {c c' : LockCall α} (hc : s.calls[i]? = some c)
      (hmove : LockCall.MoveCase (s.ready c) c m c') :
      StepCase s (.move i m) ⟨s.calls.set i c', s.locksAfter i c.key m⟩

theorem step_cases {s s' : LockChain α} {l : LockLabel α} (h : s.step l = some s') :
    StepCase s l s' := by
  cases l with
  | call lockKey => cases h; exact .call lockKey
  | move i m =>
      simp only [step] at h
      split at h
      · next c hc =>
        obtain ⟨c', hmove, rfl⟩ := Option.map_eq_some_iff.mp h
        exact .move hc (LockCall.move_cases hmove)
      · cases h

/-- Every call of `s` has moved on in `s'`, or is as it was. -/
def Onward (s s' : LockChain α) : Prop :=
  ∀ (i : ℕ) c, s.calls[i]? = some c → ∃ c', s'.calls[i]? = some c' ∧ LockCall.Onward c c'

theorem enter_getElem {s : LockChain α} {lockKey : String} {i : ℕ} {c : LockCall α}
    (h : (s.enter lockKey).calls[i]? = some c) :
    s.calls[i]? = some c ∨ i = s.calls.length
      ∧ c = ⟨lockKey, s.createLocks.lookup lockKey, .registered, false, .awaiting⟩ :=
  getElem?_concat_cases h

theorem set_getElem {s : LockChain α} {i j : ℕ} {c c' d : LockCall α}
    (hc : s.calls[i]? = some c) (h : (s.calls.set i c')[j]? = some d) :
    j = i ∧ d = c' ∨ j ≠ i ∧ s.calls[j]? = some d :=
  getElem?_set_cases (List.getElem?_eq_some_iff.mp hc).1 h

theorem onward_of_step {s s' : LockChain α} {l : LockLabel α} (h : s.step l = some s') :
    Onward s s' := by
  intro i c hc
  have hlt : i < s.calls.length := (List.getElem?_eq_some_iff.mp hc).1
  cases step_cases h with
  | call lockKey =>
      refine ⟨c, ?_, rfl, rfl, id, id⟩
      show (s.calls ++ _)[i]? = some c
      rw [List.getElem?_append_left hlt]
      exact hc
  | @move j m d d' hd hmove =>
      by_cases hij : i = j
      · subst hij
        rw [hd] at hc
        cases hc
        exact ⟨d', List.getElem?_set_self hlt, hmove.onward⟩
      · exact ⟨c, by rw [List.getElem?_set_ne (Ne.symm hij)]; exact hc, rfl, rfl, id, id⟩

/-! ## The invariant -/

/-- Every earlier call of the lane has settled. -/
def EarlierSettled (s : LockChain α) (i : ℕ) (lockKey : String) : Prop :=
  ∀ (j : ℕ) d, j < i → s.calls[j]? = some d → d.key = lockKey → d.Settled

/-- What holds of the call `i` at all times. -/
structure CallOk (s : LockChain α) (i : ℕ) (c : LockCall α) : Prop where
  /-- with nobody in the lane there is nothing to wait for -/
  first : c.previous = none → EarlierSettled s i c.key
  /-- `previous` is of the last call of the lane before this one -/
  behind : ∀ p, c.previous = some p → p < i ∧ (∃ d, s.calls[p]? = some d ∧ d.key = c.key)
    ∧ ∀ (j : ℕ) d, j < i → s.calls[j]? = some d → d.key = c.key → j ≤ p
  started : c.phase ≠ .awaiting → s.ready c = true ∧ EarlierSettled s i c.key
  released : c.released = true ↔ c.Settled
  fulfilled : c.next = .fulfilled → c.released = true

structure ChainInv (s : LockChain α) : Prop where
  calls : ∀ (i : ℕ) c, s.calls[i]? = some c → CallOk s i c
  /-- an entry of the map is the last call of its lane, and has not settled -/
  entry : ∀ k j, s.createLocks.lookup k = some j → (∃ d, s.calls[j]? = some d ∧ d.key = k
    ∧ ¬ d.Settled) ∧ ∀ (i : ℕ) c, s.calls[i]? = some c → c.key = k → i ≤ j
  noEntry : ∀ k, s.createLocks.lookup k = none →
    ∀ (i : ℕ) c, s.calls[i]? = some c → c.key = k → c.Settled

theorem ready_onward {s s' : LockChain α} (h : Onward s s') {c : LockCall α}
    (hr : s.ready c = true) : s'.ready c = true := by
  unfold ready at hr ⊢
  cases hp : c.previous with
  | none => rfl
  | some p =>
      simp only [hp] at hr ⊢
      cases hd : s.calls[p]? with
      | none => rw [hd] at hr; cases hr
      | some d =>
          rw [hd] at hr
          obtain ⟨d', hd', hon⟩ := h p d hd
          rw [hd']
          simpa using hon.fulfilled (by simpa using hr)

theorem EarlierSettled.onward {s s' : LockChain α} (h : Onward s s') {i : ℕ} {k : String}
    (hi : i ≤ s.calls.length) (he : EarlierSettled s i k) : EarlierSettled s' i k := by
  intro j d' hj hd' hk
  obtain ⟨d, hd⟩ : ∃ d, s.calls[j]? = some d :=
    ⟨_, List.getElem?_eq_getElem (Nat.lt_of_lt_of_le hj hi)⟩
  obtain ⟨d'', hd'', hon⟩ := h j d hd
  rw [hd'] at hd''
  cases hd''
  exact hon.settled (he j d hj hd (hon.key ▸ hk))

theorem CallOk.onward {s s' : LockChain α} (h : Onward s s') {i : ℕ} {c : LockCall α}
    (hi : i ≤ s.calls.length) (hc : CallOk s i c) : CallOk s' i c where
  first := fun hp => (hc.first hp).onward h hi
  behind := by
    intro p hp
    obtain ⟨hlt, ⟨d, hd, hk⟩, hlast⟩ := hc.behind p hp
    obtain ⟨d', hd', hon⟩ := h p d hd
    refine ⟨hlt, ⟨d', hd', hon.key.trans hk⟩, fun j e' hj he' hek => ?_⟩
    obtain ⟨e, he⟩ : ∃ e, s.calls[j]? = some e :=
      ⟨_, List.getElem?_eq_getElem (Nat.lt_of_lt_of_le hj hi)⟩
    obtain ⟨e'', he'', hone⟩ := h j e he
    rw [he'] at he''
    cases he''
    exact hlast j e hj he (hone.key ▸ hek)
  started := fun hp => ⟨ready_onward h (hc.started hp).1, (hc.started hp).2.onward h hi⟩
  released := hc.released
  fulfilled := hc.fulfilled

theorem chainInv_initial : ChainInv (initial : LockChain α) where
  calls := fun i c hc => by simp [initial] at hc
  entry := fun k j hj => by simp [initial] at hj
  noEntry := fun k _ i c hc => by simp [initial] at hc

/-- A call waits for the entry it finds, and is the entry for the next. -/
theorem ChainInv.enter {s : LockChain α} (h : ChainInv s) (lockKey : String)
    (hon : Onward s (s.enter lockKey)) : ChainInv (s.enter lockKey) where
  calls := by
    intro i c hc
    rcases enter_getElem hc with hold | ⟨rfl, rfl⟩
    · have hlt : i < s.calls.length := (List.getElem?_eq_some_iff.mp hold).1
      exact (h.calls i c hold).onward hon (Nat.le_of_lt hlt)
    · refine CallOk.onward hon (le_refl _) ?_
      constructor
      · intro hnone j d _ hd hk
        exact h.noEntry lockKey hnone j d hd hk
      · intro p hp
        obtain ⟨⟨d, hd, hk, -⟩, hlast⟩ := h.entry lockKey p hp
        exact ⟨(List.getElem?_eq_some_iff.mp hd).1, ⟨d, hd, hk⟩,
          fun j e _ he hek => hlast j e he hek⟩
      · exact fun hp => absurd rfl hp
      · simp [LockCall.Settled]
      · intro hf; cases hf
  entry := by
    intro k j hj
    by_cases hk : k = lockKey
    · subst hk
      rw [show (s.enter k).createLocks = s.createLocks.insert k s.calls.length from rfl,
        AList.lookup_insert] at hj
      cases hj
      refine ⟨⟨_, List.getElem?_concat_length, rfl, ?_⟩, fun i c hc _ => ?_⟩
      · simp [LockCall.Settled]
      · rcases enter_getElem hc with hold | ⟨rfl, -⟩
        · exact Nat.le_of_lt (List.getElem?_eq_some_iff.mp hold).1
        · exact le_refl _
    · rw [show (s.enter lockKey).createLocks = s.createLocks.insert lockKey s.calls.length from rfl,
        AList.lookup_insert_ne hk] at hj
      obtain ⟨⟨d, hd, hdk, hds⟩, hlast⟩ := h.entry k j hj
      have hlt : j < s.calls.length := (List.getElem?_eq_some_iff.mp hd).1
      refine ⟨⟨d, ?_, hdk, hds⟩, fun i c hc hck => ?_⟩
      · show (s.calls ++ _)[j]? = some d
        rw [List.getElem?_append_left hlt]
        exact hd
      · rcases enter_getElem hc with hold | ⟨-, rfl⟩
        · exact hlast i c hold hck
        · exact absurd hck.symm hk
  noEntry := by
    intro k hk i c hc hck
    by_cases hkl : k = lockKey
    · subst hkl
      rw [show (s.enter k).createLocks = s.createLocks.insert k s.calls.length from rfl,
        AList.lookup_insert] at hk
      cases hk
    · rw [show (s.enter lockKey).createLocks = s.createLocks.insert lockKey s.calls.length from rfl,
        AList.lookup_insert_ne hkl] at hk
      rcases enter_getElem hc with hold | ⟨-, rfl⟩
      · exact h.noEntry k hk i c hold hck
      · exact absurd hck.symm hkl

/-- A call whose `previous` is fulfilled is the first of its lane that has not
settled. -/
theorem ChainInv.earlierSettled {s : LockChain α} (h : ChainInv s) {i : ℕ} {c : LockCall α}
    (hc : s.calls[i]? = some c) (hr : s.ready c = true) : EarlierSettled s i c.key := by
  have hok := h.calls i c hc
  cases hp : c.previous with
  | none => exact hok.first hp
  | some p =>
      obtain ⟨hlt, ⟨d, hd, hk⟩, hlast⟩ := hok.behind p hp
      have hd' : d.next = .fulfilled := by simpa [ready, hp, hd] using hr
      have hokd := h.calls p d hd
      obtain ⟨r, hr'⟩ := hokd.released.mp (hokd.fulfilled hd')
      intro j e hj he hek
      rcases Nat.lt_or_eq_of_le (hlast j e hj he hek) with hjp | rfl
      · -- the call before settled, so its body had started
        exact (hokd.started (by rw [hr']; simp)).2 j e hjp he (hek.trans hk.symm)
      · rw [hd] at he
        cases he
        exact ⟨r, hr'⟩

theorem CallOk.move {s s' : LockChain α} (h : ChainInv s) {i : ℕ} {m : LockMove α}
    {c c' : LockCall α} (hc : s.calls[i]? = some c)
    (hmove : LockCall.MoveCase (s.ready c) c m c') (hon : Onward s s') : CallOk s' i c' := by
  have hi : i ≤ s.calls.length := Nat.le_of_lt (List.getElem?_eq_some_iff.mp hc).1
  have hok : CallOk s' i c := (h.calls i c hc).onward hon hi
  cases hmove with
  | runHandler => exact ⟨hok.first, hok.behind, hok.started, hok.released, fun hf => by cases hf⟩
  | subscribe => exact ⟨hok.first, hok.behind, hok.started, hok.released, fun hf => by cases hf⟩
  | fulfillNext hreleased =>
      exact ⟨hok.first, hok.behind, hok.started, hok.released, fun _ => hreleased⟩
  | resume hready hphase =>
      have hearlier := (h.earlierSettled hc hready).onward hon hi
      have hno : ¬ c.Settled := by rintro ⟨r, hr⟩; rw [hr] at hphase; cases hphase
      refine ⟨hok.first, hok.behind, fun _ => ⟨ready_onward hon hready, hearlier⟩, ?_,
        hok.fulfilled⟩
      exact ⟨fun hr => absurd (hok.released.mp hr) hno, fun ⟨r, hr⟩ => by cases hr⟩
  | endBody hphase =>
      have hstarted := hok.started (by rw [hphase]; simp)
      have hno : ¬ c.Settled := by rintro ⟨r, hr⟩; rw [hr] at hphase; cases hphase
      refine ⟨hok.first, hok.behind, fun _ => hstarted, ?_, hok.fulfilled⟩
      exact ⟨fun hr => absurd (hok.released.mp hr) hno, fun ⟨r, hr⟩ => by cases hr⟩
  | leave hphase =>
      have hstarted := hok.started (by rw [hphase]; simp)
      exact ⟨hok.first, hok.behind, fun _ => hstarted, ⟨fun _ => ⟨_, rfl⟩, fun _ => rfl⟩,
        fun _ => rfl⟩

theorem locksAfter_some {s : LockChain α} {i j : ℕ} {k lockKey : String} {m : LockMove α}
    (h : (s.locksAfter i lockKey m).lookup k = some j) :
    s.createLocks.lookup k = some j ∧ (m = .leave → k = lockKey → j ≠ i) := by
  cases m with
  | leave =>
      simp only [locksAfter] at h
      split at h
      · next hown =>
        by_cases hk : k = lockKey
        · subst hk
          rw [AList.lookup_erase] at h
          cases h
        · rw [AList.lookup_erase_ne hk] at h
          exact ⟨h, fun _ heq => absurd heq hk⟩
      · next hown =>
        refine ⟨h, fun _ hk hj => hown ?_⟩
        rw [← hk, h, hj]
  | _ => exact ⟨h, fun hm => by cases hm⟩

theorem locksAfter_none {s : LockChain α} {i : ℕ} {k lockKey : String} {m : LockMove α}
    (h : (s.locksAfter i lockKey m).lookup k = none) :
    s.createLocks.lookup k = none
      ∨ m = .leave ∧ k = lockKey ∧ s.createLocks.lookup k = some i := by
  cases m with
  | leave =>
      simp only [locksAfter] at h
      split at h
      · next hown =>
        by_cases hk : k = lockKey
        · exact Or.inr ⟨rfl, hk, hk ▸ hown⟩
        · rw [AList.lookup_erase_ne hk] at h
          exact Or.inl h
      · exact Or.inl h
  | _ => exact Or.inl h

theorem ChainInv.move {s : LockChain α} (h : ChainInv s) {i : ℕ} {m : LockMove α}
    {c c' : LockCall α} (hc : s.calls[i]? = some c)
    (hmove : LockCall.MoveCase (s.ready c) c m c')
    (hon : Onward s ⟨s.calls.set i c', s.locksAfter i c.key m⟩) :
    ChainInv ⟨s.calls.set i c', s.locksAfter i c.key m⟩ where
  calls := by
    intro j d hd
    rcases set_getElem hc hd with ⟨rfl, rfl⟩ | ⟨-, hold⟩
    · exact CallOk.move h hc hmove hon
    · exact (h.calls j d hold).onward hon
        (Nat.le_of_lt (List.getElem?_eq_some_iff.mp hold).1)
  entry := by
    intro k j hj
    obtain ⟨hbefore, hleft⟩ := locksAfter_some hj
    obtain ⟨⟨d, hd, hdk, hds⟩, hlast⟩ := h.entry k j hbefore
    constructor
    · by_cases hij : j = i
      · subst hij
        rw [hd] at hc
        cases hc
        have hlt : j < s.calls.length := (List.getElem?_eq_some_iff.mp hd).1
        refine ⟨c', List.getElem?_set_self hlt, hmove.onward.key.trans hdk, fun hsettled => ?_⟩
        rcases hmove.settled hsettled with hs | hm
        · exact hds hs
        · exact hleft hm hdk.symm rfl
      · exact ⟨d, by rw [List.getElem?_set_ne (Ne.symm hij)]; exact hd, hdk, hds⟩
    · intro j' e he hek
      rcases set_getElem hc he with ⟨rfl, rfl⟩ | ⟨-, hold⟩
      · exact hlast j' c hc (hmove.onward.key ▸ hek)
      · exact hlast j' e hold hek
  noEntry := by
    intro k hk j d hd hdk
    have hsettled : ∀ e, s.calls[j]? = some e → e.key = k → e.Settled ∨ j = i ∧ m = .leave := by
      intro e he hek
      rcases locksAfter_none hk with hnone | ⟨hm, rfl, hown⟩
      · exact Or.inl (h.noEntry k hnone j e he hek)
      · -- the leaving call is the last of its lane
        rcases Nat.lt_or_eq_of_le ((h.entry c.key i hown).2 j e he hek) with hlt | heq
        · subst hm
          cases hmove with
          | leave hphase =>
              have hstarted := (h.calls i c hc).started (by rw [hphase]; simp)
              exact Or.inl (hstarted.2 j e hlt he hek)
        · exact Or.inr ⟨heq, hm⟩
    rcases set_getElem hc hd with ⟨rfl, rfl⟩ | ⟨hne, hold⟩
    · rcases hsettled c hc (hmove.onward.key ▸ hdk) with hs | ⟨-, rfl⟩
      · exact hmove.onward.settled hs
      · cases hmove with
        | leave => exact ⟨_, rfl⟩
    · rcases hsettled d hold hdk with hs | ⟨heq, -⟩
      · exact hs
      · exact absurd heq hne

theorem ChainInv.step {s s' : LockChain α} {l : LockLabel α} (h : ChainInv s)
    (hstep : s.step l = some s') : ChainInv s' := by
  have hon := onward_of_step hstep
  cases step_cases hstep with
  | call lockKey => exact h.enter lockKey hon
  | move hc hmove => exact h.move hc hmove hon

theorem chainInv_run {ls : List (LockLabel α)} {s : LockChain α}
    (hrun : run step initial ls = some s) : ChainInv s :=
  run_induct (fun _ _ _ h hstep => h.step hstep) chainInv_initial hrun

end LockChain
end LeaveLedger
