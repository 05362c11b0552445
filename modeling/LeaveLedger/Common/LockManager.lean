import LeaveLedger.Lib.Machine
import Mathlib

/-!
# Common — LockManager

`common/utils/lock.util`: locks with a time to live, in a map that is cleaned
up lazily. The machine below lets anybody acquire, release and ask for locks
and run bodies under `withLock`, in any order, while the clock moves. A lock
stands in the map until its time is up, unless it is released with its token
(`Held`); every other fact is read off that.
-/

namespace LeaveLedger

open Lib

namespace LockManager

variable {τ : Type} [DecidableEq τ]

/-! ## The manager -/

structure Lock (τ : Type) where
  token : τ
  expiresAt : ℚ

/-- `_locks`, a `Map` that is read through its keys. -/
structure Manager (τ : Type) where
  locks : String → Option (Lock τ)

def create : Manager τ := ⟨fun _ => none⟩

/-- What `acquireLock` returns. -/
structure Acquisition (τ : Type) where
  acquired : Bool
  token : Option τ
  key : String
  expiresAt : Option ℚ

/-- The parameter `ttlMs` with its default. -/
def ttlOf (ttlMs : Option ℚ) : ℚ := ttlMs.getD 5000

/-- `acquireLock`; `uuid` is the next token. -/
def Manager.acquireLock (m : Manager τ) (now : ℚ) (resourceKey : String) (ttlMs : Option ℚ)
    (uuid : τ) : Acquisition τ × Manager τ :=
  let acquire : Acquisition τ × Manager τ :=
    let expiresAt := now + ttlOf ttlMs
    (⟨true, some uuid, resourceKey, some expiresAt⟩,
      ⟨Function.update m.locks resourceKey (some ⟨uuid, expiresAt⟩)⟩)
  match m.locks resourceKey with
  | some existing =>
      if existing.expiresAt > now then (⟨false, none, resourceKey, none⟩, m) else acquire
  | none => acquire

/-- `releaseLock`. -/
def Manager.releaseLock (m : Manager τ) (resourceKey : String) (token : τ) : Bool × Manager τ :=
  match m.locks resourceKey with
  | none => (false, m)
  | some existing =>
      if existing.token ≠ token then (false, m)
      else (true, ⟨Function.update m.locks resourceKey none⟩)

/-- `isLocked`. -/
def Manager.isLocked (m : Manager τ) (now : ℚ) (resourceKey : String) : Bool × Manager τ :=
  match m.locks resourceKey with
  | none => (false, m)
  | some existing =>
      if existing.expiresAt ≤ now then (false, ⟨Function.update m.locks resourceKey none⟩)
      else (true, m)

/-- The error of `withLock`. -/
structure LockedError where
  message : String
  code : String
  status : ℕ

/-- `withLock` up to its body: the token it keeps, or its error. -/
def Manager.enter (m : Manager τ) (now : ℚ) (resourceKey : String) (ttlMs : Option ℚ)
    (uuid : τ) : Except LockedError τ × Manager τ :=
  match m.acquireLock now resourceKey ttlMs uuid with
  | (⟨true, some token, _, _⟩, m) => (.ok token, m)
  | (_, m) =>
      (.error ⟨"Resource " ++ resourceKey ++ " is locked by another operation",
        "RESOURCE_LOCKED", 409⟩, m)

/-! ## Concurrent callers -/

/-- A body that `withLock` has started. -/
structure Body (τ : Type) where
  key : String
  token : τ
  startedAt : ℚ
  ttlMs : ℚ
  running : Bool

structure System (τ : Type) where
  clock : ℚ
  manager : Manager τ
  /-- how many tokens have been made -/
  issued : ℕ
  bodies : List (Body τ)

def System.initial (clock : ℚ) : System τ := ⟨clock, create, 0, []⟩

inductive Label (τ : Type) where
  | acquireLock (key : String) (ttlMs : Option ℚ)
  | releaseLock (key : String) (token : τ)
  | isLocked (key : String)
  | withLock (key : String) (ttlMs : Option ℚ)
  /-- the body has returned or thrown, and `finally` runs -/
  | settle (body : ℕ)
  | tick (ms : ℚ)

/-- One call, or time passing. The token of a body is known to its `withLock` only, so
no call of `releaseLock` names it. -/
def step (uuid : ℕ → τ) (s : System τ) : Label τ → Option (System τ)
  | .acquireLock key ttlMs =>
      let r := s.manager.acquireLock s.clock key ttlMs (uuid s.issued)
      some { s with manager := r.2, issued := if r.1.acquired then s.issued + 1 else s.issued }
  | .releaseLock key token => do
      guard (s.bodies.all fun b => b.token ≠ token)
      some { s with manager := (s.manager.releaseLock key token).2 }
  | .isLocked key => some { s with manager := (s.manager.isLocked s.clock key).2 }
  | .withLock key ttlMs =>
      match s.manager.enter s.clock key ttlMs (uuid s.issued) with
      | (.ok token, m) => some { s with
          manager := m
          issued := s.issued + 1
          bodies := s.bodies ++ [⟨key, token, s.clock, ttlOf ttlMs, true⟩] }
      | (.error _, m) => some { s with manager := m }
  | .settle i => do
      let body ← s.bodies[i]?
      guard body.running
      some { s with
        manager := (s.manager.releaseLock body.key body.token).2
        bodies := s.bodies.set i { body with running := false } }
  | .tick ms => do
      guard (0 ≤ ms)
      some { s with clock := s.clock + ms }

/-- The answer that a step gets when it asks for a lock. -/
def Label.asks (uuid : ℕ → τ) (s : System τ) : Label τ → Option (Acquisition τ × ℚ)
  | .acquireLock key ttlMs =>
      some ((s.manager.acquireLock s.clock key ttlMs (uuid s.issued)).1, ttlOf ttlMs)
  | .withLock key ttlMs =>
      some ((s.manager.acquireLock s.clock key ttlMs (uuid s.issued)).1, ttlOf ttlMs)
  | _ => none

/-- The step calls `releaseLock(key, token)`. -/
def Releases (key : String) (token : τ) (s : System τ) : Label τ → Prop
  | .releaseLock k t => k = key ∧ t = token
  | .settle i => ∃ body, s.bodies[i]? = some body ∧ body.key = key ∧ body.token = token
  | _ => False

/-! ## What the calls do to the map -/

section calls
variable {m : Manager τ} {now : ℚ} {key : String} {ttlMs : Option ℚ} {uuid : τ}

/-- A lock is granted where there is none, or one whose time is up, and the map has the
new one. -/
inductive AcquireCase (m : Manager τ) (now : ℚ) (key : String) (ttlMs : Option ℚ) (uuid : τ) :
    Acquisition τ × Manager τ → Prop
  | refused {lock : Lock τ} (hrow : m.locks key = some lock) (hlive : now < lock.expiresAt) :
      AcquireCase m now key ttlMs uuid (⟨false, none, key, none⟩, m)
  | granted (hfree : ∀ lock, m.locks key = some lock → lock.expiresAt ≤ now) :
      AcquireCase m now key ttlMs uuid (⟨true, some uuid, key, some (now + ttlOf ttlMs)⟩,
        ⟨Function.update m.locks key (some ⟨uuid, now + ttlOf ttlMs⟩)⟩)

omit [DecidableEq τ] in
theorem acquire_cases (m : Manager τ) (now : ℚ) (key : String) (ttlMs : Option ℚ) (uuid : τ) :
    AcquireCase m now key ttlMs uuid (m.acquireLock now key ttlMs uuid) := by
  cases hrow : m.locks key with
  | none =>
      simp only [Manager.acquireLock, hrow]
      refine .granted fun lock h => ?_
      rw [hrow] at h
      cases h
  | some existing =>
      by_cases hlive : now < existing.expiresAt
      · simp only [Manager.acquireLock, hrow, gt_iff_lt, hlive, if_true]
        exact .refused hrow hlive
      · simp only [Manager.acquireLock, hrow, gt_iff_lt, hlive, if_false]
        refine .granted fun lock h => ?_
        rw [hrow] at h
        cases h
        exact not_lt.mp hlive

omit [DecidableEq τ] in
/-- A lock is refused exactly while one stands whose time is not up. -/
theorem acquired_eq_false_iff : (m.acquireLock now key ttlMs uuid).1.acquired = false
    ↔ ∃ lock, m.locks key = some lock ∧ now < lock.expiresAt := by
  have hcase := acquire_cases m now key ttlMs uuid
  generalize m.acquireLock now key ttlMs uuid = r at hcase
  cases hcase with
  | refused hrow hlive => exact ⟨fun _ => ⟨_, hrow, hlive⟩, fun _ => rfl⟩
  | granted hfree =>
      constructor
      · intro h
        cases h
      · rintro ⟨lock, hrow, hlive⟩
        exact absurd (hfree lock hrow) (not_le.mpr hlive)

omit [DecidableEq τ] in
theorem isLocked_eq_true_iff : (m.isLocked now key).1 = true
    ↔ ∃ lock, m.locks key = some lock ∧ now < lock.expiresAt := by
  cases hrow : m.locks key with
  | none => simp [Manager.isLocked, hrow]
  | some existing =>
      by_cases hold : existing.expiresAt ≤ now
      · simp [Manager.isLocked, hrow, hold]
      · simp [Manager.isLocked, hrow, not_le.mp hold, hold]

/-- A token that is not the holder's releases nothing. -/
theorem releaseLock_other {token : τ}
    (h : ∀ lock, m.locks key = some lock → lock.token ≠ token) :
    m.releaseLock key token = (false, m) := by
  unfold Manager.releaseLock
  cases hrow : m.locks key with
  | none => rfl
  | some existing => simp [h existing hrow]

/-- What a release leaves: all other keys, and every lock with another token. -/
theorem locks_releaseLock {k : String} {token : τ} {lock : Lock τ} (hrow : m.locks k = some lock)
    (hkeep : k = key → lock.token ≠ token) :
    (m.releaseLock key token).2.locks k = some lock := by
  by_cases hk : k = key
  · subst hk
    have hother : ∀ l, m.locks k = some l → l.token ≠ token := by
      intro l hl
      rw [hrow] at hl
      cases hl
      exact hkeep rfl
    rw [releaseLock_other hother]
    exact hrow
  · unfold Manager.releaseLock
    split
    · exact hrow
    · split
      · exact hrow
      · exact (Function.update_of_ne hk _ _).trans hrow

omit [DecidableEq τ] in
/-- `isLocked` leaves every lock whose time is not up. -/
theorem locks_isLocked {k : String} {lock : Lock τ} (hrow : m.locks k = some lock)
    (hlive : now < lock.expiresAt) : (m.isLocked now key).2.locks k = some lock := by
  unfold Manager.isLocked
  split
  · exact hrow
  · rename_i existing hkey
    split
    · rename_i hold
      have hk : k ≠ key := by
        rintro rfl
        rw [hrow] at hkey
        cases hkey
        exact absurd hold (not_le.mpr hlive)
      exact (Function.update_of_ne hk _ _).trans hrow
    · exact hrow

/-- `withLock` starts its body exactly when it gets the lock. -/
inductive EnterCase (m : Manager τ) (now : ℚ) (key : String) (ttlMs : Option ℚ) (uuid : τ) :
    Except LockedError τ × Manager τ → Prop
  | refused (e : LockedError) : EnterCase m now key ttlMs uuid (.error e, m)
  | entered (hfree : ∀ lock, m.locks key = some lock → lock.expiresAt ≤ now) :
      EnterCase m now key ttlMs uuid
        (.ok uuid, ⟨Function.update m.locks key (some ⟨uuid, now + ttlOf ttlMs⟩)⟩)

omit [DecidableEq τ] in
theorem enter_cases (m : Manager τ) (now : ℚ) (key : String) (ttlMs : Option ℚ) (uuid : τ) :
    EnterCase m now key ttlMs uuid (m.enter now key ttlMs uuid) := by
  have hcase := acquire_cases m now key ttlMs uuid
  unfold Manager.enter
  generalize m.acquireLock now key ttlMs uuid = r at hcase
  cases hcase with
  | refused _ _ => exact .refused _
  | granted hfree => exact .entered hfree

end calls

/-! ## A lock stands while its time runs -/

/-- While its time runs, the lock is in the map. -/
def Held (key : String) (token : τ) (expiresAt : ℚ) (s : System τ) : Prop :=
  s.clock < expiresAt → s.manager.locks key = some ⟨token, expiresAt⟩

section steps
variable {uuid : ℕ → τ} {s s' : System τ} {l : Label τ} {key : String} {token : τ}

/-- What a step does, label by label. -/
inductive StepCase (uuid : ℕ → τ) (s : System τ) : Label τ → System τ → Prop
  | refused {l : Label τ} : StepCase uuid s l s
  | acquired {key : String} {ttlMs : Option ℚ}
      (hfree : ∀ lock, s.manager.locks key = some lock → lock.expiresAt ≤ s.clock) :
      StepCase uuid s (.acquireLock key ttlMs) { s with
        manager := ⟨Function.update s.manager.locks key
          (some ⟨uuid s.issued, s.clock + ttlOf ttlMs⟩)⟩
        issued := s.issued + 1 }
  | released {key : String} {token : τ} (hforeign : ∀ b ∈ s.bodies, b.token ≠ token) :
      StepCase uuid s (.releaseLock key token)
        { s with manager := (s.manager.releaseLock key token).2 }
  | asked {key : String} :
      StepCase uuid s (.isLocked key) { s with manager := (s.manager.isLocked s.clock key).2 }
  | entered {key : String} {ttlMs : Option ℚ}
      (hfree : ∀ lock, s.manager.locks key = some lock → lock.expiresAt ≤ s.clock) :
      StepCase uuid s (.withLock key ttlMs) { s with
        manager := ⟨Function.update s.manager.locks key
          (some ⟨uuid s.issued, s.clock + ttlOf ttlMs⟩)⟩
        issued := s.issued + 1
        bodies := s.bodies ++ [⟨key, uuid s.issued, s.clock, ttlOf ttlMs, true⟩] }
  | settled {i : ℕ} {body : Body τ} (hbody : s.bodies[i]? = some body)
      (hrunning : body.running = true) :
      StepCase uuid s (.settle i) { s with
        manager := (s.manager.releaseLock body.key body.token).2
        bodies := s.bodies.set i { body with running := false } }
  | ticked {ms : ℚ} (hms : 0 ≤ ms) : StepCase uuid s (.tick ms) { s with clock := s.clock + ms }

theorem step_cases (h : step uuid s l = some s') : StepCase uuid s l s' := by
  cases l with
  | acquireLock key ttlMs =>
      cases h
      have hcase := acquire_cases s.manager s.clock key ttlMs (uuid s.issued)
      generalize s.manager.acquireLock s.clock key ttlMs (uuid s.issued) = r at hcase
      cases hcase with
      | refused _ _ => exact .refused
      | granted hfree => exact .acquired hfree
  | releaseLock key token =>
      simp only [step, Option.bind_eq_bind, Option.bind_eq_some_iff, Option.guard_eq_some',
        List.all_eq_true, decide_eq_true_eq] at h
      obtain ⟨_, hforeign, h⟩ := h
      cases h
      exact .released hforeign
  | isLocked key =>
      cases h
      exact .asked
  | withLock key ttlMs =>
      have hcase := enter_cases s.manager s.clock key ttlMs (uuid s.issued)
      simp only [step] at h
      generalize s.manager.enter s.clock key ttlMs (uuid s.issued) = r at hcase h
      cases hcase with
      | refused e =>
          cases h
          exact .refused
      | entered hfree =>
          cases h
          exact .entered hfree
  | settle i =>
      simp only [step, Option.bind_eq_bind, Option.bind_eq_some_iff, Option.guard_eq_some'] at h
      obtain ⟨body, hbody, _, hrunning, h⟩ := h
      cases h
      exact .settled hbody hrunning
  | tick ms =>
      simp only [step, Option.bind_eq_bind, Option.bind_eq_some_iff, Option.guard_eq_some'] at h
      obtain ⟨_, hms, h⟩ := h
      cases h
      exact .ticked hms

omit [DecidableEq τ] in
/-- A lock whose time runs keeps its key from being taken. -/
theorem locks_taken {lock lock' : Lock τ} {k : String} (hrow : s.manager.locks key = some lock)
    (hlive : s.clock < lock.expiresAt)
    (hfree : ∀ lock, s.manager.locks k = some lock → lock.expiresAt ≤ s.clock) :
    Function.update s.manager.locks k (some lock') key = some lock := by
  have hk : key ≠ k := by
    rintro rfl
    exact absurd (hfree lock hrow) (not_le.mpr hlive)
  exact (Function.update_of_ne hk _ _).trans hrow

/-- **One step**: a lock stands until its time is up or its token releases it. -/
theorem held_step {expiresAt : ℚ} (hheld : Held key token expiresAt s)
    (hkeep : ¬ Releases key token s l) (h : step uuid s l = some s') :
    Held key token expiresAt s' := by
  cases step_cases h with
  | refused => exact hheld
  | acquired hfree => exact fun hlive => locks_taken (hheld hlive) hlive hfree
  | @released k t hforeign =>
      intro hlive
      refine locks_releaseLock (hheld hlive) ?_
      rintro rfl rfl
      exact hkeep ⟨rfl, rfl⟩
  | asked => exact fun hlive => locks_isLocked (hheld hlive) hlive
  | entered hfree => exact fun hlive => locks_taken (hheld hlive) hlive hfree
  | @settled i body hbody hrunning =>
      intro hlive
      refine locks_releaseLock (hheld hlive) ?_
      rintro rfl rfl
      exact hkeep ⟨body, hbody, rfl, rfl⟩
  | @ticked ms hms =>
      intro hlive
      refine hheld (lt_of_le_of_lt ?_ hlive)
      exact le_add_of_nonneg_right hms

end steps

/-! ## Tokens and bodies -/

/-- The tokens of the bodies have been made, each for one of them, and the lock of a
running body stands while its time runs. -/
structure Sound (uuid : ℕ → τ) (s : System τ) : Prop where
  made : ∀ (i : ℕ) (b : Body τ), s.bodies[i]? = some b → ∃ n < s.issued, b.token = uuid n
  distinct : ∀ (i j : ℕ) (b c : Body τ), s.bodies[i]? = some b → s.bodies[j]? = some c →
    b.token = c.token → i = j
  held : ∀ (i : ℕ) (b : Body τ), s.bodies[i]? = some b → b.running = true →
    Held b.key b.token (b.startedAt + b.ttlMs) s

section runs
variable {uuid : ℕ → τ} {s s' : System τ} {l : Label τ}

omit [DecidableEq τ] in
theorem sound_initial (uuid : ℕ → τ) (clock : ℚ) : Sound uuid (System.initial clock) where
  made i b h := by simp [System.initial] at h
  distinct i j b c h := by simp [System.initial] at h
  held i b h := by simp [System.initial] at h

/-- Steps that start or end no body. -/
theorem Sound.of_bodies (hsound : Sound uuid s) (hbodies : s'.bodies = s.bodies)
    (hissued : s.issued ≤ s'.issued) (h : step uuid s l = some s')
    (hkeep : ∀ (i : ℕ) (b : Body τ), s.bodies[i]? = some b → ¬ Releases b.key b.token s l) :
    Sound uuid s' where
  made i b hb := by
    rw [hbodies] at hb
    obtain ⟨n, hn, htoken⟩ := hsound.made i b hb
    exact ⟨n, by omega, htoken⟩
  distinct i j b c hb hc := by
    rw [hbodies] at hb hc
    exact hsound.distinct i j b c hb hc
  held i b hb hrunning := by
    rw [hbodies] at hb
    exact held_step (hsound.held i b hb hrunning) (hkeep i b hb) h

/-- A body that starts has the token that has just been made. -/
theorem Sound.of_entered (hsound : Sound uuid s) (huuid : Function.Injective uuid)
    {key : String} {ttlMs : Option ℚ} {body : Body τ} (hbodies : s'.bodies = s.bodies ++ [body])
    (htoken : body.token = uuid s.issued) (hissued : s'.issued = s.issued + 1)
    (hheld : Held body.key body.token (body.startedAt + body.ttlMs) s')
    (h : step uuid s (.withLock key ttlMs) = some s') : Sound uuid s' := by
  -- it is not one of the old ones
  have hnew : ∀ (i : ℕ) (b : Body τ), s.bodies[i]? = some b → b.token ≠ body.token := by
    intro i b hb heq
    obtain ⟨n, hn, hmade⟩ := hsound.made i b hb
    have := huuid (hmade.symm.trans (heq.trans htoken))
    omega
  refine ⟨fun i b hb => ?_, fun i j b c hb hc heq => ?_, fun i b hb hrunning => ?_⟩
  · rw [hbodies] at hb
    rw [hissued]
    obtain hb | ⟨-, rfl⟩ := getElem?_concat_cases hb
    · obtain ⟨n, hn, hmade⟩ := hsound.made i b hb
      exact ⟨n, Nat.lt_succ_of_lt hn, hmade⟩
    · exact ⟨s.issued, Nat.lt_succ_self _, htoken⟩
  · rw [hbodies] at hb hc
    obtain hold | ⟨rfl, rfl⟩ := getElem?_concat_cases hb <;>
      obtain hold' | ⟨rfl, rfl⟩ := getElem?_concat_cases hc
    · exact hsound.distinct i j b c hold hold' heq
    · exact absurd heq (hnew i b hold)
    · exact absurd heq.symm (hnew j c hold')
    · rfl
  · rw [hbodies] at hb
    obtain hb | ⟨-, rfl⟩ := getElem?_concat_cases hb
    · have hkeep : ¬ Releases b.key b.token s (.withLock key ttlMs) := fun hrel => hrel
      exact held_step (hsound.held i b hb hrunning) hkeep h
    · exact hheld

/-- A body keeps its token when it ends. -/
theorem Sound.of_settled (hsound : Sound uuid s) {j : ℕ} {body : Body τ}
    (hbody : s.bodies[j]? = some body)
    (hbodies : s'.bodies = s.bodies.set j { body with running := false })
    (hissued : s'.issued = s.issued) (h : step uuid s (.settle j) = some s') : Sound uuid s' := by
  have hlt : j < s.bodies.length := (List.getElem?_eq_some_iff.mp hbody).1
  have hold : ∀ (i : ℕ) (b : Body τ), s'.bodies[i]? = some b →
      ∃ b₀, s.bodies[i]? = some b₀ ∧ b₀.token = b.token := by
    intro i b hb
    rw [hbodies] at hb
    obtain ⟨rfl, rfl⟩ | ⟨-, hb⟩ := getElem?_set_cases hlt hb
    · exact ⟨body, hbody, rfl⟩
    · exact ⟨b, hb, rfl⟩
  refine ⟨fun i b hb => ?_, fun i k b c hb hc heq => ?_, fun i b hb hrun => ?_⟩
  · obtain ⟨b₀, hb₀, htoken⟩ := hold i b hb
    rw [← htoken, hissued]
    exact hsound.made i b₀ hb₀
  · obtain ⟨b₀, hb₀, hbt⟩ := hold i b hb
    obtain ⟨c₀, hc₀, hct⟩ := hold k c hc
    exact hsound.distinct i k b₀ c₀ hb₀ hc₀ (hbt.trans (heq.trans hct.symm))
  · rw [hbodies] at hb
    obtain ⟨rfl, rfl⟩ | ⟨hne, hb⟩ := getElem?_set_cases hlt hb
    · cases hrun
    · refine held_step (hsound.held i b hb hrun) ?_ h
      rintro ⟨body', hbody', -, htoken⟩
      rw [hbody] at hbody'
      cases hbody'
      exact hne (hsound.distinct i j b body hb hbody htoken.symm)

/-- **One step**: the tokens stay apart and the locks of running bodies stand. -/
theorem sound_step (huuid : Function.Injective uuid) (hsound : Sound uuid s)
    (h : step uuid s l = some s') : Sound uuid s' := by
  cases step_cases h with
  | refused => exact hsound
  | acquired hfree =>
      refine hsound.of_bodies rfl (Nat.le_succ _) h fun i b _ hrel => ?_
      exact hrel
  | @released k t hforeign =>
      refine hsound.of_bodies rfl le_rfl h fun i b hb hrel => ?_
      exact hforeign b (List.mem_of_getElem? hb) hrel.2.symm
  | asked =>
      refine hsound.of_bodies rfl le_rfl h fun i b _ hrel => ?_
      exact hrel
  | entered hfree =>
      refine hsound.of_entered huuid rfl rfl rfl ?_ h
      intro _
      exact Function.update_self ..
  | settled hbody hrunning => exact hsound.of_settled hbody rfl rfl h
  | ticked hms =>
      refine hsound.of_bodies rfl le_rfl h fun i b _ hrel => ?_
      exact hrel

/-- The answer to a step that asks for a lock: a refusal while one stands, or a grant of
the next token, which the step puts into the map. -/
inductive AnswerCase (uuid : ℕ → τ) (s : System τ) (l : Label τ) (a : Acquisition τ) (ttl : ℚ) :
    Prop
  | refused (hacquired : a.acquired = false) (htoken : a.token = none)
  | granted (hacquired : a.acquired = true) (htoken : a.token = some (uuid s.issued))
      (hfree : ∀ lock, s.manager.locks a.key = some lock → lock.expiresAt ≤ s.clock)
      (hafter : ∀ s', step uuid s l = some s' → s'.issued = s.issued + 1
        ∧ s'.manager.locks a.key = some ⟨uuid s.issued, s.clock + ttl⟩)

theorem asks_cases {a : Acquisition τ} {ttl : ℚ} (hasks : l.asks uuid s = some (a, ttl)) :
    AnswerCase uuid s l a ttl := by
  cases l with
  | acquireLock k ttlMs =>
      simp only [Label.asks, Option.some.injEq, Prod.mk.injEq] at hasks
      obtain ⟨rfl, rfl⟩ := hasks
      have hcase := acquire_cases s.manager s.clock k ttlMs (uuid s.issued)
      generalize hr : s.manager.acquireLock s.clock k ttlMs (uuid s.issued) = r at hcase ⊢
      cases hcase with
      | refused _ _ => exact .refused rfl rfl
      | granted hfree =>
          refine .granted rfl rfl hfree fun s' h => ?_
          simp only [step, hr, Option.some.injEq] at h
          subst h
          exact ⟨rfl, Function.update_self ..⟩
  | withLock k ttlMs =>
      simp only [Label.asks, Option.some.injEq, Prod.mk.injEq] at hasks
      obtain ⟨rfl, rfl⟩ := hasks
      have hcase := acquire_cases s.manager s.clock k ttlMs (uuid s.issued)
      generalize hr : s.manager.acquireLock s.clock k ttlMs (uuid s.issued) = r at hcase ⊢
      cases hcase with
      | refused _ _ => exact .refused rfl rfl
      | granted hfree =>
          refine .granted rfl rfl hfree fun s' h => ?_
          simp only [step, Manager.enter, hr, Option.some.injEq] at h
          subst h
          exact ⟨rfl, Function.update_self ..⟩
  | releaseLock k t => cases hasks
  | isLocked k => cases hasks
  | settle i => cases hasks
  | tick ms => cases hasks

theorem issued_step (h : step uuid s l = some s') : s.issued ≤ s'.issued := by
  cases step_cases h <;> simp

/-! ## Runs -/

/-- A granted lock keeps later ones on its key from being granted, and none has its token. -/
theorem granted_stands (huuid : Function.Injective uuid) {a : Acquisition τ} {ttl : ℚ} {token : τ}
    {s₁ : System τ} (hasks : l.asks uuid s = some (a, ttl)) (hacquired : a.acquired = true)
    (htoken : a.token = some token) (hstep : step uuid s l = some s₁) {mid : List (Label τ)}
    {s₂ : System τ} {l' : Label τ} {a' : Acquisition τ} {ttl' : ℚ}
    (hmid : run (step uuid) s₁ mid = some s₂) (hasks' : l'.asks uuid s₂ = some (a', ttl')) :
    (Meets (step uuid) (fun s l => ¬ Releases a.key token s l) s₁ mid →
      s₂.clock < s.clock + ttl → a'.key = a.key → a'.acquired = false)
    ∧ a'.token ≠ some token := by
  cases asks_cases hasks with
  | refused hrefused _ =>
      rw [hrefused] at hacquired
      cases hacquired
  | granted _ hnext _ hafter =>
      obtain rfl := Option.some.inj (htoken.symm.trans hnext)
      obtain ⟨hissued, hrow⟩ := hafter s₁ hstep
      constructor
      · intro hkeep hlive hkey
        have hheld : Held a.key (uuid s.issued) (s.clock + ttl) s₂ :=
          run_meets (fun _ _ _ hh hk hs => held_step hh hk hs) (fun _ => hrow) hkeep hmid
        cases asks_cases hasks' with
        | refused hrefused _ => exact hrefused
        | granted _ _ hfree _ =>
            exact absurd (hfree _ (hkey ▸ hheld hlive)) (not_le.mpr hlive)
      · -- the next token comes after the one that was granted
        have hmono : s₁.issued ≤ s₂.issued :=
          run_induct (I := fun x => s₁.issued ≤ x.issued)
            (fun _ _ _ hle hs => le_trans hle (issued_step hs)) le_rfl hmid
        intro htoken'
        cases asks_cases hasks' with
        | refused _ hnone =>
            rw [hnone] at htoken'
            cases htoken'
        | granted _ hnext' _ _ =>
            have hsame := huuid (Option.some.inj (hnext'.symm.trans htoken'))
            omega

omit [DecidableEq τ] in
/-- Two bodies on one key that run within their time are one. -/
theorem Sound.unique (hsound : Sound uuid s) {i j : ℕ} {b c : Body τ}
    (hb : s.bodies[i]? = some b) (hc : s.bodies[j]? = some c) (hbrun : b.running = true)
    (hcrun : c.running = true) (hkey : b.key = c.key) (hblive : s.clock < b.startedAt + b.ttlMs)
    (hclive : s.clock < c.startedAt + c.ttlMs) : i = j := by
  have hb' := hsound.held i b hb hbrun hblive
  have hc' := hsound.held j c hc hcrun hclive
  rw [hkey, hc'] at hb'
  have htoken : c.token = b.token := congrArg Lock.token (Option.some.inj hb')
  exact hsound.distinct i j b c hb hc htoken.symm

end runs

/-- **The locks exclude and fence**, in every run, for tokens that do not repeat. A
granted lock keeps every later one on its key from being granted until its time is up,
unless it is released with its token; no later grant has its token, and any other token
than the holder's releases nothing; `isLocked` says whether a lock would be refused; and
two bodies on one key are never running while both are within their time. -/
theorem lock_excludes_and_fences (uuid : ℕ → τ) (huuid : Function.Injective uuid) (clock : ℚ)
    (ls : List (Label τ)) (s : System τ)
    (hrun : run (step uuid) (System.initial clock) ls = some s) :
    (∀ (l : Label τ) (a : Acquisition τ) (ttl : ℚ) (token : τ) (s₁ : System τ),
        l.asks uuid s = some (a, ttl) → a.acquired = true → a.token = some token →
        step uuid s l = some s₁ →
      ∀ (mid : List (Label τ)) (s₂ : System τ) (l' : Label τ) (a' : Acquisition τ) (ttl' : ℚ),
        run (step uuid) s₁ mid = some s₂ → l'.asks uuid s₂ = some (a', ttl') →
        (Meets (step uuid) (fun s l => ¬ Releases a.key token s l) s₁ mid →
          s₂.clock < s.clock + ttl → a'.key = a.key → a'.acquired = false)
        ∧ a'.token ≠ some token)
    ∧ (∀ (key : String) (lock : Lock τ) (token : τ), s.manager.locks key = some lock →
        token ≠ lock.token → s.manager.releaseLock key token = (false, s.manager))
    ∧ (∀ (key : String) (ttlMs : Option ℚ), (s.manager.isLocked s.clock key).1 = true
        ↔ (s.manager.acquireLock s.clock key ttlMs (uuid s.issued)).1.acquired = false)
    ∧ (∀ (i j : ℕ) (b c : Body τ), s.bodies[i]? = some b → s.bodies[j]? = some c →
        b.running = true → c.running = true → b.key = c.key →
        s.clock < b.startedAt + b.ttlMs → s.clock < c.startedAt + c.ttlMs → i = j) := by
  have hsound : Sound uuid s :=
    run_induct (fun _ _ _ => sound_step huuid) (sound_initial uuid clock) hrun
  refine ⟨fun l a ttl token s₁ hasks hacquired htoken hstep mid s₂ l' a' ttl' hmid hasks' => ?_,
    fun key lock token hrow hne => releaseLock_other ?_, fun key ttlMs => ?_,
    fun i j b c hb hc hbr hcr hkey hblive hclive => ?_⟩
  · exact granted_stands huuid hasks hacquired htoken hstep hmid hasks'
  · intro lock' hrow'
    rw [hrow] at hrow'
    cases hrow'
    exact hne.symm
  · rw [isLocked_eq_true_iff, acquired_eq_false_iff]
  · exact hsound.unique hb hc hbr hcr hkey hblive hclive

/-- A lock is granted, its time runs out, and the next holder keeps it although the first
releases it late. -/
def takenOver : List (Label ℕ) :=
  [.acquireLock "k" (some 50), .tick 50, .acquireLock "k" none, .releaseLock "k" 0]

theorem lock_excludes_and_fences_taken_over :
    ∃ s, run (step id) (System.initial 0) takenOver = some s
      ∧ s.manager.locks "k" = some ⟨1, 5050⟩
      ∧ s.manager.releaseLock "k" 0 = (false, s.manager) := by
  have hrun : ((run (step id) (System.initial 0) takenOver).bind fun s =>
      (s.manager.locks "k").map fun lock => (lock.token, lock.expiresAt)) = some (1, 5050) := by
    decide +kernel
  obtain ⟨s, hs, hrow⟩ := Option.bind_eq_some_iff.mp hrun
  obtain ⟨lock, hlock, heq⟩ := Option.map_eq_some_iff.mp hrow
  obtain ⟨htoken, hexpires⟩ := Prod.mk.inj heq
  obtain rfl : lock = ⟨1, 5050⟩ := by
    cases lock
    simp_all
  have hne : (0 : ℕ) ≠ (⟨1, 5050⟩ : Lock ℕ).token := by decide
  exact ⟨s, hs, hlock,
    (lock_excludes_and_fences id Function.injective_id 0 takenOver s hs).2.1 "k" _ 0 hlock hne⟩

end LockManager

end LeaveLedger
