import LeaveLedger.Common.HashUtil
import LeaveLedger.Lib.Machine
import Mathlib.Logic.Function.Basic

/-!
# Common — IdempotencyManager

`common/utils/idempotency.util`: an in-memory store of keys with the
response of the execution that works on each. The machine below lets any
executions call `begin`, `complete` and `remove` in any order while the
clock moves, and keeps the calls as its history. `complete` finds its entry
by the key alone: a response belongs to the execution whose `begin` made
the entry as long as nobody else completes it.
-/

namespace LeaveLedger

open Js Lib

namespace IdempotencyManager

variable {ρ : Type}

/-! ## The manager -/

inductive EntryState where
  | inFlight | completed
  deriving DecidableEq

structure Entry (ρ : Type) where
  state : EntryState
  fingerprint : String
  response : Option ρ
  expiresAt : ℤ

/-- `_ttlMs` and `_store`, a `Map` that is read through its keys. -/
structure Manager (ρ : Type) where
  ttlMs : ℤ
  store : String → Option (Entry ρ)

/-- The constructor: a `ttlMs` that is absent or 0 is a day. -/
def create (ttlMs : Option ℤ) : Manager ρ where
  ttlMs := if ttlMs.getD 0 = 0 then 86400000 else ttlMs.getD 0
  store := fun _ => none

/-- The text `generateFingerprint` digests: a string as it is, anything else
printed, what is falsy as the empty object. -/
def fingerprintText (H : Hashing) : Option Json → String
  | some (.str s) => s
  | none | some .null | some (.bool false) => H.stringify (.obj [])
  | some (.num q) => H.stringify (if q = 0 then .obj [] else .num q)
  | some payload => H.stringify payload

def generateFingerprint (H : Hashing) (payload : Option Json) : String :=
  H.sha256 (fingerprintText H payload)

/-- What `begin` returns. -/
inductive BeginStatus (ρ : Type) where
  | new
  | inFlight
  | completed (response : Option ρ)
  deriving DecidableEq

/-- What `begin` throws. -/
inductive BeginError where
  | invalidKey
  | payloadMismatch
  deriving DecidableEq

/-- `_cleanup`. -/
def Manager.cleanup (m : Manager ρ) (now : ℤ) : Manager ρ :=
  { m with store := fun k => (m.store k).filter fun v => !decide (v.expiresAt ≤ now) }

/-- `begin`, its status or error and the manager after it. -/
def Manager.begin (m : Manager ρ) (H : Hashing) (now : ℤ) (key : String)
    (payload : Option Json) : Except BeginError (BeginStatus ρ) × Manager ρ :=
  if key = "" then (.error .invalidKey, m)
  else
    let m := m.cleanup now
    let fingerprint := generateFingerprint H payload
    match m.store key with
    | some existing =>
        if existing.fingerprint ≠ fingerprint then (.error .payloadMismatch, m)
        else
          match existing.state with
          | .inFlight => (.ok .inFlight, m)
          | .completed => (.ok (.completed existing.response), m)
    | none =>
        (.ok .new, { m with
          store := Function.update m.store key
            (some ⟨.inFlight, fingerprint, none, now + m.ttlMs⟩) })

/-- `complete`. -/
def Manager.complete (m : Manager ρ) (key : String) (response : ρ) : Manager ρ :=
  match m.store key with
  | none => m
  | some existing => { m with
      store := Function.update m.store key
        (some { existing with state := .completed, response := some response }) }

/-- `remove`. -/
def Manager.remove (m : Manager ρ) (key : String) : Manager ρ :=
  { m with store := Function.update m.store key none }

/-! ## Concurrent executions -/

inductive ManagerCall (ρ : Type) where
  | begin (key : String) (payload : Option Json)
  | complete (key : String) (response : ρ)
  | remove (key : String)

/-- A call that was made: who made it, and the status a `begin` returned. -/
structure Event (ρ : Type) where
  execution : ℕ
  call : ManagerCall ρ
  status : Option (BeginStatus ρ)

/-- The event is the `begin` that made an entry for the key. -/
def Event.opens (key : String) (e : Event ρ) : Bool :=
  match e.call, e.status with
  | .begin k _, some .new => k = key
  | _, _ => false

structure System (ρ : Type) where
  clock : ℤ
  manager : Manager ρ
  /-- the calls so far, the latest first -/
  history : List (Event ρ)

def System.initial (ttlMs : Option ℤ) (clock : ℤ) : System ρ := ⟨clock, create ttlMs, []⟩

/-- The `begin` that made the current entry of a key. -/
def System.opening (s : System ρ) (key : String) : Option (Event ρ) :=
  s.history.find? (Event.opens key)

/-- The calls since then. -/
def System.since (s : System ρ) (key : String) : List (Event ρ) :=
  s.history.takeWhile fun e => !e.opens key

inductive Label (ρ : Type) where
  | call (execution : ℕ) (c : ManagerCall ρ)
  | tick (ms : ℕ)

/-- The status a call returns and the manager after it. -/
def Manager.answer (m : Manager ρ) (H : Hashing) (now : ℤ) :
    ManagerCall ρ → Option (BeginStatus ρ) × Manager ρ
  | .begin key payload =>
      match m.begin H now key payload with
      | (.ok status, m) => (some status, m)
      | (.error _, m) => (none, m)
  | .complete key response => (none, m.complete key response)
  | .remove key => (none, m.remove key)

def step (H : Hashing) (s : System ρ) : Label ρ → Option (System ρ)
  | .call execution c => some { s with
      manager := (s.manager.answer H s.clock c).2
      history := ⟨execution, c, (s.manager.answer H s.clock c).1⟩ :: s.history }
  | .tick ms => some { s with clock := s.clock + ms }

/-- A call of `complete` that finds an entry is made by the execution whose `begin`
made that entry. -/
def CompletesOwn (s : System ρ) : Label ρ → Prop
  | .call execution (.complete key _) =>
      (s.manager.store key).isSome → (s.opening key).map Event.execution = some execution
  | _ => True

/-! ## What an entry says -/

/-- The entry is the one its `begin` made, and its response, once it is completed, was
passed to `complete` by the same execution since. -/
structure Backed (H : Hashing) (s : System ρ) (key : String) (entry : Entry ρ) : Prop where
  opening : ∃ o payload, s.opening key = some o ∧ o.call = .begin key payload
    ∧ entry.fingerprint = generateFingerprint H payload
    ∧ (entry.state = .completed → ∃ r, entry.response = some r
      ∧ ∃ e ∈ s.since key, e.execution = o.execution ∧ e.call = .complete key r)

/-- Every entry is backed by the history. -/
def EntriesBacked (H : Hashing) (s : System ρ) : Prop :=
  ∀ key entry, s.manager.store key = some entry → Backed H s key entry

/-! ## What the calls do to the store -/

variable {H : Hashing} {m : Manager ρ} {now : ℤ} {key : String} {payload : Option Json}

/-- What is left after a cleanup was there before. -/
theorem store_of_cleanup {k : String} {entry : Entry ρ}
    (h : (m.cleanup now).store k = some entry) : m.store k = some entry := by
  simp only [Manager.cleanup, Option.filter_eq_some_iff] at h
  exact h.1

theorem store_complete {k : String} {r : ρ} :
    (m.complete key r).store k = if k = key
      then (m.store key).map fun e => { e with state := .completed, response := some r }
      else m.store k := by
  unfold Manager.complete
  by_cases hk : k = key
  · subst hk
    cases hrow : m.store k <;> simp [hrow]
  · cases hrow : m.store key <;> simp [hk]

theorem store_remove {k : String} :
    (m.remove key).store k = if k = key then none else m.store k := by
  simp [Manager.remove, Function.update_apply]

/-- What `begin` did: it made an entry, or it kept those that have not expired. -/
inductive BeginCase (H : Hashing) (m : Manager ρ) (key : String) (payload : Option Json) :
    Option (BeginStatus ρ) × Manager ρ → Prop
  | made {m' : Manager ρ} {entry : Entry ρ} (hstate : entry.state = .inFlight)
      (hfingerprint : entry.fingerprint = generateFingerprint H payload)
      (hself : m'.store key = some entry)
      (hother : ∀ k e, k ≠ key → m'.store k = some e → m.store k = some e) :
      BeginCase H m key payload (some .new, m')
  | kept {status : Option (BeginStatus ρ)} {m' : Manager ρ} (hstatus : status ≠ some .new)
      (hstore : ∀ k e, m'.store k = some e → m.store k = some e)
      (hread : ∀ r, status = some (.completed r) → ∃ entry, m.store key = some entry
        ∧ entry.state = .completed ∧ entry.response = r
        ∧ entry.fingerprint = generateFingerprint H payload) :
      BeginCase H m key payload (status, m')

theorem begin_cases (m : Manager ρ) (H : Hashing) (now : ℤ) (key : String)
    (payload : Option Json) : BeginCase H m key payload (m.answer H now (.begin key payload)) := by
  have hclean : ∀ k e, (m.cleanup now).store k = some e → m.store k = some e :=
    fun k e h => store_of_cleanup h
  unfold Manager.answer Manager.begin
  by_cases hkey : key = ""
  · simp only [hkey, if_true]
    exact .kept (by simp) (fun k e h => h) (by simp)
  simp only [hkey, if_false]
  cases hrow : (m.cleanup now).store key with
  | none =>
      have hother : ∀ k e, k ≠ key → (Function.update (m.cleanup now).store key
          (some ⟨.inFlight, generateFingerprint H payload, none, now + m.ttlMs⟩)) k = some e →
          m.store k = some e := by
        intro k e hk h
        rw [Function.update_of_ne hk] at h
        exact hclean k e h
      exact .made rfl rfl (Function.update_self ..) hother
  | some existing =>
      by_cases hfp : existing.fingerprint = generateFingerprint H payload
      · simp only [ne_eq, hfp, not_true, if_false]
        cases hstate : existing.state with
        | inFlight => exact .kept (by simp) hclean (by simp)
        | completed =>
            refine .kept (by simp) hclean ?_
            intro r hr
            exact ⟨existing, hclean _ _ hrow, hstate, by simpa using hr, hfp⟩
      · simp only [ne_eq, hfp, not_false_eq_true, if_true]
        exact .kept (by simp) hclean (by simp)

/-! ## The history keeps up with the store -/

section
variable {s : System ρ} {m' : Manager ρ} {e : Event ρ} {entry : Entry ρ}

/-- A call that opens no entry for the key leaves its entry as it was backed. -/
theorem Backed.push (h : Backed H s key entry) (hopens : e.opens key = false) :
    Backed H { s with manager := m', history := e :: s.history } key entry := by
  obtain ⟨o, payload, hopening, hcall, hfp, hdone⟩ := h.opening
  refine ⟨o, payload, ?_, hcall, hfp, fun hstate => ?_⟩
  · simp only [System.opening, List.find?_cons, hopens]
    exact hopening
  · obtain ⟨r, hr, c, hc, hown⟩ := hdone hstate
    refine ⟨r, hr, c, ?_, hown⟩
    simp only [System.since, List.takeWhile_cons, hopens, Bool.not_false, if_true]
    exact List.mem_cons_of_mem _ hc

theorem initial_backed (H : Hashing) (ttlMs : Option ℤ) (clock : ℤ) :
    EntriesBacked H (System.initial ttlMs clock : System ρ) := by
  intro key entry h
  simp [System.initial, create] at h

/-- A new entry is backed by the call that made it, and no other entry by another call. -/
theorem backed_begin (hbacked : EntriesBacked H s) (execution : ℕ)
    {status : Option (BeginStatus ρ)} {key : String} {payload : Option Json}
    (hcase : BeginCase H s.manager key payload (status, m')) :
    EntriesBacked H { s with
      manager := m', history := ⟨execution, .begin key payload, status⟩ :: s.history } := by
  intro k entry h
  cases hcase with
  | @made _ new hstate hfp hself hother =>
      by_cases hk : k = key
      · -- the entry that was just made
        subst hk
        obtain rfl := Option.some.inj (hself.symm.trans h)
        refine ⟨⟨execution, .begin k payload, some .new⟩, payload, ?_, rfl, hfp, ?_⟩
        · simp [System.opening, Event.opens]
        · intro hdone
          rw [hstate] at hdone
          cases hdone
      · refine (hbacked k entry (hother k entry hk h)).push ?_
        simpa [Event.opens] using Ne.symm hk
  | kept hstatus hstore hread =>
      refine (hbacked k entry (hstore k entry h)).push ?_
      cases status with
      | none => rfl
      | some status =>
          cases status with
          | new => exact absurd rfl hstatus
          | inFlight => rfl
          | completed r => rfl

/-- An execution that completes its own entry backs it. -/
theorem backed_complete (hbacked : EntriesBacked H s) {execution : ℕ} {key : String} {response : ρ}
    (hown : CompletesOwn s (.call execution (.complete key response))) :
    EntriesBacked H { s with
      manager := s.manager.complete key response
      history := ⟨execution, .complete key response, none⟩ :: s.history } := by
  intro k entry h
  replace h : (s.manager.complete key response).store k = some entry := h
  rw [store_complete] at h
  by_cases hk : k = key
  · subst hk
    rw [if_pos rfl] at h
    obtain ⟨old, hrow, rfl⟩ := Option.map_eq_some_iff.mp h
    obtain ⟨o, payload, hopening, hcall, hfp, -⟩ := (hbacked k old hrow).opening
    have howner := hown (by rw [hrow]; rfl)
    rw [hopening] at howner
    refine ⟨o, payload, ?_, hcall, hfp, fun _ => ⟨response, rfl,
      ⟨execution, .complete k response, none⟩, ?_, ?_, rfl⟩⟩
    · simpa [System.opening, Event.opens] using hopening
    · simp only [System.since, List.takeWhile_cons, Event.opens, Bool.not_false, if_true]
      exact List.mem_cons_self
    · exact (Option.some.inj howner).symm
  · rw [if_neg hk] at h
    exact (hbacked k entry h).push rfl

theorem backed_remove (hbacked : EntriesBacked H s) (execution : ℕ) (key : String) :
    EntriesBacked H { s with
      manager := s.manager.remove key
      history := ⟨execution, .remove key, none⟩ :: s.history } := by
  intro k entry h
  replace h : (s.manager.remove key).store k = some entry := h
  rw [store_remove] at h
  by_cases hk : k = key
  · rw [if_pos hk] at h
    cases h
  · rw [if_neg hk] at h
    exact (hbacked k entry h).push rfl

/-- **One call**: entries stay backed, as long as executions complete their own. -/
theorem step_backed {s' : System ρ} {l : Label ρ} (hbacked : EntriesBacked H s)
    (hown : CompletesOwn s l) (hstep : step H s l = some s') : EntriesBacked H s' := by
  cases l with
  | tick ms =>
      cases hstep
      intro key entry h
      exact ⟨(hbacked key entry h).opening⟩
  | call execution c =>
      cases hstep
      cases c with
      | begin key payload =>
          exact backed_begin hbacked execution (begin_cases s.manager H s.clock key payload)
      | complete key response => exact backed_complete hbacked hown
      | remove key => exact backed_remove hbacked execution key

end

/-! ## Runs -/

/-- **Replays**: as long as each execution completes its own entry, a `begin` that
returns `COMPLETED` returns the response that the execution whose `begin` made the
entry, for a payload with the same fingerprint, has passed to `complete` since. -/
theorem replays_own_response (H : Hashing) (ttlMs : Option ℤ) (clock : ℤ) (ls : List (Label ρ))
    (s : System ρ) (hown : Meets (step H) CompletesOwn (System.initial ttlMs clock) ls)
    (hrun : run (step H) (System.initial ttlMs clock) ls = some s)
    (key : String) (payload : Option Json) (response : Option ρ)
    (hbegin : (s.manager.begin H s.clock key payload).1 = .ok (.completed response)) :
    ∃ o payload' r, response = some r ∧ s.opening key = some o ∧ o.call = .begin key payload'
      ∧ generateFingerprint H payload' = generateFingerprint H payload
      ∧ ∃ e ∈ s.since key, e.execution = o.execution ∧ e.call = .complete key r := by
  have hbacked : EntriesBacked H s :=
    run_meets (fun _ _ _ => step_backed) (initial_backed H ttlMs clock) hown hrun
  have hcase := begin_cases s.manager H s.clock key payload
  have hanswer : (s.manager.answer H s.clock (.begin key payload)).1
      = some (.completed response) := by
    cases hx : s.manager.begin H s.clock key payload with
    | mk status m =>
        rw [hx] at hbegin
        obtain rfl : status = .ok (.completed response) := hbegin
        simp only [Manager.answer, hx]
  generalize s.manager.answer H s.clock (.begin key payload) = x at hcase hanswer
  cases hcase with
  | made hstate hfp hself hother => cases hanswer
  | kept hstatus hstore hread =>
      obtain ⟨entry, hrow, hstate, hresponse, hfp⟩ := hread response hanswer
      obtain ⟨o, payload', hopening, hcall, hfp', hdone⟩ := (hbacked key entry hrow).opening
      obtain ⟨r, hr, hown⟩ := hdone hstate
      exact ⟨o, payload', r, hresponse.symm.trans hr, hopening, hcall, hfp'.symm.trans hfp, hown⟩

/-- One execution works on a key and another asks after it. -/
def sharedKey : List (Label ℕ) :=
  [.call 1 (.begin "k" none), .call 1 (.complete "k" 7), .tick 500]

theorem replays_own_response_shared :
    ∃ s, run (step Hashing.plain) (System.initial (some 1000) 0) sharedKey = some s
      ∧ ∃ o payload' r, some 7 = some r ∧ s.opening "k" = some o
        ∧ o.call = .begin "k" payload'
        ∧ generateFingerprint Hashing.plain payload' = generateFingerprint Hashing.plain none
        ∧ ∃ e ∈ s.since "k", e.execution = o.execution ∧ e.call = .complete "k" r := by
  refine ⟨_, rfl, replays_own_response Hashing.plain (some 1000) 0 sharedKey _ ?_ rfl "k" none
    (some 7) rfl⟩
  refine ⟨trivial, fun s hs => ?_⟩
  cases hs
  refine ⟨fun _ => rfl, fun s hs => ?_⟩
  cases hs
  exact ⟨trivial, fun s hs => trivial⟩

/-- The entry of the first execution expires, a second one begins anew, and the first
completes after all: the next `begin` gets its response as that of the second. -/
theorem replays_foreign_response :
    ∃ s o, run (step Hashing.plain) (System.initial (some 1000) 0)
        [.call 1 (.begin "k" none), .tick 1000, .call 2 (.begin "k" none),
          .call 1 (.complete "k" 7)] = some s
      ∧ (s.manager.begin Hashing.plain s.clock "k" none).1 = .ok (.completed (some 7))
      ∧ s.opening "k" = some o ∧ o.execution = 2
      ∧ ∀ e ∈ s.since "k", e.execution ≠ 2 := by
  refine ⟨_, _, rfl, rfl, rfl, rfl, ?_⟩
  intro e he
  obtain rfl : e = ⟨1, .complete "k" 7, none⟩ := List.mem_singleton.mp he
  decide

end IdempotencyManager

end LeaveLedger
