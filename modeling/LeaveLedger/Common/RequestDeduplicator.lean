import LeaveLedger.Lib.Machine
import Mathlib

/-!
# Common — RequestDeduplicator

`common/utils/request-deduplication.util`: calls of `execute` with one key
share one task while its entry is fresh. The machine below lets calls be
made, tasks settle and the callers that started them go on, in any order,
while the clock moves. A caller whose task failed deletes the entry of its
key, and by then the entry may be that of a later task.
-/

namespace LeaveLedger

open Lib

namespace RequestDeduplicator

variable {κ ε ρ : Type} [DecidableEq κ]

/-! ## The deduplicator -/

/-- An entry: the promise of a task, and until when it is shared. -/
structure Entry where
  promise : ℕ
  expiresAt : ℤ
  deriving DecidableEq

/-- `ttlMs` and `_cache`, a `Map` that is read through its keys. -/
structure Deduplicator (κ : Type) where
  ttlMs : ℤ
  cache : κ → Option Entry

/-- The constructor: a `ttlMs` that is absent or 0 is a minute. -/
def create (ttlMs : Option ℤ) : Deduplicator κ where
  ttlMs := if ttlMs.getD 0 = 0 then 60000 else ttlMs.getD 0
  cache := fun _ => none

/-- `this._cache.delete(key)`. -/
def Deduplicator.delete (d : Deduplicator κ) (key : κ) : Deduplicator κ :=
  { d with cache := Function.update d.cache key none }

/-- `this._cache.set(key, ..)`. -/
def Deduplicator.set (d : Deduplicator κ) (key : κ) (entry : Entry) : Deduplicator κ :=
  { d with cache := Function.update d.cache key (some entry) }

/-- What a call of `execute` does before its first `await`. -/
inductive Execution where
  | started
  | shared (promise : ℕ)
  deriving DecidableEq

/-- `execute` up to its first `await`; `promise` is the one it makes if it starts its
task. A key that is falsy is no key: its task is not shared. -/
def Deduplicator.execute (d : Deduplicator κ) (now : ℤ) (promise : ℕ) :
    Option κ → Execution × Deduplicator κ
  | none => (.started, d)
  | some key =>
      match d.cache key with
      | some existing =>
          if now < existing.expiresAt then (.shared existing.promise, d)
          else (.started, (d.delete key).set key ⟨promise, now + d.ttlMs⟩)
      | none => (.started, d.set key ⟨promise, now + d.ttlMs⟩)

/-- The `catch` of `execute`. -/
def Deduplicator.onError (d : Deduplicator κ) : Option κ → Deduplicator κ
  | none => d
  | some key => d.delete key

/-! ## Concurrent calls -/

/-- A task that was started: `outcome` is what its promise settled with, and `resumed`
says that the call that started it has gone on. -/
structure Task (κ ε ρ : Type) where
  key : Option κ
  startedAt : ℤ
  outcome : Option (Except ε ρ)
  resumed : Bool

structure System (κ ε ρ : Type) where
  clock : ℤ
  deduplicator : Deduplicator κ
  /-- the tasks by their promises -/
  tasks : List (Task κ ε ρ)
  /-- the promise whose outcome each call receives -/
  calls : List ℕ

def System.initial (ttlMs : Option ℤ) (clock : ℤ) : System κ ε ρ := ⟨clock, create ttlMs, [], []⟩

inductive Label (κ ε ρ : Type) where
  | execute (key : Option κ)
  | settle (promise : ℕ) (outcome : Except ε ρ)
  /-- the call that started the task goes on after its `await` -/
  | resume (promise : ℕ)
  | tick (ms : ℕ)

/-- `execute`, with the promise the call returns. -/
def System.execute (s : System κ ε ρ) (key : Option κ) : System κ ε ρ :=
  match s.deduplicator.execute s.clock s.tasks.length key with
  | (.shared promise, d) => { s with deduplicator := d, calls := s.calls ++ [promise] }
  | (.started, d) => { s with
      deduplicator := d
      tasks := s.tasks ++ [⟨key, s.clock, none, false⟩]
      calls := s.calls ++ [s.tasks.length] }

def step (s : System κ ε ρ) : Label κ ε ρ → Option (System κ ε ρ)
  | .execute key => some (s.execute key)
  | .settle promise outcome => do
      let task ← s.tasks[promise]?
      guard task.outcome.isNone
      some { s with tasks := s.tasks.set promise { task with outcome := some outcome } }
  | .resume promise => do
      let task ← s.tasks[promise]?
      guard (!task.resumed)
      let s := { s with tasks := s.tasks.set promise { task with resumed := true } }
      match ← task.outcome with
      | .ok _ => some s
      | .error _ => some { s with deduplicator := s.deduplicator.onError task.key }
  | .tick ms => some { s with clock := s.clock + ms }

/-- What a call has received so far. -/
def System.received (s : System κ ε ρ) (call : ℕ) : Option (Except ε ρ) := do
  let promise ← s.calls[call]?
  let task ← s.tasks[promise]?
  task.outcome

/-- The task has failed. -/
def Task.failed (task : Task κ ε ρ) : Bool :=
  match task.outcome with
  | some (.error _) => true
  | _ => false

/-- The task runs or has succeeded, and is younger than `ttlMs`. -/
structure System.Live (s : System κ ε ρ) (key : κ) (promise : ℕ) (task : Task κ ε ρ) : Prop where
  row : s.tasks[promise]? = some task
  key : task.key = some key
  failed : task.failed = false
  fresh : s.clock < task.startedAt + s.deduplicator.ttlMs

/-- A call whose task failed finds no entry under its key, or its own. -/
def EvictsOwn (s : System κ ε ρ) : Label κ ε ρ → Prop
  | .resume promise => ∀ task key entry, s.tasks[promise]? = some task → task.failed = true →
      task.key = some key → s.deduplicator.cache key = some entry → entry.promise = promise
  | _ => True

/-- A live task is the one in the cache. -/
def LiveCached (s : System κ ε ρ) : Prop :=
  ∀ key promise task, s.Live key promise task →
    s.deduplicator.cache key = some ⟨promise, task.startedAt + s.deduplicator.ttlMs⟩

/-! ## What a call of `execute` does -/

/-- A call shares what a fresh entry names, or starts its task and makes its entry where
there was none or an old one. -/
inductive ExecuteCase (d : Deduplicator κ) (now : ℤ) (promise : ℕ) (key : κ) :
    Execution × Deduplicator κ → Prop
  | shared {existing : Entry} (hrow : d.cache key = some existing)
      (hfresh : now < existing.expiresAt) :
      ExecuteCase d now promise key (.shared existing.promise, d)
  | started {d' : Deduplicator κ} (hold : ∀ e, d.cache key = some e → e.expiresAt ≤ now)
      (httl : d'.ttlMs = d.ttlMs)
      (hcache : d'.cache = Function.update d.cache key (some ⟨promise, now + d.ttlMs⟩)) :
      ExecuteCase d now promise key (.started, d')

theorem execute_cases (d : Deduplicator κ) (now : ℤ) (promise : ℕ) (key : κ) :
    ExecuteCase d now promise key (d.execute now promise (some key)) := by
  cases hrow : d.cache key with
  | none =>
      simp only [Deduplicator.execute, hrow]
      refine .started ?_ rfl rfl
      intro e he
      rw [hrow] at he
      cases he
  | some existing =>
      by_cases hfresh : now < existing.expiresAt
      · simp only [Deduplicator.execute, hrow, hfresh, if_true]
        exact .shared hrow hfresh
      · simp only [Deduplicator.execute, hrow, hfresh, if_false]
        refine .started ?_ rfl ?_
        · intro e he
          rw [hrow] at he
          cases he
          omega
        · simp [Deduplicator.set, Deduplicator.delete]

/-! ## Live tasks stay in the cache -/

section
variable {s s' : System κ ε ρ} {l : Label κ ε ρ} {key : κ} {promise : ℕ} {task : Task κ ε ρ}

omit [DecidableEq κ] in
theorem initial_cached (ttlMs : Option ℤ) (clock : ℤ) :
    LiveCached (System.initial ttlMs clock : System κ ε ρ) := by
  intro key promise task hlive
  have htask := hlive.row
  simp [System.initial] at htask

/-- A live task keeps its entry when a call is made. -/
theorem execute_cached (hcached : LiveCached s) (key : Option κ) :
    LiveCached (s.execute key) := by
  cases key with
  | none =>
      intro k p t hlive
      obtain htask | ⟨-, rfl⟩ := getElem?_concat_cases hlive.row
      · exact hcached k p t ⟨htask, hlive.key, hlive.failed, hlive.fresh⟩
      · -- the new task has no key
        have hkey := hlive.key
        cases hkey
  | some key =>
      have hcase := execute_cases s.deduplicator s.clock s.tasks.length key
      unfold System.execute
      generalize s.deduplicator.execute s.clock s.tasks.length (some key) = x at hcase
      cases hcase with
      | shared hrow hfresh =>
          intro k p t hlive
          exact hcached k p t ⟨hlive.row, hlive.key, hlive.failed, hlive.fresh⟩
      | @started d' hold httl hcache =>
          intro k p t hlive
          have hfresh := hlive.fresh
          simp only [httl] at hfresh ⊢
          rw [hcache]
          obtain htask | ⟨rfl, rfl⟩ := getElem?_concat_cases hlive.row
          · -- an older task: it is fresh, so the entry just replaced was not its
            have hentry := hcached k p t ⟨htask, hlive.key, hlive.failed, hfresh⟩
            have hk : k ≠ key := by
              intro hk
              subst hk
              have := hold _ hentry
              simp only at this
              omega
            rw [Function.update_of_ne hk]
            exact hentry
          · obtain rfl : key = k := Option.some.inj hlive.key
            exact Function.update_self ..

/-- What a step that settles a task or lets its call go on does: the task is replaced, and
the entry of its key may be deleted if it has failed. -/
inductive ReplaceCase (s s' : System κ ε ρ) (promise : ℕ) (resumes : Prop) : Prop
  | mk (task task' : Task κ ε ρ) (hrow : s.tasks[promise]? = some task)
      (hkey : task'.key = task.key) (hat : task'.startedAt = task.startedAt)
      (hfail : task.failed = true → task'.failed = true)
      (htasks : s'.tasks = s.tasks.set promise task') (hclock : s'.clock = s.clock)
      (hcalls : s'.calls = s.calls) (httl : s'.deduplicator.ttlMs = s.deduplicator.ttlMs)
      (hcache : s'.deduplicator.cache = s.deduplicator.cache ∨ ∃ key, resumes
        ∧ task.failed = true ∧ task.key = some key
        ∧ s'.deduplicator.cache = Function.update s.deduplicator.cache key none) :
      ReplaceCase s s' promise resumes

theorem settle_cases {outcome : Except ε ρ} (h : step s (.settle promise outcome) = some s') :
    ReplaceCase s s' promise False := by
  simp only [step, Option.bind_eq_bind, Option.bind_eq_some_iff] at h
  obtain ⟨task, hrow, _, hguard, hs'⟩ := h
  have hrunning : task.outcome = none := by
    by_contra hsome
    simp [guard, hsome] at hguard
  cases hs'
  refine .mk task ⟨task.key, task.startedAt, some outcome, task.resumed⟩ hrow rfl rfl ?_
    rfl rfl rfl rfl (.inl rfl)
  intro hfailed
  simp [Task.failed, hrunning] at hfailed

theorem resume_cases (h : step s (.resume promise) = some s') :
    ReplaceCase s s' promise True := by
  simp only [step, Option.bind_eq_bind, Option.bind_eq_some_iff] at h
  obtain ⟨task, hrow, _, -, outcome, houtcome, hs'⟩ := h
  cases outcome with
  | ok r =>
      cases hs'
      exact .mk task ⟨task.key, task.startedAt, task.outcome, true⟩ hrow rfl rfl
        (fun hf => hf) rfl rfl rfl rfl (.inl rfl)
  | error e =>
      cases hs'
      cases hkey : task.key with
      | none =>
          exact .mk task ⟨none, task.startedAt, task.outcome, true⟩ hrow hkey.symm rfl
            (fun hf => hf) rfl rfl rfl rfl (.inl rfl)
      | some key =>
          have hfailed : task.failed = true := by simp [Task.failed, houtcome]
          exact .mk task ⟨some key, task.startedAt, task.outcome, true⟩ hrow hkey.symm rfl
            (fun hf => hf) rfl rfl rfl rfl (.inr ⟨key, trivial, hfailed, hkey, rfl⟩)

/-- A replaced task keeps live tasks in the cache, if the entry deleted was its own. -/
theorem replace_cached {resumes : Prop} (hcached : LiveCached s)
    (hown : resumes → ∀ task key entry, s.tasks[promise]? = some task → task.failed = true →
      task.key = some key → s.deduplicator.cache key = some entry → entry.promise = promise)
    (hcase : ReplaceCase s s' promise resumes) : LiveCached s' := by
  obtain ⟨task, task', hrow, hkey, hat, hfail, htasks, hclock, -, httl, hcache⟩ := hcase
  intro k p t hlive
  -- the task was live before
  have hbefore : ∃ t₀, s.Live k p t₀ ∧ t₀.startedAt = t.startedAt := by
    obtain ⟨hp, hk, hfailed, hfresh⟩ := hlive
    rw [htasks] at hp
    rw [hclock, httl] at hfresh
    obtain ⟨rfl, rfl⟩ | ⟨-, hp⟩ := getElem?_set_cases (List.getElem?_eq_some_iff.mp hrow).1 hp
    · have hrunning : task.failed = false := by
        by_contra hf
        rw [hfail (by simpa using hf)] at hfailed
        cases hfailed
      exact ⟨task, ⟨hrow, hkey.symm.trans hk, hrunning, hat ▸ hfresh⟩, hat.symm⟩
    · exact ⟨t, ⟨hp, hk, hfailed, hfresh⟩, rfl⟩
  obtain ⟨t₀, hlive₀, hstart⟩ := hbefore
  have hentry := hcached k p t₀ hlive₀
  rw [httl, ← hstart]
  obtain hsame | ⟨key, hresumes, hfailed, hk, hdeleted⟩ := hcache
  · rw [hsame]
    exact hentry
  · have hne : k ≠ key := by
      intro heq
      subst heq
      -- the entry deleted is that of the failed task, which is not live
      obtain rfl : p = promise := hown hresumes task k _ hrow hfailed hk hentry
      obtain rfl := Option.some.inj (hrow.symm.trans hlive₀.row)
      exact absurd hlive₀.failed (by simp [hfailed])
    rw [hdeleted, Function.update_of_ne hne]
    exact hentry

/-- **One step**: a live task stays in the cache, as long as failures evict their own. -/
theorem step_cached (hcached : LiveCached s) (hown : EvictsOwn s l) (hstep : step s l = some s') :
    LiveCached s' := by
  cases l with
  | execute key =>
      cases hstep
      exact execute_cached hcached key
  | settle promise outcome => exact replace_cached hcached False.elim (settle_cases hstep)
  | resume promise => exact replace_cached hcached (fun _ => hown) (resume_cases hstep)
  | tick ms =>
      cases hstep
      intro k p t hlive
      have hfresh := hlive.fresh
      simp only at hfresh
      exact hcached k p t ⟨hlive.row, hlive.key, hlive.failed, by omega⟩

end

/-! ## Calls receive what their promise settles with -/

/-- A call that was made keeps its promise. -/
theorem step_calls {s s' : System κ ε ρ} {l : Label κ ε ρ} {call promise : ℕ}
    (hcall : s.calls[call]? = some promise) (hstep : step s l = some s') :
    s'.calls[call]? = some promise := by
  have happend : ∀ q, (s.calls ++ [q])[call]? = some promise := by
    intro q
    obtain ⟨hlt, -⟩ := List.getElem?_eq_some_iff.mp hcall
    rw [List.getElem?_append_left hlt]
    exact hcall
  cases l with
  | execute key =>
      cases hstep
      unfold System.execute
      split
      · exact happend _
      · exact happend _
  | settle p outcome =>
      obtain ⟨_, _, -, -, -, -, -, -, hcalls, -, -⟩ := settle_cases hstep
      rw [hcalls]
      exact hcall
  | resume p =>
      obtain ⟨_, _, -, -, -, -, -, -, hcalls, -, -⟩ := resume_cases hstep
      rw [hcalls]
      exact hcall
  | tick ms =>
      cases hstep
      exact hcall

/-- **One live execution per key**: as long as failures evict their own entries, a call
made while a task of its key is younger than `ttlMs` and has not failed starts no task,
and from then on receives what that task's promise settles with. -/
theorem shares_live_task (ttlMs : Option ℤ) (clock : ℤ) (ls : List (Label κ ε ρ))
    (s : System κ ε ρ) (hown : Meets step EvictsOwn (System.initial ttlMs clock) ls)
    (hrun : run step (System.initial ttlMs clock) ls = some s)
    (key : κ) (promise : ℕ) (task : Task κ ε ρ) (hlive : s.Live key promise task) :
    ∃ s₁, step s (.execute (some key)) = some s₁ ∧ s₁.tasks = s.tasks
      ∧ ∀ ls' s', run step s₁ ls' = some s' →
        s'.received s.calls.length = s'.tasks[promise]?.bind Task.outcome := by
  have hcached : LiveCached s :=
    run_meets (fun _ _ _ => step_cached) (initial_cached ttlMs clock) hown hrun
  have hentry := hcached key promise task hlive
  have hexecute : s.execute (some key) = { s with calls := s.calls ++ [promise] } := by
    simp only [System.execute, Deduplicator.execute, hentry, hlive.fresh, if_true]
  refine ⟨s.execute (some key), rfl, by rw [hexecute], fun ls' s' hrun' => ?_⟩
  have hcall : s'.calls[s.calls.length]? = some promise := by
    refine run_induct (fun _ _ _ => step_calls) ?_ hrun'
    rw [hexecute]
    exact List.getElem?_concat_length
  simp [System.received, hcall]

/-- A task of the key runs, and a second call is made before its entry expires. -/
def sharedRun : List (Label String Unit ℕ) :=
  [.execute (some "k"), .tick 5]

theorem shares_live_task_twice :
    ∃ s, run step (System.initial (some 10) 0) sharedRun = some s
      ∧ ∃ s₁, step s (.execute (some "k")) = some s₁ ∧ s₁.tasks = s.tasks
        ∧ ∀ ls' s', run step s₁ ls' = some s' →
          s'.received s.calls.length = s'.tasks[0]?.bind Task.outcome := by
  refine ⟨_, rfl, shares_live_task (some 10) 0 sharedRun _ ?_ rfl "k" 0 _
    ⟨rfl, rfl, rfl, by decide⟩⟩
  refine ⟨trivial, fun s hs => ⟨trivial, fun s hs => trivial⟩⟩

/-- The first task outlives its entry, a second one is started, and the first fails: its
caller evicts the entry of the second, which is live, and the next call starts a third. -/
theorem shares_no_live_task :
    ∃ s task, run step (System.initial (some 10) 0 : System String Unit ℕ)
        [.execute (some "k"), .tick 10, .execute (some "k"), .settle 0 (.error ()), .resume 0]
          = some s
      ∧ s.Live "k" 1 task
      ∧ (s.execute (some "k")).tasks.length = s.tasks.length + 1
      ∧ (s.execute (some "k")).calls[s.calls.length]? = some 2 :=
  ⟨_, _, rfl, ⟨rfl, rfl, rfl, by decide⟩, rfl, rfl⟩

end RequestDeduplicator

end LeaveLedger
