import LeaveLedger.TimeOff.CreateLock
import Mathlib.Data.List.Induction

/-!
# TimeOff — Runs of the create lanes

What the invariant of the promise chain gives over whole runs:
`lane_exclusion` for the bodies of one lane, and `chain_refines_lanes`, which
relates the chain to the lanes that the calls of `createRequest` are run with.
-/

namespace LeaveLedger

open Lib

namespace LockChain

variable {α : Type}

/-! ## Starts and ends of the bodies -/

/-- The calls whose bodies start, in the order of the run. -/
def starts (ls : List (LockLabel α)) : List ℕ :=
  ls.filterMap fun
    | .move i .resume => some i
    | _ => none

def Started (s : LockChain α) (i : ℕ) : Prop := ∃ c, s.calls[i]? = some c ∧ c.phase ≠ .awaiting

/-- The body of call `i` has come to `r`. -/
def EndedWith (s : LockChain α) (i : ℕ) (r : α) : Prop :=
  ∃ c, s.calls[i]? = some c ∧ (c.phase = .ended r ∨ c.phase = .settled r)

/-- A fact about one call changes by a move of this call alone. -/
theorem step_call_iff {P : LockCall α → Prop}
    (hnew : ∀ k p, ¬ P ⟨k, p, .registered, false, .awaiting⟩)
    {s s' : LockChain α} {l : LockLabel α} {i : ℕ} {Q : Prop} (hstep : s.step l = some s')
    (hother : (∀ m, l ≠ .move i m) → ¬ Q)
    (hmove : ∀ m c c', l = .move i m → s.calls[i]? = some c →
      LockCall.MoveCase (s.ready c) c m c' → (P c' ↔ P c ∨ Q)) :
    (∃ c, s'.calls[i]? = some c ∧ P c) ↔ (∃ c, s.calls[i]? = some c ∧ P c) ∨ Q := by
  have hframe : (∀ m, l ≠ .move i m) → (∀ c, P c → (s'.calls[i]? = some c ↔ s.calls[i]? = some c)) →
      ((∃ c, s'.calls[i]? = some c ∧ P c) ↔ (∃ c, s.calls[i]? = some c ∧ P c) ∨ Q) := by
    intro hl hsame
    constructor
    · rintro ⟨c, hc, hp⟩
      exact Or.inl ⟨c, (hsame c hp).mp hc, hp⟩
    · rintro (⟨c, hc, hp⟩ | hq)
      · exact ⟨c, (hsame c hp).mpr hc, hp⟩
      · exact absurd hq (hother hl)
  cases step_cases hstep with
  | call lockKey =>
      refine hframe (fun m hm => by cases hm) fun c hp => ⟨fun hc => ?_, fun hc => ?_⟩
      · rcases enter_getElem hc with hold | ⟨-, rfl⟩
        · exact hold
        · exact absurd hp (hnew _ _)
      · show (s.calls ++ _)[i]? = some c
        rw [List.getElem?_append_left (List.getElem?_eq_some_iff.mp hc).1]
        exact hc
  | @move j m d d' hd hm =>
      have hlt : j < s.calls.length := (List.getElem?_eq_some_iff.mp hd).1
      by_cases hij : i = j
      · subst hij
        have hiff := hmove m d d' rfl hd hm
        rw [List.getElem?_set_self hlt, hd]
        simpa using hiff
      · refine hframe (fun m' hm' => hij (by cases hm'; rfl)) fun c _ => ?_
        rw [List.getElem?_set_ne (Ne.symm hij)]

theorem started_step {s s' : LockChain α} {l : LockLabel α} {i : ℕ} (hstep : s.step l = some s') :
    Started s' i ↔ Started s i ∨ l = .move i .resume := by
  refine step_call_iff (by simp) hstep (fun hl => hl .resume) fun m c c' hl _ hmove => ?_
  subst hl
  cases hmove with
  | resume _ hphase => simp
  | endBody hphase => simp [hphase]
  | leave hphase => simp [hphase]
  | _ => simp

theorem endedWith_step {s s' : LockChain α} {l : LockLabel α} {i : ℕ} {r : α}
    (hstep : s.step l = some s') :
    EndedWith s' i r ↔ EndedWith s i r ∨ l = .move i (.endBody r) := by
  refine step_call_iff (by simp) hstep (fun hl => hl (.endBody r)) fun m c c' hl _ hmove => ?_
  subst hl
  cases hmove with
  | resume _ hphase => simp [hphase]
  | endBody hphase => simp [hphase]
  | leave hphase => simp [hphase]
  | _ => simp

theorem starts_snoc (ls : List (LockLabel α)) (l : LockLabel α) :
    starts (ls ++ [l]) = starts ls ++ starts [l] :=
  List.filterMap_append

theorem mem_starts {ls : List (LockLabel α)} {s : LockChain α}
    (hrun : run step initial ls = some s) {i : ℕ} : i ∈ starts ls ↔ Started s i := by
  induction ls using List.reverseRecOn generalizing s with
  | nil =>
      cases hrun
      simp [starts, Started, initial]
  | append_singleton ls l ih =>
      obtain ⟨s', hrun', hstep⟩ := run_snoc_some hrun
      rw [starts_snoc, List.mem_append, ih hrun', started_step hstep]
      refine or_congr_right ?_
      cases l with
      | call lockKey => simp [starts]
      | move j m => cases m <;> simp [starts, eq_comm]

theorem mem_endBody {ls : List (LockLabel α)} {s : LockChain α}
    (hrun : run step initial ls = some s) {i : ℕ} {r : α} :
    .move i (.endBody r) ∈ ls ↔ EndedWith s i r := by
  induction ls using List.reverseRecOn generalizing s with
  | nil =>
      cases hrun
      simp [EndedWith, initial]
  | append_singleton ls l ih =>
      obtain ⟨s', hrun', hstep⟩ := run_snoc_some hrun
      rw [List.mem_append, ih hrun', endedWith_step hstep, List.mem_singleton, eq_comm]

/-- The key of a call, once it is made. -/
def keyOf (s : LockChain α) (i : ℕ) : Option String := s.calls[i]?.map (·.key)

theorem keyOf_step {s s' : LockChain α} {l : LockLabel α} {i : ℕ} (hstep : s.step l = some s')
    (hi : i < s.calls.length) : keyOf s' i = keyOf s i := by
  obtain ⟨c', hc', hon⟩ := onward_of_step hstep i _ (List.getElem?_eq_getElem hi)
  unfold keyOf
  rw [hc', List.getElem?_eq_getElem hi]
  exact congrArg some hon.key

theorem Started.lt {s : LockChain α} {i : ℕ} (h : Started s i) : i < s.calls.length := by
  obtain ⟨c, hc, -⟩ := h
  exact (List.getElem?_eq_some_iff.mp hc).1

/-- In one lane the bodies start in the order of the calls, each once. -/
theorem starts_ordered {ls : List (LockLabel α)} {s : LockChain α}
    (hrun : run step initial ls = some s) :
    (starts ls).Pairwise fun i j => keyOf s i = keyOf s j → i < j := by
  induction ls using List.reverseRecOn generalizing s with
  | nil => exact List.Pairwise.nil
  | append_singleton ls l ih =>
      obtain ⟨s', hrun', hstep⟩ := run_snoc_some hrun
      have hold : (starts ls).Pairwise fun i j => keyOf s i = keyOf s j → i < j := by
        refine (ih hrun').imp_of_mem fun {i j} hi hj hij hkey => hij ?_
        rw [← keyOf_step hstep ((mem_starts hrun').mp hi).lt,
          ← keyOf_step hstep ((mem_starts hrun').mp hj).lt, hkey]
      rw [starts_snoc]
      cases l with
      | call lockKey => simpa [starts] using hold
      | move j m =>
          cases m with
          | resume =>
              rw [show starts [(.move j .resume : LockLabel α)] = [j] from rfl]
              refine List.pairwise_append.mpr ⟨hold, List.pairwise_singleton _ _, ?_⟩
              intro i hi j' hj' hkey
              rw [List.mem_singleton] at hj'
              subst hj'
              obtain ⟨c, hc, hphase⟩ := (mem_starts hrun').mp hi
              rw [keyOf_step hstep (List.getElem?_eq_some_iff.mp hc).1] at hkey
              cases step_cases hstep with
              | @move _ _ d d' hd hmove =>
                  rw [keyOf_step hstep (List.getElem?_eq_some_iff.mp hd).1] at hkey
                  unfold keyOf at hkey
                  rw [hc, hd] at hkey
                  have hck : c.key = d.key := Option.some.inj hkey
                  cases hmove with
                  | resume hready hawaiting =>
                      by_contra hnot
                      -- a later body of the lane had started before this one settled
                      rcases Nat.lt_or_eq_of_le (Nat.le_of_not_lt hnot) with hlt | heq
                      · have hstarted := ((chainInv_run hrun').calls i c hc).started hphase
                        obtain ⟨r, hr⟩ := hstarted.2 j' d hlt hd hck.symm
                        rw [hr] at hawaiting
                        cases hawaiting
                      · subst heq
                        rw [hc] at hd
                        cases hd
                        exact hphase hawaiting
          | _ => simpa [starts] using hold

/-! ## Progress -/

/-- The turns of the microtask queue that a call still needs, the end of its
body apart. -/
def pendingJobs (c : LockCall α) : ℕ :=
  (match c.next with
    | .registered => 3
    | .following => 2
    | .subscribed => 1
    | .fulfilled => 0)
  + match c.phase with
    | .awaiting | .ended _ => 1
    | .running | .settled _ => 0

theorem pendingJobs_le (c : LockCall α) : pendingJobs c ≤ 4 := by
  unfold pendingJobs
  cases c.next <;> cases c.phase <;> simp

/-- A move that the event loop makes by itself. -/
def IsJob : LockLabel α → Prop
  | .call _ => False
  | .move _ (.endBody _) => False
  | .move _ _ => True

def pending (s : LockChain α) : ℕ := (s.calls.map pendingJobs).sum

theorem sum_map_set (f : LockCall α → ℕ) (c' : LockCall α) {cs : List (LockCall α)} {i : ℕ}
    {c : LockCall α} (hc : cs[i]? = some c) :
    ((cs.set i c').map f).sum + f c = (cs.map f).sum + f c' := by
  induction cs generalizing i with
  | nil => simp at hc
  | cons d cs ih =>
      cases i with
      | zero =>
          rw [List.getElem?_cons_zero] at hc
          cases hc
          simp only [List.set_cons_zero, List.map_cons, List.sum_cons]
          omega
      | succ i =>
          rw [List.getElem?_cons_succ] at hc
          have := ih hc
          simp only [List.set_cons_succ, List.map_cons, List.sum_cons]
          omega

theorem pending_step {s s' : LockChain α} {l : LockLabel α} (hstep : s.step l = some s')
    (hl : IsJob l) : pending s' + 1 = pending s := by
  cases step_cases hstep with
  | call => exact hl.elim
  | @move i m c c' hc hmove =>
      have hsum := sum_map_set pendingJobs c' hc
      have hone : pendingJobs c' + 1 = pendingJobs c := by
        cases hmove with
        | runHandler _ hnext => simp only [pendingJobs, hnext]; omega
        | subscribe hnext => simp only [pendingJobs, hnext]; omega
        | fulfillNext _ hnext => simp only [pendingJobs, hnext]; omega
        | resume _ hphase => simp only [pendingJobs, hphase]
        | endBody => exact hl.elim
        | leave hphase => simp only [pendingJobs, hphase]
      unfold pending
      dsimp only
      omega

/-- The event loop comes to rest: it makes at most four turns for every call. -/
theorem jobs_drain {jobs : List (LockLabel α)} {s s' : LockChain α}
    (hrun : run step s jobs = some s') (hjobs : ∀ l ∈ jobs, IsJob l) :
    jobs.length ≤ 4 * s.calls.length := by
  have hlength : jobs.length + pending s' = pending s := by
    induction jobs generalizing s with
    | nil => cases hrun; simp
    | cons l jobs ih =>
        obtain ⟨s₁, hstep, hrest⟩ := run_cons_some hrun
        have h₁ := pending_step hstep (hjobs l (by simp))
        have h₂ := ih hrest fun l' hl' => hjobs l' (by simp [hl'])
        simp only [List.length_cons]
        omega
  have hle : pending s ≤ s.calls.length * 4 := by
    have h := List.sum_le_card_nsmul (s.calls.map pendingJobs) 4 fun x hx => by
      obtain ⟨c, -, rfl⟩ := List.mem_map.mp hx
      exact pendingJobs_le c
    simpa [pending] using h
  omega

/-- At rest, with no body running, every call has settled. -/
theorem settled_of_idle {s : LockChain α} (h : ChainInv s)
    (hidle : ∀ l, IsJob l → s.step l = none)
    (hbodies : ∀ (i : ℕ) c, s.calls[i]? = some c → c.phase ≠ .running) :
    ∀ (i : ℕ) c, s.calls[i]? = some c → c.Settled := by
  have hno : ∀ (i : ℕ) (c : LockCall α) (m : LockMove α), s.calls[i]? = some c →
      IsJob (.move i m) → c.move (s.ready c) m = none := by
    intro i c m hc hjob
    have hnone := hidle _ hjob
    simp only [step, hc] at hnone
    exact Option.map_eq_none_iff.mp hnone
  intro i
  -- the calls settle in the order they were made
  induction i using Nat.strong_induction_on with
  | _ i ih =>
      intro c hc
      have hok := h.calls i c hc
      cases hphase : c.phase with
      | running => exact absurd hphase (hbodies i c hc)
      | settled r => exact ⟨r, hphase⟩
      | ended r =>
          have := hno i c .leave hc trivial
          simp [LockCall.move, hphase] at this
      | awaiting =>
          have hnotReady : s.ready c = false := by
            by_contra hr
            have := hno i c .resume hc trivial
            simp [LockCall.move, hphase, hr] at this
          exfalso
          cases hp : c.previous with
          | none => simp [ready, hp] at hnotReady
          | some p =>
              obtain ⟨hlt, ⟨d, hd, -⟩, -⟩ := hok.behind p hp
              obtain ⟨r, hr⟩ := ih p hlt d hd
              have hokd := h.calls p d hd
              have hreleased : d.released = true := hokd.released.mpr ⟨r, hr⟩
              have hready : s.ready d = true := (hokd.started (by rw [hr]; simp)).1
              cases hnext : d.next with
              | registered =>
                  have := hno p d .runHandler hd trivial
                  simp [LockCall.move, hnext, hready] at this
              | following =>
                  have := hno p d .subscribe hd trivial
                  simp [LockCall.move, hnext] at this
              | subscribed =>
                  have := hno p d .fulfillNext hd trivial
                  simp [LockCall.move, hnext, hreleased] at this
              | fulfilled => simp [ready, hp, hd, hnext] at hnotReady

/-! ## Mutual exclusion -/

/-- What the run `ls` that ends in `s` has done in the lanes. -/
structure LaneExclusion (ls : List (LockLabel α)) (s : LockChain α) : Prop where
  /-- two bodies of one lane are never active together -/
  exclusive : ∀ (i j : ℕ) c d, s.calls[i]? = some c → s.calls[j]? = some d → c.key = d.key →
    c.Active → d.Active → i = j
  /-- the bodies of a lane start in the order of the calls, each at most once -/
  inOrder : (starts ls).Pairwise fun i j => keyOf s i = keyOf s j → i < j
  /-- a body starts when the calls before it in the lane have settled -/
  inTurn : ∀ i ∈ starts ls, ∀ (j : ℕ) d, j < i → s.calls[j]? = some d →
    some d.key = keyOf s i → d.Settled
  /-- a call that has settled has run its body once, and settled with what the
  body came to -/
  ownResult : ∀ (i : ℕ) c r, s.calls[i]? = some c → c.phase = .settled r →
    i ∈ starts ls ∧ (starts ls).Nodup ∧ ∀ r', .move i (.endBody r') ∈ ls ↔ r' = r
  /-- with no call outstanding the map is empty -/
  cleanedUp : (∀ (i : ℕ) c, s.calls[i]? = some c → c.Settled) → s.createLocks = ∅
  /-- the event loop comes to rest, and then only a running body keeps a call
  from settling -/
  drains : ∀ jobs s', (∀ l ∈ jobs, IsJob l) → run step s jobs = some s' →
    jobs.length ≤ 4 * s.calls.length
  settles : (∀ l, IsJob l → s.step l = none) →
    (∀ (i : ℕ) c, s.calls[i]? = some c → c.phase ≠ .running) →
    ∀ (i : ℕ) c, s.calls[i]? = some c → c.Settled

theorem LockCall.Active.phase_ne {c : LockCall α} (h : c.Active) :
    c.phase ≠ .awaiting ∧ ¬ c.Settled := by
  rcases h with h | ⟨r, h⟩
  · exact ⟨by rw [h]; simp, fun ⟨r, hr⟩ => by rw [h] at hr; cases hr⟩
  · exact ⟨by rw [h]; simp, fun ⟨r', hr⟩ => by rw [h] at hr; cases hr⟩

theorem not_active_of_lt {s : LockChain α} (h : ChainInv s) {i j : ℕ} {c d : LockCall α}
    (hc : s.calls[i]? = some c) (hd : s.calls[j]? = some d) (hk : c.key = d.key)
    (hci : c.Active) (hdj : d.Active) : ¬ i < j := fun hlt =>
  (LockCall.Active.phase_ne hci).2
    (((h.calls j d hd).started (LockCall.Active.phase_ne hdj).1).2 i c hlt hc hk)

/-- **The create lanes**: for every interleaving of calls on any keys, of the jobs
of their promises, and of the ends of their bodies. -/
theorem lane_exclusion (ls : List (LockLabel α)) (s : LockChain α)
    (hrun : run step initial ls = some s) : LaneExclusion ls s where
  exclusive := by
    intro i j c d hc hd hk hci hdj
    have h := chainInv_run hrun
    have h₁ := not_active_of_lt h hc hd hk hci hdj
    have h₂ := not_active_of_lt h hd hc hk.symm hdj hci
    omega
  inOrder := starts_ordered hrun
  inTurn := by
    intro i hi j d hj hd hk
    obtain ⟨c, hc, hphase⟩ := (mem_starts hrun).mp hi
    unfold keyOf at hk
    rw [hc] at hk
    exact (((chainInv_run hrun).calls i c hc).started hphase).2 j d hj hd (Option.some.inj hk)
  ownResult := by
    intro i c r hc hr
    refine ⟨(mem_starts hrun).mpr ⟨c, hc, by rw [hr]; simp⟩, ?_, fun r' => ?_⟩
    · exact (starts_ordered hrun).imp fun {i j} hij heq => by
        subst heq
        exact absurd (hij rfl) (Nat.lt_irrefl _)
    · rw [mem_endBody hrun]
      constructor
      · rintro ⟨d, hd, hphase⟩
        rw [hc] at hd
        cases hd
        rw [hr] at hphase
        rcases hphase with hphase | hphase
        · cases hphase
        · cases hphase; rfl
      · rintro rfl
        exact ⟨c, hc, Or.inr hr⟩
  cleanedUp := by
    intro hall
    refine AList.ext_iff.mpr ?_
    have hkeys : ∀ k, s.createLocks.lookup k = none := by
      intro k
      cases hk : s.createLocks.lookup k with
      | none => rfl
      | some j =>
          obtain ⟨⟨d, hd, -, hno⟩, -⟩ := (chainInv_run hrun).entry k j hk
          exact absurd (hall j d hd) hno
    have hempty : s.createLocks.entries = [] := by
      cases he : s.createLocks.entries with
      | nil => rfl
      | cons x xs =>
          have hx : x.1 ∈ s.createLocks := by
            rw [AList.mem_keys, AList.keys, he]
            simp
          have := AList.lookup_eq_none.mp (hkeys x.1)
          exact absurd hx this
    exact hempty
  drains := fun jobs s' hjobs hjrun => jobs_drain hjrun hjobs
  settles := settled_of_idle (chainInv_run hrun)

/-- Two calls of one lane, the first of which throws. -/
def throwingRun : List (LockLabel (Except String ℕ)) :=
  [.call "EMP1:LOC1", .call "EMP1:LOC1", .move 0 .runHandler, .move 0 .resume, .move 0 .subscribe,
    .move 0 (.endBody (.error "tx")), .move 0 .leave, .move 0 .fulfillNext, .move 1 .runHandler,
    .move 1 .resume, .move 1 (.endBody (.ok 2)), .move 1 .leave]

theorem lane_exclusion_throwing : ∃ s, run step initial throwingRun = some s
    ∧ s.calls.map (·.phase) = [.settled (.error "tx"), .settled (.ok 2)]
    ∧ LaneExclusion throwingRun s := by
  have h : (run step initial throwingRun).map (fun s => s.calls.map (·.phase))
      = some [.settled (.error "tx"), .settled (.ok 2)] := by
    decide +kernel
  obtain ⟨s, hs, hphases⟩ := Option.map_eq_some_iff.mp h
  exact ⟨s, hs, hphases, lane_exclusion throwingRun s hs⟩

/-! ## The lanes of the world -/

/-- The lane entry of a call that has not settled. -/
def laneEntry (i : ℕ) (c : LockCall α) : Option (String × ℕ) :=
  match c.phase with
  | .settled _ => none
  | _ => some (c.key, i)

/-- Who holds or awaits each lane, first come first served. -/
def lanes (s : LockChain α) : List (String × ℕ) :=
  (List.range s.calls.length).filterMap fun i => s.calls[i]?.bind (laneEntry i)

/-- The lanes of the world are those of the chain. -/
def SameLanes (s : LockChain α) (w : World) : Prop :=
  w.createLocks = lanes s ∧ w.nextTicket = s.calls.length

theorem laneEntry_of_not_settled {i : ℕ} {c : LockCall α} (h : ¬ c.Settled) :
    laneEntry i c = some (c.key, i) := by
  unfold laneEntry
  split
  · next r hr => exact absurd ⟨r, hr⟩ h
  · rfl

theorem laneEntry_of_settled {i : ℕ} {c : LockCall α} (h : c.Settled) : laneEntry i c = none := by
  obtain ⟨r, hr⟩ := h
  unfold laneEntry
  rw [hr]

theorem lanes_enter (s : LockChain α) (lockKey : String) :
    lanes (s.enter lockKey) = lanes s ++ [(lockKey, s.calls.length)] := by
  unfold lanes enter
  rw [List.length_append, List.length_singleton, List.range_succ, List.filterMap_append]
  congr 1
  · refine List.filterMap_congr fun i hi => ?_
    rw [List.getElem?_append_left (List.mem_range.mp hi)]
  · rw [List.filterMap_cons, List.getElem?_concat_length]
    simp [laneEntry]

/-- A move that does not leave keeps the lanes. -/
theorem lanes_move {s : LockChain α} {i : ℕ} {m : LockMove α} {c c' : LockCall α}
    {locks : AList fun _ : String => ℕ} (hc : s.calls[i]? = some c)
    (hmove : LockCall.MoveCase (s.ready c) c m c') (hm : m ≠ .leave) :
    lanes ⟨s.calls.set i c', locks⟩ = lanes s := by
  unfold lanes
  dsimp only
  rw [List.length_set]
  refine List.filterMap_congr fun j hj => ?_
  by_cases hij : j = i
  · subst hij
    rw [List.getElem?_set_self (List.mem_range.mp hj), hc, Option.bind_some, Option.bind_some]
    by_cases hs : c.Settled
    · rw [laneEntry_of_settled hs, laneEntry_of_settled (hmove.onward.settled hs)]
    · have hs' : ¬ c'.Settled := fun hs' => (hmove.settled hs').elim hs hm
      rw [laneEntry_of_not_settled hs, laneEntry_of_not_settled hs', hmove.onward.key]
  · rw [List.getElem?_set_ne (Ne.symm hij)]

theorem lanes_leave {s : LockChain α} {i : ℕ} {c c' : LockCall α}
    {locks : AList fun _ : String => ℕ} (hc : s.calls[i]? = some c) (hs : c'.Settled) :
    lanes ⟨s.calls.set i c', locks⟩ = (lanes s).filter fun l => l ≠ (c.key, i) := by
  unfold lanes
  dsimp only
  rw [List.length_set, List.filter_filterMap]
  refine List.filterMap_congr fun j hj => ?_
  by_cases hij : j = i
  · subst hij
    rw [List.getElem?_set_self (List.mem_range.mp hj), hc, Option.bind_some, Option.bind_some,
      laneEntry_of_settled hs]
    by_cases hcs : c.Settled
    · rw [laneEntry_of_settled hcs]; rfl
    · rw [laneEntry_of_not_settled hcs]
      simp [Option.filter]
  · rw [List.getElem?_set_ne (Ne.symm hij)]
    cases hd : s.calls[j]? with
    | none => rfl
    | some d =>
        rw [Option.bind_some]
        by_cases hds : d.Settled
        · rw [laneEntry_of_settled hds]; rfl
        · rw [laneEntry_of_not_settled hds]
          simp [Option.filter, hij]

/-- The first of a lane is its first call that has not settled. -/
theorem laneHead_eq {s : LockChain α} {w : World} (hw : SameLanes s w) {i : ℕ} {c : LockCall α}
    (hc : s.calls[i]? = some c) (hno : ¬ c.Settled) (he : EarlierSettled s i c.key) :
    w.laneHead c.key = some i := by
  have hlt : i < s.calls.length := (List.getElem?_eq_some_iff.mp hc).1
  unfold World.laneHead
  rw [hw.1]
  obtain ⟨n, hn⟩ : ∃ n, s.calls.length = i + (n + 1) :=
    ⟨s.calls.length - i - 1, by omega⟩
  unfold lanes
  rw [hn, List.range_add, List.filterMap_append, List.find?_append]
  have hbefore : ((List.range i).filterMap fun j => s.calls[j]?.bind (laneEntry j)).find?
      (fun l => l.1 = c.key) = none := by
    refine List.find?_eq_none.mpr fun l hl => ?_
    obtain ⟨j, hj, hentry⟩ := List.mem_filterMap.mp hl
    obtain ⟨d, hd, hentry⟩ := Option.bind_eq_some_iff.mp hentry
    by_cases hds : d.Settled
    · rw [laneEntry_of_settled hds] at hentry
      cases hentry
    · rw [laneEntry_of_not_settled hds] at hentry
      cases hentry
      intro hk
      exact hds (he j d (List.mem_range.mp hj) hd (by simpa using hk))
  rw [hbefore, List.range_succ_eq_map, List.map_cons, List.filterMap_cons]
  simp [hc, laneEntry_of_not_settled hno]

/-- **The chain refines the lanes**: a call enters its lane at the end, its body
starts when it is the first of the lane, and leaving takes it out. -/
theorem chain_refines_lanes {s s' : LockChain α} {l : LockLabel α} (h : ChainInv s)
    (hstep : s.step l = some s') {w : World} (hw : SameLanes s w) (fate : Fate) :
    match l with
    | .call lockKey => ∃ w', execSvc fate (.enqueueCreateLock lockKey) w
        = some (s.calls.length, w') ∧ SameLanes s' w'
    | .move i .resume => ∃ c, s.calls[i]? = some c
        ∧ execSvc fate (.awaitCreateLock c.key i) w = some ((), w) ∧ SameLanes s' w
    | .move i .leave => ∃ c w', s.calls[i]? = some c
        ∧ execSvc fate (.releaseCreateLock c.key i) w = some ((), w') ∧ SameLanes s' w'
    | _ => SameLanes s' w := by
  cases step_cases hstep with
  | call lockKey =>
      refine ⟨_, by rw [execSvc, hw.2], ?_, ?_⟩
      · rw [lanes_enter, hw.1]
      · simp [enter]
  | @move i m c c' hc hmove =>
      have hkept : m ≠ .leave → SameLanes ⟨s.calls.set i c', s.locksAfter i c.key m⟩ w :=
        fun hm => ⟨hw.1.trans (lanes_move hc hmove hm).symm, by simpa using hw.2⟩
      cases m with
      | resume =>
          refine ⟨c, hc, ?_, hkept (by simp)⟩
          cases hmove with
          | resume hready hphase =>
              have hno : ¬ c.Settled := by rintro ⟨r, hr⟩; rw [hr] at hphase; cases hphase
              simp only [execSvc, laneHead_eq hw hc hno (h.earlierSettled hc hready), if_true]
      | leave =>
          refine ⟨c, _, hc, rfl, ?_, ?_⟩
          · cases hmove with
            | leave => rw [lanes_leave hc ⟨_, rfl⟩, hw.1]
          · simpa using hw.2
      | _ => exact hkept (by simp)

end LockChain
end LeaveLedger
