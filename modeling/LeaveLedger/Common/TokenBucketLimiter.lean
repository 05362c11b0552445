import LeaveLedger.Lib.Machine
import Mathlib

/-!
# Common — TokenBucketLimiter

`common/utils/token-bucket-limiter.util`, in exact arithmetic. A refill is
lazy: it happens when somebody asks, for the time since the last one. Refills
compose (`refill_refill`), so it does not matter how often somebody asks; and
what is granted comes out of what flows in (`Funded`).
-/

namespace LeaveLedger

open Lib

namespace TokenBucket

/-! ## The limiter -/

structure Limiter where
  capacity : ℚ
  refillRatePerSec : ℚ
  tokens : ℚ
  lastRefill : ℚ

/-- An option that is absent or 0 has its default. -/
def optionOr (x : Option ℚ) (default : ℚ) : ℚ := if x.getD 0 = 0 then default else x.getD 0

/-- The constructor. -/
def create (capacity refillRatePerSec : Option ℚ) (now : ℚ) : Limiter where
  capacity := optionOr capacity 10
  refillRatePerSec := optionOr refillRatePerSec 5
  tokens := optionOr capacity 10
  lastRefill := now

/-- `_refill`. -/
def Limiter.refill (b : Limiter) (now : ℚ) : Limiter :=
  let elapsedSeconds := (now - b.lastRefill) / 1000
  { b with
    tokens := min b.capacity (b.tokens + elapsedSeconds * b.refillRatePerSec)
    lastRefill := now }

/-- `tryConsume`, of one token unless told otherwise. -/
def Limiter.tryConsume (b : Limiter) (now : ℚ) (tokens : Option ℚ) : Bool × Limiter :=
  let b := b.refill now
  if b.tokens ≥ tokens.getD 1 then (true, { b with tokens := b.tokens - tokens.getD 1 })
  else (false, b)

/-- `Number(x.toFixed(2))`: the nearest hundredth, the larger of two, and from 10²¹ on the
number itself. -/
def toFixed2 (x : ℚ) : ℚ :=
  if 10 ^ 21 ≤ |x| then x
  else if x < 0 then -(⌊-x * 100 + 1 / 2⌋ / 100)
  else ⌊x * 100 + 1 / 2⌋ / 100

/-- `getAvailableTokens`. -/
def Limiter.getAvailableTokens (b : Limiter) (now : ℚ) : ℚ × Limiter :=
  let b := b.refill now
  (toFixed2 b.tokens, b)

/-! ## Calls one after another -/

inductive Request where
  | tryConsume (tokens : Option ℚ)
  | getAvailableTokens

/-- A call and when it is made. -/
structure Call where
  time : ℚ
  request : Request

inductive Answer where
  | granted
  | refused
  | available (tokens : ℚ)
  deriving DecidableEq

/-- How many tokens a call asks for. -/
def Request.size : Request → ℚ
  | .tryConsume tokens => tokens.getD 1
  | .getAvailableTokens => 0

/-- A call: its answer and the limiter after it. Calls do not go back in time, and ask
for no negative amount. -/
def exec (c : Call) (b : Limiter) : Option (Answer × Limiter) := do
  guard (b.lastRefill ≤ c.time ∧ 0 ≤ c.request.size)
  match c.request with
  | .tryConsume tokens =>
      let r := b.tryConsume c.time tokens
      some (if r.1 then .granted else .refused, r.2)
  | .getAvailableTokens =>
      let r := b.getAvailableTokens c.time
      some (.available r.1, r.2)

/-- A limiter with the calls made so far and their answers. -/
structure System where
  limiter : Limiter
  history : List (Call × Answer)

def System.initial (capacity refillRatePerSec : Option ℚ) (now : ℚ) : System :=
  ⟨create capacity refillRatePerSec now, []⟩

def step (s : System) (c : Call) : Option System :=
  (exec c s.limiter).map fun r => ⟨r.2, s.history ++ [(c, r.1)]⟩

/-- The tokens that a call of the history was granted at a time with `p`. -/
def grantOf (p : ℚ → Bool) (e : Call × Answer) : ℚ :=
  if e.2 = .granted && p e.1.time then e.1.request.size else 0

/-- The tokens granted at the times with `p`. -/
def grantedAt (p : ℚ → Bool) (history : List (Call × Answer)) : ℚ := (history.map (grantOf p)).sum

/-- The tokens granted in an interval. -/
def grantedIn (history : List (Call × Answer)) (start stop : ℚ) : ℚ :=
  grantedAt (fun t => start ≤ t && t ≤ stop) history

/-! ## Refills -/

section refill
variable {b : Limiter} {now t : ℚ}

@[simp] theorem refill_capacity (b : Limiter) (now : ℚ) :
    (b.refill now).capacity = b.capacity := rfl

@[simp] theorem refill_rate (b : Limiter) (now : ℚ) :
    (b.refill now).refillRatePerSec = b.refillRatePerSec := rfl

@[simp] theorem refill_lastRefill (b : Limiter) (now : ℚ) : (b.refill now).lastRefill = now := rfl

/-- A limiter as its constructor and its calls leave it. -/
structure Limiter.Valid (b : Limiter) : Prop where
  capacity : 0 < b.capacity
  rate : 0 < b.refillRatePerSec
  nonneg : 0 ≤ b.tokens
  le : b.tokens ≤ b.capacity

/-- What a refill adds is at most what has flowed in. -/
theorem refill_tokens_le (b : Limiter) (now : ℚ) : (b.refill now).tokens
    ≤ b.tokens + b.refillRatePerSec * (now - b.lastRefill) / 1000 := by
  refine (min_le_right _ _).trans (le_of_eq ?_)
  ring

theorem Limiter.Valid.refill (h : b.Valid) (hle : b.lastRefill ≤ now) : (b.refill now).Valid where
  capacity := h.capacity
  rate := h.rate
  nonneg := by
    have helapsed : 0 ≤ (now - b.lastRefill) / 1000 := by
      have := sub_nonneg.mpr hle
      positivity
    exact le_min h.capacity.le (add_nonneg h.nonneg (mul_nonneg helapsed h.rate.le))
  le := min_le_left _ _

/-- A refill at the time of the last one adds nothing. -/
theorem refill_self (h : b.tokens ≤ b.capacity) : b.refill b.lastRefill = b := by
  cases b
  simp_all [Limiter.refill]

/-- **Refills compose**: one on the way changes nothing for a later one. -/
theorem refill_refill (hrate : 0 ≤ b.refillRatePerSec) (hle : now ≤ t) :
    (b.refill now).refill t = b.refill t := by
  have hflow : 0 ≤ (t - now) / 1000 * b.refillRatePerSec := by
    have := sub_nonneg.mpr hle
    positivity
  have hsum : b.tokens + (now - b.lastRefill) / 1000 * b.refillRatePerSec
      + (t - now) / 1000 * b.refillRatePerSec
      = b.tokens + (t - b.lastRefill) / 1000 * b.refillRatePerSec := by ring
  simp only [Limiter.refill, Limiter.mk.injEq, true_and, and_true]
  rw [← hsum]
  generalize b.tokens + (now - b.lastRefill) / 1000 * b.refillRatePerSec = x
  generalize (t - now) / 1000 * b.refillRatePerSec = y at hflow
  rcases le_total b.capacity x with hx | hx
  · rw [min_eq_left hx, min_eq_left (by linarith), min_eq_left (by linarith)]
  · rw [min_eq_right hx]

end refill

/-! ## What a call does -/

/-- A call that is granted takes its tokens; every other call only refills. -/
inductive ExecCase (c : Call) (b : Limiter) : Answer → Limiter → Prop
  | granted (henough : c.request.size ≤ (b.refill c.time).tokens) :
      ExecCase c b .granted
        { b.refill c.time with tokens := (b.refill c.time).tokens - c.request.size }
  | idle {a : Answer} (ha : a ≠ .granted) : ExecCase c b a (b.refill c.time)

theorem exec_cases {c : Call} {b b' : Limiter} {a : Answer} (h : exec c b = some (a, b')) :
    b.lastRefill ≤ c.time ∧ 0 ≤ c.request.size ∧ ExecCase c b a b' := by
  simp only [exec, Option.bind_eq_bind, Option.bind_eq_some_iff, Option.guard_eq_some'] at h
  obtain ⟨_, ⟨hle, hsize⟩, h⟩ := h
  refine ⟨hle, hsize, ?_⟩
  obtain ⟨time, request⟩ := c
  cases request with
  | tryConsume tokens =>
      by_cases henough : tokens.getD 1 ≤ (b.refill time).tokens
      · simp only [Limiter.tryConsume, ge_iff_le, henough, if_true, Option.some.injEq,
          Prod.mk.injEq] at h
        obtain ⟨rfl, rfl⟩ := h
        exact .granted henough
      · simp only [Limiter.tryConsume, ge_iff_le, henough, if_false, Option.some.injEq,
          Prod.mk.injEq] at h
        obtain ⟨rfl, rfl⟩ := h
        exact .idle (by simp)
  | getAvailableTokens =>
      simp only [Limiter.getAvailableTokens, Option.some.injEq, Prod.mk.injEq] at h
      obtain ⟨rfl, rfl⟩ := h
      exact .idle (by simp)

theorem Limiter.Valid.exec {c : Call} {b b' : Limiter} {a : Answer} (hvalid : b.Valid)
    (h : TokenBucket.exec c b = some (a, b')) : b'.Valid := by
  obtain ⟨hle, hsize, hcase⟩ := exec_cases h
  have hrefilled := hvalid.refill hle
  cases hcase with
  | idle ha => exact hrefilled
  | granted henough =>
      refine ⟨hrefilled.capacity, hrefilled.rate, sub_nonneg.mpr henough, ?_⟩
      have hcap := hrefilled.le
      show (b.refill c.time).tokens - c.request.size ≤ b.capacity
      rw [refill_capacity] at hcap
      linarith

theorem valid_create {capacity refillRatePerSec : Option ℚ} (now : ℚ)
    (hcapacity : ∀ c ∈ capacity, 0 < c) (hrate : ∀ r ∈ refillRatePerSec, 0 < r) :
    (create capacity refillRatePerSec now).Valid := by
  have hpos : ∀ (x : Option ℚ) (d : ℚ), (∀ y ∈ x, 0 < y) → 0 < d → 0 < optionOr x d := by
    intro x d hx hd
    unfold optionOr
    split
    · exact hd
    · rename_i hne
      cases x with
      | none => exact absurd rfl hne
      | some y => exact hx y rfl
  have hcap := hpos capacity 10 hcapacity (by norm_num)
  exact ⟨hcap, hpos refillRatePerSec 5 hrate (by norm_num), hcap.le, le_rfl⟩

/-! ## What is granted has flowed in -/

theorem grantedAt_snoc (p : ℚ → Bool) (history : List (Call × Answer)) (e : Call × Answer) :
    grantedAt p (history ++ [e]) = grantedAt p history + grantOf p e := by
  simp [grantedAt]

theorem grantedAt_congr {p q : ℚ → Bool} {history : List (Call × Answer)}
    (h : ∀ e ∈ history, p e.1.time = q e.1.time) : grantedAt p history = grantedAt q history := by
  unfold grantedAt
  refine congrArg List.sum (List.map_congr_left fun e he => ?_)
  simp only [grantOf, h e he]

theorem grantedAt_eq_zero {p : ℚ → Bool} {history : List (Call × Answer)}
    (h : ∀ e ∈ history, p e.1.time = false) : grantedAt p history = 0 := by
  unfold grantedAt
  refine List.sum_eq_zero fun x hx => ?_
  obtain ⟨e, he, rfl⟩ := List.mem_map.mp hx
  simp [grantOf, h e he]

/-- What has been granted since some time and what is left are at most what was there and
has flowed in since; so no interval has been granted more. -/
structure Funded (s : System) : Prop where
  valid : s.limiter.Valid
  past : ∀ e ∈ s.history, e.1.time ≤ s.limiter.lastRefill
  since : ∀ start ≤ s.limiter.lastRefill,
    grantedAt (fun t => start ≤ t) s.history + s.limiter.tokens ≤ s.limiter.capacity
      + s.limiter.refillRatePerSec * (s.limiter.lastRefill - start) / 1000
  within : ∀ start stop, start ≤ stop → grantedIn s.history start stop
    ≤ s.limiter.capacity + s.limiter.refillRatePerSec * (stop - start) / 1000

section steps
variable {s s' : System} {c : Call}

/-- Before the call is answered: the refill has added at most what has flowed in. -/
theorem Funded.refilled (h : Funded s) (hle : s.limiter.lastRefill ≤ c.time) {start : ℚ}
    (hstart : start ≤ c.time) :
    grantedAt (fun t => start ≤ t) s.history + (s.limiter.refill c.time).tokens
      ≤ s.limiter.capacity + s.limiter.refillRatePerSec * (c.time - start) / 1000 := by
  have hrate := h.valid.rate
  by_cases hold : start ≤ s.limiter.lastRefill
  · have hsince := h.since start hold
    have hflow := refill_tokens_le s.limiter c.time
    have hsplit : s.limiter.refillRatePerSec * (c.time - start) / 1000
        = s.limiter.refillRatePerSec * (s.limiter.lastRefill - start) / 1000
          + s.limiter.refillRatePerSec * (c.time - s.limiter.lastRefill) / 1000 := by ring
    linarith
  · -- nothing has been granted since
    have hnone : grantedAt (fun t => start ≤ t) s.history = 0 := by
      refine grantedAt_eq_zero fun e he => decide_eq_false ?_
      exact not_le.mpr (lt_of_le_of_lt (h.past e he) (not_le.mp hold))
    have hflow : 0 ≤ s.limiter.refillRatePerSec * (c.time - start) / 1000 := by
      have := sub_nonneg.mpr hstart
      positivity
    have hcap := (h.valid.refill hle).le
    rw [refill_capacity] at hcap
    rw [hnone]
    linarith

/-- What a call is granted comes out of the refilled bucket. -/
theorem tokens_after {b b' : Limiter} {a : Answer} (h : ExecCase c b a b') :
    b'.capacity = b.capacity ∧ b'.refillRatePerSec = b.refillRatePerSec
    ∧ b'.lastRefill = c.time
    ∧ b'.tokens + grantOf (fun _ => true) (c, a) = (b.refill c.time).tokens := by
  cases h with
  | granted henough => exact ⟨rfl, rfl, rfl, by simp [grantOf]⟩
  | idle ha => exact ⟨rfl, rfl, rfl, by simp [grantOf, ha]⟩

theorem grantOf_eq (p : ℚ → Bool) (e : Call × Answer) :
    grantOf p e = if p e.1.time then grantOf (fun _ => true) e else 0 := by
  cases hp : p e.1.time <;> simp [grantOf, hp]

/-- **One call**: it takes no more than has flowed in. -/
theorem funded_step (h : Funded s) (hstep : step s c = some s') : Funded s' := by
  obtain ⟨⟨a, b'⟩, hexec, rfl⟩ := Option.map_eq_some_iff.mp hstep
  obtain ⟨hle, -, hcase⟩ := exec_cases hexec
  obtain ⟨hcap, hrate, hlast, htokens⟩ := tokens_after hcase
  have hvalid := h.valid.exec hexec
  have hpast : ∀ e ∈ s.history, e.1.time ≤ c.time := fun e he => (h.past e he).trans hle
  have hsince : ∀ start ≤ c.time,
      grantedAt (fun t => start ≤ t) (s.history ++ [(c, a)]) + b'.tokens
        ≤ s.limiter.capacity + s.limiter.refillRatePerSec * (c.time - start) / 1000 := by
    intro start hstart
    have hrefilled := h.refilled hle hstart
    rw [grantedAt_snoc, grantOf_eq, decide_eq_true hstart, if_pos rfl]
    linarith
  refine ⟨hvalid, fun e he => ?_, fun start hstart => ?_, fun start stop hss => ?_⟩
  · rw [hlast]
    rcases List.mem_append.mp he with he | he
    · exact hpast e he
    · rw [List.mem_singleton.mp he]
  · simp only [hcap, hrate, hlast] at hstart ⊢
    exact hsince start hstart
  · simp only [hcap, hrate]
    by_cases hin : start ≤ c.time ∧ c.time ≤ stop
    · -- every call so far was made before the interval ends
      have hall : grantedIn (s.history ++ [(c, a)]) start stop
          = grantedAt (fun t => start ≤ t) (s.history ++ [(c, a)]) := by
        refine grantedAt_congr fun e he => ?_
        have hstop : e.1.time ≤ stop := by
          rcases List.mem_append.mp he with he | he
          · exact (hpast e he).trans hin.2
          · rw [List.mem_singleton.mp he]
            exact hin.2
        simp [hstop]
      have hbound := hsince start hin.1
      have hnonneg := hvalid.nonneg
      have hflow : s.limiter.refillRatePerSec * (c.time - start) / 1000
          ≤ s.limiter.refillRatePerSec * (stop - start) / 1000 := by
        have hpos := h.valid.rate
        have hle' := hin.2
        gcongr
      rw [hall]
      linarith
    · have hout : grantOf (fun t => start ≤ t && t ≤ stop) (c, a) = 0 := by
        rw [grantOf_eq, if_neg]
        simpa using hin
      simp only [grantedIn, grantedAt_snoc, hout, add_zero]
      exact h.within start stop hss

end steps

theorem funded_initial {capacity refillRatePerSec : Option ℚ} {now : ℚ}
    (hcapacity : ∀ c ∈ capacity, 0 < c) (hrate : ∀ r ∈ refillRatePerSec, 0 < r) :
    Funded (System.initial capacity refillRatePerSec now) := by
  have hvalid := valid_create now hcapacity hrate
  have hflow : ∀ x : ℚ, 0 ≤ x → 0 ≤ (create capacity refillRatePerSec now).refillRatePerSec
      * x / 1000 := by
    intro x hx
    have := hvalid.rate
    positivity
  refine ⟨hvalid, fun e he => ?_, fun start hstart => ?_, fun start stop hss => ?_⟩
  · cases he
  · replace hstart : start ≤ now := hstart
    have hlast : (create capacity refillRatePerSec now).lastRefill = now := rfl
    have := hflow _ (sub_nonneg.mpr hstart)
    have hle := hvalid.le
    simp only [System.initial, grantedAt, List.map_nil, List.sum_nil, hlast]
    linarith
  · have := hflow _ (sub_nonneg.mpr hss)
    have hpos := hvalid.capacity
    simp only [System.initial, grantedIn, grantedAt, List.map_nil, List.sum_nil]
    linarith

/-! ## Asking is neutral -/

/-- A call with a mark: kept, or one that was put in between. -/
def execMarked (c : Call × Bool) (b : Limiter) : Option ((Answer × Bool) × Limiter) :=
  (exec c.1 b).map fun r => ((r.1, c.2), r.2)

/-- A limiter that was asked in between: it is ahead of the other by refills alone. -/
structure Ahead (b b' : Limiter) : Prop where
  valid : b.Valid
  valid' : b'.Valid
  le : b'.lastRefill ≤ b.lastRefill
  eq : b = b'.refill b.lastRefill

theorem Ahead.refl {b : Limiter} (h : b.Valid) : Ahead b b :=
  ⟨h, h, le_rfl, (refill_self h.le).symm⟩

theorem Ahead.refill {b b' : Limiter} {t : ℚ} (h : Ahead b b') (hle : b.lastRefill ≤ t) :
    b.refill t = b'.refill t := by
  rw [h.eq, refill_refill h.valid'.rate.le hle]

/-- A call is answered alike by a limiter that is ahead, and leaves no difference. -/
theorem exec_ahead {c : Call} {b b' b₁ : Limiter} {a : Answer} (h : Ahead b b')
    (hexec : exec c b = some (a, b₁)) : exec c b' = some (a, b₁) := by
  have hle := (exec_cases hexec).1
  have hrefill := h.refill hle
  simp only [exec, Limiter.tryConsume, Limiter.getAvailableTokens, hle, h.le.trans hle,
    hrefill] at hexec ⊢
  exact hexec

/-- A call in between that is not granted only gets the limiter further ahead. -/
theorem Ahead.idle {c : Call} {b b' b₁ : Limiter} {a : Answer} (h : Ahead b b')
    (hexec : exec c b = some (a, b₁)) (ha : a ≠ .granted) : Ahead b₁ b' := by
  have hvalid := h.valid.exec hexec
  obtain ⟨hle, -, hcase⟩ := exec_cases hexec
  cases hcase with
  | granted _ => exact absurd rfl ha
  | idle _ => exact ⟨hvalid, h.valid', h.le.trans hle, h.refill hle⟩

/-- Leaving the calls in between out changes no answer to the others. -/
theorem answers_kept {ls : List (Call × Bool)} {b b' : Limiter} {rs : List (Answer × Bool)}
    (h : Ahead b b') (hrun : answers execMarked ls b = some rs)
    (hidle : ∀ r ∈ rs, r.2 = false → r.1 ≠ .granted) :
    answers exec ((ls.filter Prod.snd).map Prod.fst) b'
      = some ((rs.filter Prod.snd).map Prod.fst) := by
  induction ls generalizing b b' rs with
  | nil =>
      cases hrun
      rfl
  | cons l ls ih =>
      obtain ⟨c, kept⟩ := l
      simp only [answers, Option.bind_eq_some_iff, Option.map_eq_some_iff] at hrun
      obtain ⟨⟨r, b₁⟩, hexec, rs', hrest, rfl⟩ := hrun
      obtain ⟨⟨a, b₂⟩, hcall, heq⟩ := Option.map_eq_some_iff.mp hexec
      obtain ⟨rfl, rfl⟩ := Prod.mk.inj heq
      have hidle' : ∀ r ∈ rs', r.2 = false → r.1 ≠ .granted :=
        fun r hr => hidle r (List.mem_cons_of_mem _ hr)
      cases kept with
      | false =>
          have ha := hidle (a, false) List.mem_cons_self rfl
          rw [List.filter_cons_of_neg (by simp), List.filter_cons_of_neg (by simp)]
          exact ih (h.idle hcall ha) hrest hidle'
      | true =>
          have hkept := ih (Ahead.refl (h.valid.exec hcall)) hrest hidle'
          simp only [List.filter_cons_of_pos, List.map_cons, answers, exec_ahead h hcall,
            Option.bind_some, hkept, Option.map_some]

/-- **A token bucket**, for positive options and every sequence of calls: it is never
below zero nor above its capacity; what is granted in an interval is at most the capacity
and what flows in meanwhile; and calls that are put in between and not granted change the
answer to no other call. -/
theorem token_bucket_bounds (capacity refillRatePerSec : Option ℚ) (now : ℚ)
    (hcapacity : ∀ c ∈ capacity, 0 < c) (hrate : ∀ r ∈ refillRatePerSec, 0 < r) :
    (∀ ls s, run step (System.initial capacity refillRatePerSec now) ls = some s →
      (0 ≤ s.limiter.tokens ∧ s.limiter.tokens ≤ (create capacity refillRatePerSec now).capacity)
      ∧ ∀ start stop, start ≤ stop → grantedIn s.history start stop
          ≤ (create capacity refillRatePerSec now).capacity
            + (create capacity refillRatePerSec now).refillRatePerSec * (stop - start) / 1000)
    ∧ ∀ (ls : List (Call × Bool)) (rs : List (Answer × Bool)),
        answers execMarked ls (create capacity refillRatePerSec now) = some rs →
        (∀ r ∈ rs, r.2 = false → r.1 ≠ .granted) →
        answers exec ((ls.filter Prod.snd).map Prod.fst) (create capacity refillRatePerSec now)
          = some ((rs.filter Prod.snd).map Prod.fst) := by
  constructor
  · intro ls s hrun
    have hfunded : Funded s :=
      run_induct (fun _ _ _ => funded_step) (funded_initial hcapacity hrate) hrun
    -- no call changes the options
    have hoptions : s.limiter.capacity = (create capacity refillRatePerSec now).capacity
        ∧ s.limiter.refillRatePerSec
          = (create capacity refillRatePerSec now).refillRatePerSec := by
      refine run_induct (I := fun x : System =>
        x.limiter.capacity = (create capacity refillRatePerSec now).capacity
        ∧ x.limiter.refillRatePerSec
          = (create capacity refillRatePerSec now).refillRatePerSec) ?_ ⟨rfl, rfl⟩ hrun
      rintro x c x' ⟨hcap, hr⟩ hstep
      obtain ⟨⟨a, b'⟩, hexec, rfl⟩ := Option.map_eq_some_iff.mp hstep
      obtain ⟨hcap', hr', -⟩ := tokens_after (exec_cases hexec).2.2
      exact ⟨hcap'.trans hcap, hr'.trans hr⟩
    rw [← hoptions.1, ← hoptions.2]
    exact ⟨⟨hfunded.valid.nonneg, hfunded.valid.le⟩, hfunded.within⟩
  · intro ls rs hrun hidle
    exact answers_kept (Ahead.refl (valid_create now hcapacity hrate)) hrun hidle

/-- A bucket of two, with a look and a refused call between two calls that are granted. -/
def polled : List (Call × Bool) :=
  [(⟨0, .tryConsume (some 2)⟩, true), (⟨50, .getAvailableTokens⟩, false),
    (⟨60, .tryConsume none⟩, false), (⟨150, .tryConsume none⟩, true)]

theorem token_bucket_bounds_polled :
    answers exec [⟨0, .tryConsume (some 2)⟩, ⟨150, .tryConsume none⟩] (create (some 2) (some 10) 0)
      = some [.granted, .granted] := by
  have hrun : answers execMarked polled (create (some 2) (some 10) 0)
      = some [(.granted, true), (.available (1 / 2), false), (.refused, false),
        (.granted, true)] := by
    decide +kernel
  have hpos : ∀ x : ℚ, 0 < x → ∀ c ∈ some x, 0 < c := by
    intro x hx c hc
    cases hc
    exact hx
  exact (token_bucket_bounds (some 2) (some 10) 0 (hpos 2 (by norm_num)) (hpos 10 (by norm_num))).2
    polled _ hrun (by decide)

end TokenBucket

end LeaveLedger
