import LeaveLedger.Idempotency.Pool
import Mathlib.Data.List.Induction

/-!
# Idempotency — A key takes effect at most once

What the steps of concurrent and repeated creates add up to. A step of a
create changes the database only when it is the commit that stores the
request of its key (`createStep_changes`), a key that is stored is never
stored again (`charge_unique`), and a create that ends in an exception has
committed nothing (`thrown_unchanged`).
-/

namespace LeaveLedger

open Js Lib

/-- The step is one of a create under the key. -/
def CreateStep (idempotencyKey : String) (s : Pool) (l : PoolLabel) : Prop :=
  ∃ i fate t dto, l = .step i fate ∧ s.threads[i]? = some t ∧ t.call = .create dto idempotencyKey

/-- The step is the commit of a create that reserves the days of `r` on the row
of its employee, location and leave type, and stores `r` and its record. -/
def Charges (env : Env) (r : TimeOffRequest) (s : Pool) (l : PoolLabel) (s' : Pool) : Prop :=
  CreateStep r.idempotencyKey s l ∧ ∃ dto b b' r₀ rec,
    Created env dto r.idempotencyKey (requestHashOf env dto) s.world s'.world
      r.daysRequested b b' r₀ rec
    ∧ b.key = r.balanceKey ∧ daysOf dto = some r.daysRequested ∧ SameRequest r₀ r

/-- What the run `ls` that ends in `s` may do with a key. -/
structure AtMostOnce (env : Env) (clock : ℤ) (ls : List PoolLabel) (s : Pool) : Prop where
  /-- the rows of a key, whenever they are looked at, are one request -/
  one : ∀ n s₁, run (poolStep env) (Pool.initial clock) (ls.take n) = some s₁ →
    ∀ r₁ ∈ s₁.db.requests.rows, ∀ r ∈ s.db.requests.rows,
      r₁.idempotencyKey = r.idempotencyKey → SameRequest r₁ r
  /-- a request was charged by one step, and by no other of its key -/
  charged : ∀ r ∈ s.db.requests.rows, ∃ n s₁ l s₂,
    StepAt (poolStep env) (Pool.initial clock) ls n s₁ l s₂ ∧ Charges env r s₁ l s₂
    ∧ ∀ m s₃ l' s₄, StepAt (poolStep env) (Pool.initial clock) ls m s₃ l' s₄ →
        CreateStep r.idempotencyKey s₃ l' → s₄.db ≠ s₃.db → m = n
  /-- a create changes the database only by the charge of a request that stays -/
  onlyCharges : ∀ n s₁ l s₂, StepAt (poolStep env) (Pool.initial clock) ls n s₁ l s₂ →
    ∀ k, CreateStep k s₁ l → s₂.db ≠ s₁.db →
      ∃ r ∈ s.db.requests.rows, r.idempotencyKey = k ∧ Charges env r s₁ l s₂
  /-- a create that throws has changed nothing -/
  clean : ∀ i t dto k e, s.threads[i]? = some t → t.call = .create dto k → t.script = .fail e →
    ∀ n s₁ fate s₂, StepAt (poolStep env) (Pool.initial clock) ls n s₁ (.step i fate) s₂ →
      s₂.db = s₁.db

variable {env : Env}

theorem Created.sameCharge {dto : CreateTimeOffRequestDto} {k hash : String} {w w' : World}
    {d : ℚ} {b b' : EmployeeBalance} {r : TimeOffRequest} {rec : IdempotencyRecord}
    (h : Created env dto k hash w w' d b b' r rec) :
    r.idempotencyKey = k ∧ r.daysRequested = d ∧ b.key = r.balanceKey := by
  obtain ⟨id, hr⟩ := h.request
  refine ⟨by rw [hr]; rfl, by rw [hr]; rfl, ?_⟩
  rw [h.key, hr]
  rfl

/-- What a step of a create does when it changes the database. -/
theorem createStep_changes {s s' : Pool} {i : ℕ} {fate : Fate} {t : Thread}
    {dto : CreateTimeOffRequestDto} {k : String} (hinv : PoolInv env s)
    (h : poolStep env s (.step i fate) = some s') (ht : s.threads[i]? = some t)
    (hcall : t.call = .create dto k) (hne : s'.db ≠ s.db) :
    ∃ d b b' r rec t', daysOf dto = some d
      ∧ Created env dto k (requestHashOf env dto) s.world s'.world d b b' r rec
      ∧ s'.threads[i]? = some t' ∧ EndsWith (serializeRequest r) t'.script := by
  obtain ⟨t₀, o, next, r, w, ht₀, hscript, hexec, rfl⟩ := poolStep_step h
  rw [ht] at ht₀
  cases ht₀
  obtain ⟨hasks, hanswers⟩ := hinv.threads t (List.mem_of_getElem? ht)
  rw [hscript] at hasks hanswers
  rw [hcall] at hasks
  rcases (createStep hasks.1 hexec).2 with hdb | ⟨d, b, b', req, rec, hd, -, hr, ho, hc⟩
  · exact absurd hdb hne
  · subst ho
    cases eq_of_heq hr
    have hlt : i < s.threads.length := (List.getElem?_eq_some_iff.mp ht).1
    exact ⟨d, b, b', req, rec, _, hd, hc, List.getElem?_set_self hlt, hanswers.1 req⟩

/-- A create under a key that is stored changes nothing. -/
theorem createStep_stored {s s' : Pool} {l : PoolLabel} {k : String} (hinv : PoolInv env s)
    (h : poolStep env s l = some s') (hstep : CreateStep k s l) {r : TimeOffRequest}
    (hr : r ∈ s.db.requests.rows) (hkey : r.idempotencyKey = k) : s'.db = s.db := by
  obtain ⟨i, fate, t, dto, rfl, ht, hcall⟩ := hstep
  by_contra hne
  obtain ⟨d, b, b', r', rec, t', -, hc, -⟩ := createStep_changes hinv h ht hcall hne
  exact hc.requests.uk_new r hr (hkey.trans hc.sameCharge.1.symm)

section run
variable {clock : ℤ} {ls : List PoolLabel} {s : Pool}

theorem stepAt_inv {n : ℕ} {s₁ s₂ : Pool} {l : PoolLabel}
    (h : StepAt (poolStep env) (Pool.initial clock) ls n s₁ l s₂) : PoolInv env s₁ :=
  poolInv_run h.before

/-- A step that changed the database under a key leaves a row of that key. -/
theorem stepAt_stores {n : ℕ} {s₁ s₂ : Pool} {l : PoolLabel} {k : String}
    (h : StepAt (poolStep env) (Pool.initial clock) ls n s₁ l s₂) (hstep : CreateStep k s₁ l)
    (hne : s₂.db ≠ s₁.db) :
    ∃ d r dto b b' rec, r.idempotencyKey = k ∧ r ∈ s₂.db.requests.rows ∧ daysOf dto = some d
      ∧ Created env dto k (requestHashOf env dto) s₁.world s₂.world d b b' r rec := by
  obtain ⟨i, fate, t, dto, rfl, ht, hcall⟩ := hstep
  obtain ⟨d, b, b', r, rec, t', hd, hc, -⟩ := createStep_changes (stepAt_inv h) h.step ht hcall hne
  exact ⟨d, r, dto, b, b', rec, hc.sameCharge.1, hc.requests.mem_iff.mpr (Or.inr rfl), hd, hc⟩

/-- No two steps of a run store under one key. -/
theorem charge_unique {m n : ℕ} {s₁ s₂ s₃ s₄ : Pool} {l l' : PoolLabel} {k : String}
    (hlt : m < n) (hm : StepAt (poolStep env) (Pool.initial clock) ls m s₁ l s₂)
    (hn : StepAt (poolStep env) (Pool.initial clock) ls n s₃ l' s₄) (hmk : CreateStep k s₁ l)
    (hnk : CreateStep k s₃ l') (hne : s₂.db ≠ s₁.db) : s₄.db = s₃.db := by
  obtain ⟨mid, hmid⟩ := hm.between hlt hn
  obtain ⟨d, r, -, -, -, -, hkey, hr, -⟩ := stepAt_stores hm hmk hne
  obtain ⟨r', hr', hsame⟩ := (run_extends (poolStep_inv (stepAt_inv hm) hm.step) hmid).requests r hr
  exact createStep_stored (stepAt_inv hn) hn.step hnk hr' (hsame.idempotencyKey.trans hkey)

/-- Every stored request was charged by a step of the run. -/
theorem exists_charge (hrun : run (poolStep env) (Pool.initial clock) ls = some s) :
    ∀ r ∈ s.db.requests.rows, ∃ n s₁ l s₂,
      StepAt (poolStep env) (Pool.initial clock) ls n s₁ l s₂ ∧ Charges env r s₁ l s₂ := by
  induction ls using List.reverseRecOn generalizing s with
  | nil =>
      cases hrun
      intro r hr
      cases hr
  | append_singleton ls l ih =>
      obtain ⟨s₁, h₁, h₂⟩ := run_snoc_some hrun
      -- a request that was there before the last step was charged before it
      have hold : ∀ y ∈ s₁.db.requests.rows, ∀ r, SameRequest y r → ∃ n s₂ l' s₃,
          StepAt (poolStep env) (Pool.initial clock) (ls ++ [l]) n s₂ l' s₃
            ∧ Charges env r s₂ l' s₃ := by
        intro y hy r hsame
        obtain ⟨n, s₂, l', s₃, hat, hk, dto, b, b', r₀, rec, hc, hkey, hd, hsame₀⟩ := ih h₁ y hy
        refine ⟨n, s₂, l', s₃, hat.append [l], hsame.idempotencyKey ▸ hk, dto, b, b', r₀, rec,
          ?_, hkey.trans hsame.balanceKey.symm, ?_, hsame₀.trans hsame⟩
        · rw [hsame.idempotencyKey, hsame.daysRequested]
          exact hc
        · rw [hsame.daysRequested]
          exact hd
      intro r hr
      cases (poolStep_effect (poolInv_run h₁) h₂).2 with
      | created i fate t dto k d b b' r' rec hl ht hcall hd hvalid hc =>
          rcases hc.requests.mem_iff.mp hr with hmem | rfl
          · exact hold r hmem r (.refl r)
          · obtain ⟨rfl, rfl, hkey⟩ := hc.sameCharge
            exact ⟨ls.length, s₁, l, s, stepAt_last h₁ h₂, ⟨i, fate, t, dto, hl, ht, hcall⟩,
              dto, b, b', r, rec, hc, hkey, hd, .refl r⟩
      | updated hext hrec hback =>
          obtain ⟨y, hy, hsame⟩ := hback r hr
          exact hold y hy r hsame

/-- A thread that ended in an exception never changed the database. -/
theorem thrown_unchanged (hrun : run (poolStep env) (Pool.initial clock) ls = some s) {i n : ℕ}
    {t : Thread} {dto : CreateTimeOffRequestDto} {k : String} {e : Exception}
    (ht : s.threads[i]? = some t) (hcall : t.call = .create dto k) (hfail : t.script = .fail e)
    {s₁ s₂ : Pool} {fate : Fate}
    (hat : StepAt (poolStep env) (Pool.initial clock) ls n s₁ (.step i fate) s₂) :
    s₂.db = s₁.db := by
  obtain ⟨t₁, -, -, -, -, ht₁, -⟩ := poolStep_step hat.step
  have hcall₁ : t₁.call = .create dto k := by
    obtain ⟨s₀, h₀, hrest⟩ := run_take hrun n
    rw [hat.before] at h₀
    cases h₀
    exact (run_call hrest ht₁ ht).trans hcall
  by_contra hne
  obtain ⟨-, -, -, r, -, t₂, -, -, ht₂, hends⟩ :=
    createStep_changes (stepAt_inv hat) hat.step ht₁ hcall₁ hne
  obtain ⟨t', ht', -, hends'⟩ := run_thread (Q := EndsWith (serializeRequest r))
    (fun o k r h => h.next r) (hat.after hrun) ht₂ hends
  rw [ht] at ht'
  cases ht'
  rw [hfail] at hends'
  exact hends'.not_fail

/-- **Create takes effect at most once per key and fails cleanly**, in every run
of concurrent and repeated calls. -/
theorem create_at_most_once (env : Env) (clock : ℤ) (ls : List PoolLabel) (s : Pool)
    (hrun : run (poolStep env) (Pool.initial clock) ls = some s) : AtMostOnce env clock ls s where
  one n s₁ h₁ r₁ hr₁ r hr hkey := by
    obtain ⟨s₀, h₀, hrest⟩ := run_take hrun n
    rw [h₁] at h₀
    cases h₀
    obtain ⟨r', hr', hsame⟩ := (run_extends (poolInv_run h₁) hrest).requests r₁ hr₁
    obtain rfl := Table.eq_of_uk hr' hr (hsame.idempotencyKey.trans hkey)
    exact hsame
  charged r hr := by
    obtain ⟨n, s₁, l, s₂, hat, hcharge⟩ := exists_charge hrun r hr
    refine ⟨n, s₁, l, s₂, hat, hcharge, fun m s₃ l' s₄ hat' hk hne => ?_⟩
    obtain ⟨hk₁, dto, b, b', r₀, rec, hc, -⟩ := hcharge
    have hne₁ : s₂.db ≠ s₁.db := by
      intro heq
      have hnew : r₀ ∈ s₁.db.requests.rows := heq ▸ hc.requests.mem_iff.mpr (Or.inr rfl)
      exact hc.requests.uk_new r₀ hnew rfl
    rcases lt_trichotomy m n with hlt | heq | hlt
    · exact absurd (charge_unique hlt hat' hat hk hk₁ hne) hne₁
    · exact heq
    · exact absurd (charge_unique hlt hat hat' hk₁ hk hne₁) hne
  onlyCharges n s₁ l s₂ hat k hk hne := by
    obtain ⟨d, r, dto, b, b', rec, rfl, hr, hd, hc⟩ := stepAt_stores hat hk hne
    obtain ⟨r', hr', hsame⟩ :=
      (run_extends (poolStep_inv (stepAt_inv hat) hat.step) (hat.after hrun)).requests r hr
    obtain ⟨-, rfl, hkey⟩ := hc.sameCharge
    refine ⟨r', hr', hsame.idempotencyKey, hsame.idempotencyKey ▸ hk, dto, b, b', r, rec, ?_,
      hkey.trans hsame.balanceKey.symm, ?_, hsame⟩
    · rw [hsame.idempotencyKey, hsame.daysRequested]
      exact hc
    · rw [hsame.daysRequested]
      exact hd
  clean i t dto k e ht hcall hfail n s₁ fate s₂ hat := thrown_unchanged hrun ht hcall hfail hat

end run

/-- The same create twice at once; the first commit fails and is tried again. -/
def duplicateCalls : List PoolLabel :=
  [openRow 10, .call (.create sampleDto "key-1"), .call (.create sampleDto "key-1")]
    ++ List.replicate 4 (.step 0 {}) ++ List.replicate 3 (.step 1 {})
    ++ [.step 0 {}, .step 0 ⟨.failsAtCommit .busy, .error .noResponse⟩]
    ++ List.replicate 4 (.step 0 {}) ++ List.replicate 4 (.step 1 {})

/-- The theorem at that run, which ends with one request. -/
theorem create_at_most_once_duplicate : ∃ s, s.db.requests.rows.length = 1
    ∧ AtMostOnce .default 0 duplicateCalls s := by
  have h : (run (poolStep .default) (Pool.initial 0) duplicateCalls).map
      (fun s => s.db.requests.rows.length) = some 1 := by
    decide +kernel
  obtain ⟨s, hs, hlen⟩ := Option.map_eq_some_iff.mp h
  exact ⟨s, hlen, create_at_most_once .default 0 duplicateCalls s hs⟩

end LeaveLedger
