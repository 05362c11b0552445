import Mathlib.Algebra.Order.BigOperators.Group.List
import Mathlib.Algebra.Order.Monoid.Unbundled.Pow
import Mathlib.Data.List.Range
import Mathlib.Tactic.Common

/-!
# Lib — Trying again

A loop calls something until it succeeds, fails for good, or has been tried
often enough, and waits in between. `Tries` is what such a loop did, and
`TriesOf` says of it, without the loop, which calls it made: all but the last
failed with an error worth another try, and at the last there was nothing more
to try. One round of a loop keeps it (`TriesOf.round`), and it fixes the calls
and the result (`TriesOf.unique`), so two loops that both have it agree,
however they count and wait.
-/

namespace LeaveLedger.Lib

/-- What a loop did: how often it called, how long it waited after each call but the last, and
what it returned or threw, which is nothing when it never called. -/
structure Tries (ε α δ : Type) where
  calls : ℕ
  delays : List δ
  result : Except (Option ε) α

variable {ε α δ : Type}

namespace Tries

/-- No call. -/
def none (lastError : Option ε) : Tries ε α δ := ⟨0, [], .error lastError⟩

/-- One call and no other. -/
def last (result : Except ε α) : Tries ε α δ := ⟨1, [], result.mapError some⟩

/-- A call and a delay before it. -/
def after (delay : δ) (t : Tries ε α δ) : Tries ε α δ := ⟨t.calls + 1, delay :: t.delays, t.result⟩

end Tries

/-- The calls of a loop that makes at most `limit` of them, tries again after the errors of
`again`, and waits `delay i` after call `i`. -/
structure TriesOf (again : ε → Bool) (limit : ℕ) (outcome : ℕ → Except ε α) (delay : ℕ → δ)
    (t : Tries ε α δ) : Prop where
  called : 0 < t.calls
  within : t.calls ≤ limit
  failed : ∀ i, i + 1 < t.calls → ∃ e, outcome i = .error e ∧ again e = true
  result : t.result = (outcome (t.calls - 1)).mapError some
  ended : t.calls < limit → ∀ e, outcome (t.calls - 1) = .error e → again e = false
  delays : t.delays = (List.range (t.calls - 1)).map delay

namespace TriesOf

variable {again : ε → Bool} {limit : ℕ} {outcome : ℕ → Except ε α} {delay : ℕ → δ}
  {t : Tries ε α δ}

/-- The only call. -/
theorem last (hlimit : 0 < limit)
    (hended : 1 < limit → ∀ e, outcome 0 = .error e → again e = false) :
    TriesOf again limit outcome delay (.last (outcome 0)) where
  called := Nat.one_pos
  within := hlimit
  failed i hi := by
    simp only [Tries.last] at hi
    omega
  result := rfl
  ended := hended
  delays := rfl

/-- A call that failed, before the others. -/
theorem after {e : ε} (hfirst : outcome 0 = .error e) (hagain : again e = true)
    (h : TriesOf again limit (fun i => outcome (i + 1)) (fun i => delay (i + 1)) t) :
    TriesOf again (limit + 1) outcome delay (t.after (delay 0)) := by
  have hcalled := h.called
  obtain ⟨n, hn⟩ : ∃ n, t.calls = n + 1 := ⟨t.calls - 1, by omega⟩
  have hresult := h.result
  have hended := h.ended
  have hdelays := h.delays
  simp only [hn, Nat.add_sub_cancel] at hresult hended hdelays
  constructor
  · exact Nat.succ_pos _
  · exact Nat.succ_le_succ h.within
  · intro i hi
    cases i with
    | zero => exact ⟨e, hfirst, hagain⟩
    | succ i => exact h.failed i (Nat.succ_lt_succ_iff.mp hi)
  · simp only [Tries.after, hn, Nat.add_sub_cancel]
    exact hresult
  · simp only [Tries.after, hn, Nat.add_sub_cancel]
    intro hlt
    exact hended (Nat.succ_lt_succ_iff.mp hlt)
  · simp only [Tries.after, hn, Nat.add_sub_cancel]
    rw [hdelays, List.range_succ_eq_map, List.map_cons, List.map_map]
    rfl

/-- One round of a loop with `limit` calls to go after this one: it ends with a result, or with an
error that is the last or not worth another try, and goes on otherwise. -/
theorem round (hok : ∀ a, outcome 0 = .ok a → t = .last (.ok a))
    (hstop : ∀ err, outcome 0 = .error err → limit = 0 ∨ again err = false →
      t = .last (.error err))
    (hrest : ∀ err, outcome 0 = .error err → limit ≠ 0 → again err = true →
      ∃ rest, TriesOf again limit (fun i => outcome (i + 1)) (fun i => delay (i + 1)) rest
        ∧ t = rest.after (delay 0)) :
    TriesOf again (limit + 1) outcome delay t := by
  cases hfirst : outcome 0 with
  | ok a =>
      rw [hok a hfirst, ← hfirst]
      refine last (Nat.succ_pos _) fun _ e he => ?_
      rw [hfirst] at he
      cases he
  | error err =>
      by_cases h : limit = 0 ∨ again err = false
      · rw [hstop err hfirst h, ← hfirst]
        refine last (Nat.succ_pos _) fun hlimit e he => ?_
        rw [hfirst] at he
        cases he
        rcases h with hzero | hagain
        · omega
        · exact hagain
      · rw [not_or, Bool.not_eq_false] at h
        obtain ⟨rest, htries, rfl⟩ := hrest err hfirst h.1 h.2
        exact after hfirst h.2 htries

/-- Every delay is that of a call. -/
theorem mem_delays (h : TriesOf again limit outcome delay t) {d : δ} (hd : d ∈ t.delays) :
    ∃ i, i + 1 < t.calls ∧ d = delay i := by
  rw [h.delays] at hd
  obtain ⟨i, hi, rfl⟩ := List.mem_map.mp hd
  have hlt := List.mem_range.mp hi
  exact ⟨i, by omega, rfl⟩

/-- The delay after a call. -/
theorem delay_at (h : TriesOf again limit outcome delay t) {i : ℕ} {d : δ}
    (hd : t.delays[i]? = some d) : d = delay i := by
  rw [h.delays, List.getElem?_map] at hd
  obtain ⟨j, hj, rfl⟩ := Option.map_eq_some_iff.mp hd
  rw [(List.getElem?_eq_some_iff.mp hj).2.symm, List.getElem_range]

theorem length_delays (h : TriesOf again limit outcome delay t) :
    t.delays.length + 1 = t.calls := by
  have hcalled := h.called
  rw [h.delays, List.length_map, List.length_range]
  omega

/-- All the waiting, when no delay is longer than `m`. -/
theorem sum_delays_le {M : Type} [AddCommMonoid M] [PartialOrder M] [IsOrderedAddMonoid M]
    {delay : ℕ → M} {t : Tries ε α M} (h : TriesOf again (limit + 1) outcome delay t) {m : M}
    (hm : 0 ≤ m) (hdelay : ∀ i, delay i ≤ m) : t.delays.sum ≤ limit • m := by
  have hlength := h.length_delays
  have hwithin := h.within
  calc t.delays.sum ≤ t.delays.length • m := by
        refine List.sum_le_card_nsmul _ _ fun d hd => ?_
        obtain ⟨i, -, rfl⟩ := h.mem_delays hd
        exact hdelay i
    _ ≤ limit • m := nsmul_le_nsmul_left hm (by omega)

/-- A loop that has stopped earlier has stopped where the other went on. -/
theorem calls_le {δ' : Type} {delay' : ℕ → δ'} {t' : Tries ε α δ'}
    (h : TriesOf again limit outcome delay t) (h' : TriesOf again limit outcome delay' t') :
    t.calls ≤ t'.calls := by
  by_contra hlt
  have hcalled := h'.called
  have hwithin := h.within
  obtain ⟨e, he, hagain⟩ := h.failed (t'.calls - 1) (by omega)
  have hstop := h'.ended (by omega) e he
  rw [hagain] at hstop
  cases hstop

/-- **The calls and the result are determined.** -/
theorem unique {δ' : Type} {delay' : ℕ → δ'} {t' : Tries ε α δ'}
    (h : TriesOf again limit outcome delay t) (h' : TriesOf again limit outcome delay' t') :
    t.calls = t'.calls ∧ t.result = t'.result := by
  have hcalls := Nat.le_antisymm (h.calls_le h') (h'.calls_le h)
  exact ⟨hcalls, by rw [h.result, h'.result, hcalls]⟩

end TriesOf

end LeaveLedger.Lib
