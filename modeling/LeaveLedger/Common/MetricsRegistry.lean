import LeaveLedger.Lib.Samples
import Mathlib

/-!
# Common — MetricsRegistry

`common/utils/metrics-registry.util`: latency percentiles of the requests in
a sliding window. What is stored is the last durations (`Keeps`), and a
percentile is the one of its rank in the sorted copy (`getPercentile_isLeast`).
Durations and percentages are exact.
-/

namespace LeaveLedger

open Lib

namespace MetricsRegistry

/-! ## The registry -/

structure Registry where
  windowSize : ℚ
  latencies : List ℚ
  requestCount : ℕ
  errorCount : ℕ

/-- The constructor: an option that is absent or 0 has its default. -/
def create (windowSize : Option ℚ) : Registry where
  windowSize := if windowSize.getD 0 = 0 then 1000 else windowSize.getD 0
  latencies := []
  requestCount := 0
  errorCount := 0

/-- `recordRequest`. -/
def Registry.recordRequest (r : Registry) (durationMs : ℚ) (isError : Bool := false) : Registry :=
  let latencies := r.latencies ++ [durationMs]
  { r with
    requestCount := r.requestCount + 1
    errorCount := if isError then r.errorCount + 1 else r.errorCount
    latencies := if (latencies.length : ℚ) > r.windowSize then latencies.tail else latencies }

/-- The index into the sorted copy, clamped at both ends. -/
def percentileIndex (p : ℚ) (length : ℕ) : ℕ :=
  (max 0 (min ((length : ℤ) - 1) (⌈p / 100 * length⌉ - 1))).toNat

/-- `getPercentile`. -/
def Registry.getPercentile (r : Registry) (p : ℚ) : ℚ :=
  if r.latencies.length = 0 then 0
  else
    let sorted := r.latencies.insertionSort (· ≤ ·)
    sorted.getD (percentileIndex p sorted.length) 0

/-- `Number(x.toFixed(4))` of a number from 0 to 1: the nearest, the larger of two. -/
def toFixed4 (x : ℚ) : ℚ := ⌊x * 10000 + 1 / 2⌋ / 10000

structure Snapshot where
  totalRequests : ℕ
  totalErrors : ℕ
  errorRate : ℚ
  p50 : ℚ
  p95 : ℚ
  p99 : ℚ
  sampleSize : ℕ

/-- `getSnapshot`. -/
def Registry.getSnapshot (r : Registry) : Snapshot where
  totalRequests := r.requestCount
  totalErrors := r.errorCount
  errorRate := if r.requestCount > 0 then toFixed4 (r.errorCount / r.requestCount) else 0
  p50 := r.getPercentile 50
  p95 := r.getPercentile 95
  p99 := r.getPercentile 99
  sampleSize := r.latencies.length

/-- `reset`. -/
def Registry.reset (r : Registry) : Registry :=
  { r with latencies := [], requestCount := 0, errorCount := 0 }

/-! ## The window -/

/-- A call of `recordRequest`. -/
structure Request where
  durationMs : ℚ
  isError : Bool

/-- The registry after some calls. -/
def Registry.record (r : Registry) (calls : List Request) : Registry :=
  calls.foldl (fun r c => r.recordRequest c.durationMs c.isError) r

/-- The durations of the last calls, as many as the window may have. -/
def latest (windowSize : ℚ) (calls : List Request) : List ℚ :=
  (calls.map Request.durationMs).rtake ⌊windowSize⌋₊

theorem length_latest (windowSize : ℚ) (calls : List Request) :
    (latest windowSize calls).length = min ⌊windowSize⌋₊ calls.length := by
  simp [latest, length_rtake]

/-- What is stored of the calls since the start: the last durations and two counts. -/
structure Keeps (w : ℚ) (calls : List Request) (r : Registry) : Prop where
  windowSize : r.windowSize = w
  latencies : r.latencies = latest w calls
  requestCount : r.requestCount = calls.length
  errorCount : r.errorCount = calls.countP Request.isError

theorem keeps_nil {r : Registry} (hlat : r.latencies = []) (hreq : r.requestCount = 0)
    (herr : r.errorCount = 0) : Keeps r.windowSize [] r := by
  constructor
  · rfl
  · simp [hlat, latest, List.rtake]
  · exact hreq
  · exact herr

/-- A registry that is new, and one that was reset. -/
theorem keeps_create (windowSize : Option ℚ) :
    Keeps (create windowSize).windowSize [] (create windowSize) :=
  keeps_nil rfl rfl rfl

theorem keeps_reset (r : Registry) : Keeps r.windowSize [] r.reset :=
  keeps_nil (r := r.reset) rfl rfl rfl

section
variable {w : ℚ} {past : List Request} {r : Registry}

/-- **One call**: the oldest duration falls out of a full window. -/
theorem Keeps.recordRequest (h : Keeps w past r) (hw : 1 ≤ w) (c : Request) :
    Keeps w (past ++ [c]) (r.recordRequest c.durationMs c.isError) := by
  have hfloor : 0 < ⌊w⌋₊ := Nat.floor_pos.mpr hw
  have hfull : ∀ n : ℕ, (n : ℚ) > w ↔ ⌊w⌋₊ < n := fun n =>
    (Nat.floor_lt (zero_le_one.trans hw)).symm
  constructor
  · exact h.windowSize
  · simp only [Registry.recordRequest, h.windowSize, h.latencies, hfull, latest, List.map_append,
      List.map_singleton]
    exact rtake_concat hfloor _ _
  · simp [Registry.recordRequest, h.requestCount]
  · simp only [Registry.recordRequest, h.errorCount, List.countP_append, List.countP_singleton]
    split <;> rfl

theorem Keeps.record (h : Keeps w past r) (hw : 1 ≤ w) (calls : List Request) :
    Keeps w (past ++ calls) (r.record calls) := by
  induction calls generalizing past r with
  | nil =>
      rw [List.append_nil]
      exact h
  | cons c calls ih =>
      have hnext := ih (h.recordRequest hw c)
      rw [List.append_assoc] at hnext
      exact hnext

end

/-- After any calls the window has the last durations. -/
theorem latencies_record {windowSize : Option ℚ} (hw : 1 ≤ (create windowSize).windowSize)
    (calls : List Request) :
    ((create windowSize).record calls).latencies
      = latest (create windowSize).windowSize calls := by
  have hkeeps := (keeps_create windowSize).record hw calls
  rw [hkeeps.latencies, List.nil_append]

/-! ## Percentiles -/

/-- A percentage in range needs no clamp: the index is one less than the rank. -/
theorem percentileIndex_lt_iff {p : ℚ} {n : ℕ} (hp : 0 < p) (hp' : p ≤ 100) (hn : 0 < n) (c : ℕ) :
    percentileIndex p n < c ↔ p / 100 * n ≤ c := by
  have hn' : (0 : ℚ) < n := by exact_mod_cast hn
  have hpos : 0 < ⌈p / 100 * n⌉ := Int.ceil_pos.mpr (by positivity)
  have hle : ⌈p / 100 * n⌉ ≤ n := by
    rw [Int.ceil_le]
    push_cast
    nlinarith
  have hrank : p / 100 * n ≤ c ↔ ⌈p / 100 * n⌉ ≤ c := by
    rw [Int.ceil_le]
    push_cast
    rfl
  rw [hrank]
  unfold percentileIndex
  omega

theorem percentileIndex_lt (p : ℚ) {n : ℕ} (hn : 0 < n) : percentileIndex p n < n := by
  unfold percentileIndex
  omega

theorem percentileIndex_mono {p q : ℚ} (hpq : p ≤ q) (n : ℕ) :
    percentileIndex p n ≤ percentileIndex q n := by
  have hceil : ⌈p / 100 * n⌉ ≤ ⌈q / 100 * n⌉ := by
    apply Int.ceil_le_ceil
    gcongr
  unfold percentileIndex
  omega

/-- The value that is read is the one at its index in the sorted copy. -/
theorem getPercentile_eq {r : Registry} (hne : r.latencies ≠ []) (p : ℚ) :
    ∃ h : percentileIndex p r.latencies.length < (r.latencies.insertionSort (· ≤ ·)).length,
      r.getPercentile p
        = (r.latencies.insertionSort (· ≤ ·))[percentileIndex p r.latencies.length] := by
  have hpos : 0 < r.latencies.length := List.length_pos_iff.mpr hne
  have hlt : percentileIndex p r.latencies.length
      < (r.latencies.insertionSort (· ≤ ·)).length := by
    rw [List.length_insertionSort]
    exact percentileIndex_lt p hpos
  refine ⟨hlt, ?_⟩
  unfold Registry.getPercentile
  rw [if_neg hpos.ne']
  simp only [List.length_insertionSort]
  rw [List.getD_eq_getElem _ _ hlt]

/-- **Nearest rank**: the least duration that so many per cent of the window do not
exceed. -/
theorem getPercentile_isLeast {r : Registry} (hne : r.latencies ≠ []) {p : ℚ} (hp : 0 < p)
    (hp' : p ≤ 100) :
    IsLeast {x | x ∈ r.latencies
        ∧ p / 100 * r.latencies.length ≤ (r.latencies.countP (· ≤ x) : ℚ)}
      (r.getPercentile p) := by
  obtain ⟨hlt, heq⟩ := getPercentile_eq hne p
  have hleast := isLeast_insertionSort hlt
  have hpos : 0 < r.latencies.length := List.length_pos_iff.mpr hne
  simp only [percentileIndex_lt_iff hp hp' hpos] at hleast
  rw [heq]
  exact hleast

theorem getPercentile_mono (r : Registry) {p q : ℚ} (hpq : p ≤ q) :
    r.getPercentile p ≤ r.getPercentile q := by
  by_cases hne : r.latencies = []
  · simp [Registry.getPercentile, hne]
  · obtain ⟨hp, hpeq⟩ := getPercentile_eq hne p
    obtain ⟨hq, hqeq⟩ := getPercentile_eq hne q
    rw [hpeq, hqeq]
    exact List.sortedLE_insertionSort.getElem_le_getElem_of_le (percentileIndex_mono hpq _)

/-- **Percentiles are of the latest window**, by nearest rank: of the last durations the
least one that `p` per cent of them do not exceed, so a higher percentage is not below. -/
theorem percentiles_of_latest_window (windowSize : Option ℚ)
    (hw : 1 ≤ (create windowSize).windowSize) (calls : List Request) :
    (calls ≠ [] → ∀ p, 0 < p → p ≤ 100 →
      IsLeast {x | x ∈ latest (create windowSize).windowSize calls
          ∧ p / 100 * (latest (create windowSize).windowSize calls).length
            ≤ ((latest (create windowSize).windowSize calls).countP (· ≤ x) : ℚ)}
        (((create windowSize).record calls).getPercentile p))
    ∧ (∀ p q, p ≤ q → ((create windowSize).record calls).getPercentile p
        ≤ ((create windowSize).record calls).getPercentile q)
    ∧ ((create windowSize).record calls).getSnapshot.p50
        ≤ ((create windowSize).record calls).getSnapshot.p95
    ∧ ((create windowSize).record calls).getSnapshot.p95
        ≤ ((create windowSize).record calls).getSnapshot.p99 := by
  have hlat := latencies_record hw calls
  refine ⟨fun hne p hp hp' => ?_, fun p q => getPercentile_mono _,
    getPercentile_mono _ (by norm_num), getPercentile_mono _ (by norm_num)⟩
  have hsome : ((create windowSize).record calls).latencies ≠ [] := by
    have hfloor : 0 < ⌊(create windowSize).windowSize⌋₊ := Nat.floor_pos.mpr hw
    have hcalls : 0 < calls.length := List.length_pos_iff.mpr hne
    rw [hlat, ← List.length_pos_iff, length_latest]
    omega
  have hleast := getPercentile_isLeast hsome hp hp'
  rw [hlat] at hleast
  exact hleast

/-- Three durations in a window of two. -/
def threeRequests : List Request := [⟨5, false⟩, ⟨3, true⟩, ⟨1, false⟩]

theorem percentiles_of_latest_window_three :
    latest 2 threeRequests = [3, 1]
    ∧ ((create (some 2)).record threeRequests).getPercentile 50 = 1
    ∧ IsLeast {x | x ∈ latest 2 threeRequests
          ∧ 50 / 100 * (latest 2 threeRequests).length
            ≤ ((latest 2 threeRequests).countP (· ≤ x) : ℚ)}
        (((create (some 2)).record threeRequests).getPercentile 50) := by
  have hcreate : (create (some 2)).windowSize = 2 := by decide
  have hthree := percentiles_of_latest_window (some 2) (by decide) threeRequests
  rw [hcreate] at hthree
  exact ⟨by decide +kernel, by decide +kernel,
    hthree.1 (by simp [threeRequests]) 50 (by norm_num) (by norm_num)⟩

end MetricsRegistry

end LeaveLedger
