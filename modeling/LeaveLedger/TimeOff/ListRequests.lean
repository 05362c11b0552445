import LeaveLedger.Js.Parse
import LeaveLedger.Lib.Paging
import LeaveLedger.Store.Database

/-!
# TimeOff — listRequests

`listRequests` of `modules/timeoff/timeoff.service`, and a client that
reads the list page by page. A page holds at most 100 requests whatever
limit was asked for, and the answer repeats the limit that was asked for.
-/

namespace LeaveLedger

open Js Lib

/-! ## The call -/

/-- The filters, with `limit` and `offset` as the query string carries them. -/
structure RequestFilters where
  employeeId : Option String := none
  locationId : Option String := none
  status : Option RequestStatus := none
  limit : Option String := none
  offset : Option String := none

/-- `where`: a filter that is absent or empty admits every request. -/
def RequestFilters.admits (filters : RequestFilters) (r : TimeOffRequest) : Bool :=
  (orNull filters.employeeId).all (· = r.employeeId)
    && (orNull filters.locationId).all (· = r.locationId)
    && filters.status.all (· = r.status)

/-- The requests a filter admits, the latest first. -/
def Database.matching (db : Database) (filters : RequestFilters) : List TimeOffRequest :=
  (db.requests.rows.filter filters.admits).insertionSort fun a b => b.createdAt ≤ a.createdAt

structure RequestPage where
  data : List SerializedRequest
  total : ℕ
  limit : ℤ
  offset : ℤ

/-- `listRequests`. What the driver makes of a limit that is no positive number, or of
an offset that is none from 0, is not the source's: `none`. -/
def listRequests (db : Database) (filters : RequestFilters) : Option RequestPage :=
  (parseInt (filters.limit.getD "50")).bind fun limit =>
    (parseInt (filters.offset.getD "0")).bind fun offset =>
      if 1 ≤ limit ∧ 0 ≤ offset then
        let found := db.matching filters
        let requests := (found.drop offset.toNat).take (min limit 100).toNat
        some {
          data := requests.map serializeRequest
          total := found.length
          limit := limit
          offset := offset }
      else none

/-! ## The client -/

/-- Read on from `offset`, which grows by the limit of each answer, until it is not
below the total. -/
def readPages (db : Database) (filters : RequestFilters) : ℕ → ℕ → Option (List SerializedRequest)
  | 0, _ => none
  | fuel + 1, offset =>
      (listRequests db { filters with offset := some (toString offset) }).bind fun page =>
        let next := offset + page.limit.toNat
        if page.total ≤ next then some page.data
        else (readPages db filters fuel next).map fun rest => page.data ++ rest

theorem listRequests_page {db : Database} {filters : RequestFilters} {limit : ℕ} (offset : ℕ)
    (hlimit : parseInt (filters.limit.getD "50") = some (limit : ℤ)) (hpos : 1 ≤ limit) :
    listRequests db { filters with offset := some (toString offset) } = some {
      data := (((db.matching filters).drop offset).take (min limit 100)).map serializeRequest
      total := (db.matching filters).length
      limit := limit
      offset := offset } := by
  have hsame :
      db.matching { filters with offset := some (toString offset) } = db.matching filters :=
    rfl
  have hsize : (min (limit : ℤ) 100).toNat = min limit 100 := by omega
  have hok : 1 ≤ (limit : ℤ) ∧ 0 ≤ (offset : ℤ) := by omega
  simp only [listRequests, hlimit, Option.getD_some, parseInt_toString, Option.bind_some, hok,
    and_self, if_true, hsame, hsize, Int.toNat_natCast]

/-- The client reads the list in strides of the limit and pages of at most 100. -/
theorem readPages_eq {db : Database} {filters : RequestFilters} {limit : ℕ}
    (hlimit : parseInt (filters.limit.getD "50") = some (limit : ℤ)) (hpos : 1 ≤ limit)
    {fuel offset : ℕ} (hfuel : (db.matching filters).length < fuel + offset) (hf : 0 < fuel) :
    readPages db filters fuel offset
      = some ((strided (min limit 100) limit fuel ((db.matching filters).drop offset)).map
          serializeRequest) := by
  induction fuel generalizing offset with
  | zero => omega
  | succ fuel ih =>
      rw [readPages, listRequests_page offset hlimit hpos, Option.bind_some]
      simp only [Int.toNat_natCast, strided, List.length_drop, List.drop_drop]
      by_cases hend : (db.matching filters).length ≤ offset + limit
      · have hlast : (db.matching filters).length - offset ≤ limit := by omega
        simp [hend, hlast]
      · have hmore : ¬ (db.matching filters).length - offset ≤ limit := by omega
        rw [if_neg hend, if_neg hmore, ih (by omega) (by omega), Option.map_some,
          List.map_append]

/-- **Paging** visits every request that matches once, exactly when the limit is at
most 100 or all that match fit on one page of 100. -/
theorem paging_complete_iff (db : Database) (filters : RequestFilters) (limit : ℕ)
    (hlimit : parseInt (filters.limit.getD "50") = some (limit : ℤ)) (hpos : 1 ≤ limit) :
    ∃ fuel data, readPages db filters fuel 0 = some data
      ∧ (data.Perm ((db.requests.rows.filter filters.admits).map serializeRequest)
        ↔ limit ≤ 100 ∨ (db.requests.rows.filter filters.admits).length ≤ 100) := by
  refine ⟨(db.matching filters).length + 1, _, readPages_eq hlimit hpos (by omega) (by omega), ?_⟩
  have hperm : (db.matching filters).Perm (db.requests.rows.filter filters.admits) :=
    List.perm_insertionSort _ _
  rw [List.drop_zero, ← strided_map, ← (hperm.map serializeRequest).congr_right, ← hperm.length_eq,
    strided_perm_iff (by omega) (by omega) (by simp), List.length_map]
  omega

/-- The request number `i` of an employee, made at the time `i`. -/
def requestOf (i : ℕ) : TimeOffRequest :=
  NewRequest.toRow {
    idempotencyKey := toString i, employeeId := "E1", locationId := "L1", leaveType := .sick
    startDate := "2030-01-07", endDate := "2030-01-07", daysRequested := 1, status := .pending
    requestedBy := "E1", notes := none, hcmSyncStatus := .pending } i i

/-- A table of the requests below `n`. -/
def requestsBelow (n : ℕ) : Database :=
  { Database.empty with
    requests := {
      rows := (List.range n).map requestOf
      pk_nodup := by
        rw [List.map_map]
        exact List.nodup_range.map fun i j h => h
      uk_nodup := by
        rw [List.map_map]
        refine List.nodup_range.map fun i j h => ?_
        have hread := congrArg parseInt (show toString i = toString j from h)
        rw [parseInt_toString, parseInt_toString] at hread
        exact_mod_cast Option.some.inj hread } }

/-- Three requests are read in strides of two, on more than one page. -/
theorem paging_complete_iff_three :
    (readPages (requestsBelow 3) { limit := some "2" } 1 0).isNone = true
      ∧ ∃ fuel data, readPages (requestsBelow 3) { limit := some "2" } fuel 0 = some data
        ∧ data.length = 3
        ∧ data.Perm (((requestsBelow 3).requests.rows.filter
            (RequestFilters.admits { limit := some "2" })).map serializeRequest) := by
  have hone : (readPages (requestsBelow 3) { limit := some "2" } 1 0).isNone = true := by
    decide +kernel
  obtain ⟨fuel, data, hread, hiff⟩ :=
    paging_complete_iff (requestsBelow 3) { limit := some "2" } 2 (by decide +kernel) (by decide)
  have hperm := hiff.mpr (.inl (by decide))
  have hthree : ((requestsBelow 3).requests.rows.filter
      (RequestFilters.admits { limit := some "2" })).length = 3 := by
    decide +kernel
  refine ⟨hone, fuel, data, hread, ?_, hperm⟩
  rw [hperm.length_eq, List.length_map, hthree]

/-- Of 101 requests a client that asks for 150 at a time never sees the oldest. -/
theorem paging_skips :
    ∃ data, readPages (requestsBelow 101) { limit := some "150" } 1 0 = some data
      ∧ requestOf 0 ∈ (requestsBelow 101).requests.rows
      ∧ RequestFilters.admits { limit := some "150" } (requestOf 0)
      ∧ serializeRequest (requestOf 0) ∉ data := by
  refine ⟨_, rfl, List.mem_map_of_mem (List.mem_range.mpr (by decide)), by decide, ?_⟩
  decide +kernel

end LeaveLedger
