import LeaveLedger.Common.CalendarDate
import LeaveLedger.Ledger.Growth

/-!
# Ledger — No day is booked twice

The active requests of an employee at a location have disjoint ranges of
dates: `createRequest` compares the new range with every active one inside
its transaction, and a request that is no longer active never is again. The
dates are those of the calendar (`calendarDate`); that the code compares
them as it should rests on its own guards on the range.
-/

namespace LeaveLedger

open Js Lib

/-- The dates a request is for. -/
def TimeOffRequest.dates (r : TimeOffRequest) : Set Date :=
  {c | ∃ a b, calendarDate r.startDate = some a ∧ calendarDate r.endDate = some b
    ∧ a ≤ c ∧ c ≤ b}

structure NoDoubleBooking (db : Database) : Prop where
  range : ∀ r ∈ db.requests.rows, ∃ a b,
    calendarDate r.startDate = some a ∧ calendarDate r.endDate = some b ∧ a ≤ b
  days : ∀ r ∈ db.requests.rows, r.daysRequested = r.dates.ncard
  disjoint : ∀ r ∈ db.requests.rows, ∀ r' ∈ db.requests.rows, r ≠ r' → r.isActive → r'.isActive →
    r.employeeId = r'.employeeId → r.locationId = r'.locationId → Disjoint r.dates r'.dates
  once : ∀ employeeId locationId (c : Date), {r | r ∈ db.requests.rows ∧ r.isActive
    ∧ r.employeeId = employeeId ∧ r.locationId = locationId ∧ c ∈ r.dates}.Subsingleton

/-- The payloads have dates `YYYY-MM-DD` of the calendar. The clock is one of this
millennium, or the years are not below 100, which `Date.UTC` would take for
years of the twentieth century. -/
def WellDated (w : World) : LedgerOp × List Fate → Prop
  | (.lifecycle (.createRequest dto _), _) => ∃ a b,
      calendarDate dto.startDate = some a ∧ calendarDate dto.endDate = some b
        ∧ (millennium ≤ w.clock ∨ (100 ≤ a.year ∧ 100 ≤ b.year))
  | _ => True

/-! ## What an accepted payload is -/

theorem datesOverlap_comm (s1 e1 s2 e2 : String) :
    datesOverlap s1 e1 s2 e2 = datesOverlap s2 e2 s1 e1 := by
  unfold datesOverlap
  cases utcOfDate s1 <;> cases utcOfDate e1 <;> cases utcOfDate s2 <;> cases utcOfDate e2 <;>
    simp [Bool.and_comm]

/-- The code reads the range as the calendar does, and its days are counted. -/
structure Dated (startDate endDate : String) (days : ℚ) (a b : Date) : Prop where
  starts : calendarDate startDate = some a
  ends : calendarDate endDate = some b
  le : a ≤ b
  utcStart : utcOfDate startDate = some (a.dayNumber * msPerDay)
  utcEnd : utcOfDate endDate = some (b.dayNumber * msPerDay)
  days : days = ((b.dayNumber + 1 - a.dayNumber : ℤ) : ℚ)

/-- The guards of `createRequest` on a range. -/
theorem dated_of_accepted {dto : CreateTimeOffRequestDto} {k : String} {now : ℤ} {d : ℚ}
    {a b : Date} (ha : calendarDate dto.startDate = some a) (hb : calendarDate dto.endDate = some b)
    (hyears : millennium ≤ now ∨ (100 ≤ a.year ∧ 100 ≤ b.year))
    (hpast : isNotInPast now dto.startDate = true) (hvalid : ValidInput dto k)
    (hd : daysOf dto = some d) : Dated dto.startDate dto.endDate d a b := by
  have hle : a ≤ b := by
    have hends := hvalid.2
    simp only [endsBeforeStart, midnightUTC_of_calendarDate ha, midnightUTC_of_calendarDate hb,
      msPerDay, decide_eq_false_iff_not, not_lt] at hends
    rw [← Date.dayNumber_le_iff]
    omega
  have hyear : 100 ≤ a.year ∧ 100 ≤ b.year := by
    rcases hyears with hclock | hyear
    · -- a start below the year 100 would lie in the past
      have hstart : 100 ≤ a.year := by
        by_contra hlt
        unfold isNotInPast at hpast
        cases ht : utcOfDate dto.startDate with
        | none => rw [ht] at hpast; cases hpast
        | some t =>
            rw [ht] at hpast
            have hlate := of_decide_eq_true hpast
            have hearly := utcOfDate_lt_millennium ha (by omega) ht
            simp only [utcToday, millennium, msPerDay] at hlate hearly hclock
            omega
      refine ⟨hstart, ?_⟩
      rcases hle.lt_or_eq with hlt | rfl
      · rcases Date.lt_iff.mp hlt with h | ⟨h, -⟩ <;> omega
      · exact hstart
    · exact hyear
  have hs := utcOfDate_of_calendarDate ha hyear.1
  have he := utcOfDate_of_calendarDate hb hyear.2
  refine ⟨ha, hb, hle, hs, he, ?_⟩
  obtain ⟨n, hn, rfl⟩ := Option.map_eq_some_iff.mp hd
  rw [calculateDaysRequested_of_calendarDate ha hb hyear.1 hyear.2 hle] at hn
  rw [← Option.some.inj hn]

/-- Ranges that do not overlap by the test of the code have no date in common. -/
theorem Dated.disjoint {s e s' e' : String} {d d' : ℚ} {a b a' b' : Date} (h : Dated s e d a b)
    (h' : Dated s' e' d' a' b') (hno : datesOverlap s e s' e' = false) :
    Disjoint (Set.Icc a b) (Set.Icc a' b') := by
  simp only [datesOverlap, h.utcStart, h.utcEnd, h'.utcStart, h'.utcEnd, msPerDay,
    Bool.and_eq_false_iff, decide_eq_false_iff_not, not_le] at hno
  rw [Set.disjoint_left]
  rintro c ⟨h1, h2⟩ ⟨h1', h2'⟩
  have hac := Date.dayNumber_le_iff.mpr h1
  have hcb := Date.dayNumber_le_iff.mpr h2
  have hac' := Date.dayNumber_le_iff.mpr h1'
  have hcb' := Date.dayNumber_le_iff.mpr h2'
  omega

/-! ## The overlap check of a create that commits -/

variable {env : Env}

theorem createTransaction_noOverlap {dto : CreateTimeOffRequestDto} {k hash : String}
    {days : Option ℚ} {r : TimeOffRequest} {w w' : World}
    (h : (createTransaction env dto k hash days).Returns execTx w r w') :
    ∀ x ∈ w.db.requests.rows, x.employeeId = dto.employeeId → x.locationId = dto.locationId →
      x.isActive → datesOverlap dto.startDate dto.endDate x.startDate x.endDate = false := by
  obtain ⟨_, w₁, hlock, h⟩ := Script.returns_bind.mp h
  obtain ⟨_, w₂, hids, hdone⟩ := Script.returns_bind.mp hlock
  obtain ⟨-, rfl⟩ := Script.returns_done.mp hdone
  obtain ⟨-, rfl⟩ := read_returns rfl hids
  obtain ⟨_, w₃, hoverlap, -⟩ := Script.returns_bind.mp h
  obtain ⟨active, w₄, hactive, hnone⟩ := Script.returns_bind.mp hoverlap
  obtain ⟨hexec, rfl⟩ := read_returns rfl hactive
  obtain ⟨-, hall⟩ := assertNoneOverlaps_returns hnone
  simp only [Stmt.exec, Except.ok.injEq, Prod.mk.injEq, and_true] at hexec
  intro x hx he hl hact
  apply hall
  rw [← hexec]
  exact List.mem_filter.mpr ⟨hx, decide_eq_true ⟨he, hl, hact⟩⟩

/-- One step of a create: nothing, or the commit of a request that overlaps
with no active one. -/
theorem createStep_noOverlap {dto : CreateTimeOffRequestDto} {k : String} {fate : Fate}
    {o : SvcOp} {x : SvcSig.Res o} {w w' : World} (ho : CreateAsks env dto k o)
    (h : execSvc fate o w = some (x, w')) :
    w'.db = w.db ∨ ∃ d b b' r rec, daysOf dto = some d ∧ ValidInput dto k
      ∧ Created env dto k (requestHashOf env dto) w w' d b b' r rec
      ∧ ∀ y ∈ w.db.requests.rows, y.employeeId = dto.employeeId → y.locationId = dto.locationId →
        y.isActive → datesOverlap dto.startDate dto.endDate y.startDate y.endDate = false := by
  rcases (createStep ho h).2 with hdb | ⟨d, b, b', r, rec, hd, hvalid, -, rfl, hc⟩
  · exact Or.inl hdb
  · rcases (execTransaction_cases h).2 with ⟨r', -, -, hret⟩ | ⟨e, -, hdb⟩
    · exact Or.inr ⟨d, b, b', r, rec, hd, hvalid, hc, createTransaction_noOverlap hret⟩
    · exact Or.inl hdb

/-- A create with a start in the past changes nothing. -/
theorem createRequest_inPast {dto : CreateTimeOffRequestDto} {k : String} {fates : List Fate}
    {w w' : World} {res : Except Exception SerializedRequest}
    (hpast : isNotInPast w.clock dto.startDate = false)
    (h : (createRequest env dto k).alone fates w = some (res, w')) : w'.db = w.db := by
  unfold createRequest at h
  split at h
  · cases h; rfl
  · have h' : Svc.alone (if !isNotInPast w.clock dto.startDate then
        (.fail (unprocessable .invalidDateRange "startDate cannot be in the past") : Svc _)
      else if endsBeforeStart dto then
        .fail (unprocessable .invalidDateRange "endDate must be on or after startDate")
      else createValidated env dto k) fates w = some (res, w') := h
    rw [hpast] at h'
    cases h'
    rfl

/-! ## The invariant -/

/-- Every range is read as it should be, and active ranges of an employee at a
location do not overlap by the test of the code. -/
structure BookingInv (db : Database) : Prop where
  dated : ∀ r ∈ db.requests.rows, ∃ a b, Dated r.startDate r.endDate r.daysRequested a b
  apart : ∀ r ∈ db.requests.rows, ∀ r' ∈ db.requests.rows, r ≠ r' → r.isActive → r'.isActive →
    r.employeeId = r'.employeeId → r.locationId = r'.locationId →
    datesOverlap r.startDate r.endDate r'.startDate r'.endDate = false

theorem bookingInv_empty : BookingInv Database.empty :=
  ⟨fun r hr => (by cases hr), fun r hr => (by cases hr)⟩

theorem BookingInv.of_requests {db db' : Database} (h : BookingInv db)
    (hreq : db'.requests = db.requests) : BookingInv db' := by
  refine ⟨fun r hr => h.dated r (hreq ▸ hr), fun r hr r' hr' => ?_⟩
  exact h.apart r (hreq ▸ hr) r' (hreq ▸ hr')

theorem BookingInv.created {dto : CreateTimeOffRequestDto} {k hash : String} {w w' : World}
    {d : ℚ} {b b' : EmployeeBalance} {r : TimeOffRequest} {rec : IdempotencyRecord} {s e : Date}
    (h : BookingInv w.db) (hc : Created env dto k hash w w' d b b' r rec)
    (hdated : Dated dto.startDate dto.endDate d s e)
    (hno : ∀ y ∈ w.db.requests.rows, y.employeeId = dto.employeeId →
      y.locationId = dto.locationId → y.isActive →
      datesOverlap dto.startDate dto.endDate y.startDate y.endDate = false) :
    BookingInv w'.db := by
  obtain ⟨id, hrow⟩ := hc.request
  refine ⟨fun x hx => ?_, fun x hx y hy hne hactx hacty hemp hloc => ?_⟩
  · rcases hc.requests.mem_iff.mp hx with hold | rfl
    · exact h.dated x hold
    · rw [hrow]
      exact ⟨s, e, hdated⟩
  · rcases hc.requests.mem_iff.mp hx with hx | rfl
    · rcases hc.requests.mem_iff.mp hy with hy | rfl
      · exact h.apart x hx y hy hne hactx hacty hemp hloc
      · -- an old request and the new one
        rw [datesOverlap_comm]
        rw [hrow] at hemp hloc ⊢
        exact hno x hx hemp hloc hactx
    · rcases hc.requests.mem_iff.mp hy with hy | rfl
      · rw [hrow] at hemp hloc ⊢
        exact hno y hy hemp.symm hloc.symm hacty
      · exact absurd rfl hne

/-- A settlement books nothing: the row it changes was active before. -/
theorem BookingInv.settled {s : Settlement} {id : Id} {w w' : World} {r r' : TimeOffRequest}
    {b b' : EmployeeBalance} (h : BookingInv w.db) (hs : Settled s id w w' r r' b b') :
    BookingInv w'.db := by
  have hsame := saveOver_same hs.row
  have hactive : r.isActive := by
    unfold TimeOffRequest.isActive
    rw [hs.pending]
    rfl
  -- a row of the new table, and the row it was
  have hback : ∀ x ∈ w'.db.requests.rows, ∃ y ∈ w.db.requests.rows, SameRequest y x
      ∧ (x.isActive → y.isActive) := by
    intro x hx
    rcases hs.requests.mem_iff.mp hx with ⟨hold, -⟩ | rfl
    · exact ⟨x, hold, .refl x, fun hact => hact⟩
    · exact ⟨r, hs.requests.mem, hsame, fun _ => hactive⟩
  refine ⟨fun x hx => ?_, fun x hx y hy hne hactx hacty hemp hloc => ?_⟩
  · obtain ⟨x₀, hx₀, hx, -⟩ := hback x hx
    rw [hx.startDate, hx.endDate, hx.daysRequested]
    exact h.dated x₀ hx₀
  · obtain ⟨x₀, hx₀, hxs, hxact⟩ := hback x hx
    obtain ⟨y₀, hy₀, hys, hyact⟩ := hback y hy
    have hne₀ : x₀ ≠ y₀ := by
      rintro rfl
      exact hne (Table.eq_of_pk hx hy (hxs.id.trans hys.id.symm))
    rw [hxs.startDate, hxs.endDate, hys.startDate, hys.endDate]
    refine h.apart x₀ hx₀ y₀ hy₀ hne₀ (hxact hactx) (hyact hacty) ?_ ?_
    · rw [← hxs.employeeId, ← hys.employeeId, hemp]
    · rw [← hxs.locationId, ← hys.locationId, hloc]

/-- **One operation** on well-dated payloads keeps the invariant. -/
theorem bookingInv_step {w w' : World} {l : LedgerOp × List Fate} (h : BookingInv w.db)
    (hdated : WellDated w l) (hstep : ledgerStep env w l = some w') : BookingInv w'.db := by
  obtain ⟨op, fates⟩ := l
  cases op with
  | balance op =>
      rcases balanceStep_cases hstep with hdb | hopened | hraised
      · exact hdb ▸ h
      · exact h.of_requests hopened.requests
      · exact h.of_requests hraised.requests
  | lifecycle op =>
      cases op with
      | createRequest dto k =>
          obtain ⟨a, b, ha, hb, hyears⟩ := hdated
          obtain ⟨⟨res, w₁⟩, hrun, rfl⟩ := Option.map_eq_some_iff.mp hstep
          cases hpast : isNotInPast w.clock dto.startDate with
          | false =>
              exact h.of_requests
                (congrArg Database.requests (createRequest_inPast hpast hrun))
          | true =>
              refine Svc.alone_keeps (I := fun w => BookingInv w.db) ?_ createRequest_asks h hrun
              intro fate o x w₁ w₂ ho hI hexec
              rcases createStep_noOverlap ho hexec with
                hdb | ⟨d, c, c', r, rec, hd, hvalid, hc, hno⟩
              · exact hdb ▸ hI
              · exact hI.created hc (dated_of_accepted ha hb hyears hpast hvalid hd) hno
      | settle s id =>
          obtain ⟨⟨res, w₁⟩, hrun, rfl⟩ := Option.map_eq_some_iff.mp hstep
          refine Svc.alone_keeps (I := fun w => BookingInv w.db) ?_ (settlement_asks s id) h hrun
          intro fate o x w₁ w₂ ho hI hexec
          rcases (settleStep ho hexec).2 with hdb | ⟨r, r', b, b', hs⟩
          · exact hdb ▸ hI
          · exact hI.settled hs
      | tick ms => cases hstep; exact h

theorem Dated.dates_eq {r : TimeOffRequest} {d : ℚ} {a b : Date}
    (h : Dated r.startDate r.endDate d a b) : r.dates = Set.Icc a b := by
  ext c
  constructor
  · rintro ⟨a', b', ha, hb, h1, h2⟩
    rw [h.starts] at ha
    rw [h.ends] at hb
    cases ha
    cases hb
    exact ⟨h1, h2⟩
  · rintro ⟨h1, h2⟩
    exact ⟨a, b, h.starts, h.ends, h1, h2⟩

theorem BookingInv.noDoubleBooking {db : Database} (h : BookingInv db) : NoDoubleBooking db := by
  have hdisjoint : ∀ r ∈ db.requests.rows, ∀ r' ∈ db.requests.rows, r ≠ r' → r.isActive →
      r'.isActive → r.employeeId = r'.employeeId → r.locationId = r'.locationId →
      Disjoint r.dates r'.dates := by
    intro r hr r' hr' hne hact hact' hemp hloc
    obtain ⟨a, b, hd⟩ := h.dated r hr
    obtain ⟨a', b', hd'⟩ := h.dated r' hr'
    rw [hd.dates_eq, hd'.dates_eq]
    exact hd.disjoint hd' (h.apart r hr r' hr' hne hact hact' hemp hloc)
  refine ⟨fun r hr => ?_, fun r hr => ?_, hdisjoint, ?_⟩
  · obtain ⟨a, b, hd⟩ := h.dated r hr
    exact ⟨a, b, hd.starts, hd.ends, hd.le⟩
  · obtain ⟨a, b, hd⟩ := h.dated r hr
    have hle := Date.dayNumber_le_iff.mpr hd.le
    have hcard : (((b.dayNumber + 1 - a.dayNumber).toNat : ℤ)) = b.dayNumber + 1 - a.dayNumber :=
      Int.toNat_of_nonneg (by omega)
    rw [hd.dates_eq, Date.ncard_Icc, hd.days, ← hcard]
    push_cast
    rfl
  · rintro e l c r ⟨hr, hact, he, hl, hc⟩ r' ⟨hr', hact', he', hl', hc'⟩
    by_contra hne
    exact Set.disjoint_left.mp
      (hdisjoint r hr r' hr' hne hact hact' (he.trans he'.symm) (hl.trans hl'.symm)) hc hc'

/-- **No day is booked twice** in any run whose payloads have calendar dates. -/
theorem no_double_booking (env : Env) (clock : ℤ) (ls : List (LedgerOp × List Fate)) (w : World)
    (hrun : run (ledgerStep env) (World.initial clock) ls = some w)
    (hdates : Meets (ledgerStep env) WellDated (World.initial clock) ls) : NoDoubleBooking w.db :=
  (run_meets (I := fun w => BookingInv w.db) (fun _ _ _ hI hC h => bookingInv_step hI hC h)
    bookingInv_empty hdates hrun).noDoubleBooking

/-- Three payloads of one employee and location: the third asks for a day of each of the
two before it, and is turned away. -/
def threePayloads : List (LedgerOp × List Fate) := [
  seed 10,
  (.lifecycle (.createRequest sampleDto "key-1"), []),
  (.lifecycle (.settle (.approve "MGR001") 8), []),
  (.lifecycle (.createRequest
    { sampleDto with startDate := "2030-01-09", endDate := "2030-01-10" } "key-2"), []),
  (.lifecycle (.createRequest
    { sampleDto with startDate := "2030-01-08", endDate := "2030-01-09" } "key-3"), [])]

theorem no_double_booking_sample : ∃ w,
    run (ledgerStep .default) (World.initial 0) threePayloads = some w
    ∧ w.db.requests.rows.map (fun r => (r.startDate, r.endDate, r.status))
      = [("2030-01-07", "2030-01-08", .approved), ("2030-01-09", "2030-01-10", .pending)]
    ∧ NoDoubleBooking w.db := by
  have h : (run (ledgerStep .default) (World.initial 0) threePayloads).map
      (fun w => w.db.requests.rows.map fun r => (r.startDate, r.endDate, r.status))
      = some [("2030-01-07", "2030-01-08", .approved), ("2030-01-09", "2030-01-10", .pending)] := by
    decide +kernel
  obtain ⟨w, hw, hrows⟩ := Option.map_eq_some_iff.mp h
  have h7 : calendarDate "2030-01-07" = some ⟨2030, 1, 7, by decide, by decide⟩ := by
    decide +kernel
  have h8 : calendarDate "2030-01-08" = some ⟨2030, 1, 8, by decide, by decide⟩ := by
    decide +kernel
  have h9 : calendarDate "2030-01-09" = some ⟨2030, 1, 9, by decide, by decide⟩ := by
    decide +kernel
  have h10 : calendarDate "2030-01-10" = some ⟨2030, 1, 10, by decide, by decide⟩ := by
    decide +kernel
  have hdated : ∀ l ∈ threePayloads, ∀ w, WellDated w l := by
    simp only [threePayloads, List.forall_mem_cons]
    exact ⟨fun _ => trivial, fun _ => ⟨_, _, h7, h8, .inr (by decide)⟩, fun _ => trivial,
      fun _ => ⟨_, _, h9, h10, .inr (by decide)⟩, fun _ => ⟨_, _, h8, h9, .inr (by decide)⟩,
      by simp⟩
  refine ⟨w, hw, hrows, no_double_booking .default 0 threePayloads w hw ?_⟩
  exact meets_iff.mpr fun pre l post s hls _ => hdated l (by simp [hls]) s

end LeaveLedger
