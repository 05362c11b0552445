import LeaveLedger.Ledger.Reconciliation

/-!
# Ledger — How the tables grow

Requests and records are added and never removed, and a request keeps the
columns it was made with. `Extends` says so of two databases, and every
effect of the service on its tables has it.
-/

namespace LeaveLedger

open Js Lib

/-- The columns of a request that nothing changes. -/
structure SameRequest (r r' : TimeOffRequest) : Prop where
  id : r'.id = r.id
  idempotencyKey : r'.idempotencyKey = r.idempotencyKey
  employeeId : r'.employeeId = r.employeeId
  locationId : r'.locationId = r.locationId
  leaveType : r'.leaveType = r.leaveType
  startDate : r'.startDate = r.startDate
  endDate : r'.endDate = r.endDate
  daysRequested : r'.daysRequested = r.daysRequested

theorem SameRequest.refl (r : TimeOffRequest) : SameRequest r r :=
  ⟨rfl, rfl, rfl, rfl, rfl, rfl, rfl, rfl⟩

theorem SameRequest.symm {r r' : TimeOffRequest} (h : SameRequest r r') : SameRequest r' r :=
  ⟨h.id.symm, h.idempotencyKey.symm, h.employeeId.symm, h.locationId.symm, h.leaveType.symm,
    h.startDate.symm, h.endDate.symm, h.daysRequested.symm⟩

theorem SameRequest.trans {r r' r'' : TimeOffRequest} (h : SameRequest r r')
    (h' : SameRequest r' r'') : SameRequest r r'' :=
  ⟨h'.id.trans h.id, h'.idempotencyKey.trans h.idempotencyKey,
    h'.employeeId.trans h.employeeId, h'.locationId.trans h.locationId,
    h'.leaveType.trans h.leaveType, h'.startDate.trans h.startDate, h'.endDate.trans h.endDate,
    h'.daysRequested.trans h.daysRequested⟩

theorem SameRequest.balanceKey {r r' : TimeOffRequest} (h : SameRequest r r') :
    r'.balanceKey = r.balanceKey := by
  unfold TimeOffRequest.balanceKey
  rw [h.employeeId, h.locationId, h.leaveType]

/-- Requests and records are only added, and keep their columns. -/
structure Extends (db db' : Database) : Prop where
  requests : ∀ r ∈ db.requests.rows, ∃ r' ∈ db'.requests.rows, SameRequest r r'
  records : ∀ rec ∈ db.records.rows, rec ∈ db'.records.rows

theorem Extends.refl (db : Database) : Extends db db :=
  ⟨fun r hr => ⟨r, hr, .refl r⟩, fun _ h => h⟩

theorem Extends.trans {db db' db'' : Database} (h : Extends db db') (h' : Extends db' db'') :
    Extends db db'' := by
  refine ⟨fun r hr => ?_, fun rec hrec => h'.records rec (h.records rec hrec)⟩
  obtain ⟨r', hr', hsame⟩ := h.requests r hr
  obtain ⟨r'', hr'', hsame'⟩ := h'.requests r' hr'
  exact ⟨r'', hr'', hsame.trans hsame'⟩

theorem Extends.of_replaced {db db' : Database} {r r' : TimeOffRequest}
    (h : db.requests.Replaced db'.requests r r') (hsame : SameRequest r r')
    (hrec : db'.records = db.records) : Extends db db' := by
  refine ⟨fun x hx => ?_, fun rec h => hrec ▸ h⟩
  obtain ⟨x', hx', -, -, rfl | ⟨rfl, rfl⟩⟩ := h.exists_of_mem hx
  · exact ⟨x', hx', .refl x'⟩
  · exact ⟨x', hx', hsame⟩

/-- Every row of the later table was in the earlier one, or is new. -/
theorem exists_of_replaced {db db' : Database} {r r' x : TimeOffRequest}
    (h : db.requests.Replaced db'.requests r r') (hsame : SameRequest r r')
    (hx : x ∈ db'.requests.rows) : ∃ y ∈ db.requests.rows, SameRequest y x := by
  rcases h.mem_iff.mp hx with ⟨hmem, -⟩ | rfl
  · exact ⟨x, hmem, .refl x⟩
  · exact ⟨r, h.mem, hsame⟩

theorem saveOver_same {r r' : TimeOffRequest} {s : Settlement} {now : ℤ}
    (h : r' = (s.mark now r).saveOver now r) : SameRequest r r' := by
  subst h
  cases s <;> exact ⟨rfl, rfl, rfl, rfl, rfl, rfl, rfl, rfl⟩

theorem patch_same (p : RequestPatch) (now : ℤ) (r : TimeOffRequest) :
    SameRequest r (p.apply now r) := ⟨rfl, rfl, rfl, rfl, rfl, rfl, rfl, rfl⟩

/-! ## Writes of HCM columns -/

theorem LedgerInv.of_db {db db' : Database} (h : LedgerInv db) (heq : db' = db) :
    LedgerInv db' := heq ▸ h

/-- A write of HCM columns moves no days. -/
theorem LedgerInv.of_sync {db : Database} (h : LedgerInv db) (id : Id) (p : RequestPatch)
    (now : ℤ) : LedgerInv (db.updateRequest id p now) := by
  have hdays : ∀ st key, daysIn st key (db.updateRequest id p now).requests.rows
      = daysIn st key db.requests.rows := by
    intro st key
    refine sumWhere_map_same _ _ _ _ (fun r _ => ?_) (fun r _ _ => ?_)
    · by_cases hr : r.id = id
      · rw [if_pos hr]; rfl
      · rw [if_neg hr]
    · by_cases hr : r.id = id
      · rw [if_pos hr]; rfl
      · rw [if_neg hr]
  have hback : ∀ r' ∈ (db.updateRequest id p now).requests.rows,
      ∃ r ∈ db.requests.rows, SameRequest r r' := by
    intro r' hr'
    obtain ⟨r, hr, rfl⟩ := mem_updateRequest.mp hr'
    by_cases hid : r.id = id
    · rw [if_pos hid]; exact ⟨r, hr, patch_same p now r⟩
    · rw [if_neg hid]; exact ⟨r, hr, .refl r⟩
  refine ⟨fun r' hr' => ?_, fun r' hr' => ?_, fun b hb => ?_⟩
  · obtain ⟨r, hr, hsame⟩ := hback r' hr'
    rw [hsame.balanceKey]
    exact h.hasRow r hr
  · obtain ⟨r, hr, hsame⟩ := hback r' hr'
    rw [hsame.daysRequested]
    exact h.positive r hr
  · rw [hdays, hdays]
    exact h.account b hb

end LeaveLedger
