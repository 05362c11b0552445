import LeaveLedger.Hcm.MockServer
import LeaveLedger.Hcm.MockHcm
import LeaveLedger.Batch.Omitted
import LeaveLedger.Lib.Transcript

/-!
# Hcm — The mock HCM by triples

`MockHcm` finds a record by its triple; the server finds it by a text that is
joined from the triple. As long as no two triples in use are joined to one
text, which employee ids without an underscore make sure of, the server holds
the same records in the same order and answers the same.
-/

namespace LeaveLedger

namespace MockServer

open Lib

/-! ## Records -/

/-- Whose balance is meant by a triple. -/
def subjectOf (key : BalanceKey) : Subject := ⟨key.1, key.2.1, key.2.2.text⟩

def textOf (key : BalanceKey) : String := getBalanceKey (subjectOf key)

/-- A record as the server holds it. -/
def toBalance (r : MockRecord) : Balance :=
  ⟨subjectOf r.key, r.totalBalance, r.availableBalance, r.version⟩

def toSlot (r : MockRecord) : String × Balance := (textOf r.key, toBalance r)

/-- No two of the triples are joined to one text. -/
def Separated (K : Set BalanceKey) : Prop := Set.InjOn textOf K

/-- Employee ids without an underscore keep the triples apart. -/
theorem separated_plain : Separated { k | '_' ∉ k.1.toList } := by
  have hcut : ∀ k : BalanceKey, (textOf k).toList.reverse
      = k.2.2.text.toList.reverse ++ '_' :: (k.1 ++ "_" ++ k.2.1).toList.reverse := by
    intro k
    simp [textOf, getBalanceKey, subjectOf]
  have htype : ∀ t : LeaveType, '_' ∉ t.text.toList.reverse := by
    intro t
    rw [List.mem_reverse]
    cases t <;> decide
  intro k hk k' hk' htext
  have hreverse := congrArg (fun t : String => t.toList.reverse) htext
  simp only [hcut] at hreverse
  obtain ⟨hleave, hrest⟩ := (append_cons_inj (htype _) (htype _)).mp hreverse
  rw [List.reverse_inj, String.toList_inj] at hleave
  have hids := List.reverse_injective hrest
  simp only [String.toList_append, List.append_assoc] at hids
  obtain ⟨hemployee, hlocation⟩ := (append_cons_inj hk hk').mp hids
  exact Prod.ext (String.toList_injective hemployee)
    (Prod.ext (String.toList_injective hlocation) (LeaveType.text_injective hleave))

/-- Two triples that are joined to one text share one record. -/
example : textOf ("A_B", "C", .vacation) = textOf ("A", "B_C", .vacation) := by decide

/-- The server holds these records, all of them of triples in `K`, in their order. -/
structure Mirrors (K : Set BalanceKey) (s : State) (records : List MockRecord) : Prop where
  slots : s.hcmBalances.slots.map (fun e => (e.key, e.value)) = records.map toSlot
  within : ∀ r ∈ records, r.key ∈ K
  fresh : s.mockBehavior.staleVersionMode = false
  complete : s.mockBehavior.batchPartial = false

variable {K : Set BalanceKey} {s : State} {records : List MockRecord} {key : BalanceKey}

theorem Mirrors.values (h : Mirrors K s records) : s.values = records.map toBalance := by
  have hvalues := congrArg (List.map Prod.snd) h.slots
  rw [List.map_map, List.map_map] at hvalues
  exact hvalues

theorem Mirrors.keys (h : Mirrors K s records) :
    s.hcmBalances.slots.map Slot.key = records.map fun r => textOf r.key := by
  have hkeys := congrArg (List.map Prod.fst) h.slots
  rw [List.map_map, List.map_map] at hkeys
  exact hkeys

/-- The records are of different triples. -/
theorem Mirrors.nodup (h : Mirrors K s records) : (records.map MockRecord.key).Nodup := by
  have hdistinct := s.hcmBalances.distinct
  rw [h.keys] at hdistinct
  have hmap : records.map (fun r => textOf r.key) = (records.map MockRecord.key).map textOf := by
    rw [List.map_map]
    rfl
  rw [hmap] at hdistinct
  exact List.Nodup.of_map _ hdistinct

theorem Mirrors.mem_slots (h : Mirrors K s records) {e : Slot String Balance}
    (he : e ∈ s.hcmBalances.slots) :
    ∃ r ∈ records, textOf r.key = e.key ∧ toBalance r = e.value := by
  have hmem : (e.key, e.value) ∈ records.map toSlot := h.slots ▸ List.mem_map_of_mem he
  obtain ⟨r, hr, heq⟩ := List.mem_map.mp hmem
  obtain ⟨hkey, hvalue⟩ := Prod.mk.inj heq
  exact ⟨r, hr, hkey, hvalue⟩

/-- The record of a triple is under its text. -/
theorem Mirrors.get_of_mem (h : Mirrors K s records) {r : MockRecord} (hr : r ∈ records) :
    s.hcmBalances.get (textOf r.key) = some (toBalance r) := by
  have hmem : toSlot r ∈ s.hcmBalances.slots.map fun e => (e.key, e.value) :=
    h.slots ▸ List.mem_map_of_mem hr
  obtain ⟨e, he, heq⟩ := List.mem_map.mp hmem
  obtain ⟨hkey, hvalue⟩ := Prod.mk.inj heq
  exact LiveMap.get_eq_some_iff.mpr ⟨e, he, hkey, hvalue⟩

/-- Where no record is of the triple, none is under its text. -/
theorem Mirrors.get_of_not_mem (hsep : Separated K) (h : Mirrors K s records) (hkey : key ∈ K)
    (hnone : ∀ r ∈ records, r.key ≠ key) : s.hcmBalances.get (textOf key) = none := by
  refine LiveMap.get_eq_none_iff.mpr fun e he htext => ?_
  obtain ⟨r, hr, hr', -⟩ := h.mem_slots he
  exact hnone r hr (hsep (h.within r hr) hkey (hr'.trans htext))

/-! ## Writes -/

theorem Mirrors.append (hsep : Separated K) (h : Mirrors K s records) {r : MockRecord}
    (hkey : r.key ∈ K) (hnone : ∀ r' ∈ records, r'.key ≠ r.key) :
    Mirrors K { s with hcmBalances := s.hcmBalances.set (textOf r.key) (toBalance r) }
      (records ++ [r]) where
  slots := by
    rw [LiveMap.slots_set_of_none (h.get_of_not_mem hsep hkey hnone), List.map_append, h.slots,
      List.map_append]
    rfl
  within r' hr' := by
    rcases List.mem_append.mp hr' with hold | hnew
    · exact h.within r' hold
    · exact List.mem_singleton.mp hnew ▸ hkey
  fresh := h.fresh
  complete := h.complete

theorem Mirrors.write (hsep : Separated K) (h : Mirrors K s records) {r : MockRecord}
    (hr : r ∈ records) {f : MockRecord → MockRecord} (hf : ∀ r, (f r).key = r.key) :
    Mirrors K { s with hcmBalances := s.hcmBalances.set (textOf r.key) (toBalance (f r)) }
      (records.map fun r' => if r'.key = r.key then f r' else r') := by
  have hother : ∀ r' ∈ records,
      (if textOf r'.key = textOf r.key then (textOf r'.key, toBalance (f r)) else toSlot r')
        = toSlot (if r'.key = r.key then f r' else r') := by
    intro r' hr'
    by_cases hkey : r'.key = r.key
    · have hsame : r' = r := List.inj_on_of_nodup_map h.nodup hr' hr hkey
      rw [if_pos (congrArg textOf hkey), if_pos hkey, hsame, toSlot, hf]
    · have htext : textOf r'.key ≠ textOf r.key := fun htext =>
        hkey (hsep (h.within r' hr') (h.within r hr) htext)
      rw [if_neg htext, if_neg hkey]
  constructor
  · rw [LiveMap.slots_set_of_some (h.get_of_mem hr), List.map_map]
    have hpairs : (fun e : Slot String Balance => (e.key, e.value))
        ∘ (fun e => if e.key = textOf r.key then { e with value := toBalance (f r) } else e)
        = (fun x : String × Balance =>
            if x.1 = textOf r.key then (x.1, toBalance (f r)) else x)
          ∘ fun e => (e.key, e.value) := by
      funext e
      simp only [Function.comp_apply]
      split <;> rfl
    rw [hpairs, ← List.map_map, h.slots, List.map_map, List.map_map]
    exact List.map_congr_left hother
  · intro r' hr'
    obtain ⟨r₀, hr₀, rfl⟩ := List.mem_map.mp hr'
    split
    · rw [hf]
      exact h.within r₀ hr₀
    · exact h.within r₀ hr₀
  · exact h.fresh
  · exact h.complete

/-- `ensureBalanceRecord` gives both the same record. -/
theorem Mirrors.ensure (hsep : Separated K) (h : Mirrors K s records) (hkey : key ∈ K) :
    ∃ r ∈ MockHcm.ensureBalanceRecord key records, r.key = key
      ∧ (ensureBalanceRecord (subjectOf key) s.hcmBalances).1 = toBalance r
      ∧ Mirrors K
        { s with hcmBalances := (ensureBalanceRecord (subjectOf key) s.hcmBalances).2 }
        (MockHcm.ensureBalanceRecord key records) := by
  unfold MockHcm.ensureBalanceRecord ensureBalanceRecord
  by_cases hany : records.any fun r => r.key = key
  · obtain ⟨r, hr, hrkey⟩ := List.any_eq_true.mp hany
    have hget := h.get_of_mem hr
    rw [of_decide_eq_true hrkey] at hget
    rw [if_pos hany]
    change s.hcmBalances.get (getBalanceKey (subjectOf key)) = _ at hget
    rw [hget]
    exact ⟨r, hr, of_decide_eq_true hrkey, rfl, h⟩
  · have hnone : ∀ r ∈ records, r.key ≠ key := by
      intro r hr hrkey
      exact hany (List.any_eq_true.mpr ⟨r, hr, decide_eq_true hrkey⟩)
    have hget := h.get_of_not_mem hsep hkey hnone
    rw [if_neg hany]
    change s.hcmBalances.get (getBalanceKey (subjectOf key)) = _ at hget
    rw [hget]
    let r : MockRecord := ⟨key.1, key.2.1, key.2.2, 0, 0, "v1"⟩
    exact ⟨r, List.mem_append_right _ (List.mem_singleton.mpr rfl), rfl, rfl,
      h.append hsep (r := r) hkey hnone⟩

/-! ## Requests -/

def actionText : BalanceAction → String
  | .approve => "APPROVE"
  | .reject => "REJECT"

def keyOf (m : BalanceMutation) : BalanceKey := (m.employeeId, m.locationId, m.leaveType)

/-- The records say whether a balance is short as its own record says it. -/
theorem Mirrors.any_short (h : Mirrors K s records) {r : MockRecord} (hr : r ∈ records)
    (hkey : r.key = key) (days : ℚ) :
    records.any (fun r' => r'.key = key && r'.availableBalance < days)
      = decide (r.availableBalance < days) := by
  rw [Bool.eq_iff_iff, List.any_eq_true, decide_eq_true_iff]
  constructor
  · rintro ⟨r', hr', hboth⟩
    simp only [Bool.and_eq_true, decide_eq_true_eq] at hboth
    have hsame : r' = r := List.inj_on_of_nodup_map h.nodup hr' hr (hboth.1.trans hkey.symm)
    exact hsame ▸ hboth.2
  · intro hlt
    exact ⟨r, hr, by simp [hkey, hlt]⟩

/-- **`PUT /hcm/balance`** succeeds for both or for neither, and leaves them alike. -/
theorem Mirrors.put (hsep : Separated K) (h : Mirrors K s records) (m : BalanceMutation)
    (hkey : keyOf m ∈ K) (now : ℤ) :
    (putBalance now s (subjectOf (keyOf m)) (some m.daysRequested) (actionText m.action)).1.succeeds
      = (MockHcm.putBalance m now records).1
    ∧ Mirrors K
      (putBalance now s (subjectOf (keyOf m)) (some m.daysRequested) (actionText m.action)).2
      (MockHcm.putBalance m now records).2 := by
  obtain ⟨r, hr, hrkey, hrecord, hmirrors⟩ := h.ensure hsep hkey
  have hwrite : ∀ days : ℚ, Mirrors K
      { s with
        hcmBalances := (ensureBalanceRecord (subjectOf (keyOf m)) s.hcmBalances).2.set
          (textOf (keyOf m)) ((toBalance r).credit days (versionAt now)) }
      ((MockHcm.ensureBalanceRecord (keyOf m) records).map fun r' =>
        if r'.key = keyOf m then r'.credit days now else r') := by
    intro days
    have hwritten := hmirrors.write hsep hr (f := fun r => r.credit days now) fun r => rfl
    rw [hrkey] at hwritten
    exact hwritten
  have hshort := hmirrors.any_short hr hrkey m.daysRequested
  have hfresh : s.mockBehavior.staleVersionMode = false := h.fresh
  cases haction : m.action with
  | approve =>
      have hmock : MockHcm.putBalance m now records
          = if (MockHcm.ensureBalanceRecord (keyOf m) records).any
              (fun r' => r'.key = keyOf m && r'.availableBalance < m.daysRequested)
            then (false, MockHcm.ensureBalanceRecord (keyOf m) records)
            else (true, (MockHcm.ensureBalanceRecord (keyOf m) records).map fun r' =>
              if r'.key = keyOf m then r'.credit (-m.daysRequested) now else r') := by
        simp only [MockHcm.putBalance, haction]
        rfl
      rw [hmock, hshort]
      unfold putBalance
      simp only [actionText, if_true, hrecord, hfresh, Option.getD_some]
      by_cases hlt : r.availableBalance < m.daysRequested
      · have hlt' : (toBalance r).availableBalance < m.daysRequested := hlt
        simp only [hlt, hlt', decide_true, if_true]
        exact ⟨rfl, hmirrors⟩
      · have hlt' : ¬(toBalance r).availableBalance < m.daysRequested := hlt
        simp only [hlt, hlt', decide_false, if_false]
        exact ⟨rfl, hwrite _⟩
  | reject =>
      have hmock : MockHcm.putBalance m now records
          = (true, (MockHcm.ensureBalanceRecord (keyOf m) records).map fun r' =>
              if r'.key = keyOf m then r'.credit m.daysRequested now else r') := by
        simp only [MockHcm.putBalance, haction]
        rfl
      rw [hmock]
      unfold putBalance
      simp only [actionText, hrecord, hfresh, Option.getD_some]
      exact ⟨rfl, hwrite _⟩

/-- The record that is read is the one of the triple. -/
theorem Mirrors.read (hsep : Separated K) (h : Mirrors K s records) (hkey : key ∈ K) :
    s.hcmBalances.get (textOf key) = (records.find? fun r => r.key = key).map toBalance := by
  cases hfind : records.find? fun r => r.key = key with
  | none =>
      refine h.get_of_not_mem hsep hkey fun r hr hrkey => ?_
      exact List.find?_eq_none.mp hfind r hr (decide_eq_true hrkey)
  | some r =>
      have hrkey : r.key = key := by simpa using List.find?_some hfind
      rw [← hrkey]
      exact h.get_of_mem (List.mem_of_find?_eq_some hfind)

theorem text_ne_empty (t : LeaveType) : t.text ≠ "" := by
  cases t <;> decide

/-- The filters read the same fields of both. -/
theorem admits_toBalance (filter : MockHcm.RefreshFilter) (r : MockRecord) :
    admits filter.employeeId filter.locationId (filter.leaveType.map LeaveType.text) (toBalance r)
      = filter.admits r.key := by
  have htext : ∀ (field : Option String) (value : String),
      passes field value = MockHcm.passes field value := by
    intro field value
    cases field with
    | none => rfl
    | some f => simp [passes, MockHcm.passes, eq_comm]
  have htype : ∀ t t' : LeaveType, passes (some t.text) t'.text = decide (t = t') := by
    intro t t'
    rw [Bool.eq_iff_iff]
    simp only [passes, text_ne_empty, LeaveType.text_injective.eq_iff,
      decide_eq_true_eq, decide_false, Bool.false_or]
    exact eq_comm
  obtain ⟨employeeId, locationId, leaveType⟩ := filter
  cases leaveType with
  | none =>
      simp only [admits, MockHcm.RefreshFilter.admits, htext]
      rfl
  | some t =>
      have hleave : passes (some t.text) (toBalance r).subject.leaveType = decide (t = r.key.2.2) :=
        htype t r.key.2.2
      simp only [admits, MockHcm.RefreshFilter.admits, htext, Option.map_some] at hleave ⊢
      rw [hleave]
      rfl

/-- **`POST /admin/anniversary-refresh`** is refused for both or for neither, and leaves
them alike. -/
theorem Mirrors.refresh (h : Mirrors K s records) (filter : MockHcm.RefreshFilter)
    (grantDays : ℚ) (now : ℤ) :
    let served := administer now s (.anniversaryRefresh filter.employeeId filter.locationId
      (filter.leaveType.map LeaveType.text) (some grantDays))
    let refreshed := MockHcm.anniversaryRefresh filter grantDays now records
    served.1.succeeds = refreshed.isSome ∧ Mirrors K served.2 (refreshed.getD records) := by
  intro served refreshed
  simp only [served, refreshed, administer, MockHcm.anniversaryRefresh, Option.getD_some]
  by_cases hgrant : grantDays ≤ 0
  · simp only [if_pos hgrant]
    exact ⟨rfl, h⟩
  simp only [if_neg hgrant]
  refine ⟨rfl, ?_, ?_, h.fresh, h.complete⟩
  · have hslot : ∀ r, toSlot (if filter.admits r.key then r.credit grantDays now else r)
        = ((toSlot r).1, if admits filter.employeeId filter.locationId
            (filter.leaveType.map LeaveType.text) (toSlot r).2
          then (toSlot r).2.credit grantDays (versionAt now) else (toSlot r).2) := by
      intro r
      have hadmits := admits_toBalance filter r
      simp only [toSlot, hadmits]
      split <;> rfl
    have hrecords : (records.map fun r =>
          if filter.admits r.key then r.credit grantDays now else r).map toSlot
        = (records.map toSlot).map fun x => (x.1,
            if admits filter.employeeId filter.locationId
              (filter.leaveType.map LeaveType.text) x.2
            then x.2.credit grantDays (versionAt now) else x.2) := by
      rw [List.map_map, List.map_map]
      exact List.map_congr_left fun r _ => hslot r
    simp only [Option.getD_some]
    rw [hrecords, ← h.slots, State.refresh, LiveMap.mapValues, List.map_map, List.map_map]
    rfl
  · intro r' hr'
    obtain ⟨r, hr, rfl⟩ := List.mem_map.mp hr'
    rw [MockHcm.ite_credit_key]
    exact h.within r hr

/-! ## Runs -/

/-- What a run asks of the server, with triples where the server is given texts. -/
inductive Call where
  | arrives (request : ApiRequest) (random : ℚ)
  | read (key : BalanceKey) (now : ℤ)
  | put (mutation : BalanceMutation) (now : ℤ)
  | batchSync (now : ℤ)
  | refresh (filter : MockHcm.RefreshFilter) (grantDays : ℚ) (now : ℤ)
  /-- neither partial payloads nor stale versions are switched -/
  | behave (forcedFailureMode : Field) (forcedFailureCount : Option (Option ℤ))
      (validationOverride : Field) (now : ℤ)

/-- The event at the server. -/
def Call.event : Call → Event
  | .arrives request random => .arrives request random
  | .read key now => .served (.getBalance (subjectOf key)) now
  | .put m now =>
      .served (.putBalance (subjectOf (keyOf m)) (some m.daysRequested) (actionText m.action)) now
  | .batchSync now => .served .batchSync now
  | .refresh filter grantDays now =>
      .admin (.anniversaryRefresh filter.employeeId filter.locationId
        (filter.leaveType.map LeaveType.text) (some grantDays)) now
  | .behave mode count override now => .admin (.behavior mode count override none none) now

/-- The triples of a call are among these. -/
def Call.Within (K : Set BalanceKey) : Call → Prop
  | .read key _ => key ∈ K
  | .put m _ => keyOf m ∈ K
  | _ => True

/-- The records after a call. -/
def Call.after (records : List MockRecord) : Call → List MockRecord
  | .put m now => (MockHcm.putBalance m now records).2
  | .refresh filter grantDays now =>
      (MockHcm.anniversaryRefresh filter grantDays now records).getD records
  | _ => records

/-- What the records say about the answer to a call. -/
def Call.Answer (records : List MockRecord) (reply : Option Reply) : Call → Prop
  | .arrives _ _ => ∀ r ∈ reply, r.succeeds = false
  | .read key _ => reply = some (.balance
      (((records.find? fun r => r.key = key).map toBalance).getD (emptyBalance (subjectOf key))))
  | .put m now => reply.map Reply.succeeds = some (MockHcm.putBalance m now records).1
  | .batchSync _ => reply = some (.records (records.map toBalance))
  | .refresh filter grantDays now => reply.map Reply.succeeds
      = some (MockHcm.anniversaryRefresh filter grantDays now records).isSome
  | .behave _ _ _ _ => reply.isSome

/-- The mock HCM as the records alone have it. -/
def recordsSpec (records : List MockRecord) (c : Call) (reply : Option Reply)
    (records' : List MockRecord) : Prop :=
  c.Answer records reply ∧ records' = c.after records

/-- One call at the server. -/
def ask (p : Instability) (c : Call) (s : State) : Option (Option Reply × State) :=
  some (react p s c.event)

/-- Switching failures leaves the payloads whole and the versions fresh. -/
theorem setBehavior_keeps (b : Behavior) (mode : Field) (count : Option (Option ℤ))
    (override : Field) :
    (setBehavior b mode count override none none).2.batchPartial = b.batchPartial
      ∧ (setBehavior b mode count override none none).2.staleVersionMode
        = b.staleVersionMode := by
  unfold setBehavior
  cases mode <;> cases count <;> cases override <;> simp only [Id.run] <;>
    constructor <;> (repeat' split) <;> rfl

theorem simulateInstability_keeps (p : Instability) (random : ℚ) (b : Behavior) :
    (simulateInstability p random b).2.batchPartial = b.batchPartial
      ∧ (simulateInstability p random b).2.staleVersionMode = b.staleVersionMode
      ∧ ∀ r ∈ (simulateInstability p random b).1, r.succeeds = false := by
  unfold simulateInstability
  split
  · simp
  · simp [Reply.succeeds]
  split
  · simp
  split
  · simp [Reply.succeeds]
  · simp

theorem Mirrors.behave (h : Mirrors K s records) {b : Behavior}
    (hwhole : b.batchPartial = s.mockBehavior.batchPartial)
    (hstale : b.staleVersionMode = s.mockBehavior.staleVersionMode) :
    Mirrors K { s with mockBehavior := b } records :=
  ⟨h.slots, h.within, hstale.trans h.fresh, hwhole.trans h.complete⟩

/-- **One call**: the answer is the one the records give, and they stay alike. -/
theorem Mirrors.ask (hsep : Separated K) (p : Instability) {c : Call} (hc : c.Within K)
    (h : Mirrors K s records) :
    ∃ reply s' records', ask p c s = some (reply, s') ∧ Mirrors K s' records'
      ∧ recordsSpec records c reply records' := by
  refine ⟨_, _, c.after records, rfl, ?_, ?_, rfl⟩
  · cases c with
    | arrives request random =>
        obtain ⟨hwhole, hstale, -⟩ := simulateInstability_keeps p random s.mockBehavior
        exact h.behave hwhole hstale
    | read key now => exact h
    | put m now => exact (h.put hsep m hc now).2
    | batchSync now => exact h
    | refresh filter grantDays now => exact (h.refresh filter grantDays now).2
    | behave mode count override now =>
        obtain ⟨hwhole, hstale⟩ := setBehavior_keeps s.mockBehavior mode count override
        exact h.behave hwhole hstale
  · cases c with
    | arrives request random =>
        obtain ⟨-, -, hrefused⟩ := simulateInstability_keeps p random s.mockBehavior
        exact hrefused
    | read key now =>
        have hread := h.read hsep hc
        simp only [textOf] at hread
        simp only [Call.Answer, Call.event, serve, hread]
    | put m now => exact congrArg some (h.put hsep m hc now).1
    | batchSync now =>
        simp [Call.Answer, Call.event, serve, h.complete, h.values]
    | refresh filter grantDays now => exact congrArg some (h.refresh filter grantDays now).1
    | behave mode count override now => rfl

/-- The records the server starts with. -/
def initialRecords : List MockRecord :=
  [⟨"EMP123", "LOC1", .vacation, 15, 15, "v1"⟩, ⟨"EMP123", "LOC1", .sick, 10, 10, "v1"⟩]

theorem mirrors_initial (hstart : ∀ r ∈ initialRecords, r.key ∈ K) :
    Mirrors K .initial initialRecords :=
  ⟨by decide, hstart, rfl, rfl⟩

/-- **The server is the mock HCM by triples.** As long as the triples in use are joined to
different texts, every call of a run is answered as the records alone say, whichever calls
come in between, and in the end the server holds these records, in their order. -/
theorem server_refines_records (hsep : Separated K) (hstart : ∀ r ∈ initialRecords, r.key ∈ K)
    (p : Instability) (calls : List Call) (hcalls : ∀ c ∈ calls, c.Within K) :
    ∃ history s records, transcript (ask p) calls .initial = some (history, s)
      ∧ Allowed recordsSpec initialRecords history records
      ∧ s.values = records.map toBalance := by
  have hsim : ∀ (c : Call) (s : State) (records : List MockRecord), c.Within K →
      Mirrors K s records → ∃ reply s' records', ask p c s = some (reply, s')
        ∧ Mirrors K s' records' ∧ recordsSpec records c reply records' :=
    fun c s records hc h => h.ask hsep p hc
  obtain ⟨history, s, records, hrun, hmirrors, hall⟩ :=
    allowed_of_relation hsim calls hcalls (mirrors_initial hstart)
  exact ⟨history, s, records, hrun, hall, hmirrors.values⟩

theorem server_refines_records_plain :
    ∃ history s records,
      transcript (ask ⟨0, 0⟩)
          [.put ⟨"EMP123", "LOC1", .vacation, 4, .approve, 1⟩ 7, .batchSync 8] .initial
        = some (history, s)
      ∧ Allowed recordsSpec initialRecords history records
      ∧ s.values = records.map toBalance := by
  refine server_refines_records (K := { k | '_' ∉ k.1.toList }) separated_plain ?_ ⟨0, 0⟩ _ ?_
  · intro r hr
    simp only [initialRecords, List.mem_cons, List.not_mem_nil, or_false] at hr
    rcases hr with rfl | rfl
    · show '_' ∉ "EMP123".toList
      decide
    · show '_' ∉ "EMP123".toList
      decide
  · intro c hc
    simp only [List.mem_cons, List.not_mem_nil, or_false] at hc
    rcases hc with rfl | rfl
    · show '_' ∉ "EMP123".toList
      decide
    · trivial

end MockServer

end LeaveLedger
