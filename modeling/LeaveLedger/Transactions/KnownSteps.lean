import LeaveLedger.Transactions.Known

/-!
# Transactions — What the calls know outlives a step

A step of one call leaves what the others know as it is. Two things need
more than the rows: no request comes to dates that a create has checked,
since creates of its lane wait, and no record with the key that a create is
storing, since its request has taken the key.
-/

namespace LeaveLedger

open Js Lib

variable {env : Env} {w w' : World} {c : Call} {pl pl' : Place} {commits : Bool}
  {gs gs' : List Seat}

/-- A call whose transaction is open. -/
theorem Session.At.entered {c : Session} {pl : Place} (h : c.At env pl)
    (hpoint : pl.point ≠ .outside) : c.committed = false ∧ c.call.Entered pl.phase := by
  obtain ⟨call, stage, committed⟩ := c
  obtain ⟨point, phase⟩ := pl
  cases stage with
  | svc p => exact absurd h.1 hpoint
  | tx t => exact ⟨h.1, h.2.2.1⟩

/-- A create whose transaction is open has entered its lane. -/
theorem Session.At.holder {c : Session} {pl : Place} {dto : CreateTimeOffRequestDto} {k : String}
    (h : c.At env pl) (hcall : c.call = .create dto k) (hpoint : pl.point ≠ .outside) :
    ∃ t, pl.phase.holder? = some t := by
  have hentered := (h.entered hpoint).2
  rw [hcall] at hentered
  obtain ⟨-, -, t, ht⟩ := hentered
  exact ⟨t, by rw [ht]; rfl⟩

theorem TimeOffRequest.isActive_of_pending {r : TimeOffRequest} (h : r.status = .pending) :
    r.isActive = true := by
  simp [isActive, h]

/-- No request comes to the dates of a create that has checked them: the creates of its lane
wait. -/
theorem freeDates_kept (hlanes : LanesInv w gs) (hplaces : ∀ g ∈ gs, g.1.At env g.2) {i j : ℕ}
    {g x : Seat} (hg : gs[i]? = some g) (hx : gs[j]? = some x) (hne : j ≠ i) {pl' : Place}
    (hstep : RequestsStep w w' g.call g.2 pl' commits) {dto : CreateTimeOffRequestDto}
    {k : String} (hcall : x.call = .create dto k) (hchecked : x.point.checked = true)
    (hfree : FreeDates dto w.db) : FreeDates dto w'.db := by
  intro y hy hemp hloc hactive
  cases hstep with
  | same heq hdone => exact hfree y (heq ▸ hy) hemp hloc hactive
  | marked s id r r' hset hid hrep hsame hpending hstatus hopen hbefore hafter =>
      rcases hrep.mem_iff.mp hy with ⟨hold, -⟩ | rfl
      · exact hfree y hold hemp hloc hactive
      · rw [hsame.startDate, hsame.endDate]
        exact hfree r hrep.mem (hsame.employeeId.symm.trans hemp)
          (hsame.locationId.symm.trans hloc) (TimeOffRequest.isActive_of_pending hpending)
  | stored dto' k' b b' d hcreate hpoint hd hkey hadded huuid hafter =>
      rcases hadded.mem_iff.mp hy with hold | rfl
      · exact hfree y hold hemp hloc hactive
      · obtain ⟨t, ht⟩ := (hplaces g (List.mem_of_getElem? hg)).holder hcreate
          (by rw [hpoint]; exact Point.noConfusion)
        obtain ⟨t', ht'⟩ := (hplaces x (List.mem_of_getElem? hx)).holder hcall (by
          intro heq
          rw [show x.point = .outside from heq] at hchecked
          cases hchecked)
        have hlane : dto'.lane = dto.lane := by
          have hemp' : dto'.employeeId = dto.employeeId := hemp
          have hloc' : dto'.locationId = dto.locationId := hloc
          unfold CreateTimeOffRequestDto.lane
          rw [hemp', hloc']
        exact absurd (hlanes.exclusive hg hx hcreate hcall hlane ht ht') (Ne.symm hne)

/-- A key that is being stored is that of a request. -/
theorem KnownInv.key_of_storing (h : KnownInv w gs) {g : Seat} {k : String} (hg : g ∈ gs)
    (hstoring : g.storing? = some k) : ∃ r ∈ w.db.requests.rows, r.idempotencyKey = k := by
  have hknown := h.points g hg
  obtain ⟨⟨call, stage, committed⟩, point, phase⟩ := g
  cases call with
  | settle s id => cases hstoring
  | create dto k' =>
      cases point with
      | noting r => cases hstoring; exact hknown.1
      | recording r now => cases hstoring; exact hknown.1
      | _ => cases hstoring

theorem Seat.storing_iff {g : Seat} {dto : CreateTimeOffRequestDto} {k : String}
    (hcall : g.call = .create dto k) : g.storing? = some k ↔ g.point.stores = true := by
  unfold Seat.storing?
  rw [hcall]
  cases g.point.stores <;> simp

theorem Seat.create_of_storing {g : Seat} {k : String} (h : g.storing? = some k) :
    ∃ dto, g.call = .create dto k ∧ g.point.stores = true := by
  unfold Seat.storing? at h
  cases hcall : g.call with
  | settle s id => rw [hcall] at h; cases h
  | create dto k' =>
      rw [hcall] at h
      obtain ⟨hstores, heq⟩ := Option.ite_none_right_eq_some.mp h
      cases heq
      exact ⟨dto, rfl, hstores⟩

/-- A call that comes to store its key has just stored its request. -/
theorem PlaceStep.comes_to_store (h : PlaceStep env w c pl w' pl' commits)
    (hstores : pl'.point.stores = true) :
    pl.point.stores = true ∨ ∃ dto k, c = .create dto k
      ∧ ∀ r ∈ w.db.requests.rows, r.idempotencyKey ≠ k := by
  cases h with
  | within h =>
      cases h with
      | @insert dto k b b' d r db hd hkey hrow hadded hbalances hrecords =>
          refine .inr ⟨dto, k, rfl, fun x hx heq => hadded.uk_new x hx ?_⟩
          rw [hrow]
          exact heq
      | note => exact .inl rfl
      | move hid hkey haccount hbalances hrequests hrecords hp =>
          rcases hp with rfl | rfl <;> cases hstores
      | _ => cases hstores
  | _ => cases hstores

section step
variable {i : ℕ} {g g' : Seat}

/-- The key of a record that comes is stored by the call that moves, and by no other. -/
theorem KnownInv.no_record (h : KnownInv w gs) (hg : gs[i]? = some g)
    (hplace : PlaceStep env w g.call g.2 w' g'.2 commits) {j : ℕ} {x : Seat}
    {dto : CreateTimeOffRequestDto} {k : String} (hx : gs[j]? = some x) (hne : j ≠ i)
    (hcall : x.call = .create dto k) (hstores : x.point.stores = true)
    (hnone : ∀ rec ∈ w.db.records.rows, rec.idempotencyKey ≠ k) :
    ∀ rec ∈ w'.db.records.rows, rec.idempotencyKey ≠ k := by
  intro rec hrec
  rcases hplace.records with hsame | ⟨dto', k', r, now, rec', hcreate, hpoint, hadded, -, -, hkey⟩
  · exact hnone rec (hsame ▸ hrec)
  · rcases hadded.mem_iff.mp hrec with hold | rfl
    · exact hnone rec hold
    · intro heq
      have hmover : g.storing? = some k' :=
        (Seat.storing_iff hcreate).mpr (by rw [show g.point = _ from hpoint]; rfl)
      have hother : x.storing? = some k' := by
        rw [← hkey, heq]
        exact (Seat.storing_iff hcall).mpr hstores
      exact hne (h.storing j i x g k' hx hg hother hmover)

/-- What the calls know after a step of one of them. -/
theorem KnownInv.points_moved (h : KnownInv w gs) (hlanes : LanesInv w gs)
    (hplaces : ∀ g ∈ gs, g.1.At env g.2) (hg : gs[i]? = some g) (hcall : g'.call = g.call)
    (hplace : PlaceStep env w g.call g.2 w' g'.2 commits) :
    ∀ x ∈ gs.set i g', x.point.Known w'.db x.call := by
  intro x hx
  have hknown := h.points g (List.mem_of_getElem? hg)
  obtain ⟨j, hj⟩ := List.mem_iff_getElem?.mp hx
  rcases getElem?_set_cases (List.getElem?_eq_some_iff.mp hg).1 hj with ⟨rfl, rfl⟩ | ⟨hne, hj⟩
  · rw [hcall]
    exact hplace.known hknown h.toRooted
  · refine (h.points x (List.mem_of_getElem? hj)).keep (hplace.keeps hknown) ?_ ?_
    · intro dto k hxcall hchecked hfree
      exact freeDates_kept hlanes hplaces hg hj hne (hplace.requests hknown) hxcall hchecked hfree
    · intro dto k hxcall hstores hnone
      exact h.no_record hg hplace hj hne hxcall hstores hnone

/-- A key that comes to be stored is not that of a request, so nobody else stores it. -/
theorem KnownInv.storing_moved (h : KnownInv w gs) (hg : gs[i]? = some g)
    (hcall : g'.call = g.call) (hplace : PlaceStep env w g.call g.2 w' g'.2 commits) {j : ℕ}
    {x : Seat} {k : String} (hx : gs[j]? = some x) (hne : j ≠ i) (hxk : x.storing? = some k) :
    g'.storing? ≠ some k := by
  intro hk
  obtain ⟨dto, hcreate, hstores⟩ := Seat.create_of_storing hk
  rcases hplace.comes_to_store hstores with hold | ⟨dto', k', hsame, hnew⟩
  · have hmine : g.storing? = some k := (Seat.storing_iff (hcall ▸ hcreate)).mpr hold
    exact hne (h.storing j i x g k hx hg hxk hmine)
  · obtain ⟨r, hr, hrk⟩ := h.key_of_storing (List.mem_of_getElem? hx) hxk
    rw [← hcall, hcreate] at hsame
    cases hsame
    exact hnew r hr hrk

end step

/-- A call comes, and knows nothing yet. -/
theorem KnownInv.called (h : KnownInv w gs) (c : Call) :
    KnownInv w (gs ++ [(⟨c, .svc (c.script env), false⟩, ⟨.outside, .before false⟩)]) where
  toRooted := h.toRooted
  points g hg := by
    rcases List.mem_append.mp hg with hold | hnew
    · exact h.points g hold
    · obtain rfl := List.mem_singleton.mp hnew
      cases c <;> trivial
  storing i j g g' k hg hg' hk hk' := by
    rcases getElem?_concat_cases hg with hold | ⟨-, rfl⟩
    · rcases getElem?_concat_cases hg' with hold' | ⟨-, rfl⟩
      · exact h.storing i j g g' k hold hold' hk hk'
      · cases c <;> cases hk'
    · cases c <;> cases hk
  statements g hg := by
    rcases List.mem_append.mp hg with hold | hnew
    · exact h.statements g hold
    · obtain rfl := List.mem_singleton.mp hnew
      exact Nat.zero_le _

/-- **One step keeps what the calls know.** -/
theorem KnownInv.step (h : KnownInv w gs) (hlanes : LanesInv w gs)
    (hplaces : ∀ g ∈ gs, g.1.At env g.2) (hstep : SeatStep env w gs w' gs') :
    KnownInv w' gs' := by
  cases hstep with
  | call c => exact h.called c
  | tick ms => exact ⟨⟨h.requests, h.records⟩, h.points, h.storing, h.statements⟩
  | @step i g g' w' commits hg hat hat' hcall hcommitted hplace =>
      have hi : i < gs.length := (List.getElem?_eq_some_iff.mp hg).1
      have hmem : g ∈ gs := List.mem_of_getElem? hg
      refine ⟨hplace.rooted (h.points g hmem) h.toRooted,
        h.points_moved hlanes hplaces hg hcall hplace, ?_, ?_⟩
      · intro a b x y k hx hy hk hk'
        rcases getElem?_set_cases hi hx with ⟨rfl, rfl⟩ | ⟨hne, hx₀⟩
        · rcases getElem?_set_cases hi hy with ⟨rfl, rfl⟩ | ⟨hne, hy₀⟩
          · rfl
          · exact absurd hk (h.storing_moved hg hcall hplace hy₀ hne hk')
        · rcases getElem?_set_cases hi hy with ⟨rfl, rfl⟩ | ⟨-, hy₀⟩
          · exact absurd hk' (h.storing_moved hg hcall hplace hx₀ hne hk)
          · exact h.storing a b x y k hx₀ hy₀ hk hk'
      · intro x hx
        rcases List.mem_or_eq_of_mem_set hx with hold | rfl
        · exact (h.statements x hold).trans hplace.statements.1
        · exact hplace.statements.2 (h.statements g hmem)

end LeaveLedger
