import LeaveLedger.Transactions.Places

/-!
# Transactions — Creates of one lane exclude each other

A ticket is taken once, and a create that has entered its lane is its head
until it leaves. So of the creates of a lane at most one is inside.
-/

namespace LeaveLedger

open Js Lib

/-- The ticket of a create that has entered its lane. -/
def LanePhase.holder? : LanePhase → Option ℕ
  | .holding t _ => some t
  | _ => none

theorem LanePhase.ticket_of_holder {phase : LanePhase} {t : ℕ} (h : phase.holder? = some t) :
    phase.ticket? = some t := by
  cases phase <;> first | exact h | cases h

theorem LanePhase.looked_tickets {phase phase' : LanePhase} (h : phase.looked = some phase') :
    phase'.ticket? = phase.ticket? ∧ phase'.holder? = phase.holder? := by
  cases phase <;> first | (cases h; exact ⟨rfl, rfl⟩) | cases h

structure LanesInv (w : World) (gs : List Seat) : Prop where
  once : ∀ (i j : ℕ) (g g' : Seat) (t : ℕ), gs[i]? = some g → gs[j]? = some g' →
    g.phase.ticket? = some t → g'.phase.ticket? = some t → i = j
  taken : ∀ (i : ℕ) (g : Seat) (t : ℕ), gs[i]? = some g → g.phase.ticket? = some t →
    t < w.nextTicket
  head : ∀ (i : ℕ) (g : Seat) (t : ℕ) (dto : CreateTimeOffRequestDto) (k : String),
    gs[i]? = some g → g.call = .create dto k → g.phase.holder? = some t →
    w.laneHead dto.lane = some t

variable {env : Env} {w w' : World} {gs gs' : List Seat}

theorem lanesInv_start (w : World) : LanesInv w [] :=
  ⟨fun i j g g' t hg => by simp at hg, fun i g t hg => by simp at hg,
    fun i g t dto k hg => by simp at hg⟩

/-- Two creates that have entered the same lane are one. -/
theorem LanesInv.exclusive (h : LanesInv w gs) {i j : ℕ} {g g' : Seat}
    {dto dto' : CreateTimeOffRequestDto} {k k' : String} {t t' : ℕ} (hg : gs[i]? = some g)
    (hg' : gs[j]? = some g') (hcall : g.call = .create dto k) (hcall' : g'.call = .create dto' k')
    (hlane : dto.lane = dto'.lane) (ht : g.phase.holder? = some t)
    (ht' : g'.phase.holder? = some t') : i = j := by
  have hhead := h.head i g t dto k hg hcall ht
  rw [hlane, h.head j g' t' dto' k' hg' hcall' ht'] at hhead
  obtain rfl := Option.some.inj hhead
  exact h.once i j g g' t' hg hg' (LanePhase.ticket_of_holder ht) (LanePhase.ticket_of_holder ht')

/-- **One call moves**: it keeps its ticket, takes a new one, or has none. -/
theorem LanesInv.of_moved (h : LanesInv w gs) {i : ℕ} {g g' : Seat} (hg : gs[i]? = some g)
    (hnext : w.nextTicket ≤ w'.nextTicket)
    (hticket : ∀ t, g'.phase.ticket? = some t →
      g.phase.ticket? = some t ∨ w.nextTicket ≤ t ∧ t < w'.nextTicket)
    (hothers : ∀ (j : ℕ) (x : Seat) (t : ℕ) (dto : CreateTimeOffRequestDto) (k : String),
      j ≠ i → gs[j]? = some x → x.call = .create dto k → x.phase.holder? = some t →
      w'.laneHead dto.lane = some t)
    (hmine : ∀ (t : ℕ) (dto : CreateTimeOffRequestDto) (k : String), g'.call = .create dto k →
      g'.phase.holder? = some t → w'.laneHead dto.lane = some t) : LanesInv w' (gs.set i g') := by
  have hi : i < gs.length := (List.getElem?_eq_some_iff.mp hg).1
  -- nobody else has the ticket of the one that has moved
  have hmoved : ∀ (j : ℕ) (x : Seat) (t : ℕ), gs[j]? = some x → x.phase.ticket? = some t →
      g'.phase.ticket? = some t → j = i := by
    intro j x t hx ht ht'
    rcases hticket t ht' with hold | ⟨hle, -⟩
    · exact h.once j i x g t hx hg ht hold
    · exact absurd (h.taken j x t hx ht) (Nat.not_lt.mpr hle)
  constructor
  · intro a b x y t hx hy ht ht'
    rcases getElem?_set_cases hi hx with ⟨rfl, rfl⟩ | ⟨-, hx₀⟩
    · rcases getElem?_set_cases hi hy with ⟨rfl, rfl⟩ | ⟨-, hy₀⟩
      · rfl
      · exact (hmoved b y t hy₀ ht' ht).symm
    · rcases getElem?_set_cases hi hy with ⟨rfl, rfl⟩ | ⟨-, hy₀⟩
      · exact hmoved a x t hx₀ ht ht'
      · exact h.once a b x y t hx₀ hy₀ ht ht'
  · intro j x t hx ht
    rcases getElem?_set_cases hi hx with ⟨rfl, rfl⟩ | ⟨-, hx⟩
    · rcases hticket t ht with hold | ⟨-, hlt⟩
      · exact (h.taken j g t hg hold).trans_le hnext
      · exact hlt
    · exact (h.taken j x t hx ht).trans_le hnext
  · intro j x t dto k hx hcall ht
    rcases getElem?_set_cases hi hx with ⟨rfl, rfl⟩ | ⟨hne, hx⟩
    · exact hmine t dto k hcall ht
    · exact hothers j x t dto k hne hx hcall ht

/-- A call comes, without a ticket. -/
theorem LanesInv.of_called (h : LanesInv w gs) {g : Seat} (hnone : g.phase.ticket? = none) :
    LanesInv w (gs ++ [g]) := by
  have hold : ∀ (j : ℕ) (x : Seat) (t : ℕ), (gs ++ [g])[j]? = some x →
      x.phase.ticket? = some t → gs[j]? = some x := by
    intro j x t hx ht
    rcases getElem?_concat_cases hx with hx | ⟨-, rfl⟩
    · exact hx
    · rw [hnone] at ht
      cases ht
  constructor
  · intro a b x y t hx hy ht ht'
    exact h.once a b x y t (hold a x t hx ht) (hold b y t hy ht') ht ht'
  · intro j x t hx ht
    exact h.taken j x t (hold j x t hx ht) ht
  · intro j x t dto k hx hcall ht
    exact h.head j x t dto k (hold j x t hx (LanePhase.ticket_of_holder ht)) hcall ht

section heads
variable {key key' : String} {t t' : ℕ}

/-- A lane keeps its head when an entry comes to the end. -/
theorem laneHead_append {l : String × ℕ} (hlocks : w'.createLocks = w.createLocks ++ [l])
    (h : w.laneHead key = some t) : w'.laneHead key = some t := by
  obtain ⟨a, ha, rfl⟩ := Option.map_eq_some_iff.mp h
  unfold World.laneHead
  rw [hlocks, List.find?_append, ha]
  rfl

/-- And when another entry is taken out. -/
theorem laneHead_filter (hlocks : w'.createLocks = w.createLocks.filter fun l => l ≠ (key', t'))
    (h : w.laneHead key = some t) (hne : (key, t) ≠ (key', t')) : w'.laneHead key = some t := by
  obtain ⟨a, ha, rfl⟩ := Option.map_eq_some_iff.mp h
  obtain ⟨hkey, as, bs, heq, hbefore⟩ := List.find?_eq_some_iff_append.mp ha
  have hkey' : a.1 = key := of_decide_eq_true hkey
  have hkeep : a ≠ (key', t') := fun heq => hne (by rw [← hkey', ← heq])
  refine Option.map_eq_some_iff.mpr ⟨a, List.find?_eq_some_iff_append.mpr ⟨hkey,
    as.filter fun l => l ≠ (key', t'), bs.filter fun l => l ≠ (key', t'), ?_, fun x hx => ?_⟩, rfl⟩
  · rw [hlocks, heq, List.filter_append, List.filter_cons, if_pos (decide_eq_true hkeep)]
  · exact hbefore x (List.mem_filter.mp hx).1

end heads

/-- A step of a call moves it in its lane, or touches no lane. -/
theorem PlaceStep.lanes {c : Call} {pl pl' : Place} {commits : Bool}
    (h : PlaceStep env w c pl w' pl' commits) :
    (pl'.phase = pl.phase ∧ w'.createLocks = w.createLocks ∧ w'.nextTicket = w.nextTicket)
    ∨ ∃ dto k, c = .create dto k ∧ LaneStep dto.lane w w' pl.phase pl'.phase := by
  cases h with
  | ask hdb hlane => exact .inr ⟨_, _, rfl, hlane⟩
  | within h => cases h <;> exact .inl ⟨rfl, rfl, rfl⟩
  | _ => exact .inl ⟨rfl, rfl, rfl⟩

theorem laneHead_of_locks (h : w'.createLocks = w.createLocks) (key : String) :
    w'.laneHead key = w.laneHead key := by
  unfold World.laneHead
  rw [h]

/-- A call that moves and is where it was in its lane. -/
theorem LanesInv.of_same (h : LanesInv w gs) {i : ℕ} {g g' : Seat} (hg : gs[i]? = some g)
    (hcall : g'.call = g.call) (hticket : g'.phase.ticket? = g.phase.ticket?)
    (hholder : g'.phase.holder? = g.phase.holder?) (hlocks : w'.createLocks = w.createLocks)
    (hnext : w'.nextTicket = w.nextTicket) : LanesInv w' (gs.set i g') := by
  refine h.of_moved hg (Nat.le_of_eq hnext.symm) (fun t ht => .inl (hticket ▸ ht)) ?_ ?_
  · intro j x t dto k hne hx hxcall ht
    rw [laneHead_of_locks hlocks]
    exact h.head j x t dto k hx hxcall ht
  · intro t dto k hgcall ht
    rw [laneHead_of_locks hlocks]
    exact h.head i g t dto k hg (hcall ▸ hgcall) (hholder ▸ ht)

/-- A create moves in its lane. -/
theorem LanesInv.laneStep (h : LanesInv w gs) {i : ℕ} {g g' : Seat} (hg : gs[i]? = some g)
    (hcall : g'.call = g.call) {dto : CreateTimeOffRequestDto} {k : String}
    (hcreate : g.call = .create dto k) {phase phase' : LanePhase} (hold : g.phase = phase)
    (hnew : g'.phase = phase') (hlane : LaneStep dto.lane w w' phase phase') :
    LanesInv w' (gs.set i g') := by
  cases hlane with
  | stay hlocks hticket huuid =>
      exact h.of_same hg hcall (by rw [hold, hnew]) (by rw [hold, hnew]) hlocks hticket
  | look hlooked hlocks hticket huuid =>
      have hkept := LanePhase.looked_tickets hlooked
      exact h.of_same hg hcall (by rw [hold, hnew, hkept.1]) (by rw [hold, hnew, hkept.2]) hlocks
        hticket
  | enqueue hlocks hticket huuid =>
      refine h.of_moved hg (by omega) (fun t ht => ?_) ?_ ?_
      · rw [hnew] at ht
        cases ht
        exact .inr ⟨Nat.le_refl _, by omega⟩
      · intro j x t dto' k' hne hx hxcall ht
        exact laneHead_append hlocks (h.head j x t dto' k' hx hxcall ht)
      · intro t dto' k' hgcall ht
        rw [hnew] at ht
        cases ht
  | enter hhead hlocks hticket huuid =>
      refine h.of_moved hg (Nat.le_of_eq hticket.symm) (fun t ht => ?_) ?_ ?_
      · rw [hnew] at ht
        rw [hold]
        exact .inl ht
      · intro j x t dto' k' hne hx hxcall ht
        rw [laneHead_of_locks hlocks]
        exact h.head j x t dto' k' hx hxcall ht
      · -- it has come to the head
        intro t dto' k' hgcall ht
        rw [hnew] at ht
        cases ht
        rw [hcall, hcreate] at hgcall
        cases hgcall
        rw [laneHead_of_locks hlocks]
        exact hhead
  | leave hlocks hticket huuid =>
      refine h.of_moved hg (Nat.le_of_eq hticket.symm) (fun t ht => ?_) ?_ ?_
      · rw [hnew] at ht
        cases ht
      · -- the entry that goes was the head of its own lane
        intro j x t dto' k' hne hx hxcall ht
        refine laneHead_filter hlocks (h.head j x t dto' k' hx hxcall ht) fun heq => hne ?_
        obtain ⟨-, rfl⟩ := Prod.mk.inj heq
        refine h.once j i x g t hx hg (LanePhase.ticket_of_holder ht) ?_
        rw [hold]
        rfl
      · intro t dto' k' hgcall ht
        rw [hnew] at ht
        cases ht

/-- **One step keeps the lanes.** -/
theorem LanesInv.step (h : LanesInv w gs) (hstep : SeatStep env w gs w' gs') :
    LanesInv w' gs' := by
  cases hstep with
  | call c => exact h.of_called rfl
  | tick ms => exact ⟨h.once, h.taken, h.head⟩
  | step hg hat hat' hcall hcommitted hplace =>
      rcases hplace.lanes with ⟨hphase, hlocks, hticket⟩ | ⟨dto, k, hcreate, hlane⟩
      · exact h.of_same hg hcall (congrArg LanePhase.ticket? hphase)
          (congrArg LanePhase.holder? hphase) hlocks hticket
      · exact h.laneStep hg hcall hcreate rfl rfl hlane

end LeaveLedger
