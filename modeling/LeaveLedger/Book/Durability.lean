import LeaveLedger.Book.Refinement

/-!
# Book — A booking a caller was told of stays

Read off the decision table alone: ids and keys name one booking each, a
receipt is for a booking of the book, and no call drops a booking or
changes one that is decided (`LeaveBook.WellKept`). So of every history:
who was told of a booking will find it under its id, and be told of it
again under its key.
-/

namespace LeaveLedger

open Js Lib

/-! ## What may become of a booking -/

/-- The booking as it was entered. -/
def Booking.entered (b : Booking) : Booking :=
  { b with status := .pending, decidedBy := none, reason := none }

/-- What a booking may be later: the same leave, and the same decision once there is one. -/
structure Booking.Becomes (b b' : Booking) : Prop where
  entered : b'.entered = b.entered
  decided : b.status ≠ .pending → b' = b

namespace Booking.Becomes

variable {b b' b'' : Booking}

theorem refl (b : Booking) : b.Becomes b := ⟨rfl, fun _ => rfl⟩

theorem trans (h : b.Becomes b') (h' : b'.Becomes b'') : b.Becomes b'' where
  entered := h'.entered.trans h.entered
  decided hdecided := by
    obtain rfl := h.decided hdecided
    exact h'.decided hdecided

theorem id_eq (h : b.Becomes b') : b'.id = b.id := congrArg (fun x => x.id) h.entered

theorem key_eq (h : b.Becomes b') : b'.idempotencyKey = b.idempotencyKey :=
  congrArg (fun x => x.idempotencyKey) h.entered

theorem close (s : Settlement) (hp : b.status = .pending) : b.Becomes (s.close b) where
  entered := by cases s <;> rfl
  decided hdecided := absurd hp hdecided

end Booking.Becomes

theorem close_id (s : Settlement) (b : Booking) : (s.close b).id = b.id := by
  cases s <;> rfl

theorem close_key (s : Settlement) (b : Booking) :
    (s.close b).idempotencyKey = b.idempotencyKey := by
  cases s <;> rfl

/-! ## Books that are well kept -/

namespace LeaveBook

variable {env : Env} {book book' : LeaveBook} {call : ServiceCall} {fates : List Fate}
  {reply : Reply} {b : Booking}

/-- The book has the booking, whatever has become of it. -/
def Holds (book : LeaveBook) (b : Booking) : Prop := ∃ b' ∈ book.bookings, b.Becomes b'

structure WellKept (book : LeaveBook) : Prop where
  ids : (book.bookings.map Booking.id).Nodup
  keys : (book.bookings.map Booking.idempotencyKey).Nodup
  receipts : ∀ k receipt, book.receipts k = some receipt →
    receipt.booking.idempotencyKey = k ∧ book.Holds receipt.booking

theorem blank_wellKept (clock : ℤ) : (blank clock).WellKept where
  ids := List.nodup_nil
  keys := List.nodup_nil
  receipts k receipt h := by cases h

theorem WellKept.eq_of_id (hb : book.WellKept) {x y : Booking} (hx : x ∈ book.bookings)
    (hy : y ∈ book.bookings) (h : x.id = y.id) : x = y :=
  List.inj_on_of_nodup_map hb.ids hx hy h

theorem WellKept.eq_of_key (hb : book.WellKept) {x y : Booking} (hx : x ∈ book.bookings)
    (hy : y ∈ book.bookings) (h : x.idempotencyKey = y.idempotencyKey) : x = y :=
  List.inj_on_of_nodup_map hb.keys hx hy h

/-! ## What a call does to the bookings -/

theorem verdict_ok {dto : CreateTimeOffRequestDto} {k : String} {days : ℚ}
    (h : book.verdict dto k = .ok days) : ∀ b ∈ book.bookings, b.idempotencyKey ≠ k := by
  intro b hb hkey
  unfold verdict at h
  split at h
  · cases h
  · cases hacc : book.accountOf dto.balanceKey with
    | none => simp [hacc] at h
    | some account =>
        cases hdays : daysOf dto with
        | none => simp [hacc, hdays] at h
        | some d =>
            simp only [hacc, hdays] at h
            split at h
            · cases h
            · rw [if_pos ⟨b, hb, hkey⟩] at h
              cases h

/-- A booking that is retrieved. -/
theorem retrieve_booked {k : String} {otherwise : Reply} (h : book.retrieve k otherwise = .booked b)
    (hother : otherwise ≠ .booked b) : b ∈ book.bookings ∧ b.idempotencyKey = k := by
  unfold retrieve at h
  cases hfind : book.bookings.find? fun b => b.idempotencyKey = k with
  | none =>
      rw [hfind] at h
      exact absurd h hother
  | some x =>
      rw [hfind] at h
      cases h
      exact ⟨List.mem_of_find?_eq_some hfind, by simpa using List.find?_some hfind⟩

/-- A booking the screen answers with is on a receipt. -/
theorem screen_booked {dto : CreateTimeOffRequestDto} {k : String}
    (h : book.screen env dto k = some (.booked b)) :
    ∃ receipt, book.receipts k = some receipt ∧ receipt.booking = b := by
  unfold screen at h
  split at h
  · cases h
  · split at h
    · cases h
    · split at h
      · cases h
      · cases hrec : book.receipts k with
        | none => simp [hrec] at h
        | some receipt =>
            simp only [hrec] at h
            split at h
            · cases h
            · split at h
              · cases h
              · cases h
                exact ⟨receipt, rfl, rfl⟩

/-- What an answer makes of the bookings: nothing, and a booking it is about is known; one
more; or one that is decided. -/
inductive Change (env : Env) (book : LeaveBook) : Reply → LeaveBook → Prop where
  | quiet {reply : Reply} {book' : LeaveBook} (hbookings : book'.bookings = book.bookings)
      (hreceipts : book'.receipts = book.receipts)
      (hknown : ∀ b, reply = .booked b → b ∈ book.bookings
        ∨ ∃ k receipt, book.receipts k = some receipt ∧ receipt.booking = b) :
      Change env book reply book'
  | entered (dto : CreateTimeOffRequestDto) (b : Booking)
      (hid : ∀ x ∈ book.bookings, x.id ≠ b.id)
      (hkey : ∀ x ∈ book.bookings, x.idempotencyKey ≠ b.idempotencyKey) :
      Change env book (.booked b) (book.enter env dto b)
  | decided (s : Settlement) {b : Booking} (hb : b ∈ book.bookings) (hp : b.status = .pending) :
      Change env book (.booked (s.close b)) (book.close s b.id)

theorem refuse_booked {k : String} {refusal : Refusal} (h : book.refuse k refusal = .booked b) :
    b ∈ book.bookings ∧ b.idempotencyKey = k := by
  cases refusal with
  | because status error => cases h
  | notANumber => cases h
  | keyTaken => exact retrieve_booked h (by simp)

theorem raise_bookings (key : BalanceKey) (tolerance total : ℚ) :
    (book.raise key tolerance total).bookings = book.bookings
      ∧ (book.raise key tolerance total).receipts = book.receipts := by
  unfold raise
  split
  · exact ⟨rfl, rfl⟩
  · split
    · exact ⟨rfl, rfl⟩
    · exact ⟨rfl, rfl⟩

/-- One row of the table each. -/
theorem Answers.change (h : book.Answers env (call, fates) reply book') :
    Change env book reply book' := by
  have hsilent : ∀ {reply : Reply} {book' : LeaveBook}, (∀ b, reply ≠ .booked b) →
      book'.bookings = book.bookings → book'.receipts = book.receipts →
      Change env book reply book' := fun hno hbookings hreceipts =>
    .quiet hbookings hreceipts fun b hb => absurd hb (hno b)
  cases h with
  | screened h =>
      refine .quiet rfl rfl fun b hb => .inr ?_
      obtain ⟨receipt, hrec, hbook⟩ := screen_booked (hb ▸ h)
      exact ⟨_, receipt, hrec, hbook⟩
  | turnedDown hs hv => exact .quiet rfl rfl fun b hb => .inl (refuse_booked hb).1
  | accepted hs hv hid => exact .entered _ _ hid (verdict_ok hv)
  | createContended hs hc =>
      exact .quiet rfl rfl fun b hb => .inl (retrieve_booked hb (by simp)).1
  | settled hb hid hp => exact hid ▸ .decided _ hb hp
  | found hb hid =>
      refine .quiet rfl rfl fun x hx => ?_
      cases hx
      exact .inl hb
  | updated h => exact hsilent (by simp) (raise_bookings _ _ _).1 (raise_bookings _ _ _).2
  | reconciled h => exact hsilent (by simp) (raise_bookings _ _ _).1 (raise_bookings _ _ _).2
  | _ => exact hsilent (by simp) rfl rfl

/-! ## What a step keeps -/

theorem mem_enter (dto : CreateTimeOffRequestDto) (x : Booking) :
    x ∈ (book.enter env dto b).bookings ↔ x ∈ book.bookings ∨ x = b := by
  simp [enter]

theorem Holds.enter {x : Booking} (dto : CreateTimeOffRequestDto) (h : book.Holds x) :
    (book.enter env dto b).Holds x := by
  obtain ⟨y, hy, hbecomes⟩ := h
  exact ⟨y, (mem_enter dto y).mpr (.inl hy), hbecomes⟩

theorem holds_entered (dto : CreateTimeOffRequestDto) (b : Booking) :
    (book.enter env dto b).Holds b :=
  ⟨b, (mem_enter dto b).mpr (.inr rfl), .refl b⟩

theorem WellKept.enter (hb : book.WellKept) (dto : CreateTimeOffRequestDto)
    (hid : ∀ x ∈ book.bookings, x.id ≠ b.id)
    (hkey : ∀ x ∈ book.bookings, x.idempotencyKey ≠ b.idempotencyKey) :
    (book.enter env dto b).WellKept where
  ids := by
    show ((book.bookings ++ [b]).map Booking.id).Nodup
    rw [List.map_append]
    refine hb.ids.append (List.nodup_singleton _) ?_
    simpa using hid
  keys := by
    show ((book.bookings ++ [b]).map Booking.idempotencyKey).Nodup
    rw [List.map_append]
    refine hb.keys.append (List.nodup_singleton _) ?_
    simpa using hkey
  receipts := by
    intro k receipt hrec
    by_cases hk : k = b.idempotencyKey
    · subst hk
      have hown : some _ = some receipt :=
        (Function.update_self b.idempotencyKey _ book.receipts).symm.trans hrec
      cases hown
      exact ⟨rfl, holds_entered dto b⟩
    · have hold : book.receipts k = some receipt :=
        (Function.update_of_ne hk _ book.receipts).symm.trans hrec
      obtain ⟨hkey, hin⟩ := hb.receipts k receipt hold
      exact ⟨hkey, hin.enter dto⟩

/-- A column that a decision does not write. -/
theorem map_close {β : Type} {column : Booking → β} {s : Settlement} (requestId : Id)
    (h : ∀ x, column (s.close x) = column x) :
    (book.close s requestId).bookings.map column = book.bookings.map column := by
  show (book.bookings.map _).map column = _
  rw [List.map_map]
  refine List.map_congr_left fun x _ => ?_
  rw [Function.comp_apply]
  split
  · exact h x
  · rfl

theorem Holds.close {x : Booking} (s : Settlement) (hb : book.WellKept) (hmem : b ∈ book.bookings)
    (hp : b.status = .pending) (h : book.Holds x) : (book.close s b.id).Holds x := by
  obtain ⟨y, hy, hbecomes⟩ := h
  refine ⟨_, List.mem_map_of_mem hy, ?_⟩
  split
  case isTrue hid =>
    obtain rfl := hb.eq_of_id hy hmem hid
    exact hbecomes.trans (.close s hp)
  case isFalse => exact hbecomes

theorem WellKept.close (s : Settlement) (hb : book.WellKept) (hmem : b ∈ book.bookings)
    (hp : b.status = .pending) : (book.close s b.id).WellKept where
  ids := by
    rw [map_close b.id (close_id s)]
    exact hb.ids
  keys := by
    rw [map_close b.id (close_key s)]
    exact hb.keys
  receipts k receipt hrec := by
    obtain ⟨hkey, hin⟩ := hb.receipts k receipt hrec
    exact ⟨hkey, hin.close s hb hmem hp⟩

/-- A step keeps the book in order, and every booking; and the booking it tells of is in the
book. -/
theorem Change.keeps (h : Change env book reply book') (hb : book.WellKept) :
    book'.WellKept ∧ (∀ b, book.Holds b → book'.Holds b)
      ∧ ∀ b, reply = .booked b → book'.Holds b := by
  cases h with
  | quiet hbookings hreceipts hknown =>
      have hholds : ∀ b, book.Holds b → book'.Holds b := by
        rintro b ⟨x, hx, hbecomes⟩
        exact ⟨x, hbookings ▸ hx, hbecomes⟩
      refine ⟨⟨hbookings ▸ hb.ids, hbookings ▸ hb.keys, ?_⟩, hholds, ?_⟩
      · intro k receipt hrec
        obtain ⟨hkey, hin⟩ := hb.receipts k receipt (hreceipts ▸ hrec)
        exact ⟨hkey, hholds _ hin⟩
      · intro b heq
        rcases hknown b heq with hmem | ⟨k, receipt, hrec, rfl⟩
        · exact hholds b ⟨b, hmem, .refl b⟩
        · exact hholds _ (hb.receipts k receipt hrec).2
  | entered dto b hid hkey =>
      refine ⟨hb.enter dto hid hkey, fun x hx => hx.enter dto, fun x hx => ?_⟩
      cases hx
      exact holds_entered dto b
  | @decided s b hmem hp =>
      refine ⟨hb.close s hmem hp, fun x hx => hx.close s hb hmem hp, fun x hx => ?_⟩
      cases hx
      exact ⟨s.close b, List.mem_map.mpr ⟨b, hmem, by rw [if_pos rfl]⟩, .refl _⟩

/-! ## Histories -/

/-- An answer to a create names a booking of its key. -/
theorem Answers.create_key {dto : CreateTimeOffRequestDto} {k : String} (hb : book.WellKept)
    (h : book.Answers env (.createRequest dto k, fates) (.booked b) book') :
    b.idempotencyKey = k := by
  generalize hreply : Reply.booked b = reply at h
  cases h with
  | screened h =>
      obtain ⟨receipt, hrec, rfl⟩ := screen_booked (hreply ▸ h)
      exact (hb.receipts k receipt hrec).1
  | turnedDown hs hv => exact (refuse_booked hreply.symm).2
  | accepted hs hv hid =>
      cases hreply
      rfl
  | createContended hs hc => exact (retrieve_booked hreply.symm (by simp)).2

/-- A read of a booking that the book has. -/
theorem Answers.read_held (hb : book.WellKept) (hheld : book.Holds b)
    (h : book.Answers env (.getRequest b.id, fates) reply book') :
    ∃ b', reply = .booked b' ∧ b.Becomes b' := by
  obtain ⟨x, hx, hbecomes⟩ := hheld
  cases h with
  | found hy hid =>
      obtain rfl := hb.eq_of_id hy hx (hid.trans hbecomes.id_eq.symm)
      exact ⟨_, rfl, hbecomes⟩
  | notFound hnone => exact absurd hbecomes.id_eq (hnone x hx)

/-- Who was told of a booking finds it under its id, and is told of it under its key. -/
def Durable (history : List ((ServiceCall × List Fate) × Reply)) : Prop :=
  ∀ before call b after, history = before ++ (call, .booked b) :: after →
    ∀ entry ∈ after,
      (entry.1.1 = .getRequest b.id → ∃ b', entry.2 = .booked b' ∧ b.Becomes b')
        ∧ ∀ dto b', entry.1.1 = .createRequest dto b.idempotencyKey → entry.2 = .booked b' →
          b'.entered = b.entered

theorem durable_of_allowed {history : List ((ServiceCall × List Fate) × Reply)}
    (hb : book.WellKept) (h : Allowed (Answers env) book history book') : Durable history := by
  have hkept : ∀ {t t' : LeaveBook} {history : List ((ServiceCall × List Fate) × Reply)},
      Allowed (Answers env) t history t' → t.WellKept →
      t'.WellKept ∧ ∀ b, t.Holds b → t'.Holds b := by
    intro t t' history hall ht
    exact hall.keeps (I := fun x => x.WellKept ∧ ∀ b, t.Holds b → x.Holds b)
      (fun x l r y hx hstep => by
        obtain ⟨hy, hholds, -⟩ := (Answers.change hstep).keeps hx.1
        exact ⟨hy, fun b hin => hholds b (hx.2 b hin)⟩)
      ⟨ht, fun b hin => hin⟩
  rintro before call b after rfl entry hentry
  obtain ⟨t₁, t₂, hbefore, hstep, hafter⟩ := h.at_answer
  obtain ⟨ht₂, -, htold⟩ := (Answers.change hstep).keeps (hkept hbefore hb).1
  obtain ⟨between, rest, rfl⟩ := List.append_of_mem hentry
  obtain ⟨t₃, t₄, hbetween, hlater, -⟩ := hafter.at_answer (l := entry.1) (r := entry.2)
  obtain ⟨ht₃, hholds⟩ := hkept hbetween ht₂
  have hheld : t₃.Holds b := hholds b (htold b rfl)
  obtain ⟨⟨later, fates⟩, reply⟩ := entry
  constructor
  · rintro rfl
    exact hlater.read_held ht₃ hheld
  · rintro dto b' rfl rfl
    obtain ⟨ht₄, hkeep, htold'⟩ := (Answers.change hlater).keeps ht₃
    obtain ⟨x, hx, hbecomes⟩ := hkeep b hheld
    obtain ⟨y, hy, hbecomes'⟩ := htold' b' rfl
    have hkey : y.idempotencyKey = x.idempotencyKey :=
      hbecomes'.key_eq.trans ((hlater.create_key ht₃).trans hbecomes.key_eq.symm)
    obtain rfl := ht₄.eq_of_key hy hx hkey
    exact hbecomes'.entered.symm.trans hbecomes.entered

end LeaveBook

/-- **Durability**: whatever is called, and whatever becomes of its transactions, a booking
that a caller was told of is answered to every later read of its id, as the same leave and
with the same decision once there was one; and a create under its key tells of no other. -/
theorem service_durable (env : Env) (clock : ℤ) (calls : List (ServiceCall × List Fate)) :
    ∃ history w', transcript (serve env) calls (World.initial clock) = some (history, w')
      ∧ LeaveBook.Durable history := by
  obtain ⟨history, w', hrun, -, hall⟩ := allowed_of_simulation (serve_answers env) calls
    (s := World.initial clock) ⟨sound_initial clock, rfl⟩
  have hkept : (World.initial clock).book.WellKept := LeaveBook.blank_wellKept clock
  exact ⟨history, w', hrun, LeaveBook.durable_of_allowed hkept hall⟩

end LeaveLedger
