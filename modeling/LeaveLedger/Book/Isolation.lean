import LeaveLedger.Book.Durability

/-!
# Book — Calls for others leave an employee alone

What the book has of one employee (`LeaveBook.SameFor`): the totals, the
bookings and the receipts of the accounts that carry the name. Calls that
concern others keep all of it, though ids and idempotency keys are shared
by everybody, and so whatever an employee reads before such calls is read
again after them.
-/

namespace LeaveLedger

open Js Lib

/-- Where a map moves only elements that are filtered out, before and after, it changes
nothing of what is left. -/
theorem filter_map_outside {α : Type} (p : α → Bool) (f : α → α) (l : List α)
    (h : ∀ a ∈ l, f a = a ∨ p a = false ∧ p (f a) = false) :
    (l.map f).filter p = l.filter p := by
  induction l with
  | nil => rfl
  | cons a rest ih =>
      have hrest := ih fun x hx => h x (List.mem_cons_of_mem a hx)
      rcases h a List.mem_cons_self with hsame | ⟨hout, hout'⟩
      · simp [hsame, List.filter_cons, hrest]
      · simp [hout, hout', hrest]

theorem close_account (s : Settlement) (b : Booking) : (s.close b).account = b.account := by
  cases s <;> rfl

/-- The booking is the employee's. -/
def Booking.isOf (e : String) (b : Booking) : Bool := b.account.1 = e

namespace LeaveBook

variable {env : Env} {book book' book'' : LeaveBook} {call : ServiceCall} {fates : List Fate}
  {reply reply' : Reply} {e : String}

/-- Of one employee the two books have the same. -/
structure SameFor (e : String) (book book' : LeaveBook) : Prop where
  totals : ∀ key : BalanceKey, key.1 = e → book'.totals key = book.totals key
  bookings : book'.bookings.filter (Booking.isOf e) = book.bookings.filter (Booking.isOf e)
  receipts : ∀ k receipt, receipt.booking.isOf e →
    (book'.receipts k = some receipt ↔ book.receipts k = some receipt)

/-- The call may change what the book has of the employee. -/
def Concerns (book : LeaveBook) (e : String) : ServiceCall → Prop
  | .createRequest dto _ => dto.employeeId = e
  | .settle _ requestId => ∃ b ∈ book.bookings, b.id = requestId ∧ b.isOf e
  | .upsertBalance employeeId _ _ _ | .applyHcmRealTimeUpdate employeeId _ _ _ => employeeId = e
  | .reconcileRecord r => r.employeeId = e
  | .getRequest _ | .getBalance _ _ _ | .getBalancesForEmployee _ _ | .runDeferred _
  | .retryPendingHcmSyncs | .tick _ => False

/-- The call reads what the book has of the employee. -/
def ReadsOf (book : LeaveBook) (e : String) : ServiceCall → Prop
  | .getRequest requestId => ∃ b ∈ book.bookings, b.id = requestId ∧ b.isOf e
  | .getBalance employeeId _ _ | .getBalancesForEmployee employeeId _ => employeeId = e
  | .createRequest _ _ | .settle _ _ | .upsertBalance _ _ _ _ | .applyHcmRealTimeUpdate _ _ _ _
  | .reconcileRecord _ | .runDeferred _ | .retryPendingHcmSyncs | .tick _ => False

namespace SameFor

theorem refl (e : String) (book : LeaveBook) : SameFor e book book :=
  ⟨fun _ _ => rfl, rfl, fun _ _ _ => Iff.rfl⟩

theorem trans (h : SameFor e book book') (h' : SameFor e book' book'') :
    SameFor e book book'' where
  totals key hkey := (h'.totals key hkey).trans (h.totals key hkey)
  bookings := h'.bookings.trans h.bookings
  receipts k receipt hown := (h'.receipts k receipt hown).trans (h.receipts k receipt hown)

theorem mem (h : SameFor e book book') {b : Booking} (hown : b.isOf e) :
    b ∈ book'.bookings ↔ b ∈ book.bookings := by
  have hiff := congrArg (fun l => b ∈ l) h.bookings
  simpa [List.mem_filter, hown] using hiff

theorem concerns (h : SameFor e book book') : book'.Concerns e call ↔ book.Concerns e call := by
  cases call with
  | settle s requestId =>
      constructor
      · rintro ⟨b, hb, hid, hown⟩
        exact ⟨b, (h.mem hown).mp hb, hid, hown⟩
      · rintro ⟨b, hb, hid, hown⟩
        exact ⟨b, (h.mem hown).mpr hb, hid, hown⟩
  | _ => exact Iff.rfl

/-- The days of an account are in the bookings of its employee. -/
theorem daysIn (h : SameFor e book book') (status : RequestStatus) {key : BalanceKey}
    (hkey : key.1 = e) : book'.daysIn status key = book.daysIn status key := by
  have hown : ∀ l : List Booking,
      sumWhere (fun b => b.status = status ∧ b.account = key) Booking.days l
        = sumWhere (fun b => b.status = status ∧ b.account = key) Booking.days
          (l.filter (Booking.isOf e)) := by
    intro l
    unfold sumWhere
    rw [List.filter_filter]
    congr 3
    funext b
    by_cases hb : b.account = key
    · simp [Booking.isOf, hb, hkey]
    · simp [hb]
  unfold LeaveBook.daysIn
  rw [hown book'.bookings, hown book.bookings, h.bookings]

theorem accountOf (h : SameFor e book book') {key : BalanceKey} (hkey : key.1 = e) :
    book'.accountOf key = book.accountOf key := by
  unfold LeaveBook.accountOf
  rw [h.totals key hkey, h.daysIn .pending hkey, h.daysIn .approved hkey]

theorem accountNamed (h : SameFor e book book') (l t : String) :
    book'.accountNamed e l t = book.accountNamed e l t := by
  unfold LeaveBook.accountNamed
  congr 1
  funext x
  exact h.accountOf rfl

end SameFor

/-! ## Calls that concern others -/

theorem sameFor_entitle {key : BalanceKey} (total : ℚ) (hkey : key.1 ≠ e) :
    SameFor e book (book.entitle key total) where
  totals key' hown := Function.update_of_ne (fun heq : key' = key => hkey (heq ▸ hown)) _ _
  bookings := rfl
  receipts _ _ _ := Iff.rfl

theorem sameFor_raise {key : BalanceKey} (tolerance total : ℚ) (hkey : key.1 ≠ e) :
    SameFor e book (book.raise key tolerance total) := by
  unfold raise
  split
  · exact .refl e book
  · split
    · exact sameFor_entitle total hkey
    · exact .refl e book

theorem sameFor_enter {dto : CreateTimeOffRequestDto} {k : String} {id : Id} {days : ℚ}
    (hb : book.WellKept) (hv : book.verdict dto k = .ok days) (hother : dto.employeeId ≠ e) :
    SameFor e book (book.enter env dto (.ofPayload dto k id days)) := by
  have hforeign : (Booking.ofPayload dto k id days).isOf e = false := decide_eq_false hother
  refine ⟨fun _ _ => rfl, ?_, fun key receipt hown => ?_⟩
  · show (book.bookings ++ [_]).filter _ = _
    simp [hforeign]
  · show Function.update book.receipts k _ key = _ ↔ _
    by_cases hkey : key = k
    · rw [hkey, Function.update_self]
      constructor
      · intro heq
        obtain rfl := Option.some.inj heq
        simp [hforeign] at hown
      · intro hrec
        -- a receipt for the key would be for a booking under it
        obtain ⟨hreceipt, x, hx, hbecomes⟩ := hb.receipts k receipt hrec
        exact absurd (hbecomes.key_eq.trans hreceipt) (verdict_ok hv x hx)
    · rw [Function.update_of_ne hkey]

theorem sameFor_close {s : Settlement} {b : Booking} (hb : book.WellKept)
    (hmem : b ∈ book.bookings) (hother : b.isOf e = false) :
    SameFor e book (book.close s b.id) := by
  refine ⟨fun _ _ => rfl, filter_map_outside _ _ _ fun x hx => ?_, fun _ _ _ => Iff.rfl⟩
  by_cases hid : x.id = b.id
  · obtain rfl := hb.eq_of_id hx hmem hid
    refine .inr ⟨hother, ?_⟩
    rw [if_pos rfl]
    unfold Booking.isOf at hother ⊢
    rw [close_account]
    exact hother
  · exact .inl (if_neg hid)

/-- **One call** that concerns others. -/
theorem Answers.sameFor (hb : book.WellKept) (hother : ¬ book.Concerns e call)
    (h : book.Answers env (call, fates) reply book') : SameFor e book book' := by
  cases h with
  | accepted hs hv hid => exact sameFor_enter hb hv hother
  | settled hmem hid hp =>
      subst hid
      refine sameFor_close hb hmem (Bool.eq_false_iff.mpr fun hown => ?_)
      exact hother ⟨_, hmem, rfl, hown⟩
  | opened h => exact sameFor_entitle _ hother
  | inserted h => exact sameFor_entitle _ hother
  | updated h => exact sameFor_raise _ _ hother
  | reconciled h => exact sameFor_raise _ _ hother
  | ticked => exact ⟨fun _ _ => rfl, rfl, fun _ _ _ => Iff.rfl⟩
  | _ => exact .refl e book

/-- What an employee reads is in what the book has of the employee. -/
theorem Answers.reads_same {fates' : List Fate} {t t' : LeaveBook} (hb : book.WellKept)
    (hb' : book'.WellKept) (hsame : SameFor e book book') (hread : book.ReadsOf e call)
    (h : book.Answers env (call, fates) reply t) (h' : book'.Answers env (call, fates') reply' t') :
    reply' = reply := by
  cases call with
  | getRequest requestId =>
      obtain ⟨b, hmem, hid, hown⟩ := hread
      have hmem' := (hsame.mem hown).mpr hmem
      have hfound : reply = .booked b := by
        cases h with
        | found hx hxid =>
            obtain rfl := hb.eq_of_id hx hmem (hxid.trans hid.symm)
            rfl
        | notFound hnone => exact absurd hid (hnone b hmem)
      have hfound' : reply' = .booked b := by
        cases h' with
        | found hx hxid =>
            obtain rfl := hb'.eq_of_id hx hmem' (hxid.trans hid.symm)
            rfl
        | notFound hnone => exact absurd hid (hnone b hmem')
      rw [hfound, hfound']
  | getBalance employeeId l t =>
      obtain rfl : employeeId = e := hread
      have hnamed := hsame.accountNamed l t
      cases h with
      | balance ha =>
          cases h' with
          | balance ha' =>
              exact congrArg Reply.account (Option.some.inj (ha'.symm.trans (hnamed.trans ha)))
          | noBalance hnone => cases hnone.symm.trans (hnamed.trans ha)
      | noBalance hnone =>
          cases h' with
          | balance ha' => cases ha'.symm.trans (hnamed.trans hnone)
          | noBalance _ => rfl
  | getBalancesForEmployee employeeId l =>
      obtain rfl : employeeId = e := hread
      cases h
      cases h'
      congr 1
      refine List.filterMap_congr fun t _ => ?_
      rw [hsame.accountOf rfl]
  | _ => exact hread.elim

end LeaveBook

/-- A read leaves the world as it is. -/
theorem serve_read {env : Env} {book : LeaveBook} {e : String} {read : ServiceCall}
    {fates : List Fate} {w w' : World} {reply : Reply} (hread : book.ReadsOf e read)
    (h : serve env (read, fates) w = some (reply, w')) : w' = w := by
  cases read with
  | getRequest | getBalance | getBalancesForEmployee =>
      cases h
      rfl
  | _ => exact hread.elim

/-- **Isolation**: calls that concern no booking, no account and no payload of an employee,
in any number and however their transactions end, leave all the book has of the employee; and
what the employee reads after them is what was read before. -/
theorem service_isolates (env : Env) (clock : ℤ) (before others : List (ServiceCall × List Fate))
    (e : String) :
    ∃ h₁ w₁ h₂ w₂, transcript (serve env) before (World.initial clock) = some (h₁, w₁)
      ∧ transcript (serve env) others w₁ = some (h₂, w₂)
      ∧ ((∀ call ∈ others, ¬ w₁.book.Concerns e call.1) →
        LeaveBook.SameFor e w₁.book w₂.book
          ∧ ∀ read, w₁.book.ReadsOf e read → ∀ fates, ∃ reply,
            serve env (read, fates) w₁ = some (reply, w₁)
              ∧ serve env (read, fates) w₂ = some (reply, w₂)) := by
  obtain ⟨h₁, w₁, hrun₁, hw₁, hall₁⟩ := allowed_of_simulation (serve_answers env) before
    (s := World.initial clock) ⟨sound_initial clock, rfl⟩
  obtain ⟨h₂, w₂, hrun₂, hw₂, hall₂⟩ := allowed_of_simulation (serve_answers env) others hw₁
  refine ⟨h₁, w₁, h₂, w₂, hrun₁, hrun₂, fun hothers => ?_⟩
  have hblank : (World.initial clock).book.WellKept := LeaveBook.blank_wellKept clock
  have hkept₁ : w₁.book.WellKept :=
    hall₁.keeps (fun t l r t' ht hstep => ((LeaveBook.Answers.change hstep).keeps ht).1) hblank
  obtain ⟨hkept₂, hsame⟩ : w₂.book.WellKept ∧ LeaveBook.SameFor e w₁.book w₂.book := by
    refine hall₂.keeps_where (P := fun call => ¬ w₁.book.Concerns e call.1)
      (I := fun t => t.WellKept ∧ LeaveBook.SameFor e w₁.book t) ?_ ?_
      ⟨hkept₁, .refl e w₁.book⟩
    · rintro t ⟨call, fates⟩ r t' hother ⟨ht, hsame⟩ hstep
      exact ⟨((LeaveBook.Answers.change hstep).keeps ht).1,
        hsame.trans (hstep.sameFor ht (mt hsame.concerns.mp hother))⟩
    · intro x hx
      refine hothers x.1 ?_
      rw [← transcript_actions hrun₂]
      exact List.mem_map_of_mem hx
  refine ⟨hsame, fun read hread fates => ?_⟩
  obtain ⟨reply, v₁, hserve₁, -, hans₁⟩ := serve_answers env (read, fates) w₁ hw₁
  obtain ⟨reply', v₂, hserve₂, -, hans₂⟩ := serve_answers env (read, fates) w₂ hw₂
  obtain rfl := LeaveBook.Answers.reads_same hkept₁ hkept₂ hsame hread hans₁ hans₂
  obtain rfl := serve_read hread hserve₁
  obtain rfl := serve_read hread hserve₂
  exact ⟨_, hserve₁, hserve₂⟩

end LeaveLedger
