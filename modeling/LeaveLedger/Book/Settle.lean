import LeaveLedger.Book.Create

/-!
# Book — A settlement is answered as the book has it

Approve, reject and cancel, alone. In a sound world a pending request always
finds its row and its days, so the only answers are the booking, an unknown
id, a booking that is closed, and a transaction that was disturbed.
-/

namespace LeaveLedger

open Js Lib

variable {w w' : World} {s : Settlement} {requestId : Id}

/-- A settlement on the booking of a row is one on its columns. -/
theorem settle_booking (s : Settlement) (now now' : ℤ) (r : TimeOffRequest) :
    ((s.mark now r).saveOver now' r).booking = s.close r.booking := by
  cases s <;> rfl

/-- What a settlement that commits makes of the book. -/
theorem Settled.closes {r r' : TimeOffRequest} {b b' : EmployeeBalance} (hw : Sound w)
    (huuid : w.uuid ≤ w'.uuid) (h : Settled s requestId w w' r r' b b') :
    Sound w' ∧ w'.book = w.book.close s requestId := by
  refine ⟨⟨h.ledgerInv hw.ledger, ?_, ?_, ?_, ?_⟩, ?_⟩
  · intro rec hrec
    rw [h.records] at hrec
    obtain ⟨x, hx, hkey⟩ := hw.recordKeys rec hrec
    obtain ⟨x', hx', -, huk, -⟩ := h.requests.exists_of_mem hx
    exact ⟨x', hx', huk.trans hkey⟩
  · exact h.balances.forall_pk (P := (· < w'.uuid)) fun x hx =>
      (hw.ids.balances x hx).trans_le huuid
  · exact h.requests.forall_pk (P := (· < w'.uuid)) fun x hx =>
      (hw.ids.requests x hx).trans_le huuid
  · intro rec hrec
    rw [h.records] at hrec
    exact (hw.ids.records rec hrec).trans_le huuid
  · have htotal : b'.totalBalance = b.totalBalance := by
      have htotal := congrArg Account.total h.account
      cases s <;> exact htotal
    refine book_ext (h.balances.byUk_map htotal) ?_ (fun k => ?_) h.clock
    · show w'.db.requests.rows.map _ = (w.db.requests.rows.map TimeOffRequest.booking).map _
      rw [h.requests.rows, List.map_map, List.map_map]
      refine List.map_congr_left fun x hx => ?_
      simp only [Function.comp_apply]
      by_cases hid : x.id = r.id
      · obtain rfl := Table.eq_of_pk hx h.requests.mem hid
        rw [if_pos rfl, if_pos (show x.booking.id = requestId from h.id), h.row, settle_booking]
      · rw [if_neg hid, if_neg fun heq : x.booking.id = requestId => hid (heq.trans h.id.symm)]
    · show (w'.db.records.byUk k).map _ = (w.db.records.byUk k).map _
      rw [h.records]

/-- The transaction of a settlement that the book turns down. -/
theorem settle_throws (w : World) (s : Settlement) {requestId : Id}
    (h : w.db.requests.byPk requestId = none
      ∨ ∃ r, w.db.requests.byPk requestId = some r ∧ r.status ≠ .pending) :
    ∃ e w', (s.transaction requestId).Throws execTx w e w'
      ∧ ∀ {α : Type} (f : α → Reply), replyOf f (.error e)
        = if w.db.requests.byPk requestId = none then .refused 404 .requestNotFound
          else .refused 409 .invalidStatusTransition := by
  have hread : (Tx.stmt (.findRequest requestId)).Returns execTx w (w.db.requests.byPk requestId)
      { w with uuid := w.uuid + 1 } := returns_read rfl
  rw [Settlement.transaction_eq]
  rcases h with hnone | ⟨r, hrow, hstatus⟩
  · rw [hnone] at hread ⊢
    refine ⟨_, _, Script.Throws.bind (hread.throws Script.throws_fail), fun f => rfl⟩
  · rw [hrow] at hread ⊢
    have hget : (getRequestLockedOrThrow requestId).Returns execTx w r
        { w with uuid := w.uuid + 1 } :=
      hread.bind (Script.returns_done.mpr ⟨rfl, rfl⟩)
    have hnot : s.target ∉ validTransitions r.status := fun hmem =>
      hstatus (pending_of_transition hmem)
    obtain ⟨message, hthrows⟩ : ∃ message, (assertValidTransition r.status s.target).Throws execTx
        { w with uuid := w.uuid + 1 } (conflict .invalidStatusTransition message)
        { w with uuid := w.uuid + 1 } := by
      unfold assertValidTransition
      rw [if_neg hnot]
      exact ⟨_, Script.throws_fail⟩
    exact ⟨_, _, hget.throws hthrows.bind, fun f => rfl⟩

theorem replyOf_transient {α : Type} (f : α → Reply) (t : Transient) :
    replyOf f (.error t.exception) = .broken := by
  cases t <;> rfl

/-- A transaction that is disturbed is contended. -/
theorem contended_once {fates : List Fate} (h : (fates.headD {}).attempt ≠ .works) :
    Contended 1 fates :=
  contended_succ h fun i hi => absurd hi (Nat.not_lt_zero i)

/-- A disturbed transaction leaves the book as it was. -/
theorem settle_disturbed (env : Env) {fates : List Fate}
    (hne : (fates.headD {}).attempt ≠ .works) (t : Transient) (hsame : Unchanged w w') :
    w.book.Answers env (.settle s requestId, fates)
      (replyOf (fun body : SerializedRequest => .booked body.booking) (.error t.exception))
      w'.book := by
  rw [hsame.book, replyOf_transient]
  exact .settleContended (contended_once hne)

/-- A settlement the book turns down is refused, or disturbed. -/
theorem settle_refused (env : Env) (hw : Sound w) {fates : List Fate} {res : Except Exception _}
    (hdown : w.db.requests.byPk requestId = none
      ∨ ∃ r, w.db.requests.byPk requestId = some r ∧ r.status ≠ .pending)
    (hexec : execTransaction (fates.headD {}).attempt (s.transaction requestId) w
      = some (res, w')) :
    Sound w' ∧ w.book.Answers env (.settle s requestId, fates)
      (replyOf (fun body => .booked body.booking) (res.map serializeRequest)) w'.book := by
  obtain ⟨e, w₁, hrun, hreply⟩ := settle_throws w s hdown
  obtain ⟨hsame, rfl | ⟨hne, t, rfl⟩⟩ := transaction_throws hrun hexec
  · refine ⟨hsame.sound hw, ?_⟩
    show w.book.Answers env _ (replyOf _ (.error e)) w'.book
    rw [hsame.book, hreply]
    rcases hdown with hnone | ⟨r, hrow, hstatus⟩
    · rw [if_pos hnone]
      refine .settleUnknown fun x hx heq => ?_
      obtain ⟨y, hy, rfl⟩ := mem_bookings.mp hx
      exact Table.byPk_eq_none.mp hnone y hy heq
    · rw [if_neg (by simp [hrow])]
      obtain ⟨hr, hid⟩ := Table.byPk_eq_some.mp hrow
      exact .settleClosed (mem_bookings.mpr ⟨r, hr, rfl⟩) hid hstatus
  · exact ⟨hsame.sound hw, settle_disturbed env hne t hsame⟩

/-- A settlement of a pending request commits, or is disturbed. -/
theorem settle_accepted (env : Env) (hw : Sound w) {fates : List Fate}
    {res : Except Exception TimeOffRequest} {r : TimeOffRequest}
    (hrow : w.db.requests.byPk requestId = some r) (hpending : r.status = .pending)
    (hexec : execTransaction (fates.headD {}).attempt (s.transaction requestId) w
      = some (res, w')) :
    Sound w' ∧ w.book.Answers env (.settle s requestId, fates)
      (replyOf (fun body => .booked body.booking) (res.map serializeRequest)) w'.book := by
  obtain ⟨hr, hid⟩ := Table.byPk_eq_some.mp hrow
  obtain ⟨b, hb, hkey⟩ := hw.ledger.hasRow r hr
  have huuid := (execTransaction_ages hexec).uuid
  obtain ⟨r', w₁, hrun⟩ := settlement_runs (s := s) hr hid hpending hb hkey
    (hw.pending_le hr hb hkey hpending)
  rcases transaction_commits hrun hexec with ⟨rfl, rfl⟩ | ⟨hne, ⟨t, rfl⟩, hsame⟩
  · obtain ⟨r₁, b₁, b', hsettled⟩ := transaction_returns hrun
    obtain rfl := Table.eq_of_pk hsettled.requests.mem hr (hsettled.id.trans hid.symm)
    obtain ⟨hsound, hbook⟩ := hsettled.closes hw huuid
    refine ⟨hsound, ?_⟩
    rw [hbook]
    have hans : LeaveBook.Answers env w.book (.settle s requestId, fates) _ _ :=
      .settled (mem_bookings.mpr ⟨r₁, hr, rfl⟩) hid hpending
    rw [← settle_booking s w.clock w.clock r₁, ← hsettled.row] at hans
    exact hans
  · exact ⟨hsame.sound hw, settle_disturbed env hne t hsame⟩

/-- **A settlement alone** is answered as the book admits. -/
theorem settle_answered (env : Env) (hw : Sound w) (s : Settlement) (requestId : Id)
    (fates : List Fate) :
    ∃ res w', (s.request requestId).alone fates w = some (res, w')
      ∧ w'.createLocks = w.createLocks ∧ Sound w'
      ∧ w.book.Answers env (.settle s requestId, fates)
        (replyOf (fun body => .booked body.booking) res) w'.book := by
  rw [Settlement.request_eq, Svc.alone_transaction]
  obtain ⟨⟨res, w'⟩, hexec⟩ := Option.isSome_iff_exists.mp
    (execTransaction_isSome (fates.headD {}).attempt (s.transaction requestId) w)
  have hlocks := (execTransaction_cases hexec).1.createLocks
  rw [hexec]
  refine ⟨_, w', rfl, hlocks, ?_⟩
  cases hrow : w.db.requests.byPk requestId with
  | none => exact settle_refused env hw (.inl hrow) hexec
  | some r =>
      by_cases hpending : r.status = .pending
      · exact settle_accepted env hw hrow hpending hexec
      · exact settle_refused env hw (.inr ⟨r, hrow, hpending⟩) hexec

end LeaveLedger
