import LeaveLedger.Book.Accounts

/-!
# Book — The service refines the leave book

Calls one after the other, from an empty database: each is answered, and
its answer is one the book admits (`service_refines_book`). What holds of
every history the book admits is then a fact about the service. The second
result is one: a booking a caller was told of stays in the book, for ever
under its id and its key.
-/

namespace LeaveLedger

open Js Lib

variable {env : Env} {w w' : World}

/-! ## The traffic with HCM -/

/-- What the notifiers and the worker ask for: reads, HTTP requests, and the HCM columns of
a request. -/
def HcmTraffic : SvcOp → Prop
  | .stmt (.updateRequest _ _) => True
  | .stmt o => o.isRead
  | .now | .http _ | .sleep _ => True
  | .setImmediate _ | .transaction _ | .enqueueCreateLock _ | .awaitCreateLock _ _
  | .releaseCreateLock _ _ => False

theorem permits_hcmTraffic (requestId : Id) : Permits HcmTraffic requestId :=
  ⟨trivial, fun _ _ _ _ => trivial, fun _ _ => trivial⟩

theorem callback_hcmTraffic (c : Callback) : c.script.Asks HcmTraffic := by
  cases c with
  | notifyHcm id e l t days => exact (permits_hcmTraffic id).notifyHcm_asks
  | notifyApproval request id => exact (permits_hcmTraffic id).notifyApproval_asks trivial

theorem worker_hcmTraffic : retryPendingHcmSyncs.Asks HcmTraffic :=
  Script.asks_bind (asks_stmt rfl) fun _ =>
    retryRequests_asks fun r _ => ⟨permits_hcmTraffic r.id, fun _ => trivial, fun _ _ => trivial⟩

/-- The HCM columns of a request are not in the book. -/
theorem sound_synced (hw : Sound w) (id : Id) (p : RequestPatch) :
    Sound { w with db := w.db.updateRequest id p w.clock, uuid := w.uuid + 1 }
      ∧ World.book { w with db := w.db.updateRequest id p w.clock, uuid := w.uuid + 1 }
        = w.book := by
  have hrows : (w.db.updateRequest id p w.clock).requests.rows
      = w.db.requests.rows.map fun r => if r.id = id then p.apply w.clock r else r := rfl
  refine ⟨⟨hw.ledger.of_sync id p w.clock, ?_, ?_, ?_, ?_⟩, ?_⟩
  · intro rec hrec
    obtain ⟨r, hr, hkey⟩ := hw.recordKeys rec hrec
    refine ⟨_, mem_updateRequest.mpr ⟨r, hr, rfl⟩, ?_⟩
    split
    · exact hkey
    · exact hkey
  · intro b hb
    exact (hw.ids.balances b hb).trans_le (Nat.le_succ _)
  · intro x hx
    obtain ⟨r, hr, rfl⟩ := mem_updateRequest.mp hx
    have hid := (hw.ids.requests r hr).trans_le (Nat.le_succ _)
    split
    · exact hid
    · exact hid
  · intro rec hrec
    exact (hw.ids.records rec hrec).trans_le (Nat.le_succ _)
  · refine book_ext (fun _ => rfl) ?_ (fun _ => rfl) rfl
    show (w.db.updateRequest id p w.clock).requests.rows.map _ = w.db.requests.rows.map _
    rw [hrows, List.map_map]
    refine List.map_congr_left fun r _ => ?_
    rw [Function.comp_apply]
    split
    · rfl
    · rfl

theorem hcmTraffic_step {book : LeaveBook} (fate : Fate) (o : SvcOp) (r : SvcSig.Res o)
    (w w' : World) (ho : HcmTraffic o) (hI : Sound w ∧ w.book = book)
    (h : execSvc fate o w = some (r, w')) : Sound w' ∧ w'.book = book := by
  obtain ⟨hw, rfl⟩ := hI
  have hread : ∀ s : Stmt, s.isRead → ∀ x : Except Exception s.Res,
      execSvc fate (.stmt s) w = some (x, w') → Sound w' ∧ w'.book = w.book := by
    intro s hs x hexec
    obtain ⟨hdb, hsame⟩ := execSvc_read hs hexec
    have huuid : w.uuid ≤ w'.uuid := by
      simp only [execSvc, Option.some.injEq] at hexec
      cases hres : s.exec w.stamp w.db with
      | ok y =>
          rw [hres] at hexec
          cases hexec
          exact Nat.le_succ _
      | error e =>
          rw [hres] at hexec
          cases hexec
          exact Nat.le_refl _
    exact ⟨hw.of_same hdb huuid, book_of_same hdb hsame.clock⟩
  cases o with
  | stmt s =>
      cases s with
      | updateRequest id p =>
          cases h
          exact sound_synced hw id p
      | _ => exact hread _ ho r h
  | now | http request | sleep ms =>
      cases h
      exact ⟨hw, rfl⟩
  | _ => exact ho.elim

/-- A call that is all traffic ends, and leaves the book alone. -/
theorem hcmTraffic_alone {p : Svc Unit} (hp : p.Asks HcmTraffic) (hw : Sound w)
    (fates : List Fate) :
    ∃ res w', p.alone fates w = some (res, w') ∧ w'.createLocks = w.createLocks ∧ Sound w'
      ∧ w'.book = w.book := by
  have hlane : p.Asks fun o : SvcOp => o.isLane = false := by
    refine Script.Asks.mono (fun o ho => ?_) hp
    cases o <;> first | rfl | exact ho.elim
  obtain ⟨res, s, hrun, hlocks⟩ := run_of_no_lane hlane (w, fates)
  have halone : p.alone fates w = some (res, s.1) := by
    rw [Svc.alone, hrun]
    rfl
  exact ⟨res, s.1, halone, hlocks, Svc.alone_keeps hcmTraffic_step hp ⟨hw, rfl⟩ halone⟩

/-! ## Every call -/

/-- **One call** of a sound world whose lanes are free is answered as the book admits. -/
theorem serve_answers (env : Env) (call : ServiceCall × List Fate) (w : World)
    (hw : Sound w ∧ w.createLocks = []) :
    ∃ reply w', serve env call w = some (reply, w') ∧ (Sound w' ∧ w'.createLocks = [])
      ∧ w.book.Answers env call reply w'.book := by
  obtain ⟨hsound, hfree⟩ := hw
  obtain ⟨call, fates⟩ := call
  have hended : ∀ {α : Type} {run : Option (Except Exception α × World)} {f : α → Reply},
      (∃ res w', run = some (res, w') ∧ w'.createLocks = w.createLocks ∧ Sound w'
        ∧ w.book.Answers env (call, fates) (replyOf f res) w'.book) →
      ∃ reply w', (run.map fun x => (replyOf f x.1, x.2)) = some (reply, w')
        ∧ (Sound w' ∧ w'.createLocks = []) ∧ w.book.Answers env (call, fates) reply w'.book := by
    rintro α _ f ⟨res, w', rfl, hlocks, hsound', hans⟩
    exact ⟨_, w', rfl, ⟨hsound', hlocks.trans hfree⟩, hans⟩
  have hquiet : ∀ {p : Svc Unit}, p.Asks HcmTraffic →
      w.book.Answers env (call, fates) .nothing w.book →
      ∃ reply w', ((p.alone fates w).map fun x => (Reply.nothing, x.2)) = some (reply, w')
        ∧ (Sound w' ∧ w'.createLocks = []) ∧ w.book.Answers env (call, fates) reply w'.book := by
    intro p hp hans
    obtain ⟨res, w', hrun, hlocks, hsound', hbook⟩ := hcmTraffic_alone hp hsound fates
    rw [hrun]
    exact ⟨_, w', rfl, ⟨hsound', hlocks.trans hfree⟩, hbook ▸ hans⟩
  cases call with
  | createRequest dto k =>
      obtain ⟨res, w', hrun, hlocks, hsound', hans⟩ :=
        createRequest_answered env dto k hsound hfree fates
      exact hended ⟨res, w', hrun, hlocks.trans hfree.symm, hsound', hans⟩
  | settle s id => exact hended (settle_answered env hsound s id fates)
  | getRequest id => exact ⟨_, w, rfl, ⟨hsound, hfree⟩, getRequest_answered w id fates⟩
  | upsertBalance e l t total => exact hended (upsertBalance_answered hsound e l t total fates)
  | applyHcmRealTimeUpdate e l t data =>
      exact hended (applyHcmRealTimeUpdate_answered hsound e l t data fates)
  | reconcileRecord r => exact hended (reconcileRecord_answered hsound r fates)
  | getBalance e l t => exact ⟨_, w, rfl, ⟨hsound, hfree⟩, getBalance_answered hsound e l t fates⟩
  | getBalancesForEmployee e l =>
      exact ⟨_, w, rfl, ⟨hsound, hfree⟩, getBalancesForEmployee_answered hsound e l fates⟩
  | runDeferred c => exact hquiet (callback_hcmTraffic c) .notified
  | retryPendingHcmSyncs => exact hquiet worker_hcmTraffic .retried
  | tick ms =>
      have hsound' : Sound { w with clock := w.clock + ms } :=
        ⟨hsound.ledger, hsound.recordKeys, ⟨hsound.ids.balances, hsound.ids.requests,
          hsound.ids.records⟩⟩
      exact ⟨_, _, rfl, ⟨hsound', hfree⟩, .ticked⟩

/-- **The refinement**: from an empty database, and whatever becomes of their transactions and
HTTP requests, calls are answered one by one as a blank leave book admits; and what a balance
row says is the account the book computes from the bookings. -/
theorem service_refines_book (env : Env) (clock : ℤ) (calls : List (ServiceCall × List Fate)) :
    ∃ history w', transcript (serve env) calls (World.initial clock) = some (history, w')
      ∧ Allowed (LeaveBook.Answers env) (LeaveBook.blank clock) history w'.book
      ∧ ∀ b ∈ w'.db.balances.rows, w'.book.accountOf b.key = some b.account := by
  obtain ⟨history, w', hrun, ⟨hsound, -⟩, hall⟩ := allowed_of_simulation (serve_answers env) calls
    (s := World.initial clock) ⟨sound_initial clock, rfl⟩
  refine ⟨history, w', hrun, hall, fun b hb => ?_⟩
  rw [book_accountOf hsound, Table.byUk_eq_some.mpr ⟨hb, rfl⟩, Option.map_some]

end LeaveLedger
