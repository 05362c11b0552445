import LeaveLedger.Book.LeaveBook
import LeaveLedger.Sync.Notifiers
import LeaveLedger.Transactions.Start

/-!
# Book — The service as a machine that answers

One call of the service after the other, each run to its end with the given
fates of its transactions and HTTP requests, and what its caller learns.
`World.book` is the leave book a world stands for: the totals of its balance
rows, its requests, its live and expired receipts. `Sound` is what every
call keeps, and where it holds the columns of a balance row are the account
the book computes.
-/

namespace LeaveLedger

open Js Lib

/-! ## The book of a world -/

def SerializedRequest.booking (body : SerializedRequest) : Booking where
  id := body.id
  idempotencyKey := body.idempotencyKey
  account := (body.employeeId, body.locationId, body.leaveType)
  startDate := body.startDate
  endDate := body.endDate
  days := body.daysRequested
  status := body.status
  notes := body.notes
  decidedBy := body.approvedBy
  reason := body.rejectionReason

def TimeOffRequest.booking (r : TimeOffRequest) : Booking := (serializeRequest r).booking

def IdempotencyRecord.receipt (rec : IdempotencyRecord) : Receipt :=
  ⟨rec.requestHash, rec.responseBody.booking, rec.expiresAt⟩

def World.book (w : World) : LeaveBook where
  totals key := (w.db.balances.byUk key).map EmployeeBalance.totalBalance
  bookings := w.db.requests.rows.map TimeOffRequest.booking
  receipts key := (w.db.records.byUk key).map IdempotencyRecord.receipt
  clock := w.clock

theorem book_of_same {w w' : World} (hdb : w'.db = w.db) (hclock : w'.clock = w.clock) :
    w'.book = w.book := by
  unfold World.book
  rw [hdb, hclock]

theorem book_ext {book book' : LeaveBook} (htotals : ∀ key, book.totals key = book'.totals key)
    (hbookings : book.bookings = book'.bookings)
    (hreceipts : ∀ key, book.receipts key = book'.receipts key)
    (hclock : book.clock = book'.clock) : book = book' := by
  cases book
  cases book'
  congr
  · funext key
    exact htotals key
  · funext key
    exact hreceipts key

/-! ## Calls and replies -/

/-- `getRequest`. -/
def getRequest (db : Database) (requestId : Id) : Except Exception SerializedRequest :=
  match db.requests.byPk requestId with
  | none =>
      .error (notFound .requestNotFound
        ("Time-off request " ++ toString requestId ++ " not found"))
  | some request => .ok (serializeRequest request)

def SerializedBalance.account (b : SerializedBalance) : Account :=
  ⟨b.totalBalance, b.availableBalance, b.pendingBalance, b.usedBalance⟩

/-- What a caller learns of a result: of an error its status and code. -/
def replyOf {α : Type} (f : α → Reply) : Except Exception α → Reply
  | .ok a => f a
  | .error (.http status error _ _) => .refused status error
  | .error (.driver _ _) => .broken

/-- One call and its reply. -/
def serve (env : Env) : ServiceCall × List Fate → World → Option (Reply × World)
  | (.createRequest dto k, fates), w =>
      ((createRequest env dto k).alone fates w).map fun x =>
        (replyOf (fun body => .booked body.booking) x.1, x.2)
  | (.settle s id, fates), w =>
      ((s.request id).alone fates w).map fun x =>
        (replyOf (fun body => .booked body.booking) x.1, x.2)
  | (.getRequest id, _), w =>
      some (replyOf (fun body => .booked body.booking) (getRequest w.db id), w)
  | (.upsertBalance e l t total, fates), w =>
      ((upsertBalance env e l t total).alone fates w).map fun x =>
        (replyOf (fun b => .account b.account) x.1, x.2)
  | (.applyHcmRealTimeUpdate e l t data, fates), w =>
      (execTransaction (fates.headD {}).attempt (applyHcmRealTimeUpdate e l t data) w).map fun x =>
        (replyOf (fun found => (found.map EmployeeBalance.account).elim .nothing .account) x.1, x.2)
  | (.reconcileRecord r, fates), w =>
      ((reconcileRecord r).alone fates w).map fun x => (replyOf .reconciled x.1, x.2)
  | (.getBalance e l t, _), w =>
      some (replyOf (fun b => .account b.account) (getBalance env w.clock w.db e l t), w)
  | (.getBalancesForEmployee e l, _), w =>
      some (.accounts ((getBalancesForEmployee env w.clock w.db e l).map fun b =>
        (b.leaveType, b.account)), w)
  | (.runDeferred c, fates), w =>
      (c.script.alone fates w).map fun x => (.nothing, x.2)
  | (.retryPendingHcmSyncs, fates), w =>
      (retryPendingHcmSyncs.alone fates w).map fun x => (.nothing, x.2)
  | (.tick ms, _), w => some (.nothing, { w with clock := w.clock + ms })

/-! ## What every call keeps -/

/-- Every id in the tables is used up. -/
structure UsedIds (w : World) : Prop where
  balances : ∀ b ∈ w.db.balances.rows, b.id < w.uuid
  requests : ∀ r ∈ w.db.requests.rows, r.id < w.uuid
  records : ∀ rec ∈ w.db.records.rows, rec.id < w.uuid

structure Sound (w : World) : Prop where
  ledger : LedgerInv w.db
  recordKeys : RecordKeys w.db
  ids : UsedIds w

theorem sound_initial (clock : ℤ) : Sound (World.initial clock) := by
  refine ⟨ledgerInv_empty, ?_, ?_, ?_, ?_⟩
  · intro rec hrec
    cases hrec
  · intro b hb
    cases hb
  · intro r hr
    cases hr
  · intro rec hrec
    cases hrec

theorem Sound.of_same {w w' : World} (h : Sound w) (hdb : w'.db = w.db)
    (huuid : w.uuid ≤ w'.uuid) : Sound w' where
  ledger := hdb ▸ h.ledger
  recordKeys := hdb ▸ h.recordKeys
  ids := ⟨fun b hb => (h.ids.balances b (hdb ▸ hb)).trans_le huuid,
    fun r hr => (h.ids.requests r (hdb ▸ hr)).trans_le huuid,
    fun rec hrec => (h.ids.records rec (hdb ▸ hrec)).trans_le huuid⟩

/-! ## Reading the book of a sound world -/

section
variable {w : World} {key : BalanceKey}

theorem book_daysIn (w : World) (status : RequestStatus) (key : BalanceKey) :
    w.book.daysIn status key = daysIn status key w.db.requests.rows := by
  unfold LeaveBook.daysIn daysIn sumWhere
  rw [World.book, List.filter_map, List.map_map]
  rfl

/-- The columns of a row are the account the book computes. -/
theorem book_accountOf (h : Sound w) (key : BalanceKey) :
    w.book.accountOf key = (w.db.balances.byUk key).map EmployeeBalance.account := by
  unfold LeaveBook.accountOf
  rw [book_daysIn, book_daysIn]
  show Option.map _ (Option.map _ (w.db.balances.byUk key)) = _
  cases hrow : w.db.balances.byUk key with
  | none => rfl
  | some b =>
      obtain ⟨hb, hkey⟩ := Table.byUk_eq_some.mp hrow
      rw [Option.map_some, Option.map_some, Option.map_some, h.ledger.account b hb, hkey]

theorem book_totals (key : BalanceKey) :
    w.book.totals key = (w.db.balances.byUk key).map EmployeeBalance.totalBalance := rfl

theorem book_receipts (k : String) :
    w.book.receipts k = (w.db.records.byUk k).map IdempotencyRecord.receipt := rfl

theorem mem_bookings {b : Booking} :
    b ∈ w.book.bookings ↔ ∃ r ∈ w.db.requests.rows, r.booking = b := by
  simp [World.book]

/-- What a key retrieves is the request stored under it. -/
theorem book_retrieve (k : String) (otherwise : Reply) :
    w.book.retrieve k otherwise
      = ((w.db.requests.byUk k).map fun r => Reply.booked r.booking).getD otherwise := by
  unfold LeaveBook.retrieve
  have hfind : (w.book.bookings.find? fun b => b.idempotencyKey = k)
      = (w.db.requests.byUk k).map TimeOffRequest.booking := by
    rw [World.book, List.find?_map]
    rfl
  rw [hfind]
  cases w.db.requests.byUk k <;> rfl

/-- A row says how much it holds that is pending. -/
theorem Sound.pending_le (h : Sound w) {r : TimeOffRequest} {b : EmployeeBalance}
    (hr : r ∈ w.db.requests.rows) (hb : b ∈ w.db.balances.rows) (hkey : b.key = r.balanceKey)
    (hp : r.status = .pending) : r.daysRequested ≤ b.pendingBalance := by
  have hrow : b.pendingBalance = daysIn .pending b.key w.db.requests.rows :=
    congrArg Account.pending (h.ledger.account b hb)
  rw [hrow, hkey, ← hp]
  exact le_daysIn h.ledger.positive hr

end

end LeaveLedger
