import LeaveLedger.Ledger.Calls
import LeaveLedger.Balance.BalanceReads
import LeaveLedger.Lib.Transcript

/-!
# Book — The leave book

What the leave service is for, without tables, transactions, locks or
retries: a book of the totals employees are entitled to and of the leave
they have booked. What is left of an account is never written down, it is
computed from the bookings. `LeaveBook.Answers` is the decision table of the
calls: what a call may be answered, and what it makes of the book. A call
may be turned away for contention, but only when each of its attempts was
disturbed.
-/

namespace LeaveLedger

open Js Lib

/-! ## Bookings and the book -/

structure Booking where
  id : Id
  idempotencyKey : String
  account : BalanceKey
  startDate : String
  endDate : String
  days : ℚ
  status : RequestStatus
  notes : Option String
  decidedBy : Option String
  reason : Option String
  deriving DecidableEq

/-- The booking takes up its days and dates. -/
def Booking.holds (b : Booking) : Bool := b.status = .pending || b.status = .approved

/-- The booking of a payload. -/
def Booking.ofPayload (dto : CreateTimeOffRequestDto) (key : String) (id : Id) (days : ℚ) :
    Booking where
  id := id
  idempotencyKey := key
  account := dto.balanceKey
  startDate := dto.startDate
  endDate := dto.endDate
  days := days
  status := .pending
  notes := orNull dto.notes
  decidedBy := none
  reason := none

/-- A booking once it is approved, rejected or cancelled. -/
def Settlement.close : Settlement → Booking → Booking
  | approve approverId, b => { b with status := .approved, decidedBy := some approverId }
  | reject approverId reason, b =>
      { b with status := .rejected, decidedBy := some approverId, reason := some reason }
  | cancel reason, b => { b with status := .cancelled, reason := reason }

/-- What was answered to a create, kept for its key until it expires. -/
structure Receipt where
  requestHash : String
  booking : Booking
  expiresAt : ℤ
  deriving DecidableEq

structure LeaveBook where
  totals : BalanceKey → Option ℚ
  bookings : List Booking
  receipts : String → Option Receipt
  clock : ℤ

def LeaveBook.blank (clock : ℤ) : LeaveBook := ⟨fun _ => none, [], fun _ => none, clock⟩

/-- The calls of the service, each from its first statement to its answer, and what it does
by itself: a deferred notification of HCM, and a pass of the retry worker. -/
inductive ServiceCall where
  | createRequest (dto : CreateTimeOffRequestDto) (idempotencyKey : String)
  | settle (s : Settlement) (requestId : Id)
  | getRequest (requestId : Id)
  | upsertBalance (employeeId locationId : String) (leaveType : LeaveType) (totalBalance : ℚ)
  | applyHcmRealTimeUpdate (employeeId locationId : String) (leaveType : LeaveType)
      (hcmData : HcmData)
  | reconcileRecord (hcmRecord : HcmRecord)
  | getBalance (employeeId locationId leaveType : String)
  | getBalancesForEmployee (employeeId locationId : String)
  | runDeferred (c : Callback)
  | retryPendingHcmSyncs
  | tick (ms : ℕ)

/-- What a caller learns; `broken` is an error that is none of the domain. -/
inductive Reply where
  | booked (b : Booking)
  | account (a : Account)
  | accounts (l : List (LeaveType × Account))
  | reconciled (changed : Bool)
  | nothing
  | refused (status : ℕ) (error : ErrorCode)
  | broken
  deriving DecidableEq

/-- Every one of the first `attempts` transactions was disturbed. -/
def Contended (attempts : ℕ) (fates : List Fate) : Prop :=
  ∀ i < attempts, ((fates[i]?).getD {}).attempt ≠ .works

namespace LeaveBook

/-- The days an account has in bookings of one status. -/
def daysIn (book : LeaveBook) (status : RequestStatus) (key : BalanceKey) : ℚ :=
  sumWhere (fun b => b.status = status ∧ b.account = key) Booking.days book.bookings

/-- The account of a key: its total, and what its bookings make of it. -/
def accountOf (book : LeaveBook) (key : BalanceKey) : Option Account :=
  (book.totals key).map fun total =>
    Account.of total (book.daysIn .pending key) (book.daysIn .approved key)

/-! ## Deciding a create -/

/-- A booking of the employee at the location that holds one of the dates. -/
def Overlaps (book : LeaveBook) (dto : CreateTimeOffRequestDto) : Prop :=
  ∃ b ∈ book.bookings, b.holds ∧ b.account.1 = dto.employeeId ∧ b.account.2.1 = dto.locationId
    ∧ datesOverlap dto.startDate dto.endDate b.startDate b.endDate

instance (book : LeaveBook) (dto : CreateTimeOffRequestDto) : Decidable (book.Overlaps dto) := by
  unfold Overlaps
  infer_instance

/-- The booking made under a key, or else another answer. -/
def retrieve (book : LeaveBook) (key : String) (otherwise : Reply) : Reply :=
  match book.bookings.find? fun b => b.idempotencyKey = key with
  | some b => .booked b
  | none => otherwise

/-- The answers that need no look at the accounts: of the input, and of the receipts. -/
def screen (env : Env) (book : LeaveBook) (dto : CreateTimeOffRequestDto) (key : String) :
    Option Reply :=
  if key = "" then some (.refused 400 .missingIdempotencyKey)
  else if !isNotInPast book.clock dto.startDate then some (.refused 422 .invalidDateRange)
  else if endsBeforeStart dto then some (.refused 422 .invalidDateRange)
  else match book.receipts key with
    | none => none
    | some receipt =>
        if receipt.expiresAt < book.clock then none
        else if receipt.requestHash ≠ requestHashOf env dto then
          some (.refused 409 .idempotencyConflict)
        else some (.booked receipt.booking)

/-- Why a create is turned down. -/
inductive Refusal where
  | because (status : ℕ) (error : ErrorCode)
  /-- its days are not a number -/
  | notANumber
  /-- another booking has its key -/
  | keyTaken
  deriving DecidableEq

/-- The days a create books, or why it is turned down. -/
def verdict (book : LeaveBook) (dto : CreateTimeOffRequestDto) (key : String) :
    Except Refusal ℚ :=
  if book.Overlaps dto then .error (.because 409 .overlappingRequest)
  else match book.accountOf dto.balanceKey with
    | none => .error (.because 404 .balanceNotFound)
    | some account => match daysOf dto with
      | none => .error .notANumber
      | some days =>
          if account.available < days then .error (.because 422 .insufficientBalance)
          else if ∃ b ∈ book.bookings, b.idempotencyKey = key then .error .keyTaken
          else .ok days

/-- A create that is turned down for its key gets what was booked under it. -/
def refuse (book : LeaveBook) (key : String) : Refusal → Reply
  | .because status error => .refused status error
  | .notANumber => .broken
  | .keyTaken => book.retrieve key .broken

/-- The book with a new booking and the receipt for it. -/
def enter (env : Env) (book : LeaveBook) (dto : CreateTimeOffRequestDto) (b : Booking) :
    LeaveBook :=
  { book with
    bookings := book.bookings ++ [b]
    receipts := Function.update book.receipts b.idempotencyKey
      (some ⟨requestHashOf env dto, b, book.clock + env.idempotencyTtlMs⟩) }

/-- The book with the booking of an id closed. -/
def close (book : LeaveBook) (s : Settlement) (requestId : Id) : LeaveBook :=
  { book with bookings := book.bookings.map fun b => if b.id = requestId then s.close b else b }

/-- The book with a new total for a key. -/
def entitle (book : LeaveBook) (key : BalanceKey) (total : ℚ) : LeaveBook :=
  { book with totals := Function.update book.totals key (some total) }

/-- A total that is higher by more than the tolerance is taken over, a lower one is not. -/
def raise (book : LeaveBook) (key : BalanceKey) (tolerance total : ℚ) : LeaveBook :=
  match book.totals key with
  | none => book
  | some old => if tolerance < total - old then book.entitle key total else book

/-- The account of a key whose leave type is only a text. -/
def accountNamed (book : LeaveBook) (employeeId locationId leaveType : String) :
    Option Account :=
  (LeaveType.alphabetical.find? fun t => t.text = leaveType).bind fun t =>
    book.accountOf (employeeId, locationId, t)

/-! ## The decision table -/

/-- What a call may be answered, and the book after it. -/
inductive Answers (env : Env) (book : LeaveBook) :
    ServiceCall × List Fate → Reply → LeaveBook → Prop where
  | screened {dto key fates reply} (h : book.screen env dto key = some reply) :
      Answers env book (.createRequest dto key, fates) reply book
  | turnedDown {dto key fates refusal} (hs : book.screen env dto key = none)
      (hv : book.verdict dto key = .error refusal) :
      Answers env book (.createRequest dto key, fates) (book.refuse key refusal) book
  | accepted {dto key fates days id} (hs : book.screen env dto key = none)
      (hv : book.verdict dto key = .ok days) (hid : ∀ b ∈ book.bookings, b.id ≠ id) :
      Answers env book (.createRequest dto key, fates) (.booked (.ofPayload dto key id days))
        (book.enter env dto (.ofPayload dto key id days))
  | createContended {dto key fates} (hs : book.screen env dto key = none)
      (hc : Contended 3 fates) :
      Answers env book (.createRequest dto key, fates)
        (book.retrieve key (.refused 409 .balanceConflict)) book
  | settleUnknown {s requestId fates} (h : ∀ b ∈ book.bookings, b.id ≠ requestId) :
      Answers env book (.settle s requestId, fates) (.refused 404 .requestNotFound) book
  | settleClosed {s requestId fates b} (hb : b ∈ book.bookings) (hid : b.id = requestId)
      (hp : b.status ≠ .pending) :
      Answers env book (.settle s requestId, fates) (.refused 409 .invalidStatusTransition) book
  | settled {s requestId fates b} (hb : b ∈ book.bookings) (hid : b.id = requestId)
      (hp : b.status = .pending) :
      Answers env book (.settle s requestId, fates) (.booked (s.close b))
        (book.close s requestId)
  | settleContended {s requestId fates} (hc : Contended 1 fates) :
      Answers env book (.settle s requestId, fates) .broken book
  | found {requestId fates b} (hb : b ∈ book.bookings) (hid : b.id = requestId) :
      Answers env book (.getRequest requestId, fates) (.booked b) book
  | notFound {requestId fates} (h : ∀ b ∈ book.bookings, b.id ≠ requestId) :
      Answers env book (.getRequest requestId, fates) (.refused 404 .requestNotFound) book
  | known {e l t total fates a} (h : book.accountOf (e, l, t) = some a) :
      Answers env book (.upsertBalance e l t total, fates) (.account a) book
  | opened {e l t total fates} (h : book.totals (e, l, t) = none) :
      Answers env book (.upsertBalance e l t total, fates) (.account (.of total 0 0))
        (book.entitle (e, l, t) total)
  | updateUnknown {e l t data fates} (h : book.totals (e, l, t) = none) :
      Answers env book (.applyHcmRealTimeUpdate e l t data, fates) .nothing book
  | updated {e l t data fates a}
      (h : (book.raise (e, l, t) 0.001 data.totalBalance).accountOf (e, l, t) = some a) :
      Answers env book (.applyHcmRealTimeUpdate e l t data, fates) (.account a)
        (book.raise (e, l, t) 0.001 data.totalBalance)
  | updateContended {e l t data fates} (hc : Contended 1 fates) :
      Answers env book (.applyHcmRealTimeUpdate e l t data, fates) .broken book
  | inserted {r fates} (h : book.totals r.key = none) :
      Answers env book (.reconcileRecord r, fates) (.reconciled true)
        (book.entitle r.key r.totalBalance)
  | reconciled {r fates old} (h : book.totals r.key = some old) :
      Answers env book (.reconcileRecord r, fates) (.reconciled (0.01 < |r.totalBalance - old|))
        (book.raise r.key 0.01 r.totalBalance)
  | balance {e l t fates a} (h : book.accountNamed e l t = some a) :
      Answers env book (.getBalance e l t, fates) (.account a) book
  | noBalance {e l t fates} (h : book.accountNamed e l t = none) :
      Answers env book (.getBalance e l t, fates) (.refused 404 .balanceNotFound) book
  | balances {e l fates} :
      Answers env book (.getBalancesForEmployee e l, fates)
        (.accounts (LeaveType.alphabetical.filterMap fun t =>
          (book.accountOf (e, l, t)).map fun a => (t, a))) book
  | notified {c fates} : Answers env book (.runDeferred c, fates) .nothing book
  | retried {fates} : Answers env book (.retryPendingHcmSyncs, fates) .nothing book
  | ticked {ms fates} :
      Answers env book (.tick ms, fates) .nothing { book with clock := book.clock + ms }

end LeaveBook

end LeaveLedger
