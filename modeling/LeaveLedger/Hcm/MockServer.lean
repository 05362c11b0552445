import LeaveLedger.Lib.LiveMap
import LeaveLedger.Js.Number

/-!
# Hcm — The server of the mock HCM

`mock-hcm/src/server`: the balances under their concatenated keys, the
behaviour that tests switch on, and both applications, the API and the admin
endpoints. A request first arrives, when it may be refused at once, and is
served after a delay; what else happens in between is up to the run. The
numbers of a body are finite.
-/

namespace LeaveLedger

namespace MockServer

open Js Lib

/-! ## State -/

/-- Whose balance a request is about. -/
structure Subject where
  employeeId : String
  locationId : String
  leaveType : String
  deriving DecidableEq

/-- A value of `hcmBalances`. -/
structure Balance where
  subject : Subject
  totalBalance : ℚ
  availableBalance : ℚ
  version : String
  deriving DecidableEq

/-- `'503'` and `'timeout'`. -/
inductive FailureMode where
  | unavailable | timeout
  deriving DecidableEq

inductive ValidationOverride where
  | alwaysValid | alwaysInvalid
  deriving DecidableEq

structure Behavior where
  forcedFailureMode : Option FailureMode := none
  forcedFailureRemaining : ℕ := 0
  validationOverride : Option ValidationOverride := none
  batchPartial : Bool := false
  staleVersionMode : Bool := false
  deriving DecidableEq

structure State where
  mockBehavior : Behavior
  /-- a plain object; that the key `__proto__` makes no member of one is left out -/
  hcmBalances : LiveMap String Balance

def getBalanceKey (s : Subject) : String :=
  s.employeeId ++ "_" ++ s.locationId ++ "_" ++ s.leaveType

/-- A balance of nobody yet. -/
def emptyBalance (s : Subject) : Balance := ⟨s, 0, 0, "v1"⟩

/-- The balances the server starts with. -/
def State.initial : State where
  mockBehavior := {}
  hcmBalances :=
    (LiveMap.empty.set "EMP123_LOC1_VACATION" ⟨⟨"EMP123", "LOC1", "VACATION"⟩, 15, 15, "v1"⟩).set
      "EMP123_LOC1_SICK" ⟨⟨"EMP123", "LOC1", "SICK"⟩, 10, 10, "v1"⟩

/-- `v${Date.now()}`. -/
def versionAt (now : ℤ) : String := "v" ++ toString now

/-- Both columns change by `days`. -/
def Balance.credit (record : Balance) (days : ℚ) (version : String) : Balance :=
  { record with
    totalBalance := record.totalBalance + days
    availableBalance := record.availableBalance + days
    version := version }

/-- `ensureBalanceRecord`: the record, and the balances with it. -/
def ensureBalanceRecord (s : Subject) (balances : LiveMap String Balance) :
    Balance × LiveMap String Balance :=
  match balances.get (getBalanceKey s) with
  | some record => (record, balances)
  | none => (emptyBalance s, balances.set (getBalanceKey s) (emptyBalance s))

/-! ## The API -/

inductive ApiRequest where
  /-- `GET /hcm/balance/:employeeId/:locationId/:leaveType` -/
  | getBalance (subject : Subject)
  /-- `POST /hcm/validate` -/
  | validate (subject : Subject) (daysRequested : ℚ)
  /-- `POST /hcm/time-off` -/
  | timeOff (subject : Subject) (daysRequested : Option ℚ) (referenceId : Option String)
  /-- `PUT /hcm/balance` -/
  | putBalance (subject : Subject) (daysRequested : Option ℚ) (action : String)
  /-- `GET /hcm/batch-sync` -/
  | batchSync

inductive Reply where
  | balance (record : Balance)
  | validation (valid : Bool) (hcmBalance : ℚ) (message : Option String)
  | filed (referenceId : Option String) (updatedBalance : ℚ) (version : String)
  | mutated (updatedBalance : ℚ) (version : String)
  | records (records : List Balance)
  | behavior (mockBehavior : Behavior)
  | error (status : ℕ) (error : String) (message : Option String)
  deriving DecidableEq

/-- The status is one of success. -/
def Reply.succeeds : Reply → Bool
  | .error _ _ _ => false
  | _ => true

def insufficientBalance (days available : ℚ) : Reply :=
  .error 422 "INSUFFICIENT_BALANCE" (some ("Requested " ++ numberText days ++ " but only "
    ++ numberText available ++ " available in HCM"))

/-- `POST /hcm/validate`. -/
def validate (override : Option ValidationOverride) (record : Option Balance)
    (daysRequested : ℚ) : Reply :=
  let hcmBalance := (record.map Balance.availableBalance).getD 0
  match override with
  | some .alwaysInvalid => .validation false hcmBalance (some "Forced invalid validation response")
  | some .alwaysValid => .validation true hcmBalance (some "Forced valid validation response")
  | none =>
      match record with
      | none => .validation false 0 (some "Insufficient balance in HCM system")
      | some record =>
          if record.availableBalance < daysRequested then
            .validation false record.availableBalance (some "Insufficient balance in HCM system")
          else .validation true record.availableBalance none

/-- `POST /hcm/time-off`. -/
def timeOff (now : ℤ) (s : State) (subject : Subject) (daysRequested : Option ℚ)
    (referenceId : Option String) : Reply × State :=
  match daysRequested with
  | none =>
      (.error 400 "INVALID_INPUT"
        (some "employeeId, locationId, leaveType, and daysRequested are required"), s)
  | some days =>
      if subject.employeeId = "" ∨ subject.locationId = "" ∨ subject.leaveType = "" then
        (.error 400 "INVALID_INPUT"
          (some "employeeId, locationId, leaveType, and daysRequested are required"), s)
      else if days ≤ 0 then
        (.error 400 "INVALID_DAYS_REQUESTED" (some "daysRequested must be a positive number"), s)
      else
        let (record, balances) := ensureBalanceRecord subject s.hcmBalances
        if record.availableBalance < days then
          (insufficientBalance days record.availableBalance, { s with hcmBalances := balances })
        else
          let record := record.credit (-days) (versionAt now)
          (.filed referenceId record.availableBalance record.version,
            { s with hcmBalances := balances.set (getBalanceKey subject) record })

/-- `PUT /hcm/balance`. The record is made whatever the action is. -/
def putBalance (now : ℤ) (s : State) (subject : Subject) (daysRequested : Option ℚ)
    (action : String) : Reply × State :=
  let (record, balances) := ensureBalanceRecord subject s.hcmBalances
  let days := daysRequested.getD 0
  let version := if s.mockBehavior.staleVersionMode then record.version else versionAt now
  let write (record : Balance) : Reply × State :=
    (.mutated record.availableBalance record.version,
      { s with hcmBalances := balances.set (getBalanceKey subject) record })
  if action = "APPROVE" then
    if record.availableBalance < days then
      (insufficientBalance days record.availableBalance, { s with hcmBalances := balances })
    else write (record.credit (-days) version)
  else if action = "REJECT" then write (record.credit days version)
  else
    (.error 400 "INVALID_ACTION" (some "action must be APPROVE or REJECT"),
      { s with hcmBalances := balances })

/-- `Object.values(hcmBalances)`; no key is an array index. -/
def State.values (s : State) : List Balance := s.hcmBalances.slots.map Slot.value

/-- The elements at the even places. -/
def evenPlaces {α : Type} : List α → List α
  | [] => []
  | [x] => [x]
  | x :: _ :: rest => x :: evenPlaces rest

/-- The routes of the API. -/
def serve (now : ℤ) (s : State) : ApiRequest → Reply × State
  | .getBalance subject =>
      (.balance ((s.hcmBalances.get (getBalanceKey subject)).getD (emptyBalance subject)), s)
  | .validate subject daysRequested =>
      (validate s.mockBehavior.validationOverride (s.hcmBalances.get (getBalanceKey subject))
        daysRequested, s)
  | .timeOff subject daysRequested referenceId => timeOff now s subject daysRequested referenceId
  | .putBalance subject daysRequested action => putBalance now s subject daysRequested action
  | .batchSync =>
      (.records (if s.mockBehavior.batchPartial then evenPlaces s.values else s.values), s)

/-! ## Instability -/

/-- The probabilities the server is started with. -/
structure Instability where
  flakiness : ℚ
  timeout : ℚ

/-- `simulateInstability`: the answer of a request that does not get through, and the
behaviour afterwards. A request that gets through waits, for a forced or simulated timeout
or for the normal latency. -/
def simulateInstability (p : Instability) (random : ℚ) (b : Behavior) : Option Reply × Behavior :=
  match b.forcedFailureMode, b.forcedFailureRemaining with
  | some .timeout, n + 1 => (none, { b with forcedFailureRemaining := n })
  | some .unavailable, n + 1 =>
      (some (.error 503 "Service Unavailable (forced)" none),
        { b with forcedFailureRemaining := n })
  | _, _ =>
      if random < p.timeout then (none, b)
      else if random < p.timeout + p.flakiness then
        (some (.error 503 "Service Unavailable" none), b)
      else (none, b)

/-! ## The admin endpoints -/

/-- A field of a body: absent, or `null`, or a text. -/
abbrev Field := Option (Option String)

inductive AdminRequest where
  | inject (subject : Subject) (totalBalance availableBalance : ℚ)
  | anniversaryRefresh (employeeId locationId leaveType : Option String) (grantDays : Option ℚ)
  | yearRefresh (defaultTotal : Option ℚ)
  /-- the count is what `parseInt` makes of it -/
  | behavior (forcedFailureMode : Field) (forcedFailureCount : Option (Option ℤ))
      (validationOverride : Field) (batchPartial staleVersionMode : Option Bool)
  | resetBehavior

/-- `field && record.field !== field` does not hold. -/
def passes (field : Option String) (value : String) : Bool :=
  match field with
  | none => true
  | some f => f = "" || value = f

/-- The filters of a refresh, on the fields of the record itself. -/
def admits (employeeId locationId leaveType : Option String) (r : Balance) : Bool :=
  passes employeeId r.subject.employeeId && passes locationId r.subject.locationId
    && passes leaveType r.subject.leaveType

/-- Change every record that `p` holds of. -/
def State.refresh (s : State) (p : Balance → Bool) (f : Balance → Balance) : Reply × State :=
  (.records ((s.values.filter p).map f),
    { s with hcmBalances := s.hcmBalances.mapValues fun r => if p r then f r else r })

def failureModeOf : Option String → Option (Option FailureMode)
  | none => some none
  | some t =>
      if t = "503" then some (some .unavailable)
      else if t = "timeout" then some (some .timeout)
      else none

def validationOverrideOf : Option String → Option (Option ValidationOverride)
  | none => some none
  | some t =>
      if t = "always-valid" then some (some .alwaysValid)
      else if t = "always-invalid" then some (some .alwaysInvalid)
      else none

/-- `POST /admin/behavior`. The fields before a refused one have been set. -/
def setBehavior (b : Behavior) (forcedFailureMode : Field)
    (forcedFailureCount : Option (Option ℤ)) (validationOverride : Field)
    (batchPartial staleVersionMode : Option Bool) : Reply × Behavior := Id.run do
  let mut b := b
  if let some mode := forcedFailureMode then
    match failureModeOf mode with
    | none => return (.error 400 "forcedFailureMode must be null, 503, or timeout" none, b)
    | some mode => b := { b with forcedFailureMode := mode }
  if let some count := forcedFailureCount then
    match count with
    | some (.ofNat n) => b := { b with forcedFailureRemaining := n }
    | _ => return (.error 400 "forcedFailureCount must be a non-negative number" none, b)
  if let some override := validationOverride then
    match validationOverrideOf override with
    | none =>
        return (.error 400 "validationOverride must be null, always-valid, or always-invalid" none,
          b)
    | some override => b := { b with validationOverride := override }
  if let some partially := batchPartial then b := { b with batchPartial := partially }
  if let some stale := staleVersionMode then b := { b with staleVersionMode := stale }
  return (.behavior b, b)

/-- The routes of the admin application. -/
def administer (now : ℤ) (s : State) : AdminRequest → Reply × State
  | .inject subject totalBalance availableBalance =>
      let record : Balance := ⟨subject, totalBalance, availableBalance, versionAt now⟩
      (.records [record],
        { s with hcmBalances := s.hcmBalances.set (getBalanceKey subject) record })
  | .anniversaryRefresh employeeId locationId leaveType grantDays =>
      let grant := grantDays.getD 1
      if grant ≤ 0 then (.error 400 "grantDays must be a positive number" none, s)
      else
        s.refresh (admits employeeId locationId leaveType) fun r =>
          r.credit grant (versionAt now)
  | .yearRefresh defaultTotal =>
      let total := defaultTotal.getD 15
      if total < 0 then (.error 400 "defaultTotal must be a non-negative number" none, s)
      else
        s.refresh (fun _ => true) fun r =>
          { r with totalBalance := total, availableBalance := total, version := versionAt now }
  | .behavior mode count override partially stale =>
      let (reply, b) := setBehavior s.mockBehavior mode count override partially stale
      (reply, { s with mockBehavior := b })
  | .resetBehavior => (.behavior {}, { s with mockBehavior := {} })

/-! ## Runs -/

inductive Event where
  | arrives (request : ApiRequest) (random : ℚ)
  /-- the timer of a request that got through has run out -/
  | served (request : ApiRequest) (now : ℤ)
  | admin (request : AdminRequest) (now : ℤ)

/-- One event: the answer that is sent then, and the server afterwards. -/
def react (p : Instability) (s : State) : Event → Option Reply × State
  | .arrives _ random =>
      let (reply, b) := simulateInstability p random s.mockBehavior
      (reply, { s with mockBehavior := b })
  | .served request now =>
      let (reply, s) := serve now s request
      (some reply, s)
  | .admin request now =>
      let (reply, s) := administer now s request
      (some reply, s)

def State.after (p : Instability) (s : State) (e : Event) : State := (react p s e).2

end MockServer

end LeaveLedger
