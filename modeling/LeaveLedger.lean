import LeaveLedger.Lib.Machine
import LeaveLedger.Lib.Script
import LeaveLedger.Lib.Table
import LeaveLedger.Lib.Calendar
import LeaveLedger.Js.Number
import LeaveLedger.Js.Date
import LeaveLedger.Js.Json
import LeaveLedger.Common.Constants
import LeaveLedger.Common.DateUtil
import LeaveLedger.Common.CalendarDate
import LeaveLedger.Common.HashUtil
import LeaveLedger.Store.Entities
import LeaveLedger.Store.Database
import LeaveLedger.Store.World
import LeaveLedger.Store.Statement
import LeaveLedger.Balance.BalanceService
import LeaveLedger.TimeOff.TimeOffService
import LeaveLedger.Hcm.Http
import LeaveLedger.Hcm.HcmService
import LeaveLedger.Hcm.HcmSyncService
import LeaveLedger.Ledger.Account
import LeaveLedger.Ledger.Movement
import LeaveLedger.Ledger.Invariant
import LeaveLedger.Ledger.Calls
import LeaveLedger.Ledger.Lifecycle
import LeaveLedger.Ledger.Reconciliation
import LeaveLedger.Ledger.BatchRace
import LeaveLedger.Ledger.Growth
import LeaveLedger.Ledger.Booking
import LeaveLedger.Idempotency.Outcome
import LeaveLedger.Idempotency.Pool
import LeaveLedger.Idempotency.AtMostOnce
import LeaveLedger.Idempotency.Replay
import LeaveLedger.Idempotency.Answer
import LeaveLedger.Sync.Scheduling
import LeaveLedger.Sync.Notifiers
import LeaveLedger.Sync.Machine
import LeaveLedger.Sync.Debits
import LeaveLedger.Sync.Commit
import LeaveLedger.Sync.Acknowledged
import LeaveLedger.Common.CircuitBreaker
import LeaveLedger.Circuit.Machine
import LeaveLedger.Circuit.Probe
import LeaveLedger.Circuit.Upstream
import LeaveLedger.TimeOff.CreateLock
import LeaveLedger.TimeOff.LockRuns
import LeaveLedger.Hcm.BatchSync
import LeaveLedger.Batch.SingleFlight
import LeaveLedger.Batch.RecordLoop
import LeaveLedger.Batch.Omitted
import LeaveLedger.Batch.Sequential
import LeaveLedger.Lib.BinaryHeap
import LeaveLedger.Common.PriorityQueue
import LeaveLedger.Common.CustomComparator
import LeaveLedger.Queue.RankedHeap
import LeaveLedger.Queue.Heap
import LeaveLedger.Queue.BoundedList
import LeaveLedger.Queue.Refinement
import LeaveLedger.Queue.Ties
import LeaveLedger.Js.Decimal
import LeaveLedger.Js.JsonText
import LeaveLedger.Lib.HashChain
import LeaveLedger.Common.AuditLedger
import LeaveLedger.Common.AuditHasher
import LeaveLedger.Hcm.MockHcm
import LeaveLedger.Batch.Outcome
import LeaveLedger.Sync.Convergence
import LeaveLedger.Batch.RealTime
import LeaveLedger.Js.Parse
import LeaveLedger.Lib.Paging
import LeaveLedger.TimeOff.ListRequests
import LeaveLedger.Common.IdempotencyManager
import LeaveLedger.Common.RequestDeduplicator
import LeaveLedger.Circuit.Resilience
import LeaveLedger.Hcm.Notifiers
import LeaveLedger.Sync.Judgement
import LeaveLedger.Sync.Drain
import LeaveLedger.TimeOff.DateGuards
import LeaveLedger.Common.Canonical
import LeaveLedger.Js.Coerce
import LeaveLedger.Hcm.BatchPayload
import LeaveLedger.Batch.PayloadRun
import LeaveLedger.Batch.Isolation
import LeaveLedger.Common.LockManager
import LeaveLedger.Common.RateLimiter
import LeaveLedger.Common.TokenBucketLimiter
import LeaveLedger.Js.JsonNumbers
import LeaveLedger.Common.Fingerprint
import LeaveLedger.Lib.LiveMap
import LeaveLedger.Common.DeadLetterQueue
import LeaveLedger.DeadLetter.Pass
import LeaveLedger.DeadLetter.Redrive
import LeaveLedger.Common.EventBus
import LeaveLedger.EventBus.Delivery
import LeaveLedger.EventBus.Absence
import LeaveLedger.EventBus.Unsubscribe
import LeaveLedger.EventBus.Once
import LeaveLedger.EventBus.History
import LeaveLedger.EventBus.LateSubscriber
import LeaveLedger.Js.DateFields
import LeaveLedger.Js.DateParse
import LeaveLedger.Common.UTCDate
import LeaveLedger.Common.WorkingDays
import LeaveLedger.Common.DateRangeValidator
import LeaveLedger.Common.CircuitBreakerState
import LeaveLedger.Circuit.Agreement
import LeaveLedger.Common.Traceparent
import LeaveLedger.Lib.Samples
import LeaveLedger.Common.MetricsRegistry
import LeaveLedger.Transactions.Serializable
import LeaveLedger.Balance.BalanceReads
import LeaveLedger.Lib.Transcript
import LeaveLedger.Lib.ScriptErrors
import LeaveLedger.TimeOff.DriverErrors
import LeaveLedger.Book.Durability
import LeaveLedger.Lib.ScriptFrames
import LeaveLedger.Lib.Versions
import LeaveLedger.Book.ErrorTable
import LeaveLedger.Book.Isolation
import LeaveLedger.Transactions.Versions
import LeaveLedger.Batch.Discrepancy
import LeaveLedger.Lib.Accounts
import LeaveLedger.Queue.Conservation
import LeaveLedger.DeadLetter.Retention
import LeaveLedger.DeadLetter.Statistics
import LeaveLedger.Hcm.MockServer
import LeaveLedger.Hcm.MockAccounts
import LeaveLedger.Hcm.MockRefinement
import LeaveLedger.Sync.HcmAccounts
import LeaveLedger.Batch.SyncLogs
import LeaveLedger.Lib.Attempts
import LeaveLedger.Common.Retry
