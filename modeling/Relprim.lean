import Relprim.Library.Runs
import Relprim.Library.Dictionary
import Relprim.Library.Interruptible
import Relprim.Library.Text
import Relprim.Library.Fallible
import Relprim.Library.Json
import Relprim.BreakerProbes
import Relprim.BreakerOpening
import Relprim.BreakerAccounting
import Relprim.IdempotencyOwners
import Relprim.IdempotencyRelease
import Relprim.IdempotencyReplay
import Relprim.IdempotencyProjection
import Relprim.IdempotencyAnswers
import Relprim.IdempotencyProgress
import Relprim.IdempotentRuns
import Relprim.OperationAbort
import Relprim.ReportAgreement
import Relprim.OperationReference
import Relprim.EventGrammar
import Relprim.RetryLoops
import Relprim.HintContainment
import Relprim.FallbackAccounting
import Relprim.PayloadContract
import Relprim.Library.JsonRoundTrip
import Relprim.Library.Calendar
import Relprim.SQLiteEvents
import Relprim.Library.Keyset
import Relprim.SQLiteRows
import Relprim.SQLiteHistory
import Relprim.SQLiteRoundTrip
import Relprim.SQLitePagination
import Relprim.Library.CalendarOrder
import Relprim.SQLiteRetention
import Relprim.InternalChecks
import Relprim.BackoffFormula
import Relprim.UntimedExecution
import Relprim.Decorators
import Relprim.RetriesShortcut
import Relprim.Library.Transactions
import Relprim.SQLiteSchema
import Relprim.SQLiteStartup
import Relprim.OperationBudget
import Relprim.AuditTrail
import Relprim.BreakerOutage
import Relprim.OperationBreaker
import Relprim.OpenTelemetry
import Relprim.ResilientOptions
import Relprim.Library.IsoFormat
import Relprim.ReportDicts
import Relprim.ReportTiming
