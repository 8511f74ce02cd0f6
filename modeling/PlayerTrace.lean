import PlayerTrace.Accounting
import PlayerTrace.Admitting
import PlayerTrace.Basic
import PlayerTrace.Boundary
import PlayerTrace.Client.Admission
import PlayerTrace.Client.Consent
import PlayerTrace.Client.Lifecycle
import PlayerTrace.Config
import PlayerTrace.Control.Admissions
import PlayerTrace.Control.Barriers
import PlayerTrace.Control.Calls
import PlayerTrace.Control.Consented
import PlayerTrace.Control.Exits
import PlayerTrace.Control.Flow
import PlayerTrace.Control.Passes
import PlayerTrace.Control.Positions
import PlayerTrace.Control.Producers
import PlayerTrace.Control.Returns
import PlayerTrace.Control.Turns
import PlayerTrace.Custody.Capacity
import PlayerTrace.Custody.Cleared
import PlayerTrace.Custody.Consent
import PlayerTrace.Custody.Delivery
import PlayerTrace.Custody.Ledger
import PlayerTrace.Custody.Machine
import PlayerTrace.Custody.Order
import PlayerTrace.Custody.Sequence
import PlayerTrace.Custody.Spent
import PlayerTrace.Custody.Undisturbed
import PlayerTrace.Draining
import PlayerTrace.Events.Json
import PlayerTrace.Events.Timestamp
import PlayerTrace.Events.Utf8
import PlayerTrace.Events.Validator
import PlayerTrace.FaultFree
import PlayerTrace.FileSink.Durable
import PlayerTrace.FileSink.Existing
import PlayerTrace.FileSink.Model
import PlayerTrace.FileSink.Output
import PlayerTrace.FileSink.Scan
import PlayerTrace.FileSink.Spec
import PlayerTrace.Flush
import PlayerTrace.Json.Escape
import PlayerTrace.Json.Grammar
import PlayerTrace.Json.Lexer
import PlayerTrace.Json.Library
import PlayerTrace.Json.Numbers
import PlayerTrace.Json.Parser
import PlayerTrace.Json.Reading
import PlayerTrace.Json.RoundTrip
import PlayerTrace.Json.Serializer
import PlayerTrace.Json.Value
import PlayerTrace.Laps
import PlayerTrace.Legible
import PlayerTrace.Lib.Blocks
import PlayerTrace.Lib.Calendar
import PlayerTrace.Lib.Claims
import PlayerTrace.Lib.Decimal
import PlayerTrace.Lib.Lines
import PlayerTrace.Lib.Loop
import PlayerTrace.Lib.Machine
import PlayerTrace.Lib.Monitor
import PlayerTrace.Lib.OrderedMap
import PlayerTrace.Lib.Parens
import PlayerTrace.Lib.Progress
import PlayerTrace.Lib.Signed
import PlayerTrace.Lib.SqlText
import PlayerTrace.Lib.Stdio
import PlayerTrace.Lib.Transaction
import PlayerTrace.Lib.Utf8
import PlayerTrace.Lib.Utf8Table
import PlayerTrace.Lifetimes.Duplicates
import PlayerTrace.Lifetimes.Marker
import PlayerTrace.Lifetimes.Order
import PlayerTrace.Lifetimes.Outlet
import PlayerTrace.Lifetimes.World
import PlayerTrace.Paths
import PlayerTrace.Progress
import PlayerTrace.Queue
import PlayerTrace.Refine.Client
import PlayerTrace.Refine.Worker
import PlayerTrace.Revocation
import PlayerTrace.Session
import PlayerTrace.Sessions
import PlayerTrace.Shutdown
import PlayerTrace.State
import PlayerTrace.Stopping
import PlayerTrace.Store.Acknowledge
import PlayerTrace.Store.Atomic
import PlayerTrace.Store.Calm
import PlayerTrace.Store.Checks
import PlayerTrace.Store.Constraint
import PlayerTrace.Store.Noise
import PlayerTrace.Store.Ops
import PlayerTrace.Store.Reopen
import PlayerTrace.Store.Schema
import PlayerTrace.Store.Spec
import PlayerTrace.Store.Table
import PlayerTrace.System
import PlayerTrace.Terminal
import PlayerTrace.Termination
import PlayerTrace.Tokens
import PlayerTrace.Vetted
import PlayerTrace.Waking
import PlayerTrace.Withdrawn
import PlayerTrace.Worker
