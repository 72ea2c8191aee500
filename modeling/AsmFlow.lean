import AsmFlow.Library.Runs
import AsmFlow.Library.FirstBest
import AsmFlow.Library.Slots
import AsmFlow.Library.Logs
import AsmFlow.Library.Framing
import AsmFlow.Library.Chunked
import AsmFlow.Machine.Word
import AsmFlow.Machine.Status
import AsmFlow.Config.Snapshot
import AsmFlow.Memory.Buffer
import AsmFlow.Http.Outbox
import AsmFlow.Http.Response
import AsmFlow.Http.Conn
import AsmFlow.Routing.Health
import AsmFlow.Routing.Circuit
import AsmFlow.Routing.Backoff
import AsmFlow.Routing.Probes
import AsmFlow.Routing.Table
import AsmFlow.Routing.Select
import AsmFlow.Routing.Walk
import AsmFlow.Routing.Oracle
import AsmFlow.Routing.Parity
import AsmFlow.Providers.Error
import AsmFlow.Providers.Exchange
import AsmFlow.Providers.Engine
import AsmFlow.Providers.Steps
import AsmFlow.Providers.Conservation
import AsmFlow.Providers.Sessions
import AsmFlow.Providers.Fallback
import AsmFlow.Providers.Answer
import AsmFlow.Providers.Verdicts
import AsmFlow.Providers.Sse
import AsmFlow.Providers.Relay
import AsmFlow.Providers.Limits
import AsmFlow.Http.Commit
import AsmFlow.Library.Transducer
import AsmFlow.Http.Endpoints
import AsmFlow.Http.Parse
import AsmFlow.Http.Feed
import AsmFlow.Http.Incremental
import AsmFlow.Http.Frames
import AsmFlow.Http.Bytewise
import AsmFlow.Http.Fragments
import AsmFlow.Http.Slot
import AsmFlow.Http.Events
import AsmFlow.Http.Drain
import AsmFlow.Http.Arming
import AsmFlow.Http.Shutdown
import AsmFlow.Core.Id
import AsmFlow.Http.Moves
import AsmFlow.Http.Identity
import AsmFlow.Http.Credentials
import AsmFlow.Http.Collection
import AsmFlow.Http.Policy
import AsmFlow.Http.Ceiling
import AsmFlow.Http.Requests
import AsmFlow.Http.Sweep
import AsmFlow.Library.Joined
import AsmFlow.Http.Tally
import AsmFlow.Http.Sections
import AsmFlow.Http.Oversize
import AsmFlow.Platform.Loop
import AsmFlow.Library.Windows
import AsmFlow.Mcp.Restart
import AsmFlow.Mcp.Child
import AsmFlow.Mcp.Rpc
import AsmFlow.Mcp.Stdout
import AsmFlow.Mcp.Failure
import AsmFlow.Library.Cells
import AsmFlow.Library.Lines
import AsmFlow.Mcp.Framing
import AsmFlow.Mcp.Stdin
import AsmFlow.Control.Operator
import AsmFlow.Json.Utf8
import AsmFlow.Json.WellFormed
import AsmFlow.Json.CodePoints
import AsmFlow.Library.JsonStrings
import AsmFlow.Json.Strings
import AsmFlow.Control.Conn
import AsmFlow.Control.Dispatch
import AsmFlow.Control.Draining
import AsmFlow.Library.Tables
import AsmFlow.Library.Transactions
import AsmFlow.Repo.Handle
import AsmFlow.Repo.Migrations
import AsmFlow.Repo.Projection
import AsmFlow.Repo.Transactions
import AsmFlow.Json.Depth
import AsmFlow.Config.Collections
import AsmFlow.Config.Parse
import AsmFlow.Tui.Controls
import AsmFlow.Tui.Rollback
import AsmFlow.Mcp.HttpOwnership
import AsmFlow.Mcp.HttpHeaders
import AsmFlow.Mcp.HttpStream
import AsmFlow.Library.Greedy
import AsmFlow.Tui.Layout
import AsmFlow.Config.Read
import AsmFlow.Config.Plaintext
import AsmFlow.Config.Url
import AsmFlow.Config.Paths
import AsmFlow.Tui.Text
import AsmFlow.Tui.Pool
import AsmFlow.Tui.Render
import AsmFlow.Tui.Present
import AsmFlow.Http.Address
import AsmFlow.Memory.Arena
import AsmFlow.Mcp.Stderr
import AsmFlow.Mcp.Environment
import AsmFlow.Mcp.HttpEvents
import AsmFlow.Routing.Latency
import AsmFlow.Core.Ulid
import AsmFlow.Providers.Adapter
import AsmFlow.Control.LineSplit
import AsmFlow.Control.ClientFrame
import AsmFlow.Control.Correlation
import AsmFlow.Repo.BackupOutcome
import AsmFlow.Providers.Headers
import AsmFlow.Mcp.Accounts
import AsmFlow.Mcp.Negotiation
import AsmFlow.Mcp.Batches
import AsmFlow.Mcp.Chronicle
import AsmFlow.Mcp.Correlation
import AsmFlow.Library.Unwinding
import AsmFlow.Platform.Daemon
