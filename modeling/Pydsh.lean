import Pydsh.Bounded.Pruner
import Pydsh.Compaction.Basic
import Pydsh.Compaction.Interleaving
import Pydsh.Compaction.Shadow
import Pydsh.Compaction.Spec
import Pydsh.Lib.Bracket
import Pydsh.Lib.Machine
import Pydsh.Lib.Splice
import Pydsh.Lib.Table
import Pydsh.Message.Blocks
import Pydsh.Message.Payload
import Pydsh.Persistence.RoundTrip
import Pydsh.Persistence.Sqlite
import Pydsh.Persistence.Watermark
import Pydsh.Projection.ColdRead
import Pydsh.Projection.Registry
import Pydsh.Projection.Restore
import Pydsh.Python.Value
import Pydsh.Session.Append
import Pydsh.Session.Events
import Pydsh.Session.Log
import Pydsh.Session.Pairing
import Pydsh.Session.Replay
import Pydsh.Session.Session
import Pydsh.Projection.Cells
import Pydsh.Projection.Exact
import Pydsh.Agent.Answered
import Pydsh.Agent.Drain
import Pydsh.Lib.Dict
import Pydsh.Lib.Serial
import Pydsh.Projection.Cache
import Pydsh.Runtime.Server
import Pydsh.Session.OneLive
import Pydsh.Session.Vocabulary
import Pydsh.Sidecar.Feedback
import Pydsh.Sidecar.Lifetimes
import Pydsh.Sidecar.Memory
import Pydsh.Projection.Within
import Pydsh.Agent.Brackets
import Pydsh.Agent.Outcome
import Pydsh.Agent.Stopping
import Pydsh.Storage.Backends
import Pydsh.Storage.Facade
import Pydsh.Storage.Domain
import Pydsh.Work.Goals
import Pydsh.Governance.Hooks
import Pydsh.Governance.Schedule
import Pydsh.Plan.Mode
import Pydsh.Work.Jobs
import Pydsh.Runtime.Reading
import Pydsh.Runtime.Isolation
import Pydsh.Gateway.Release
import Pydsh.Mcp.Naming
import Pydsh.Mcp.Client
import Pydsh.Mcp.Clients
import Pydsh.Mcp.Http
import Pydsh.Mcp.Offers
import Pydsh.Agent.Unsplit
import Pydsh.Session.BalanceCache
import Pydsh.Compaction.Progress
import Pydsh.Agent.Splices
import Pydsh.Agent.NextStep
import Pydsh.Llm.Routing
import Pydsh.Llm.CallConfig
import Pydsh.Boot.Harness
import Pydsh.Boot.Response
import Pydsh.Runtime.Client
import Pydsh.Projection.Whole
import Pydsh.Llm.Reassembly
import Pydsh.Llm.Service
import Pydsh.Llm.Transport
import Pydsh.Llm.PiAi
import Pydsh.Agent.Conservation
import Pydsh.Bounded.Retention
import Pydsh.Llm.Gate
import Pydsh.Agent.ToolTime
import Pydsh.Message.Tagged
import Pydsh.Llm.TokenMeter
import Pydsh.Runtime.Prompt
import Pydsh.Bounded.Pruned
import Pydsh.Bounded.Results
import Pydsh.Tools.Shell
import Pydsh.Bounded.Spill
import Pydsh.Tools.SpillPolicy
import Pydsh.Prompt.Interpolate
import Pydsh.Prompt.Ordering
import Pydsh.Capability.FileSystem
import Pydsh.Capability.Edit
import Pydsh.Tools.RepeatGuard
import Pydsh.Query.Resolve
import Pydsh.Cancel.Fusing
import Pydsh.Agent.Subagent
import Pydsh.Sidecar.Swapping
import Pydsh.Query.Search
import Pydsh.Query.Agreement
import Pydsh.Work.Transitions
import Pydsh.Work.Arming
import Pydsh.Sidecar.Attachments
import Pydsh.Mcp.Paging
import Pydsh.Storage.Reopen
import Pydsh.Work.Lifecycle
import Pydsh.Capability.Terminal
import Pydsh.Governance.Timers
import Pydsh.Persistence.Checkpoint
import Pydsh.Capability.Output
import Pydsh.Mcp.ToolCall
import Pydsh.Mcp.Reconnect
import Pydsh.Llm.Backoff
import Pydsh.Work.Buffer
import Pydsh.Python.Floats
import Pydsh.Llm.Authorization
import Pydsh.Sidecar.Recall
