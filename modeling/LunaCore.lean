import LunaCore.Schemes.Machine
import LunaCore.Schemes.Channel
import LunaCore.Schemes.Keyed
import LunaCore.Schemes.Parties
import LunaCore.Schemes.Walks
import LunaCore.Schemes.Slots
import LunaCore.Schemes.Tally
import LunaCore.Schemes.Expiring
import LunaCore.Values.Json
import LunaCore.Chat.Message
import LunaCore.Chat.Compaction
import LunaCore.Events.Emitter
import LunaCore.Events.Feed
import LunaCore.Events.Polling
import LunaCore.Stream.Turn
import LunaCore.Stream.Cache
import LunaCore.Stream.Websocket
import LunaCore.Stream.Manager
import LunaCore.Providers.StreamedTurn
import LunaCore.Providers.Anthropic
import LunaCore.Providers.LeakedTranscript
import LunaCore.Providers.ClaudeCli
import LunaCore.Flow.Definition
import LunaCore.Flow.Runner
import LunaCore.Flow.Resumption
import LunaCore.Flow.Supersteps
import LunaCore.Flow.TemplatePaths
import LunaCore.Flow.NodeConfig
import LunaCore.Providers.MediaLabels
import LunaCore.Flow.AgentContext
import LunaCore.Flow.AbortSignal
import LunaCore.Flow.Validation
import LunaCore.Flow.Configuration
import LunaCore.Flow.ResumeRace
import LunaCore.Flow.Status
import LunaCore.Flow.TriggerIdentity
import LunaCore.Flow.Clearing
import LunaCore.Flow.ScheduleOwners
import LunaCore.Flow.Scheduling
import LunaCore.Engine.Tools
import LunaCore.Engine.ToolApproval
import LunaCore.Engine.AgentRunner
import LunaCore.Engine.Dispatch
import LunaCore.Chat.Transcript
import LunaCore.Engine.ChatRunner
import LunaCore.Engine.Decisions
import LunaCore.Engine.Pairing
import LunaCore.Engine.History
import LunaCore.Engine.Labels
import LunaCore.Engine.Terminal
import LunaCore.Engine.Handoff
import LunaCore.Mcp.Builder
import LunaCore.Mcp.SharedNames
import LunaCore.Connectors.OAuth2
import LunaCore.Engine.Interruption
import LunaCore.Engine.Promotion
import LunaCore.Services.TurnLock
import LunaCore.Services.ActiveTurns
import LunaCore.Auth.RefreshTokens
import LunaCore.Auth.Verification
import LunaCore.Llm.RateLimit
import LunaCore.Services.Scratchpad
import LunaCore.Chat.AutoTitle
import LunaCore.Flow.Templates
import LunaCore.Providers.AnthropicUsage
import LunaCore.Connectors.Router
import LunaCore.Flow.Rendering
import LunaCore.Services.Preview
import LunaCore.Flow.RequiredSources
import LunaCore.Flow.Conditions
import LunaCore.Flow.Inputs
import LunaCore.Flow.AgentYield
import LunaCore.Flow.ScratchpadIterations
import LunaCore.Flow.AbortCascade
import LunaCore.Schemes.Neighbours
import LunaCore.Flow.AgentHistory
import LunaCore.Schemes.Fallible
import LunaCore.Schemes.Scan
import LunaCore.Values.Strings
import LunaCore.Connectors.Placeholders
import LunaCore.Connectors.Requests
import LunaCore.Connectors.Placement
import LunaCore.Connectors.InputSchema
import LunaCore.Connectors.Credentials
import LunaCore.Schemes.References
import LunaCore.Connectors.UrlStructure
import LunaCore.Schemes.Terminating
import LunaCore.Connectors.Tokens
import LunaCore.Connectors.Execution
import LunaCore.Connectors.Rotation
import LunaCore.Connectors.Outcomes
import LunaCore.Schemes.Splice
import LunaCore.Dedup.CallContextChecker
import LunaCore.Services.ScratchpadStore
import LunaCore.Mcp.StashRecords
import LunaCore.Mcp.RecordIds
import LunaCore.Schemes.Pieces
import LunaCore.Providers.StdoutLines
import LunaCore.Schemes.Joined
import LunaCore.Storage.Local
import LunaCore.Engine.Invocation
import LunaCore.Services.ToolAssignment
import LunaCore.Schemes.Wildcards
import LunaCore.Services.Purposes
import LunaCore.Services.Charges
import LunaCore.Connectors.Patching
import LunaCore.Services.Dictation
import LunaCore.Schemes.Marked
import LunaCore.Providers.PromptTranscript
import LunaCore.Schemes.Filing
import LunaCore.Services.Pricing
import LunaCore.Services.PublishedRates
import LunaCore.Schemes.Sweeps
import LunaCore.Providers.LeakGuard
import LunaCore.Providers.StreamAccumulator
import LunaCore.Providers.NativeReplay
import LunaCore.Stream.IterationFilter
import LunaCore.Flow.RunState
import LunaCore.Flow.RunInputs
import LunaCore.Flow.Rebuilding
import LunaCore.Schemes.Replies
import LunaCore.Providers.Wire
import LunaCore.Schemes.Grouping
import LunaCore.Services.UsageReport
import LunaCore.Schemes.Keyspace
import LunaCore.Services.ScratchpadKeys
import LunaCore.Engine.Approvals
import LunaCore.Schemes.Scoped
import LunaCore.Stream.IterationTags
import LunaCore.Services.Attribution
import LunaCore.Schemes.Paging
import LunaCore.Services.Conversations
import LunaCore.Storage.Blobs
import LunaCore.Schemes.Stamped
import LunaCore.Llm.Router
import LunaCore.Schemes.Provenance
import LunaCore.Auth.AccessTokens
import LunaCore.Engine.Routing
import LunaCore.Mcp.Client
import LunaCore.Engine.Delivery
import LunaCore.Providers.GenericTurn
import LunaCore.Providers.GenericAnswer
