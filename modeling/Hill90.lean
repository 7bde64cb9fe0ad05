import Hill90.Foundation.Machine
import Hill90.Foundation.Program
import Hill90.Foundation.Interleaving
import Hill90.Chat.Record
import Hill90.Chat.Text
import Hill90.Chat.Statement
import Hill90.Chat.Dispatch
import Hill90.Chat.Callback
import Hill90.Chat.Routes
import Hill90.Chat.Server
import Hill90.Chat.Effect
import Hill90.Chat.Conduct
import Hill90.Chat.Finality
import Hill90.Chat.Closing
import Hill90.Chat.OpenReply
import Hill90.Foundation.Branching
import Hill90.Chat.Duty
import Hill90.Chat.Lineage
import Hill90.Chat.Chain
import Hill90.Foundation.Ledger
import Hill90.Stream.Connection
import Hill90.Stream.Feed
import Hill90.Stream.Completeness
import Hill90.Models.Record
import Hill90.Models.Resolution
import Hill90.Foundation.AdvisoryLock
import Hill90.Workflows.Lock
import Hill90.Workflows.Record
import Hill90.Workflows.Statement
import Hill90.Workflows.Scheduler
import Hill90.Foundation.Play
import Hill90.Workflows.Batch
import Hill90.Workflows.Entry
import Hill90.Workflows.Doors
import Hill90.Workflows.Routes
import Hill90.Workflows.Schedule
import Hill90.Models.Statement
import Hill90.Models.Routes
import Hill90.Models.Wiring
import Hill90.Foundation.Slots
import Hill90.Chat.Cycle
import Hill90.Chat.Completion
import Hill90.Chat.Shape
import Hill90.Chat.Access
import Hill90.Chat.Contact
import Hill90.Chat.Removal
import Hill90.Agents.Record
import Hill90.Agents.Statement
import Hill90.Agents.Routes
import Hill90.Foundation.Serial
import Hill90.Agents.Token
import Hill90.Agents.Limits
import Hill90.Agents.Leftover
import Hill90.Agents.Reconcile
import Hill90.Agents.Sighting
import Hill90.Agents.Uptime
import Hill90.Models.OwnerCache
import Hill90.Policies.Record
import Hill90.Policies.Statement
import Hill90.Policies.Routes
import Hill90.Policies.Fallback
import Hill90.Policies.Listing
import Hill90.Skills.Record
import Hill90.Skills.Statement
import Hill90.Skills.Routes
import Hill90.Skills.Gate
import Hill90.Skills.Effect
import Hill90.Skills.Escalation
import Hill90.Skills.Merging
import Hill90.Skills.Reading
import Hill90.Skills.Owing
import Hill90.Skills.Following
import Hill90.Router.Record
import Hill90.Router.Statement
import Hill90.Router.Routes
import Hill90.Router.Conduct
import Hill90.Foundation.Trail
import Hill90.Foundation.Recorded
import Hill90.Router.Lasting
import Hill90.Foundation.Fate
import Hill90.Foundation.Joint
import Hill90.Router.Creation
import Hill90.Router.Charging
import Hill90.Router.Agreement
import Hill90.Router.Narrowing
import Hill90.Router.Revocation
import Hill90.Router.Target
import Hill90.Foundation.Quota
import Hill90.Foundation.Window
import Hill90.Router.Rate
import Hill90.View.Screen
import Hill90.Stream.Correlation
import Hill90.Terminal.Session
import Hill90.Router.Gaps
import Hill90.Agentbox.Policy
import Hill90.Agentbox.Authority
import Hill90.Agentbox.Address
import Hill90.Agentbox.Tools
import Hill90.Agentbox.Advertised
import Hill90.Agentbox.Commands
import Hill90.Agentbox.Request
import Hill90.Knowledge.Fetcher
import Hill90.Knowledge.Pinning
import Hill90.Agents.Rotation
import Hill90.Agents.Renewal
import Hill90.Knowledge.Revocation
import Hill90.Knowledge.Withdrawal
import Hill90.Foundation.Pairs
import Hill90.View.Proxy
import Hill90.Knowledge.Frontmatter
import Hill90.Knowledge.Wrapping
import Hill90.Knowledge.Store
import Hill90.Knowledge.Saving
import Hill90.Knowledge.Journal
import Hill90.Knowledge.Sync
import Hill90.Knowledge.Sweep
import Hill90.Agentbox.TerminalLog
import Hill90.Agentbox.ToolLoop
import Hill90.Knowledge.Chunker
import Hill90.Knowledge.Shared
import Hill90.Knowledge.Ingest
import Hill90.Knowledge.Scope
import Hill90.Foundation.Utf8
import Hill90.Docker.Demux
import Hill90.Models.Validation
import Hill90.Agents.Environment
import Hill90.Foundation.Sorting
import Hill90.Foundation.Keyset
import Hill90.Events.Value
import Hill90.Events.Merge
import Hill90.Events.Follow
import Hill90.Events.Inference
import Hill90.Foundation.Aftermath
import Hill90.Skills.Atomic
import Hill90.Chat.Orphan
import Hill90.Skills.Locality
import Hill90.Skills.Roundtrip
import Hill90.Router.Waiting
import Hill90.Router.Denials
import Hill90.Router.Endings
import Hill90.Knowledge.Exchange
import Hill90.Agentbox.Delivered
import Hill90.Agentbox.Transcript
import Hill90.Router.Tee
import Hill90.Docker.Strip
import Hill90.Agentbox.Visible
import Hill90.Router.Tally
import Hill90.Foundation.Segments
import Hill90.Foundation.Base64
import Hill90.Foundation.Pieces
import Hill90.Docker.Bounded
import Hill90.Terminal.Relay
import Hill90.Agentbox.Paths
import Hill90.Agentbox.Workspace
import Hill90.Agentbox.Spawn
import Hill90.Agentbox.PtyShell
import Hill90.Agentbox.TerminalOutput
import Hill90.Agentbox.Execution
import Hill90.Knowledge.Canonical
import Hill90.Knowledge.Context
import Hill90.Foundation.Newest
import Hill90.View.Timeline
import Hill90.Foundation.FileTree
import Hill90.Knowledge.Coexist
import Hill90.Knowledge.Embedding
import Hill90.Foundation.Backlog
import Hill90.Knowledge.Backfill
import Hill90.Knowledge.Drawn
import Hill90.Foundation.UnionFind
import Hill90.View.Groups
import Hill90.Knowledge.Lossless
import Hill90.View.XTerminal
import Hill90.Knowledge.Sizes
import Hill90.View.History
import Hill90.View.Reach
import Hill90.Foundation.Runs
import Hill90.Foundation.Alarm
import Hill90.Boot.Migrate
import Hill90.Agents.Webhooks
import Hill90.Discord.Chunks
import Hill90.View.Segments
import Hill90.Chat.JournalGaps
import Hill90.Agents.ToolInstalls
import Hill90.Knowledge.Tasks
import Hill90.Vault.Secrets
