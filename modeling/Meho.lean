import Meho.Lib.History
import Meho.Json
import Meho.Redaction.ParamNames
import Meho.Approval.Model
import Meho.Approval.Decide
import Meho.Approval.Park
import Meho.Approval.Run
import Meho.Approval.Lifecycle
import Meho.Approval.Exclusive
import Meho.Approval.Guarantees
import Meho.Approval.Refusal
import Meho.Approval.RunInput
import Meho.Approval.SignIn
import Meho.Approval.Faithful
import Meho.Dispatch.Effect
import Meho.Dispatch.HighRisk
import Meho.Policy.Names
import Meho.Policy.Permissions
import Meho.Policy.Grants
import Meho.Policy.Gate
import Meho.Policy.DirectRun
import Meho.Policy.Unattended
import Meho.Approval.Idempotent
import Meho.Lib.Index
import Meho.Composite.Resume
import Meho.Gateway.Queue
import Meho.Lib.JsonText
import Meho.Runner.WorkItem
import Meho.Gateway.Mint
import Meho.Runner.CanonicalText
import Meho.Runner.Executor
import Meho.Runner.Ledger
import Meho.Gateway.Alarm
import Meho.Lib.Versions
import Meho.Policy.GrantWrites
import Meho.Policy.OneGrant
import Meho.Lib.HashChain
import Meho.Runner.EffectLog
import Meho.Gateway.EffectIngest
import Meho.Gateway.EffectOnce
import Meho.Gateway.EffectForward
import Meho.Runner.Spool
import Meho.Lib.Scan
import Meho.Runbook.Template
import Meho.Runbook.Engine
import Meho.Runbook.Runs
import Meho.Runbook.RunOrder
import Meho.Runbook.Tokens
import Meho.Runbook.PublishGate
import Meho.Checks.Runner
import Meho.Lib.Handoff
import Meho.Scheduler.Loop
import Meho.Checks.Schedule
import Meho.Scheduler.Once
import Meho.Checks.SensorEdit
import Meho.Checks.Rollup
import Meho.Checks.HoldTime
import Meho.Checks.Transitions
import Meho.Checks.EdgeOnce
import Meho.Checks.Notify
import Meho.Lib.Cooldown
import Meho.Checks.NoticePlan
import Meho.Checks.Suppression
import Meho.Agent.EndsOnce
import Meho.Events.Delivered
import Meho.Lib.Query
import Meho.Topology.Diff
import Meho.Topology.DiffExact
import Meho.JsonLoads
import Meho.Lib.Base64
import Meho.Lib.Iso8601
import Meho.Topology.TimelineCursor
import Meho.Lib.Keyset
import Meho.Topology.Timeline
import Meho.Topology.TimelineWalk
import Meho.Lib.Levels
import Meho.Topology.Closure
import Meho.Topology.ClosureLevels
import Meho.Topology.ClosureBounded
import Meho.Graph.Rows
import Meho.Lib.Assoc
import Meho.Graph.ScopePlan
import Meho.Graph.ScopePlanExact
import Meho.Graph.Cutover
import Meho.Graph.CutoverSeparates
import Meho.Graph.Refresh
import Meho.Graph.RefreshWrites
import Meho.Graph.RefreshFrame
import Meho.Graph.Annotate
import Meho.Graph.SeedNodes
import Meho.Graph.Writers
import Meho.Graph.Markers
import Meho.Graph.Batches
import Meho.Graph.Consistent
import Meho.Graph.Conflicts
import Meho.Dispatch.InFlight
import Meho.Lib.Calendar
import Meho.Budget.Windows
import Meho.Budget.Buckets
import Meho.Budget.Enforcement
import Meho.Budget.KillSwitch
import Meho.Budget.Transactions
import Meho.Budget.Accounting
import Meho.Results.Admission
import Meho.Results.SlotsKept
import Meho.Results.LeasesKept
import Meho.Announce.Archive
import Meho.Announce.ArchiveNumbers
import Meho.Announce.ArchiveReader
import Meho.Announce.ArchiveComplete
import Meho.Announce.ClaimSteps
import Meho.Announce.ClaimLife
import Meho.Announce.ClaimRuns
import Meho.Retrieval.Search
import Meho.Retrieval.Visible
import Meho.Redaction.AuditCopy
import Meho.Redaction.PolicyReplay
import Meho.JsonDicts
import Meho.Redaction.ParamPaths
import Meho.Redaction.ParamsHash
import Meho.Approval.StoredCall
import Meho.Policy.LevelText
import Meho.Redaction.CopyShows
import Meho.Redaction.PathGlob
import Meho.Redaction.ShadowMode
import Meho.Redaction.Reveal
import Meho.Approval.ExpiryReason
import Meho.Redaction.FieldScan
import Meho.Lib.MarkedText
import Meho.Redaction.FieldSpans
import Meho.Lib.Spans
import Meho.Redaction.RowSpans
import Meho.Runbook.SinglePass
import Meho.Checks.ConfirmationGate
import Meho.Runbook.VerifyGate
import Meho.Bind9.RecordDelete
import Meho.Scheduler.Progress
import Meho.Checks.Evaluate
import Meho.Checks.StrictEvidence
import Meho.Audit.Filters
import Meho.Bind9.PipelineOutput
import Meho.Graph.SnapshotText
import Meho.Ingest.SchemaRefs
import Meho.Topology.Path
import Meho.Audit.Replay
import Meho.Redaction.LowercasedName
import Meho.Lib.Bisect
import Meho.Results.TextParts
import Meho.Results.RowsRecord
import Meho.Audit.QueryPages
import Meho.Approval.Sanctioned
import Meho.Topology.SearchesAgree
import Meho.Runner.Authorised
