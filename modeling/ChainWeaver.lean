import ChainWeaver.Abort
import ChainWeaver.Adapter
import ChainWeaver.Assignment
import ChainWeaver.AuditLaws
import ChainWeaver.CacheTransparency
import ChainWeaver.CandidateFilesLaws
import ChainWeaver.Capability
import ChainWeaver.Checkpoint
import ChainWeaver.Composition
import ChainWeaver.Contracts
import ChainWeaver.ContribLaws
import ChainWeaver.DeadSteps
import ChainWeaver.Decorators
import ChainWeaver.Delivery
import ChainWeaver.DryRun
import ChainWeaver.FaultHarness
import ChainWeaver.FixtureLaws
import ChainWeaver.FlowTool
import ChainWeaver.Fuzz
import ChainWeaver.Gates
import ChainWeaver.Invocations
import ChainWeaver.LaneParity
import ChainWeaver.LangChain
import ChainWeaver.LevelOrder
import ChainWeaver.Lifecycle
import ChainWeaver.LlmProposalsLaws
import ChainWeaver.McpSchema
import ChainWeaver.MetricsLaws
import ChainWeaver.PyExpr
import ChainWeaver.RateLimiter
import ChainWeaver.ReplayLaws
import ChainWeaver.Routing
import ChainWeaver.SafetyMerge
import ChainWeaver.SchemaMapping
import ChainWeaver.ServerErrors
import ChainWeaver.ServiceLaws
import ChainWeaver.Setup
import ChainWeaver.SpanExporter
import ChainWeaver.StatusGuard
import ChainWeaver.Streams
import ChainWeaver.SuggestedFlows
import ChainWeaver.TraceCapture
import ChainWeaver.TraceRedaction
import ChainWeaver.Verdicts
import ChainWeaver.Watch
