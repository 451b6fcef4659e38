import GroundedOps.Lib.Machine
import GroundedOps.Lib.Process
import GroundedOps.Lib.Hoare
import GroundedOps.Lib.Cells
import GroundedOps.Lib.Dict
import GroundedOps.Lib.Lists
import GroundedOps.Lib.Revision
import GroundedOps.Lib.Table
import GroundedOps.Lib.Purge
import GroundedOps.Lib.Register
import GroundedOps.Lib.Separator
import GroundedOps.Lib.Tiling
import GroundedOps.Lib.ReadCommitted
import GroundedOps.Spec.Breaker
import GroundedOps.Proof.Breaker
import GroundedOps.Proof.OpenWindow
import GroundedOps.Spec.Text
import GroundedOps.Spec.Policy
import GroundedOps.Proof.Policy
import GroundedOps.Proof.Reads
import GroundedOps.Spec.Retrieval
import GroundedOps.Proof.Retrieval
import GroundedOps.Spec.Answering
import GroundedOps.Proof.Answering
import GroundedOps.Spec.Cache
import GroundedOps.Proof.Cache
import GroundedOps.Spec.Ask
import GroundedOps.Proof.Ask
import GroundedOps.Proof.Session
import GroundedOps.Spec.Investigation
import GroundedOps.Spec.Auth
import GroundedOps.Spec.Tools
import GroundedOps.Proof.Tools
import GroundedOps.Spec.Search
import GroundedOps.Proof.Ranking
import GroundedOps.Spec.Workflow
import GroundedOps.Proof.Workflow
import GroundedOps.Proof.Findings
import GroundedOps.Proof.Budgets
import GroundedOps.Spec.InvestigationStore
import GroundedOps.Proof.InvestigationStore
import GroundedOps.Spec.Cancellation
import GroundedOps.Proof.Cancellation
import GroundedOps.Spec.Execution
import GroundedOps.Proof.Progress
import GroundedOps.Proof.Success
import GroundedOps.Proof.Accounting
import GroundedOps.Spec.Quotas
import GroundedOps.Proof.Quotas
import GroundedOps.Spec.QuotaBackends
import GroundedOps.Proof.QuotaRates
import GroundedOps.Proof.QuotaBackends
import GroundedOps.Proof.Isolation
import GroundedOps.Spec.Ingestion
import GroundedOps.Spec.Database
import GroundedOps.Spec.IndexWriter
import GroundedOps.Spec.World
import GroundedOps.Spec.Pipeline
import GroundedOps.Spec.Repository
import GroundedOps.Spec.Worker
import GroundedOps.Proof.Database
import GroundedOps.Proof.World
import GroundedOps.Proof.Pipeline
import GroundedOps.Spec.Parsing
import GroundedOps.Proof.Parsing
import GroundedOps.Proof.Submission
import GroundedOps.Proof.Canonical
import GroundedOps.Proof.Promotion
import GroundedOps.Proof.Worker
import GroundedOps.Proof.Deliveries
import GroundedOps.Proof.Consistency
import GroundedOps.Proof.Effects
import GroundedOps.Proof.Agreement
import GroundedOps.Proof.IndexWriter
import GroundedOps.Spec.Markdown
import GroundedOps.Proof.Scans
import GroundedOps.Spec.Transactions
import GroundedOps.Proof.Transactions
import GroundedOps.Spec.IndexCalls
import GroundedOps.Proof.IndexCalls
import GroundedOps.Spec.Rebuild
import GroundedOps.Proof.Rebuild
import GroundedOps.Proof.Projection
import GroundedOps.Proof.Artifacts
import GroundedOps.Proof.Stages
import GroundedOps.Spec.Lifecycle
import GroundedOps.Proof.Upkeep
import GroundedOps.Proof.Lifecycle
import GroundedOps.Spec.Replay
import GroundedOps.Proof.Replay
import GroundedOps.Proof.Currency
import GroundedOps.Proof.PolicyReach
import GroundedOps.Proof.Restore
import GroundedOps.Proof.FailureFree
import GroundedOps.Proof.Retries
import GroundedOps.Proof.Fences
import GroundedOps.Proof.TokenBounds
import GroundedOps.Proof.Packing
import GroundedOps.Proof.Deltas
import GroundedOps.Proof.Sequential
import GroundedOps.Proof.HybridPages
import GroundedOps.Proof.Stream
import GroundedOps.Proof.ReadAudit
import GroundedOps.Lib.Runs
import GroundedOps.Proof.Verification
import GroundedOps.Proof.Words
import GroundedOps.Proof.Columns
import GroundedOps.Proof.Bulk
import GroundedOps.Proof.PromotionAudit
import GroundedOps.Lib.JsonText
import GroundedOps.Spec.Wire
import GroundedOps.Proof.Wire
import GroundedOps.Spec.Reranker
import GroundedOps.Proof.Reranker
import GroundedOps.Lib.Discount
import GroundedOps.Spec.Benchmark
import GroundedOps.Proof.Benchmark
import GroundedOps.Proof.Mirror
import GroundedOps.Proof.Telemetry
import GroundedOps.Lib.Generators
import GroundedOps.Spec.Telemetry
import GroundedOps.Lib.Batches
import GroundedOps.Proof.Embedding
import GroundedOps.Spec.Audit
import GroundedOps.Proof.Audit
import GroundedOps.Proof.AuditStores
import GroundedOps.Proof.LogRules
import GroundedOps.Proof.ReadTrail
import GroundedOps.Spec.PolicyRead
import GroundedOps.Proof.PolicyRead
import GroundedOps.Proof.Backing
import GroundedOps.Proof.Deletion
import GroundedOps.Proof.Exposure
import GroundedOps.Lib.Archive
import GroundedOps.Spec.Service
import GroundedOps.Proof.Service
import GroundedOps.Proof.Idempotency
import GroundedOps.Lib.Backlog
import GroundedOps.Proof.Recovery
import GroundedOps.Spec.ObjectStore
import GroundedOps.Proof.ObjectStore
import GroundedOps.Spec.Routes
import GroundedOps.Proof.Routes
import GroundedOps.Spec.Generation
import GroundedOps.Proof.Generation
import GroundedOps.Lib.Frame
import GroundedOps.Proof.Provenance
import GroundedOps.Proof.Quotations
import GroundedOps.Proof.Citations
