import ComplyLayer.Api.Columns
import ComplyLayer.Api.Management
import ComplyLayer.Api.Worker
import ComplyLayer.Audit.Jsonb
import ComplyLayer.Backtest.Impact
import ComplyLayer.Backtest.Replay
import ComplyLayer.Dashboard.Builder
import ComplyLayer.Dashboard.Diff
import ComplyLayer.Dashboard.Throttle
import ComplyLayer.Dsl.Grammar
import ComplyLayer.Dsl.Reached
import ComplyLayer.Dsl.Related
import ComplyLayer.Dsl.Structured
import ComplyLayer.Dsl.Tokenizer
import ComplyLayer.Engine.Cache
import ComplyLayer.Engine.Watcher
import ComplyLayer.Rules.Concurrency
import ComplyLayer.Rules.Publishing
import ComplyLayer.Rules.Records
import ComplyLayer.Rules.Statements
import ComplyLayer.Sdk.Node
import ComplyLayer.Tenancy.Scope
import ComplyLayer.Theory.Interleaving
import ComplyLayer.Theory.Rounding
import ComplyLayer.Theory.Transactions
import ComplyLayer.Verify.Anchoring
import ComplyLayer.Verify.Approval
import ComplyLayer.Verify.AuditChain
import ComplyLayer.Verify.Authority
import ComplyLayer.Verify.Budget
import ComplyLayer.Verify.Builder
import ComplyLayer.Verify.ChainHistory
import ComplyLayer.Verify.Checkpointing
import ComplyLayer.Verify.Collisions
import ComplyLayer.Verify.Confidence
import ComplyLayer.Verify.DecisionMeaning
import ComplyLayer.Verify.DiffNaming
import ComplyLayer.Verify.DecisionsApart
import ComplyLayer.Verify.Divergence
import ComplyLayer.Verify.Dormancy
import ComplyLayer.Verify.Emergency
import ComplyLayer.Verify.ErrorChannel
import ComplyLayer.Verify.Fallback
import ComplyLayer.Verify.FlagHistory
import ComplyLayer.Verify.FourEyes
import ComplyLayer.Verify.Freshness
import ComplyLayer.Verify.Gauges
import ComplyLayer.Verify.Guards
import ComplyLayer.Verify.GuessLimit
import ComplyLayer.Verify.History
import ComplyLayer.Verify.Idempotency
import ComplyLayer.Verify.Issuance
import ComplyLayer.Verify.Kept
import ComplyLayer.Verify.KeyCache
import ComplyLayer.Verify.ListInfluence
import ComplyLayer.Verify.Loading
import ComplyLayer.Verify.Looser
import ComplyLayer.Verify.Magnitude
import ComplyLayer.Verify.Membership
import ComplyLayer.Verify.Multiples
import ComplyLayer.Verify.OneTimeCode
import ComplyLayer.Verify.Outage
import ComplyLayer.Verify.Partitioning
import ComplyLayer.Verify.PasswordAlone
import ComplyLayer.Verify.Polling
import ComplyLayer.Verify.Preview
import ComplyLayer.Verify.Pseudonymity
import ComplyLayer.Verify.Publishing
import ComplyLayer.Verify.Reading
import ComplyLayer.Verify.Register
import ComplyLayer.Verify.Recording
import ComplyLayer.Verify.Replay
import ComplyLayer.Verify.Restricting
import ComplyLayer.Verify.Retention
import ComplyLayer.Verify.Retries
import ComplyLayer.Verify.Reverting
import ComplyLayer.Verify.Reviews
import ComplyLayer.Verify.RuleTrees
import ComplyLayer.Verify.Sandbox
import ComplyLayer.Verify.Scoping
import ComplyLayer.Verify.SelfApproval
import ComplyLayer.Verify.Serialisable
import ComplyLayer.Verify.Sources
import ComplyLayer.Verify.Storable
import ComplyLayer.Verify.Storage
import ComplyLayer.Verify.StoredFacts
import ComplyLayer.Verify.TenantIsolation
import ComplyLayer.Verify.SharedServer
import ComplyLayer.Verify.Exporting
import ComplyLayer.Verify.TestStore
import ComplyLayer.Verify.Trimming
import ComplyLayer.Verify.Truncation
import ComplyLayer.Verify.VelocityThreshold
import ComplyLayer.Verify.Versions
