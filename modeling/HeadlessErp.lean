import HeadlessErp.Approvals.Service
import HeadlessErp.Archive.Lossless
import HeadlessErp.Audit.Secrecy
import HeadlessErp.Authz.Atomicity
import HeadlessErp.Authz.Freshness
import HeadlessErp.Base.Program
import HeadlessErp.Base.Transition
import HeadlessErp.Base.Window
import HeadlessErp.Cache.TagIndex
import HeadlessErp.Cache.Transparency
import HeadlessErp.ChildTables.RoundTrip
import HeadlessErp.Compute.DateDif
import HeadlessErp.Compute.Depreciation
import HeadlessErp.Compute.Loans
import HeadlessErp.Compute.TaxBrackets
import HeadlessErp.Compute.Workdays
import HeadlessErp.Cron.Spelling
import HeadlessErp.Cron.Zones
import HeadlessErp.Csv.Parser
import HeadlessErp.Csv.Writers
import HeadlessErp.Engine.Effects
import HeadlessErp.Engine.Race
import HeadlessErp.Entity.Atomicity
import HeadlessErp.Entity.Bounds
import HeadlessErp.Entity.CascadeClosure
import HeadlessErp.Entity.FieldRules
import HeadlessErp.Entity.LinkageTypes
import HeadlessErp.Entity.Restrict
import HeadlessErp.Entity.SmartCollection
import HeadlessErp.Entity.Transitions
import HeadlessErp.Entity.Uniqueness
import HeadlessErp.Entity.UpdateFrame
import HeadlessErp.Entity.WriteGuard
import HeadlessErp.Entity.WriteOrigin
import HeadlessErp.Events.Delivery
import HeadlessErp.Expression.Grammar
import HeadlessErp.Expression.Nesting
import HeadlessErp.Expression.OwnData
import HeadlessErp.Expression.Totality
import HeadlessErp.Expression.Validation
import HeadlessErp.Idempotency.Replay
import HeadlessErp.Idp.Catalog
import HeadlessErp.Idp.Convergence
import HeadlessErp.Idp.Mirror
import HeadlessErp.Idp.SchemaDiffer
import HeadlessErp.Js.Date
import HeadlessErp.Js.Json
import HeadlessErp.Js.Record
import HeadlessErp.Kpi.Materialization
import HeadlessErp.Locks.LockObject
import HeadlessErp.Locks.WithLock
import HeadlessErp.Media.Safety
import HeadlessErp.Migrations.Recovery
import HeadlessErp.Naming.Runs
import HeadlessErp.Outbox.Retries
import HeadlessErp.Query.Cursor
import HeadlessErp.Query.CursorWalk
import HeadlessErp.Query.Honoured
import HeadlessErp.Query.LikeFilters
import HeadlessErp.Query.Placeholders
import HeadlessErp.Query.Scope
import HeadlessErp.Quota.Consume
import HeadlessErp.RateLimit.Windows
import HeadlessErp.Relations.Authorized
import HeadlessErp.Relations.Computed
import HeadlessErp.Relations.FormulaOrder
import HeadlessErp.Relations.ManyToAny
import HeadlessErp.Relations.ManyToMany
import HeadlessErp.Relations.Nested
import HeadlessErp.Relations.Resolve
import HeadlessErp.Relations.Resolver
import HeadlessErp.Relations.Response
import HeadlessErp.Relations.Rows
import HeadlessErp.Relations.SortKeys
import HeadlessErp.Report.Agreement
import HeadlessErp.Report.Conservation
import HeadlessErp.Scheduler.Recorded
import HeadlessErp.Schema.AutoIndexer
import HeadlessErp.Schema.CanonicalIndexes
import HeadlessErp.Schema.Force
import HeadlessErp.Sdk.Accounts
import HeadlessErp.Sdk.Replays
import HeadlessErp.Storage.Encryption
import HeadlessErp.Webhook.Guard
import HeadlessErp.Workflow.Entry
