import WolfCore.Lib.Interleave
import WolfCore.Lib.Keyed
import WolfCore.Lib.Chan
import WolfCore.Lib.Custody
import WolfCore.Lib.Slices
import WolfCore.RateLimit.Strategy
import WolfCore.RateLimit.SlidingWindow
import WolfCore.RateLimit.TokenBucket
import WolfCore.Middleware.RateLimit
import WolfCore.Middleware.LoadShedder
import WolfCore.Concurrency.Sharded
import WolfCore.Concurrency.Shutdown
import WolfCore.Bootstrap.Lifecycle
import WolfCore.Concurrency.WorkerPool
import WolfCore.RateLimit.FixedWindow
import WolfCore.Lib.Table
import WolfCore.Lib.Decimal
import WolfCore.Lib.Civil
import WolfCore.Lib.Rfc3339
import WolfCore.Middleware.Transaction
import WolfCore.Middleware.Isolation
import WolfCore.Middleware.Response
import WolfCore.Event.Basic
import WolfCore.Messaging.EventStream
import WolfCore.Outbox.Store
import WolfCore.Outbox.Insert
import WolfCore.Outbox.Enqueue
import WolfCore.Outbox.Worker
import WolfCore.Outbox.Backoff
import WolfCore.Outbox.Notifier
import WolfCore.Outbox.Statements
import WolfCore.Outbox.Release
import WolfCore.Outbox.Leases
import WolfCore.Outbox.Relay
import WolfCore.Outbox.Envelope
import WolfCore.Outbox.Transparency
import WolfCore.Outbox.NoLoss
import WolfCore.Outbox.LeaseExclusivity
import WolfCore.Outbox.Claimability
import WolfCore.Outbox.RetryBudget
import WolfCore.UoW.UnitOfWork
import WolfCore.UoW.Atomicity
import WolfCore.UoW.RetrySafety
import WolfCore.UoW.Fidelity
import WolfCore.Lib.Execution
import WolfCore.Lib.ExpirableLRU
import WolfCore.Messenger.Envelope
import WolfCore.Messenger.Bus
import WolfCore.Messenger.Retry
import WolfCore.Messenger.MemoryTransport
import WolfCore.Messenger.EnvelopeMoves
import WolfCore.Messenger.Conservation
import WolfCore.Messenger.Worker
import WolfCore.Messenger.Routing
import WolfCore.Messenger.Conditional
import WolfCore.Messenger.Queries
import WolfCore.Messenger.Tracing
import WolfCore.Lib.Json
import WolfCore.Messenger.Serde
import WolfCore.Messenger.OutboxTransport
import WolfCore.Messenger.Fidelity
import WolfCore.Messaging.Stream
import WolfCore.Inbox.Middleware
import WolfCore.Inbox.Consumers
import WolfCore.Inbox.Commands
import WolfCore.Lib.Calls
import WolfCore.Inbox.Delivery
import WolfCore.Auth.JWTService
import WolfCore.Auth.Revocation
import WolfCore.Auth.Staleness
import WolfCore.Cache.Singleflight
import WolfCore.Cache.Local
import WolfCore.Cache.ReadAfterWrite
import WolfCore.VO.Money
import WolfCore.Lib.Kahn
import WolfCore.Lib.Named
import WolfCore.Lib.Ties
import WolfCore.Lib.TokenRate
import WolfCore.Seed.Selection
import WolfCore.Seed.Runner
import WolfCore.Seed.Results
import WolfCore.Seed.Order
import WolfCore.Messenger.Upcast
import WolfCore.Messenger.Registration
import WolfCore.Modular.Registry
import WolfCore.Bootstrap.Modules
import WolfCore.Resilience.HTTPClient
import WolfCore.Config.Validate
import WolfCore.Config.Boot
import WolfCore.Idempotency.Store
import WolfCore.CQRS.Caching
import WolfCore.DI.Resolution
import WolfCore.DI.Calls
import WolfCore.DI.Termination
import WolfCore.DI.Singletons
import WolfCore.DI.Scopes
import WolfCore.Messenger.RoundTrip
import WolfCore.Messaging.TypedEvents
import WolfCore.Lib.Float64
import WolfCore.Messenger.OutboxOrder
import WolfCore.Messenger.OutboxClaims
import WolfCore.Messenger.Settlement
import WolfCore.Lib.Base64
import WolfCore.Lib.Bytes
import WolfCore.VO.Pagination
import WolfCore.Lib.Statement
import WolfCore.Outbox.Placeholders
import WolfCore.Lib.Sums
import WolfCore.Lib.Wire
import WolfCore.Lib.Feed
import WolfCore.Lib.Stage
import WolfCore.Concurrency.Pipeline
import WolfCore.Lib.Threads
import WolfCore.Lib.Slots
import WolfCore.Resilience.Bulkhead
import WolfCore.Inbox.Processor
import WolfCore.Aggregate.Base
import WolfCore.Event.Bus
