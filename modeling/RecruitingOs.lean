import RecruitingOs.Ingest.Model
import RecruitingOs.Store.Sources
import RecruitingOs.Resolver.Concurrency
import RecruitingOs.Queue.ExclusiveLease
import RecruitingOs.Queue.Fencing
import RecruitingOs.Queue.Lifecycle
import RecruitingOs.Resolver.OpportunityIds
import RecruitingOs.Lib.Transaction
import RecruitingOs.Ingest.Document
import RecruitingOs.Ingest.Links
import RecruitingOs.Ingest.Atomic
import RecruitingOs.Ingest.Retries
import RecruitingOs.Ingest.Attempts
import RecruitingOs.Ingest.Ownership
import RecruitingOs.Store.ContentAddress
import RecruitingOs.Store.ConnectorState
import RecruitingOs.Connectors.Messages
import RecruitingOs.Connectors.Sync
import RecruitingOs.Connectors.Cursor
import RecruitingOs.Vault.Credentials
import RecruitingOs.Vault.Revocation
import RecruitingOs.Queue.Pending
import RecruitingOs.Connectors.SyncSchedule
import RecruitingOs.Lib.Like
import RecruitingOs.Store.Accounts
import RecruitingOs.Privacy.Effect
import RecruitingOs.Privacy.Reconcile
import RecruitingOs.Privacy.Trace
import RecruitingOs.Privacy.Run
import RecruitingOs.Privacy.Invariant
import RecruitingOs.Privacy.Evidence
import RecruitingOs.Privacy.Commit
import RecruitingOs.Lib.JsonParse
import RecruitingOs.Http.OverrideRequest
import RecruitingOs.Store.Overrides
import RecruitingOs.Resolver.Review
import RecruitingOs.Privacy.InFlight
import RecruitingOs.Resolver.Staleness
import RecruitingOs.Queue.Calls
import RecruitingOs.Queue.Progress
import RecruitingOs.Queue.Fairness
import RecruitingOs.Queue.Postgres
import RecruitingOs.Queue.Redaction
import RecruitingOs.Lib.TableRelation
import RecruitingOs.Queue.Agreement
import RecruitingOs.Queue.Simulation
import RecruitingOs.Queue.Twin
import RecruitingOs.Store.TransactionDepth
import RecruitingOs.Connectors.GmailCursor
import RecruitingOs.Queue.Upsert
import RecruitingOs.Http.EnqueueRequest
import RecruitingOs.Queue.Waiting
import RecruitingOs.Connectors.SyncChain
import RecruitingOs.Queue.Heartbeat
import RecruitingOs.Lib.Relational
import RecruitingOs.Repository.Port
import RecruitingOs.Lib.OrderBy
import RecruitingOs.Repository.Store
import RecruitingOs.Repository.Image
import RecruitingOs.Repository.Agreeable
import RecruitingOs.Repository.Updates
import RecruitingOs.Repository.Queries
import RecruitingOs.Repository.Agreement
import RecruitingOs.Http.App
import RecruitingOs.Http.Access
import RecruitingOs.Http.Metrics
import RecruitingOs.Http.InMemoryRateLimiter
import RecruitingOs.Http.ReturnTo
import RecruitingOs.Outbound.SafeHttpClient
import RecruitingOs.Resolver.Ties
import RecruitingOs.Repository.Retention
import RecruitingOs.Resolver.PatchedDates
import RecruitingOs.Ingest.Repeated
import RecruitingOs.Lib.Utf16
import RecruitingOs.Lib.Calendar
import RecruitingOs.Extractor.Dates
import RecruitingOs.Extractor.Campus
import RecruitingOs.Extractor.DateTexts
import RecruitingOs.Extractor.ClockTexts
import RecruitingOs.Extractor.Weekdays
import RecruitingOs.Extractor.HeuristicExtract
import RecruitingOs.Extractor.MonthNames
import RecruitingOs.Extractor.Failures
import RecruitingOs.Lib.CircuitBreaker
import RecruitingOs.Outbound.BoundedBody
import RecruitingOs.Outbound.ProviderHttpClient
import RecruitingOs.Lib.Escaping
import RecruitingOs.Vault.Binding
import RecruitingOs.Connectors.WebPage
import RecruitingOs.Connectors.PageText
import RecruitingOs.Connectors.PageLinks
import RecruitingOs.Lib.BitOps
import RecruitingOs.Outbound.Ipv4Range
import RecruitingOs.Auth.Oidc
import RecruitingOs.Auth.ProviderOAuth
import RecruitingOs.Auth.StateCookies
import RecruitingOs.Auth.Repositories
import RecruitingOs.Auth.RepositoryAgreement
import RecruitingOs.Auth.SignIn
import RecruitingOs.Auth.SignInEffect
import RecruitingOs.Auth.SignInSafety
import RecruitingOs.Auth.Bootstrap
import RecruitingOs.Auth.SignInCompletes
import RecruitingOs.Http.PostgresRateLimiter
import RecruitingOs.Http.RequestBudgets
import RecruitingOs.Auth.ConnectedAccounts
import RecruitingOs.Auth.CredentialOrigin
import RecruitingOs.Repository.Migrations
import RecruitingOs.Worker.Handlers
import RecruitingOs.Worker.Runs
import RecruitingOs.Privacy.Export
import RecruitingOs.Lib.Parts
import RecruitingOs.Repository.TenantParts
import RecruitingOs.Repository.TenantCalls
import RecruitingOs.Repository.Isolation
