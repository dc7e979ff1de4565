import Ekumidayomi.Lib.Run
import Ekumidayomi.Lib.Amortized
import Ekumidayomi.Lib.Table
import Ekumidayomi.Lib.Store
import Ekumidayomi.Lib.Hex
import Ekumidayomi.Lib.Framing
import Ekumidayomi.Lib.Txn
import Ekumidayomi.Lib.Interleaving
import Ekumidayomi.Lib.Alone
import Ekumidayomi.Lib.Along
import Ekumidayomi.Lib.Deadlock
import Ekumidayomi.Lib.Rules
import Ekumidayomi.Lib.Ledger
import Ekumidayomi.Lib.Index
import Ekumidayomi.Lib.Embed
import Ekumidayomi.Lib.SortedSet
import Ekumidayomi.Lib.Unicode
import Ekumidayomi.Lib.Python
import Ekumidayomi.Lib.Json
import Ekumidayomi.Lib.JsonSteps
import Ekumidayomi.Lib.JsonRoundTrip
import Ekumidayomi.Lib.JsonCoercion
import Ekumidayomi.Lib.Paging
import Ekumidayomi.Types
import Ekumidayomi.Text
import Ekumidayomi.Events
import Ekumidayomi.Db.UnitOfWork
import Ekumidayomi.Outbox.Model
import Ekumidayomi.Outbox.Repository
import Ekumidayomi.Outbox.LeasedRepository
import Ekumidayomi.Outbox.System
import Ekumidayomi.Outbox.Fencing
import Ekumidayomi.Outbox.Ordering
import Ekumidayomi.Outbox.Claiming
import Ekumidayomi.Outbox.LeasedWorker
import Ekumidayomi.Outbox.Settling
import Ekumidayomi.Outbox.Exclusion
import Ekumidayomi.Outbox.Window
import Ekumidayomi.Outbox.Binding
import Ekumidayomi.Outbox.Uncertain
import Ekumidayomi.Outbox.Provenance
import Ekumidayomi.Outbox.Isolation
import Ekumidayomi.Outbox.Coherence
import Ekumidayomi.Outbox.Budget
import Ekumidayomi.Outbox.Transactions
import Ekumidayomi.Outbox.Statements
import Ekumidayomi.Outbox.Commits
import Ekumidayomi.Outbox.Pause
import Ekumidayomi.Outbox.InternalWorker
import Ekumidayomi.Outbox.Exhausted
import Ekumidayomi.Outbox.Payloads
import Ekumidayomi.Outbox.Storage
import Ekumidayomi.Jobs.Service
import Ekumidayomi.Jobs.System
import Ekumidayomi.Jobs.Fencing
import Ekumidayomi.Jobs.Leases
import Ekumidayomi.Jobs.Queue
import Ekumidayomi.Email.Resend
import Ekumidayomi.Email.Sending
import Ekumidayomi.Auth.Challenge
import Ekumidayomi.Auth.EmailHandler
import Ekumidayomi.Auth.Idempotency
import Ekumidayomi.Auth.SessionCache
import Ekumidayomi.Auth.Model
import Ekumidayomi.Auth.Transactions
import Ekumidayomi.Auth.Calls
import Ekumidayomi.Auth.Initiation
import Ekumidayomi.Auth.Rules
import Ekumidayomi.Auth.Along
import Ekumidayomi.Auth.LockOrder
import Ekumidayomi.Auth.Statements
import Ekumidayomi.Auth.Exits
import Ekumidayomi.Auth.Commits
import Ekumidayomi.Auth.Runs
import Ekumidayomi.Auth.Administrators
import Ekumidayomi.Auth.Identities
import Ekumidayomi.Auth.Sessions
import Ekumidayomi.Auth.Recent
import Ekumidayomi.Auth.Challenges
import Ekumidayomi.Auth.Guesses
import Ekumidayomi.Auth.Oidc
import Ekumidayomi.Auth.Handshakes
import Ekumidayomi.Auth.Evidence
import Ekumidayomi.Users.Service
import Ekumidayomi.Users.AddressBook
import Ekumidayomi.Users.LockOrder
import Ekumidayomi.RateLimits
import Ekumidayomi.Auth.Schemas
import Ekumidayomi.Auth.RateDependencies
import Ekumidayomi.Auth.Emailed
import Ekumidayomi.Auth.PasswordPolicy
import Ekumidayomi.Pages
import Ekumidayomi.Cache.Client
import Ekumidayomi.Cache.SingleFlight
import Ekumidayomi.Cache.Codec
import Ekumidayomi.Cache.Outcomes
import Ekumidayomi.Audit.Service
import Ekumidayomi.Audit.Sanitizing
import Ekumidayomi.Audit.Query
import Ekumidayomi.Users.AdminRepository
import Ekumidayomi.Api.Middleware
import Ekumidayomi.Lib.Decimal
import Ekumidayomi.Lib.DecimalText
import Ekumidayomi.Money
import Ekumidayomi.Api.MoneyResponse
import Ekumidayomi.Api.Query
import Ekumidayomi.Cache.Keys
import Ekumidayomi.Auth.Receipts
import Ekumidayomi.Auth.Indexes
import Ekumidayomi.Auth.Ledger
import Ekumidayomi.Auth.Booking
import Ekumidayomi.Auth.Keeping
import Ekumidayomi.Auth.Integrity
import Ekumidayomi.Auth.Contests
import Ekumidayomi.Auth.Contenders
import Ekumidayomi.Auth.Races
import Ekumidayomi.Auth.Audited
import Ekumidayomi.Auth.Announced
import Ekumidayomi.Auth.Passwords
import Ekumidayomi.Storage.Memory
import Ekumidayomi.Auth.Providers
import Ekumidayomi.Auth.Vouched
