import Floonet.Lib.Hex
import Floonet.Lib.Sql
import Floonet.Lib.Json
import Floonet.Lib.Outcome
import Floonet.Utils
import Floonet.Event
import Floonet.Recorded
import Floonet.Delegation
import Floonet.Admission
import Floonet.Sqlite.Schema
import Floonet.Sqlite.Persist
import Floonet.Sqlite.Step
import Floonet.Sqlite.Verifier
import Floonet.Lib.Machine
import Floonet.Sqlite.Run
import Floonet.Sqlite.Frame
import Floonet.Sqlite.GiftWrap
import Floonet.Sqlite.Param
import Floonet.Sqlite.Deletion
import Floonet.Sqlite.Ack
import Floonet.Sqlite.Coordinate
import Floonet.Sqlite.Replaceable
import Floonet.Sqlite.Order
import Floonet.Sqlite.Verification
import Floonet.Subscription
import Floonet.Sqlite.Query
import Floonet.Postgres.Schema
import Floonet.Postgres.Write
import Floonet.Postgres.Step
import Floonet.Postgres.Deletion
import Floonet.Postgres.Account
import Floonet.Postgres.Agreement
import Floonet.Lib.Process
import Floonet.Lib.Alone
import Floonet.Lib.Column
import Floonet.NameAuthority.Names
import Floonet.NameAuthority.Claims
import Floonet.NameAuthority.Limits
import Floonet.NameAuthority.Nip98
import Floonet.Payment.Processor
import Floonet.Payment.Ledger
import Floonet.Sqlite.Account
import Floonet.System
import Floonet.NameAuthority.Authority
import Floonet.NameAuthority.Contract
import Floonet.Payment.Thread
import Floonet.Relay
import Floonet.NameAuthority.Store
import Floonet.Lib.Base64
import Floonet.NameAuthority.Signed
import Floonet.NameAuthority.Ownership
import Floonet.NameAuthority.Cooldown
import Floonet.NameAuthority.Replay
import Floonet.Payment.History
import Floonet.Payment.Conservation
import Floonet.Payment.Confirmation
import Floonet.NameAuthority.Funds
import Floonet.NameAuthority.Recharge
import Floonet.NameAuthority.Undisturbed
import Floonet.NameAuthority.Outstanding
import Floonet.NameAuthority.Recovery
import Floonet.Conn
import Floonet.Notice
import Floonet.Server.Connection
import Floonet.Server.Bookkeeping
import Floonet.Server.PrivateMessages
import Floonet.Server.GiftWrap
import Floonet.Nip05
import Floonet.Sqlite.Lookup
import Floonet.Writer.DbWriter
import Floonet.Writer.Answers
import Floonet.Writer.Verifier
import Floonet.Writer.Pipeline
import Floonet.Writer.Verification
import Floonet.Lib.Broadcast
import Floonet.Payment.InvoicePage
import Floonet.Payment.StatusQuery
import Floonet.Subscription.Deserialize
import Floonet.Subscription.Serialize
import Floonet.Subscription.Meaning
import Floonet.Sqlite.Scraper
import Floonet.Sqlite.Malformed
import Floonet.Lib.Template
import Floonet.Sqlite.Statement
import Floonet.Payment.Message
import Floonet.NameAuthority.Cleanup
import Floonet.Lib.Letters
import Floonet.NameAuthority.Reserved
import Floonet.NameAuthority.WellFormed
import Floonet.NameAuthority.Endpoints
import Floonet.Sqlite.Rows
import Floonet.Server.Feed
import Floonet.Server.Attribution
import Floonet.Server.Coverage
import Floonet.Server.Frames
import Floonet.Postgres.Query
import Floonet.Postgres.TagValues
import Floonet.Lib.SqlText
import Floonet.Postgres.Statement
import Floonet.Postgres.WellFormed
import Floonet.Postgres.Multiplicity
import Floonet.Lib.Separated
import Floonet.Delegation.Grammar
import Floonet.Delegation.Processing
import Floonet.Lib.Last
import Floonet.NameAuthority.Acceptance
import Floonet.Canonical
import Floonet.Lib.SlidingWindow
import Floonet.NameAuthority.SlidingWindow
import Floonet.Sqlite.Expiry
import Floonet.Lib.Transaction
import Floonet.Sqlite.TagMigration
import Floonet.Lib.Answers
import Floonet.Sqlite.BulkLoader
import Floonet.Sqlite.Loaded
import Floonet.Sqlite.Answers
import Floonet.Sqlite.LoadedAnswers
import Floonet.Lib.Crash
import Floonet.Sqlite.Upgrade
import Floonet.Sqlite.Restarts
import Floonet.Sqlite.Starts
import Floonet.Postgres.Accept
import Floonet.Postgres.Run
import Floonet.Postgres.Expiry
import Floonet.Postgres.Replaceable
import Floonet.Postgres.Values
import Floonet.Postgres.Ack
import Floonet.Postgres.Live
import Floonet.Postgres.Order
import Floonet.Postgres.Backends
import Floonet.Postgres.Migration
import Floonet.Postgres.Starts
