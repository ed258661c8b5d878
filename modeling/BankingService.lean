import BankingService.Lib.Run
import BankingService.Lib.Table
import BankingService.Lib.WaitFor
import BankingService.Lib.Digits
import BankingService.Lib.Rounding
import BankingService.Lib.OrderBy
import BankingService.Lib.Search
import BankingService.Lib.Numeral
import BankingService.Go.Strings
import BankingService.Money.Decimal
import BankingService.Money.Money
import BankingService.Money.Text
import BankingService.Money.Value
import BankingService.Ledger.Types
import BankingService.Uuid.Version7
import BankingService.Store.Schema
import BankingService.Store.Numeric
import BankingService.Store.Statements
import BankingService.Store.Migrations
import BankingService.Store.EntriesSql
import BankingService.Migrate.Source
import BankingService.Ledger.Service
import BankingService.Http.Handlers
import BankingService.Machine
import BankingService.Readers
import BankingService.Http.Listing
import BankingService.Http.Accounts
import BankingService.Client.LoadTest
import BankingService.Web.LedgerPanel
import BankingService.Spec.Literal
import BankingService.Spec.Atomic
import BankingService.Spec.AtomicInv
import BankingService.Spec.Exact
import BankingService.Spec.Growth
import BankingService.Spec.Balance
import BankingService.Spec.Statement
import BankingService.Spec.Verdict
import BankingService.Proof.CallInv
import BankingService.Proof.MoneyText
import BankingService.Proof.Numeric
import BankingService.Proof.Flow
import BankingService.Proof.Statements
import BankingService.Proof.Steps
import BankingService.Proof.System
import BankingService.Uuid.Text
import BankingService.Proof.Conflicts
import BankingService.Proof.Track
import BankingService.Proof.Sent
import BankingService.Proof.Alone
import BankingService.Proof.Audit
import BankingService.Proof.Locks
import BankingService.Proof.Reads
import BankingService.Proof.Tables
import BankingService.Proof.Calls
import BankingService.Proof.Seeds
import BankingService.Server.Startup
import BankingService.Server.Pool
import BankingService.Server.Ids
import BankingService.Proof.Cluster
import BankingService.Props.MoneyExact
import BankingService.Props.MoneyText
import BankingService.Props.SchemaBalance
import BankingService.Props.Progress
import BankingService.Props.Reconciliation
import BankingService.Props.Serializable
import BankingService.Props.ExactlyOnce
import BankingService.Props.Constraints
import BankingService.Props.Agreement
import BankingService.Props.AlreadyReversed
import BankingService.Props.Audit
import BankingService.Props.Replay
import BankingService.Props.Readers
import BankingService.Props.ListingOrder
import BankingService.Props.Responses
import BankingService.Props.SeedReconciles
import BankingService.Props.ExternalDown
import BankingService.Props.SeedRerun
import BankingService.Props.Pagination
import BankingService.Props.PrefixStable
import BankingService.Props.DetailFallback
import BankingService.Props.PanelPrefix
import BankingService.Props.Restart
import BankingService.Props.Startup
import BankingService.Props.Linearizable
import BankingService.Props.Pool
import BankingService.Props.Ids
import BankingService.Props.Accounts
import BankingService.Props.LoadTest
import BankingService.Props.LivePanel
