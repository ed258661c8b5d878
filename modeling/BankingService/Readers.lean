/-
  File:      BankingService/Readers.lean
  Subject:   READERS NEXT TO THE CALLS: the four functions of `internal/store/transactions.go` that
             return transactions, one step per statement.

  A read is a header query and then one `listEntries` per header. Every statement goes to the pool
  by itself, so it sees the tables as they are committed at that moment (READ COMMITTED), and the
  calls of the service commit in between. A store call that fails ends the read with an error.

  `ListTransactionsForAccount` orders by `created_at` alone: which of two headers with one time
  comes first, and so which of them a LIMIT cuts off, is the server's choice (`ReadChoice.rows`).
  `ListAuditForAccount` of `internal/store/audit.go` does the same in a single statement.
-/
import BankingService.Machine
import BankingService.Lib.OrderBy

namespace BankingService

/-! ## 1. The header queries -/

/-- `ListTransactionsOpts`. -/
structure ListTransactionsOpts where
  limit : Int
  offset : Int
  kind : Option TransactionKind
  deriving DecidableEq, Repr

/-- A call of one of the read functions. -/
inductive Read where
  | getTransactionByIdempotencyKey (key : GoString)
  | getTransaction (id : UUID)
  | listTransactionsForAccount (accountID : UUID) (limit : Int)
  | listTransactions (opts : ListTransactionsOpts)
  deriving DecidableEq, Repr

/-- The context of an error of the header query. -/
def Read.context : Read → String
  | .getTransactionByIdempotencyKey _ => "store.GetTransactionByIdempotencyKey"
  | .getTransaction _ => "store.GetTransaction"
  | .listTransactionsForAccount _ _ => "store.ListTransactionsForAccount"
  | .listTransactions _ => "store.ListTransactions"

def negativeLimit : StoreError := .other "ERROR: LIMIT must not be negative (SQLSTATE 2201W)"

def negativeOffset : StoreError := .other "ERROR: OFFSET must not be negative (SQLSTATE 2201X)"

/-- `ORDER BY created_at DESC, id DESC`. -/
def newestFirst (t t' : TransactionRow) : Prop :=
  t'.createdAt < t.createdAt ∨ (t'.createdAt = t.createdAt ∧ t'.id ≤ t.id)

instance : DecidableRel newestFirst := fun t t' =>
  inferInstanceAs (Decidable (t'.createdAt < t.createdAt ∨
    (t'.createdAt = t.createdAt ∧ t'.id ≤ t.id)))

/-- The header query of `ListTransactions`. -/
def listTransactions (L : Ledger) (opts : ListTransactionsOpts) :
    Except StoreError (List TransactionRow) :=
  if opts.offset < 0 then .error negativeOffset
  else if opts.limit < 0 then .error negativeLimit
  else
    let rows := L.transactions.filter fun t => opts.kind.all fun k => decide (t.kind = k)
    .ok (((rows.insertionSort newestFirst).drop opts.offset.toNat).take opts.limit.toNat)

/-- The headers with an entry on an account, each once. -/
def Ledger.headersOf (L : Ledger) (accountID : UUID) : List TransactionRow :=
  L.transactions.filter fun t =>
    L.entries.any fun e => decide (e.transactionID = t.id ∧ e.accountID = accountID)

/-- `rows` is what `ORDER BY created_at DESC LIMIT limit` may give of the headers `all`. -/
abbrev Newest : Nat → List TransactionRow → List TransactionRow → Prop :=
  Lib.FirstRows (Lib.DescBy TransactionRow.createdAt)

/-! ## 2. One read -/

/-- The point a read has reached: the header query, the entries query of the first header in `todo`,
    or its return. A read of a single transaction returns it as the one element, and its entries
    once more. -/
inductive ReadPhase where
  | headers
  | entries (done todo : List Transaction)
  | returned (txns : List Transaction)
  | failed (e : Err)
  deriving DecidableEq, Repr

/-- What the outside answers to a statement of a read. -/
inductive ReadChoice where
  | ok
  | rows (rows : List TransactionRow)
  | fail (text : String)
  deriving DecidableEq, Repr

/-- After the header query of a single transaction. -/
def readOne : Option Transaction → ReadPhase
  | none => .failed (.sentinel .transactionNotFound)
  | some t => .entries [] [t]

/-- After the header query of a list. -/
def readMany (rows : List TransactionRow) : ReadPhase := .entries [] (rows.map scanTransaction)

/-- The header query where the server has no choice. -/
def readHeaders (L : Ledger) (q : Read) : Option ReadPhase :=
  match q with
  | .getTransactionByIdempotencyKey key =>
    match getTransactionByIdempotencyKey L key with
    | .error e => some (.failed (.wrapped q.context (.pg e)))
    | .ok t => some (readOne t)
  | .getTransaction id => some (readOne (getTransaction L id))
  | .listTransactionsForAccount _ limit =>
    if limit < 0 then some (.failed (.wrapped q.context negativeLimit)) else none
  | .listTransactions opts =>
    match listTransactions L opts with
    | .error e => some (.failed (.wrapped q.context e))
    | .ok rows => some (readMany rows)

/-- The header query of `ListTransactionsForAccount`, answered with `rows`. -/
def readRows (L : Ledger) (q : Read) (rows : List TransactionRow) : Option ReadPhase :=
  match q with
  | .listTransactionsForAccount accountID limit =>
    if 0 ≤ limit ∧ Newest limit.toNat (L.headersOf accountID) rows then some (readMany rows)
    else none
  | _ => none

/-- One statement of a read, on the committed tables. -/
def readStep (L : Ledger) (q : Read) : ReadPhase → ReadChoice → Option ReadPhase
  | .headers, .ok => readHeaders L q
  | .headers, .rows rows => readRows L q rows
  | .headers, .fail text => some (.failed (.wrapped q.context (.other text)))
  | .entries done (t :: todo), .ok =>
    some (.entries (done ++ [{ t with entries := listEntries L t.id }]) todo)
  | .entries _ (_ :: _), .fail text => some (.failed (.wrapped "store.listEntries" (.other text)))
  | .entries done [], .ok => some (.returned done)
  | _, _ => none

/-- The read may return `txns`, on tables that do not change. -/
def Returns (L : Ledger) (q : Read) (txns : List Transaction) : Prop :=
  ∃ chs, Lib.run (readStep L q) .headers chs = some (.returned txns)

/-! ## 3. The audit log of an account -/

/-- `ledger.AuditEntry` as `ListAuditForAccount` returns it. -/
structure ListedAudit extends AuditEntry where
  id : Nat
  createdAt : Time
  deriving DecidableEq, Repr

/-- `rows.Scan` of `ListAuditForAccount`. -/
def scanAudit (r : AuditRow) : ListedAudit :=
  { id := r.id, operation := r.operation, fromAccount := r.fromAccount, toAccount := r.toAccount,
    amount := r.amount.map Money.ofColumn, outcome := r.outcome, errorReason := r.errorReason,
    transactionID := r.transactionID, requestID := r.requestID, createdAt := r.createdAt }

/-- `WHERE from_account = $1 OR to_account = $1`. -/
def Db.auditOf (db : Db) (accountID : UUID) : List AuditRow :=
  db.auditLog.filter fun r =>
    decide (r.fromAccount = some accountID ∨ r.toAccount = some accountID)

/-- What the server answers to the query of `ListAuditForAccount`. -/
inductive AuditChoice where
  | ok
  | rows (rows : List AuditRow)
  | fail (text : String)
  deriving DecidableEq, Repr

/-- `Store.ListAuditForAccount`. -/
def listAuditForAccount (db : Db) (accountID : UUID) (limit : Int) :
    AuditChoice → Option (Except Err (List ListedAudit))
  | .ok =>
    if limit < 0 then some (.error (.wrapped "store.ListAuditForAccount" negativeLimit)) else none
  | .rows rows =>
    if 0 ≤ limit ∧
        Lib.FirstRows (Lib.DescBy AuditRow.createdAt) limit.toNat (db.auditOf accountID) rows then
      some (.ok (rows.map scanAudit))
    else none
  | .fail text => some (.error (.wrapped "store.ListAuditForAccount" (.other text)))

/-! ## 4. Calls and reads -/

/-- The system and the reads that ever arrived. -/
structure World where
  sys : St
  reads : List (Read × ReadPhase)
  deriving DecidableEq, Repr

def World.start (db : Db) (clock : Time) : World := ⟨St.start db clock, []⟩

inductive WorldAct where
  | sys (a : Act)
  | read (q : Read)
  | reader (j : Nat) (ch : ReadChoice)
  deriving DecidableEq, Repr

/-- **One step of the system with readers.** -/
def worldStep (cfg : Config) (w : World) : WorldAct → Option World
  | .sys a => (step cfg w.sys a).map fun s => { w with sys := s }
  | .read q => some { w with reads := w.reads ++ [(q, .headers)] }
  | .reader j ch =>
    match w.reads[j]? with
    | none => none
    | some (q, p) =>
      (readStep w.sys.db.toLedger q p ch).map fun p => { w with reads := w.reads.set j (q, p) }

/-- The runs of the system with readers. -/
abbrev worldExec (cfg : Config) (w : World) (acts : List WorldAct) : Option World :=
  Lib.run (worldStep cfg) w acts

end BankingService
