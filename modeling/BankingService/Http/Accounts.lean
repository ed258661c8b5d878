/-
  File:      BankingService/Http/Accounts.lean
  Subject:   `GET /api/accounts` and `GET /api/accounts/{id}`: `ListAccounts` and `GetAccount` of
             `internal/store/accounts.go` and their handlers.

  Each of the two is a single statement on the pool, so it sees the tables of one moment.
  `ListAccounts` orders by `name` under the collation of the database (`nameLe`); accounts of one
  name come in any order.
-/
import BankingService.Http.Handlers
import BankingService.Lib.OrderBy

namespace BankingService

/-! ## 1. The store -/

/-- What the server answers to a query on accounts: its rows, or a failure before or after some of
    them. -/
inductive AccountsChoice where
  | ok
  | rows (rows : List AccountRow)
  | failQuery (text : String)
  | failRows (text : String)
  deriving DecidableEq, Repr

/-- `Store.GetAccount`. -/
def getAccount (L : Ledger) (id : UUID) : AccountsChoice → Option (Except Err Account)
  | .ok =>
    match L.account? id with
    | none => some (.error (.sentinel .accountNotFound))
    | some a => some (.ok (scanAccount a))
  | .failQuery text => some (.error (.wrapped "store.GetAccount" (.other text)))
  | _ => none

/-- `WHERE is_system = FALSE`. -/
def Ledger.userAccounts (L : Ledger) : List AccountRow := L.accounts.filter fun a => !a.isSystem

/-- `ORDER BY name`. -/
def byName (nameLe : GoString → GoString → Bool) (a b : AccountRow) : Prop :=
  nameLe a.name b.name = true

instance (nameLe : GoString → GoString → Bool) : DecidableRel (byName nameLe) := fun a b =>
  inferInstanceAs (Decidable (nameLe a.name b.name = true))

instance (nameLe : GoString → GoString → Bool) (all rows : List AccountRow) :
    Decidable (Lib.Ordered (byName nameLe) all rows) :=
  inferInstanceAs (Decidable (_ ∧ _))

/-- `Store.ListAccounts`, with `collectAccounts`. -/
def listAccounts (nameLe : GoString → GoString → Bool) (L : Ledger) :
    AccountsChoice → Option (Except Err (List Account))
  | .rows rows =>
    if Lib.Ordered (byName nameLe) L.userAccounts rows then some (.ok (rows.map scanAccount))
    else none
  | .failQuery text => some (.error (.wrapped "store.ListAccounts query" (.other text)))
  | .failRows text => some (.error (.wrapped "store.collectAccounts rows" (.other text)))
  | .ok => none

/-! ## 2. The handlers -/

/-- The responses of `GET /api/accounts`; a nil slice is written as `[]`. -/
inductive AccountsResponse where
  | ok (accounts : List Account)
  | error (resp : Response)
  deriving DecidableEq, Repr

/-- `Server.listAccounts`. -/
def getAccounts (nameLe : GoString → GoString → Bool) (L : Ledger) (ch : AccountsChoice) :
    Option AccountsResponse :=
  (listAccounts nameLe L ch).map fun
    | .error _ => .error internalError
    | .ok accounts => .ok accounts

/-- `Server.getAccount`, with the path segment. -/
def getAccountByID (L : Ledger) (path : GoString) (ch : AccountsChoice) : Option Response :=
  match parseUUID path with
  | .error resp => some resp
  | .ok id => (getAccount L id ch).map fun
    | .error e => mapError e
    | .ok a => writeJSON 200 (.account a)

end BankingService
