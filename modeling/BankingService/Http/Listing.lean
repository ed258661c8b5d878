/-
  File:      BankingService/Http/Listing.lean
  Subject:   `GET /api/transactions`, `GET /api/accounts/{id}/transactions` and
             `GET /api/accounts/{id}/audit` of `internal/httpapi/handlers.go`: the query parameters,
             the call of the store they become, and the response.

  A parameter arrives as the bytes `r.URL.Query().Get` gives, empty where it is missing. Numbers go
  through `strconv.Atoi`, so they have to fit an `int` (64 bits): a number that does not is treated
  like one that is no number at all, and the default takes its place.
-/
import BankingService.Http.Handlers
import BankingService.Readers

namespace BankingService

/-! ## 1. The parameters -/

/-- `strconv.Atoi`. -/
def atoi (s : GoString) : Except NumError Int := parseInt s 64

/-- `parseLimit`, given the parameter. -/
def parseLimit (raw : GoString) (defaultVal cap : Int) : Int :=
  if raw = [] then defaultVal
  else
    match atoi raw with
    | .error _ => defaultVal
    | .ok n => if n ≤ 0 then defaultVal else if cap < n then cap else n

/-- The offset of `listAllTransactions`. -/
def parseOffset (raw : GoString) : Int :=
  if raw = [] then 0
  else
    match atoi raw with
    | .error _ => 0
    | .ok n => if 0 < n then n else 0

/-- `validKinds`. -/
def validKinds : List TransactionKind := [.transfer, .reversal, .deposit, .withdrawal]

def parseKind (k : GoString) : Option TransactionKind :=
  validKinds.find? fun kind => bytes kind.text = k

/-- The parameters of `listAllTransactions`. -/
structure ListQuery where
  limit : GoString
  offset : GoString
  kind : GoString
  deriving DecidableEq, Repr

/-- The value of `?kind=` that asks for a kind, or for all of them. -/
def kindParam (kind : Option TransactionKind) : GoString := (kind.map fun k => bytes k.text).getD []

/-! ## 2. The handlers -/

/-- The responses: the list with status 200 (a nil slice is written as `[]`), the bare
    `{"error":"invalid_kind"}` with status 400, or an error with its message. -/
inductive ListResponse where
  | ok (txns : List Transaction)
  | invalidKind
  | error (resp : Response)
  deriving DecidableEq, Repr

/-- `Server.listAllTransactions` up to its call of the store. -/
def listAllTransactions (q : ListQuery) : Except ListResponse ListTransactionsOpts :=
  let limit := parseLimit q.limit 50 200
  let offset := parseOffset q.offset
  if q.kind = [] then .ok ⟨limit, offset, none⟩
  else
    match parseKind q.kind with
    | none => .error .invalidKind
    | some kind => .ok ⟨limit, offset, some kind⟩

/-- `Server.listTransactions` up to its call of the store. -/
def listAccountTransactions (id limit : GoString) : Except ListResponse Read :=
  match parseUUID id with
  | .error resp => .error (.error resp)
  | .ok id => .ok (.listTransactionsForAccount id (parseLimit limit 50 200))

/-- `Server.listAudit` up to its call of the store: the account and the limit. -/
def listAudit (id limit : GoString) : Except Response (UUID × Int) :=
  match parseUUID id with
  | .error resp => .error resp
  | .ok id => .ok (id, parseLimit limit 50 200)

/-- The end of the first two: the response to what the read has come to. -/
def ReadPhase.listResponse : ReadPhase → Option ListResponse
  | .returned txns => some (.ok txns)
  | .failed _ => some (.error internalError)
  | _ => none

/-- `resp` is a response of `GET /api/transactions` on tables that do not change. -/
def Responds (L : Ledger) (q : ListQuery) (resp : ListResponse) : Prop :=
  match listAllTransactions q with
  | .error e => resp = e
  | .ok opts => ∃ chs p, Lib.run (readStep L (.listTransactions opts)) .headers chs = some p ∧
      p.listResponse = some resp

/-- A header with its entries, as the reads return it. -/
def Ledger.transactionOf (L : Ledger) (row : TransactionRow) : Transaction :=
  { scanTransaction row with entries := listEntries L row.id }

/-- `GET /api/transactions` on tables that do not change, where no statement fails. -/
def getTransactions (L : Ledger) (q : ListQuery) : ListResponse :=
  match listAllTransactions q with
  | .error e => e
  | .ok opts =>
    match listTransactions L opts with
    | .error _ => .error internalError
    | .ok rows => .ok (rows.map L.transactionOf)

end BankingService
