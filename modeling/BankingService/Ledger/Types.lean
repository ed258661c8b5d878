/-
  File:      BankingService/Ledger/Types.lean
  Subject:   `internal/ledger/types.go` and `internal/ledger/errors.go`: the domain types, the
             nine sentinel errors and the errors of the store.

  * A `uuid.UUID` is sixteen bytes (`BitVec 128`); `UUID.text` is its canonical string.
  * Keys, names and request ids are client bytes (`GoString`). Texts the program itself writes are
    `String`s.
  * A `time.Time` is a number of microseconds after the zero `time.Time`, so the zero value of a
    Go struct's time field is 0.
  * `Err` is a Go `error` as the service sees it: a sentinel, or a store error wrapped in a
    context by `fmt.Errorf`.
-/
import Mathlib.Data.List.Basic
import BankingService.Go.Strings
import BankingService.Money.Money

namespace BankingService

/-! ## 1. Identifiers, strings and times -/

abbrev UUID := BitVec 128

/-- Microseconds after the zero `time.Time`. -/
abbrev Time := Nat

/-- One lower-case hexadecimal digit. -/
def hexDigit (n : Nat) : UInt8 := if n < 10 then UInt8.ofNat (48 + n) else UInt8.ofNat (87 + n)

/-- The canonical form `xxxxxxxx-xxxx-xxxx-xxxx-xxxxxxxxxxxx`. -/
def UUID.text (u : UUID) : GoString :=
  let hex (i n : Nat) : GoString :=
    (List.range n).map fun k => hexDigit (u.toNat / 16 ^ (31 - (i + k)) % 16)
  hex 0 8 ++ [45] ++ hex 8 4 ++ [45] ++ hex 12 4 ++ [45] ++ hex 16 4 ++ [45] ++ hex 20 12

/-- The canonical form is ASCII, without a NUL byte. -/
theorem UUID.text_ascii (u : UUID) : ∀ b ∈ u.text, b ≤ 0x7F ∧ b ≠ 0 := by
  have hdash : (45 : UInt8) ≤ 0x7F ∧ (45 : UInt8) ≠ 0 := by decide
  have hhex : ∀ n < 16, hexDigit n ≤ 0x7F ∧ hexDigit n ≠ 0 := by decide
  have hdigit : ∀ i n b, b ∈ (List.range n).map
      (fun k => hexDigit (u.toNat / 16 ^ (31 - (i + k)) % 16)) → b ≤ 0x7F ∧ b ≠ 0 := by
    intro i n b hb
    obtain ⟨k, _, rfl⟩ := List.mem_map.mp hb
    exact hhex _ (Nat.mod_lt _ (by decide))
  intro b hb
  simp only [UUID.text, List.mem_append, List.mem_singleton] at hb
  rcases hb with (((((((hb | rfl) | hb) | rfl) | hb) | rfl) | hb) | rfl) | hb
  all_goals first | exact hdash | exact hdigit _ _ _ hb

/-- `ExternalAccountID`, 00000000-0000-0000-0000-000000000001. -/
def externalAccountID : UUID := 1#128

/-! ## 2. Enumerations -/

inductive TransactionKind where
  | transfer
  | reversal
  | deposit
  | withdrawal
  deriving DecidableEq, Repr

/-- The string value of the Go constant. -/
def TransactionKind.text : TransactionKind → String
  | .transfer => "TRANSFER"
  | .reversal => "REVERSAL"
  | .deposit => "DEPOSIT"
  | .withdrawal => "WITHDRAWAL"

inductive Direction where
  | debit
  | credit
  deriving DecidableEq, Repr

def Direction.text : Direction → String
  | .debit => "DEBIT"
  | .credit => "CREDIT"

inductive Outcome where
  | success
  | failure
  deriving DecidableEq, Repr

def Outcome.text : Outcome → String
  | .success => "SUCCESS"
  | .failure => "FAILURE"

/-! ## 3. Errors -/

/-- The sentinel errors of `errors.go`. -/
inductive Sentinel where
  | accountNotFound
  | transactionNotFound
  | insufficientFunds
  | selfTransfer
  | alreadyReversed
  | notReversible
  | idempotencyConflict
  | invalidAmount
  | systemAccount
  deriving DecidableEq, Repr

def Sentinel.text : Sentinel → String
  | .accountNotFound => "account not found"
  | .transactionNotFound => "transaction not found"
  | .insufficientFunds => "insufficient funds"
  | .selfTransfer => "self-transfer not allowed"
  | .alreadyReversed => "transaction already reversed"
  | .notReversible => "transaction is not reversible"
  | .idempotencyConflict => "idempotency key conflict"
  | .invalidAmount => "amount must be positive"
  | .systemAccount => "operation not permitted on system account"

/-- The SQLSTATE codes the schema can raise. -/
inductive SqlState where
  | protocolViolation
  | numericValueOutOfRange
  | characterNotInRepertoire
  | invalidBinaryRepresentation
  | foreignKeyViolation
  | uniqueViolation
  | checkViolation
  | raiseException
  deriving DecidableEq, Repr

def SqlState.code : SqlState → String
  | .protocolViolation => "08P01"
  | .numericValueOutOfRange => "22003"
  | .characterNotInRepertoire => "22021"
  | .invalidBinaryRepresentation => "22P03"
  | .foreignKeyViolation => "23503"
  | .uniqueViolation => "23505"
  | .checkViolation => "23514"
  | .raiseException => "P0001"

/-- `pgconn.PgError`, the fields the store reads. -/
structure PgError where
  state : SqlState
  constraintName : String
  detail : GoString
  message : String
  deriving DecidableEq, Repr

/-- An error of a store call: one Postgres reported, or anything else (a lost connection, a
    cancelled context), which `errors.As` does not match. -/
inductive StoreError where
  | pg (e : PgError)
  | other (text : String)
  deriving DecidableEq, Repr

def StoreError.error : StoreError → String
  | .pg e => "ERROR: " ++ e.message ++ " (SQLSTATE " ++ e.state.code ++ ")"
  | .other text => text

inductive Err where
  | sentinel (s : Sentinel)
  | wrapped (context : String) (e : StoreError)
  deriving DecidableEq, Repr

/-- `error.Error()`. -/
def Err.error : Err → String
  | .sentinel s => s.text
  | .wrapped context e => context ++ ": " ++ e.error

/-! ## 4. The domain structs -/

/-- `ledger.Account`, without the two time stamps that no operation reads. -/
structure Account where
  id : UUID
  name : GoString
  balance : Money
  isSystem : Bool
  deriving DecidableEq, Repr

/-- The zero value `Account{}`. -/
def Account.zeroValue : Account := ⟨0#128, [], Money.zeroValue, false⟩

/-- `ledger.Entry`. -/
structure Entry where
  id : Nat
  transactionID : UUID
  accountID : UUID
  direction : Direction
  accountName : GoString
  amount : Money
  createdAt : Time
  deriving DecidableEq, Repr

/-- `ledger.Transaction`. -/
structure Transaction where
  id : UUID
  kind : TransactionKind
  idempotencyKey : GoString
  reversesTransactionID : Option UUID
  createdAt : Time
  entries : List Entry
  deriving DecidableEq, Repr

/-- `ledger.AuditEntry` as the service fills it in: the operation is one of the kind texts. -/
structure AuditEntry where
  operation : TransactionKind
  fromAccount : Option UUID
  toAccount : Option UUID
  amount : Option Money
  outcome : Outcome
  errorReason : Option String
  transactionID : Option UUID
  requestID : GoString
  deriving DecidableEq, Repr

end BankingService
