/-
  File:      BankingService/Store/Schema.lean
  Subject:   The tables of `migrations/0001_init.up.sql` as the server holds them, the private
             state of an open database transaction, and the errors the schema raises.

  * A table is the list of its rows in insertion order. A `NUMERIC(20,4)` value is an `Int` of
    ten-thousandths. The columns `accounts.created_at` and `accounts.updated_at`, which no
    operation reads, are left out.
  * `Ledger` is what the operations are about: accounts, transactions, entries. `Db` adds the audit
    log and the two sequences, which no rollback gives back.
  * `Tx` is what a `READ COMMITTED` transaction keeps to itself until it commits: row locks,
    entries in the unique indexes of `transactions`, and uncommitted writes.
  * `Config` is what is left open about the server: the order of `id::text`, and whether the CHECK
    constraints and the double-entry trigger are in place or have been dropped.
-/
import BankingService.Ledger.Types

namespace BankingService

/-! ## 1. Rows -/

structure AccountRow where
  id : UUID
  name : GoString
  balance : Int
  isSystem : Bool
  deriving DecidableEq, Repr

structure TransactionRow where
  id : UUID
  kind : TransactionKind
  idempotencyKey : GoString
  reversesTransactionID : Option UUID
  createdAt : Time
  deriving DecidableEq, Repr

structure EntryRow where
  id : Nat
  transactionID : UUID
  accountID : UUID
  direction : Direction
  amount : Int
  createdAt : Time
  deriving DecidableEq, Repr

structure AuditRow where
  id : Nat
  operation : TransactionKind
  fromAccount : Option UUID
  toAccount : Option UUID
  amount : Option Int
  outcome : Outcome
  errorReason : Option String
  transactionID : Option UUID
  requestID : GoString
  createdAt : Time
  deriving DecidableEq, Repr

/-- The three tables that hold money. -/
structure Ledger where
  accounts : List AccountRow
  transactions : List TransactionRow
  entries : List EntryRow
  deriving DecidableEq, Repr

/-- The committed contents of the database. `entriesSeq` and `auditSeq` are the last values of
    the `BIGSERIAL` sequences. -/
structure Db extends Ledger where
  auditLog : List AuditRow
  entriesSeq : Nat
  auditSeq : Nat
  deriving DecidableEq, Repr

/-! ## 2. Reading the tables -/

namespace Ledger

def account? (L : Ledger) (id : UUID) : Option AccountRow := L.accounts.find? (·.id = id)

def transaction? (L : Ledger) (id : UUID) : Option TransactionRow :=
  L.transactions.find? (·.id = id)

def transactionByKey? (L : Ledger) (key : GoString) : Option TransactionRow :=
  L.transactions.find? (·.idempotencyKey = key)

/-- The entries of one transaction, in insertion order. -/
def legsOf (L : Ledger) (txID : UUID) : List EntryRow :=
  L.entries.filter (·.transactionID = txID)

end Ledger

/-- `amount * CASE direction WHEN 'CREDIT' THEN 1 ELSE -1 END`. -/
def EntryRow.signed (e : EntryRow) : Int :=
  match e.direction with
  | .credit => e.amount
  | .debit => -e.amount

/-! ## 3. Text columns -/

/-- A UTF-8 continuation byte. -/
def utf8Cont (b : UInt8) : Bool := 0x80 ≤ b && b ≤ 0xBF

/-- Well-formed UTF-8: shortest forms only, no surrogates, nothing above U+10FFFF. -/
def utf8Valid : GoString → Bool
  | [] => true
  | a :: rest =>
    if a ≤ 0x7F then utf8Valid rest
    else
      match rest with
      | [] => false
      | b :: rest =>
        if 0xC2 ≤ a && a ≤ 0xDF then utf8Cont b && utf8Valid rest
        else
          match rest with
          | [] => false
          | c :: rest =>
            if 0xE0 ≤ a && a ≤ 0xEF then
              (if a = 0xE0 then 0xA0 ≤ b && b ≤ 0xBF
                else if a = 0xED then 0x80 ≤ b && b ≤ 0x9F else utf8Cont b) &&
              utf8Cont c && utf8Valid rest
            else
              match rest with
              | [] => false
              | d :: rest =>
                (0xF0 ≤ a && a ≤ 0xF4) &&
                (if a = 0xF0 then 0x90 ≤ b && b ≤ 0xBF
                  else if a = 0xF4 then 0x80 ≤ b && b ≤ 0x8F else utf8Cont b) &&
                utf8Cont c && utf8Cont d && utf8Valid rest

/-- What a `TEXT` parameter may hold: valid UTF-8 without a NUL byte. -/
def pgText (s : GoString) : Bool := utf8Valid s && !s.contains 0

theorem utf8Valid_of_ascii {s : GoString} (h : ∀ b ∈ s, b ≤ 0x7F) : utf8Valid s = true := by
  induction s with
  | nil => rfl
  | cons b s ih =>
      unfold utf8Valid
      rw [if_pos (h b List.mem_cons_self)]
      exact ih fun b hb => h b (List.mem_cons_of_mem _ hb)

/-- The text of a UUID can be stored. -/
theorem pgText_uuid (u : UUID) : pgText u.text = true := by
  have h0 : u.text.contains 0 = false := by
    rw [List.contains_eq_mem]
    exact decide_eq_false fun h => (u.text_ascii 0 h).2 rfl
  rw [pgText, utf8Valid_of_ascii fun b hb => (u.text_ascii b hb).1, h0]
  rfl

/-! ## 4. The unique indexes of `transactions` -/

/-- The unique indexes, in the order they were created, which is the order an INSERT fills them. -/
inductive UniqueIndex where
  | pkey
  | idempotencyKey
  | reverses
  deriving DecidableEq, Repr

/-- An entry in one of them. A NULL is not indexed. -/
inductive IndexKey where
  | id (u : UUID)
  | key (s : GoString)
  | reverses (u : UUID)
  deriving DecidableEq, Repr

def TransactionRow.indexKeys (r : TransactionRow) : List IndexKey :=
  [.id r.id, .key r.idempotencyKey] ++ (r.reversesTransactionID.map .reverses).toList

/-- A committed row carries the index entry. -/
def Ledger.indexed (L : Ledger) (k : IndexKey) : Bool :=
  L.transactions.any fun r => decide (k ∈ r.indexKeys)

def UniqueIndex.all : List UniqueIndex := [.pkey, .idempotencyKey, .reverses]

/-- The entry a header writes into an index. -/
def Transaction.indexKey (t : Transaction) : UniqueIndex → Option IndexKey
  | .pkey => some (.id t.id)
  | .idempotencyKey => some (.key t.idempotencyKey)
  | .reverses => t.reversesTransactionID.map .reverses

/-! ## 5. Errors the schema raises -/

def numericOverflow : PgError :=
  ⟨.numericValueOutOfRange, "",
    bytes "A field with precision 20, scale 4 must round to an absolute value less than 10^16.",
    "numeric field overflow"⟩

def invalidText : PgError :=
  ⟨.characterNotInRepertoire, "", [], "invalid byte sequence for encoding \"UTF8\""⟩

def checkViolation (table constraintName : String) : PgError :=
  ⟨.checkViolation, constraintName, [],
    "new row for relation \"" ++ table ++ "\" violates check constraint \"" ++ constraintName ++
      "\""⟩

def foreignKeyViolation (table constraintName : String) : PgError :=
  ⟨.foreignKeyViolation, constraintName, [],
    "insert or update on table \"" ++ table ++ "\" violates foreign key constraint \"" ++
      constraintName ++ "\""⟩

def uniqueViolation (constraintName column : String) (value : GoString) : PgError :=
  ⟨.uniqueViolation, constraintName,
    bytes "Key (" ++ bytes column ++ bytes ")=(" ++ value ++ bytes ") already exists.",
    "duplicate key value violates unique constraint \"" ++ constraintName ++ "\""⟩

/-- The violation of the index an entry belongs to. -/
def IndexKey.violation : IndexKey → PgError
  | .id u => uniqueViolation "transactions_pkey" "id" u.text
  | .key s => uniqueViolation "transactions_idempotency_key_key" "idempotency_key" s
  | .reverses u =>
      uniqueViolation "transactions_reverses_transaction_id_key" "reverses_transaction_id" u.text

/-- A `NUMERIC(20,4)` value as text. -/
def numericText (n : Int) : String :=
  let f := toString (n.natAbs % 10000)
  (if n < 0 then "-" else "") ++ toString (n.natAbs / 10000) ++ "." ++
    "".pushn '0' (4 - f.length) ++ f

/-- The exception of `check_double_entry_balance`. -/
def doubleEntryViolation (txID : UUID) (sum : Int) : PgError :=
  ⟨.raiseException, "", [],
    "double-entry invariant violated for transaction " ++
      String.ofList (txID.text.map fun b => Char.ofNat b.toNat) ++
      ": net sum is " ++ numericText sum⟩

/-! ## 6. Open transactions -/

/-- A row a lock is taken on. -/
inductive Row where
  | account (id : UUID)
  | transaction (id : UUID)
  deriving DecidableEq, Repr

/-- The private state of an open database transaction. -/
structure Tx where
  /-- `now()`: the time the transaction began. -/
  now : Time
  forUpdate : List Row
  forKeyShare : List Row
  /-- Uncommitted `UPDATE accounts SET balance`, newest first. -/
  balances : List (UUID × Int)
  index : List IndexKey
  header : Option TransactionRow
  entries : List EntryRow
  deriving DecidableEq, Repr

def Tx.start (now : Time) : Tx := ⟨now, [], [], [], [], none, []⟩

/-- The tables once the transaction's writes are visible. -/
def Tx.apply (tx : Tx) (L : Ledger) : Ledger where
  accounts := L.accounts.map fun a =>
    match tx.balances.lookup a.id with
    | some n => { a with balance := n }
    | none => a
  transactions := L.transactions ++ tx.header.toList
  entries := L.entries ++ tx.entries

/-! ## 7. The server -/

/-- What is left open about the server. -/
structure Config where
  /-- The order of `id::text` under the database's collation. -/
  textLe : UUID → UUID → Bool
  textLe_total : ∀ a b, textLe a b = true ∨ textLe b a = true
  textLe_trans : ∀ a b c, textLe a b = true → textLe b c = true → textLe a c = true
  textLe_antisymm : ∀ a b, textLe a b = true → textLe b a = true → a = b
  /-- The CHECK constraints and the double-entry trigger are in place. -/
  constraints : Bool

/-- The schema as migrated, with a collation that orders hexadecimal text as the number. -/
def Config.migrated : Config where
  textLe a b := decide (a.toNat ≤ b.toNat)
  textLe_total a b := by simpa using Nat.le_total a.toNat b.toNat
  textLe_trans a b c := by simpa using Nat.le_trans
  textLe_antisymm a b := by
    intro h h'
    exact BitVec.eq_of_toNat_eq (Nat.le_antisymm (by simpa using h) (by simpa using h'))
  constraints := true

end BankingService
