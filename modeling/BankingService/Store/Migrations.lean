/-
  File:      BankingService/Store/Migrations.lean
  Subject:   The migrations 0001, 0002 and 0003 up, 0002 and 0003 down, statement by statement, and
             the database the three up migrations leave behind.

  A migration file runs as one batch: its statements see the effects of the previous ones, an error
  undoes all of them, and the deferred double-entry trigger fires at the end, once for every entry
  that was inserted. 0001 creates empty tables; 0002 seeds EXTERNAL; 0003 seeds three accounts with
  one deposit each. A DELETE of a row that is still referred to is refused.
-/
import BankingService.Store.Statements

namespace BankingService

/-- After 0001: every table empty. -/
def Db.empty : Db := ⟨⟨[], [], []⟩, [], 0, 0⟩

/-- `INSERT INTO accounts … ON CONFLICT DO NOTHING`, one row. -/
def insertAccountDoNothing (L : Ledger) (row : AccountRow) : Ledger :=
  if (L.account? row.id).isSome then L else { L with accounts := L.accounts ++ [row] }

/-- `INSERT INTO transactions … ON CONFLICT DO NOTHING`, one row. -/
def insertTransactionDoNothing (L : Ledger) (row : TransactionRow) : Ledger :=
  if row.indexKeys.any L.indexed then L else { L with transactions := L.transactions ++ [row] }

/-- `0002_seed_system_account.up.sql`. -/
def migrate0002Up (db : Db) : Db :=
  { db with toLedger :=
      insertAccountDoNothing db.toLedger ⟨externalAccountID, bytes "EXTERNAL", 0, true⟩ }

def aliceID : UUID := 2#128
def bobID : UUID := 3#128
def charlieID : UUID := 4#128

/-- 01900000-0000-7000-8000-00000000000n. -/
def seedDepositID (n : Nat) : UUID := 0x01900000000070008000000000000000#128 + BitVec.ofNat 128 n

/-- The amount of each seed deposit, 10000.0000. -/
def seedAmount : Int := 100000000

/-- `UPDATE accounts SET balance = -30000.0000 WHERE id = EXTERNAL AND NOT EXISTS (…)`. -/
def seedExternalBalance (L : Ledger) : Ledger :=
  if (L.transactionByKey? (bytes "seed-deposit-alice-001")).isSome then L
  else
    { L with accounts := L.accounts.map fun a =>
        if a.id = externalAccountID then { a with balance := -300000000 } else a }

/-- `INSERT INTO entries … SELECT … WHERE NOT EXISTS (…)`. -/
def seedEntry (now : Time) (txID accountID : UUID) (direction : Direction) (db : Db) :
    Except PgError Db :=
  if db.entries.any fun e =>
      e.transactionID == txID && e.accountID == accountID && e.direction == direction then .ok db
  else if (db.transaction? txID).isNone then
    .error (foreignKeyViolation "entries" "entries_transaction_id_fkey")
  else if (db.account? accountID).isNone then
    .error (foreignKeyViolation "entries" "entries_account_id_fkey")
  else
    .ok { db with
      entries := db.entries ++
        [⟨db.entriesSeq + 1, txID, accountID, direction, seedAmount, now⟩]
      entriesSeq := db.entriesSeq + 1 }

/-- The trigger at the end of the batch, for the entries it has added to those of `before`. -/
def checkSeedEntries (before db : Db) : Except PgError Db :=
  match (db.entries.drop before.entries.length).find? fun e =>
      doubleEntrySum db.entries e.transactionID != 0 with
  | some e =>
    .error (doubleEntryViolation e.transactionID (doubleEntrySum db.entries e.transactionID))
  | none => .ok db

/-- `0003_seed_demo_accounts.up.sql`. -/
def migrate0003Up (now : Time) (before : Db) : Except PgError Db := do
  let accounts : List AccountRow :=
    [⟨aliceID, bytes "Alice", seedAmount, false⟩, ⟨bobID, bytes "Bob", seedAmount, false⟩,
      ⟨charlieID, bytes "Charlie", seedAmount, false⟩]
  let deposits : List TransactionRow :=
    [⟨seedDepositID 1, .deposit, bytes "seed-deposit-alice-001", none, now⟩,
      ⟨seedDepositID 2, .deposit, bytes "seed-deposit-bob-001", none, now⟩,
      ⟨seedDepositID 3, .deposit, bytes "seed-deposit-charlie-001", none, now⟩]
  let L := seedExternalBalance (accounts.foldl insertAccountDoNothing before.toLedger)
  let L := deposits.foldl insertTransactionDoNothing L
  let db := { before with toLedger := L }
  let db ← seedEntry now (seedDepositID 1) externalAccountID .debit db
  let db ← seedEntry now (seedDepositID 1) aliceID .credit db
  let db ← seedEntry now (seedDepositID 2) externalAccountID .debit db
  let db ← seedEntry now (seedDepositID 2) bobID .credit db
  let db ← seedEntry now (seedDepositID 3) externalAccountID .debit db
  let db ← seedEntry now (seedDepositID 3) charlieID .credit db
  checkSeedEntries before db

/-- The database after migrations 0001 to 0003, run at time `now`. -/
def Db.migrated (now : Time) : Db :=
  match migrate0003Up now (migrate0002Up Db.empty) with
  | .ok db => db
  | .error _ => Db.empty

/-- The refusal to delete a row that another table refers to. -/
def restrictViolation (table constraintName referring : String) : PgError :=
  ⟨.foreignKeyViolation, constraintName, [],
    "update or delete on table \"" ++ table ++ "\" violates foreign key constraint \"" ++
      constraintName ++ "\" on table \"" ++ referring ++ "\""⟩

/-- `DELETE FROM entries WHERE …`; nothing refers to an entry. -/
def deleteEntries (p : EntryRow → Bool) (L : Ledger) : Ledger :=
  { L with entries := L.entries.filter fun e => !p e }

/-- `DELETE FROM transactions WHERE …`, refused if a reversal or an entry refers to a row. -/
def deleteTransactions (p : TransactionRow → Bool) (L : Ledger) : Except PgError Ledger :=
  let gone := (L.transactions.filter p).map (·.id)
  let kept := L.transactions.filter fun t => !p t
  if kept.any fun t => t.reversesTransactionID.any fun id => gone.contains id then
    .error (restrictViolation "transactions" "transactions_reverses_transaction_id_fkey"
      "transactions")
  else if L.entries.any fun e => gone.contains e.transactionID then
    .error (restrictViolation "transactions" "entries_transaction_id_fkey" "entries")
  else .ok { L with transactions := kept }

/-- `DELETE FROM accounts WHERE …`, refused if an entry refers to a row. -/
def deleteAccounts (p : AccountRow → Bool) (L : Ledger) : Except PgError Ledger :=
  let gone := (L.accounts.filter p).map (·.id)
  if L.entries.any fun e => gone.contains e.accountID then
    .error (restrictViolation "accounts" "entries_account_id_fkey" "entries")
  else .ok { L with accounts := L.accounts.filter fun a => !p a }

theorem deleteTransactions_ok {p : TransactionRow → Bool} {L L' : Ledger}
    (h : deleteTransactions p L = .ok L') :
    L' = { L with transactions := L.transactions.filter fun t => !p t } := by
  simp only [deleteTransactions] at h
  split at h
  · cases h
  · split at h
    · cases h
    · cases h
      rfl

/-- A DELETE that finds nothing. -/
theorem deleteTransactions_none {p : TransactionRow → Bool} {L : Ledger}
    (h : ∀ t ∈ L.transactions, p t = false) : deleteTransactions p L = .ok L := by
  have hgone : L.transactions.filter p = [] :=
    List.filter_eq_nil_iff.mpr fun t ht => Bool.not_eq_true _ ▸ h t ht
  have hkept : (L.transactions.filter fun t => !p t) = L.transactions :=
    List.filter_eq_self.mpr fun t ht => by rw [h t ht]; rfl
  simp [deleteTransactions, hgone, hkept]

theorem deleteAccounts_iff {p : AccountRow → Bool} {L L' : Ledger} :
    deleteAccounts p L = .ok L' ↔
      (∀ e ∈ L.entries, ∀ a ∈ L.accounts, p a = true → a.id ≠ e.accountID) ∧
        L' = { L with accounts := L.accounts.filter fun a => !p a } := by
  have hany : (L.entries.any fun e => ((L.accounts.filter p).map (·.id)).contains e.accountID) =
      false ↔ ∀ e ∈ L.entries, ∀ a ∈ L.accounts, p a = true → a.id ≠ e.accountID := by
    simp
  simp only [deleteAccounts]
  split
  · rename_i h
    constructor
    · intro h'
      cases h'
    · intro h'
      rw [hany.mpr h'.1] at h
      cases h
  · rename_i h
    constructor
    · intro h'
      cases h'
      exact ⟨hany.mp (Bool.not_eq_true _ ▸ h), rfl⟩
    · intro h'
      rw [h'.2]

/-- `SELECT DISTINCT transaction_id FROM entries WHERE account_id = EXTERNAL`. -/
def externalTransactions (L : Ledger) : List UUID :=
  ((L.entries.filter fun e => e.accountID = externalAccountID).map (·.transactionID)).dedup

/-- `0002_seed_system_account.down.sql`: the second statement selects by a table the first one has
    already deleted from. -/
def migrate0002Down (db : Db) : Except PgError Db := do
  let L := deleteEntries (fun e => (externalTransactions db.toLedger).contains e.transactionID)
    db.toLedger
  let L ← deleteTransactions (fun t => (externalTransactions L).contains t.id) L
  let L ← deleteAccounts (fun a => a.id = externalAccountID) L
  .ok { db with toLedger := L }

/-- `0003_seed_demo_accounts.down.sql`. -/
def migrate0003Down (db : Db) : Except PgError Db := do
  let L := deleteEntries (fun e =>
    [seedDepositID 1, seedDepositID 2, seedDepositID 3].contains e.transactionID) db.toLedger
  let L ← deleteTransactions (fun t =>
    [bytes "seed-deposit-alice-001", bytes "seed-deposit-bob-001",
      bytes "seed-deposit-charlie-001"].contains t.idempotencyKey) L
  let L ← deleteAccounts (fun a => [aliceID, bobID, charlieID].contains a.id) L
  .ok { db with toLedger :=
    { L with accounts := L.accounts.map fun a =>
        if a.id = externalAccountID then { a with balance := 0 } else a } }

/-- The seed keys differ, as bytes. -/
theorem seedKey_ne :
    bytes "seed-deposit-alice-001" ≠ bytes "seed-deposit-bob-001" ∧
      bytes "seed-deposit-alice-001" ≠ bytes "seed-deposit-charlie-001" ∧
      bytes "seed-deposit-bob-001" ≠ bytes "seed-deposit-charlie-001" := by
  decide

/-- The accounts table after the migrations. -/
def migratedAccounts : List AccountRow :=
  [⟨externalAccountID, bytes "EXTERNAL", -300000000, true⟩,
    ⟨aliceID, bytes "Alice", seedAmount, false⟩, ⟨bobID, bytes "Bob", seedAmount, false⟩,
    ⟨charlieID, bytes "Charlie", seedAmount, false⟩]

/-- **The migrated database**, written out: the three seed deposits are booked on EXTERNAL, Alice,
    Bob and Charlie. -/
theorem Db.migrated_eq (now : Time) :
    Db.migrated now =
      ⟨⟨migratedAccounts,
        [⟨seedDepositID 1, .deposit, bytes "seed-deposit-alice-001", none, now⟩,
          ⟨seedDepositID 2, .deposit, bytes "seed-deposit-bob-001", none, now⟩,
          ⟨seedDepositID 3, .deposit, bytes "seed-deposit-charlie-001", none, now⟩],
        [⟨1, seedDepositID 1, externalAccountID, .debit, seedAmount, now⟩,
          ⟨2, seedDepositID 1, aliceID, .credit, seedAmount, now⟩,
          ⟨3, seedDepositID 2, externalAccountID, .debit, seedAmount, now⟩,
          ⟨4, seedDepositID 2, bobID, .credit, seedAmount, now⟩,
          ⟨5, seedDepositID 3, externalAccountID, .debit, seedAmount, now⟩,
          ⟨6, seedDepositID 3, charlieID, .credit, seedAmount, now⟩]⟩, [], 6, 0⟩ := by
  obtain ⟨h₁, h₂, h₃⟩ := seedKey_ne
  simp [Db.migrated, migrate0003Up, migrate0002Up, Db.empty, insertAccountDoNothing,
    insertTransactionDoNothing, seedExternalBalance, seedEntry, checkSeedEntries, Ledger.account?,
    Ledger.transaction?, Ledger.transactionByKey?, Ledger.indexed, TransactionRow.indexKeys,
    doubleEntrySum, externalAccountID, aliceID, bobID, charlieID, seedDepositID,
    h₁.symm, h₂.symm, h₃.symm]
  rfl

end BankingService
