/-
  File:      BankingService/Store/Statements.lean
  Subject:   `internal/store`: the statements of `accounts.go`, `transactions.go`, `audit.go` and
             the COMMIT of `postgres.go`, each as what the server answers and changes.

  A statement that can fail returns `Except PgError`. Statements inside a transaction change its
  `Tx`; the queries outside a transaction read the committed tables. Whether a statement has to
  wait for another transaction is decided by the machine that runs it, not here.

  `insertTransactionErr` and `insertReversalTransactionErr` are the error dispatch after the header
  INSERT, the second with its fallback on the error's detail text. Only `WriteAudit` adds to the
  audit log, and what it adds is said once (`writeAudit_eq`).
-/
import Mathlib.Data.List.Sort
import BankingService.Store.Numeric

namespace BankingService

/-- Steps in a row that succeed: the first one does, and then the others. -/
theorem bind_eq_ok {ε α β : Type} {x : Except ε α} {f : α → Except ε β} {b : β}
    (h : x >>= f = .ok b) : ∃ a, x = .ok a ∧ f a = .ok b := by
  cases x with
  | error => cases h
  | ok a => exact ⟨a, rfl, h⟩

/-! ## 1. accounts.go -/

/-- `scanAccount`. -/
def scanAccount (a : AccountRow) : Account := ⟨a.id, a.name, Money.ofColumn a.balance, a.isSystem⟩

@[simp] theorem scanAccount_id (a : AccountRow) : (scanAccount a).id = a.id := rfl

@[simp] theorem scanAccount_balance (a : AccountRow) :
    (scanAccount a).balance = Money.ofColumn a.balance := rfl

/-- The ids of `LockAccountsForUpdate`, sorted by their canonical string form. -/
def sortIDs (ids : List UUID) : List UUID := ids.insertionSort (fun a b => a.text ≤ b.text)

/-- The rows `SELECT … WHERE id = ANY($1) ORDER BY id::text FOR UPDATE` sees when it starts, in
    the order it will lock them. -/
def lockAccountsForUpdate (cfg : Config) (L : Ledger) (ids : List UUID) : List UUID :=
  ((L.accounts.filter fun a => decide (a.id ∈ sortIDs ids)).map (·.id)).insertionSort
    (fun a b => cfg.textLe a b = true)

/-- `UpdateBalance`. An UPDATE that finds no row changes nothing and is no error. -/
def updateBalance (cfg : Config) (L : Ledger) (tx : Tx) (id : UUID) (newBalance : Money) :
    Except PgError Tx :=
  match newBalance.toColumn 1 with
  | .error e => .error e
  | .ok n =>
    match L.account? id with
    | none => .ok tx
    | some a =>
      if cfg.constraints && !(a.isSystem || decide (0 ≤ n)) then
        .error (checkViolation "accounts" "non_negative_user_balance")
      else .ok { tx with balances := (id, n) :: tx.balances }

/-- The INSERT of `CreateAccount`. -/
def insertAccount (L : Ledger) (id : UUID) (name : GoString) : Except PgError Ledger :=
  if !pgText name then .error invalidText
  else if (L.account? id).isSome then .error (uniqueViolation "accounts_pkey" "id" id.text)
  else .ok { L with accounts := L.accounts ++ [⟨id, name, 0, false⟩] }

/-! ## 2. transactions.go: writes -/

/-- `CHECK (kind IN (…))`. -/
def kindCheck (kind : String) : Bool :=
  kind ∈ ["TRANSFER", "REVERSAL", "DEPOSIT", "WITHDRAWAL"]

/-- `CHECK (direction IN (…))`. -/
def directionCheck (direction : String) : Bool := direction ∈ ["DEBIT", "CREDIT"]

/-- The header INSERT up to its index entries: parameter encoding and the CHECK on the kind. -/
def checkHeader (cfg : Config) (t : Transaction) : Except PgError Unit :=
  if !pgText t.idempotencyKey then .error invalidText
  else if cfg.constraints && !kindCheck t.kind.text then
    .error (checkViolation "transactions" "transactions_kind_check")
  else .ok ()

/-- One unique index of the header INSERT; a NULL is not indexed. -/
def insertIndex (L : Ledger) (tx : Tx) : Option IndexKey → Except PgError Tx
  | none => .ok tx
  | some k =>
    if L.indexed k then .error k.violation else .ok { tx with index := tx.index ++ [k] }

/-- The row the header INSERT leaves: `created_at` defaults to `now()`. -/
def headerRow (t : Transaction) (now : Time) : TransactionRow :=
  ⟨t.id, t.kind, t.idempotencyKey, t.reversesTransactionID, now⟩

/-- The end of the header INSERT: the foreign key of `reverses_transaction_id`, which takes a
    `FOR KEY SHARE` lock on the row it refers to. -/
def insertHeader (L : Ledger) (tx : Tx) (t : Transaction) : Except PgError Tx :=
  let row := headerRow t tx.now
  match t.reversesTransactionID with
  | none => .ok { tx with header := some row }
  | some r =>
    if (L.transaction? r).isSome || r == t.id then
      .ok { tx with header := some row, forKeyShare := tx.forKeyShare ++ [.transaction r] }
    else
      .error (foreignKeyViolation "transactions" "transactions_reverses_transaction_id_fkey")

/-- `containsSubstr`. -/
def containsSubstr (s sub : GoString) : Bool :=
  if sub.length = 0 then true
  else (List.range (s.length + 1 - sub.length)).any fun i => (s.drop i).take sub.length == sub

/-- What `InsertTransaction` makes of a failed INSERT: every 23505 is a key conflict. -/
def insertTransactionErr : StoreError → Err
  | .pg e =>
    if e.state = .uniqueViolation then .sentinel .idempotencyConflict
    else .wrapped "store.InsertTransaction" (.pg e)
  | .other text => .wrapped "store.InsertTransaction" (.other text)

/-- What `InsertReversalTransaction` makes of a failed INSERT. -/
def insertReversalTransactionErr : StoreError → Err
  | .pg e =>
    if e.state = .uniqueViolation then
      if e.constraintName = "transactions_reverses_transaction_id_key" then
        .sentinel .alreadyReversed
      else if e.constraintName = "transactions_idempotency_key_key" then
        .sentinel .idempotencyConflict
      -- the fallback looks for the column's name anywhere in the detail
      else if containsSubstr e.detail (bytes "reverses_transaction_id") then
        .sentinel .alreadyReversed
      else .sentinel .idempotencyConflict
    else .wrapped "store.InsertReversalTransaction" (.pg e)
  | .other text => .wrapped "store.InsertReversalTransaction" (.other text)

/-- The guard of `InsertEntries` before its first INSERT. -/
def entriesPositive (entries : List Entry) : Bool := entries.all (·.amount.isPositive)

/-- One INSERT of `InsertEntries`. Its foreign keys take `FOR KEY SHARE` locks. A number that a
    refused row has drawn from the sequence is not counted: ids are only compared. -/
def insertEntry (cfg : Config) (db : Db) (tx : Tx) (e : Entry) : Except PgError (Db × Tx) :=
  match e.amount.toColumn 4 with
  | .error e => .error e
  | .ok n =>
    if cfg.constraints && !decide (0 < n) then
      .error (checkViolation "entries" "entries_amount_check")
    else if cfg.constraints && !directionCheck e.direction.text then
      .error (checkViolation "entries" "entries_direction_check")
    else if !((db.transaction? e.transactionID).isSome ||
        tx.header.any fun r => r.id == e.transactionID) then
      .error (foreignKeyViolation "entries" "entries_transaction_id_fkey")
    else if (db.account? e.accountID).isNone then
      .error (foreignKeyViolation "entries" "entries_account_id_fkey")
    else
      let row : EntryRow :=
        ⟨db.entriesSeq + 1, e.transactionID, e.accountID, e.direction, n, tx.now⟩
      .ok ({ db with entriesSeq := db.entriesSeq + 1 },
        { tx with
          entries := tx.entries ++ [row]
          forKeyShare := tx.forKeyShare ++ [.transaction e.transactionID, .account e.accountID] })

/-- The amount of an entry passes its column and its CHECK. -/
def entryTakes (cfg : Config) (m : Money) : Bool :=
  m.storable && (!cfg.constraints || decide (0 < m.stored))

theorem storable_of_entryTakes {cfg : Config} {m : Money} (h : entryTakes cfg m = true) :
    m.storable = true :=
  ((Bool.and_eq_true _ _).mp h).1

/-! ## 3. transactions.go: queries -/

/-- `scanTransaction`. -/
def scanTransaction (r : TransactionRow) : Transaction :=
  ⟨r.id, r.kind, r.idempotencyKey, r.reversesTransactionID, r.createdAt, []⟩

/-- `scanEntry` of an entry joined with its account's name. -/
def scanEntry (e : EntryRow) (name : GoString) : Entry :=
  ⟨e.id, e.transactionID, e.accountID, e.direction, name, Money.ofColumn e.amount, e.createdAt⟩

/-- The header query of `GetTransactionByIdempotencyKey`; a key that is no text is an error. -/
def getTransactionByIdempotencyKey (L : Ledger) (key : GoString) :
    Except PgError (Option Transaction) :=
  if !pgText key then .error invalidText
  else .ok ((L.transactionByKey? key).map scanTransaction)

/-- The header query of `GetTransaction`. -/
def getTransaction (L : Ledger) (id : UUID) : Option Transaction :=
  (L.transaction? id).map scanTransaction

/-- `listEntries`: the join drops an entry whose account does not exist. -/
def listEntries (L : Ledger) (txID : UUID) : List Entry :=
  ((L.legsOf txID).insertionSort (fun e e' => e.id ≤ e'.id)).filterMap fun e =>
    (L.account? e.accountID).map fun a => scanEntry e a.name

/-! ## 4. postgres.go and audit.go -/

/-- The sum `check_double_entry_balance` computes for one transaction. -/
def doubleEntrySum (entries : List EntryRow) (txID : UUID) : Int :=
  ((entries.filter (·.transactionID = txID)).map EntryRow.signed).sum

theorem doubleEntrySum_append (rows rows' : List EntryRow) (t : UUID) :
    doubleEntrySum (rows ++ rows') t = doubleEntrySum rows t + doubleEntrySum rows' t := by
  unfold doubleEntrySum
  rw [List.filter_append, List.map_append, List.sum_append]

theorem doubleEntrySum_cons (e : EntryRow) (rows : List EntryRow) (t : UUID) :
    doubleEntrySum (e :: rows) t =
      (if e.transactionID = t then e.signed else 0) + doubleEntrySum rows t := by
  unfold doubleEntrySum
  by_cases h : e.transactionID = t
  · simp [h]
  · simp [h]

theorem doubleEntrySum_none {rows : List EntryRow} {t : UUID}
    (h : ∀ e ∈ rows, e.transactionID ≠ t) : doubleEntrySum rows t = 0 := by
  unfold doubleEntrySum
  rw [List.filter_eq_nil_iff.mpr fun e he => by simpa using h e he]
  rfl

/-- Rows split by a predicate. -/
theorem doubleEntrySum_split (p : EntryRow → Bool) (rows : List EntryRow) (t : UUID) :
    doubleEntrySum rows t =
      doubleEntrySum (rows.filter p) t + doubleEntrySum (rows.filter fun e => !p e) t := by
  rw [← doubleEntrySum_append]
  exact (((List.filter_append_perm p rows).filter _).map _).sum_eq.symm

/-- Rows that sum to 0 stay so if the sums of what is added are checked. -/
theorem doubleEntrySum_checked {rows new : List EntryRow} (h : ∀ t, doubleEntrySum rows t = 0)
    (hnew : ∀ e ∈ new, doubleEntrySum (rows ++ new) e.transactionID = 0) (t : UUID) :
    doubleEntrySum (rows ++ new) t = 0 := by
  by_cases ht : ∃ e ∈ new, e.transactionID = t
  · obtain ⟨e, he, rfl⟩ := ht
    exact hnew e he
  · rw [doubleEntrySum_append, h t, doubleEntrySum_none fun e he e' => ht ⟨e, he, e'⟩]
    rfl

/-- COMMIT: the deferred trigger fires once per inserted entry, over the committed entries and the
    transaction's own; then every write becomes visible at once. -/
def commitTx (cfg : Config) (db : Db) (tx : Tx) : Except PgError Db :=
  match tx.entries.find? fun e =>
      cfg.constraints && doubleEntrySum (db.entries ++ tx.entries) e.transactionID != 0 with
  | some e =>
    .error (doubleEntryViolation e.transactionID
      (doubleEntrySum (db.entries ++ tx.entries) e.transactionID))
  | none => .ok { db with toLedger := tx.apply db.toLedger }

/-- The amount column of an audit row. -/
def auditAmount : Option Money → Except PgError (Option Int)
  | none => .ok none
  | some m =>
    match m.toColumn 4 with
    | .error e => .error e
    | .ok n => .ok (some n)

/-- `CHECK (outcome IN (…))`. -/
def outcomeCheck (outcome : String) : Bool := outcome ∈ ["SUCCESS", "FAILURE"]

/-- The text parameters of an audit row can be stored: the request id is client bytes, the error's
    text is UTF-8 but may carry a NUL. -/
def auditText (e : AuditEntry) : Bool :=
  pgText e.requestID && e.errorReason.all fun reason => !reason.toList.contains (Char.ofNat 0)

/-- `WriteAudit`. -/
def writeAudit (cfg : Config) (db : Db) (now : Time) (e : AuditEntry) : Except PgError Db :=
  if !auditText e then .error invalidText
  else
    match auditAmount e.amount with
    | .error err => .error err
    | .ok amount =>
      if cfg.constraints && !outcomeCheck e.outcome.text then
        .error (checkViolation "audit_log" "audit_log_outcome_check")
      else .ok { db with
        auditLog := db.auditLog ++
          [⟨db.auditSeq + 1, e.operation, e.fromAccount, e.toAccount, amount, e.outcome,
            e.errorReason, e.transactionID, e.requestID, now⟩]
        auditSeq := db.auditSeq + 1 }

/-! ## 5. The audit log -/

section Audit

variable {cfg : Config} {db db' : Db}

theorem insertEntry_auditLog {tx tx' : Tx} {e : Entry}
    (h : insertEntry cfg db tx e = .ok (db', tx')) : db'.auditLog = db.auditLog := by
  unfold insertEntry at h
  split at h
  · cases h
  · split at h
    · cases h
    · split at h
      · cases h
      · split at h
        · cases h
        · split at h
          · cases h
          · cases h
            rfl

theorem commitTx_auditLog {tx : Tx} (h : commitTx cfg db tx = .ok db') :
    db'.auditLog = db.auditLog := by
  unfold commitTx at h
  split at h
  · cases h
  · cases h
    rfl

/-- The row of an audit entry. -/
def AuditEntry.row (e : AuditEntry) (id : Nat) (now : Time) : AuditRow :=
  ⟨id, e.operation, e.fromAccount, e.toAccount, e.amount.map Money.stored, e.outcome, e.errorReason,
    e.transactionID, e.requestID, now⟩

/-- The row of an audit entry can be stored: its texts are text, and the server takes its amount. -/
def auditStorable (e : AuditEntry) : Bool := auditText e && e.amount.all Money.storable

/-- The database with the next audit row. -/
def Db.withAudit (db : Db) (now : Time) (e : AuditEntry) : Db :=
  { db with auditLog := db.auditLog ++ [e.row (db.auditSeq + 1) now], auditSeq := db.auditSeq + 1 }

theorem outcomeCheck_text (o : Outcome) : outcomeCheck o.text = true := by
  cases o <;> decide

theorem auditAmount_cases (m : Option Money) :
    (m.all Money.storable = true ∧ auditAmount m = .ok (m.map Money.stored)) ∨
      (m.all Money.storable = false ∧ ∃ e, auditAmount m = .error e) := by
  cases m with
  | none => exact .inl ⟨rfl, rfl⟩
  | some m =>
      rcases m.toColumn_cases 4 with ⟨hs, h⟩ | ⟨hs, _, e, h⟩
      · exact .inl ⟨hs, by simp only [auditAmount, h]; rfl⟩
      · exact .inr ⟨hs, e, by simp only [auditAmount, h]⟩

/-- **`WriteAudit`** stores the entry's row, or refuses it for what it holds and changes nothing. -/
theorem writeAudit_eq (cfg : Config) (db : Db) (now : Time) (e : AuditEntry) :
    (writeAudit cfg db now e).toOption =
      if auditStorable e then some (db.withAudit now e) else none := by
  have hcheck : (cfg.constraints && !outcomeCheck e.outcome.text) = false := by
    rw [outcomeCheck_text, Bool.not_true, Bool.and_false]
  unfold writeAudit auditStorable
  cases auditText e with
  | false => rfl
  | true =>
      rcases auditAmount_cases e.amount with ⟨hs, h⟩ | ⟨hs, err, h⟩
      · rw [h, hs]
        simp only [hcheck]
        rfl
      · rw [h, hs]
        rfl

theorem writeAudit_ok {now : Time} {e : AuditEntry} (h : writeAudit cfg db now e = .ok db') :
    auditStorable e = true ∧ db' = db.withAudit now e := by
  have he := writeAudit_eq cfg db now e
  rw [h] at he
  split at he
  · rename_i hs
    exact ⟨hs, Option.some.inj he⟩
  · cases he

theorem writeAudit_refused {now : Time} {e : AuditEntry} {err : PgError}
    (h : writeAudit cfg db now e = .error err) : auditStorable e = false := by
  have he := writeAudit_eq cfg db now e
  rw [h] at he
  split at he
  · cases he
  · rename_i hs
    exact Bool.eq_false_iff.mpr hs

end Audit

end BankingService
