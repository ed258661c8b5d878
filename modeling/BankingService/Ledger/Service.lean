/-
  File:      BankingService/Ledger/Service.lean
  Subject:   `internal/ledger/service.go`: `Transfer`, `Reverse` and `Deposit` as one state machine
             per call, one step per database statement.

  A call is a `Request` and the point its code has reached (`Phase`; inside `WithTx`, `Stage`).
  `requestStep` is the next statement of that call: what it does to the database and where the code
  continues, for every answer the outside can give (`Choice`): the server executes it, a fresh
  UUID, the store call fails, or COMMIT executes and its acknowledgement is lost. A blocked
  statement has no step.

  The three `WithTx` bodies are one body over a `Posting`: the two accounts in the order the source
  names them, which of them is debited, the amount, and whether funds are checked
  (`transferPosting`, `reversePosting`, `depositPosting`).

  * `requestStep_auditLog` -- what a step of a call writes to the audit log.
-/
import BankingService.Store.Statements

namespace BankingService

/-! ## 1. Requests -/

/-- A call of one of the three service methods. -/
inductive Request where
  | transfer (srcID dstID : UUID) (amount : Money) (idemKey requestID : GoString)
  | reverse (originalTxID : UUID) (idemKey requestID : GoString)
  | deposit (dstID : UUID) (amount : Money) (idemKey requestID : GoString)
  deriving DecidableEq, Repr

namespace Request

def key : Request → GoString
  | transfer _ _ _ k _ => k
  | reverse _ k _ => k
  | deposit _ _ k _ => k

def requestID : Request → GoString
  | transfer _ _ _ _ r => r
  | reverse _ _ r => r
  | deposit _ _ _ r => r

/-- The kind of the header, and the operation of the audit row. -/
def kind : Request → TransactionKind
  | transfer .. => .transfer
  | reverse .. => .reversal
  | deposit .. => .deposit

/-- The method's name in its error contexts. -/
def method : Request → String
  | transfer .. => "service.Transfer"
  | reverse .. => "service.Reverse"
  | deposit .. => "service.Deposit"

/-- The header built in memory (`txn`, `revTx`): no time stamp, no entries. -/
def txn : Request → UUID → Transaction
  | transfer _ _ _ idemKey _, txID => ⟨txID, .transfer, idemKey, none, 0, []⟩
  | reverse originalTxID idemKey _, txID => ⟨txID, .reversal, idemKey, some originalTxID, 0, []⟩
  | deposit _ _ idemKey _, txID => ⟨txID, .deposit, idemKey, none, 0, []⟩

/-- The error of the header INSERT, by the store function each method calls. -/
def insertErr : Request → StoreError → Err
  | transfer .., e => insertTransactionErr e
  | reverse .., e => insertReversalTransactionErr e
  | deposit .., e => insertTransactionErr e

/-- `auditFailure`. -/
def auditFailure (r : Request) (fromID toID : Option UUID) (amount : Option Money) (reason : Err) :
    AuditEntry :=
  ⟨r.kind, fromID, toID, amount, .failure, some reason.error, none, r.requestID⟩

/-- `auditSuccess`. -/
def auditSuccess (r : Request) (fromID toID : UUID) (amount : Money) (txID : UUID) : AuditEntry :=
  ⟨r.kind, some fromID, some toID, some amount, .success, none, some txID, r.requestID⟩

end Request

/-! ## 2. The body of `WithTx` -/

/-- What a `WithTx` closure captures: the accounts in the order of the lock call and of the switch
    over the locked rows, which of them is debited, the amount, and whether funds are checked. -/
structure Posting where
  first : UUID
  second : UUID
  debitFirst : Bool
  amount : Money
  checkFunds : Bool
  deriving DecidableEq, Repr

namespace Posting

def debitID (p : Posting) : UUID := if p.debitFirst then p.first else p.second

def creditID (p : Posting) : UUID := if p.debitFirst then p.second else p.first

end Posting

def transferPosting (srcID dstID : UUID) (amount : Money) : Posting :=
  ⟨srcID, dstID, true, amount, true⟩

/-- A reversal debits the original destination, which the source names second. -/
def reversePosting (origSrcID origDstID : UUID) (amount : Money) : Posting :=
  ⟨origSrcID, origDstID, false, amount, true⟩

/-- A deposit debits EXTERNAL and checks no funds. -/
def depositPosting (dstID : UUID) (amount : Money) : Posting :=
  ⟨externalAccountID, dstID, true, amount, false⟩

/-- The posting and the header of one `WithTx` call. -/
structure Work where
  posting : Posting
  txn : Transaction
  deriving DecidableEq, Repr

/-- The two entries built in memory. -/
def Work.legs (w : Work) : List Entry :=
  [⟨0, w.txn.id, w.posting.debitID, .debit, [], w.posting.amount, 0⟩,
    ⟨0, w.txn.id, w.posting.creditID, .credit, [], w.posting.amount, 0⟩]

/-- The loop of `Reverse` over the original's entries: source, destination and amount, the zero
    values where no entry sets them. -/
def scanLegs (entries : List Entry) : UUID × UUID × Money :=
  entries.foldl (fun (src, dst, amount) e =>
    if e.direction = .debit then (e.accountID, dst, e.amount) else (src, e.accountID, amount))
    (0#128, 0#128, Money.zeroValue)

/-- The switch over the locked rows. -/
def pickLocked (first second : UUID) (rows : List Account) : Account × Account :=
  rows.foldl (fun (x, y) a =>
    if a.id = first then (a, y) else if a.id = second then (x, a) else (x, y))
    (Account.zeroValue, Account.zeroValue)

/-- The body between the lock and the first UPDATE: the new balances of the debited and of the
    credited account, or the sentinel the body returns. -/
def afterLock (p : Posting) (rows : List Account) : Except Sentinel (Money × Money) :=
  if rows.length ≠ 2 then .error .accountNotFound
  else
    let (x, y) := pickLocked p.first p.second rows
    let debited := if p.debitFirst then x else y
    let credited := if p.debitFirst then y else x
    if p.checkFunds && debited.balance.lessThan p.amount then .error .insufficientFunds
    else .ok (debited.balance.sub p.amount, credited.balance.add p.amount)

/-! ## 3. Where a call stands -/

/-- How a service method returns: `return existing, entries, nil`, `return committed,
    committedEntries, nil`, or an error. -/
inductive Return where
  | existing (t : Transaction) (entries : List Entry)
  | committed (t : Transaction) (entries : List Entry)
  | failed (e : Err)
  deriving DecidableEq, Repr

/-- Inside `WithTx`: the statement the body executes next. -/
inductive Stage where
  | lock
  | lockRow (todo : List UUID) (rows : List Account)
  | updateDebit (newDebit newCredit : Money)
  | updateCredit (newCredit : Money)
  | insertHeader
  | insertIndex (todo : List UniqueIndex)
  | insertEntries (todo : List Entry)
  | commit
  | rollback (err : Err)
  deriving DecidableEq, Repr

/-- The point a service method has reached. -/
inductive Phase where
  | lookup
  | lookupEntries (t : Transaction)
  | original (id : UUID)
  | originalEntries (t : Transaction)
  | newID (p : Posting)
  | beginTx (w : Work)
  | inTx (w : Work) (tx : Tx) (stage : Stage)
  | refetch (w : Work)
  | refetchEntries (w : Work) (t : Transaction)
  | audit (entry : AuditEntry) (ret : Return)
  | done (ret : Return)
  deriving DecidableEq, Repr

/-- What the outside answers to a statement. -/
inductive Choice where
  | ok
  | uuid (u : UUID)
  | fail (text : String)
  | lostAck (text : String)
  deriving DecidableEq, Repr

namespace Request

/-- The checks before any database call, and the first phase. -/
def start : Request → Phase
  | r@(transfer srcID dstID amount _ _) =>
    let reject (s : Sentinel) : Phase :=
      .audit (r.auditFailure (some srcID) (some dstID) (some amount) (.sentinel s))
        (.failed (.sentinel s))
    if !amount.isPositive then reject .invalidAmount
    else if srcID = dstID then reject .selfTransfer
    else if srcID = externalAccountID ∨ dstID = externalAccountID then reject .systemAccount
    else .lookup
  | reverse .. => .lookup
  | r@(deposit dstID amount _ _) =>
    let reject (s : Sentinel) : Phase :=
      .audit (r.auditFailure (some externalAccountID) (some dstID) (some amount) (.sentinel s))
        (.failed (.sentinel s))
    if !amount.isPositive then reject .invalidAmount
    else if dstID = externalAccountID then reject .systemAccount
    else .lookup

/-- Where the code continues when the idempotency lookup gave no transaction, for any reason. -/
def afterLookup : Request → Phase
  | transfer srcID dstID amount _ _ => .newID (transferPosting srcID dstID amount)
  | reverse originalTxID _ _ => .original originalTxID
  | deposit dstID amount _ _ => .newID (depositPosting dstID amount)

/-- `Reverse` rejects before it knows the accounts. -/
def rejectOriginal (r : Request) (e : Err) : Phase :=
  .audit (r.auditFailure none none none e) (.failed e)

/-- `Reverse` after `GetTransaction`. -/
def afterOriginal (r : Request) (t : Transaction) (entries : List Entry) : Phase :=
  if t.kind ≠ .transfer then r.rejectOriginal (.sentinel .notReversible)
  else
    let (src, dst, amount) := scanLegs entries
    .newID (reversePosting src dst amount)

/-- The end of the error branch after `WithTx`. -/
def reject (r : Request) (w : Work) (e : Err) : Phase :=
  .audit (r.auditFailure (some w.posting.debitID) (some w.posting.creditID)
    (some w.posting.amount) e) (.failed e)

/-- The error branch after `WithTx`: a key conflict fetches the transaction again. -/
def afterTxErr (r : Request) (w : Work) (e : Err) : Phase :=
  if e = .sentinel .idempotencyConflict then .refetch w else r.reject w e

end Request

/-! ## 4. Steps -/

/-- The statement a call is at has to wait for the transaction `t` of another call. Row locks:
    FOR UPDATE conflicts with FOR UPDATE and FOR KEY SHARE, an UPDATE and a foreign key check with
    FOR UPDATE. A unique index waits for an uncommitted entry with the same key. -/
def Phase.blockedBy : Phase → Tx → Bool
  | .inTx _ _ (.lockRow (id :: _) _), t =>
      decide (.account id ∈ t.forUpdate) || decide (.account id ∈ t.forKeyShare)
  | .inTx w _ (.updateDebit _ _), t => decide (.account w.posting.debitID ∈ t.forUpdate)
  | .inTx w _ (.updateCredit _), t => decide (.account w.posting.creditID ∈ t.forUpdate)
  | .inTx w _ (.insertIndex (ix :: _)), t =>
      (w.txn.indexKey ix).any fun k => decide (k ∈ t.index)
  | .inTx w _ (.insertIndex []), t =>
      w.txn.reversesTransactionID.any fun r => decide (.transaction r ∈ t.forUpdate)
  | .inTx _ _ (.insertEntries (e :: _)), t =>
      decide (.transaction e.transactionID ∈ t.forUpdate) ||
        decide (.account e.accountID ∈ t.forUpdate)
  | _, _ => false

/-- The next statement inside `WithTx`, executed by the server. -/
def stageStep (cfg : Config) (db : Db) (r : Request) (w : Work) (tx : Tx) : Stage → Db × Phase
  | .lock =>
    let ids := lockAccountsForUpdate cfg db.toLedger [w.posting.first, w.posting.second]
    (db, .inTx w tx (.lockRow ids []))
  | .lockRow (id :: todo) rows =>
    match db.account? id with
    | none => (db, .inTx w tx (.lockRow todo rows))
    | some a =>
      (db, .inTx w { tx with forUpdate := tx.forUpdate ++ [.account id] }
        (.lockRow todo (rows ++ [scanAccount a])))
  | .lockRow [] rows =>
    match afterLock w.posting rows with
    | .error s => (db, .inTx w tx (.rollback (.sentinel s)))
    | .ok (newDebit, newCredit) => (db, .inTx w tx (.updateDebit newDebit newCredit))
  | .updateDebit newDebit newCredit =>
    match updateBalance cfg db.toLedger tx w.posting.debitID newDebit with
    | .error e => (db, .inTx w tx (.rollback (.wrapped "store.UpdateBalance" (.pg e))))
    | .ok tx => (db, .inTx w tx (.updateCredit newCredit))
  | .updateCredit newCredit =>
    match updateBalance cfg db.toLedger tx w.posting.creditID newCredit with
    | .error e => (db, .inTx w tx (.rollback (.wrapped "store.UpdateBalance" (.pg e))))
    | .ok tx => (db, .inTx w tx .insertHeader)
  | .insertHeader =>
    match checkHeader cfg w.txn with
    | .error e => (db, .inTx w tx (.rollback (r.insertErr (.pg e))))
    | .ok () => (db, .inTx w tx (.insertIndex UniqueIndex.all))
  | .insertIndex (ix :: todo) =>
    match insertIndex db.toLedger tx (w.txn.indexKey ix) with
    | .error e => (db, .inTx w tx (.rollback (r.insertErr (.pg e))))
    | .ok tx => (db, .inTx w tx (.insertIndex todo))
  | .insertIndex [] =>
    match insertHeader db.toLedger tx w.txn with
    | .error e => (db, .inTx w tx (.rollback (r.insertErr (.pg e))))
    | .ok tx =>
      -- `InsertEntries` checks every amount before its first INSERT
      if entriesPositive w.legs then (db, .inTx w tx (.insertEntries w.legs))
      else (db, .inTx w tx (.rollback (.sentinel .invalidAmount)))
  | .insertEntries (e :: todo) =>
    match insertEntry cfg db tx e with
    | .error e => (db, .inTx w tx (.rollback (.wrapped "store.InsertEntries" (.pg e))))
    | .ok (db, tx) => (db, .inTx w tx (.insertEntries todo))
  | .insertEntries [] => (db, .inTx w tx .commit)
  | .commit =>
    match commitTx cfg db tx with
    | .error e => (db, .inTx w tx (.rollback (.wrapped "store.WithTx commit" (.pg e))))
    | .ok db =>
      (db, .audit (r.auditSuccess w.posting.debitID w.posting.creditID w.posting.amount w.txn.id)
        (.committed w.txn w.legs))
  | .rollback e => (db, r.afterTxErr w e)

/-- The error a failing store call gives inside `WithTx`, `none` where the body makes no call. A
    failing `Rollback` is ignored: the server aborts the transaction either way. -/
def stageErr (r : Request) (text : String) : Stage → Option Err
  | .lock => some (.wrapped (r.method ++ " lock: store.LockAccountsForUpdate") (.other text))
  | .lockRow (_ :: _) _ =>
    some (.wrapped (r.method ++ " lock: store.collectAccounts rows") (.other text))
  | .lockRow [] _ => none
  | .updateDebit _ _ => some (.wrapped "store.UpdateBalance" (.other text))
  | .updateCredit _ => some (.wrapped "store.UpdateBalance" (.other text))
  | .insertHeader => some (r.insertErr (.other text))
  | .insertIndex _ => some (r.insertErr (.other text))
  | .insertEntries (_ :: _) => some (.wrapped "store.InsertEntries" (.other text))
  | .insertEntries [] => none
  | .commit => some (.wrapped "store.WithTx commit" (.other text))
  | .rollback _ => none

/-- One step of a service call. `now` is the server's clock, `others` are the open transactions of
    the other calls. -/
def requestStep (cfg : Config) (now : Time) (others : List Tx) (db : Db) (r : Request) :
    Phase → Choice → Option (Db × Phase)
  | .lookup, .ok =>
    match getTransactionByIdempotencyKey db.toLedger r.key with
    | .ok (some t) => some (db, .lookupEntries t)
    | _ => some (db, r.afterLookup)
  | .lookup, .fail _ => some (db, r.afterLookup)
  | .lookupEntries t, .ok =>
    let entries := listEntries db.toLedger t.id
    some (db, .done (.existing { t with entries := entries } entries))
  | .lookupEntries _, .fail _ => some (db, r.afterLookup)
  | .original id, .ok =>
    match getTransaction db.toLedger id with
    | none => some (db, r.rejectOriginal (.sentinel .transactionNotFound))
    | some t => some (db, .originalEntries t)
  | .original _, .fail text =>
    some (db, r.rejectOriginal (.wrapped "store.GetTransaction" (.other text)))
  | .originalEntries t, .ok => some (db, r.afterOriginal t (listEntries db.toLedger t.id))
  | .originalEntries _, .fail text =>
    some (db, r.rejectOriginal (.wrapped "store.listEntries" (.other text)))
  | .newID p, .uuid u => some (db, .beginTx ⟨p, r.txn u⟩)
  | .newID _, .fail text =>
    some (db, .done (.failed (.wrapped (r.method ++ " uuid") (.other text))))
  | .beginTx w, .ok => some (db, .inTx w (Tx.start now) .lock)
  | .beginTx w, .fail text => some (db, r.reject w (.wrapped "store.WithTx begin" (.other text)))
  | .inTx w tx st, .ok =>
    if others.any (Phase.inTx w tx st).blockedBy then none
    else some (stageStep cfg db r w tx st)
  | .inTx w tx st, .fail text =>
    (stageErr r text st).map fun e => (db, .inTx w tx (.rollback e))
  | .inTx w tx .commit, .lostAck text =>
    match commitTx cfg db tx with
    | .error _ => none
    | .ok db => some (db, r.afterTxErr w (.wrapped "store.WithTx commit" (.other text)))
  | .refetch w, .ok =>
    match getTransactionByIdempotencyKey db.toLedger r.key with
    | .ok (some t) => some (db, .refetchEntries w t)
    | _ => some (db, r.reject w (.sentinel .idempotencyConflict))
  | .refetch w, .fail _ => some (db, r.reject w (.sentinel .idempotencyConflict))
  | .refetchEntries _ t, .ok =>
    let entries := listEntries db.toLedger t.id
    some (db, .done (.existing { t with entries := entries } entries))
  | .refetchEntries w _, .fail _ => some (db, r.reject w (.sentinel .idempotencyConflict))
  | .audit e ret, .ok =>
    -- an audit row that cannot be written is logged and dropped
    match writeAudit cfg db now e with
    | .error _ => some (db, .done ret)
    | .ok db => some (db, .done ret)
  | .audit _ ret, .fail _ => some (db, .done ret)
  | _, _ => none

/-! ## 5. The audit log -/

section Audit

variable {cfg : Config} {db db' : Db} {r : Request}

/-- No statement inside a transaction writes to the audit log. -/
theorem stageStep_auditLog (w : Work) (tx : Tx) (stage : Stage) :
    (stageStep cfg db r w tx stage).1.auditLog = db.auditLog := by
  cases stage with
  | lockRow todo rows =>
      cases todo <;> (simp only [stageStep]; split <;> rfl)
  | insertIndex todo =>
      cases todo with
      | nil =>
          simp only [stageStep]
          split
          · rfl
          · split <;> rfl
      | cons =>
          simp only [stageStep]
          split <;> rfl
  | insertEntries todo =>
      cases todo with
      | nil => rfl
      | cons e todo =>
          simp only [stageStep]
          split
          · rfl
          · rename_i h
            exact insertEntry_auditLog h
  | commit =>
      simp only [stageStep]
      split
      · rfl
      · rename_i h
        exact commitTx_auditLog h
  | lock => rfl
  | rollback => rfl
  | updateDebit =>
      simp only [stageStep]
      split <;> rfl
  | updateCredit =>
      simp only [stageStep]
      split <;> rfl
  | insertHeader =>
      simp only [stageStep]
      split <;> rfl

/-- The audit row a step of a call writes, `none` if it writes none: an entry that cannot be stored
    is dropped. -/
def Phase.audits (db : Db) (now : Time) : Phase → Choice → Option AuditRow
  | .audit e _, .ok => if auditStorable e then some (e.row (db.auditSeq + 1) now) else none
  | _, _ => none

theorem Phase.audits_eq_none {now : Time} {p : Phase} {ch : Choice}
    (h : ∀ e ret, p ≠ .audit e ret) : p.audits db now ch = none := by
  cases p with
  | audit e ret => exact absurd rfl (h e ret)
  | _ => rfl

/-- The row is that of the entry the call is about to write. -/
theorem Phase.audits_eq_some {now : Time} {p : Phase} {ch : Choice} {row : AuditRow}
    (h : p.audits db now ch = some row) :
    ∃ e ret, p = .audit e ret ∧ ch = .ok ∧ auditStorable e = true ∧
      row = e.row (db.auditSeq + 1) now := by
  cases p with
  | audit e ret =>
      cases ch with
      | ok =>
          simp only [Phase.audits] at h
          split at h
          · rename_i hs
            exact ⟨e, ret, rfl, rfl, hs, (Option.some.inj h).symm⟩
          · cases h
      | _ => cases h
  | _ => cases h

/-- **The audit log**: a call writes its audit entry, at the end, and nothing else. -/
theorem requestStep_auditLog {now : Time} {others : List Tx} {p p' : Phase} {ch : Choice}
    (h : requestStep cfg now others db r p ch = some (db', p')) :
    db'.auditLog = db.auditLog ++ (p.audits db now ch).toList := by
  cases p with
  | audit e ret =>
      cases ch with
      | ok =>
          simp only [requestStep] at h
          split at h
          · rename_i hw
            cases h
            simp [Phase.audits, writeAudit_refused hw]
          · rename_i hw
            cases h
            obtain ⟨hs, rfl⟩ := writeAudit_ok hw
            simp [Phase.audits, hs, Db.withAudit]
      | fail =>
          cases h
          exact (List.append_nil _).symm
      | _ => cases h
  | inTx w tx stage =>
      rw [Phase.audits_eq_none (by simp), Option.toList_none, List.append_nil]
      cases ch with
      | ok =>
          simp only [requestStep] at h
          split at h
          · cases h
          · have hl := @stageStep_auditLog cfg db r w tx stage
            rw [Option.some.inj h] at hl
            exact hl
      | fail text =>
          simp only [requestStep] at h
          obtain ⟨_, _, e⟩ := Option.map_eq_some_iff.mp h
          cases e
          rfl
      | lostAck text =>
          cases stage with
          | commit =>
              simp only [requestStep] at h
              split at h
              · cases h
              · rename_i hc
                cases h
                exact commitTx_auditLog hc
          | _ => cases h
      | uuid => cases stage <;> cases h
  | _ =>
      rw [Phase.audits_eq_none (by simp), Option.toList_none, List.append_nil]
      cases ch with
      | ok =>
          simp only [requestStep] at h
          first | (cases h <;> rfl) | (split at h <;> cases h <;> rfl)
      | _ => cases h <;> rfl

end Audit

end BankingService
