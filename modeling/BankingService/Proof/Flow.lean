/-
  File:      BankingService/Proof/Flow.lean
  Subject:   THE CONTROL FLOW OF A SERVICE CALL: every step a call can take, with the condition
             under which the code takes it.

  `Next cfg db r ch p p'` lists the branches of `requestStep` on states with the invariant, one
  constructor per branch, in terms of the committed tables: which lookups find something, what the
  funds check compares, what the columns take, which index entry conflicts. The branches the
  invariant rules out do not appear: no foreign key and no trigger refuses a row, and a CHECK
  refuses only a deposit of which the driver has left nothing. `requestStep_ok` proves that every
  step is one of these; every result about where a call can go is a case analysis on `Next`.
-/
import BankingService.Proof.CallInv

namespace BankingService

/-- No committed header carries the key, as far as the query can tell: a key that is no text is
    found nowhere. -/
def KeyMissed (L : Ledger) (key : GoString) : Prop :=
  pgText key = true → ∀ row ∈ L.transactions, row.idempotencyKey ≠ key

/-- **The branches of a service call.** -/
inductive Next (cfg : Config) (db : Db) (r : Request) : Choice → Phase → Phase → Prop
  -- the idempotency lookup, whose errors count as "not found"
  | found {row : TransactionRow} (h : row ∈ db.transactions) (hk : row.idempotencyKey = r.key) :
      Next cfg db r .ok .lookup (.lookupEntries (scanTransaction row))
  | missed (h : KeyMissed db.toLedger r.key) : Next cfg db r .ok .lookup r.afterLookup
  | lookupFails (text : String) : Next cfg db r (.fail text) .lookup r.afterLookup
  | replayed {t : Transaction} {row : TransactionRow} (h : row ∈ db.transactions)
      (hk : row.idempotencyKey = r.key) (ht : t = scanTransaction row) :
      Next cfg db r .ok (.lookupEntries t)
        (.done (.existing { t with entries := listEntries db.toLedger row.id }
          (listEntries db.toLedger row.id)))
  | lookupEntriesFails (t : Transaction) (text : String) :
      Next cfg db r (.fail text) (.lookupEntries t) r.afterLookup
  -- the original of a reversal
  | noOriginal {id : UUID} (h : ∀ row ∈ db.transactions, row.id ≠ id) :
      Next cfg db r .ok (.original id) (r.rejectOriginal (.sentinel .transactionNotFound))
  | original {id : UUID} {row : TransactionRow} (h : row ∈ db.transactions) (hid : row.id = id) :
      Next cfg db r .ok (.original id) (.originalEntries (scanTransaction row))
  | originalFails (id : UUID) (text : String) :
      Next cfg db r (.fail text) (.original id)
        (r.rejectOriginal (.wrapped "store.GetTransaction" (.other text)))
  | notTransfer {t : Transaction} {row : TransactionRow} (h : row ∈ db.transactions)
      (ht : t = scanTransaction row) (hk : row.kind ≠ .transfer) :
      Next cfg db r .ok (.originalEntries t) (r.rejectOriginal (.sentinel .notReversible))
  | legs {t : Transaction} {row : TransactionRow} {d c : EntryRow} (h : row ∈ db.transactions)
      (ht : t = scanTransaction row) (hk : row.kind = .transfer)
      (hl : db.legsOf row.id = [d, c]) :
      Next cfg db r .ok (.originalEntries t)
        (.newID (reversePosting d.accountID c.accountID (Money.ofColumn d.amount)))
  | originalEntriesFails (t : Transaction) (text : String) :
      Next cfg db r (.fail text) (.originalEntries t)
        (r.rejectOriginal (.wrapped "store.listEntries" (.other text)))
  -- before the transaction
  | generated (p : Posting) (u : UUID) : Next cfg db r (.uuid u) (.newID p) (.beginTx ⟨p, r.txn u⟩)
  | generateFails (p : Posting) (text : String) :
      Next cfg db r (.fail text) (.newID p)
        (.done (.failed (.wrapped (r.method ++ " uuid") (.other text))))
  | began (w : Work) (now : Time) :
      Next cfg db r .ok (.beginTx w) (.inTx w (Tx.start now) .lock)
  | beginFails (w : Work) (text : String) :
      Next cfg db r (.fail text) (.beginTx w)
        (r.reject w (.wrapped "store.WithTx begin" (.other text)))
  -- the lock query and the funds check
  | locking (w : Work) (tx : Tx) :
      Next cfg db r .ok (.inTx w tx .lock) (.inTx w tx (.lockRow
        (lockAccountsForUpdate cfg db.toLedger [w.posting.first, w.posting.second]) []))
  | lockedRow {w : Work} {tx tx' : Tx} {a : AccountRow} {todo : List UUID} {rows : List Account}
      (ha : a ∈ db.accounts) :
      Next cfg db r .ok (.inTx w tx (.lockRow (a.id :: todo) rows))
        (.inTx w tx' (.lockRow todo (rows ++ [scanAccount a])))
  | accountMissing {w : Work} {tx : Tx} {rows : List Account} (h : rows.length ≠ 2) :
      Next cfg db r .ok (.inTx w tx (.lockRow [] rows))
        (.inTx w tx (.rollback (.sentinel .accountNotFound)))
  | poor {w : Work} {tx : Tx} {rows : List Account} {da : AccountRow} (hl : rows.length = 2)
      (ha : da ∈ db.accounts) (hid : da.id = w.posting.debitID)
      (hc : w.posting.checkFunds = true) (h : da.balance < w.posting.amount.units) :
      Next cfg db r .ok (.inTx w tx (.lockRow [] rows))
        (.inTx w tx (.rollback (.sentinel .insufficientFunds)))
  | funded {w : Work} {tx : Tx} {rows : List Account} {da ca : AccountRow}
      {newDebit newCredit : Money} (hl : rows.length = 2) (ha : da ∈ db.accounts)
      (hid : da.id = w.posting.debitID)
      (h : w.posting.checkFunds = true → w.posting.amount.units ≤ da.balance)
      (hca : ca ∈ db.accounts) (hcid : ca.id = w.posting.creditID)
      (hm : newCredit.units = ca.balance + w.posting.amount.units) :
      Next cfg db r .ok (.inTx w tx (.lockRow [] rows))
        (.inTx w tx (.updateDebit newDebit newCredit))
  -- the two UPDATEs
  | debitRefused {w : Work} {tx : Tx} {newDebit newCredit : Money} {da : AccountRow} {e : PgError}
      (hk : r.kind = .deposit) (ha : da ∈ db.accounts) (hid : da.id = w.posting.debitID)
      (hm : newDebit.units = da.balance - w.posting.amount.units)
      (he : newDebit.toColumn 1 = .error e) :
      Next cfg db r .ok (.inTx w tx (.updateDebit newDebit newCredit))
        (.inTx w tx (.rollback (.wrapped "store.UpdateBalance" (.pg e))))
  | debited {w : Work} {tx tx' : Tx} {newDebit newCredit : Money} {da : AccountRow}
      (ha : da ∈ db.accounts) (hid : da.id = w.posting.debitID)
      (hm : newDebit.units = da.balance - w.posting.amount.units) (h : newDebit.storable = true) :
      Next cfg db r .ok (.inTx w tx (.updateDebit newDebit newCredit))
        (.inTx w tx' (.updateCredit newCredit))
  | creditRefused {w : Work} {tx : Tx} {newCredit : Money} {ca : AccountRow} {e : PgError}
      (ha : ca ∈ db.accounts) (hid : ca.id = w.posting.creditID)
      (hm : newCredit.units = ca.balance + w.posting.amount.units)
      (he : newCredit.toColumn 1 = .error e) :
      Next cfg db r .ok (.inTx w tx (.updateCredit newCredit))
        (.inTx w tx (.rollback (.wrapped "store.UpdateBalance" (.pg e))))
  | credited {w : Work} {tx tx' : Tx} {newCredit : Money} {ca : AccountRow}
      (ha : ca ∈ db.accounts) (hid : ca.id = w.posting.creditID)
      (hm : newCredit.units = ca.balance + w.posting.amount.units) (h : newCredit.storable = true) :
      Next cfg db r .ok (.inTx w tx (.updateCredit newCredit)) (.inTx w tx' .insertHeader)
  -- the header INSERT
  | keyNoText {w : Work} {tx : Tx} (h : pgText r.key = false) :
      Next cfg db r .ok (.inTx w tx .insertHeader)
        (.inTx w tx (.rollback (r.insertErr (.pg invalidText))))
  | keyText {w : Work} {tx : Tx} (h : pgText r.key = true) :
      Next cfg db r .ok (.inTx w tx .insertHeader) (.inTx w tx (.insertIndex UniqueIndex.all))
  | duplicate {w : Work} {tx : Tx} {ix : UniqueIndex} {todo : List UniqueIndex} {k : IndexKey}
      (hk : w.txn.indexKey ix = some k) (h : db.indexed k = true) :
      Next cfg db r .ok (.inTx w tx (.insertIndex (ix :: todo)))
        (.inTx w tx (.rollback (r.insertErr (.pg k.violation))))
  | indexed {w : Work} {tx tx' : Tx} {ix : UniqueIndex} {todo : List UniqueIndex}
      (h : ∀ k, w.txn.indexKey ix = some k → db.indexed k = false) :
      Next cfg db r .ok (.inTx w tx (.insertIndex (ix :: todo))) (.inTx w tx' (.insertIndex todo))
  | headerIn {w : Work} {tx tx' : Tx} :
      Next cfg db r .ok (.inTx w tx (.insertIndex [])) (.inTx w tx' (.insertEntries w.legs))
  -- the entries and the end of the transaction
  | entryRefused {w : Work} {tx : Tx} {e : Entry} {todo : List Entry} {err : PgError}
      (hk : r.kind = .deposit) (h : entryTakes cfg w.posting.amount = false)
      (he : EntryRefused cfg w.posting.amount err) :
      Next cfg db r .ok (.inTx w tx (.insertEntries (e :: todo)))
        (.inTx w tx (.rollback (.wrapped "store.InsertEntries" (.pg err))))
  | entryIn {w : Work} {tx tx' : Tx} {e : Entry} {todo : List Entry}
      (h : entryTakes cfg w.posting.amount = true) :
      Next cfg db r .ok (.inTx w tx (.insertEntries (e :: todo)))
        (.inTx w tx' (.insertEntries todo))
  | entriesIn (w : Work) (tx : Tx) :
      Next cfg db r .ok (.inTx w tx (.insertEntries [])) (.inTx w tx .commit)
  | committed (w : Work) (tx : Tx) :
      Next cfg db r .ok (.inTx w tx .commit)
        (.audit (r.auditSuccess w.posting.debitID w.posting.creditID w.posting.amount w.txn.id)
          (.committed w.txn w.legs))
  | ackLost (w : Work) (tx : Tx) (text : String) :
      Next cfg db r (.lostAck text) (.inTx w tx .commit)
        (r.reject w (.wrapped "store.WithTx commit" (.other text)))
  | statementFails {w : Work} {tx : Tx} {stage : Stage} {text : String} {e : Err}
      (h : stageErr r text stage = some e) :
      Next cfg db r (.fail text) (.inTx w tx stage) (.inTx w tx (.rollback e))
  | rolledBack (w : Work) (tx : Tx) (e : Err) :
      Next cfg db r .ok (.inTx w tx (.rollback e)) (r.afterTxErr w e)
  -- after a key conflict
  | refetched {w : Work} {row : TransactionRow} (h : row ∈ db.transactions)
      (hk : row.idempotencyKey = r.key) :
      Next cfg db r .ok (.refetch w) (.refetchEntries w (scanTransaction row))
  | refetchMissed {w : Work} (h : KeyMissed db.toLedger r.key) :
      Next cfg db r .ok (.refetch w) (r.reject w (.sentinel .idempotencyConflict))
  | refetchFails (w : Work) (text : String) :
      Next cfg db r (.fail text) (.refetch w) (r.reject w (.sentinel .idempotencyConflict))
  | refetchedEntries {w : Work} {t : Transaction} {row : TransactionRow}
      (h : row ∈ db.transactions) (hk : row.idempotencyKey = r.key) (ht : t = scanTransaction row) :
      Next cfg db r .ok (.refetchEntries w t)
        (.done (.existing { t with entries := listEntries db.toLedger row.id }
          (listEntries db.toLedger row.id)))
  | refetchEntriesFails (w : Work) (t : Transaction) (text : String) :
      Next cfg db r (.fail text) (.refetchEntries w t)
        (r.reject w (.sentinel .idempotencyConflict))
  -- the audit row
  | audited (e : AuditEntry) (ret : Return) : Next cfg db r .ok (.audit e ret) (.done ret)
  | auditFails (e : AuditEntry) (ret : Return) (text : String) :
      Next cfg db r (.fail text) (.audit e ret) (.done ret)

end BankingService
