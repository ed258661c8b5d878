/-
  File:      BankingService/Proof/CallInv.lean
  Subject:   WHAT A CALL KNOWS at each point of its code: the invariant of one call on the committed
             tables.

  * `PostingOk` -- the posting a request has arrived at is the request's own: the arguments of a
    transfer or a deposit after the checks, the legs of the original of a reversal.
  * `StageOk` -- inside the transaction: the rows locked so far are current, the balances written
    are what the columns have taken of those of the locked rows moved by the amount, and what has
    been inserted is exactly the header and the legs of the posting.
  * `PhaseOk` -- the same for a whole call, with what it returns (`RetOk`).
  * `PhaseOk.stable` -- another call's step keeps it: the ledger only grows, and the rows this call
    has locked stay as they are.
-/
import BankingService.Spec.Growth

namespace BankingService

open Lib

/-! ## 1. The posting of a request -/

/-- `p` is the posting of the request, on a ledger. -/
def PostingOk (L : Ledger) (p : Posting) : Request → Prop
  | .transfer srcID dstID amount _ _ =>
      p = transferPosting srcID dstID amount ∧ amount.isPositive = true ∧ srcID ≠ dstID ∧
        srcID ≠ externalAccountID ∧ dstID ≠ externalAccountID
  | .deposit dstID amount _ _ =>
      p = depositPosting dstID amount ∧ amount.isPositive = true ∧ dstID ≠ externalAccountID
  | .reverse originalTxID _ _ =>
      ∃ t ∈ L.transactions, t.id = originalTxID ∧ t.kind = .transfer ∧
        ∃ d c, L.legsOf t.id = [d, c] ∧
          p = reversePosting d.accountID c.accountID (Money.ofColumn d.amount)

/-- The facts of a posting that its kind decides. -/
structure Posting.Sound (p : Posting) (kind : TransactionKind) : Prop where
  positive : 0 < p.amount.units
  distinct : p.debitID ≠ p.creditID
  external : p.debitID = externalAccountID ↔ kind = .deposit
  credit : p.creditID ≠ externalAccountID
  checked : p.checkFunds = true ↔ kind ≠ .deposit

theorem PostingOk.sound {L : Ledger} (hI : LedgerInv L) {p : Posting} {r : Request}
    (h : PostingOk L p r) : p.Sound r.kind := by
  cases r with
  | transfer srcID dstID amount k q =>
      obtain ⟨rfl, hpos, hne, hs, hd⟩ := h
      exact ⟨(Money.isPositive_iff _).mp hpos, hne, ⟨fun e => absurd e hs, fun e => (by cases e)⟩,
        hd, ⟨fun _ e => (by cases e), fun _ => rfl⟩⟩
  | deposit dstID amount k q =>
      obtain ⟨rfl, hpos, hd⟩ := h
      exact ⟨(Money.isPositive_iff _).mp hpos, hd.symm, ⟨fun _ => rfl, fun _ => rfl⟩, hd,
        ⟨fun e => (by cases e), fun e => absurd rfl e⟩⟩
  | reverse originalTxID k q =>
      obtain ⟨t, ht, _, hk, d, c, hl, rfl⟩ := h
      obtain ⟨d', c', hl', hok⟩ := hI.legs t ht
      rw [hl] at hl'
      cases hl'
      have hde : d.accountID ≠ externalAccountID := fun e => by
        have := hok.debitExternal.mp e
        rw [hk] at this
        cases this
      refine ⟨?_, hok.accounts.symm, ⟨fun e => absurd e hok.creditExternal, fun e => (by cases e)⟩,
        hde, ⟨fun _ e => (by cases e), fun _ => rfl⟩⟩
      show 0 < (Money.ofColumn d.amount).units
      rw [Money.units_ofColumn]
      exact hok.pos (by rw [hk]; exact fun e => by cases e)

/-- Both accounts of a reversal exist: they carry the legs of the original. -/
theorem PostingOk.accounts_of_reverse {L : Ledger} (hI : LedgerInv L) {p : Posting}
    {originalTxID : UUID} {k q : GoString} (h : PostingOk L p (.reverse originalTxID k q)) :
    (∃ a ∈ L.accounts, a.id = p.first) ∧ ∃ a ∈ L.accounts, a.id = p.second := by
  obtain ⟨t, ht, _, _, d, c, hl, rfl⟩ := h
  have hmem : ∀ e ∈ L.legsOf t.id, ∃ a ∈ L.accounts, a.id = e.accountID :=
    fun e he => hI.entryAccount e (List.mem_of_mem_filter he)
  rw [hl] at hmem
  exact ⟨hmem d List.mem_cons_self, hmem c (List.mem_cons_of_mem _ List.mem_cons_self)⟩

/-- On a ledger where the original is not reversed yet, the posting is the one the atomic
    specification computes. -/
theorem PostingOk.posting? {L : Ledger} (hI : LedgerInv L) {p : Posting} {r : Request}
    (h : PostingOk L p r)
    (hfree : ∀ o, r.reverses = some o → ∀ t ∈ L.transactions, t.reversesTransactionID ≠ some o) :
    r.posting? L = some (p.checkFunds, p.debitID, p.creditID, p.amount.units) := by
  cases r with
  | transfer srcID dstID amount k q =>
      obtain ⟨rfl, _, _, hs, hd⟩ := h
      exact if_pos ⟨hs, hd⟩
  | deposit dstID amount k q =>
      obtain ⟨rfl, _, hd⟩ := h
      exact if_pos hd
  | reverse originalTxID k q =>
      obtain ⟨t, ht, rfl, hk, d, c, hl, rfl⟩ := h
      simp only [Request.posting?, hI.transaction_mem ht, hl]
      rw [if_pos ⟨hk, hfree _ rfl⟩]
      simp [Posting.debitID, Posting.creditID, reversePosting]

theorem PostingOk.mono {L L' : Ledger} (he : L.Extends L') {p : Posting} {r : Request}
    (h : PostingOk L p r) : PostingOk L' p r := by
  cases r with
  | transfer => exact h
  | deposit => exact h
  | reverse =>
      obtain ⟨t, ht, hid, hk, d, c, hl, hp⟩ := h
      exact ⟨t, he.transaction t ht, hid, hk, d, c, (he.legs t ht).trans hl, hp⟩

/-! ## 2. Errors and results -/

/-- A CHECK, a foreign key or the double-entry trigger refused a row. -/
def PgError.breaksSchema (e : PgError) : Bool :=
  e.state = .checkViolation || e.state = .foreignKeyViolation || e.state = .raiseException

/-- No parameter is refused that way. -/
theorem toColumn_breaksSchema {m : Money} {param : Nat} {e : PgError}
    (h : m.toColumn param = .error e) : e.breaksSchema = false := by
  unfold PgError.breaksSchema
  rcases bindNumeric_error h with he | he | he <;> rw [he] <;> rfl

def Err.breaksSchema : Err → Bool
  | .wrapped _ (.pg e) => e.breaksSchema
  | _ => false

/-- A value was outside `NUMERIC(20,4)`. -/
def Err.outOfRange : Err → Bool
  | .wrapped _ (.pg e) => e.state = .numericValueOutOfRange
  | _ => false

/-- An error that is neither. -/
def Err.Plain (e : Err) : Prop := e.breaksSchema = false ∧ e.outOfRange = false

theorem plain_sentinel (s : Sentinel) : (Err.sentinel s).Plain := ⟨rfl, rfl⟩

theorem plain_other (context text : String) : (Err.wrapped context (.other text)).Plain :=
  ⟨rfl, rfl⟩

/-- The debit leg of a posting as a row. -/
def Work.debitRow (w : Work) (now : Time) (n : Nat) : EntryRow :=
  ⟨n, w.txn.id, w.posting.debitID, .debit, w.posting.amount.stored, now⟩

/-- The credit leg of a posting as a row. -/
def Work.creditRow (w : Work) (now : Time) (n : Nat) : EntryRow :=
  ⟨n, w.txn.id, w.posting.creditID, .credit, w.posting.amount.stored, now⟩

/-- The posting and the header of a call are its request's. -/
structure WorkOk (L : Ledger) (r : Request) (w : Work) : Prop where
  posting : PostingOk L w.posting r
  txn : w.txn = r.txn w.txn.id

/-- The amount of a sendable deposit is sendable. -/
theorem WorkOk.sendable {L : Ledger} {r : Request} {w : Work} (hw : WorkOk L r w)
    (hs : r.sendable = true) (hk : r.kind = .deposit) : w.posting.amount.sendable = true := by
  have hp := hw.posting
  cases r with
  | deposit =>
      rw [hp.1]
      exact hs
  | transfer => cases hk
  | reverse => cases hk

/-- What a call returns is in the tables, with the amount it was sent where that is sendable. -/
def RetOk (L : Ledger) (r : Request) : Return → Prop
  | .existing t entries =>
      ∃ row ∈ L.transactions, row.idempotencyKey = r.key ∧ entries = listEntries L row.id ∧
        t = { scanTransaction row with entries := entries }
  | .committed t entries =>
      ∃ w now n m, t = w.txn ∧ entries = w.legs ∧ WorkOk L r w ∧
        headerRow w.txn now ∈ L.transactions ∧
        L.legsOf w.txn.id = [w.debitRow now n, w.creditRow now m] ∧
        (r.sendable = true → w.posting.amount.stored = w.posting.amount.units)
  | .failed _ => True

/-! ## 3. Inside the transaction -/

/-- The two rows a transaction has locked and read. -/
structure Held (L : Ledger) (p : Posting) (tx : Tx) (da ca : AccountRow) : Prop where
  debitMem : da ∈ L.accounts
  debitID : da.id = p.debitID
  creditMem : ca ∈ L.accounts
  creditID : ca.id = p.creditID
  debitLocked : .account p.debitID ∈ tx.forUpdate
  creditLocked : .account p.creditID ∈ tx.forUpdate
  funds : p.checkFunds = true → p.amount.units ≤ da.balance

/-- What a transaction has written so far. -/
structure Wrote (tx : Tx) (balances : List (UUID × Int)) (index : List IndexKey)
    (header : Option TransactionRow) (entries : List EntryRow) : Prop where
  balances : tx.balances = balances
  index : tx.index = index
  header : tx.header = header
  entries : tx.entries = entries

/-- In the middle of the lock query: `rows` are locked and current, `todo` come next, all in the
    order of the query. -/
structure LockingOk (cfg : Config) (L : Ledger) (p : Posting) (tx : Tx) (todo : List UUID)
    (rows : List Account) : Prop where
  locked : tx.forUpdate = rows.map fun a => .account a.id
  wrote : Wrote tx [] [] none []
  sorted : (rows.map (·.id) ++ todo).Pairwise fun a b => cfg.textLe a b = true ∧ a ≠ b
  ids : ∀ id ∈ rows.map (·.id) ++ todo, id = p.first ∨ id = p.second
  current : ∀ a ∈ rows, ∃ row ∈ L.accounts, a = scanAccount row
  exist : ∀ id ∈ todo, ∃ row ∈ L.accounts, row.id = id

/-- The balances after both UPDATEs, newest first. -/
def Posting.newBalances (p : Posting) (da ca : AccountRow) : List (UUID × Int) :=
  [(p.creditID, Column.driver.stored (ca.balance + p.amount.units)),
    (p.debitID, Column.driver.stored (da.balance - p.amount.units))]

/-- The debit UPDATE is done: the column has taken the new balance. -/
structure Debited (L : Ledger) (w : Work) (tx : Tx) (da ca : AccountRow) : Prop
    extends Held L w.posting tx da ca where
  debitTaken : (Column.driver.store (da.balance - w.posting.amount.units)).isSome = true

/-- Both UPDATEs are done. -/
structure Updated (L : Ledger) (w : Work) (tx : Tx) (da ca : AccountRow) : Prop
    extends Debited L w tx da ca where
  creditTaken : (Column.driver.store (ca.balance + w.posting.amount.units)).isSome = true

/-- The entries inserted so far and those to come; their ids are drawn in ascending order. -/
inductive EntriesAt (cfg : Config) (seq : Nat) (w : Work) (now : Time) :
    List Entry → List EntryRow → Prop
  | none : EntriesAt cfg seq w now w.legs []
  | one (n : Nat) (h : n ≤ seq) (ht : entryTakes cfg w.posting.amount = true) :
      EntriesAt cfg seq w now w.legs.tail [w.debitRow now n]
  | both (n m : Nat) (h : n < m) (h' : m ≤ seq) (ht : entryTakes cfg w.posting.amount = true) :
      EntriesAt cfg seq w now [] [w.debitRow now n, w.creditRow now m]

/-- The column or the CHECK refuses a positive amount: the server has not taken it, or the driver
    has left nothing of it. -/
def EntryRefused (cfg : Config) (m : Money) (err : PgError) : Prop :=
  m.toColumn 4 = .error err ∨ cfg.constraints = true ∧ m.toColumn 4 = .ok 0 ∧
    err = checkViolation "entries" "entries_amount_check"

/-- The header is in, and so are the entries before `todo`. -/
def Inserted (cfg : Config) (db : Db) (w : Work) (tx : Tx) (todo : List Entry) : Prop :=
  ∃ da ca rows, Updated db.toLedger w tx da ca ∧ pgText w.txn.idempotencyKey = true ∧
    EntriesAt cfg db.entriesSeq w tx.now todo rows ∧
    Wrote tx (w.posting.newBalances da ca) (headerRow w.txn tx.now).indexKeys
      (some (headerRow w.txn tx.now)) rows

/-- **The invariant inside the transaction**, by the statement that comes next. -/
def StageOk (cfg : Config) (db : Db) (w : Work) (tx : Tx) : Stage → Prop
  | .lock => tx = Tx.start tx.now
  | .lockRow todo rows => LockingOk cfg db.toLedger w.posting tx todo rows
  | .updateDebit newDebit newCredit =>
      ∃ da ca, Held db.toLedger w.posting tx da ca ∧
        newDebit.units = da.balance - w.posting.amount.units ∧
        newCredit.units = ca.balance + w.posting.amount.units ∧ Wrote tx [] [] none []
  | .updateCredit newCredit =>
      ∃ da ca, Debited db.toLedger w tx da ca ∧
        newCredit.units = ca.balance + w.posting.amount.units ∧
        Wrote tx [(w.posting.debitID, Column.driver.stored (da.balance - w.posting.amount.units))]
          [] none []
  | .insertHeader =>
      ∃ da ca, Updated db.toLedger w tx da ca ∧ Wrote tx (w.posting.newBalances da ca) [] none []
  | .insertIndex todo =>
      ∃ da ca done, Updated db.toLedger w tx da ca ∧ pgText w.txn.idempotencyKey = true ∧
        UniqueIndex.all = done ++ todo ∧
        Wrote tx (w.posting.newBalances da ca) (done.filterMap w.txn.indexKey) none []
  | .insertEntries todo => Inserted cfg db w tx todo
  | .commit => Inserted cfg db w tx []
  | .rollback _ => True

/-- What holds of the locks and index entries of every open transaction. -/
structure TxOk (L : Ledger) (tx : Tx) : Prop where
  rows : ∀ id, .transaction id ∉ tx.forUpdate
  share : ∀ id, .account id ∈ tx.forKeyShare → .account id ∈ tx.forUpdate
  fresh : ∀ k ∈ tx.index, L.indexed k = false

/-! ## 4. The whole call -/

def Phase.tx? : Phase → Option Tx
  | .inTx _ tx _ => some tx
  | _ => none

/-- **The invariant of one call of the service.** -/
def PhaseOk (cfg : Config) (db : Db) (r : Request) : Phase → Prop
  | .lookup => r.start = .lookup
  | .lookupEntries t =>
      r.start = .lookup ∧
        ∃ row ∈ db.transactions, row.idempotencyKey = r.key ∧ t = scanTransaction row
  | .original id => r.reverses = some id
  | .originalEntries t =>
      ∃ row ∈ db.transactions, r.reverses = some row.id ∧ t = scanTransaction row
  | .newID p => PostingOk db.toLedger p r
  | .beginTx w => WorkOk db.toLedger r w
  | .inTx w tx stage =>
      WorkOk db.toLedger r w ∧ TxOk db.toLedger tx ∧ StageOk cfg db w tx stage
  | .refetch w => WorkOk db.toLedger r w
  | .refetchEntries w t =>
      WorkOk db.toLedger r w ∧
        ∃ row ∈ db.transactions, row.idempotencyKey = r.key ∧ t = scanTransaction row
  | .audit _ ret => RetOk db.toLedger r ret
  | .done ret => RetOk db.toLedger r ret

/-! ## 5. Other calls keep it -/

section Stable

variable {cfg : Config} {db db' : Db} {r : Request}

theorem WorkOk.mono {L L' : Ledger} (he : L.Extends L') {w : Work} (h : WorkOk L r w) :
    WorkOk L' r w :=
  ⟨h.posting.mono he, h.txn⟩

theorem RetOk.mono {L L' : Ledger} (he : L.Extends L') (hI : LedgerInv L) (hI' : LedgerInv L')
    {ret : Return} (h : RetOk L r ret) : RetOk L' r ret := by
  cases ret with
  | existing t entries =>
      obtain ⟨row, hr, hk, hes, ht⟩ := h
      exact ⟨row, he.transaction row hr, hk, hes.trans (he.listEntries hI hI' hr).symm, ht⟩
  | committed t entries =>
      obtain ⟨w, now, n, m, ht, hes, hw, hh, hl, hst⟩ := h
      exact ⟨w, now, n, m, ht, hes, hw.mono he, he.transaction _ hh, (he.legs _ hh).trans hl, hst⟩
  | failed e => exact h

/-- The locked rows are the same rows of the new tables. -/
theorem Held.mono {L L' : Ledger} {p : Posting} {tx : Tx} {da ca : AccountRow}
    (hrows : ∀ a ∈ L.accounts, .account a.id ∈ tx.forUpdate → a ∈ L'.accounts)
    (h : Held L p tx da ca) : Held L' p tx da ca :=
  { h with
    debitMem := hrows da h.debitMem (h.debitID ▸ h.debitLocked)
    creditMem := hrows ca h.creditMem (h.creditID ▸ h.creditLocked) }

theorem Debited.mono {L L' : Ledger} {w : Work} {tx : Tx} {da ca : AccountRow}
    (hrows : ∀ a ∈ L.accounts, .account a.id ∈ tx.forUpdate → a ∈ L'.accounts)
    (h : Debited L w tx da ca) : Debited L' w tx da ca :=
  { h.toHeld.mono hrows with debitTaken := h.debitTaken }

theorem Updated.mono {L L' : Ledger} {w : Work} {tx : Tx} {da ca : AccountRow}
    (hrows : ∀ a ∈ L.accounts, .account a.id ∈ tx.forUpdate → a ∈ L'.accounts)
    (h : Updated L w tx da ca) : Updated L' w tx da ca :=
  { h.toDebited.mono hrows with creditTaken := h.creditTaken }

theorem EntriesAt.mono {seq seq' : Nat} (hs : seq ≤ seq') {w : Work} {now : Time}
    {todo : List Entry} {rows : List EntryRow} (h : EntriesAt cfg seq w now todo rows) :
    EntriesAt cfg seq' w now todo rows := by
  cases h with
  | none => exact .none
  | one n h ht => exact .one n (h.trans hs) ht
  | both n m h h' ht => exact .both n m h (h'.trans hs) ht

theorem Inserted.mono {w : Work} {tx : Tx} {todo : List Entry}
    (hrows : ∀ a ∈ db.accounts, .account a.id ∈ tx.forUpdate → a ∈ db'.accounts)
    (hs : db.entriesSeq ≤ db'.entriesSeq) (h : Inserted cfg db w tx todo) :
    Inserted cfg db' w tx todo := by
  obtain ⟨da, ca, rows, hu, hk, he, hw⟩ := h
  exact ⟨da, ca, rows, hu.mono hrows, hk, he.mono hs, hw⟩

theorem StageOk.mono {w : Work} {tx : Tx} {stage : Stage}
    (he : db.toLedger.Extends db'.toLedger)
    (hrows : ∀ a ∈ db.accounts, .account a.id ∈ tx.forUpdate → a ∈ db'.accounts)
    (hs : db.entriesSeq ≤ db'.entriesSeq) (h : StageOk cfg db w tx stage) :
    StageOk cfg db' w tx stage := by
  cases stage with
  | lock => exact h
  | lockRow todo rows =>
      refine { h with current := fun a ha => ?_, exist := fun id hid => ?_ }
      · obtain ⟨row, hr, rfl⟩ := h.current a ha
        refine ⟨row, hrows row hr ?_, rfl⟩
        rw [h.locked]
        exact List.mem_map.mpr ⟨_, ha, rfl⟩
      · obtain ⟨row, hr, hrid⟩ := h.exist id hid
        obtain ⟨b, hb, hbid, _⟩ := he.account row hr
        exact ⟨b, hb, hbid.trans hrid⟩
  | updateDebit =>
      obtain ⟨da, ca, hh, h'⟩ := h
      exact ⟨da, ca, hh.mono hrows, h'⟩
  | updateCredit =>
      obtain ⟨da, ca, hu, h'⟩ := h
      exact ⟨da, ca, hu.mono hrows, h'⟩
  | insertHeader =>
      obtain ⟨da, ca, hu, h'⟩ := h
      exact ⟨da, ca, hu.mono hrows, h'⟩
  | insertIndex =>
      obtain ⟨da, ca, done, hu, h'⟩ := h
      exact ⟨da, ca, done, hu.mono hrows, h'⟩
  | insertEntries => exact Inserted.mono hrows hs h
  | commit => exact Inserted.mono hrows hs h
  | rollback => exact h

/-- **The invariant of a call is stable**: it survives any step of another call that leaves the
    locked rows alone and takes none of the index entries. -/
theorem PhaseOk.stable {p : Phase} (he : db.toLedger.Extends db'.toLedger)
    (hI : LedgerInv db.toLedger) (hI' : LedgerInv db'.toLedger)
    (hs : db.entriesSeq ≤ db'.entriesSeq)
    (hrows : ∀ tx, p.tx? = some tx →
      ∀ a ∈ db.accounts, .account a.id ∈ tx.forUpdate → a ∈ db'.accounts)
    (hindex : ∀ tx, p.tx? = some tx →
      ∀ k ∈ tx.index, db.indexed k = false → db'.indexed k = false)
    (h : PhaseOk cfg db r p) : PhaseOk cfg db' r p := by
  cases p with
  | lookup => exact h
  | lookupEntries t =>
      obtain ⟨hv, row, hr, h'⟩ := h
      exact ⟨hv, row, he.transaction row hr, h'⟩
  | original => exact h
  | originalEntries t =>
      obtain ⟨row, hr, h'⟩ := h
      exact ⟨row, he.transaction row hr, h'⟩
  | newID => exact PostingOk.mono he h
  | beginTx => exact WorkOk.mono he h
  | inTx w tx stage =>
      obtain ⟨hw, ht, hst⟩ := h
      exact ⟨hw.mono he, { ht with fresh := fun k hk => hindex tx rfl k hk (ht.fresh k hk) },
        hst.mono he (hrows tx rfl) hs⟩
  | refetch => exact WorkOk.mono he h
  | refetchEntries w t =>
      obtain ⟨hw, row, hr, h'⟩ := h
      exact ⟨hw.mono he, row, he.transaction row hr, h'⟩
  | audit => exact RetOk.mono he hI hI' h
  | done => exact RetOk.mono he hI hI' h

end Stable

end BankingService
