/-
  File:      BankingService/Proof/Statements.lean
  Subject:   WHAT EACH STATEMENT OF A POSTING ANSWERS, given what the call knows when it sends it.

  One lemma per statement of the `WithTx` body, in the order of the code:

  * `lockAccountsForUpdate_mem`, `lockAccountsForUpdate_sorted` -- the lock query names the existing
    accounts among the two, each once, in its order.
  * `afterLock_spec` -- the switch and the funds check see the two locked rows.
  * `updateDebit_ok`, `updateCredit_ok` -- an UPDATE is refused by its column alone, the debit only
    for a deposit (`Held.deposit_of_refused`).
  * `checkHeader_spec`, `insertHeader_ok`, `insertEntry_spec` -- the INSERTs meet every foreign key,
    and every CHECK but that on the amount of a deposit.
  * `commitTx_ok` -- the double-entry trigger never fires, and COMMIT is the atomic posting
    of the call's request.
-/
import BankingService.Proof.CallInv
import BankingService.Spec.Exact

namespace BankingService

open Lib

/-! ## 1. The lock query -/

theorem lockAccountsForUpdate_mem (cfg : Config) (L : Ledger) (ids : List UUID) (id : UUID) :
    id ∈ lockAccountsForUpdate cfg L ids ↔ id ∈ ids ∧ ∃ a ∈ L.accounts, a.id = id := by
  unfold lockAccountsForUpdate sortIDs
  rw [List.mem_insertionSort, List.mem_map]
  constructor
  · rintro ⟨a, ha, rfl⟩
    rw [List.mem_filter, decide_eq_true_eq, List.mem_insertionSort] at ha
    exact ⟨ha.2, a, ha.1, rfl⟩
  · rintro ⟨hid, a, ha, rfl⟩
    refine ⟨a, List.mem_filter.mpr ⟨ha, ?_⟩, rfl⟩
    rw [decide_eq_true_eq, List.mem_insertionSort]
    exact hid

theorem lockAccountsForUpdate_sorted (cfg : Config) {L : Ledger} (hI : LedgerInv L)
    (ids : List UUID) :
    (lockAccountsForUpdate cfg L ids).Pairwise fun a b => cfg.textLe a b = true ∧ a ≠ b := by
  have : Std.Total (fun a b => cfg.textLe a b = true) := ⟨cfg.textLe_total⟩
  have : IsTrans UUID (fun a b => cfg.textLe a b = true) := ⟨cfg.textLe_trans⟩
  refine List.Pairwise.and (List.pairwise_insertionSort _ _) ?_
  refine (List.perm_insertionSort _ _).nodup_iff.mpr ?_
  exact hI.accountIDs.sublist (List.filter_sublist.map _)

/-! ## 2. The locked rows -/

/-- Rows with two different ids out of `first` and `second`, both named: the switch finds both. -/
theorem pickLocked_pair {p : Posting} {x y : Account} (hne : x.id ≠ y.id)
    (hx : x.id = p.first ∨ x.id = p.second) (hy : y.id = p.first ∨ y.id = p.second) :
    ∃ a b, pickLocked p.first p.second [x, y] = (a, b) ∧ a ∈ [x, y] ∧ b ∈ [x, y] ∧
      a.id = p.first ∧ b.id = p.second := by
  rcases hx with hx | hx <;> rcases hy with hy | hy
  · exact absurd (hx.trans hy.symm) hne
  · have hp : p.second ≠ p.first := fun e => hne (hx.trans (hy.trans e).symm)
    exact ⟨x, y, by simp [pickLocked, hx, hy, hp], by simp, by simp, hx, hy⟩
  · have hp : p.second ≠ p.first := fun e => hne ((hx.trans e).trans hy.symm)
    exact ⟨y, x, by simp [pickLocked, hx, hy, hp], by simp, by simp, hy, hx⟩
  · exact absurd (hx.trans hy.symm) hne

/-- **After the lock query**: fewer than two rows are "account not found"; otherwise the two rows of
    the posting are held, and only the funds check can still refuse. -/
theorem afterLock_spec {cfg : Config} {L : Ledger} {p : Posting} {tx : Tx} {rows : List Account}
    (h : LockingOk cfg L p tx [] rows) :
    (rows.length ≠ 2 ∧ afterLock p rows = .error .accountNotFound) ∨
    ∃ da ca, rows.length = 2 ∧ da ∈ L.accounts ∧ da.id = p.debitID ∧ ca ∈ L.accounts ∧
      ca.id = p.creditID ∧ .account p.debitID ∈ tx.forUpdate ∧
      .account p.creditID ∈ tx.forUpdate ∧
      afterLock p rows =
        if p.checkFunds = true ∧ da.balance < p.amount.units then .error .insufficientFunds
        else .ok ((Money.ofColumn da.balance).sub p.amount,
          (Money.ofColumn ca.balance).add p.amount) := by
  by_cases hl : rows.length = 2
  · refine .inr ?_
    obtain ⟨x, y, rfl⟩ := List.length_eq_two.mp hl
    have hne : x.id ≠ y.id := by
      have := h.sorted
      simp only [List.append_nil, List.map_cons, List.map_nil, List.pairwise_cons] at this
      exact (this.1 y.id List.mem_cons_self).2
    obtain ⟨a, b, hpick, ha, hb, haid, hbid⟩ :=
      pickLocked_pair hne (h.ids x.id (by simp)) (h.ids y.id (by simp))
    have hlock : ∀ z ∈ [x, y], .account z.id ∈ tx.forUpdate := fun z hz => by
      rw [h.locked]
      exact List.mem_map.mpr ⟨z, hz, rfl⟩
    obtain ⟨ra, hra, rfl⟩ := h.current a ha
    obtain ⟨rb, hrb, rfl⟩ := h.current b hb
    have hla := hlock _ ha
    have hlb := hlock _ hb
    rw [haid] at hla
    rw [hbid] at hlb
    cases hd : p.debitFirst with
    | true =>
        refine ⟨ra, rb, rfl, hra, ?_, hrb, ?_, ?_, ?_, ?_⟩
        · simpa [Posting.debitID, hd] using haid
        · simpa [Posting.creditID, hd] using hbid
        · simpa [Posting.debitID, hd] using hla
        · simpa [Posting.creditID, hd] using hlb
        · simp [afterLock, hpick, hd, Money.lessThan_iff]
    | false =>
        refine ⟨rb, ra, rfl, hrb, ?_, hra, ?_, ?_, ?_, ?_⟩
        · simpa [Posting.debitID, hd] using hbid
        · simpa [Posting.creditID, hd] using haid
        · simpa [Posting.debitID, hd] using hlb
        · simpa [Posting.creditID, hd] using hla
        · simp [afterLock, hpick, hd, Money.lessThan_iff]
  · exact .inl ⟨hl, by simp [afterLock, hl]⟩

/-! ## 3. The two UPDATEs -/

section Update

variable {cfg : Config} {L : Ledger} {tx : Tx} {p : Posting} {kind : TransactionKind}
  {da ca : AccountRow}

/-- An UPDATE of an existing row by a value that its column and its CHECK take. -/
theorem updateBalance_ok (cfg : Config) (tx : Tx) (hI : LedgerInv L) {a : AccountRow}
    (ha : a ∈ L.accounts) {m : Money} (hs : m.storable = true)
    (hc : a.id = externalAccountID ∨ 0 ≤ m.stored) :
    updateBalance cfg L tx a.id m =
      .ok { tx with balances := (a.id, m.stored) :: tx.balances } := by
  have hcheck : (a.isSystem || decide (0 ≤ m.stored)) = true := by
    rw [Bool.or_eq_true, decide_eq_true_eq]
    exact hc.imp (hI.system a ha).mpr id
  simp only [updateBalance, m.toColumn_ok hs, hI.account_mem ha, hcheck]
  simp

theorem updateBalance_refused (cfg : Config) (L : Ledger) (tx : Tx) (id : UUID) {m : Money}
    {e : PgError} (he : m.toColumn 1 = .error e) : updateBalance cfg L tx id m = .error e := by
  simp only [updateBalance, he]

/-- A checked debit leaves a balance that is not negative. -/
theorem Held.debit_nonneg (h : Held L p tx da ca) (hc : p.checkFunds = true) :
    0 ≤ da.balance - p.amount.units :=
  Int.sub_nonneg.mpr (h.funds hc)

/-- What a user account pays is in range, and so is what it keeps. -/
theorem Held.checked_inRange (hI : LedgerInv L) (hp : p.Sound kind) (h : Held L p tx da ca)
    (hk : kind ≠ .deposit) :
    InRange p.amount.units ∧ InRange (da.balance - p.amount.units) := by
  have hpos := hp.positive
  have hle := h.funds (hp.checked.mpr hk)
  have hlt := (hI.range da h.debitMem).2
  exact ⟨⟨lt_trans (by decide) hpos, by omega⟩,
    lt_of_lt_of_le (by decide) (Int.sub_nonneg.mpr hle), by omega⟩

/-- The CHECK lets the debit pass: EXTERNAL may owe, and a user account covers the amount. -/
theorem Held.debit_check (hp : p.Sound kind) (h : Held L p tx da ca) {m : Money}
    (hm : m.units = da.balance - p.amount.units) :
    da.id = externalAccountID ∨ 0 ≤ m.stored := by
  by_cases hk : kind = .deposit
  · exact .inl (h.debitID.trans (hp.external.mpr hk))
  · exact .inr (m.stored_nonneg (hm ▸ h.debit_nonneg (hp.checked.mpr hk)))

/-- What is held allows the move. -/
theorem Held.moveOk (hp : p.Sound kind) (h : Held L p tx da ca)
    (hlow : -numericBound < da.balance - p.amount.units) :
    MoveOk L p.debitID p.creditID p.amount.units := by
  refine ⟨hp.positive, hp.distinct, hp.credit, ⟨ca, h.creditMem, h.creditID⟩, da, h.debitMem,
    h.debitID, fun hext => h.funds (hp.checked.mpr fun hk => hext (hp.external.mpr hk)), hlow⟩

/-- **The debit UPDATE**: accepted when the column takes the new balance. -/
theorem updateDebit_ok (cfg : Config) (hI : LedgerInv L) (hp : p.Sound kind)
    (h : Held L p tx da ca) {m : Money} (hm : m.units = da.balance - p.amount.units)
    (hs : m.storable = true) :
    updateBalance cfg L tx p.debitID m = .ok { tx with balances :=
      (p.debitID, Column.driver.stored (da.balance - p.amount.units)) :: tx.balances } := by
  rw [← h.debitID, ← hm, Column.driver_stored]
  exact updateBalance_ok cfg tx hI h.debitMem hs (h.debit_check hp hm)

/-- Only the debit of a deposit is refused: what a user account keeps is in range. -/
theorem Held.deposit_of_refused (hI : LedgerInv L) (hp : p.Sound kind) (h : Held L p tx da ca)
    {m : Money} (hm : m.units = da.balance - p.amount.units) (hs : m.storable = false) :
    kind = .deposit := by
  by_contra hk
  have hr := (h.checked_inRange hI hp hk).2
  rw [← hm] at hr
  rw [(Money.storable_of_inRange hr).1] at hs
  cases hs

/-- **The credit UPDATE**: accepted when the column takes the new balance. -/
theorem updateCredit_ok (cfg : Config) (hI : LedgerInv L) (hp : p.Sound kind)
    (h : Held L p tx da ca) {m : Money} (hm : m.units = ca.balance + p.amount.units)
    (hs : m.storable = true) :
    updateBalance cfg L tx p.creditID m = .ok { tx with balances :=
      (p.creditID, Column.driver.stored (ca.balance + p.amount.units)) :: tx.balances } := by
  rw [← h.creditID, ← hm, Column.driver_stored]
  refine updateBalance_ok cfg tx hI h.creditMem hs (.inr (m.stored_nonneg ?_))
  have := hI.nonneg ca h.creditMem (by rw [h.creditID]; exact hp.credit)
  have := hp.positive
  omega

/-- A positive amount in range passes its column and its CHECK. -/
theorem entryTakes_of_inRange (cfg : Config) {m : Money} (hr : InRange m.units)
    (hpos : 0 < m.units) : entryTakes cfg m = true := by
  obtain ⟨hs, hst⟩ := Money.storable_of_inRange hr
  rw [entryTakes, hs, hst, decide_eq_true hpos]
  simp

/-- What a user account pays passes them. -/
theorem Held.entryTakes_of_checked (cfg : Config) (hI : LedgerInv L) (hp : p.Sound kind)
    (h : Held L p tx da ca) (hk : kind ≠ .deposit) : entryTakes cfg p.amount = true :=
  entryTakes_of_inRange cfg (h.checked_inRange hI hp hk).1 hp.positive

end Update

/-! ## 4. The INSERTs -/

theorem kindCheck_text (kind : TransactionKind) : kindCheck kind.text = true := by
  cases kind <;> decide

theorem directionCheck_text (d : Direction) : directionCheck d.text = true := by
  cases d <;> decide

/-- The header INSERT is refused before its indexes by the encoding of the key alone. -/
theorem checkHeader_spec (cfg : Config) (t : Transaction) :
    checkHeader cfg t = if pgText t.idempotencyKey = true then .ok () else .error invalidText := by
  unfold checkHeader
  rw [kindCheck_text]
  cases pgText t.idempotencyKey <;> simp

/-- The index entries of a header, in the order of the indexes. -/
theorem indexKeys_headerRow (t : Transaction) (now : Time) :
    (headerRow t now).indexKeys = UniqueIndex.all.filterMap t.indexKey := by
  unfold TransactionRow.indexKeys headerRow UniqueIndex.all
  cases h : t.reversesTransactionID <;> simp [Transaction.indexKey, h]

theorem Request.txn_fields (r : Request) (u : UUID) :
    (r.txn u).id = u ∧ (r.txn u).kind = r.kind ∧ (r.txn u).idempotencyKey = r.key ∧
      (r.txn u).reversesTransactionID = r.reverses ∧ (r.txn u).entries = [] ∧
      (r.txn u).createdAt = 0 := by
  cases r <;> exact ⟨rfl, rfl, rfl, rfl, rfl, rfl⟩

section Insert

variable {cfg : Config} {db : Db} {r : Request} {w : Work} {tx : Tx}

theorem WorkOk.key {L : Ledger} (hw : WorkOk L r w) : w.txn.idempotencyKey = r.key := by
  rw [hw.txn]
  exact (r.txn_fields _).2.2.1

theorem WorkOk.kind {L : Ledger} (hw : WorkOk L r w) : w.txn.kind = r.kind := by
  rw [hw.txn]
  exact (r.txn_fields _).2.1

theorem WorkOk.reverses {L : Ledger} (hw : WorkOk L r w) :
    w.txn.reversesTransactionID = r.reverses := by
  rw [hw.txn]
  exact (r.txn_fields _).2.2.2.1

/-- The transaction a reversal refers to is committed. -/
theorem WorkOk.original {L : Ledger} (hw : WorkOk L r w) {o : UUID} (ho : r.reverses = some o) :
    ∃ t ∈ L.transactions, t.id = o := by
  have hp := hw.posting
  cases r with
  | transfer => cases ho
  | deposit => cases ho
  | reverse originalTxID k q =>
      cases ho
      obtain ⟨t, ht, hid, _⟩ := hp
      exact ⟨t, ht, hid⟩

/-- The locks the header INSERT takes on the row it refers to. -/
def Work.headerLocks (w : Work) : List Row :=
  (w.txn.reversesTransactionID.map Row.transaction).toList

/-- **The header INSERT meets its foreign key.** -/
theorem insertHeader_ok {L : Ledger} (hI : LedgerInv L) (hw : WorkOk L r w) :
    insertHeader L tx w.txn =
      .ok { tx with
        header := some (headerRow w.txn tx.now)
        forKeyShare := tx.forKeyShare ++ w.headerLocks } := by
  unfold insertHeader Work.headerLocks
  cases ho : w.txn.reversesTransactionID with
  | none => simp
  | some o =>
      obtain ⟨t, ht, rfl⟩ := hw.original (hw.reverses.symm.trans ho)
      simp [hI.transaction_mem ht]

/-- The amounts of the two legs pass the guard of `InsertEntries`. -/
theorem entriesPositive_legs {kind : TransactionKind} (hp : w.posting.Sound kind) :
    entriesPositive w.legs = true := by
  have := (Money.isPositive_iff w.posting.amount).mpr hp.positive
  simp [entriesPositive, Work.legs, this]

/-- **An entry INSERT meets its foreign keys and the CHECK on the direction**: the header is the
    transaction's own, and the account is locked. It is refused for its amount alone. -/
theorem insertEntry_spec (cfg : Config) (hI : LedgerInv db.toLedger) {e : Entry}
    (hpos : 0 < e.amount.units) {a : AccountRow} (ha : a ∈ db.accounts) (haid : a.id = e.accountID)
    {row : TransactionRow} (hh : tx.header = some row) (hid : row.id = e.transactionID) :
    (entryTakes cfg e.amount = true ∧ insertEntry cfg db tx e =
      .ok ({ db with entriesSeq := db.entriesSeq + 1 },
        { tx with
          entries := tx.entries ++ [⟨db.entriesSeq + 1, e.transactionID, e.accountID, e.direction,
            e.amount.stored, tx.now⟩]
          forKeyShare := tx.forKeyShare ++
            [.transaction e.transactionID, .account e.accountID] })) ∨
    (entryTakes cfg e.amount = false ∧
      ∃ err, EntryRefused cfg e.amount err ∧ insertEntry cfg db tx e = .error err) := by
  have hacc : db.account? e.accountID = some a := haid ▸ hI.account_mem ha
  rcases e.amount.toColumn_cases 4 with ⟨hs, hcol⟩ | ⟨hs, _, err, hcol⟩
  · by_cases hc : (cfg.constraints && !decide (0 < e.amount.stored)) = true
    · obtain ⟨hcfg, hzero⟩ := Bool.and_eq_true_iff.mp hc
      have hstored : e.amount.stored = 0 := by
        have := e.amount.stored_nonneg hpos.le
        simp only [Bool.not_eq_true', decide_eq_false_iff_not] at hzero
        omega
      refine .inr ⟨?_, _, .inr ⟨hcfg, hstored ▸ hcol, rfl⟩, ?_⟩
      · rw [entryTakes, hs, hcfg, hstored]
        rfl
      · simp only [insertEntry, hcol, hc, if_true]
    · refine .inl ⟨?_, ?_⟩
      · rw [Bool.not_eq_true, Bool.and_eq_false_iff] at hc
        rw [entryTakes, hs]
        rcases hc with hc | hc
        · simp [hc]
        · simp only [Bool.not_eq_false'] at hc
          simp [hc]
      · simp [insertEntry, hcol, hc, directionCheck_text, hh, hid, hacc]
  · refine .inr ⟨by rw [entryTakes, hs]; rfl, err, .inl hcol, ?_⟩
    simp only [insertEntry, hcol]

end Insert

/-! ## 5. COMMIT -/

/-- All entries are in. -/
theorem EntriesAt.of_nil {cfg : Config} {seq : Nat} {w : Work} {now : Time}
    {rows : List EntryRow} (h : EntriesAt cfg seq w now [] rows) :
    ∃ n m, n < m ∧ m ≤ seq ∧ entryTakes cfg w.posting.amount = true ∧
      rows = [w.debitRow now n, w.creditRow now m] := by
  generalize hl : ([] : List Entry) = todo at h
  cases h with
  | none => cases hl
  | one => cases hl
  | both n m h h' ht => exact ⟨n, m, h, h', ht, rfl⟩

/-- One entry comes next: the debit, then the credit. -/
theorem EntriesAt.of_cons {cfg : Config} {seq : Nat} {w : Work} {now : Time} {e : Entry}
    {todo : List Entry} {rows : List EntryRow} (h : EntriesAt cfg seq w now (e :: todo) rows) :
    (w.legs = e :: todo ∧ rows = []) ∨
      ∃ n ≤ seq, w.legs.tail = [e] ∧ todo = [] ∧ rows = [w.debitRow now n] := by
  generalize hl : e :: todo = l at h
  cases h with
  | none => exact .inl ⟨rfl, rfl⟩
  | one n h _ =>
      obtain ⟨rfl, rfl⟩ := List.cons.inj hl
      exact .inr ⟨n, h, rfl, rfl, rfl⟩
  | both => cases hl

section Commit

variable {cfg : Config} {db : Db} {r : Request} {w : Work} {tx : Tx} {da ca : AccountRow}

/-- The writes of a finished transaction are the posting, at the stamp the server gave it. -/
theorem tx_apply_eq {L : Ledger} (hI : LedgerInv L) (hw : WorkOk L r w)
    (hu : Updated L w tx da ca) {index : List IndexKey} {n m : Nat}
    (hwr : Wrote tx (w.posting.newBalances da ca) index (some (headerRow w.txn tx.now))
      [w.debitRow tx.now n, w.creditRow tx.now m]) :
    tx.apply L = L.post .driver r.kind r.key r.reverses w.posting.debitID w.posting.creditID
      w.posting.amount.units ⟨w.txn.id, tx.now, n, m⟩ := by
  have hd := (hw.posting.sound hI).distinct
  unfold Tx.apply Ledger.post
  congr 1
  · refine List.map_congr_left fun a ha => ?_
    rw [hwr.balances]
    by_cases hc : a.id = w.posting.creditID
    · have e : a = ca := row_unique hI.accountIDs ha hu.creditMem (hc.trans hu.creditID.symm)
      subst e
      simp [Posting.newBalances, hc, balance_credit .driver hd hc]
    · by_cases hb : a.id = w.posting.debitID
      · have e : a = da := row_unique hI.accountIDs ha hu.debitMem (hb.trans hu.debitID.symm)
        subst e
        simp [Posting.newBalances, List.lookup_cons, hb, beq_eq_false_iff_ne.mpr hd,
          balance_debit .driver hd hb]
      · simp [Posting.newBalances, List.lookup_cons, balance_other .driver hb hc,
          beq_eq_false_iff_ne.mpr hc, beq_eq_false_iff_ne.mpr hb]
  · rw [hwr.header]
    simp [headerRow, hw.kind, hw.key, hw.reverses]
  · rw [hwr.entries, Column.driver_stored]
    rfl

/-- The keys a transaction has put into the indexes are on no committed row. -/
theorem TxOk.unindexed {L : Ledger} (ht : TxOk L tx) {k : IndexKey} (hk : k ∈ tx.index) :
    ∀ row ∈ L.transactions, k ∉ row.indexKeys := by
  have := ht.fresh k hk
  simp only [Ledger.indexed, List.any_eq_false, decide_eq_true_eq] at this
  exact this

/-- **A finished transaction may post**: its index entries are its own, so its id and its key are
    new and the original of a reversal is not reversed. -/
theorem canPost_of_inserted {L : Ledger} (hI : LedgerInv L) (hw : WorkOk L r w) (ht : TxOk L tx)
    (hu : Updated L w tx da ca) (hix : tx.index = (headerRow w.txn tx.now).indexKeys)
    (hs : w.posting.amount.storable = true) {n m : Nat} (hnm : n < m) :
    r.posting? L = some (w.posting.checkFunds, w.posting.debitID, w.posting.creditID,
        w.posting.amount.units) ∧
      CanPost L .driver w.posting.checkFunds r.key w.posting.debitID w.posting.creditID
        w.posting.amount.units ⟨w.txn.id, tx.now, n, m⟩ := by
  have hp := hw.posting.sound hI
  have hkey : ∀ k ∈ (headerRow w.txn tx.now).indexKeys, ∀ row ∈ L.transactions,
      k ∉ row.indexKeys := fun k hk => ht.unindexed (hix ▸ hk)
  constructor
  · refine hw.posting.posting? hI fun o ho row hrow e => ?_
    refine hkey (.reverses o) ?_ row hrow ?_
    · simp [TransactionRow.indexKeys, headerRow, hw.reverses, ho]
    · simp [TransactionRow.indexKeys, e]
  · refine ⟨hp.positive, hp.distinct, hnm, fun row hrow e => ?_, fun row hrow e => ?_,
      (Column.driver_isSome _).trans hs, ⟨ca, hu.creditMem, hu.creditID, hu.creditTaken⟩, da,
      hu.debitMem, hu.debitID, hu.funds, hu.debitTaken⟩
    · refine hkey (.id w.txn.id) ?_ row hrow ?_
      · simp [TransactionRow.indexKeys, headerRow]
      · simp [TransactionRow.indexKeys, e]
    · refine hkey (.key r.key) ?_ row hrow ?_
      · simp [TransactionRow.indexKeys, headerRow, hw.key]
      · simp [TransactionRow.indexKeys, e]

/-- The rows of a sendable request carry its amount. -/
theorem Inserted.stored_eq {cfg : Config} (hI : LedgerInv db.toLedger) (hw : WorkOk db.toLedger r w)
    (h : Inserted cfg db w tx []) (hs : r.sendable = true) :
    w.posting.amount.stored = w.posting.amount.units := by
  obtain ⟨da, ca, rows, hu, _, hes, _⟩ := h
  obtain ⟨n, m, _, _, htake, _⟩ := hes.of_nil
  by_cases hk : r.kind = .deposit
  · exact Money.stored_eq (hw.sendable hs hk) (storable_of_entryTakes htake)
  · have hin := (hu.toHeld.checked_inRange hI (hw.posting.sound hI) hk).1
    exact (Money.storable_of_inRange hin).2

/-- The two legs of a posting cancel. -/
theorem doubleEntrySum_legs {entries : List EntryRow}
    (hfresh : ∀ e ∈ entries, e.transactionID ≠ w.txn.id) (now : Time) (n m : Nat) :
    doubleEntrySum (entries ++ [w.debitRow now n, w.creditRow now m]) w.txn.id = 0 := by
  have h0 : entries.filter (fun e => e.transactionID = w.txn.id) = [] :=
    List.filter_eq_nil_iff.mpr fun e he => by simpa using hfresh e he
  unfold doubleEntrySum
  rw [List.filter_append, h0]
  simp [Work.debitRow, Work.creditRow, EntryRow.signed]

/-- **COMMIT succeeds and is the atomic posting.** -/
theorem commitTx_ok (cfg : Config) (hI : LedgerInv db.toLedger) (hw : WorkOk db.toLedger r w)
    (ht : TxOk db.toLedger tx) (h : Inserted cfg db w tx []) :
    ∃ L n m, commitTx cfg db tx = .ok { db with toLedger := L } ∧
      w.stamp tx = ⟨w.txn.id, tx.now, n, m⟩ ∧
      L = db.post .driver r.kind r.key r.reverses w.posting.debitID w.posting.creditID
        w.posting.amount.units ⟨w.txn.id, tx.now, n, m⟩ ∧
      (Commit.request r (w.stamp tx)).apply db.toLedger = some L := by
  obtain ⟨da, ca, rows, hu, _, he, hwr⟩ := h
  obtain ⟨n, m, hnm, _, htake, rfl⟩ := he.of_nil
  obtain ⟨hpost, hcan⟩ :=
    canPost_of_inserted hI hw ht hu hwr.index (storable_of_entryTakes htake) hnm
  have hst : w.stamp tx = ⟨w.txn.id, tx.now, n, m⟩ := by
    simp [Work.stamp, hwr.entries, Work.debitRow, Work.creditRow]
  have hsum := doubleEntrySum_legs (w := w) (entries_fresh hI hcan.2.2.2.1) tx.now n m
  refine ⟨_, n, m, ?_, hst, tx_apply_eq hI hw hu hwr, ?_⟩
  · have hnone : (tx.entries.find? fun e =>
        cfg.constraints && doubleEntrySum (db.entries ++ tx.entries) e.transactionID != 0) =
        none := by
      rw [hwr.entries]
      have hd : (w.debitRow tx.now n).transactionID = w.txn.id := rfl
      have hc : (w.creditRow tx.now m).transactionID = w.txn.id := rfl
      simp [hd, hc, hsum]
    unfold commitTx
    rw [hnone]
  · rw [hst, tx_apply_eq hI hw hu hwr]
    simp only [Commit.applyTo, hpost]
    rw [if_pos hcan]

end Commit

end BankingService
