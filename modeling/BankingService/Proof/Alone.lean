/-
  File:      BankingService/Proof/Alone.lean
  Subject:   A DEPOSIT THAT MEETS NO OTHER CALL, statement by statement: what it writes, by what the
             columns store of the amounts it sends.

  * `requestRun` -- the steps of one call; `exec_alone` -- they are a run of the system if no other
    call has a transaction open.
  * `DepositAt` -- what the deposit finds, and what the columns store of the two new balances;
    `deposit_inserts` -- it comes to the INSERT of its entries.
  * `deposit_posts` -- it returns its transaction if the column stores a positive amount;
    `deposit_unchecked` -- it rolls back if the column stores 0.
  * `wrapRun_exec` -- a deposit of `10 ^ 262144`, of which the columns store a 1.
-/
import BankingService.Proof.Conflicts
import BankingService.Proof.Numeric
import BankingService.Proof.Track

namespace BankingService

open Lib

/-! ## 1. One call -/

/-- No call but `i` has a transaction open. -/
def St.Alone (s : St) (i : Nat) : Prop := ∀ j, j ≠ i → s.tx? j = none

theorem St.Alone.others {s : St} {i : Nat} (h : s.Alone i) : s.others i = [] := by
  refine List.eq_nil_iff_forall_not_mem.mpr fun t ht => ?_
  obtain ⟨j, hj, htx⟩ := St.mem_others.mp ht
  rw [h j hj] at htx
  cases htx

theorem St.Alone.set {s : St} {i : Nat} (h : s.Alone i) (db : Db) (c : Call) :
    St.Alone { s with db := db, calls := s.calls.set i c } i := by
  intro j hj
  rw [← h j hj, St.tx?, St.tx?]
  exact congrArg (Option.bind · Call.tx?) (List.getElem?_set_ne hj.symm)

/-- The steps of one call that meets no other transaction. -/
def requestRun (cfg : Config) (now : Time) (r : Request) :
    Db × Phase → List Choice → Option (Db × Phase) :=
  run fun x ch => requestStep cfg now [] x.1 r x.2 ch

/-- **The steps of a call that is alone are a run of the system.** -/
theorem exec_alone {cfg : Config} {s : St} {i : Nat} (ha : s.Alone i) {r : Request} {p p' : Phase}
    (hc : s.calls[i]? = some (.request r p)) {chs : List Choice} {db' : Db}
    (h : requestRun cfg s.clock r (s.db, p) chs = some (db', p')) :
    exec cfg s (chs.map (.call i)) =
      some { s with db := db', calls := s.calls.set i (.request r p') } := by
  induction chs generalizing s p with
  | nil =>
      cases h
      obtain ⟨hi, e⟩ := List.getElem?_eq_some_iff.mp hc
      rw [← e, List.set_getElem_self]
      rfl
  | cons ch chs ih =>
      obtain ⟨⟨db₁, p₁⟩, h₁, hrest⟩ := Option.bind_eq_some_iff.mp h
      have hstep : step cfg s (.call i ch) =
          some { s with db := db₁, calls := s.calls.set i (.request r p₁) } := by
        have h₁ : requestStep cfg s.clock [] s.db r p ch = some (db₁, p₁) := h₁
        simp only [step, hc, callStep, ha.others, h₁]
        rfl
      obtain ⟨hi, _⟩ := List.getElem?_eq_some_iff.mp hc
      have hrun := ih (ha.set db₁ (.request r p₁)) (List.getElem?_set_self hi) hrest
      rw [List.set_set] at hrun
      rw [List.map_cons, exec, run_cons, hstep]
      exact hrun

/-- Inside the transaction nothing has to be waited for. -/
theorem requestStep_inTx (cfg : Config) (now : Time) (db : Db) (r : Request) (w : Work) (tx : Tx)
    (stage : Stage) :
    requestStep cfg now [] db r (.inTx w tx stage) .ok = some (stageStep cfg db r w tx stage) :=
  rfl

/-- The audit row is the last thing, whether it can be written or not. -/
theorem audit_returns (cfg : Config) (now : Time) (r : Request) (db : Db) (e : AuditEntry)
    (ret : Return) :
    ∃ db', requestStep cfg now [] db r (.audit e ret) .ok = some (db', .done ret) ∧
      db'.toLedger = db.toLedger := by
  simp only [requestStep]
  cases hw : writeAudit cfg db now e with
  | error err => exact ⟨db, rfl, rfl⟩
  | ok db' =>
      obtain ⟨_, rfl⟩ := writeAudit_ok hw
      exact ⟨_, rfl, rfl⟩

/-! ## 2. A deposit -/

section Deposit

variable {cfg : Config} {db : Db} (now : Time) {dst : UUID} {amount : Money} {key : GoString}
  (q : GoString) {u : UUID} {ext acc : AccountRow} {x y : Int}

/-- **What a deposit finds**: an unused key and an unused id, EXTERNAL and the account, and columns
    that store `x` and `y` as the new balances. -/
structure DepositAt (cfg : Config) (db : Db) (dst : UUID) (amount : Money) (key : GoString)
    (u : UUID) (ext acc : AccountRow) (x y : Int) : Prop where
  text : pgText key = true
  key : ∀ t ∈ db.transactions, t.idempotencyKey ≠ key
  id : ∀ t ∈ db.transactions, t.id ≠ u
  external : db.account? externalAccountID = some ext
  account : db.account? dst = some acc
  order : lockAccountsForUpdate cfg db.toLedger [externalAccountID, dst] = [externalAccountID, dst]
  distinct : dst ≠ externalAccountID
  system : ext.isSystem = true
  positive : amount.isPositive = true
  debit : ((Money.ofColumn ext.balance).sub amount).toColumn 1 = .ok x
  credit : ((Money.ofColumn acc.balance).add amount).toColumn 1 = .ok y
  nonneg : 0 ≤ y

/-- Its posting and its header. -/
def depositWork (dst : UUID) (amount : Money) (key : GoString) (u : UUID) : Work :=
  ⟨depositPosting dst amount, ⟨u, .deposit, key, none, 0, []⟩⟩

/-- Its transaction when the header is in. -/
def depositTx (now : Time) (dst : UUID) (key : GoString) (u : UUID) (x y : Int) : Tx :=
  ⟨now, [.account externalAccountID, .account dst], [], [(dst, y), (externalAccountID, x)],
    [.id u, .key key], some ⟨u, .deposit, key, none, now⟩, []⟩

/-- It locks both accounts and computes the new balances. -/
theorem deposit_locks (h : DepositAt cfg db dst amount key u ext acc x y) :
    requestRun cfg now (.deposit dst amount key q) (db, .lookup)
        ([.ok, .uuid u] ++ List.replicate 5 .ok) =
      some (db, .inTx (depositWork dst amount key u)
        { Tx.start now with forUpdate := [.account externalAccountID, .account dst] }
        (.updateDebit ((Money.ofColumn ext.balance).sub amount)
          ((Money.ofColumn acc.balance).add amount))) := by
  have hkey : getTransactionByIdempotencyKey db.toLedger key = .ok none := by
    have hnone : db.transactionByKey? key = none := find_key_none.mpr h.key
    simp [getTransactionByIdempotencyKey, h.text, hnone]
  have hids : ext.id = externalAccountID ∧ acc.id = dst :=
    ⟨(mem_of_find_key h.external).2, (mem_of_find_key h.account).2⟩
  have hafter : afterLock ⟨externalAccountID, dst, true, amount, false⟩
      [scanAccount ext, scanAccount acc] =
      .ok ((Money.ofColumn ext.balance).sub amount, (Money.ofColumn acc.balance).add amount) := by
    simp [afterLock, pickLocked, hids, h.distinct]
  have hlookup : requestStep cfg now [] db (.deposit dst amount key q) .lookup .ok =
      some (db, .newID (depositPosting dst amount)) := by
    simp only [requestStep, Request.key, hkey]
    rfl
  have hbegin (w : Work) : requestStep cfg now [] db (.deposit dst amount key q) (.beginTx w) .ok =
      some (db, .inTx w (Tx.start now) .lock) := rfl
  have hgenerate (p : Posting) : requestStep cfg now [] db (.deposit dst amount key q) (.newID p)
      (.uuid u) = some (db, .beginTx ⟨p, ⟨u, .deposit, key, none, 0, []⟩⟩) := rfl
  simp [requestRun, run_cons, hlookup, hgenerate, hbegin, requestStep_inTx, stageStep,
    depositPosting, h.order, h.external, h.account, depositWork, Tx.start, hafter]

/-- It writes both balances and inserts the header. -/
theorem deposit_writes (h : DepositAt cfg db dst amount key u ext acc x y) :
    requestRun cfg now (.deposit dst amount key q)
        (db, .inTx (depositWork dst amount key u)
          { Tx.start now with forUpdate := [.account externalAccountID, .account dst] }
          (.updateDebit ((Money.ofColumn ext.balance).sub amount)
            ((Money.ofColumn acc.balance).add amount)))
        (List.replicate 7 .ok) =
      some (db, .inTx (depositWork dst amount key u) (depositTx now dst key u x y)
        (.insertEntries (depositWork dst amount key u).legs)) := by
  have hid : db.indexed (.id u) = false := Bool.eq_false_iff.mpr fun hin => by
    obtain ⟨t, ht, e⟩ := indexed_id.mp hin
    exact h.id t ht e
  have hkey : db.indexed (.key key) = false := Bool.eq_false_iff.mpr fun hin => by
    obtain ⟨t, ht, e⟩ := indexed_key.mp hin
    exact h.key t ht e
  have hdebit (tx : Tx) : updateBalance cfg db.toLedger tx externalAccountID
      ((Money.ofColumn ext.balance).sub amount) =
      .ok { tx with balances := (externalAccountID, x) :: tx.balances } := by
    simp [updateBalance, h.debit, h.external, h.system]
  have hcredit (tx : Tx) : updateBalance cfg db.toLedger tx dst
      ((Money.ofColumn acc.balance).add amount) =
      .ok { tx with balances := (dst, y) :: tx.balances } := by
    simp [updateBalance, h.credit, h.account, not_lt.mpr h.nonneg]
  have hheader : checkHeader cfg ⟨u, .deposit, key, none, 0, []⟩ = .ok () := by
    simp [checkHeader, h.text, kindCheck_text]
  simp [requestRun, run_cons, requestStep_inTx, stageStep, depositWork, depositPosting,
    Posting.debitID, Posting.creditID, hdebit, hcredit, hheader, UniqueIndex.all,
    Transaction.indexKey, insertIndex, hid, hkey, insertHeader, headerRow, entriesPositive,
    Work.legs, h.positive, depositTx, Tx.start]

/-- **A deposit comes to the INSERT of its entries.** -/
theorem deposit_inserts (h : DepositAt cfg db dst amount key u ext acc x y) :
    requestRun cfg now (.deposit dst amount key q) (db, .lookup)
        ([.ok, .uuid u] ++ List.replicate 12 .ok) =
      some (db, .inTx (depositWork dst amount key u) (depositTx now dst key u x y)
        (.insertEntries (depositWork dst amount key u).legs)) := by
  have hrun := run_append_eq_some.mpr ⟨_, deposit_locks now q h, deposit_writes now q h⟩
  rwa [List.append_assoc, List.replicate_append_replicate] at hrun

/-- **The CHECK on the entries refuses a deposit that arrives as 0**: the transaction rolls back
    with the violation. -/
theorem deposit_unchecked (h : DepositAt cfg db dst amount key u ext acc x y)
    (hcfg : cfg.constraints = true) (hz : amount.toColumn 4 = .ok 0) :
    requestRun cfg now (.deposit dst amount key q) (db, .lookup)
        ([.ok, .uuid u] ++ List.replicate 13 .ok) =
      some (db, .inTx (depositWork dst amount key u) (depositTx now dst key u x y)
        (.rollback (.wrapped "store.InsertEntries"
          (.pg (checkViolation "entries" "entries_amount_check"))))) := by
  have hlast : requestRun cfg now (.deposit dst amount key q)
      (db, .inTx (depositWork dst amount key u) (depositTx now dst key u x y)
        (.insertEntries (depositWork dst amount key u).legs)) (List.replicate 1 .ok) =
      some (db, .inTx (depositWork dst amount key u) (depositTx now dst key u x y)
        (.rollback (.wrapped "store.InsertEntries"
          (.pg (checkViolation "entries" "entries_amount_check"))))) := by
    simp [requestRun, run_cons, requestStep_inTx, stageStep, Work.legs, depositWork, depositPosting,
      insertEntry, hz, hcfg]
  have hrun := run_append_eq_some.mpr ⟨_, deposit_inserts now q h, hlast⟩
  rwa [List.append_assoc, List.replicate_append_replicate] at hrun

/-- The two entries it inserts if the column stores `z`. -/
def depositEntries (now : Time) (dst u : UUID) (z : Int) (seq : Nat) : List EntryRow :=
  [⟨seq + 1, u, externalAccountID, .debit, z, now⟩, ⟨seq + 2, u, dst, .credit, z, now⟩]

/-- One of them. -/
theorem insertEntry_stores {tx : Tx} {id : UUID} {a : AccountRow} {z : Int}
    (hz : amount.toColumn 4 = .ok z) (hpos : 0 < z)
    (hh : tx.header = some ⟨u, .deposit, key, none, now⟩) (ha : db.account? id = some a)
    (d : Direction) :
    insertEntry cfg db tx ⟨0, u, id, d, [], amount, 0⟩ =
      .ok ({ db with entriesSeq := db.entriesSeq + 1 },
        { tx with
          entries := tx.entries ++ [⟨db.entriesSeq + 1, u, id, d, z, tx.now⟩]
          forKeyShare := tx.forKeyShare ++ [.transaction u, .account id] }) := by
  simp [insertEntry, hz, hpos, directionCheck_text, hh, ha]

/-- Its transaction at COMMIT. -/
def depositDone (now : Time) (dst : UUID) (key : GoString) (u : UUID) (x y z : Int) (seq : Nat) :
    Tx :=
  { depositTx now dst key u x y with
    entries := depositEntries now dst u z seq
    forKeyShare := [.transaction u, .account externalAccountID, .transaction u, .account dst] }

theorem deposit_entries (h : DepositAt cfg db dst amount key u ext acc x y) {z : Int}
    (hz : amount.toColumn 4 = .ok z) (hpos : 0 < z) :
    requestRun cfg now (.deposit dst amount key q)
        (db, .inTx (depositWork dst amount key u) (depositTx now dst key u x y)
          (.insertEntries (depositWork dst amount key u).legs)) (List.replicate 3 .ok) =
      some ({ db with entriesSeq := db.entriesSeq + 2 }, .inTx (depositWork dst amount key u)
        (depositDone now dst key u x y z db.entriesSeq) .commit) := by
  simp [requestRun, run_cons, requestStep_inTx, stageStep, Work.legs, depositWork, depositPosting,
    Posting.debitID, Posting.creditID, insertEntry_stores now hz hpos, h.external, h.account,
    depositTx, depositDone, depositEntries]

/-- COMMIT and the audit row. -/
theorem deposit_commits (cfg : Config) {z : Int}
    (hfresh : ∀ e ∈ db.entries, e.transactionID ≠ u) :
    ∃ db', requestRun cfg now (.deposit dst amount key q)
        ({ db with entriesSeq := db.entriesSeq + 2 }, .inTx (depositWork dst amount key u)
          (depositDone now dst key u x y z db.entriesSeq) .commit) (List.replicate 2 .ok) =
        some (db', .done (.committed (depositWork dst amount key u).txn
          (depositWork dst amount key u).legs)) ∧
      db'.toLedger = (depositDone now dst key u x y z db.entriesSeq).apply db.toLedger := by
  let committed : Db := ⟨(depositDone now dst key u x y z db.entriesSeq).apply db.toLedger,
    db.auditLog, db.entriesSeq + 2, db.auditSeq⟩
  have hsum : doubleEntrySum (db.entries ++ depositEntries now dst u z db.entriesSeq) u = 0 := by
    rw [doubleEntrySum_append, doubleEntrySum_none hfresh]
    simp [doubleEntrySum, depositEntries, EntryRow.signed]
  have hcommit : commitTx cfg { db with entriesSeq := db.entriesSeq + 2 }
      (depositDone now dst key u x y z db.entriesSeq) = .ok committed := by
    unfold depositEntries at hsum
    simp [commitTx, depositDone, depositEntries, hsum, committed]
  have hstep : requestStep cfg now [] { db with entriesSeq := db.entriesSeq + 2 }
      (.deposit dst amount key q) (.inTx (depositWork dst amount key u)
        (depositDone now dst key u x y z db.entriesSeq) .commit) .ok =
      some (committed, .audit
        ((Request.deposit dst amount key q).auditSuccess externalAccountID dst amount u)
        (.committed (depositWork dst amount key u).txn (depositWork dst amount key u).legs)) := by
    simp only [requestStep_inTx, stageStep, hcommit]
    rfl
  obtain ⟨db', haudit, hledger⟩ := audit_returns cfg now (.deposit dst amount key q) committed
    ((Request.deposit dst amount key q).auditSuccess externalAccountID dst amount u)
    (.committed (depositWork dst amount key u).txn (depositWork dst amount key u).legs)
  exact ⟨db', run_append_eq_some.mpr ⟨_, run_one hstep, run_one haudit⟩, hledger⟩

/-- **A deposit returns its transaction** if the columns store the two balances and a positive
    amount: the ledger then holds what the columns have stored. -/
theorem deposit_posts (h : DepositAt cfg db dst amount key u ext acc x y) {z : Int}
    (hz : amount.toColumn 4 = .ok z) (hpos : 0 < z)
    (hfresh : ∀ e ∈ db.entries, e.transactionID ≠ u) :
    ∃ db', requestRun cfg now (.deposit dst amount key q) (db, .lookup)
        ([.ok, .uuid u] ++ List.replicate 17 .ok) =
        some (db', .done (.committed (depositWork dst amount key u).txn
          (depositWork dst amount key u).legs)) ∧
      db'.toLedger = (depositDone now dst key u x y z db.entriesSeq).apply db.toLedger := by
  obtain ⟨db', hlast, hledger⟩ := deposit_commits now q cfg hfresh
  have hrun := run_append_eq_some.mpr ⟨_, run_append_eq_some.mpr
    ⟨_, deposit_inserts now q h, deposit_entries now q h hz hpos⟩, hlast⟩
  rw [List.append_assoc, List.append_assoc, List.replicate_append_replicate,
    List.replicate_append_replicate] at hrun
  exact ⟨db', hrun, hledger⟩

/-! ## 3. A deposit that arrives while no transaction is open -/

theorem DepositAt.start (h : DepositAt cfg db dst amount key u ext acc x y) :
    (Request.deposit dst amount key q).start = .lookup := by
  simp [Request.start, h.positive, h.distinct]

/-- Its arrival, then its steps. -/
theorem exec_arrived {s : St} (hrest : ∀ j, s.tx? j = none) {r : Request} (hs : r.start = .lookup)
    {chs : List Choice} {db' : Db} {p' : Phase}
    (h : requestRun cfg s.clock r (s.db, .lookup) chs = some (db', p')) :
    exec cfg s (.arrive r :: chs.map (.call s.calls.length)) =
      some { s with db := db', calls := s.calls ++ [.request r p'] } := by
  have halone : (s.arrived r).Alone s.calls.length := by
    intro j hj
    rcases lt_or_gt_of_ne hj with hlt | hgt
    · exact (congrArg (Option.bind · Call.tx?) (List.getElem?_append_left hlt)).trans (hrest j)
    · refine congrArg (Option.bind · Call.tx?) (List.getElem?_eq_none ?_)
      rw [St.arrived, List.length_append]
      exact hgt
  have hcall : (s.arrived r).calls[s.calls.length]? = some (.request r .lookup) :=
    hs ▸ arrived_call s r
  have hrun := exec_alone halone hcall h
  rw [exec, run_cons, show step cfg s (.arrive r) = some (s.arrived r) from rfl, Option.bind_some]
  refine hrun.trans (congrArg some ?_)
  simp [St.arrived]

/-- **A deposit alone that arrives as 0**: it rolls back. -/
theorem deposit_zero {s : St} (hrest : ∀ j, s.tx? j = none)
    (h : DepositAt cfg s.db dst amount key u ext acc x y) (hcfg : cfg.constraints = true)
    (hz : amount.toColumn 4 = .ok 0) :
    ∃ s' w tx,
      exec cfg s (.arrive (.deposit dst amount key q) ::
        (Choice.ok :: .uuid u :: List.replicate 13 .ok).map (.call s.calls.length)) = some s' ∧
      s'.calls[s.calls.length]? = some (.request (.deposit dst amount key q) (.inTx w tx
        (.rollback (.wrapped "store.InsertEntries"
          (.pg (checkViolation "entries" "entries_amount_check")))))) :=
  ⟨_, _, _, exec_arrived hrest (h.start q) (deposit_unchecked s.clock q h hcfg hz),
    List.getElem?_concat_length⟩

/-- **A deposit alone**: with what the columns store, it posts and returns. -/
theorem deposit_alone {s : St} (hrest : ∀ j, s.tx? j = none)
    (h : DepositAt cfg s.db dst amount key u ext acc x y) {z : Int}
    (hz : amount.toColumn 4 = .ok z) (hpos : 0 < z)
    (hfresh : ∀ e ∈ s.db.entries, e.transactionID ≠ u) :
    ∃ s', exec cfg s (soloCall s.calls.length (.deposit dst amount key q) u) = some s' ∧
      s'.db.toLedger =
        (depositDone s.clock dst key u x y z s.db.entriesSeq).apply s.db.toLedger ∧
      s'.calls[s.calls.length]? = some (.request (.deposit dst amount key q) (.done
        (.committed (depositWork dst amount key u).txn (depositWork dst amount key u).legs))) := by
  obtain ⟨db', hrun, hledger⟩ := deposit_posts s.clock q h hz hpos hfresh
  exact ⟨_, exec_arrived hrest (h.start q) hrun, hledger, List.getElem?_concat_length⟩

end Deposit

/-! ## 4. A deposit that wraps -/

/-- A transfer and its reversal, then a deposit of 99970000 to Alice and an account for Dora. -/
def wrapBefore : List Act :=
  sampleRun ++
    soloCall 2 (.deposit aliceID (Money.fromInt 99970000) (bytes "in-1") (bytes "req-3")) 102#128 ++
    [.arriveCreate (bytes "Dora"), .call 3 (.uuid 103#128), .call 3 .ok]

theorem wrapBefore_isSome :
    (exec Config.migrated (St.start (Db.migrated 0) 1000) wrapBefore).isSome = true := by
  decide +kernel

/-- EXTERNAL owes `10 ^ 8`, and Dora has nothing. -/
def wrapStart : St :=
  (exec Config.migrated (St.start (Db.migrated 0) 1000) wrapBefore).get wrapBefore_isSome

/-- A deposit of `10 ^ 262144` to Dora. -/
def wrapDeposit : Request :=
  .deposit 103#128 (Money.tenTo 262144) (bytes "in-2") (bytes "req-4")

def wrapRun : List Act := wrapBefore ++ soloCall 4 wrapDeposit 104#128

theorem wrapStart_rows :
    (pgText (bytes "in-2") = true ∧
      (∀ t ∈ wrapStart.db.transactions, t.idempotencyKey ≠ bytes "in-2") ∧
      ∀ t ∈ wrapStart.db.transactions, t.id ≠ 104#128) ∧
    (wrapStart.db.account? externalAccountID =
        some ⟨externalAccountID, bytes "EXTERNAL", -1000000000000, true⟩ ∧
      wrapStart.db.account? 103#128 = some ⟨103#128, bytes "Dora", 0, false⟩ ∧
      lockAccountsForUpdate Config.migrated wrapStart.db.toLedger [externalAccountID, 103#128] =
        [externalAccountID, 103#128]) ∧
    (∀ e ∈ wrapStart.db.entries, e.transactionID ≠ 104#128) ∧
    wrapStart.calls.length = 4 ∧ ∀ c ∈ wrapStart.calls, c.tx? = none := by
  decide +kernel

/-- **What it finds**: of both new balances the column stores a 1. -/
theorem wrapDeposit_at :
    DepositAt Config.migrated wrapStart.db 103#128 (Money.tenTo 262144) (bytes "in-2") 104#128
      ⟨externalAccountID, bytes "EXTERNAL", -1000000000000, true⟩
      ⟨103#128, bytes "Dora", 0, false⟩ (-10000) 10000 where
  text := wrapStart_rows.1.1
  key := wrapStart_rows.1.2.1
  id := wrapStart_rows.1.2.2
  external := wrapStart_rows.2.1.1
  account := wrapStart_rows.2.1.2.1
  order := wrapStart_rows.2.1.2.2
  distinct := by decide
  system := rfl
  positive := by
    rw [Money.isPositive_iff, Money.units_tenTo]
    positivity
  debit := Money.toColumn_sub_tenTo (j := 65534) (q := 2) (b := 1) (k := 0) 1 (by norm_num)
    (by norm_num) (by decide) (by norm_num) (by norm_num) (by decide)
  credit := Money.toColumn_tenTo (q := 65536) (k := 0) 1 (by simp) (by norm_num) (by decide)
  nonneg := by decide

/-- The ledger then: EXTERNAL owes 1, Dora has 1, and the two legs are of 1. -/
def wrapLedger : Ledger :=
  (depositDone wrapStart.clock 103#128 (bytes "in-2") 104#128 (-10000) 10000 10000
    wrapStart.db.entriesSeq).apply wrapStart.db.toLedger

theorem wrapBefore_exec :
    exec Config.migrated (St.start (Db.migrated 0) 1000) wrapBefore = some wrapStart :=
  (Option.some_get wrapBefore_isSome).symm

/-- **The deposit returns its transaction.** -/
theorem wrapDeposit_returns :
    ∃ s, exec Config.migrated wrapStart (soloCall 4 wrapDeposit 104#128) = some s ∧
      s.db.toLedger = wrapLedger ∧
      ∃ txn legs, s.calls[4]? = some (.request wrapDeposit (.done (.committed txn legs))) := by
  have hamount : (Money.tenTo 262144).toColumn 4 = .ok 10000 :=
    Money.toColumn_tenTo (q := 65536) (k := 0) 4 rfl (by norm_num) (by decide)
  obtain ⟨_, _, hfresh, hlen, hrest⟩ := wrapStart_rows
  have hnone : ∀ j, wrapStart.tx? j = none := fun j =>
    Option.bind_eq_none_iff.mpr fun c hc => hrest c (List.mem_of_getElem? hc)
  obtain ⟨s, hrun, hledger, hret⟩ := deposit_alone (bytes "req-4") hnone wrapDeposit_at hamount
    (by decide) hfresh
  rw [hlen] at hrun hret
  exact ⟨s, hrun, hledger, _, _, hret⟩

theorem wrapRun_exec :
    ∃ s, exec Config.migrated (St.start (Db.migrated 0) 1000) wrapRun = some s ∧
      s.db.toLedger = wrapLedger := by
  obtain ⟨s, hrun, hledger, _⟩ := wrapDeposit_returns
  exact ⟨s, run_append_eq_some.mpr ⟨wrapStart, wrapBefore_exec, hrun⟩, hledger⟩

end BankingService
