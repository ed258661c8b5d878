/-
  File:      BankingService/Proof/Steps.lean
  Subject:   ONE STEP OF ONE CALL: it keeps the call's invariant, and what it does to everyone else
             is said once (`StepOk`).

  `StepOk` is all the rest of the system needs to know about a step: the ledger is left alone, or
  changed by exactly the atomic call the step is labelled with; account rows change only under this
  call's own locks; index entries become visible only if they were this call's own; and a lock or
  an index entry is newly held only where no other transaction holds it.

  * `lock_ok` … `rollback_stage_ok` -- one lemma per statement inside the transaction, with the
    branch of `Next` it takes; `stageStep_ok` -- all of them.
  * `lookup_ok` … `audit_ok` -- one lemma per phase of a call; `requestStep_ok` -- every step of
    `Transfer`, `Reverse` and `Deposit`, faults included.
  * `createStep_ok` -- every step of `CreateAccount`.
-/
import BankingService.Proof.Flow
import BankingService.Proof.Statements

namespace BankingService

open Lib

/-! ## 1. What a step does to the rest of the system -/

/-- A step with the label `c`, from the tables `db` and the open transaction `old` of the call to
    `db'` and `new`. -/
structure StepOk (others : List Tx) (db : Db) (old : Option Tx) (c : Option Commit) (db' : Db)
    (new : Option Tx) : Prop where
  effect : match c with
    | none => db'.toLedger = db.toLedger
    | some k => k.apply db.toLedger = some db'.toLedger
  seq : db.entriesSeq ≤ db'.entriesSeq
  frame : ∀ a ∈ db.accounts,
    a ∈ db'.accounts ∨ ∃ tx, old = some tx ∧ .account a.id ∈ tx.forUpdate
  indexed : ∀ k, db'.indexed k = true →
    db.indexed k = true ∨ ∃ tx, old = some tx ∧ k ∈ tx.index
  rows : ∀ tx', new = some tx' → ∀ row ∈ tx'.forUpdate,
    (∃ tx, old = some tx ∧ row ∈ tx.forUpdate) ∨ ∀ t ∈ others, row ∉ t.forUpdate
  index : ∀ tx', new = some tx' → ∀ k ∈ tx'.index,
    (∃ tx, old = some tx ∧ k ∈ tx.index) ∨ ∀ t ∈ others, k ∉ t.index
  text : ∀ t ∈ db'.transactions, t ∈ db.transactions ∨ pgText t.idempotencyKey = true

namespace StepOk

variable {others : List Tx} {db db' : Db} {old new : Option Tx} {tx tx' : Tx}

/-- A step that leaves the ledger alone, by what it newly holds. -/
theorem silent (hl : db'.toLedger = db.toLedger) (hs : db.entriesSeq ≤ db'.entriesSeq)
    (hrows : ∀ tx', new = some tx' → ∀ row ∈ tx'.forUpdate,
      (∃ tx, old = some tx ∧ row ∈ tx.forUpdate) ∨ ∀ t ∈ others, row ∉ t.forUpdate)
    (hindex : ∀ tx', new = some tx' → ∀ k ∈ tx'.index,
      (∃ tx, old = some tx ∧ k ∈ tx.index) ∨ ∀ t ∈ others, k ∉ t.index) :
    StepOk others db old none db' new :=
  { effect := hl
    seq := hs
    frame := fun _ ha => .inl (hl ▸ ha)
    indexed := fun _ hk => .inl (hl ▸ hk)
    rows := hrows
    index := hindex
    text := fun _ ht => .inl (hl ▸ ht) }

/-- The call is outside a transaction after the step. -/
theorem outside (hl : db'.toLedger = db.toLedger) (hs : db.entriesSeq ≤ db'.entriesSeq) :
    StepOk others db old none db' none :=
  silent hl hs (fun _ h => by cases h) (fun _ h => by cases h)

/-- The transaction holds no more locks and index entries than before. -/
theorem inside (hl : db'.toLedger = db.toLedger) (hs : db.entriesSeq ≤ db'.entriesSeq)
    (hu : tx'.forUpdate = tx.forUpdate) (hx : tx'.index = tx.index) :
    StepOk others db (some tx) none db' (some tx') := by
  refine silent hl hs ?_ ?_
  · rintro _ ⟨⟩ row hrow
    exact .inl ⟨tx, rfl, hu ▸ hrow⟩
  · rintro _ ⟨⟩ k hk
    exact .inl ⟨tx, rfl, hx ▸ hk⟩

variable {c : Option Commit}

/-- The tables after a step have the ledger invariant again. -/
theorem ledgerInv (h : StepOk others db old c db' new) (hI : LedgerInv db.toLedger) :
    LedgerInv db'.toLedger := by
  have he := h.effect
  cases c with
  | none => exact he ▸ hI
  | some k => exact inv_apply hI he

/-- The tables after a step extend those before. -/
theorem ext (h : StepOk others db old c db' new) : db.toLedger.Extends db'.toLedger := by
  have he := h.effect
  cases c with
  | none =>
      rw [he]
      exact .refl _
  | some k => exact extends_apply he

end StepOk

/-- The commit a step of a service call performs, when the server executes COMMIT. -/
def Phase.commit? (r : Request) : Phase → Choice → Option Commit
  | .inTx w tx .commit, ch => if ch.executes then some (.request r (w.stamp tx)) else none
  | _, _ => none

theorem Phase.commit?_fail (r : Request) (p : Phase) (text : String) :
    p.commit? r (.fail text) = none := by
  cases p with
  | inTx w tx stage => cases stage <;> rfl
  | _ => rfl

/-! ## 2. Inside the transaction -/

section Stage

variable {cfg : Config} {others : List Tx} {db : Db} {r : Request} {w : Work} {tx : Tx}

/-- The call's invariant after the next statement, the branch taken, and the effect. -/
def StageStepOk (cfg : Config) (others : List Tx) (db : Db) (r : Request) (w : Work) (tx : Tx)
    (stage : Stage) : Prop :=
  PhaseOk cfg (stageStep cfg db r w tx stage).1 r (stageStep cfg db r w tx stage).2 ∧
    Next cfg db r .ok (.inTx w tx stage) (stageStep cfg db r w tx stage).2 ∧
    StepOk others db (some tx) ((Phase.inTx w tx stage).commit? r .ok)
      (stageStep cfg db r w tx stage).1 (stageStep cfg db r w tx stage).2.tx?

/-- A statement that fails leaves the body by its error. -/
theorem rollback_ok (hw : WorkOk db.toLedger r w) (ht : TxOk db.toLedger tx) {e : Err}
    {ch : Choice} {p : Phase}
    (hn : Next cfg db r ch p (.inTx w tx (.rollback e))) :
    PhaseOk cfg db r (.inTx w tx (.rollback e)) ∧
      Next cfg db r ch p (.inTx w tx (.rollback e)) ∧
      StepOk others db (some tx) none db (some tx) :=
  ⟨⟨hw, ht, trivial⟩, hn, .inside rfl le_rfl rfl rfl⟩

theorem lock_ok (hI : LedgerInv db.toLedger) (hw : WorkOk db.toLedger r w)
    (ht : TxOk db.toLedger tx) (hs : StageOk cfg db w tx .lock) :
    StageStepOk cfg others db r w tx .lock := by
  refine ⟨⟨hw, ht, ?_⟩, .locking w tx, .inside rfl le_rfl rfl rfl⟩
  have hs : tx = Tx.start tx.now := hs
  have hmem := lockAccountsForUpdate_mem cfg db.toLedger [w.posting.first, w.posting.second]
  refine
    { locked := by rw [hs]; rfl
      wrote := by rw [hs]; exact ⟨rfl, rfl, rfl, rfl⟩
      sorted := lockAccountsForUpdate_sorted cfg hI _
      ids := fun id hid => by simpa using ((hmem id).mp hid).1
      current := fun a ha => absurd ha List.not_mem_nil
      exist := fun id hid => ((hmem id).mp hid).2 }

/-- One row of the lock query: it is free, so this transaction now holds it and nobody else. -/
theorem lockRow_cons_ok (hI : LedgerInv db.toLedger) (hw : WorkOk db.toLedger r w)
    (ht : TxOk db.toLedger tx) {id : UUID} {todo : List UUID} {rows : List Account}
    (hb : others.any (Phase.inTx w tx (.lockRow (id :: todo) rows)).blockedBy = false)
    (hs : StageOk cfg db w tx (.lockRow (id :: todo) rows)) :
    StageStepOk cfg others db r w tx (.lockRow (id :: todo) rows) := by
  have hs : LockingOk cfg db.toLedger w.posting tx (id :: todo) rows := hs
  obtain ⟨a, ha, rfl⟩ := hs.exist id List.mem_cons_self
  have hfree : ∀ t ∈ others, .account a.id ∉ t.forUpdate := fun t hto hin => by
    have := List.any_eq_false.mp hb t hto
    simp [Phase.blockedBy, hin] at this
  have happ : (rows ++ [scanAccount a]).map (·.id) ++ todo = rows.map (·.id) ++ a.id :: todo := by
    simp
  unfold StageStepOk
  simp only [stageStep, hI.account_mem ha]
  refine ⟨⟨hw, ?_, ?_⟩, .lockedRow ha, .silent rfl le_rfl ?_ ?_⟩
  · exact
      { rows := fun id' hin => by simpa using ht.rows id' (by simpa using hin)
        share := fun id' hin => List.mem_append_left _ (ht.share id' hin)
        fresh := ht.fresh }
  · exact
      { locked := by simp [hs.locked]
        wrote := ⟨hs.wrote.balances, hs.wrote.index, hs.wrote.header, hs.wrote.entries⟩
        sorted := happ ▸ hs.sorted
        ids := fun id' hid => hs.ids id' (happ ▸ hid)
        current := fun b hb => by
          rcases List.mem_append.mp hb with hb | hb
          · exact hs.current b hb
          · exact ⟨a, ha, List.mem_singleton.mp hb⟩
        exist := fun id' hid => hs.exist id' (List.mem_cons_of_mem _ hid) }
  · rintro _ ⟨⟩ row hrow
    rcases List.mem_append.mp hrow with hrow | hrow
    · exact .inl ⟨tx, rfl, hrow⟩
    · rw [List.mem_singleton.mp hrow]
      exact .inr hfree
  · rintro _ ⟨⟩ k hk
    exact .inl ⟨tx, rfl, hk⟩

/-- The lock query is done: the funds check decides. -/
theorem lockRow_nil_ok (hw : WorkOk db.toLedger r w) (ht : TxOk db.toLedger tx)
    {rows : List Account} (hs : StageOk cfg db w tx (.lockRow [] rows)) :
    StageStepOk cfg others db r w tx (.lockRow [] rows) := by
  have hs : LockingOk cfg db.toLedger w.posting tx [] rows := hs
  unfold StageStepOk
  rcases afterLock_spec hs with ⟨hl, e⟩ | ⟨da, ca, hl, hda, hdid, hca, hcid, hdl, hcl, e⟩
  · simp only [stageStep, e]
    exact rollback_ok hw ht (.accountMissing hl)
  · by_cases hf : w.posting.checkFunds = true ∧ da.balance < w.posting.amount.units
    · rw [if_pos hf] at e
      simp only [stageStep, e]
      exact rollback_ok hw ht (.poor hl hda hdid hf.1 hf.2)
    · rw [if_neg hf] at e
      have hfunds : w.posting.checkFunds = true → w.posting.amount.units ≤ da.balance :=
        fun hc => not_lt.mp fun hlt => hf ⟨hc, hlt⟩
      simp only [stageStep, e]
      exact ⟨⟨hw, ht, da, ca, ⟨hda, hdid, hca, hcid, hdl, hcl, hfunds⟩, by simp, by simp,
        hs.wrote⟩, .funded hl hda hdid hfunds hca hcid (by simp), .inside rfl le_rfl rfl rfl⟩

theorem updateDebit_stage_ok (hI : LedgerInv db.toLedger) (hw : WorkOk db.toLedger r w)
    (ht : TxOk db.toLedger tx) {newDebit newCredit : Money}
    (hs : StageOk cfg db w tx (.updateDebit newDebit newCredit)) :
    StageStepOk cfg others db r w tx (.updateDebit newDebit newCredit) := by
  obtain ⟨da, ca, hh, hd, hc, hwr⟩ := hs
  have hp := hw.posting.sound hI
  unfold StageStepOk
  rcases newDebit.toColumn_cases 1 with ⟨hst, _⟩ | ⟨hst, _, e, he⟩
  · simp only [stageStep, updateDebit_ok cfg hI hp hh hd hst]
    have htaken : (Column.driver.store (da.balance - w.posting.amount.units)).isSome = true := by
      rw [← hd, Column.driver_isSome, hst]
    refine ⟨⟨hw, ⟨ht.rows, ht.share, ht.fresh⟩, da, ca, { hh with debitTaken := htaken }, hc, ?_⟩,
      .debited hh.debitMem hh.debitID hd hst, .inside rfl le_rfl rfl rfl⟩
    exact ⟨by simp [hwr.balances], hwr.index, hwr.header, hwr.entries⟩
  · simp only [stageStep, updateBalance_refused cfg _ _ _ he]
    exact rollback_ok hw ht (.debitRefused (hh.deposit_of_refused hI hp hd hst) hh.debitMem
      hh.debitID hd he)

theorem updateCredit_stage_ok (hI : LedgerInv db.toLedger) (hw : WorkOk db.toLedger r w)
    (ht : TxOk db.toLedger tx) {newCredit : Money}
    (hs : StageOk cfg db w tx (.updateCredit newCredit)) :
    StageStepOk cfg others db r w tx (.updateCredit newCredit) := by
  obtain ⟨da, ca, hu, hc, hwr⟩ := hs
  unfold StageStepOk
  rcases newCredit.toColumn_cases 1 with ⟨hst, _⟩ | ⟨hst, _, e, he⟩
  · simp only [stageStep, updateCredit_ok cfg hI (hw.posting.sound hI) hu.toHeld hc hst]
    have htaken : (Column.driver.store (ca.balance + w.posting.amount.units)).isSome = true := by
      rw [← hc, Column.driver_isSome, hst]
    refine ⟨⟨hw, ⟨ht.rows, ht.share, ht.fresh⟩, da, ca, { hu with creditTaken := htaken }, ?_⟩,
      .credited hu.creditMem hu.creditID hc hst, .inside rfl le_rfl rfl rfl⟩
    exact ⟨by simp [hwr.balances, Posting.newBalances], hwr.index, hwr.header, hwr.entries⟩
  · simp only [stageStep, updateBalance_refused cfg _ _ _ he]
    exact rollback_ok hw ht (.creditRefused hu.creditMem hu.creditID hc he)

/-- An INSERT that hits a unique index becomes a sentinel, whatever the store function. -/
theorem insertErr_sentinel (r : Request) (k : IndexKey) :
    ∃ x, r.insertErr (.pg k.violation) = .sentinel x := by
  have hst : k.violation.state = .uniqueViolation := by cases k <;> rfl
  cases r with
  | transfer =>
      simp only [Request.insertErr, insertTransactionErr, hst, if_true]
      exact ⟨_, rfl⟩
  | deposit =>
      simp only [Request.insertErr, insertTransactionErr, hst, if_true]
      exact ⟨_, rfl⟩
  | reverse =>
      simp only [Request.insertErr, insertReversalTransactionErr, hst, if_true]
      split
      · exact ⟨_, rfl⟩
      · split
        · exact ⟨_, rfl⟩
        · split <;> exact ⟨_, rfl⟩

theorem insertErr_violation (r : Request) (k : IndexKey) :
    (r.insertErr (.pg k.violation)).Plain := by
  obtain ⟨x, hx⟩ := insertErr_sentinel r k
  rw [hx]
  exact plain_sentinel x

theorem insertErr_invalidText (r : Request) : (r.insertErr (.pg invalidText)).Plain := by
  cases r <;> exact ⟨rfl, rfl⟩

theorem insertErr_other (r : Request) (text : String) : (r.insertErr (.other text)).Plain := by
  cases r <;> exact plain_other _ _

theorem insertHeader_stage_ok (hw : WorkOk db.toLedger r w) (ht : TxOk db.toLedger tx)
    (hs : StageOk cfg db w tx .insertHeader) :
    StageStepOk cfg others db r w tx .insertHeader := by
  obtain ⟨da, ca, hu, hwr⟩ := hs
  unfold StageStepOk
  by_cases hk : pgText w.txn.idempotencyKey = true
  · simp only [stageStep, checkHeader_spec, if_pos hk]
    exact ⟨⟨hw, ht, da, ca, [], hu, hk, rfl, hwr⟩, .keyText (hw.key ▸ hk),
      .inside rfl le_rfl rfl rfl⟩
  · simp only [stageStep, checkHeader_spec, if_neg hk]
    exact rollback_ok hw ht (.keyNoText (Bool.eq_false_iff.mpr (hw.key ▸ hk)))

/-- One unique index of the header INSERT. -/
theorem insertIndex_cons_ok (hw : WorkOk db.toLedger r w) (ht : TxOk db.toLedger tx)
    {ix : UniqueIndex} {todo : List UniqueIndex}
    (hb : others.any (Phase.inTx w tx (.insertIndex (ix :: todo))).blockedBy = false)
    (hs : StageOk cfg db w tx (.insertIndex (ix :: todo))) :
    StageStepOk cfg others db r w tx (.insertIndex (ix :: todo)) := by
  obtain ⟨da, ca, done, hu, hk, hall, hwr⟩ := hs
  have hall' : UniqueIndex.all = (done ++ [ix]) ++ todo := by simpa using hall
  unfold StageStepOk
  cases hix : w.txn.indexKey ix with
  | none =>
      simp only [stageStep, hix, insertIndex]
      refine ⟨⟨hw, ht, da, ca, done ++ [ix], hu, hk, hall', ?_⟩,
        .indexed fun k hk => (by rw [hix] at hk; cases hk), .inside rfl le_rfl rfl rfl⟩
      exact { hwr with index := by simp [hwr.index, hix] }
  | some k =>
      by_cases hin : db.indexed k = true
      · simp only [stageStep, hix, insertIndex, if_pos hin]
        exact rollback_ok hw ht (.duplicate hix hin)
      · have hfree : ∀ t ∈ others, k ∉ t.index := fun t hto hkt => by
          have := List.any_eq_false.mp hb t hto
          simp [Phase.blockedBy, hix, hkt] at this
        simp only [stageStep, hix, insertIndex, if_neg hin]
        refine ⟨⟨hw, ⟨ht.rows, ht.share, fun k' hk' => ?_⟩, da, ca, done ++ [ix], { hu with }, hk,
          hall', ?_⟩, .indexed fun k' hk' => ?_, .silent rfl le_rfl ?_ ?_⟩
        · rcases List.mem_append.mp hk' with h | h
          · exact ht.fresh k' h
          · rw [List.mem_singleton.mp h]
            exact Bool.eq_false_iff.mpr hin
        · exact ⟨hwr.balances, by simp [hwr.index, hix], hwr.header, hwr.entries⟩
        · rw [hix] at hk'
          cases hk'
          exact Bool.eq_false_iff.mpr hin
        · rintro _ ⟨⟩ row hrow
          exact .inl ⟨tx, rfl, hrow⟩
        · rintro _ ⟨⟩ k' hk'
          rcases List.mem_append.mp hk' with h | h
          · exact .inl ⟨tx, rfl, h⟩
          · rw [List.mem_singleton.mp h]
            exact .inr hfree

theorem insertIndex_nil_ok (hI : LedgerInv db.toLedger) (hw : WorkOk db.toLedger r w)
    (ht : TxOk db.toLedger tx) (hs : StageOk cfg db w tx (.insertIndex [])) :
    StageStepOk cfg others db r w tx (.insertIndex []) := by
  obtain ⟨da, ca, done, hu, hk, hall, hwr⟩ := hs
  rw [List.append_nil] at hall
  unfold StageStepOk
  simp only [stageStep, insertHeader_ok hI hw, if_pos (entriesPositive_legs (hw.posting.sound hI))]
  refine ⟨⟨hw, ⟨ht.rows, fun id hin => ?_, ht.fresh⟩, da, ca, [], { hu with }, hk, .none, ?_⟩,
    .headerIn, .inside rfl le_rfl rfl rfl⟩
  · rcases List.mem_append.mp hin with h | h
    · exact ht.share id h
    · -- the foreign key of the header locks no account
      unfold Work.headerLocks at h
      cases hr : w.txn.reversesTransactionID <;> simp [hr] at h
  · exact ⟨hwr.balances, by rw [indexKeys_headerRow, hall]; exact hwr.index, rfl, hwr.entries⟩

/-- One of the two entry INSERTs. -/
theorem insertEntries_cons_ok (hI : LedgerInv db.toLedger) (hw : WorkOk db.toLedger r w)
    (ht : TxOk db.toLedger tx) {e : Entry} {todo : List Entry}
    (hs : StageOk cfg db w tx (.insertEntries (e :: todo))) :
    StageStepOk cfg others db r w tx (.insertEntries (e :: todo)) := by
  obtain ⟨da, ca, rows, hu, hk, he, hwr⟩ := hs
  have hp := hw.posting.sound hI
  unfold StageStepOk
  have key : ∀ (a : AccountRow), a ∈ db.accounts → a.id = e.accountID →
      .account e.accountID ∈ tx.forUpdate → e.amount = w.posting.amount →
      e.transactionID = w.txn.id →
      (entryTakes cfg w.posting.amount = true → EntriesAt cfg (db.entriesSeq + 1) w tx.now todo
        (rows ++ [⟨db.entriesSeq + 1, e.transactionID, e.accountID, e.direction,
          e.amount.stored, tx.now⟩])) →
      PhaseOk cfg (stageStep cfg db r w tx (.insertEntries (e :: todo))).1 r
          (stageStep cfg db r w tx (.insertEntries (e :: todo))).2 ∧
        Next cfg db r .ok (.inTx w tx (.insertEntries (e :: todo)))
          (stageStep cfg db r w tx (.insertEntries (e :: todo))).2 ∧
        StepOk others db (some tx) none (stageStep cfg db r w tx (.insertEntries (e :: todo))).1
          (stageStep cfg db r w tx (.insertEntries (e :: todo))).2.tx? := by
    intro a ha haid hlock ham hid hat
    rcases insertEntry_spec cfg hI (ham ▸ hp.positive) ha haid hwr.header hid.symm with
      ⟨htake, hins⟩ | ⟨htake, err, href, hins⟩
    · rw [ham] at htake
      simp only [stageStep, hins]
      refine ⟨⟨hw, ⟨ht.rows, fun id hin => ?_, ht.fresh⟩, da, ca, _, { hu with }, hk, hat htake,
          ?_⟩,
        .entryIn htake, .inside rfl (Nat.le_succ _) rfl rfl⟩
      · rcases List.mem_append.mp hin with h | h
        · exact ht.share id h
        · simp only [List.mem_cons, reduceCtorEq, Row.account.injEq, List.not_mem_nil, or_false,
            false_or] at h
          exact h ▸ hlock
      · exact ⟨hwr.balances, hwr.index, hwr.header, by rw [hwr.entries]⟩
    · simp only [stageStep, hins]
      rw [ham] at htake href
      refine rollback_ok hw ht (.entryRefused ?_ htake href)
      by_contra hkind
      rw [hu.toHeld.entryTakes_of_checked cfg hI hp hkind] at htake
      cases htake
  rcases he.of_cons with ⟨hl, rfl⟩ | ⟨n, hn, hl, rfl, rfl⟩
  · obtain ⟨rfl, rfl⟩ := List.cons.inj hl
    exact key da hu.debitMem hu.debitID hu.debitLocked rfl rfl (.one _ le_rfl)
  · obtain ⟨rfl, _⟩ := List.cons.inj hl
    exact key ca hu.creditMem hu.creditID hu.creditLocked rfl rfl
      (.both n _ (Nat.lt_succ_of_le hn) le_rfl)

theorem insertEntries_nil_ok (hw : WorkOk db.toLedger r w) (ht : TxOk db.toLedger tx)
    (hs : StageOk cfg db w tx (.insertEntries [])) :
    StageStepOk cfg others db r w tx (.insertEntries []) :=
  ⟨⟨hw, ht, hs⟩, .entriesIn w tx, .inside rfl le_rfl rfl rfl⟩

/-- The tables after COMMIT: the posting is in, its header and its legs can be read, no row changed
    but the two locked ones, and the only new index entries are the transaction's own. -/
theorem commit_effect (cfg : Config) (others : List Tx) (hI : LedgerInv db.toLedger)
    (hw : WorkOk db.toLedger r w) (ht : TxOk db.toLedger tx) (hs : Inserted cfg db w tx []) :
    ∃ db', commitTx cfg db tx = .ok db' ∧ RetOk db'.toLedger r (.committed w.txn w.legs) ∧
      WorkOk db'.toLedger r w ∧
      StepOk others db (some tx) (some (.request r (w.stamp tx))) db' none := by
  obtain ⟨L, n, m, hc, hst, hL, happly⟩ := commitTx_ok cfg hI hw ht hs
  have hext : db.toLedger.Extends L := extends_apply happly
  obtain ⟨da, ca, rows, hu, hkey, _, hwr⟩ := id hs
  have hid : ∀ t ∈ db.transactions, t.id ≠ w.txn.id := fun t ht' e =>
    ht.unindexed (k := .id w.txn.id) (by simp [hwr.index, TransactionRow.indexKeys, headerRow]) t
      ht' (by simp [TransactionRow.indexKeys, e])
  have hrow : headerRow w.txn tx.now = ⟨w.txn.id, r.kind, r.key, r.reverses, tx.now⟩ := by
    simp [headerRow, hw.kind, hw.key, hw.reverses]
  have htr : L.transactions = db.transactions ++ [headerRow w.txn tx.now] := by
    rw [hL, hrow]
    rfl
  refine ⟨_, hc, ⟨w, tx.now, n, m, rfl, rfl, hw.mono hext, ?_, ?_, hs.stored_eq hI hw⟩,
    hw.mono hext, ?_⟩
  · show headerRow w.txn tx.now ∈ L.transactions
    rw [htr]
    exact List.mem_append_right _ (List.mem_singleton_self _)
  · show L.legsOf w.txn.id = _
    rw [hL, legsOf_post_new _ _ _ _ _ _ _ _ _ (entries_fresh hI hid), Column.driver_stored]
    rfl
  · refine
      { effect := happly
        seq := le_rfl
        frame := fun a ha => ?_
        indexed := fun k hk => ?_
        rows := fun _ h => (by cases h)
        index := fun _ h => (by cases h)
        text := fun t ht => ?_ }
    · by_cases hd : a.id = w.posting.debitID
      · exact .inr ⟨tx, rfl, hd ▸ hu.debitLocked⟩
      · by_cases hcr : a.id = w.posting.creditID
        · exact .inr ⟨tx, rfl, hcr ▸ hu.creditLocked⟩
        · refine .inl ?_
          show a ∈ L.accounts
          rw [hL]
          exact post_frame ha hd hcr _ _ _ _ _ _
    · have hk : L.indexed k = true := hk
      rw [Ledger.indexed, htr, List.any_append, Bool.or_eq_true] at hk
      refine hk.imp id fun h => ⟨tx, rfl, ?_⟩
      rw [hwr.index]
      simpa using h
    · have ht : t ∈ L.transactions := ht
      rw [htr] at ht
      refine (List.mem_append.mp ht).imp id fun h => ?_
      rw [List.mem_singleton.mp h]
      exact hkey

theorem commit_stage_ok (hI : LedgerInv db.toLedger) (hw : WorkOk db.toLedger r w)
    (ht : TxOk db.toLedger tx) (hs : StageOk cfg db w tx .commit) :
    StageStepOk cfg others db r w tx .commit := by
  obtain ⟨db', hc, hret, _, hstep⟩ := commit_effect cfg others hI hw ht hs
  unfold StageStepOk
  simp only [stageStep, hc]
  exact ⟨hret, .committed w tx, hstep⟩

/-- The end of a call that failed inside the transaction. -/
theorem afterTxErr_ok (hw : WorkOk db.toLedger r w) (e : Err) :
    PhaseOk cfg db r (r.afterTxErr w e) ∧ (r.afterTxErr w e).tx? = none := by
  unfold Request.afterTxErr
  split
  · exact ⟨hw, rfl⟩
  · exact ⟨trivial, rfl⟩

theorem rollback_stage_ok (hw : WorkOk db.toLedger r w) (e : Err) :
    StageStepOk cfg others db r w tx (.rollback e) := by
  have ⟨hph, htx⟩ : PhaseOk cfg db r (r.afterTxErr w e) ∧ _ := afterTxErr_ok hw e
  unfold StageStepOk
  simp only [stageStep, htx]
  exact ⟨hph, .rolledBack w tx e, .outside rfl le_rfl⟩

/-- **Every statement inside the transaction** keeps the invariant. -/
theorem stageStep_ok (hI : LedgerInv db.toLedger) (hw : WorkOk db.toLedger r w)
    (ht : TxOk db.toLedger tx) {stage : Stage} (hs : StageOk cfg db w tx stage)
    (hb : others.any (Phase.inTx w tx stage).blockedBy = false) :
    StageStepOk cfg others db r w tx stage := by
  cases stage with
  | lock => exact lock_ok hI hw ht hs
  | lockRow todo rows =>
      cases todo with
      | nil => exact lockRow_nil_ok hw ht hs
      | cons => exact lockRow_cons_ok hI hw ht hb hs
  | updateDebit => exact updateDebit_stage_ok hI hw ht hs
  | updateCredit => exact updateCredit_stage_ok hI hw ht hs
  | insertHeader => exact insertHeader_stage_ok hw ht hs
  | insertIndex todo =>
      cases todo with
      | nil => exact insertIndex_nil_ok hI hw ht hs
      | cons => exact insertIndex_cons_ok hw ht hb hs
  | insertEntries todo =>
      cases todo with
      | nil => exact insertEntries_nil_ok hw ht hs
      | cons => exact insertEntries_cons_ok hI hw ht hs
  | commit => exact commit_stage_ok hI hw ht hs
  | rollback e => exact rollback_stage_ok hw e

/-- A store call that fails inside the body does so with a plain error. -/
theorem stageErr_plain (r : Request) (text : String) {stage : Stage} {e : Err}
    (h : stageErr r text stage = some e) : e.Plain := by
  cases stage with
  | lockRow todo rows =>
      cases todo with
      | nil => cases h
      | cons => cases h; exact plain_other _ _
  | insertEntries todo =>
      cases todo with
      | nil => cases h
      | cons => cases h; exact plain_other _ _
  | insertHeader => cases h; exact insertErr_other r text
  | insertIndex => cases h; exact insertErr_other r text
  | rollback => cases h
  | _ => cases h; exact plain_other _ _

end Stage

/-! ## 3. The whole call -/

section Request

variable {cfg : Config} {now : Time} {others : List Tx} {db db' : Db} {r : Request}

/-- A request starts with its lookup or is rejected by its own checks. -/
theorem start_cases (r : Request) :
    r.start = .lookup ∨ ∃ e s, r.start = .audit e (.failed (.sentinel s)) := by
  cases r with
  | reverse => exact .inl rfl
  | transfer =>
      simp only [Request.start]
      split
      · exact .inr ⟨_, _, rfl⟩
      · split
        · exact .inr ⟨_, _, rfl⟩
        · split
          · exact .inr ⟨_, _, rfl⟩
          · exact .inl rfl
  | deposit =>
      simp only [Request.start]
      split
      · exact .inr ⟨_, _, rfl⟩
      · split
        · exact .inr ⟨_, _, rfl⟩
        · exact .inl rfl

theorem start_ok (cfg : Config) (db : Db) (r : Request) :
    PhaseOk cfg db r r.start ∧ r.start.tx? = none := by
  rcases start_cases r with h | ⟨e, s, h⟩
  · rw [h]
    exact ⟨h, rfl⟩
  · rw [h]
    exact ⟨trivial, rfl⟩

/-- What a request whose own checks have passed knows about its arguments. -/
theorem start_eq_lookup {L : Ledger} (h : r.start = .lookup) :
    (∃ p, r.afterLookup = .newID p ∧ PostingOk L p r) ∨
      ∃ o k q, r = .reverse o k q ∧ r.afterLookup = .original o := by
  cases r with
  | reverse o k q => exact .inr ⟨o, k, q, rfl, rfl⟩
  | transfer srcID dstID amount k q =>
      refine .inl ⟨_, rfl, rfl, ?_⟩
      simp only [Request.start] at h
      split at h
      · cases h
      · rename_i hpos
        split at h
        · cases h
        · rename_i hne
          split at h
          · cases h
          · rename_i hext
            rw [not_or] at hext
            exact ⟨by simpa using hpos, hne, hext⟩
  | deposit dstID amount k q =>
      refine .inl ⟨_, rfl, rfl, ?_⟩
      simp only [Request.start] at h
      split at h
      · cases h
      · rename_i hpos
        split at h
        · cases h
        · rename_i hext
          exact ⟨by simpa using hpos, hext⟩

theorem afterLookup_ok (cfg : Config) (db : Db) (h : r.start = .lookup) :
    PhaseOk cfg db r r.afterLookup ∧ r.afterLookup.tx? = none := by
  rcases start_eq_lookup (L := db.toLedger) h with ⟨p, e, hp⟩ | ⟨o, k, q, hr, e⟩
  · rw [e]
    exact ⟨hp, rfl⟩
  · rw [e]
    refine ⟨?_, rfl⟩
    rw [hr]
    exact rfl

/-- The loop of `Reverse` over the stored legs finds the debited account as the source, the
    credited one as the destination, and the amount. -/
theorem scanLegs_eq {t : TransactionRow} {d c : EntryRow} (h : LegsOk t d c) (x y : GoString) :
    scanLegs [scanEntry d x, scanEntry c y] =
      (d.accountID, c.accountID, Money.ofColumn d.amount) := by
  simp [scanLegs, scanEntry, h.debit, h.credit]

/-- `Reverse` after it has read the original and its entries. -/
theorem afterOriginal_ok (cfg : Config) (hI : LedgerInv db.toLedger) {row : TransactionRow}
    (hrow : row ∈ db.transactions) (hr : r.reverses = some row.id) :
    PhaseOk cfg db r (r.afterOriginal (scanTransaction row) (listEntries db.toLedger row.id)) ∧
      (r.afterOriginal (scanTransaction row) (listEntries db.toLedger row.id)).tx? = none ∧
      Next cfg db r .ok (.originalEntries (scanTransaction row))
        (r.afterOriginal (scanTransaction row) (listEntries db.toLedger row.id)) := by
  obtain ⟨d, c, x, y, hl, hok, _, _, _, _, hes⟩ := listEntries_eq hI hrow
  unfold Request.afterOriginal
  rw [hes, scanLegs_eq hok]
  by_cases hk : row.kind = .transfer
  · rw [if_neg (by simpa [scanTransaction] using hk)]
    refine ⟨?_, rfl, .legs hrow rfl hk hl⟩
    cases r with
    | transfer => cases hr
    | deposit => cases hr
    | reverse o k q =>
        cases hr
        exact ⟨row, hrow, rfl, hk, d, c, hl, rfl⟩
  · rw [if_pos (by simpa [scanTransaction] using hk)]
    exact ⟨trivial, rfl, .notTransfer hrow rfl hk⟩

/-- The key lookup finds the committed header, or misses (`KeyMissed`). -/
theorem getTransactionByIdempotencyKey_cases (L : Ledger) (key : GoString) :
    (∃ row ∈ L.transactions, row.idempotencyKey = key ∧
      getTransactionByIdempotencyKey L key = .ok (some (scanTransaction row))) ∨
    (KeyMissed L key ∧ ∀ t, getTransactionByIdempotencyKey L key ≠ .ok (some t)) := by
  unfold getTransactionByIdempotencyKey
  cases hp : pgText key with
  | false =>
      refine .inr ⟨fun h => ?_, fun t h => by cases h⟩
      rw [hp] at h
      cases h
  | true =>
      cases hr : L.transactionByKey? key with
      | none => exact .inr ⟨fun _ => find_key_none.mp hr, fun t h => by cases h⟩
      | some row =>
          obtain ⟨hm, hk⟩ := mem_of_find_key hr
          exact .inl ⟨row, hm, hk, rfl⟩

theorem getTransaction_none {L : Ledger} {id : UUID} (h : getTransaction L id = none) :
    ∀ row ∈ L.transactions, row.id ≠ id := by
  unfold getTransaction at h
  exact find_key_none.mp (Option.map_eq_none_iff.mp h)

theorem getTransaction_some {L : Ledger} {id : UUID} {t : Transaction}
    (h : getTransaction L id = some t) :
    ∃ row ∈ L.transactions, row.id = id ∧ t = scanTransaction row := by
  unfold getTransaction at h
  obtain ⟨row, hrow, rfl⟩ := Option.map_eq_some_iff.mp h
  obtain ⟨hm, hid⟩ := mem_of_find_key hrow
  exact ⟨row, hm, hid, rfl⟩

/-- What a step of a service call establishes: the call's invariant, that the code takes it, and its
    effect on the rest of the system. -/
def RequestStepOk (cfg : Config) (others : List Tx) (db : Db) (r : Request) (p : Phase)
    (ch : Choice) (db' : Db) (p' : Phase) : Prop :=
  PhaseOk cfg db' r p' ∧ Next cfg db r ch p p' ∧
    StepOk others db p.tx? (p.commit? r ch) db' p'.tx?

/-- A step of a call that is outside a transaction before and after, and writes no ledger row. -/
theorem outside_ok {ch : Choice} {p p' : Phase} (hc : p.commit? r ch = none)
    (hl : db'.toLedger = db.toLedger) (hs : db.entriesSeq ≤ db'.entriesSeq)
    (hp : PhaseOk cfg db' r p' ∧ p'.tx? = none) (hn : Next cfg db r ch p p') :
    RequestStepOk cfg others db r p ch db' p' := by
  refine ⟨hp.1, hn, ?_⟩
  rw [hc, hp.2]
  exact .outside hl hs

/-- A step that only reads. -/
theorem read_ok {ch : Choice} {p p' : Phase} (hc : p.commit? r ch = none)
    (hp : PhaseOk cfg db r p' ∧ p'.tx? = none) (hn : Next cfg db r ch p p') :
    RequestStepOk cfg others db r p ch db p' :=
  outside_ok hc rfl le_rfl hp hn

section Phases

variable {p' : Phase} {ch : Choice}

/-- The lookup by key before the transaction: a failed query counts as a miss. -/
theorem lookup_ok (hp : r.start = .lookup)
    (h : requestStep cfg now others db r .lookup ch = some (db', p')) :
    RequestStepOk cfg others db r .lookup ch db' p' := by
  cases ch with
  | ok =>
      simp only [requestStep] at h
      rcases getTransactionByIdempotencyKey_cases db.toLedger r.key with
        ⟨row, hrow, hk, e⟩ | ⟨hm, hne⟩
      · rw [e] at h
        cases h
        exact read_ok rfl ⟨⟨hp, row, hrow, hk, rfl⟩, rfl⟩ (.found hrow hk)
      · split at h
        · rename_i t ht
          exact absurd ht (hne t)
        · cases h
          exact read_ok rfl (afterLookup_ok cfg db hp) (.missed hm)
  | fail text =>
      cases h
      exact read_ok rfl (afterLookup_ok cfg db hp) (.lookupFails text)
  | uuid => cases h
  | lostAck => cases h

/-- The entries of the header that the lookup has found. -/
theorem lookupEntries_ok {t : Transaction} (hp : PhaseOk cfg db r (.lookupEntries t))
    (h : requestStep cfg now others db r (.lookupEntries t) ch = some (db', p')) :
    RequestStepOk cfg others db r (.lookupEntries t) ch db' p' := by
  obtain ⟨hv, row, hrow, hk, rfl⟩ := hp
  cases ch with
  | ok =>
      cases h
      exact read_ok rfl ⟨⟨row, hrow, hk, rfl, rfl⟩, rfl⟩ (.replayed hrow hk rfl)
  | fail text =>
      cases h
      exact read_ok rfl (afterLookup_ok cfg db hv) (.lookupEntriesFails _ text)
  | uuid => cases h
  | lostAck => cases h

/-- `Reverse` reads the original header. -/
theorem original_ok {id : UUID} (hp : PhaseOk cfg db r (.original id))
    (h : requestStep cfg now others db r (.original id) ch = some (db', p')) :
    RequestStepOk cfg others db r (.original id) ch db' p' := by
  cases ch with
  | ok =>
      simp only [requestStep] at h
      split at h
      · rename_i hg
        cases h
        exact read_ok rfl ⟨trivial, rfl⟩ (.noOriginal (getTransaction_none hg))
      · rename_i t ht
        cases h
        obtain ⟨row, hrow, rfl, rfl⟩ := getTransaction_some ht
        exact read_ok rfl ⟨⟨row, hrow, hp, rfl⟩, rfl⟩ (.original hrow rfl)
  | fail text =>
      cases h
      exact read_ok rfl ⟨trivial, rfl⟩ (.originalFails id text)
  | uuid => cases h
  | lostAck => cases h

/-- `Reverse` reads the original's entries. -/
theorem originalEntries_ok (hI : LedgerInv db.toLedger) {t : Transaction}
    (hp : PhaseOk cfg db r (.originalEntries t))
    (h : requestStep cfg now others db r (.originalEntries t) ch = some (db', p')) :
    RequestStepOk cfg others db r (.originalEntries t) ch db' p' := by
  obtain ⟨row, hrow, hr, rfl⟩ := hp
  cases ch with
  | ok =>
      cases h
      obtain ⟨hph, htx, hn⟩ := afterOriginal_ok cfg hI hrow hr
      exact read_ok rfl ⟨hph, htx⟩ hn
  | fail text =>
      cases h
      exact read_ok rfl ⟨trivial, rfl⟩ (.originalEntriesFails _ text)
  | uuid => cases h
  | lostAck => cases h

/-- The id of the new header. -/
theorem newID_ok {q : Posting} (hp : PhaseOk cfg db r (.newID q))
    (h : requestStep cfg now others db r (.newID q) ch = some (db', p')) :
    RequestStepOk cfg others db r (.newID q) ch db' p' := by
  cases ch with
  | uuid u =>
      cases h
      refine read_ok rfl ⟨⟨hp, ?_⟩, rfl⟩ (.generated q u)
      rw [(r.txn_fields u).1]
  | fail text =>
      cases h
      exact read_ok rfl ⟨trivial, rfl⟩ (.generateFails q text)
  | ok => cases h
  | lostAck => cases h

/-- BEGIN: the new transaction holds no lock and no index entry. -/
theorem beginTx_ok {w : Work} (hp : PhaseOk cfg db r (.beginTx w))
    (h : requestStep cfg now others db r (.beginTx w) ch = some (db', p')) :
    RequestStepOk cfg others db r (.beginTx w) ch db' p' := by
  cases ch with
  | ok =>
      cases h
      refine ⟨⟨hp, ⟨fun _ hin => ?_, fun _ hin => ?_, fun _ hin => ?_⟩, rfl⟩, .began w now,
        .silent rfl le_rfl ?_ ?_⟩
      · exact absurd hin List.not_mem_nil
      · exact absurd hin List.not_mem_nil
      · exact absurd hin List.not_mem_nil
      · rintro _ ⟨⟩ _ hin
        exact absurd hin List.not_mem_nil
      · rintro _ ⟨⟩ _ hin
        exact absurd hin List.not_mem_nil
  | fail text =>
      cases h
      exact read_ok rfl ⟨trivial, rfl⟩ (.beginFails w text)
  | uuid => cases h
  | lostAck => cases h

/-- A statement of the transaction's body, and the three ends of COMMIT. -/
theorem inTx_ok (hI : LedgerInv db.toLedger) {w : Work} {tx : Tx} {stage : Stage}
    (hp : PhaseOk cfg db r (.inTx w tx stage))
    (h : requestStep cfg now others db r (.inTx w tx stage) ch = some (db', p')) :
    RequestStepOk cfg others db r (.inTx w tx stage) ch db' p' := by
  obtain ⟨hw, ht, hs⟩ := hp
  cases ch with
  | ok =>
      simp only [requestStep] at h
      split at h
      · cases h
      · rename_i hb
        have hok := stageStep_ok hI hw ht hs (Bool.eq_false_iff.mpr hb)
        unfold StageStepOk at hok
        rw [Option.some.inj h] at hok
        exact hok
  | fail text =>
      simp only [requestStep, Option.map_eq_some_iff] at h
      obtain ⟨e, he, hres⟩ := h
      cases hres
      unfold RequestStepOk
      rw [Phase.commit?_fail]
      exact rollback_ok hw ht (.statementFails he)
  | uuid => cases stage <;> cases h
  | lostAck text =>
      -- COMMIT has executed, the call sees an error
      cases stage with
      | commit =>
          obtain ⟨db₁, hc, _, hw', hstep⟩ := commit_effect cfg others hI hw ht hs
          simp only [requestStep, hc] at h
          cases h
          exact ⟨trivial, .ackLost w tx text, hstep⟩
      | _ => cases h

/-- The lookup after a refused key: a failed query counts as a miss here too. -/
theorem refetch_ok {w : Work} (hp : PhaseOk cfg db r (.refetch w))
    (h : requestStep cfg now others db r (.refetch w) ch = some (db', p')) :
    RequestStepOk cfg others db r (.refetch w) ch db' p' := by
  cases ch with
  | ok =>
      simp only [requestStep] at h
      rcases getTransactionByIdempotencyKey_cases db.toLedger r.key with
        ⟨row, hrow, hk, e⟩ | ⟨hm, hne⟩
      · rw [e] at h
        cases h
        exact read_ok rfl ⟨⟨hp, row, hrow, hk, rfl⟩, rfl⟩ (.refetched hrow hk)
      · split at h
        · rename_i t ht
          exact absurd ht (hne t)
        · cases h
          exact read_ok rfl ⟨trivial, rfl⟩ (.refetchMissed hm)
  | fail text =>
      cases h
      exact read_ok rfl ⟨trivial, rfl⟩ (.refetchFails w text)
  | uuid => cases h
  | lostAck => cases h

/-- The entries of the header that the second lookup has found. -/
theorem refetchEntries_ok {w : Work} {t : Transaction}
    (hp : PhaseOk cfg db r (.refetchEntries w t))
    (h : requestStep cfg now others db r (.refetchEntries w t) ch = some (db', p')) :
    RequestStepOk cfg others db r (.refetchEntries w t) ch db' p' := by
  obtain ⟨_, row, hrow, hk, rfl⟩ := hp
  cases ch with
  | ok =>
      cases h
      exact read_ok rfl ⟨⟨row, hrow, hk, rfl, rfl⟩, rfl⟩ (.refetchedEntries hrow hk rfl)
  | fail text =>
      cases h
      exact read_ok rfl ⟨trivial, rfl⟩ (.refetchEntriesFails w _ text)
  | uuid => cases h
  | lostAck => cases h

/-- The audit row, written or dropped, does not change what the call returns. -/
theorem audit_ok {e : AuditEntry} {ret : Return} (hp : PhaseOk cfg db r (.audit e ret))
    (h : requestStep cfg now others db r (.audit e ret) ch = some (db', p')) :
    RequestStepOk cfg others db r (.audit e ret) ch db' p' := by
  cases ch with
  | ok =>
      simp only [requestStep] at h
      split at h
      · cases h
        exact read_ok rfl ⟨hp, rfl⟩ (.audited e ret)
      · rename_i db₁ hwa
        cases h
        obtain ⟨_, rfl⟩ := writeAudit_ok hwa
        exact outside_ok rfl rfl le_rfl ⟨hp, rfl⟩ (.audited e ret)
  | fail text =>
      cases h
      exact read_ok rfl ⟨hp, rfl⟩ (.auditFails e ret text)
  | uuid => cases h
  | lostAck => cases h

end Phases

/-- **Every step of `Transfer`, `Reverse` and `Deposit`** keeps the call's invariant, is one of the
    branches of `Next`, and does to the rest of the system what `StepOk` says. -/
theorem requestStep_ok (hI : LedgerInv db.toLedger) {p p' : Phase} {ch : Choice}
    (hp : PhaseOk cfg db r p) (h : requestStep cfg now others db r p ch = some (db', p')) :
    PhaseOk cfg db' r p' ∧ Next cfg db r ch p p' ∧
      StepOk others db p.tx? (p.commit? r ch) db' p'.tx? := by
  cases p with
  | lookup => exact lookup_ok hp h
  | lookupEntries t => exact lookupEntries_ok hp h
  | original id => exact original_ok hp h
  | originalEntries t => exact originalEntries_ok hI hp h
  | newID q => exact newID_ok hp h
  | beginTx w => exact beginTx_ok hp h
  | inTx w tx stage => exact inTx_ok hI hp h
  | refetch w => exact refetch_ok hp h
  | refetchEntries w t => exact refetchEntries_ok hp h
  | audit e ret => exact audit_ok hp h
  | done ret => cases ch <;> cases h

end Request

/-! ## 4. `CreateAccount` -/

/-- The commit a step of `CreateAccount` performs. -/
def CreatePhase.commit? (L : Ledger) (name : GoString) : CreatePhase → Choice → Option Commit
  | .insert id, ch =>
    match ch.executes, insertAccount L id name with
    | true, .ok _ => some (.createAccount id name)
    | _, _ => none
  | _, _ => none

/-- `CreateAccount` fails with no schema error and no value out of range. -/
def CreateOk : CreatePhase → Prop
  | .failed e => e.Plain
  | _ => True

section Create

variable {others : List Tx} {db db' : Db} {name : GoString} {id : UUID}

/-- The INSERT that succeeds is the atomic call. -/
theorem insertAccount_ok {L : Ledger} (h : insertAccount db.toLedger id name = .ok L) :
    StepOk others db none (some (.createAccount id name)) { db with toLedger := L } none := by
  unfold insertAccount at h
  split at h
  · cases h
  · split at h
    · cases h
    · rename_i hnew
      cases h
      exact
        { effect := by simp only [Commit.applyTo, if_neg hnew]
          seq := le_rfl
          frame := fun a ha => .inl (List.mem_append_left _ ha)
          indexed := fun k hk => .inl hk
          rows := fun _ h => (by cases h)
          index := fun _ h => (by cases h)
          text := fun _ ht => .inl ht }

/-- It is refused for its name or its id, by no CHECK and no range. -/
theorem insertAccount_plain {L : Ledger} {e : PgError} (context : String)
    (h : insertAccount L id name = .error e) : (Err.wrapped context (.pg e)).Plain := by
  unfold insertAccount at h
  split at h
  · cases h
    exact ⟨rfl, rfl⟩
  · split at h
    · cases h
      exact ⟨rfl, rfl⟩
    · cases h

/-- **Every step of `CreateAccount`.** -/
theorem createStep_ok {p p' : CreatePhase} {ch : Choice} (hp : CreateOk p)
    (h : createStep db name p ch = some (db', p')) :
    CreateOk p' ∧ StepOk others db none (p.commit? db.toLedger name ch) db' none := by
  have keep : ∀ {p₁ : CreatePhase}, CreateOk p₁ →
      CreateOk p₁ ∧ StepOk others db none none db none :=
    fun h => ⟨h, .outside rfl le_rfl⟩
  cases p with
  | newID =>
      cases ch with
      | uuid => cases h; exact keep trivial
      | fail => cases h; exact keep (plain_other _ _)
      | ok => cases h
      | lostAck => cases h
  | insert id =>
      cases ch with
      | ok =>
          simp only [createStep] at h
          split at h
          · rename_i e hins
            cases h
            simp only [CreatePhase.commit?, hins]
            exact keep (insertAccount_plain _ hins)
          · rename_i L hins
            cases h
            simp only [CreatePhase.commit?, Choice.executes, hins]
            exact ⟨trivial, insertAccount_ok hins⟩
      | lostAck =>
          -- the row is in, the call sees an error
          simp only [createStep] at h
          split at h
          · cases h
          · rename_i L hins
            cases h
            simp only [CreatePhase.commit?, Choice.executes, hins]
            exact ⟨plain_other _ _, insertAccount_ok hins⟩
      | fail => cases h; exact keep (plain_other _ _)
      | uuid => cases h
  | done => cases ch <;> cases h
  | failed => cases ch <;> cases h

end Create

end BankingService
