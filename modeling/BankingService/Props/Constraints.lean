/-
  File:      BankingService/Props/Constraints.lean
  Subject:   WHAT THE SCHEMA COULD REFUSE: the CHECKs, the foreign keys and the trigger never have
             to, and the range of `NUMERIC(20,4)` refuses deposits alone, exactly at its bound.

  * `schema_never_refuses` -- no statement and no COMMIT of any call violates a CHECK, a foreign key
    or the double-entry trigger; user balances are non-negative with or without them.
    `zeroDeposit_breaks` -- a deposit of `10 ^ 131072` violates the CHECK on the entries.
  * `StageOk.inRange` -- what a transfer or a reversal writes fits its columns.
  * `next_beforeDebit`, `next_afterDebit` -- a deposit on its way to, and after, the UPDATE of
    EXTERNAL; `numeric_range` -- it is refused by the range exactly when the amount
    minus the balance of EXTERNAL reaches the bound, and then has committed nothing.
    `wrapDeposit_passes` -- a deposit of `10 ^ 262144` is not.
-/
import BankingService.Proof.Alone
import BankingService.Proof.Sent
import BankingService.Props.Progress

namespace BankingService

open Lib

/-! ## 1. CHECKs, foreign keys, trigger -/

/-- An audit row is refused by the encoding of its texts or by the column of its amount alone. -/
theorem writeAudit_breaksSchema {cfg : Config} {db : Db} {now : Time} {e : AuditEntry}
    {err : PgError} (h : writeAudit cfg db now e = .error err) : err.breaksSchema = false := by
  unfold writeAudit at h
  split at h
  · cases h
    rfl
  · split at h
    · rename_i err' ha
      cases h
      unfold auditAmount at ha
      split at ha
      · cases ha
      · split at ha
        · rename_i hcol
          cases ha
          exact toColumn_breaksSchema hcol
        · cases ha
    · rw [outcomeCheck_text, Bool.not_true, Bool.and_false] at h
      cases h

section Sendable

variable {cfg : Config} {db : Db} {r : Request} {w : Work} {tx : Tx} {ch : Choice} {p p' : Phase}

/-- Where the ledger adds up, the credit of a transfer or a reversal fits its column. -/
theorem Held.credit_inRange {L : Ledger} (hI : LedgerInv L) (hE : LedgerExact L) {p : Posting}
    {kind : TransactionKind} (hp : p.Sound kind) {da ca : AccountRow} (h : Held L p tx da ca)
    (hd : InRange (da.balance - p.amount.units)) : InRange (ca.balance + p.amount.units) :=
  (h.moveOk hp hd.1).credit_inRange hI hE.zeroSum h.creditMem h.creditID

/-- So it is not refused. -/
theorem Held.credit_not_refused {L : Ledger} (hI : LedgerInv L) (hE : LedgerExact L) {p : Posting}
    {kind : TransactionKind} (hp : p.Sound kind) {da ca : AccountRow} (h : Held L p tx da ca)
    (hd : InRange (da.balance - p.amount.units)) {m : Money}
    (hm : m.units = ca.balance + p.amount.units) {param : Nat} {e : PgError} :
    m.toColumn param ≠ .error e := by
  intro he
  have hr := h.credit_inRange hI hE hp hd
  rw [← hm] at hr
  rw [Money.toColumn_inRange param hr] at he
  cases he

/-- How a call rolls back: no CHECK, foreign key or trigger has refused a row, and a value was out
    of range for a deposit alone. -/
def RollbackOk (r : Request) (p : Phase) : Prop :=
  ∀ w tx e, p = .inTx w tx (.rollback e) →
    e.breaksSchema = false ∧ (r.kind ≠ .deposit → e.outOfRange = false)

theorem RollbackOk.of_plain {e : Err} (h : e.Plain) : RollbackOk r (.inTx w tx (.rollback e)) := by
  rintro _ _ _ ⟨⟩
  exact ⟨h.1, fun _ => h.2⟩

theorem RollbackOk.outside (h : p.tx? = none) : RollbackOk r p := by
  rintro _ _ _ rfl
  cases h

/-- **Every branch of a sendable call**, where the ledger adds up. -/
theorem next_rollbackOk (hI : LedgerInv db.toLedger) (hE : LedgerExact db.toLedger)
    (hp : PhaseOk cfg db r p) (hs : r.sendable = true) (hn : Next cfg db r ch p p') :
    RollbackOk r p' := by
  cases hn with
  | accountMissing => exact .of_plain (plain_sentinel _)
  | poor => exact .of_plain (plain_sentinel _)
  | debitRefused hk _ _ _ he =>
      rintro _ _ _ ⟨⟩
      exact ⟨toColumn_breaksSchema he, fun h => absurd hk h⟩
  | creditRefused ha hid hm he =>
      rintro _ _ _ ⟨⟩
      refine ⟨toColumn_breaksSchema he, fun hk => ?_⟩
      -- the debited account covers the amount, so EXTERNAL owes at least the new balance
      obtain ⟨hw, _, da, ca, hu, hc, _⟩ := hp
      have hsound := hw.posting.sound hI
      have hd := (hu.toHeld.checked_inRange hI hsound hk).2
      exact absurd he (hu.toHeld.credit_not_refused hI hE hsound hd hc)
  | keyNoText => exact .of_plain (insertErr_invalidText r)
  | duplicate => exact .of_plain (insertErr_violation r _)
  | entryRefused hk _ he =>
      rintro _ _ _ ⟨⟩
      refine ⟨?_, fun h => absurd hk h⟩
      rcases he with he | ⟨_, hzero, _⟩
      · exact toColumn_breaksSchema he
      · -- the driver leaves a sendable amount as it is, and it is positive
        have hpos := (hp.1.posting.sound hI).positive
        rw [Money.toColumn_exact 4 (hp.1.sendable hs hk)] at hzero
        split at hzero
        · rw [Except.ok.inj hzero] at hpos
          cases hpos
        · cases hzero
  | statementFails he => exact .of_plain (stageErr_plain r _ he)
  | missed => exact .outside (by cases r <;> rfl)
  | lookupFails => exact .outside (by cases r <;> rfl)
  | lookupEntriesFails => exact .outside (by cases r <;> rfl)
  | rolledBack w tx e =>
      have hafter : PhaseOk cfg db r (r.afterTxErr w e) ∧ _ := afterTxErr_ok hp.1 e
      exact .outside hafter.2
  | _ => rintro _ _ _ ⟨⟩

/-- The start of a call is outside a transaction. -/
theorem start_rollbackOk (r : Request) : RollbackOk r r.start := by
  rcases start_cases r with h | ⟨_, _, h⟩
  · rw [h]
    exact .outside rfl
  · rw [h]
    exact .outside rfl

end Sendable

/-- **The application's checks imply the schema's.** In every reachable state, with the CHECKs and
    the trigger in place or dropped (`cfg`): as long as every deposit is below `10 ^ 131072`, no
    call is rolling back on a violated CHECK, foreign key or trigger; no `CreateAccount` has failed
    on one, and no audit row violates one; every user balance is non-negative; and an amount the
    service accepts as positive is positive at the column's scale, and so in the column if the
    driver sends it as it is. -/
theorem schema_never_refuses {cfg : Config} {now clock : Time} {acts : List Act} {s : St}
    (h : exec cfg (St.start (Db.migrated now) clock) acts = some s) :
    ((∀ a ∈ acts, a.sendable = true) →
      ∀ (i : Nat) r w tx e, s.calls[i]? = some (.request r (.inTx w tx (.rollback e))) →
        e.breaksSchema = false) ∧
    (∀ (i : Nat) name e, s.calls[i]? = some (.createAccount name (.failed e)) →
      e.breaksSchema = false) ∧
    (∀ (i : Nat) r e ret now err, s.calls[i]? = some (.request r (.audit e ret)) →
      writeAudit cfg s.db now e = .error err → err.breaksSchema = false) ∧
    (∀ a ∈ s.db.accounts, a.isSystem = false → 0 ≤ a.balance) ∧
    ∀ m : Money, m.isPositive = true → 0 < Money.numericScale m.d ∧
      (m.sendable = true → ∀ param n, m.toColumn param = .ok n → 0 < n) := by
  have h₀ := inv_start cfg now clock
  have hI := inv_exec h₀ h
  refine ⟨fun hsend i r w tx e hc => ?_, fun i name e hc => (hI.calls i _ hc).1,
    fun i r e ret t err _ he => writeAudit_breaksSchema he, fun a ha hs => ?_, fun m hm => ?_⟩
  · have hroll := exec_phases start_rollbackOk next_rollbackOk h₀ (exact_migrated now) hsend h
    exact (hroll i r _ hc w tx e rfl).1
  · refine hI.ledger.nonneg a ha fun hid => ?_
    rw [(hI.ledger.system a ha).mpr hid] at hs
    cases hs
  · have hpos := (Money.isPositive_iff m).mp hm
    refine ⟨by rw [Money.numericScale_eq]; exact hpos, fun hs param n hn => ?_⟩
    rw [Money.toColumn_exact param hs] at hn
    split at hn
    · rw [← Except.ok.inj hn]
      exact hpos
    · cases hn

/-- After the sample run no call rolls back on a violation and no user balance is negative, and
    Alice is a user. -/
theorem schema_never_refuses_sample :
    (∀ (i : Nat) r w tx e, sampleEnd.calls[i]? = some (.request r (.inTx w tx (.rollback e))) →
      e.breaksSchema = false) ∧
    (∀ a ∈ sampleEnd.db.accounts, a.isSystem = false → 0 ≤ a.balance) ∧
      (∃ a ∈ sampleEnd.db.accounts, a.id = aliceID ∧ a.isSystem = false) :=
  ⟨(schema_never_refuses sampleRun_exec).1 (by decide +kernel),
    (schema_never_refuses sampleRun_exec).2.2.2.1, by decide +kernel⟩

/-- A deposit of `10 ^ 131072` to Alice. -/
def zeroDeposit : Request :=
  .deposit aliceID (Money.tenTo 131072) (bytes "in-1") (bytes "req-1")

/-- Of its amount and of both new balances the columns would store 0. -/
theorem zeroDeposit_at :
    DepositAt Config.migrated (Db.migrated 0) aliceID (Money.tenTo 131072) (bytes "in-1") 100#128
      ⟨externalAccountID, bytes "EXTERNAL", -300000000, true⟩
      ⟨aliceID, bytes "Alice", 100000000, false⟩ 0 0 where
  text := by decide +kernel
  key := by decide +kernel
  id := by decide +kernel
  external := by decide +kernel
  account := by decide +kernel
  order := by decide +kernel
  distinct := by decide
  system := rfl
  positive := by
    rw [Money.isPositive_iff, Money.units_tenTo]
    positivity
  debit := Money.toColumn_sub_tenTo (j := 32767) (q := 1) (b := 3) (k := 32768) 1 (by norm_num)
    (by norm_num) (by decide) (by norm_num) (by norm_num) (by decide)
  credit := Money.toColumn_add_tenTo (j := 32767) (q := 1) (b := 1) (k := 32768) 1 (by norm_num)
    (by norm_num) (by decide) (by norm_num) (by norm_num) (by decide)
  nonneg := le_rfl

/-- **The CHECK on the entries is violated**: on the migrated database the deposit of `10 ^ 131072`
    passes every check of the service, its amount reaches the server as 0, and its transaction rolls
    back. -/
theorem zeroDeposit_breaks :
    Money.fromString (bytes "1e131072") = .ok (Money.tenTo 131072) ∧
    ∃ s w tx e,
      exec Config.migrated (St.start (Db.migrated 0) 1000)
        (.arrive zeroDeposit ::
          (Choice.ok :: .uuid 100#128 :: List.replicate 13 .ok).map (.call 0)) = some s ∧
      s.calls[0]? = some (.request zeroDeposit (.inTx w tx (.rollback e))) ∧
      e = .wrapped "store.InsertEntries" (.pg (checkViolation "entries" "entries_amount_check")) ∧
      e.breaksSchema = true := by
  have hzero : (Money.tenTo 131072).toColumn 4 = .ok 0 :=
    Money.toColumn_tenTo (q := 32768) (k := 32768) 4 rfl (by norm_num) (by decide)
  obtain ⟨s, w, tx, hrun, hcall⟩ := deposit_zero (s := St.start (Db.migrated 0) 1000)
    (bytes "req-1") (fun _ => rfl) zeroDeposit_at rfl hzero
  exact ⟨Money.fromString_tenTo (by decide +kernel), s, w, tx, _, hrun, hcall, rfl, rfl⟩

/-! ## 2. What a posting writes -/

/-- Every value the coming statements write fits its column, and no value has not. -/
def Stage.InRange : Stage → Prop
  | .updateDebit newDebit newCredit => BankingService.InRange newDebit.units ∧
      BankingService.InRange newCredit.units
  | .updateCredit newCredit => BankingService.InRange newCredit.units
  | .insertEntries todo => ∀ e ∈ todo, BankingService.InRange e.amount.units
  | .rollback e => e.outOfRange = false
  | _ => True

theorem EntriesAt.amount {cfg : Config} {seq : Nat} {w : Work} {now : Time} {todo : List Entry}
    {rows : List EntryRow} (h : EntriesAt cfg seq w now todo rows) :
    ∀ e ∈ todo, e.amount = w.posting.amount := by
  cases h with
  | none => simp [Work.legs]
  | one => simp [Work.legs]
  | both => simp

/-- **A transfer or a reversal writes no value out of range**, whatever its amount, where the ledger
    adds up. -/
theorem StageOk.inRange {cfg : Config} {db : Db} {r : Request} {w : Work} {tx : Tx} {stage : Stage}
    (hI : LedgerInv db.toLedger) (hE : LedgerExact db.toLedger) (hw : WorkOk db.toLedger r w)
    (hk : r.kind ≠ .deposit) (hroll : RollbackOk r (.inTx w tx stage))
    (h : StageOk cfg db w tx stage) : stage.InRange := by
  have hp := hw.posting.sound hI
  cases stage with
  | updateDebit newDebit newCredit =>
      obtain ⟨da, ca, hh, hd, hcr, _⟩ := h
      have hlow := (hh.checked_inRange hI hp hk).2
      refine ⟨?_, ?_⟩
      · rw [hd]
        exact hlow
      · rw [hcr]
        exact hh.credit_inRange hI hE hp hlow
  | updateCredit newCredit =>
      obtain ⟨da, ca, hu, hcr, _⟩ := h
      show BankingService.InRange newCredit.units
      rw [hcr]
      exact hu.toHeld.credit_inRange hI hE hp (hu.toHeld.checked_inRange hI hp hk).2
  | insertEntries todo =>
      obtain ⟨da, ca, rows, hu, _, he, _⟩ := h
      intro e hin
      rw [he.amount e hin]
      exact (hu.toHeld.checked_inRange hI hp hk).1
  | rollback e => exact (hroll w tx e rfl).2 hk
  | _ => trivial

/-! ## 3. A deposit and the range -/

def Return.outOfRange : Return → Bool
  | .failed e => e.outOfRange
  | _ => false

section Deposit

variable {cfg : Config} {db : Db} {dstID : UUID} {amount : Money} {key q : GoString} {ch : Choice}
  {p p' : Phase}

/-- A debited balance that the column has taken is in range, if the driver sends it as it is. -/
theorem Debited.debit_inRange {L : Ledger} (hI : LedgerInv L) {w : Work} {tx : Tx}
    {da ca : AccountRow} (h : Debited L w tx da ca)
    (hfit : w.posting.amount.units.natAbs + numericBound.toNat ≤ Money.sendBound) :
    InRange (da.balance - w.posting.amount.units) := by
  obtain ⟨h₁, h₂⟩ := hI.range da h.debitMem
  have htaken := h.debitTaken
  rw [Column.driver_store (by omega)] at htaken
  split at htaken
  · assumption
  · cases htaken

/-- An amount that leaves the credited balance in range passes its column and its CHECK. -/
theorem Held.entryTakes_of_credit (cfg : Config) {L : Ledger} (hI : LedgerInv L) {tx : Tx}
    {p : Posting} {kind : TransactionKind} (hp : p.Sound kind) {da ca : AccountRow}
    (h : Held L p tx da ca) (hr : InRange (ca.balance + p.amount.units)) :
    entryTakes cfg p.amount = true := by
  have hnn := hI.nonneg ca h.creditMem (by rw [h.creditID]; exact hp.credit)
  have hpos := hp.positive
  have hlt := hr.2
  exact entryTakes_of_inRange cfg ⟨lt_trans (by decide) hpos, by omega⟩ hpos

/-- On the way to the UPDATE of EXTERNAL. -/
def BeforeDebit (dstID : UUID) (amount : Money) : Phase → Prop
  | .lookup => True
  | .newID p => p = depositPosting dstID amount
  | .beginTx w => w.posting = depositPosting dstID amount
  | .inTx w _ .lock => w.posting = depositPosting dstID amount
  | .inTx w _ (.lockRow todo rows) =>
      w.posting = depositPosting dstID amount ∧ LockComplete w.posting todo rows
  | .inTx w _ (.updateDebit _ _) => w.posting = depositPosting dstID amount
  | _ => False

/-- Past it: the range has been passed. -/
def AfterDebit : Phase → Prop
  | .inTx _ _ (.updateCredit _) => True
  | .inTx _ _ .insertHeader => True
  | .inTx _ _ (.insertIndex _) => True
  | .inTx _ _ (.insertEntries _) => True
  | .inTx _ _ .commit => True
  | .inTx _ _ (.rollback e) => e.outOfRange = false
  | .refetch _ => True
  | .refetchEntries _ _ => True
  | .audit _ ret => ret.outOfRange = false
  | .done ret => ret.outOfRange = false
  | _ => False

/-- The refusal of the UPDATE of EXTERNAL. -/
def rangeErr : Err := .wrapped "store.UpdateBalance" (.pg numericOverflow)

/-- What the UPDATE of EXTERNAL decides, by the balance it finds. -/
def DebitVerdict (amount : Money) (db : Db) (p : Phase) : Prop :=
  ∃ ext ∈ db.accounts, ext.id = externalAccountID ∧
    ((numericBound ≤ amount.units - ext.balance ∧ Ends rangeErr p) ∨
      (amount.units - ext.balance < numericBound ∧ AfterDebit p))

/-- The call is at its debit UPDATE. -/
def AtDebit (p : Phase) : Prop := ∃ w tx nd nc, p = .inTx w tx (.updateDebit nd nc)

theorem BeforeDebit.committed? (h : BeforeDebit dstID amount p) : p.committed? = none :=
  Phase.committed?_of (fun _ _ => id) (fun _ => id) h

/-- **Past the UPDATE of EXTERNAL the range refuses nothing more**, where the ledger adds up:
    EXTERNAL owes the new balance of the account, and the amount is part of that. -/
theorem next_afterDebit (hI : LedgerInv db.toLedger) (hE : LedgerExact db.toLedger)
    (hp : PhaseOk cfg db (.deposit dstID amount key q) p)
    (hfit : amount.units.natAbs + numericBound.toNat ≤ Money.sendBound)
    (hn : Next cfg db (.deposit dstID amount key q) ch p p') (h : AfterDebit p) :
    AfterDebit p' := by
  cases hn with
  | creditRefused ha hid hm he =>
      obtain ⟨hw, _, da, ca, hu, hc, _⟩ := hp
      have hd := hu.debit_inRange hI (hw.posting.1 ▸ hfit)
      exact absurd he (hu.toHeld.credit_not_refused hI hE (hw.posting.sound hI) hd hc)
  | entryRefused _ htake _ =>
      obtain ⟨hw, _, da, ca, rows, hu, _⟩ := hp
      have hsound := hw.posting.sound hI
      have hr := hu.toHeld.credit_inRange hI hE hsound (hu.debit_inRange hI (hw.posting.1 ▸ hfit))
      rw [hu.toHeld.entryTakes_of_credit cfg hI hsound hr] at htake
      cases htake
  | keyNoText => exact (insertErr_invalidText _).2
  | duplicate => exact (insertErr_violation _ _).2
  | statementFails he => exact (stageErr_plain _ _ he).2
  | rolledBack w tx e =>
      unfold Request.afterTxErr
      split
      · trivial
      · exact h
  | audited => exact h
  | auditFails => exact h
  | credited => trivial
  | keyText => trivial
  | indexed => trivial
  | headerIn => trivial
  | entryIn => trivial
  | entriesIn => trivial
  | committed => exact rfl
  | ackLost => exact rfl
  | refetched => trivial
  | refetchMissed => exact rfl
  | refetchFails => exact rfl
  | refetchedEntries => exact rfl
  | refetchEntriesFails => exact rfl
  | _ => cases h

/-- The UPDATE of EXTERNAL compares the amount minus its balance with the bound. -/
theorem debit_toColumn (hpos : 0 < amount.units) {da : AccountRow} (hda : InRange da.balance)
    (hfit : amount.units.natAbs + numericBound.toNat ≤ Money.sendBound) {nd : Money}
    (hm : nd.units = da.balance - (depositPosting dstID amount).amount.units) :
    nd.toColumn 1 = if amount.units - da.balance < numericBound then .ok nd.units
      else .error numericOverflow := by
  have hm : nd.units = da.balance - amount.units := hm
  obtain ⟨h₁, h₂⟩ := hda
  rw [Money.toColumn_exact 1 (Money.sendable_iff.mpr (by omega))]
  refine if_congr ⟨fun h => ?_, fun h => ⟨by omega, by omega⟩⟩ rfl rfl
  have := h.1
  omega

/-- **One step of a deposit before the UPDATE of EXTERNAL**: with the key unused and the account
    there, nothing but that UPDATE can refuse it; the UPDATE compares the amount minus the balance
    of EXTERNAL with the bound. -/
theorem next_beforeDebit (hI : LedgerInv db.toLedger)
    (hp : PhaseOk cfg db (.deposit dstID amount key q) p)
    (hn : Next cfg db (.deposit dstID amount key q) ch p p') (hh : ch.healthy = true)
    (hkey : ∀ t ∈ db.transactions, t.idempotencyKey ≠ key)
    (hdst : ∃ a ∈ db.accounts, a.id = dstID)
    (hfit : amount.units.natAbs + numericBound.toNat ≤ Money.sendBound)
    (h : BeforeDebit dstID amount p) :
    BeforeDebit dstID amount p' ∨ AtDebit p ∧ DebitVerdict amount db p' := by
  cases hn with
  | found hrow hk => exact absurd hk (hkey _ hrow)
  | missed => exact .inl rfl
  | generated pst u => exact .inl h
  | began => exact .inl h
  | locking w tx =>
      have hw : w.posting = depositPosting dstID amount := h
      refine .inl ⟨hw, lockComplete_start ?_ ?_⟩
      · rw [hw]
        exact hI.external
      · rw [hw]
        exact hdst
  | lockedRow => exact .inl ⟨h.1, h.2.next⟩
  | accountMissing hl =>
      obtain ⟨hw, hc⟩ := h
      obtain ⟨hwork, _, hs⟩ := hp
      refine absurd (LockingOk.length_two hs ?_ hc) hl
      rw [hw]
      exact hwork.posting.2.2.symm
  | poor _ _ _ hc =>
      rw [h.1] at hc
      cases hc
  | funded => exact .inl h.1
  | @debitRefused w tx nd nc da e _ ha hid hm he =>
      have hw : w.posting = depositPosting dstID amount := h
      have hpos := (Money.isPositive_iff amount).mp hp.1.posting.2.1
      rw [hw] at hid hm
      have hcol := debit_toColumn hpos (hI.range da ha) hfit hm
      rw [hcol] at he
      split at he
      · cases he
      · rename_i hb
        cases he
        exact .inr ⟨⟨_, _, _, _, rfl⟩, da, ha, hid, .inl ⟨not_lt.mp hb, rfl⟩⟩
  | @debited w tx tx' nd nc da ha hid hm hst =>
      have hw : w.posting = depositPosting dstID amount := h
      have hpos := (Money.isPositive_iff amount).mp hp.1.posting.2.1
      rw [hw] at hid hm
      have hcol := debit_toColumn hpos (hI.range da ha) hfit hm
      rw [nd.toColumn_ok hst] at hcol
      split at hcol
      · rename_i hb
        exact .inr ⟨⟨_, _, _, _, rfl⟩, da, ha, hid, .inr ⟨hb, trivial⟩⟩
      · cases hcol
  | _ => first | exact False.elim h | cases hh

/-- What the UPDATE of EXTERNAL has decided stays decided. -/
theorem next_debitVerdict {db₀ : Db} (hI : LedgerInv db.toLedger) (hE : LedgerExact db.toLedger)
    (hp : PhaseOk cfg db (.deposit dstID amount key q) p)
    (hfit : amount.units.natAbs + numericBound.toNat ≤ Money.sendBound)
    (hn : Next cfg db (.deposit dstID amount key q) ch p p') (h : DebitVerdict amount db₀ p) :
    DebitVerdict amount db₀ p' := by
  obtain ⟨ext, he, hid, ⟨hb, ho⟩ | ⟨hb, ha⟩⟩ := h
  · exact ⟨ext, he, hid, .inl ⟨hb, (next_ends hn (by decide) ho).1⟩⟩
  · exact ⟨ext, he, hid, .inr ⟨hb, next_afterDebit hI hE hp hfit hn ha⟩⟩

end Deposit

/-- **The numeric range**, as long as every deposit is below `10 ^ 131072`. In every reachable state
    `s₁`, no value a transfer or a reversal is about to write is out of the range of
    `NUMERIC(20,4)`, and none of them fails for that reason. A deposit of at most
    `10 ^ 131072 - 10 ^ 16` (so that the driver can send the new balances too) that is at its lookup
    there, to an existing account and with an unused key, can come to its return; and in every run
    in which it does, no store call of it fails and no other call commits the key, it is refused by
    the range exactly when its amount minus the balance of
    EXTERNAL, as it stands when the deposit updates it under its lock, is at least the bound. The
    ledger is then what the other calls' commits make it: the deposit has committed nothing. -/
theorem numeric_range {cfg : Config} {now clock : Time} {before : List Act} {s₁ : St}
    (h₁ : exec cfg (St.start (Db.migrated now) clock) before = some s₁)
    (hsend : ∀ a ∈ before, a.sendable = true) :
    (∀ (i : Nat) r w tx stage, s₁.calls[i]? = some (.request r (.inTx w tx stage)) →
      r.kind ≠ .deposit → stage.InRange) ∧
    ∀ (i : Nat) dstID amount key q,
      s₁.calls[i]? = some (.request (.deposit dstID amount key q) .lookup) →
      amount.units.natAbs + numericBound.toNat ≤ Money.sendBound →
      (∃ a ∈ s₁.db.accounts, a.id = dstID) →
      (∀ t ∈ s₁.db.transactions, t.idempotencyKey ≠ key) →
      (∃ acts s ret, (∀ a ∈ acts, a.healthy = true) ∧ exec cfg s₁ acts = some s ∧
        s.calls[i]? = some (.request (.deposit dstID amount key q) (.done ret))) ∧
      ∀ acts s ret, exec cfg s₁ acts = some s → (∀ a ∈ acts, a.sendable = true) →
        (∀ a ∈ acts, a.healthyFor i = true) →
        (∀ e ∈ history cfg s₁ acts, e.1 ≠ i → e.2.key? ≠ some key) →
        s.calls[i]? = some (.request (.deposit dstID amount key q) (.done ret)) →
        ∃ pre post m ext, acts = pre ++ post ∧ exec cfg s₁ pre = some m ∧
          (∃ w tx nd nc, m.calls[i]? = some (.request (.deposit dstID amount key q)
            (.inTx w tx (.updateDebit nd nc)))) ∧
          ext ∈ m.db.accounts ∧ ext.id = externalAccountID ∧
          (ret.outOfRange = true ↔ numericBound ≤ amount.units - ext.balance) ∧
          (ret.outOfRange = true → own (history cfg s₁ acts) i = [] ∧
            replay s₁.db.toLedger (history cfg s₁ acts) = some s.db.toLedger) := by
  have h₀ := inv_start cfg now clock
  have hI := inv_exec h₀ h₁
  have hS := exec_sendable h₀ (St.sendable_start _ _) hsend h₁
  have hE : LedgerExact s₁.db.toLedger :=
    exec_exact h₀ (St.sendable_start _ _) (exact_migrated now) hsend h₁
  refine ⟨fun i r w tx stage hc hk => ?_, fun i dstID amount key q hc hfit hdst hkey => ?_⟩
  · obtain ⟨hw, _, hs⟩ := hI.calls i _ hc
    have hroll := exec_phases start_rollbackOk next_rollbackOk h₀ (exact_migrated now) hsend h₁
    exact hs.inRange hI.ledger hE hw hk (hroll i r _ hc)
  refine ⟨exists_return hI hc, fun acts s ret h hacts hh huse hret => ?_⟩
  obtain ⟨p, hp, hcase⟩ := exec_decided (B := BeforeDebit dstID amount) (D := AtDebit)
    (V := DebitVerdict amount) hI hc h trivial
    (fun as m ch p p' hpre hr hIm hpm hn hB => by
      have hfree := exec_key_free hI hc hkey ((List.prefix_append as _).trans hpre) hr hh huse hpm
        hB.committed?
      exact next_beforeDebit hIm.ledger (hIm.calls i _ hpm) hn (healthy_of_mem hh hpre) hfree
        (exec_account hI hr hdst) hfit hB)
    (fun as m ch p p' db hpre hr hIm hpm hn hV => by
      have hsub : ∀ a ∈ as, a.sendable = true := fun a ha =>
        hacts a (((List.prefix_append as _).trans hpre).subset ha)
      exact next_debitVerdict hIm.ledger (exec_exact hI hS hE hsub hr) (hIm.calls i _ hpm) hfit hn
        hV)
  rw [hret] at hp
  cases hp
  rcases hcase with hb | ⟨pre, post, m, _, e, hm, hq, ⟨w, tx, nd, nc, rfl⟩, ext, he, hid, hcase⟩
  · exact False.elim hb
  · refine ⟨pre, post, m, ext, e, hm, ⟨w, tx, nd, nc, hq⟩, he, hid, ?_⟩
    rcases hcase with ⟨hb, ho⟩ | ⟨hb, ha⟩
    · cases ho
      exact ⟨⟨fun _ => hb, fun _ => rfl⟩,
        fun _ => ⟨exec_uncommitted hI hc h hh hret rfl, exec_refines hI h⟩⟩
    · have ha : ret.outOfRange = false := ha
      rw [ha]
      exact ⟨⟨fun h => (by cases h), fun h => absurd h (not_le.mpr hb)⟩, fun h => (by cases h)⟩

/-- A deposit of `10 ^ 16` to Alice. -/
def hugeDeposit : Request :=
  .deposit aliceID (Money.fromInt 10000000000000000) (bytes "big-1") (bytes "req-1")

/-- Its steps after it has arrived: the lookup, the new id, and the transaction up to the UPDATE of
    EXTERNAL, which is refused. -/
def hugeDepositRun : List Act :=
  [.call 0 .ok, .call 0 (.uuid 100#128)] ++ List.replicate 8 (.call 0 .ok)

/-- The state in which it has just arrived. -/
def hugeDepositStart : St := ⟨Db.migrated 0, [.request hugeDeposit .lookup], 1000⟩

theorem hugeDepositRun_isSome :
    (exec Config.migrated hugeDepositStart hugeDepositRun).isSome = true := by
  decide +kernel

/-- The deposit of `10 ^ 16` is refused by the range, and what EXTERNAL then owes says why. -/
theorem numeric_range_hugeDeposit :
    ∃ ext : AccountRow, ext.id = externalAccountID ∧
      numericBound ≤ (Money.fromInt 10000000000000000).units - ext.balance := by
  have h₁ : exec Config.migrated (St.start (Db.migrated 0) 1000) [.arrive hugeDeposit] =
      some hugeDepositStart := by decide +kernel
  obtain ⟨pre, post, m, ext, _, _, _, _, hid, hiff, _⟩ :=
    ((numeric_range h₁ (by decide +kernel)).2 0 aliceID (Money.fromInt 10000000000000000)
      (bytes "big-1") (bytes "req-1") rfl (by decide +kernel) (by decide +kernel)
      (by decide +kernel)).2 hugeDepositRun
      ((exec Config.migrated hugeDepositStart hugeDepositRun).get hugeDepositRun_isSome)
      (.failed rangeErr) (Option.some_get hugeDepositRun_isSome).symm
      (by decide +kernel) (by decide +kernel) (by decide +kernel) (by decide +kernel)
  exact ⟨ext, hid, hiff.mp rfl⟩

/-- **A deposit that should be refused is not**: Dora has an account, the key is unused, and
    `10 ^ 262144` minus what EXTERNAL has is far above the bound. Alone and with every store call
    going through, the deposit returns its transaction. -/
theorem wrapDeposit_passes :
    Money.fromString (bytes "1e262144") = .ok (Money.tenTo 262144) ∧
    exec Config.migrated (St.start (Db.migrated 0) 1000) wrapBefore = some wrapStart ∧
    (∃ a ∈ wrapStart.db.accounts, a.id = 103#128) ∧
    (∀ t ∈ wrapStart.db.transactions, t.idempotencyKey ≠ bytes "in-2") ∧
    (∃ ext ∈ wrapStart.db.accounts, ext.id = externalAccountID ∧
      numericBound ≤ (Money.tenTo 262144).units - ext.balance) ∧
    ∃ s ret, exec Config.migrated wrapStart (soloCall 4 wrapDeposit 104#128) = some s ∧
      s.calls[4]? = some (.request wrapDeposit (.done ret)) ∧ ret.outOfRange = false := by
  obtain ⟨s, hrun, _, txn, entries, hret⟩ := wrapDeposit_returns
  obtain ⟨hext, heid⟩ := mem_of_find_key wrapDeposit_at.external
  obtain ⟨hacc, haid⟩ := mem_of_find_key wrapDeposit_at.account
  refine ⟨Money.fromString_tenTo (by decide +kernel), wrapBefore_exec, ⟨_, hacc, haid⟩,
    wrapDeposit_at.key, ⟨_, hext, heid, ?_⟩, s, _, hrun, hret, rfl⟩
  have hbig := Money.numericBound_le_tenTo (k := 262144) (by norm_num)
  show numericBound ≤ (Money.tenTo 262144).units - -1000000000000
  omega

end BankingService
