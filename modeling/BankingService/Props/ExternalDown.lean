/-
  File:      BankingService/Props/ExternalDown.lean
  Subject:   DOWN MIGRATION 0002: what is left of the transactions with EXTERNAL.

  The first statement deletes every entry of a transaction with a leg on EXTERNAL. The second one
  looks for these transactions in `entries`, where there are none any more
  (`externalTransactions_cleared`), so it deletes no header (`migrate0002Down_eq`).

  * `external_down_iff` -- the migration does what it is meant to exactly if nothing was ever booked
    on EXTERNAL.
-/
import BankingService.Spec.AtomicInv

namespace BankingService

/-! ## 1. The statements -/

/-- The tables after the first statement. -/
def Ledger.cleared (L : Ledger) : Ledger :=
  deleteEntries (fun e => (externalTransactions L).contains e.transactionID) L

section Statements

variable {L : Ledger} {e : EntryRow}

theorem mem_externalTransactions (he : e ∈ L.entries) (hx : e.accountID = externalAccountID) :
    e.transactionID ∈ externalTransactions L :=
  List.mem_dedup.mpr (List.mem_map_of_mem (List.mem_filter.mpr ⟨he, decide_eq_true hx⟩))

/-- No entry is left on EXTERNAL. -/
theorem cleared_account (he : e ∈ L.cleared.entries) : e.accountID ≠ externalAccountID := by
  intro hx
  obtain ⟨hmem, hnot⟩ := List.mem_filter.mp he
  simp [mem_externalTransactions hmem hx] at hnot

/-- So the second statement finds no transaction. -/
theorem externalTransactions_cleared (L : Ledger) : externalTransactions L.cleared = [] := by
  have hnone : L.cleared.entries.filter (fun e => e.accountID = externalAccountID) = [] :=
    List.filter_eq_nil_iff.mpr fun e he => by simpa using cleared_account he
  rw [externalTransactions, hnone]
  rfl

/-- **0002 down** always succeeds. It deletes the entries and the account, and no header. -/
theorem migrate0002Down_eq (db : Db) :
    migrate0002Down db = .ok { db with toLedger := { db.cleared with
      accounts := db.accounts.filter fun a => !decide (a.id = externalAccountID) } } := by
  have hheaders : deleteTransactions (fun t => (externalTransactions db.cleared).contains t.id)
      db.cleared = .ok db.cleared := by
    refine deleteTransactions_none fun t _ => ?_
    rw [externalTransactions_cleared]
    rfl
  have haccounts : deleteAccounts (fun a => decide (a.id = externalAccountID)) db.cleared =
      .ok { db.cleared with
        accounts := db.accounts.filter fun a => !decide (a.id = externalAccountID) } := by
    refine deleteAccounts_iff.mpr ⟨fun e he a _ ha hid => ?_, rfl⟩
    exact cleared_account he (hid ▸ of_decide_eq_true ha)
  show (deleteTransactions (fun t => (externalTransactions db.cleared).contains t.id) db.cleared >>=
    fun L => deleteAccounts (fun a => decide (a.id = externalAccountID)) L >>=
    fun L => .ok { db with toLedger := L }) = _
  rw [hheaders]
  show (deleteAccounts (fun a => decide (a.id = externalAccountID)) db.cleared >>=
    fun L => .ok { db with toLedger := L }) = _
  rw [haccounts]
  rfl

/-- The entries of a transaction without EXTERNAL stay. -/
theorem legsOf_cleared {id : UUID} (h : id ∉ externalTransactions L) :
    L.cleared.legsOf id = L.legsOf id := by
  unfold Ledger.legsOf Ledger.cleared deleteEntries
  rw [List.filter_filter]
  refine List.filter_congr fun e _ => ?_
  by_cases he : e.transactionID = id
  · simp [he, h]
  · simp [he]

end Statements

/-! ## 2. The result -/

/-- **What 0002 down is for**: EXTERNAL goes, and exactly its transactions go with it. -/
structure ExternalRemoved (L L' : Ledger) : Prop where
  account : ∀ a ∈ L'.accounts, a.id ≠ externalAccountID
  removed : ∀ t ∈ L'.transactions, ∀ e ∈ L.legsOf t.id, e.accountID ≠ externalAccountID
  others : ∀ t ∈ L.transactions, (∀ e ∈ L.legsOf t.id, e.accountID ≠ externalAccountID) →
    t ∈ L'.transactions ∧ L'.legsOf t.id = L.legsOf t.id
  legs : ∀ t ∈ L'.transactions, L'.legsOf t.id = L.legsOf t.id ∧ L'.legsOf t.id ≠ []

/-- **0002 down** on a ledger with the invariant removes EXTERNAL and exactly its transactions if
    and only if no entry is on EXTERNAL. -/
theorem external_down_iff {db db' : Db} (hI : LedgerInv db.toLedger)
    (h : migrate0002Down db = .ok db') :
    ExternalRemoved db.toLedger db'.toLedger ↔
      ∀ e ∈ db.entries, e.accountID ≠ externalAccountID := by
  rw [migrate0002Down_eq] at h
  cases h
  constructor
  · intro hr e he hx
    -- the header of a leg on EXTERNAL has not been deleted
    obtain ⟨t, ht, hid⟩ := hI.entryTransaction e he
    have hleg : e ∈ db.legsOf t.id := List.mem_filter.mpr ⟨he, by simpa using hid.symm⟩
    exact hr.removed t ht e hleg hx
  · intro hfree
    have hnone : externalTransactions db.toLedger = [] := by
      have hempty : db.entries.filter (fun e => e.accountID = externalAccountID) = [] :=
        List.filter_eq_nil_iff.mpr fun e he => by simpa using hfree e he
      rw [externalTransactions, hempty]
      rfl
    have hlegs : ∀ id, db.cleared.legsOf id = db.legsOf id := by
      intro id
      refine legsOf_cleared ?_
      rw [hnone]
      exact List.not_mem_nil
    refine ⟨fun a ha => ?_, fun t _ e he => hfree e (List.mem_of_mem_filter he),
      fun t ht _ => ⟨ht, hlegs t.id⟩, fun t ht => ⟨hlegs t.id, ?_⟩⟩
    · simpa using (List.mem_filter.mp ha).2
    · obtain ⟨d, c, hl, _⟩ := hI.legs t ht
      show db.cleared.legsOf t.id ≠ []
      rw [hlegs, hl]
      exact List.cons_ne_nil d [c]

/-- Version 2 with an account of Dora. -/
def openedAccount : Db :=
  { migrate0002Up Db.empty with
    accounts := (migrate0002Up Db.empty).accounts ++ [⟨50#128, bytes "Dora", 0, false⟩] }

/-- Before anything is booked, 0002 down removes EXTERNAL and leaves Dora's account. -/
theorem external_down_opened :
    ∃ db', migrate0002Down openedAccount = .ok db' ∧
      db'.accounts = [⟨50#128, bytes "Dora", 0, false⟩] ∧
      ExternalRemoved openedAccount.toLedger db'.toLedger := by
  have hopens : (Commit.createAccount 50#128 (bytes "Dora")).apply
      (migrate0002Up Db.empty).toLedger = some openedAccount.toLedger := by
    decide +kernel
  refine ⟨_, migrate0002Down_eq openedAccount, by decide +kernel, ?_⟩
  exact (external_down_iff (inv_apply inv_version2 hopens) (migrate0002Down_eq openedAccount)).mpr
    fun e he => absurd he List.not_mem_nil

/-- **Headers without entries.** On the migrated database 0002 down leaves the headers of the three
    seed deposits, and none of their entries. -/
theorem external_headers_left :
    ∃ db', migrate0002Down (Db.migrated 0) = .ok db' ∧ LedgerInv (Db.migrated 0).toLedger ∧
      db'.transactions.map (·.id) = [seedDepositID 1, seedDepositID 2, seedDepositID 3] ∧
      db'.entries = [] ∧
      ∀ t ∈ db'.transactions,
        (∃ e ∈ (Db.migrated 0).legsOf t.id, e.accountID = externalAccountID) ∧
          db'.legsOf t.id = [] :=
  ⟨_, migrate0002Down_eq _, inv_migrated 0, by decide +kernel, by decide +kernel,
    by decide +kernel⟩

end BankingService
