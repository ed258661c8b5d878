/-
  File:      BankingService/Props/Accounts.lean
  Subject:   THE ACCOUNTS API shows the whole of the money.

  * **`money_supply`** -- every listing of the accounts has each user account once, none in the red,
    and as long as no deposit wraps in the driver they hold together the seed deposits and every
    deposit committed since: transfers, reversals and new accounts neither make money nor lose any.
  * **`account_readable`** -- an account that `POST /api/accounts` has returned can be fetched under
    every text of its id, ever after; with the balance of its entries, as long as no deposit wraps.
-/
import BankingService.Http.Accounts
import BankingService.Proof.Calls
import BankingService.Proof.Sent
import BankingService.Spec.Balance
import BankingService.Uuid.Text

namespace BankingService

open Lib

/-! ## 1. Deposits -/

/-- The amounts a history pays in. -/
def deposits (h : List (Nat × Commit)) : Int := (h.map fun e => e.2.deposited).sum

/-- **The balance of EXTERNAL along a run.** -/
theorem exec_external {cfg : Config} {s₀ s : St} {acts : List Act} (h₀ : SysInv cfg s₀)
    (hs₀ : s₀.Sendable) (hacts : ∀ a ∈ acts, a.sendable = true) (h : exec cfg s₀ acts = some s) :
    s.db.balance externalAccountID =
      s₀.db.balance externalAccountID - deposits (history cfg s₀ acts) := by
  revert hacts
  refine run_induction (motive := fun as m => (∀ a ∈ as, a.sendable = true) →
    m.db.balance externalAccountID =
      s₀.db.balance externalAccountID - deposits (history cfg s₀ as)) ?_ ?_ h
  · exact fun _ => (sub_zero _).symm
  · intro as m a m' hr ih hs hacts
    have hpre : ∀ b ∈ as, b.sendable = true := fun b hb => hacts b (List.mem_append_left _ hb)
    have hI := inv_exec h₀ hr
    have ih := ih hpre
    rw [history_snoc hr hs, deposits, List.map_append, List.sum_append, ← deposits]
    cases hl : commitOf cfg m a with
    | none =>
        have e : m'.db.toLedger = m.db.toLedger := step_silent hI hs hl
        rw [e, ih, Option.toList_none, List.map_nil, List.sum_nil, add_zero]
    | some e =>
        have hmove := step_move hI (exec_sendable h₀ hs₀ hpre hr) hs hl
        rw [move_balance hI.ledger hmove, effect_external hI.ledger hmove, ih,
          Option.toList_some, List.map_singleton, List.sum_singleton]
        omega

/-- After the migrations EXTERNAL has paid the seed deposits. -/
theorem migrated_external (now : Time) :
    (Db.migrated now).balance externalAccountID = -(3 * seedAmount) := by
  have hrow : ((migratedAccounts.find? (·.id = externalAccountID)).map (·.balance)).getD 0 =
      -(3 * seedAmount) := by decide +kernel
  rw [Ledger.balance, Ledger.account?, Db.migrated_eq]
  exact hrow

/-! ## 2. The listing -/

/-- A listing that succeeds. -/
theorem getAccounts_ok {nameLe : GoString → GoString → Bool} {L : Ledger} {ch : AccountsChoice}
    {accounts : List Account} (h : getAccounts nameLe L ch = some (.ok accounts)) :
    ∃ rows : List AccountRow, rows.Perm L.userAccounts ∧ accounts = rows.map scanAccount := by
  obtain ⟨res, hres, e⟩ := Option.map_eq_some_iff.mp h
  cases ch with
  | rows rows =>
      simp only [listAccounts] at hres
      split at hres
      · rename_i hord
        cases hres
        cases e
        exact ⟨rows, hord.1, rfl⟩
      · cases hres
  | ok => cases hres
  | failQuery => cases hres; cases e
  | failRows => cases hres; cases e

/-- **The listing shows all the money.** In every reachable state and for every collation, a
    successful `GET /api/accounts` has each user account exactly once, with a balance that is not
    negative; and if no deposit that arrived wraps in the driver, their sum is what the seed and the
    deposits committed since have paid in. -/
theorem money_supply {cfg : Config} {now clock : Time} {acts : List Act} {s : St}
    (h : exec cfg (St.start (Db.migrated now) clock) acts = some s)
    {nameLe : GoString → GoString → Bool} {ch : AccountsChoice} {accounts : List Account}
    (hresp : getAccounts nameLe s.db.toLedger ch = some (.ok accounts)) :
    (accounts.map (·.id)).Nodup ∧
      (∀ id, (∃ a ∈ accounts, a.id = id) ↔
        id ≠ externalAccountID ∧ ∃ a ∈ s.db.accounts, a.id = id) ∧
      (∀ a ∈ accounts, 0 ≤ a.balance.units) ∧
      ((∀ a ∈ acts, a.sendable = true) → (accounts.map (·.balance.units)).sum =
        3 * seedAmount + deposits (history cfg (St.start (Db.migrated now) clock) acts)) := by
  have h₀ := inv_start cfg now clock
  have hI := inv_exec h₀ h
  obtain ⟨rows, hperm, rfl⟩ := getAccounts_ok hresp
  -- a row is listed exactly if it is not EXTERNAL's
  have hmem : ∀ a, a ∈ rows ↔ a ∈ s.db.accounts ∧ a.id ≠ externalAccountID := by
    intro a
    rw [hperm.mem_iff, Ledger.userAccounts, List.mem_filter]
    refine and_congr_right fun ha => ?_
    rw [Bool.not_eq_true', ← Bool.not_eq_true, hI.ledger.system a ha]
  have hids : (rows.map scanAccount).map (·.id) = rows.map (·.id) := by
    rw [List.map_map]
    rfl
  refine ⟨?_, fun id => ?_, ?_, ?_⟩
  · rw [hids, (hperm.map (·.id)).nodup_iff]
    exact hI.ledger.accountIDs.sublist (List.filter_sublist.map _)
  · constructor
    · rintro ⟨b, hb, rfl⟩
      obtain ⟨a, ha, rfl⟩ := List.mem_map.mp hb
      obtain ⟨hin, hne⟩ := (hmem a).mp ha
      exact ⟨hne, a, hin, rfl⟩
    · rintro ⟨hne, a, ha, rfl⟩
      exact ⟨scanAccount a, List.mem_map_of_mem ((hmem a).mpr ⟨ha, hne⟩), rfl⟩
  · intro b hb
    obtain ⟨a, ha, rfl⟩ := List.mem_map.mp hb
    obtain ⟨hin, hne⟩ := (hmem a).mp ha
    rw [scanAccount_balance, Money.units_ofColumn]
    exact hI.ledger.nonneg a hin hne
  · intro hsend
    have hs₀ := St.sendable_start (Db.migrated now) clock
    have hE := exec_exact h₀ hs₀ (exact_migrated now) hsend h
    have hunits : (rows.map scanAccount).map (·.balance.units) = rows.map (·.balance) := by
      rw [List.map_map]
      exact List.map_congr_left fun a _ => Money.units_ofColumn a.balance
    rw [hunits, (hperm.map (·.balance)).sum_eq, Ledger.userAccounts,
      userAccounts_sum hI.ledger hE, exec_external h₀ hs₀ hsend h, St.start_db, migrated_external]
    omega

/-- Alice pays in 25, Bob sends her 2500, and an account for Dora is opened. -/
def supplyRun : List Act :=
  [.arrive (.deposit aliceID (Money.fromInt 25) (bytes "in-1") (bytes "req-1")),
    .arrive (.transfer bobID aliceID (Money.fromInt 2500) (bytes "pay-1") (bytes "req-2")),
    .arriveCreate (bytes "Dora"), .call 0 .ok, .call 0 (.uuid 100#128)] ++
  List.replicate 17 (.call 0 .ok) ++ [.call 1 .ok, .call 1 (.uuid 101#128)] ++
  List.replicate 17 (.call 1 .ok) ++ [.call 2 (.uuid 102#128), .call 2 .ok]

theorem supplyRun_isSome :
    (exec Config.migrated (St.start (Db.migrated 0) 1000) supplyRun).isSome = true := by
  decide +kernel

def supplyEnd : St :=
  (exec Config.migrated (St.start (Db.migrated 0) 1000) supplyRun).get supplyRun_isSome

theorem supplyRun_exec :
    exec Config.migrated (St.start (Db.migrated 0) 1000) supplyRun = some supplyEnd :=
  (Option.some_get supplyRun_isSome).symm

/-- The rows in the order of their names. -/
def supplyRows : List AccountRow :=
  [⟨aliceID, bytes "Alice", 125250000, false⟩, ⟨bobID, bytes "Bob", 75000000, false⟩,
    ⟨charlieID, bytes "Charlie", 100000000, false⟩, ⟨102#128, bytes "Dora", 0, false⟩]

theorem money_supply_deposit :
    ((supplyRows.map scanAccount).map (·.balance.units)).sum =
      3 * seedAmount +
        deposits (history Config.migrated (St.start (Db.migrated 0) 1000) supplyRun) := by
  have hresp : getAccounts (fun a b => decide (a ≤ b)) supplyEnd.db.toLedger (.rows supplyRows) =
      some (.ok (supplyRows.map scanAccount)) := by decide +kernel
  exact (money_supply supplyRun_exec hresp).2.2.2 (by decide +kernel)

/-! ## 3. One account -/

/-- **A created account can be fetched.** Once `CreateAccount` has returned an account, a
    `GET /api/accounts/{id}` answers 200 in every state from then on, for each string that `Parse`
    takes for its id: with this id and the name given; and if no deposit that arrived wraps in the
    driver, with the balance of its entries. -/
theorem account_readable {cfg : Config} {now clock : Time} {acts : List Act} {s : St}
    (h : exec cfg (St.start (Db.migrated now) clock) acts = some s) {i : Nat} {name : GoString}
    {a : Account} (hc : s.calls[i]? = some (.createAccount name (.done a))) {path : GoString}
    (hpath : UUID.parse path = some a.id) :
    ∃ a', getAccountByID s.db.toLedger path .ok = some (writeJSON 200 (.account a')) ∧
      a'.id = a.id ∧ a'.name = name ∧ a'.isSystem = false ∧
      ((∀ b ∈ acts, b.sendable = true) →
        a'.balance.units = s.db.credits a.id - s.db.debits a.id) := by
  have h₀ := inv_start cfg now clock
  have hI := inv_exec h₀ h
  obtain ⟨row, hrow, hid, hname, hsys⟩ := exec_created h₀ rfl h hc
  have hfind : s.db.account? row.id = some row := find_key hI.ledger.accountIDs hrow
  refine ⟨scanAccount row, ?_, hid, hname, hsys, fun hsend => ?_⟩
  · rw [getAccountByID, parseUUID, hpath, ← hid]
    simp only [getAccount, hfind]
    rfl
  · have hE := exec_exact h₀ (St.sendable_start _ _) (exact_migrated now) hsend h
    rw [scanAccount_balance, Money.units_ofColumn, hE.reconciled row hrow, hid]

theorem account_readable_dora :
    ∃ a', getAccountByID supplyEnd.db.toLedger (bytes "00000000-0000-0000-0000-000000000066") .ok =
        some (writeJSON 200 (.account a')) ∧ a'.name = bytes "Dora" := by
  have hc : supplyEnd.calls[2]? =
      some (.createAccount (bytes "Dora")
        (.done ⟨102#128, bytes "Dora", Money.ofColumn 0, false⟩)) := by
    decide +kernel
  have hpath : UUID.parse (bytes "00000000-0000-0000-0000-000000000066") = some 102#128 :=
    (parse_dashed (by decide)).mpr (by decide +kernel)
  obtain ⟨a', hget, _, hname, _⟩ := account_readable supplyRun_exec hc hpath
  exact ⟨a', hget, hname⟩

end BankingService
