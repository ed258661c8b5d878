/-
  File:      BankingService/Props/PrefixStable.lean
  Subject:   THE HISTORY OF AN ACCOUNT IN PIECES: whether a longer listing goes on where a shorter
             one stopped.

  `ListTransactionsForAccount` and `ListAuditForAccount` order by `created_at` alone, so both are
  instances of `Lib.Limited`: the rows are determined exactly if no two of them have one time. The
  rows themselves are all different, the headers by their ids (`LedgerInv`), the audit rows by
  theirs (`AuditIDs`).
-/
import BankingService.Proof.Reads
import BankingService.Proof.Tables

namespace BankingService

open Lib

/-- A read may list the audit rows `entries`. -/
def ListsAudit (db : Db) (id : UUID) (limit : Nat) (entries : List ListedAudit) : Prop :=
  ∃ ch, listAuditForAccount db id limit ch = some (.ok entries)

theorem listsAudit_iff {db : Db} {id : UUID} {limit : Nat} {entries : List ListedAudit}
    (hn : (db.auditOf id).Nodup) :
    ListsAudit db id limit entries ↔
      ∃ rows, Limited (DescBy AuditRow.createdAt) limit (db.auditOf id) rows ∧
        entries = rows.map scanAudit := by
  have hlimit : (0 : Int) ≤ limit := Int.natCast_nonneg limit
  constructor
  · intro h
    obtain ⟨ch, h⟩ := h
    cases ch with
    | ok =>
        simp only [listAuditForAccount, if_neg (Int.not_lt.mpr hlimit)] at h
        cases h
    | rows rows =>
        simp only [listAuditForAccount, hlimit, true_and, Int.toNat_natCast] at h
        split at h
        · rename_i hr
          cases h
          exact ⟨rows, (limited_iff hn).mpr hr, rfl⟩
        · cases h
    | fail text => cases h
  · intro h
    obtain ⟨rows, hr, rfl⟩ := h
    refine ⟨.rows rows, ?_⟩
    simp only [listAuditForAccount, hlimit, true_and, Int.toNat_natCast]
    exact if_pos ((limited_iff hn).mp hr)

theorem scanAudit_injective : Function.Injective scanAudit := by
  intro r r' h
  cases r
  cases r'
  simp only [scanAudit, ListedAudit.mk.injEq, AuditEntry.mk.injEq] at h
  obtain ⟨⟨hop, hfrom, hto, hamount, hout, herr, htx, hreq⟩, hid, htime⟩ := h
  have hinj : Function.Injective Money.ofColumn := fun n n' e => by
    simpa using congrArg Money.units e
  rw [AuditRow.mk.injEq]
  exact ⟨hid, hop, hfrom, hto, Option.map_injective hinj hamount, hout, herr, htx, hreq, htime⟩

theorem auditIDs_migrated (now : Time) : AuditIDs (Db.migrated now) := by
  rw [Db.migrated_eq]
  exact ⟨List.nodup_nil, fun _ hr => absurd hr List.not_mem_nil⟩

/-- **Prefix stability of the history of an account**, in every reachable state: a listing of `k`
    rows is the beginning of every listing of `k + 1` rows, for every `k`, exactly if no two rows
    have one `created_at`. That is so for the transactions of an account and for its audit log. -/
theorem history_prefix_iff {cfg : Config} {now clock : Time} {acts : List Act} {s : St}
    (h : exec cfg (St.start (Db.migrated now) clock) acts = some s) (id : UUID) :
    ((∀ k : Nat, 1 ≤ k → ∀ txns txns',
        Returns s.db.toLedger (.listTransactionsForAccount id k) txns →
        Returns s.db.toLedger (.listTransactionsForAccount id (k + 1 : Nat)) txns' →
        txns <+: txns') ↔
      ((s.db.headersOf id).map (·.createdAt)).Nodup) ∧
    ((∀ k : Nat, 1 ≤ k → ∀ entries entries', ListsAudit s.db id k entries →
        ListsAudit s.db id (k + 1) entries' → entries <+: entries') ↔
      ((s.db.auditOf id).map (·.createdAt)).Nodup) := by
  have hheaders : (s.db.headersOf id).Nodup :=
    (List.Nodup.of_map _ (inv_exec (inv_start cfg now clock) h).ledger.transactionIDs).filter _
  have haudit : (s.db.auditOf id).Nodup :=
    (List.Nodup.of_map _ (exec_auditIDs (auditIDs_migrated now) h).nodup).filter _
  constructor
  · rw [← untied_descBy_iff hheaders, ← prefix_stable_map_iff s.db.transactionOf_injective hheaders]
    simp only [listTransactionsForAccount_returns, ← limited_iff hheaders]
  · rw [← untied_descBy_iff haudit, ← prefix_stable_map_iff scanAudit_injective haudit]
    simp only [listsAudit_iff haudit]

/-- Alice sends Bob 2500, and a microsecond later 100 more. -/
def spacedRun : List Act :=
  soloCall 0 (.transfer aliceID bobID (Money.fromInt 2500) (bytes "pay-1") (bytes "req-1"))
      100#128 ++ [.tick 1] ++
    soloCall 1 (.transfer aliceID bobID (Money.fromInt 100) (bytes "pay-2") (bytes "req-2")) 101#128

theorem spacedRun_isSome :
    (exec Config.migrated (St.start (Db.migrated 0) 1000) spacedRun).isSome = true := by
  decide +kernel

def spacedEnd : St :=
  (exec Config.migrated (St.start (Db.migrated 0) 1000) spacedRun).get spacedRun_isSome

theorem spacedRun_exec :
    exec Config.migrated (St.start (Db.migrated 0) 1000) spacedRun = some spacedEnd :=
  (Option.some_get spacedRun_isSome).symm

/-- Alice's times all differ. -/
theorem spaced_times :
    ((spacedEnd.db.headersOf aliceID).map (·.createdAt)).Nodup ∧
      ((spacedEnd.db.auditOf aliceID).map (·.createdAt)).Nodup := by
  decide +kernel

/-- So her history is stable. -/
theorem history_prefix_spaced :
    (∀ k : Nat, 1 ≤ k → ∀ txns txns',
        Returns spacedEnd.db.toLedger (.listTransactionsForAccount aliceID k) txns →
        Returns spacedEnd.db.toLedger (.listTransactionsForAccount aliceID (k + 1 : Nat)) txns' →
        txns <+: txns') ∧
      ∀ k : Nat, 1 ≤ k → ∀ entries entries', ListsAudit spacedEnd.db aliceID k entries →
        ListsAudit spacedEnd.db aliceID (k + 1) entries' → entries <+: entries' :=
  ⟨(history_prefix_iff spacedRun_exec aliceID).1.mpr spaced_times.1,
    (history_prefix_iff spacedRun_exec aliceID).2.mpr spaced_times.2⟩

/-- The headers of two of the seed deposits, made by one statement. -/
def seedHeaders : List TransactionRow :=
  [⟨seedDepositID 1, .deposit, bytes "seed-deposit-alice-001", none, 0⟩,
    ⟨seedDepositID 2, .deposit, bytes "seed-deposit-bob-001", none, 0⟩]

/-- **Two histories that disagree.** The three seed deposits are on EXTERNAL and have one time, so
    the first line of its history may be one in a listing of one and another in a listing of two.
    Alice's two calls of the sample run have written their audit rows at one time. -/
theorem history_unstable :
    (∃ txns txns',
      Returns (Db.migrated 0).toLedger (.listTransactionsForAccount externalAccountID 1) txns ∧
      Returns (Db.migrated 0).toLedger (.listTransactionsForAccount externalAccountID 2) txns' ∧
      ¬txns <+: txns') ∧
    exec Config.migrated (St.start (Db.migrated 0) 1000) sampleRun = some sampleEnd ∧
    ∃ entries entries', ListsAudit sampleEnd.db aliceID 1 entries ∧
      ListsAudit sampleEnd.db aliceID 2 entries' ∧ ¬entries <+: entries' := by
  have hseed : Newest 1 ((Db.migrated 0).headersOf externalAccountID) (seedHeaders.take 1) ∧
      Newest 2 ((Db.migrated 0).headersOf externalAccountID) seedHeaders.reverse ∧
      ¬(seedHeaders.take 1).map (Db.migrated 0).transactionOf <+:
        seedHeaders.reverse.map (Db.migrated 0).transactionOf := by
    decide +kernel
  have haudit : listAuditForAccount sampleEnd.db aliceID 1 (.rows (sampleEnd.db.auditLog.take 1)) =
        some (.ok ((sampleEnd.db.auditLog.take 1).map scanAudit)) ∧
      listAuditForAccount sampleEnd.db aliceID 2 (.rows sampleEnd.db.auditLog.reverse) =
        some (.ok (sampleEnd.db.auditLog.reverse.map scanAudit)) ∧
      ¬(sampleEnd.db.auditLog.take 1).map scanAudit <+:
        sampleEnd.db.auditLog.reverse.map scanAudit := by
    decide +kernel
  refine ⟨⟨_, _, ?_, ?_, hseed.2.2⟩, sampleRun_exec, _, _, ⟨_, haudit.1⟩, ⟨_, haudit.2.1⟩,
    haudit.2.2⟩
  · exact listTransactionsForAccount_returns.mpr ⟨_, hseed.1, rfl⟩
  · exact listTransactionsForAccount_returns.mpr ⟨_, hseed.2.1, rfl⟩

end BankingService
