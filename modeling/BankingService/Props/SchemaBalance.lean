/-
  File:      BankingService/Props/SchemaBalance.lean
  Subject:   How far the schema alone keeps every transaction balanced, over any SQL on `entries`.

  A transaction id that some inserted or updated row names is checked at COMMIT. For every other one
  the rows it had can only get fewer (`step_sum`), so its balance changes by the rows it lost
  (`run_sum`), and nothing checks that.

  * **`schema_balanced_iff`** -- after a COMMIT every transaction is balanced if and only if the
    rows that an unchecked transaction lost sum to zero.
-/
import BankingService.Store.EntriesSql

namespace BankingService

open Lib

/-! ## 1. One statement -/

section Step

variable {L : Ledger}

/-- An UPDATE seen from a transaction that no new row version names: the selected rows are gone. -/
theorem update_sum {sel : EntryRow → Bool} {set : EntryRow → EntryRow} {rows : List EntryRow}
    {t : UUID} (h : ∀ e ∈ rows, sel e = true → (set e).transactionID ≠ t) :
    doubleEntrySum (rows.map fun e => if sel e then set e else e) t =
      doubleEntrySum rows t -
        doubleEntrySum (rows.filter fun e => sel e && (set e).transactionID != e.transactionID)
          t := by
  induction rows with
  | nil => rfl
  | cons e rows ih =>
      have ih := ih fun e' he' => h e' (List.mem_cons_of_mem _ he')
      rw [List.map_cons, doubleEntrySum_cons, ih, doubleEntrySum_cons]
      cases hsel : sel e with
      | false =>
          simp [hsel]
          ring
      | true =>
          have hne := h e List.mem_cons_self hsel
          by_cases ht : e.transactionID = t
          · -- a selected row of `t` moves away, so it is lost
            subst ht
            simp [hsel, hne, doubleEntrySum_cons]
          · -- a row of another transaction is not counted on either side
            by_cases hm : (set e).transactionID = e.transactionID
            · simp [hsel, hm, ht]
            · simp [hsel, hne, hm, ht, doubleEntrySum_cons]

/-- **One statement**, seen from a transaction for which it queues no event. -/
theorem step_sum {s s' : EntriesTx} {q : EntriesSql} (h : entriesStep L s q = some s') {t : UUID}
    (ht : t ∉ q.fires s) :
    doubleEntrySum s'.entries t = doubleEntrySum s.entries t - doubleEntrySum (q.loses s) t := by
  obtain ⟨_, he⟩ := entriesStep_cases h
  cases q with
  | insert row =>
      have hne : row.transactionID ≠ t := fun e => ht (by simp [EntriesSql.fires, e])
      simp only at he
      rw [he, doubleEntrySum_append, doubleEntrySum_cons, if_neg hne]
      simp [EntriesSql.loses, doubleEntrySum]
  | update sel set =>
      simp only at he
      rw [he]
      refine update_sum fun e hmem hsel hset => ht ?_
      exact List.mem_map.mpr ⟨e, List.mem_filter.mpr ⟨hmem, hsel⟩, hset⟩
  | delete sel =>
      simp only at he
      rw [he, doubleEntrySum_split sel s.entries t]
      show _ = _ - doubleEntrySum (s.entries.filter sel) t
      ring

end Step

/-! ## 2. A database transaction -/

/-- The transaction ids that the statements write: those the trigger checks. -/
def checkedIDs (L : Ledger) (qs : List EntriesSql) : List UUID :=
  (steps (entriesStep L) (EntriesTx.start L) qs).flatMap fun x => x.2.fires x.1

/-- The rows that the statements take away from the transaction they belong to. -/
def lostRows (L : Ledger) (qs : List EntriesSql) : List EntryRow :=
  (steps (entriesStep L) (EntriesTx.start L) qs).flatMap fun x => x.2.loses x.1

/-- **The statements of a transaction**: the queue holds the written ids, and a transaction that is
    not among them has lost what the statements took. -/
theorem run_sum {L : Ledger} {qs : List EntriesSql} {s : EntriesTx}
    (h : run (entriesStep L) (EntriesTx.start L) qs = some s) :
    s.fired = checkedIDs L qs ∧ ∀ t, t ∉ checkedIDs L qs →
      doubleEntrySum s.entries t =
        doubleEntrySum L.entries t - doubleEntrySum (lostRows L qs) t := by
  refine run_induction (motive := fun qs s => s.fired = checkedIDs L qs ∧ ∀ t, t ∉ checkedIDs L qs →
    doubleEntrySum s.entries t = doubleEntrySum L.entries t - doubleEntrySum (lostRows L qs) t)
    ⟨rfl, fun t _ => ?_⟩ (fun qs s q s' hr ih hs => ?_) h
  · show _ = _ - 0
    rw [sub_zero]
    rfl
  · have hc : checkedIDs L (qs ++ [q]) = checkedIDs L qs ++ q.fires s := by
      unfold checkedIDs
      rw [steps_snoc hr hs, List.flatMap_append]
      simp
    have hl : lostRows L (qs ++ [q]) = lostRows L qs ++ q.loses s := by
      unfold lostRows
      rw [steps_snoc hr hs, List.flatMap_append]
      simp
    refine ⟨?_, fun t ht => ?_⟩
    · rw [hc, (entriesStep_cases hs).1, ih.1]
    · rw [hc, List.mem_append, not_or] at ht
      rw [hl, doubleEntrySum_append, step_sum hs ht.2, ih.2 t ht.1]
      ring

/-- **Under the schema alone**: start from a committed state in which every transaction is balanced
    and let any statements on `entries` commit. Every transaction is balanced again if and only if,
    for each transaction that no inserted or updated row names, the rows that were deleted from it
    or moved out of it sum to zero. -/
theorem schema_balanced_iff {L : Ledger} (h₀ : ∀ t, doubleEntrySum L.entries t = 0)
    {qs : List EntriesSql} {entries : List EntryRow} (h : runEntries L qs = some entries) :
    (∀ t, doubleEntrySum entries t = 0) ↔
      ∀ t, t ∉ checkedIDs L qs → doubleEntrySum (lostRows L qs) t = 0 := by
  obtain ⟨s, hs, hc⟩ := Option.bind_eq_some_iff.mp h
  have hok : commitEntries s = .ok entries := by
    cases hcs : commitEntries s with
    | error e =>
        rw [hcs] at hc
        cases hc
    | ok r =>
        rw [hcs] at hc
        cases hc
        rfl
  obtain ⟨rfl, hfired⟩ := (commitEntries_iff s entries).mp hok
  obtain ⟨hf, hsum⟩ := run_sum hs
  rw [hf] at hfired
  have hun : ∀ t, t ∉ checkedIDs L qs →
      doubleEntrySum s.entries t = -doubleEntrySum (lostRows L qs) t := by
    intro t ht
    rw [hsum t ht, h₀ t, zero_sub]
  constructor
  · intro hall t ht
    have := hun t ht
    rw [hall t] at this
    omega
  · intro hlost t
    by_cases ht : t ∈ checkedIDs L qs
    · exact hfired t ht
    · rw [hun t ht, hlost t ht, neg_zero]

/-! ## 3. The migrated database -/

/-- The seed deposits are balanced. -/
theorem migrated_balanced (now : Time) (t : UUID) :
    doubleEntrySum (Db.migrated now).entries t = 0 := by
  rw [Db.migrated_eq]
  simp only [doubleEntrySum_cons, EntryRow.signed]
  show _ + (_ + (_ + (_ + (_ + (_ + 0))))) = (0 : Int)
  split_ifs <;> ring

/-- Both legs of Charlie's deposit are deleted, those of Alice's get another amount. -/
def tidyStatements : List EntriesSql :=
  [.delete fun e => e.transactionID == seedDepositID 3,
    .update (fun e => e.transactionID == seedDepositID 1) fun e => { e with amount := 70000 }]

theorem tidyStatements_isSome :
    (runEntries (Db.migrated 0).toLedger tidyStatements).isSome = true := by
  decide +kernel

/-- A transaction that meets the condition: what it takes away from an unchecked id sums to zero. -/
theorem schema_balanced_tidy :
    ∃ entries, runEntries (Db.migrated 0).toLedger tidyStatements = some entries ∧
      ∀ t, doubleEntrySum entries t = 0 := by
  have hrun := (Option.some_get tidyStatements_isSome).symm
  have hlost : lostRows (Db.migrated 0).toLedger tidyStatements =
      [⟨5, seedDepositID 3, externalAccountID, .debit, seedAmount, 0⟩,
        ⟨6, seedDepositID 3, charlieID, .credit, seedAmount, 0⟩] := by
    decide +kernel
  refine ⟨_, hrun, (schema_balanced_iff (migrated_balanced 0) hrun).mpr fun t _ => ?_⟩
  rw [hlost]
  simp only [doubleEntrySum_cons, EntryRow.signed]
  show _ + (_ + 0) = (0 : Int)
  split_ifs <;> ring

/-- **The trigger is bypassed**: one leg is deleted; or, with UPDATEs alone, the debit of Alice's
    deposit and the credit of Bob's are moved to Charlie's, which stays balanced. Both commit, and
    Alice's deposit is left with one leg. -/
theorem schema_unbalanced :
    (∃ entries, runEntries (Db.migrated 0).toLedger [.delete fun e => e.id == 1] = some entries ∧
      doubleEntrySum entries (seedDepositID 1) = seedAmount) ∧
    ∃ entries, runEntries (Db.migrated 0).toLedger
        [.update (fun e => e.id == 1 || e.id == 4) fun e =>
          { e with transactionID := seedDepositID 3 }] = some entries ∧
      doubleEntrySum entries (seedDepositID 1) = seedAmount := by
  have h₁ : (runEntries (Db.migrated 0).toLedger [.delete fun e => e.id == 1]).map
      (doubleEntrySum · (seedDepositID 1)) = some seedAmount := by
    decide +kernel
  have h₂ : (runEntries (Db.migrated 0).toLedger
      [.update (fun e => e.id == 1 || e.id == 4) fun e =>
        { e with transactionID := seedDepositID 3 }]).map
      (doubleEntrySum · (seedDepositID 1)) = some seedAmount := by
    decide +kernel
  exact ⟨Option.map_eq_some_iff.mp h₁, Option.map_eq_some_iff.mp h₂⟩

end BankingService
