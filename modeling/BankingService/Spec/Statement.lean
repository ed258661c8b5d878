/-
  File:      BankingService/Spec/Statement.lean
  Subject:   THE STATEMENT OF AN ACCOUNT: what its transactions add to its balance, in commit order.

  `Ledger.headersOf` lists the headers with an entry on an account in the order they were committed,
  because a commit appends. Their effects are the account's statement.

  * `headersOf_post`, `statement_post` -- a posting adds one line to the statements of its two
    accounts and none to any other.
  * `StatementOk` -- **the lines add up to the balance, and on the way the running balance of a user
    account is never negative**; kept by every call that moves exactly its amount
    (`statementOk_move`).
-/
import BankingService.Spec.Exact
import BankingService.Spec.Growth
import BankingService.Readers

namespace BankingService

open Lib

/-- What a transaction adds to the balance of an account. -/
def Ledger.effect (L : Ledger) (id : UUID) (t : TransactionRow) : Int :=
  (((L.legsOf t.id).filter fun e => e.accountID = id).map EntryRow.signed).sum

/-- The statement of an account: the effects of its transactions, in commit order. -/
def Ledger.statement (L : Ledger) (id : UUID) : List Int := (L.headersOf id).map (L.effect id)

theorem mem_headersOf {L : Ledger} {id : UUID} {t : TransactionRow} :
    t ∈ L.headersOf id ↔
      t ∈ L.transactions ∧ ∃ e ∈ L.entries, e.transactionID = t.id ∧ e.accountID = id := by
  simp [Ledger.headersOf, List.mem_filter]

/-! ## 1. A posting -/

section Post

variable {L : Ledger} {col : Column} {kind : TransactionKind} {key : GoString}
  {reverses : Option UUID} {debitID creditID : UUID} {amount : Int} {st : Stamp}

/-- The header of a posting comes last on its two accounts. -/
theorem headersOf_post (ht : ∀ t ∈ L.transactions, t.id ≠ st.txID)
    (he : ∀ e ∈ L.entries, e.transactionID ≠ st.txID) (id : UUID) :
    (L.post col kind key reverses debitID creditID amount st).headersOf id =
      L.headersOf id ++
        (if id = debitID ∨ id = creditID then [⟨st.txID, kind, key, reverses, st.now⟩]
          else []) := by
  have hold : ∀ t ∈ L.transactions,
      ((L.post col kind key reverses debitID creditID amount st).entries.any fun e =>
        decide (e.transactionID = t.id ∧ e.accountID = id)) =
      L.entries.any fun e => decide (e.transactionID = t.id ∧ e.accountID = id) := by
    intro t hmem
    simp [Ledger.post, (ht t hmem).symm]
  have hnew : ((L.post col kind key reverses debitID creditID amount st).entries.any fun e =>
      decide (e.transactionID = st.txID ∧ e.accountID = id)) =
      decide (id = debitID ∨ id = creditID) := by
    have hnone : (L.entries.any fun e => decide (e.transactionID = st.txID ∧ e.accountID = id)) =
        false := by
      refine List.any_eq_false.mpr fun e hmem => ?_
      simp [he e hmem]
    rw [show (L.post col kind key reverses debitID creditID amount st).entries = L.entries ++ _ from
      rfl, List.any_append, hnone]
    simp [eq_comm]
  unfold Ledger.headersOf
  rw [show (L.post col kind key reverses debitID creditID amount st).transactions =
    L.transactions ++ [⟨st.txID, kind, key, reverses, st.now⟩] from rfl, List.filter_append,
    List.filter_congr hold, List.filter_singleton, hnew]
  by_cases hid : id = debitID ∨ id = creditID
  · rw [if_pos hid, decide_eq_true hid]
    rfl
  · rw [if_neg hid, decide_eq_false hid]
    rfl

theorem effect_post_old {t : TransactionRow} (h : t.id ≠ st.txID) (id : UUID) :
    (L.post col kind key reverses debitID creditID amount st).effect id t = L.effect id t := by
  rw [Ledger.effect, legsOf_post_old _ _ _ _ _ _ _ _ _ h]
  rfl

theorem effect_post_new (he : ∀ e ∈ L.entries, e.transactionID ≠ st.txID) (hne : debitID ≠ creditID)
    (id : UUID) {t : TransactionRow} (h : t.id = st.txID) :
    (L.post col kind key reverses debitID creditID amount st).effect id t =
      delta debitID creditID (col.stored amount) id := by
  rw [Ledger.effect, h, legsOf_post_new _ _ _ _ _ _ _ _ _ he]
  by_cases hd : id = debitID
  · subst hd
    rw [delta_debit hne]
    simp [EntryRow.signed, hne.symm]
  · by_cases hc : id = creditID
    · subst hc
      rw [delta_credit hne]
      simp [EntryRow.signed, hne]
    · rw [delta_other hd hc]
      simp [Ne.symm hd, Ne.symm hc]

/-- **A posting adds one line to the statements of its two accounts.** -/
theorem statement_post (ht : ∀ t ∈ L.transactions, t.id ≠ st.txID)
    (he : ∀ e ∈ L.entries, e.transactionID ≠ st.txID) (hne : debitID ≠ creditID) (id : UUID) :
    (L.post col kind key reverses debitID creditID amount st).statement id =
      L.statement id ++ (if id = debitID ∨ id = creditID then
        [delta debitID creditID (col.stored amount) id] else []) := by
  have hold : (L.headersOf id).map
      ((L.post col kind key reverses debitID creditID amount st).effect id) = L.statement id :=
    List.map_congr_left fun t hmem => effect_post_old (ht t (mem_headersOf.mp hmem).1) id
  rw [Ledger.statement, headersOf_post ht he, List.map_append, hold]
  split
  · rw [List.map_singleton, effect_post_new he hne id rfl]
  · rfl

end Post

/-! ## 2. The invariant of the statements -/

/-- **The statements of a ledger**: the lines add up to the balance, and no running balance of a
    user account is negative. -/
structure StatementOk (L : Ledger) : Prop where
  total : ∀ a ∈ L.accounts, (L.statement a.id).sum = a.balance
  nonneg : ∀ a ∈ L.accounts, a.id ≠ externalAccountID → ∀ k, 0 ≤ ((L.statement a.id).take k).sum

/-- A list of at most one more line: its running sums are the old ones and its total. -/
theorem take_append_line {l m : List Int} (hm : m.length ≤ 1) (k : Nat) :
    (l ++ m).take k = l.take k ∨ (l ++ m).take k = l ++ m := by
  rcases le_or_gt k l.length with hk | hk
  · exact .inl (List.take_append_of_le_length hk)
  · refine .inr (List.take_of_length_le ?_)
    rw [List.length_append]
    omega

/-- An account that is not there has no statement. -/
theorem statement_unused {L : Ledger} (hI : LedgerInv L) {id : UUID}
    (h : ∀ a ∈ L.accounts, a.id ≠ id) : L.statement id = [] := by
  refine List.map_eq_nil_iff.mpr (List.eq_nil_iff_forall_not_mem.mpr fun t ht => ?_)
  obtain ⟨_, e, he, _, hid⟩ := mem_headersOf.mp ht
  obtain ⟨a, ha, e'⟩ := hI.entryAccount e he
  exact h a ha (e'.trans hid)

/-- A posting keeps the statements if it leaves no user account below zero: the only new running
    balance is the new balance. -/
theorem statementOk_post {L : Ledger} (hI : LedgerInv L) (hs : StatementOk L)
    {col : Column} {kind : TransactionKind} {key : GoString} {reverses : Option UUID}
    {debitID creditID : UUID} {amount : Int} {st : Stamp}
    (ht : ∀ t ∈ L.transactions, t.id ≠ st.txID) (hne : debitID ≠ creditID)
    (hbal : ∀ a ∈ L.accounts, col.balance debitID creditID amount a =
      a.balance + delta debitID creditID (col.stored amount) a.id)
    (hpos : ∀ b ∈ (L.post col kind key reverses debitID creditID amount st).accounts,
      b.id ≠ externalAccountID → 0 ≤ b.balance) :
    StatementOk (L.post col kind key reverses debitID creditID amount st) := by
  have hline : ∀ id, (L.post col kind key reverses debitID creditID amount st).statement id =
      L.statement id ++ (if id = debitID ∨ id = creditID then
        [delta debitID creditID (col.stored amount) id] else []) :=
    statement_post ht (entries_fresh hI ht) hne
  have hsum : ∀ b ∈ (L.post col kind key reverses debitID creditID amount st).accounts,
      ((L.post col kind key reverses debitID creditID amount st).statement b.id).sum =
        b.balance := by
    intro b hb
    obtain ⟨a, ha, rfl⟩ := (mem_post_accounts ..).mp hb
    show _ = col.balance debitID creditID amount a
    rw [hbal a ha, hline, List.sum_append, hs.total a ha]
    split
    · rw [List.sum_singleton]
    · rename_i hid
      rw [not_or] at hid
      rw [delta_other hid.1 hid.2, List.sum_nil]
  refine ⟨hsum, fun b hb hbe k => ?_⟩
  have hfull := hpos b hb hbe
  rw [← hsum b hb] at hfull
  obtain ⟨a, ha, rfl⟩ := (mem_post_accounts ..).mp hb
  rw [hline] at hfull ⊢
  rcases take_append_line (l := L.statement a.id) (m := if a.id = debitID ∨ a.id = creditID then
    [delta debitID creditID (col.stored amount) a.id] else []) (by split <;> simp) k with hk | hk
  · rw [hk]
    exact hs.nonneg a ha hbe k
  · rw [hk]
    exact hfull

/-- **Every call that moves exactly its amount keeps the statements.** -/
theorem statementOk_move {L L' : Ledger} (hI : LedgerInv L) (hs : StatementOk L) {c : Commit}
    (h : c.move L = some L') : StatementOk L' := by
  have hI' := inv_apply hI h
  cases c with
  | request r st =>
      obtain ⟨funds, debitID, creditID, amount, _, hp, rfl⟩ := apply_request h
      have hr : InRange amount := Column.exact_isSome.mp hp.2.2.2.2.2.1
      refine statementOk_post hI hs hp.2.2.2.1 hp.2.1 (fun a ha => ?_) hI'.nonneg
      rw [Column.exact.stored_eq hr]
      exact hp.balance_eq hI hr ha
  | createAccount id name =>
      obtain ⟨hnew, rfl⟩ := apply_createAccount h
      have hempty := statement_unused hI hnew
      refine ⟨forall_mem_snoc hs.total ?_, forall_mem_snoc hs.nonneg fun _ k => ?_⟩
      · show (L.statement id).sum = 0
        rw [hempty, List.sum_nil]
      · show 0 ≤ ((L.statement id).take k).sum
        rw [hempty, List.take_nil, List.sum_nil]

/-! ## 3. The start -/

/-- The statements of the migrated database: EXTERNAL has paid the three seed deposits. -/
theorem statement_migrated (now : Time) :
    (Db.migrated now).statement externalAccountID = [-seedAmount, -seedAmount, -seedAmount] ∧
      (Db.migrated now).statement aliceID = [seedAmount] ∧
      (Db.migrated now).statement bobID = [seedAmount] ∧
      (Db.migrated now).statement charlieID = [seedAmount] := by
  rw [Db.migrated_eq]
  exact ⟨rfl, rfl, rfl, rfl⟩

theorem statementOk_migrated (now : Time) : StatementOk (Db.migrated now).toLedger := by
  obtain ⟨hx, ha, hb, hc⟩ := statement_migrated now
  have hacc : (Db.migrated now).accounts = migratedAccounts := by rw [Db.migrated_eq]
  have hone : ∀ k, 0 ≤ ([seedAmount].take k).sum := by
    intro k
    cases k with
    | zero => decide
    | succ k =>
        rw [List.take_succ_cons, List.take_nil]
        decide
  refine ⟨fun a hm => ?_, fun a hm hne k => ?_⟩
  · rw [hacc] at hm
    simp only [migratedAccounts, List.mem_cons, List.not_mem_nil, or_false] at hm
    rcases hm with rfl | rfl | rfl | rfl
    · rw [hx]; decide
    · rw [ha]; decide
    · rw [hb]; decide
    · rw [hc]; decide
  · rw [hacc] at hm
    simp only [migratedAccounts, List.mem_cons, List.not_mem_nil, or_false] at hm
    rcases hm with rfl | rfl | rfl | rfl
    · exact absurd rfl hne
    · rw [ha]; exact hone k
    · rw [hb]; exact hone k
    · rw [hc]; exact hone k

end BankingService
