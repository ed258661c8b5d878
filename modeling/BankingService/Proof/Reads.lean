/-
  File:      BankingService/Proof/Reads.lean
  Subject:   READS ON TABLES THAT DO NOT CHANGE: what a list read returns is decided by its header
             query alone.

  * `Reading` -- after the header query a read is on its way to one list; its statements keep it on
    that way (`reading_step`), and they get there (`entries_run`).
  * `returns_iff` -- so the lists a read may return are those of the rows its header query may give;
    `responds_ok_iff` -- and a GET that answers with a list has no choice of it.
  * The order of `ListTransactions` is total, and the ids break its ties (`newestFirst_untied`).
-/
import BankingService.Http.Listing
import BankingService.Lib.Table

namespace BankingService

open Lib

/-! ## 1. After the header query -/

theorem scanTransaction_injective : Function.Injective scanTransaction := by
  intro r r' h
  cases r
  cases r'
  simpa [scanTransaction] using h

theorem Ledger.transactionOf_injective (L : Ledger) : Function.Injective L.transactionOf := by
  intro r r' h
  cases r
  cases r'
  simp only [transactionOf, scanTransaction, Transaction.mk.injEq] at h
  simp only [TransactionRow.mk.injEq]
  exact ⟨h.1, h.2.1, h.2.2.1, h.2.2.2.1, h.2.2.2.2.1⟩

theorem readMany_injective {rows rows' : List TransactionRow} (h : readMany rows = readMany rows') :
    rows = rows' := by
  simp only [readMany, ReadPhase.entries.injEq, true_and] at h
  exact scanTransaction_injective.list_map h

/-- The read will return `txns`, unless it fails. -/
def Reading (L : Ledger) (txns : List Transaction) : ReadPhase → Prop
  | .headers => False
  | .entries done todo =>
    ∃ rows : List TransactionRow,
      todo = rows.map scanTransaction ∧ done ++ rows.map L.transactionOf = txns
  | .returned txns' => txns' = txns
  | .failed _ => True

section Reading

variable {L : Ledger} {q : Read} {txns : List Transaction}

theorem reading_readMany (rows : List TransactionRow) :
    Reading L (rows.map L.transactionOf) (readMany rows) :=
  ⟨rows, rfl, List.nil_append _⟩

theorem reading_step {p p' : ReadPhase} {ch : ReadChoice} (hp : Reading L txns p)
    (h : readStep L q p ch = some p') : Reading L txns p' := by
  cases p with
  | headers => exact hp.elim
  | returned txns' => cases h
  | failed e => cases h
  | entries done todo =>
      obtain ⟨rows, rfl, rfl⟩ := hp
      cases rows with
      | nil =>
          cases ch with
          | ok => cases h; exact (List.append_nil _).symm
          | rows rows => cases h
          | fail text => cases h
      | cons row rows =>
          cases ch with
          | ok => cases h; exact ⟨rows, rfl, List.append_assoc ..⟩
          | rows rows => cases h
          | fail text => cases h; trivial

/-- **The entries queries of a list**, where none of them fails. -/
theorem entries_run (L : Ledger) (q : Read) (rows : List TransactionRow) (done : List Transaction) :
    run (readStep L q) (.entries done (rows.map scanTransaction))
      (List.replicate (rows.length + 1) .ok) =
        some (.returned (done ++ rows.map L.transactionOf)) := by
  induction rows generalizing done with
  | nil => rw [List.map_nil, List.map_nil, List.append_nil]; rfl
  | cons row rows ih =>
      refine (ih (done ++ [L.transactionOf row])).trans ?_
      rw [List.append_assoc]
      rfl

/-- What the first statement of a list read comes to. -/
theorem headers_cases {ch : ReadChoice} {p : ReadPhase} (h : readStep L q .headers ch = some p)
    (hq : (∃ opts, q = .listTransactions opts) ∨
      ∃ id limit, q = .listTransactionsForAccount id limit) :
    (∃ e, p = .failed e) ∨ ∃ rows, p = readMany rows := by
  cases ch with
  | fail text => cases h; exact .inl ⟨_, rfl⟩
  | ok =>
      obtain ⟨opts, rfl⟩ | ⟨id, limit, rfl⟩ := hq
      · simp only [readStep, readHeaders] at h
        split at h
        · cases h; exact .inl ⟨_, rfl⟩
        · cases h; exact .inr ⟨_, rfl⟩
      · simp only [readStep, readHeaders] at h
        split at h
        · cases h; exact .inl ⟨_, rfl⟩
        · cases h
  | rows rows =>
      obtain ⟨opts, rfl⟩ | ⟨id, limit, rfl⟩ := hq
      · cases h
      · simp only [readStep, readRows] at h
        split at h
        · cases h; exact .inr ⟨_, rfl⟩
        · cases h

/-- **What a list read returns** are the rows of its header query, each with its entries. -/
theorem returns_iff (hq : (∃ opts, q = .listTransactions opts) ∨
      ∃ id limit, q = .listTransactionsForAccount id limit) :
    Returns L q txns ↔
      ∃ ch rows, readStep L q .headers ch = some (readMany rows) ∧
        txns = rows.map L.transactionOf := by
  constructor
  · intro h
    obtain ⟨chs, h⟩ := h
    cases chs with
    | nil => cases h
    | cons ch chs =>
        obtain ⟨p, hp, hrun⟩ := Option.bind_eq_some_iff.mp h
        obtain ⟨e, rfl⟩ | ⟨rows, rfl⟩ := headers_cases hp hq
        · cases chs <;> cases hrun
        · have hr : Reading L (rows.map L.transactionOf) (.returned txns) :=
            run_inv (fun _ _ _ => reading_step) (reading_readMany rows) hrun
          exact ⟨ch, rows, hp, hr⟩
  · intro h
    obtain ⟨ch, rows, hp, rfl⟩ := h
    refine ⟨ch :: List.replicate (rows.length + 1) .ok, ?_⟩
    rw [run_cons, hp]
    exact entries_run L q rows []

end Reading

/-- The history of an account on tables that do not change. -/
theorem listTransactionsForAccount_returns {L : Ledger} {id : UUID} {limit : Nat}
    {txns : List Transaction} :
    Returns L (.listTransactionsForAccount id limit) txns ↔
      ∃ rows, Newest limit (L.headersOf id) rows ∧ txns = rows.map L.transactionOf := by
  rw [returns_iff (.inr ⟨id, limit, rfl⟩)]
  have hlimit : (0 : Int) ≤ limit := Int.natCast_nonneg limit
  constructor
  · intro h
    obtain ⟨ch, rows, hp, rfl⟩ := h
    refine ⟨rows, ?_, rfl⟩
    cases ch with
    | ok =>
        simp only [readStep, readHeaders, if_neg (Int.not_lt.mpr hlimit)] at hp
        cases hp
    | rows rows' =>
        simp only [readStep, readRows, hlimit, true_and, Int.toNat_natCast] at hp
        split at hp
        · rename_i hn
          rw [← readMany_injective (Option.some.inj hp)]
          exact hn
        · cases hp
    | fail text => cases hp
  · intro h
    obtain ⟨rows, hn, rfl⟩ := h
    refine ⟨.rows rows, rows, ?_, rfl⟩
    simp only [readStep, readRows, hlimit, true_and, Int.toNat_natCast]
    exact if_pos hn

/-! ## 2. The responses of `GET /api/transactions` -/

/-- A list read on tables that do not change. -/
theorem listTransactions_returns {L : Ledger} {opts : ListTransactionsOpts}
    {txns : List Transaction} :
    Returns L (.listTransactions opts) txns ↔
      ∃ rows, listTransactions L opts = .ok rows ∧ txns = rows.map L.transactionOf := by
  rw [returns_iff (.inl ⟨opts, rfl⟩)]
  constructor
  · intro h
    obtain ⟨ch, rows, hp, rfl⟩ := h
    refine ⟨rows, ?_, rfl⟩
    cases ch with
    | ok =>
        simp only [readStep, readHeaders] at hp
        split at hp
        · cases hp
        · rename_i rows' hrows'
          rw [hrows', readMany_injective (Option.some.inj hp)]
    | rows rows => cases hp
    | fail text => cases hp
  · intro h
    obtain ⟨rows, hrows, rfl⟩ := h
    refine ⟨.ok, rows, ?_, rfl⟩
    simp only [readStep, readHeaders, hrows]

theorem listResponse_ok {p : ReadPhase} {txns : List Transaction} :
    p.listResponse = some (.ok txns) ↔ p = .returned txns := by
  cases p <;> simp [ReadPhase.listResponse]

/-- **The list of a response with status 200** is the one the queries give where none of them
    fails. -/
theorem responds_ok_iff (L : Ledger) (q : ListQuery) (txns : List Transaction) :
    Responds L q (.ok txns) ↔ getTransactions L q = .ok txns := by
  unfold Responds getTransactions
  cases listAllTransactions q with
  | error e => exact eq_comm
  | ok opts =>
      simp only [listResponse_ok, exists_eq_right]
      rw [← Returns, listTransactions_returns]
      cases listTransactions L opts with
      | error e => simp
      | ok rows => simp [eq_comm]

/-! ## 3. Two orders -/

section Orders

variable {L : Ledger} {rows : List TransactionRow}

instance : Std.Total newestFirst := by
  refine ⟨fun t t' => ?_⟩
  unfold newestFirst
  rcases Nat.lt_trichotomy t.createdAt t'.createdAt with h | h | h
  · exact .inr (.inl h)
  · rcases Nat.le_total t.id.toNat t'.id.toNat with hid | hid
    · exact .inr (.inr ⟨h, hid⟩)
    · exact .inl (.inr ⟨h.symm, hid⟩)
  · exact .inl (.inl h)

instance : IsTrans TransactionRow newestFirst := by
  refine ⟨fun t t' t'' h h' => ?_⟩
  rcases h with h | ⟨h, hid⟩
  · rcases h' with h' | ⟨h', _⟩
    · exact .inl (Nat.lt_trans h' h)
    · exact .inl (h' ▸ h)
  · rcases h' with h' | ⟨h', hid'⟩
    · exact .inl (h ▸ h')
    · exact .inr ⟨h'.trans h, Nat.le_trans hid' hid⟩

/-- The ids break every tie. -/
theorem newestFirst_untied (h : (rows.map (·.id)).Nodup) : Untied newestFirst rows := by
  intro t ht t' ht' h₁ h₂
  refine row_unique h ht ht' (BitVec.eq_of_toNat_eq ?_)
  rcases h₁ with h₁ | ⟨e, h₁⟩
  · rcases h₂ with h₂ | ⟨e, _⟩
    · exact absurd h₂ (Nat.lt_asymm h₁)
    · exact absurd e (Nat.ne_of_gt h₁)
  · rcases h₂ with h₂ | ⟨_, h₂⟩
    · exact absurd e (Nat.ne_of_gt h₂)
    · exact Nat.le_antisymm h₂ h₁

end Orders

end BankingService
