/-
  File:      BankingService/Spec/AtomicInv.lean
  Subject:   Every atomic call keeps the ledger invariant, and the migrated database has it.

  * `inv_post` -- a posting that may commit keeps every field of `LedgerInv`, given what the kind of
    the posting promises (`KindOk`). The columns are arbitrary: what they store of an amount is in
    range and has the sign of the amount, and what a user account pays is stored exactly, because
    its balance covers it.
  * `inv_apply` -- so does every committing call; `inv_migrated` -- the start.
-/
import BankingService.Lib.Table
import BankingService.Spec.Atomic

namespace BankingService

open Lib

/-! ## 1. Reading a ledger with the invariant -/

namespace LedgerInv

variable {L : Ledger} (hI : LedgerInv L)

include hI

theorem account_mem {a : AccountRow} (ha : a ∈ L.accounts) : L.account? a.id = some a :=
  find_key hI.accountIDs ha

theorem transaction_mem {t : TransactionRow} (ht : t ∈ L.transactions) :
    L.transaction? t.id = some t :=
  find_key hI.transactionIDs ht

end LedgerInv

/-- What a list of entries adds to an account. -/
def net (entries : List EntryRow) (id : UUID) : Int :=
  ((entries.filter (·.accountID = id)).map EntryRow.signed).sum

theorem net_cons (e : EntryRow) (es : List EntryRow) (id : UUID) :
    net (e :: es) id = (if e.accountID = id then e.signed else 0) + net es id := by
  unfold net
  by_cases h : e.accountID = id <;> simp [h]

/-- Credits minus debits is the signed sum. -/
theorem credits_sub_debits (L : Ledger) (id : UUID) :
    L.credits id - L.debits id = net L.entries id := by
  unfold Ledger.credits Ledger.debits
  induction L.entries with
  | nil => rfl
  | cons e es ih =>
      rw [net_cons, ← ih]
      by_cases ha : e.accountID = id
      · cases hd : e.direction <;> simp [ha, hd, EntryRow.signed] <;> ring
      · simp [ha]

theorem net_append (es es' : List EntryRow) (id : UUID) :
    net (es ++ es') id = net es id + net es' id := by
  unfold net
  rw [List.filter_append, List.map_append, List.sum_append]

theorem net_none {es : List EntryRow} {id : UUID} (h : ∀ e ∈ es, e.accountID ≠ id) :
    net es id = 0 := by
  unfold net
  rw [List.filter_eq_nil_iff.mpr fun e he => by simpa using h e he]
  rfl

/-- Entries split by a predicate. -/
theorem net_filter (p : EntryRow → Bool) (es : List EntryRow) (id : UUID) :
    net es id = net (es.filter p) id + net (es.filter fun e => !p e) id := by
  rw [← net_append]
  exact (((List.filter_append_perm p es).filter _).map _).sum_eq.symm

/-! ## 2. What a column stores -/

namespace Column

variable (col : Column) {n : Int}

theorem stored_of_some {k : Int} (h : col.store n = some k) : col.stored n = k := by
  rw [stored, h, Option.getD_some]

theorem stored_inRange (n : Int) : InRange (col.stored n) := by
  unfold stored
  cases h : col.store n with
  | none => exact (by decide : InRange 0)
  | some k => exact col.range h

theorem stored_nonneg (h : 0 ≤ n) : 0 ≤ col.stored n := by
  unfold stored
  cases hk : col.store n with
  | none => exact le_rfl
  | some k => exact col.nonneg h hk

/-- What is in range is stored as it is. -/
theorem store_inRange (h : InRange n) : col.store n = some n := by
  rw [col.small (by obtain ⟨h₁, h₂⟩ := h; omega), if_pos h]

theorem stored_eq (h : InRange n) : col.stored n = n := col.stored_of_some (col.store_inRange h)

/-- A number up to twice the range that the column takes is in range. -/
theorem inRange_of_isSome (hn : n.natAbs < 2 * numericBound.toNat)
    (h : (col.store n).isSome = true) : InRange n := by
  rw [col.small hn] at h
  split at h
  · assumption
  · cases h

/-- The driver is exact below its bound. -/
theorem driver_store (h : n.natAbs < Money.sendBound) :
    driver.store n = if InRange n then some n else none := by
  have hs : (Money.ofColumn n).sendable = true :=
    Money.sendable_iff.mpr (by rwa [Money.units_ofColumn])
  show ((Money.ofColumn n).toColumn 1).toOption = _
  rw [Money.toColumn_exact 1 hs, Money.units_ofColumn]
  split <;> rfl

/-- The driver on a `Money`. -/
theorem driver_toColumn (m : Money) : driver.store m.units = (m.toColumn 1).toOption := by
  show ((Money.ofColumn m.units).toColumn 1).toOption = _
  rw [Money.toColumn_congr (Money.units_ofColumn m.units)]

theorem driver_isSome (m : Money) : (driver.store m.units).isSome = m.storable := by
  rw [driver_toColumn, Money.storable]

theorem driver_stored (m : Money) : driver.stored m.units = m.stored := by
  rw [stored, driver_toColumn, Money.stored]

theorem exact_isSome : (exact.store n).isSome = true ↔ InRange n := by
  show (if InRange n then some n else none).isSome = true ↔ _
  split <;> simp_all

end Column

section Delta

variable {debitID creditID : UUID} {amount : Int}

theorem delta_debit (h : debitID ≠ creditID) : delta debitID creditID amount debitID = -amount := by
  simp [delta, h]

theorem delta_credit (h : debitID ≠ creditID) :
    delta debitID creditID amount creditID = amount := by
  simp [delta, h.symm]

theorem delta_other {id : UUID} (hd : id ≠ debitID) (hc : id ≠ creditID) :
    delta debitID creditID amount id = 0 := by
  simp [delta, hd, hc]

variable (col : Column) {a : AccountRow}

theorem balance_debit (h : debitID ≠ creditID) (ha : a.id = debitID) :
    col.balance debitID creditID amount a = col.stored (a.balance - amount) := by
  rw [Column.balance, if_pos (.inl ha), ha, delta_debit h, sub_eq_add_neg]

theorem balance_credit (h : debitID ≠ creditID) (ha : a.id = creditID) :
    col.balance debitID creditID amount a = col.stored (a.balance + amount) := by
  rw [Column.balance, if_pos (.inr ha), ha, delta_credit h]

theorem balance_other (hd : a.id ≠ debitID) (hc : a.id ≠ creditID) :
    col.balance debitID creditID amount a = a.balance := by
  rw [Column.balance, if_neg (not_or.mpr ⟨hd, hc⟩)]

end Delta

/-! ## 3. The tables after a posting -/

section Post

variable (L : Ledger) (col : Column) (kind : TransactionKind) (key : GoString)
  (reverses : Option UUID) (debitID creditID : UUID) (amount : Int) (st : Stamp)

theorem mem_post_accounts {b : AccountRow} :
    b ∈ (L.post col kind key reverses debitID creditID amount st).accounts ↔
      ∃ a ∈ L.accounts, b = { a with balance := col.balance debitID creditID amount a } := by
  simp only [Ledger.post, List.mem_map]
  exact ⟨fun ⟨a, ha, e⟩ => ⟨a, ha, e.symm⟩, fun ⟨a, ha, e⟩ => ⟨a, ha, e.symm⟩⟩

theorem post_account_ids :
    (L.post col kind key reverses debitID creditID amount st).accounts.map (·.id) =
      L.accounts.map (·.id) := by
  simp [Ledger.post, Function.comp_def]

/-- The legs of every other transaction stay. -/
theorem legsOf_post_old {id : UUID} (h : id ≠ st.txID) :
    (L.post col kind key reverses debitID creditID amount st).legsOf id = L.legsOf id := by
  simp [Ledger.legsOf, Ledger.post, List.filter_append, h.symm]

/-- The legs of the new transaction are the two that were added. -/
theorem legsOf_post_new (h : ∀ e ∈ L.entries, e.transactionID ≠ st.txID) :
    (L.post col kind key reverses debitID creditID amount st).legsOf st.txID =
      [⟨st.debitEntry, st.txID, debitID, .debit, col.stored amount, st.now⟩,
        ⟨st.creditEntry, st.txID, creditID, .credit, col.stored amount, st.now⟩] := by
  have h0 : L.entries.filter (fun e => decide (e.transactionID = st.txID)) = [] :=
    List.filter_eq_nil_iff.mpr fun e he => by simpa using h e he
  simp [Ledger.legsOf, Ledger.post, List.filter_append, h0]

theorem credits_post (id : UUID) :
    (L.post col kind key reverses debitID creditID amount st).credits id =
      L.credits id + (if id = creditID then col.stored amount else 0) := by
  by_cases h : id = creditID
  · simp [Ledger.credits, Ledger.post, List.filter_append, h]
  · simp [Ledger.credits, Ledger.post, List.filter_append, h, Ne.symm h]

theorem debits_post (id : UUID) :
    (L.post col kind key reverses debitID creditID amount st).debits id =
      L.debits id + (if id = debitID then col.stored amount else 0) := by
  by_cases h : id = debitID
  · simp [Ledger.debits, Ledger.post, List.filter_append, h]
  · simp [Ledger.debits, Ledger.post, List.filter_append, h, Ne.symm h]

end Post

/-! ## 4. A posting keeps the invariant -/

/-- What the kind of a posting promises: EXTERNAL pays exactly for deposits and is never credited,
    and a reversal mirrors a TRANSFER nobody has reversed. -/
structure KindOk (L : Ledger) (funds : Bool) (kind : TransactionKind) (reverses : Option UUID)
    (debitID creditID : UUID) (amount : Int) : Prop where
  unchecked : funds = false → debitID = externalAccountID
  debitExternal : debitID = externalAccountID ↔ kind = .deposit
  creditExternal : creditID ≠ externalAccountID
  reversal :
    (kind = .reversal ∧ ∃ o ∈ L.transactions, reverses = some o.id ∧ o.kind = .transfer ∧
      (∀ r ∈ L.transactions, r.reversesTransactionID ≠ some o.id) ∧
      ∃ d c, L.legsOf o.id = [d, c] ∧ debitID = c.accountID ∧ creditID = d.accountID ∧
        amount = d.amount ∧ amount = c.amount) ∨
    (kind ≠ .reversal ∧ reverses = none)

section InvPost

variable {L : Ledger} {col : Column} {funds : Bool} {kind : TransactionKind} {key : GoString}
  {reverses : Option UUID} {debitID creditID : UUID} {amount : Int} {st : Stamp}

/-- No entry of the ledger belongs to a transaction id the ledger does not have. -/
theorem entries_fresh (hI : LedgerInv L) (hid : ∀ t ∈ L.transactions, t.id ≠ st.txID) :
    ∀ e ∈ L.entries, e.transactionID ≠ st.txID := by
  intro e he h
  obtain ⟨t, ht, e'⟩ := hI.entryTransaction e he
  exact hid t ht (e'.trans h)

theorem KindOk.checks (hk : KindOk L funds kind reverses debitID creditID amount)
    (h : kind ≠ .deposit) : funds = true := by
  cases hf : funds with
  | false => exact absurd (hk.debitExternal.mp (hk.unchecked hf)) h
  | true => rfl

/-- What a user account pays is covered by its balance, and so in range. -/
theorem CanPost.amount_inRange (hI : LedgerInv L)
    (hp : CanPost L col funds key debitID creditID amount st) (hf : funds = true) :
    InRange amount := by
  obtain ⟨hpos, _, _, _, _, _, _, x, hx, _, hfunds, _⟩ := hp
  have hle := hfunds hf
  exact ⟨lt_trans (by decide) hpos, hle.trans_lt (hI.range x hx).2⟩

/-- User balances stay non-negative: the debited account covers the amount. -/
theorem post_nonneg (hI : LedgerInv L) (hp : CanPost L col funds key debitID creditID amount st)
    (hk : KindOk L funds kind reverses debitID creditID amount) :
    ∀ b ∈ (L.post col kind key reverses debitID creditID amount st).accounts,
      b.id ≠ externalAccountID → 0 ≤ b.balance := by
  obtain ⟨hpos, hne, _, _, _, _, _, x, hx, hxid, hfunds, _⟩ := hp
  intro b hb hbe
  obtain ⟨a, ha, rfl⟩ := (mem_post_accounts ..).mp hb
  have ha0 : 0 ≤ a.balance := hI.nonneg a ha hbe
  show 0 ≤ col.balance debitID creditID amount a
  by_cases hd : a.id = debitID
  · have hax : a = x := row_unique hI.accountIDs ha hx (hd.trans hxid.symm)
    have hle := hfunds (hk.checks fun e => hbe (hd.trans (hk.debitExternal.mpr e)))
    rw [balance_debit col hne hd]
    refine col.stored_nonneg ?_
    rw [hax]
    omega
  · by_cases hc : a.id = creditID
    · rw [balance_credit col hne hc]
      exact col.stored_nonneg (by omega)
    · rw [balance_other col hd hc]
      exact ha0

/-- Every balance fits its column: the new ones have been stored there. -/
theorem post_range (hI : LedgerInv L) :
    ∀ b ∈ (L.post col kind key reverses debitID creditID amount st).accounts,
      InRange b.balance := by
  intro b hb
  obtain ⟨a, ha, rfl⟩ := (mem_post_accounts ..).mp hb
  show InRange (col.balance debitID creditID amount a)
  unfold Column.balance
  split
  · exact col.stored_inRange _
  · exact hI.range a ha

/-- The new header and the old ones refer to what they should. -/
theorem post_reversal (hI : LedgerInv L) (hp : CanPost L col funds key debitID creditID amount st)
    (hk : KindOk L funds kind reverses debitID creditID amount) :
    ∀ t ∈ (L.post col kind key reverses debitID creditID amount st).transactions,
      ReversalOk (L.post col kind key reverses debitID creditID amount st) t := by
  have hid := hp.2.2.2.1
  refine forall_mem_snoc (fun t ht => ?_) ?_
  · rcases hI.reversal t ht with ⟨hr, o, ho, h₁, h₂, d, c, d', c', h₃, h₄, h₅⟩ | h
    · refine .inl ⟨hr, o, List.mem_append_left _ ho, h₁, h₂, d, c, d', c', ?_, ?_, h₅⟩
      · rw [legsOf_post_old _ _ _ _ _ _ _ _ _ (hid o ho)]
        exact h₃
      · rw [legsOf_post_old _ _ _ _ _ _ _ _ _ (hid t ht)]
        exact h₄
    · exact .inr h
  · rcases hk.reversal with ⟨hr, o, ho, h₁, h₂, _, d, c, h₃, h₄, h₅, h₆, h₇⟩ | h
    · have hstored : col.stored amount = amount :=
        col.stored_eq (hp.amount_inRange hI (hk.checks (by rw [hr]; exact fun e => by cases e)))
      refine .inl ⟨hr, o, List.mem_append_left _ ho, h₁, h₂, d, c, _, _, ?_,
        legsOf_post_new _ _ _ _ _ _ _ _ _ (entries_fresh hI hid), h₄, h₅, hstored.trans h₆,
        hstored.trans h₇⟩
      rw [legsOf_post_old _ _ _ _ _ _ _ _ _ (hid o ho)]
      exact h₃
    · exact .inr h

/-- No transaction is referred to twice. -/
theorem post_reversed (hI : LedgerInv L)
    (hk : KindOk L funds kind reverses debitID creditID amount) :
    ((L.post col kind key reverses debitID creditID amount st).transactions.filterMap
      (·.reversesTransactionID)).Nodup := by
  show ((L.transactions ++ [_]).filterMap _).Nodup
  rw [List.filterMap_append]
  rcases hk.reversal with ⟨_, o, _, h₁, _, hfree, _⟩ | ⟨_, h₁⟩
  · simp only [h₁, List.filterMap_cons, List.filterMap_nil]
    rw [← List.concat_eq_append]
    refine List.Nodup.concat (fun hm => ?_) hI.reversed
    obtain ⟨r, hr, e⟩ := List.mem_filterMap.mp hm
    exact hfree r hr e
  · simp only [h₁, List.filterMap_cons, List.filterMap_nil, List.append_nil]
    exact hI.reversed

/-- The two legs of a posting. -/
theorem post_legsOk (hI : LedgerInv L) (hp : CanPost L col funds key debitID creditID amount st)
    (hk : KindOk L funds kind reverses debitID creditID amount) :
    LegsOk ⟨st.txID, kind, key, reverses, st.now⟩
      ⟨st.debitEntry, st.txID, debitID, .debit, col.stored amount, st.now⟩
      ⟨st.creditEntry, st.txID, creditID, .credit, col.stored amount, st.now⟩ where
  debit := rfl
  credit := rfl
  amount := rfl
  nonneg := col.stored_nonneg hp.1.le
  pos h := by
    rw [col.stored_eq (hp.amount_inRange hI (hk.checks h))]
    exact hp.1
  accounts := hp.2.1
  order := hp.2.2.1
  debitExternal := hk.debitExternal
  creditExternal := hk.creditExternal

/-- **A posting that may commit keeps the ledger invariant.** -/
theorem inv_post (hI : LedgerInv L) (hp : CanPost L col funds key debitID creditID amount st)
    (hk : KindOk L funds kind reverses debitID creditID amount) :
    LedgerInv (L.post col kind key reverses debitID creditID amount st) := by
  have hlegs := post_legsOk hI hp hk
  have hmem := @mem_post_accounts L col kind key reverses debitID creditID amount st
  refine
    { accountIDs := ?_, external := ?_, system := ?_, transactionIDs := ?_, keys := ?_,
      reversed := post_reversed hI hk, legs := ?_, entryTransaction := ?_, entryAccount := ?_,
      nonneg := post_nonneg hI hp hk, range := post_range hI, reversal := post_reversal hI hp hk }
  all_goals obtain ⟨_, _, _, hid, hkey, _, ⟨c, hc, hcid, _⟩, x, hx, hxid, _⟩ := hp
  · rw [post_account_ids]
    exact hI.accountIDs
  · obtain ⟨e, he, heid⟩ := hI.external
    exact ⟨_, hmem.mpr ⟨e, he, rfl⟩, heid⟩
  · intro b hb
    obtain ⟨a, ha, rfl⟩ := hmem.mp hb
    exact hI.system a ha
  · exact nodup_key_snoc hI.transactionIDs hid
  · exact nodup_key_snoc hI.keys hkey
  · refine forall_mem_snoc (fun t ht => ?_) ?_
    · rw [legsOf_post_old _ _ _ _ _ _ _ _ _ (hid t ht)]
      exact hI.legs t ht
    · exact ⟨_, _, legsOf_post_new _ _ _ _ _ _ _ _ _ (entries_fresh hI hid), hlegs⟩
  · intro e he
    rcases List.mem_append.mp he with he | he
    · obtain ⟨t, ht, e'⟩ := hI.entryTransaction e he
      exact ⟨t, List.mem_append_left _ ht, e'⟩
    · refine ⟨_, List.mem_append_right _ (List.mem_singleton_self _), ?_⟩
      simp only [List.mem_cons, List.not_mem_nil, or_false] at he
      rcases he with rfl | rfl <;> rfl
  · intro e he
    rcases List.mem_append.mp he with he | he
    · obtain ⟨a, ha, e'⟩ := hI.entryAccount e he
      exact ⟨_, hmem.mpr ⟨a, ha, rfl⟩, e'⟩
    · simp only [List.mem_cons, List.not_mem_nil, or_false] at he
      rcases he with rfl | rfl
      · exact ⟨_, hmem.mpr ⟨x, hx, rfl⟩, hxid⟩
      · exact ⟨_, hmem.mpr ⟨c, hc, rfl⟩, hcid⟩

end InvPost

/-! ## 5. Atomic calls keep the invariant -/

/-- The postings of the three requests keep what their kinds promise. -/
theorem kindOk_of_posting {L : Ledger} (hI : LedgerInv L) {r : Request} {funds : Bool}
    {debitID creditID : UUID} {amount : Int}
    (h : r.posting? L = some (funds, debitID, creditID, amount)) :
    KindOk L funds r.kind r.reverses debitID creditID amount := by
  cases r with
  | transfer srcID dstID m k q =>
      simp only [Request.posting?] at h
      split at h
      · rename_i hne
        cases h
        exact ⟨fun h => (by cases h), ⟨fun h => absurd h hne.1, fun h => (by cases h)⟩, hne.2,
          .inr ⟨fun h => (by cases h), rfl⟩⟩
      · cases h
  | deposit dstID m k q =>
      simp only [Request.posting?] at h
      split at h
      · rename_i hne
        cases h
        exact ⟨fun _ => rfl, ⟨fun _ => rfl, fun _ => rfl⟩, hne, .inr ⟨fun h => (by cases h), rfl⟩⟩
      · cases h
  | reverse orig k q =>
      simp only [Request.posting?] at h
      split at h
      · rename_i t d c ht hl
        split at h
        · rename_i hc
          cases h
          obtain ⟨htm, hid⟩ := mem_of_find_key ht
          obtain ⟨d', c', hl', hok⟩ := hI.legs t htm
          rw [hid, hl] at hl'
          cases hl'
          have hd : d.accountID ≠ externalAccountID := fun e => by
            have := hok.debitExternal.mp e
            rw [hc.1] at this
            cases this
          refine ⟨fun h => (by cases h), ⟨fun h => absurd h hok.creditExternal,
            fun h => (by cases h)⟩, hd, .inl ⟨rfl, t, htm, by rw [hid]; rfl, hc.1, ?_, d, c, ?_,
            rfl, rfl, rfl, hok.amount.symm⟩⟩
          · rw [hid]
            exact hc.2
          · rw [hid]
            exact hl
        · cases h
      · cases h

/-- A new account with balance zero keeps the invariant. -/
theorem inv_createAccount {L : Ledger} (hI : LedgerInv L) {id : UUID} (name : GoString)
    (h : ∀ a ∈ L.accounts, a.id ≠ id) :
    LedgerInv { L with accounts := L.accounts ++ [⟨id, name, 0, false⟩] } := by
  have hne : id ≠ externalAccountID := by
    obtain ⟨e, he, heid⟩ := hI.external
    exact fun e' => h e he (heid.trans e'.symm)
  refine
    { accountIDs := ?_, external := ?_, system := ?_, transactionIDs := hI.transactionIDs,
      keys := hI.keys, reversed := hI.reversed, legs := hI.legs,
      entryTransaction := hI.entryTransaction, entryAccount := ?_, nonneg := ?_, range := ?_,
      reversal := hI.reversal }
  · exact nodup_key_snoc hI.accountIDs h
  · obtain ⟨e, he, heid⟩ := hI.external
    exact ⟨e, List.mem_append_left _ he, heid⟩
  · exact forall_mem_snoc hI.system ⟨fun h => (by cases h), fun h => absurd h hne⟩
  · intro e he
    obtain ⟨a, ha, e'⟩ := hI.entryAccount e he
    exact ⟨a, List.mem_append_left _ ha, e'⟩
  · exact forall_mem_snoc hI.nonneg fun _ => Int.le_refl 0
  · refine forall_mem_snoc hI.range ?_
    show InRange 0
    decide

section Apply

variable {L L' : Ledger} {col : Column}

/-- What a posting that commits is. -/
theorem apply_request {r : Request} {st : Stamp}
    (h : (Commit.request r st).applyTo col L = some L') :
    ∃ funds debitID creditID amount, r.posting? L = some (funds, debitID, creditID, amount) ∧
      CanPost L col funds r.key debitID creditID amount st ∧
      L' = L.post col r.kind r.key r.reverses debitID creditID amount st := by
  simp only [Commit.applyTo] at h
  split at h
  · cases h
  · rename_i funds debitID creditID amount hp
    split at h
    · rename_i hc
      cases h
      exact ⟨funds, debitID, creditID, amount, hp, hc, rfl⟩
    · cases h

/-- What a new account that commits is. -/
theorem apply_createAccount {id : UUID} {name : GoString}
    (h : (Commit.createAccount id name).applyTo col L = some L') :
    (∀ a ∈ L.accounts, a.id ≠ id) ∧
      L' = { L with accounts := L.accounts ++ [⟨id, name, 0, false⟩] } := by
  simp only [Commit.applyTo] at h
  split at h
  · cases h
  · rename_i hn
    cases h
    exact ⟨find_key_none.mp (Option.not_isSome_iff_eq_none.mp hn), rfl⟩

/-- **Every committing call keeps the ledger invariant.** -/
theorem inv_apply (hI : LedgerInv L) {c : Commit} (h : c.applyTo col L = some L') :
    LedgerInv L' := by
  cases c with
  | request r st =>
      obtain ⟨_, _, _, _, hp, hc, rfl⟩ := apply_request h
      exact inv_post hI hc (kindOk_of_posting hI hp)
  | createAccount id name =>
      obtain ⟨hnew, rfl⟩ := apply_createAccount h
      exact inv_createAccount hI name hnew

/-- The amounts of the entries fit their column. -/
def Ledger.AmountsInRange (L : Ledger) : Prop := ∀ e ∈ L.entries, InRange e.amount

/-- **Every committing call writes amounts in range.** -/
theorem amountsInRange_apply (ha : L.AmountsInRange) {c : Commit}
    (h : c.applyTo col L = some L') : L'.AmountsInRange := by
  cases c with
  | request r st =>
      obtain ⟨_, _, _, amount, _, _, rfl⟩ := apply_request h
      have hr := col.stored_inRange amount
      intro e he
      simp only [Ledger.post, List.mem_append, List.mem_cons, List.not_mem_nil, or_false] at he
      rcases he with he | rfl | rfl
      · exact ha e he
      · exact hr
      · exact hr
  | createAccount id name =>
      obtain ⟨_, rfl⟩ := apply_createAccount h
      exact ha

end Apply

/-! ## 6. The start -/

/-- The two legs of each seed deposit. -/
theorem seed_legsOk {id : UUID} (h : id ≠ externalAccountID) (txID : UUID) (key : GoString)
    (now : Time) (n : Nat) :
    LegsOk ⟨txID, .deposit, key, none, now⟩
      ⟨n, txID, externalAccountID, .debit, seedAmount, now⟩
      ⟨n + 1, txID, id, .credit, seedAmount, now⟩ :=
  have hpos : 0 < seedAmount := by decide
  ⟨rfl, rfl, rfl, hpos.le, fun _ => hpos, h.symm, Nat.lt_succ_self n,
    ⟨fun _ => rfl, fun _ => rfl⟩, h⟩

/-- **The migrated database has the ledger invariant.** -/
theorem inv_migrated (now : Time) : LedgerInv (Db.migrated now).toLedger := by
  obtain ⟨hk₁, hk₂, hk₃⟩ := seedKey_ne
  rw [Db.migrated_eq]
  refine
    { accountIDs := (by decide : (migratedAccounts.map (·.id)).Nodup)
      external := ⟨_, List.mem_cons_self, rfl⟩
      system := (by decide :
        ∀ a ∈ migratedAccounts, a.isSystem = true ↔ a.id = externalAccountID)
      transactionIDs := by simp [seedDepositID]
      keys := by simp [hk₁, hk₂, hk₃]
      reversed := List.nodup_nil
      legs := ?_
      entryTransaction := by simp
      entryAccount := by simp [migratedAccounts]
      nonneg := (by decide :
        ∀ a ∈ migratedAccounts, a.id ≠ externalAccountID → 0 ≤ a.balance)
      range := (by decide : ∀ a ∈ migratedAccounts, InRange a.balance)
      reversal := ?_ }
  · intro t ht
    simp only [List.mem_cons, List.not_mem_nil, or_false] at ht
    rcases ht with rfl | rfl | rfl
    · exact ⟨_, _, by simp [Ledger.legsOf, seedDepositID],
        @seed_legsOk aliceID (by decide) _ _ _ 1⟩
    · exact ⟨_, _, by simp [Ledger.legsOf, seedDepositID],
        @seed_legsOk bobID (by decide) _ _ _ 3⟩
    · exact ⟨_, _, by simp [Ledger.legsOf, seedDepositID],
        @seed_legsOk charlieID (by decide) _ _ _ 5⟩
  · intro t ht
    simp only [List.mem_cons, List.not_mem_nil, or_false] at ht
    rcases ht with rfl | rfl | rfl <;> exact .inr ⟨fun h => (by cases h), rfl⟩

/-- The database after 0001 and 0002 has the ledger invariant. -/
theorem inv_version2 : LedgerInv (migrate0002Up Db.empty).toLedger := by
  have hrow : ∀ a ∈ (migrate0002Up Db.empty).accounts,
      a = ⟨externalAccountID, bytes "EXTERNAL", 0, true⟩ := fun a ha => List.mem_singleton.mp ha
  refine
    { accountIDs := List.nodup_singleton _
      external := ⟨_, List.mem_singleton_self _, rfl⟩
      system := fun a ha => by rw [hrow a ha]; simp
      transactionIDs := List.nodup_nil
      keys := List.nodup_nil
      reversed := List.nodup_nil
      legs := fun t ht => absurd ht List.not_mem_nil
      entryTransaction := fun e he => absurd he List.not_mem_nil
      entryAccount := fun e he => absurd he List.not_mem_nil
      nonneg := fun a ha hx => absurd (congrArg AccountRow.id (hrow a ha)) hx
      range := fun a ha => by rw [hrow a ha]; decide
      reversal := fun t ht => absurd ht List.not_mem_nil }

theorem amountsInRange_migrated (now : Time) : (Db.migrated now).toLedger.AmountsInRange := by
  have hseed : InRange seedAmount := by decide
  rw [Db.migrated_eq]
  intro e he
  simp only [List.mem_cons, List.not_mem_nil, or_false] at he
  rcases he with rfl | rfl | rfl | rfl | rfl | rfl <;> exact hseed

end BankingService
