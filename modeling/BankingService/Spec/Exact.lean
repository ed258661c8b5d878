/-
  File:      BankingService/Spec/Exact.lean
  Subject:   THE LEDGER ADDS UP, as long as the columns store what is sent.

  * **`move_of_apply`** -- a call through the driver moves exactly its amount, if the amount of a
    deposit is below what the driver can send. Transfers and reversals need no such condition: what
    they move is covered by a balance.
  * **`exact_move`** -- a call that moves exactly its amount keeps `LedgerExact`;
    `exact_migrated` -- the start; `exact_replay` -- a whole history.
  * `balance_le_external` -- with all user balances non-negative and the total zero, no balance
    exceeds what EXTERNAL owes. This is what bounds every credit (`MoveOk.credit_inRange`).
-/
import BankingService.Spec.AtomicInv

namespace BankingService

open Lib

/-! ## 1. From the driver to exact columns -/

section Move

variable {L L' : Ledger} {col : Column} {funds : Bool} {kind : TransactionKind} {key : GoString}
  {reverses : Option UUID} {debitID creditID : UUID} {amount : Int} {st : Stamp}

/-- A sum of two numbers in range that the column takes is in range. -/
theorem Column.sum_inRange {a b : Int} (ha : InRange a) (hb : InRange b)
    (h : (col.store (a + b)).isSome = true) : InRange (a + b) := by
  refine col.inRange_of_isSome ?_ h
  obtain ⟨ha₁, ha₂⟩ := ha
  obtain ⟨hb₁, hb₂⟩ := hb
  omega

theorem InRange.neg {n : Int} (h : InRange n) : InRange (-n) := by
  obtain ⟨h₁, h₂⟩ := h
  exact ⟨by omega, by omega⟩

/-- The two new balances of a posting of an amount in range are in range. -/
theorem CanPost.balances_inRange (hI : LedgerInv L)
    (hp : CanPost L col funds key debitID creditID amount st) (hr : InRange amount) :
    ∀ a ∈ L.accounts, a.id = debitID ∨ a.id = creditID →
      InRange (a.balance + delta debitID creditID amount a.id) := by
  obtain ⟨_, hne, _, _, _, _, ⟨c, hc, hcid, hcs⟩, x, hx, hxid, _, hxs⟩ := hp
  rintro a ha (hd | hd)
  · rw [row_unique hI.accountIDs ha hx (hd.trans hxid.symm), hxid, delta_debit hne]
    rw [sub_eq_add_neg] at hxs
    exact Column.sum_inRange (hI.range x hx) hr.neg hxs
  · rw [row_unique hI.accountIDs ha hc (hd.trans hcid.symm), hcid, delta_credit hne]
    exact Column.sum_inRange (hI.range c hc) hr hcs

/-- The balances after a posting of an amount in range. -/
theorem CanPost.balance_eq (hI : LedgerInv L)
    (hp : CanPost L col funds key debitID creditID amount st) (hr : InRange amount)
    {a : AccountRow} (ha : a ∈ L.accounts) :
    col.balance debitID creditID amount a = a.balance + delta debitID creditID amount a.id := by
  unfold Column.balance
  split
  · rename_i hid
    exact col.stored_eq (hp.balances_inRange hI hr a ha hid)
  · rename_i hid
    rw [not_or] at hid
    rw [delta_other hid.1 hid.2, Int.add_zero]

/-- A posting of an amount in range may commit on exact columns too. -/
theorem CanPost.exact (hI : LedgerInv L) (hp : CanPost L col funds key debitID creditID amount st)
    (hr : InRange amount) : CanPost L .exact funds key debitID creditID amount st := by
  have hbal := hp.balances_inRange hI hr
  obtain ⟨hpos, hne, hord, hid, hkey, _, ⟨c, hc, hcid, _⟩, x, hx, hxid, hfunds, _⟩ := hp
  refine ⟨hpos, hne, hord, hid, hkey, Column.exact_isSome.mpr hr, ⟨c, hc, hcid, ?_⟩, x, hx, hxid,
    hfunds, ?_⟩
  · have h := hbal c hc (.inr hcid)
    rw [hcid, delta_credit hne] at h
    exact Column.exact_isSome.mpr h
  · have h := hbal x hx (.inl hxid)
    rw [hxid, delta_debit hne] at h
    exact Column.exact_isSome.mpr h

/-- And it leaves the same ledger. -/
theorem CanPost.post_eq (hI : LedgerInv L) (hp : CanPost L col funds key debitID creditID amount st)
    (hr : InRange amount) :
    L.post col kind key reverses debitID creditID amount st =
      L.post .exact kind key reverses debitID creditID amount st := by
  have haccounts : ∀ a ∈ L.accounts, col.balance debitID creditID amount a =
      Column.exact.balance debitID creditID amount a := fun a ha =>
    (hp.balance_eq hI hr ha).trans ((hp.exact hI hr).balance_eq hI hr ha).symm
  unfold Ledger.post
  rw [col.stored_eq hr, Column.exact.stored_eq hr,
    List.map_congr_left fun a ha => by rw [haccounts a ha]]

/-- Only a deposit moves more than a balance covers. -/
theorem posting_funds {r : Request} (h : r.posting? L = some (funds, debitID, creditID, amount)) :
    funds = true ∨ ∃ dstID m k q, r = .deposit dstID m k q ∧ amount = m.units := by
  cases r with
  | transfer srcID dstID m k q =>
      simp only [Request.posting?] at h
      split at h
      · cases h
        exact .inl rfl
      · cases h
  | deposit dstID m k q =>
      simp only [Request.posting?] at h
      split at h
      · cases h
        exact .inr ⟨_, m, k, q, rfl, rfl⟩
      · cases h
  | reverse orig k q =>
      simp only [Request.posting?] at h
      split at h
      · split at h
        · cases h
          exact .inl rfl
        · cases h
      · cases h

/-- What a sendable call moves is in range. -/
theorem posting_inRange (hI : LedgerInv L) {r : Request} (hs : r.sendable = true)
    (h : r.posting? L = some (funds, debitID, creditID, amount))
    (hp : CanPost L .driver funds key debitID creditID amount st) : InRange amount := by
  rcases posting_funds h with hf | ⟨dstID, m, k, q, rfl, rfl⟩
  · exact hp.amount_inRange hI hf
  · have htaken := hp.2.2.2.2.2.1
    rw [Column.driver_store (Money.sendable_iff.mp hs)] at htaken
    split at htaken
    · assumption
    · cases htaken

/-- **A sendable call moves exactly its amount.** -/
theorem move_of_apply (hI : LedgerInv L) {c : Commit} (hs : c.sendable = true)
    (h : c.apply L = some L') : c.move L = some L' := by
  cases c with
  | request r st =>
      obtain ⟨funds, debitID, creditID, amount, hpost, hp, rfl⟩ := apply_request h
      have hr := posting_inRange hI hs hpost hp
      simp only [Commit.applyTo, hpost]
      rw [if_pos (hp.exact hI hr), hp.post_eq hI hr]
  | createAccount id name => exact h

end Move

/-! ## 2. Balances -/

/-- The accounts after an amount is moved. -/
def Ledger.moved (L : Ledger) (debitID creditID : UUID) (amount : Int) : List AccountRow :=
  L.accounts.map fun a => { a with balance := a.balance + delta debitID creditID amount a.id }

section Balances

variable {L : Ledger} {debitID creditID : UUID} {amount : Int}

/-- Moving an amount between two accounts of the ledger keeps the total. -/
theorem moved_total (hid : (L.accounts.map (·.id)).Nodup)
    (hd : ∃ a ∈ L.accounts, a.id = debitID) (hc : ∃ a ∈ L.accounts, a.id = creditID) :
    ((L.moved debitID creditID amount).map (·.balance)).sum = L.total := by
  obtain ⟨a, ha, rfl⟩ := hd
  obtain ⟨b, hb, rfl⟩ := hc
  have h₁ : (L.accounts.map fun x => if x.id = b.id then amount else 0).sum = amount :=
    sum_ite_key hid hb amount
  have h₂ : (L.accounts.map fun x => -(if x.id = a.id then amount else 0)).sum = -amount := by
    refine Eq.trans (congrArg List.sum (List.map_congr_left fun x _ => ?_))
      (sum_ite_key hid ha (-amount))
    by_cases hx : x.id = a.id
    · simp [hx]
    · simp [hx]
  have h₃ : ((L.moved a.id b.id amount).map (·.balance)).sum =
      (L.accounts.map fun x => x.balance + ((if x.id = b.id then amount else 0) +
        -(if x.id = a.id then amount else 0))).sum := by
    unfold Ledger.moved delta
    simp only [List.map_map, Function.comp_def, sub_eq_add_neg]
  rw [h₃, List.sum_map_add, List.sum_map_add, h₁, h₂]
  unfold Ledger.total
  ring

/-- **No user balance exceeds what EXTERNAL owes**: all other balances are non-negative and the
    total is zero. -/
theorem balance_le_external {accounts : List AccountRow}
    (h0 : (accounts.map (·.balance)).sum = 0)
    (hp : ∀ a ∈ accounts, a.id ≠ externalAccountID → 0 ≤ a.balance)
    (hid : (accounts.map (·.id)).Nodup) {a x : AccountRow} (ha : a ∈ accounts)
    (hx : x ∈ accounts) (hxid : x.id = externalAccountID) (hax : a ≠ x) :
    a.balance ≤ -x.balance := by
  have h := add_le_sum (·.balance) ha hx hax (fun c hc _ hcx => hp c hc fun e =>
    hcx (row_unique hid hc hx (e.trans hxid.symm))) (List.Nodup.of_map _ hid)
  linarith

/-- What moving an amount asks of the accounts alone: both exist and differ, EXTERNAL is not
    credited, a user account covers what it is debited, and the debited balance fits its column. -/
structure MoveOk (L : Ledger) (debitID creditID : UUID) (amount : Int) : Prop where
  positive : 0 < amount
  distinct : debitID ≠ creditID
  creditExternal : creditID ≠ externalAccountID
  creditor : ∃ a ∈ L.accounts, a.id = creditID
  debtor : ∃ a ∈ L.accounts, a.id = debitID ∧ (debitID ≠ externalAccountID → amount ≤ a.balance) ∧
    -numericBound < a.balance - amount

/-- User balances stay non-negative. -/
theorem MoveOk.nonneg (hI : LedgerInv L) (hm : MoveOk L debitID creditID amount) :
    ∀ b ∈ L.moved debitID creditID amount, b.id ≠ externalAccountID → 0 ≤ b.balance := by
  obtain ⟨hpos, hne, _, _, x, hx, hxid, hfunds, _⟩ := hm
  intro b hb hbe
  obtain ⟨a, ha, rfl⟩ := List.mem_map.mp hb
  have ha0 : 0 ≤ a.balance := hI.nonneg a ha hbe
  show 0 ≤ a.balance + delta debitID creditID amount a.id
  by_cases hd : a.id = debitID
  · have hax : a = x := row_unique hI.accountIDs ha hx (hd.trans hxid.symm)
    have := hfunds (hd ▸ hbe)
    rw [hd, delta_debit hne, hax]
    omega
  · by_cases hc : a.id = creditID
    · rw [hc, delta_credit hne]
      omega
    · rw [delta_other hd hc]
      omega

/-- **The credit of a move never overflows its column**, whatever the amount: EXTERNAL owes it. -/
theorem MoveOk.credit_inRange (hI : LedgerInv L) (h0 : L.total = 0)
    (hm : MoveOk L debitID creditID amount) {c : AccountRow} (hc : c ∈ L.accounts)
    (hcid : c.id = creditID) : InRange (c.balance + amount) := by
  have hnn := hm.nonneg hI
  obtain ⟨hpos, hne, hce, hcred, x, hx, hxid, _, hlow⟩ := hm
  have htot : ((L.moved debitID creditID amount).map (·.balance)).sum = 0 :=
    (moved_total hI.accountIDs ⟨x, hx, hxid⟩ hcred).trans h0
  have hids : ((L.moved debitID creditID amount).map (·.id)).Nodup := by
    rw [Ledger.moved, List.map_map]
    exact hI.accountIDs
  have hmem : ∀ a ∈ L.accounts,
      { a with balance := a.balance + delta debitID creditID amount a.id } ∈
        L.moved debitID creditID amount := fun a ha => List.mem_map.mpr ⟨a, ha, rfl⟩
  obtain ⟨e, he, heid⟩ := hI.external
  have hle := balance_le_external htot hnn hids (hmem c hc) (hmem e he) heid
    fun h => hce (hcid.symm.trans ((congrArg AccountRow.id h).trans heid))
  have hc0 := hI.nonneg c hc (by rw [hcid]; exact hce)
  simp only [hcid, delta_credit hne] at hle
  -- EXTERNAL is the debited account, or keeps its balance
  have hext : -numericBound < e.balance + delta debitID creditID amount e.id := by
    by_cases hd : e.id = debitID
    · rw [row_unique hI.accountIDs he hx (hd.trans hxid.symm), hxid, delta_debit hne]
      omega
    · rw [delta_other hd fun h => hce (h.symm.trans heid)]
      have := (hI.range e he).1
      omega
  exact ⟨lt_of_lt_of_le (by decide) (by omega : 0 ≤ c.balance + amount), by omega⟩

end Balances

/-! ## 3. The ledger adds up -/

section Exact

variable {L L' : Ledger} {funds : Bool} {kind : TransactionKind} {key : GoString}
  {reverses : Option UUID} {debitID creditID : UUID} {amount : Int} {st : Stamp}

/-- **A posting on exact columns keeps the sums.** -/
theorem exact_post (hI : LedgerInv L) (hE : LedgerExact L)
    (hp : CanPost L .exact funds key debitID creditID amount st) :
    LedgerExact (L.post .exact kind key reverses debitID creditID amount st) := by
  have hr : InRange amount := Column.exact_isSome.mp hp.2.2.2.2.2.1
  have hstored := Column.exact.stored_eq hr
  refine ⟨?_, ?_, ?_⟩
  · intro b hb
    obtain ⟨a, ha, rfl⟩ := (mem_post_accounts ..).mp hb
    show Column.exact.balance debitID creditID amount a = _ - _
    rw [credits_post, debits_post, hstored, hp.balance_eq hI hr ha, hE.reconciled a ha]
    unfold delta
    ring
  · have hmoved : (L.post .exact kind key reverses debitID creditID amount st).accounts =
        L.moved debitID creditID amount :=
      List.map_congr_left fun a ha => by rw [hp.balance_eq hI hr ha]
    obtain ⟨_, _, _, _, _, _, ⟨c, hc, hcid, _⟩, x, hx, hxid, _⟩ := hp
    unfold Ledger.total
    rw [hmoved]
    exact (moved_total hI.accountIDs ⟨x, hx, hxid⟩ ⟨c, hc, hcid⟩).trans hE.zeroSum
  · intro e he
    rcases List.mem_append.mp he with he | he
    · exact hE.positive e he
    · simp only [List.mem_cons, List.not_mem_nil, or_false] at he
      rcases he with rfl | rfl
      · exact hstored.symm ▸ hp.1
      · exact hstored.symm ▸ hp.1

/-- A new account with balance zero keeps the sums: no entry names it. -/
theorem exact_createAccount (hI : LedgerInv L) (hE : LedgerExact L) {id : UUID} (name : GoString)
    (h : ∀ a ∈ L.accounts, a.id ≠ id) :
    LedgerExact { L with accounts := L.accounts ++ [⟨id, name, 0, false⟩] } := by
  have hsum : ∀ d : Direction,
      (L.entries.filter fun e => e.accountID = id ∧ e.direction = d) = [] := by
    intro d
    refine List.filter_eq_nil_iff.mpr fun e he => ?_
    obtain ⟨a, ha, e'⟩ := hI.entryAccount e he
    have : e.accountID ≠ id := fun h' => h a ha (e'.trans h')
    simp [this]
  refine ⟨forall_mem_snoc hE.reconciled ?_, ?_, hE.positive⟩
  · simp only [Ledger.credits, Ledger.debits, hsum, List.map_nil, List.sum_nil, Int.sub_self]
  · have := hE.zeroSum
    simpa [Ledger.total] using this

/-- **Every call that moves exactly its amount keeps the sums.** -/
theorem exact_move (hI : LedgerInv L) (hE : LedgerExact L) {c : Commit} (h : c.move L = some L') :
    LedgerExact L' := by
  cases c with
  | request r st =>
      obtain ⟨_, _, _, _, _, hp, rfl⟩ := apply_request h
      exact exact_post hI hE hp
  | createAccount id name =>
      obtain ⟨hnew, rfl⟩ := apply_createAccount h
      exact exact_createAccount hI hE name hnew

end Exact

/-- **And a replay of exact moves.** -/
theorem exact_replay {L L' : Ledger} (hI : LedgerInv L) (hE : LedgerExact L)
    {h : List (Nat × Commit)} (hr : replayExact L h = some L') : LedgerExact L' :=
  (run_inv (I := fun L => LedgerInv L ∧ LedgerExact L)
    (fun _ _ _ ⟨hI, hE⟩ hm => ⟨inv_apply hI hm, exact_move hI hE hm⟩) ⟨hI, hE⟩ hr).2

/-- The migrated database adds up. -/
theorem exact_migrated (now : Time) : LedgerExact (Db.migrated now).toLedger := by
  rw [Db.migrated_eq]
  refine ⟨?_, (by decide : (migratedAccounts.map (·.balance)).sum = 0), ?_⟩
  · simp [migratedAccounts, Ledger.credits, Ledger.debits, externalAccountID, aliceID, bobID,
      charlieID, seedAmount]
  · have hseed : 0 < seedAmount := by decide
    intro e he
    simp only [List.mem_cons, List.not_mem_nil, or_false] at he
    rcases he with rfl | rfl | rfl | rfl | rfl | rfl <;> exact hseed

end BankingService
