/-
  File:      BankingService/Spec/Atomic.lean
  Subject:   WHAT THE SERVICE IS FOR, without concurrency: each committing call as one atomic step
             on the three ledger tables.

  `Commit.applyTo col L c` is the ledger after the call `c`, `none` when the call must not commit on
  `L`. A posting checks that the header's id and key are new, that both accounts exist and differ,
  that the amount is positive and, unless EXTERNAL pays, covered; it then moves the amount between
  exactly the two accounts (`Ledger.post`: one header, two legs, nothing else). A reversal takes its
  accounts and its amount from the ledger itself.

  What the columns store of an amount and of the new balances is a parameter (`Column`). With
  `Column.exact` a posting moves exactly the amount (`Commit.move`); with `Column.driver` it moves
  what pgx sends of it (`Commit.apply`), which is the same below `10 ^ 131072`.

  Nothing here is translated from the source: it is the specification the machine is proved to
  refine.
-/
import BankingService.Machine
import BankingService.Proof.Numeric

namespace BankingService

/-! ## 1. Totals -/

namespace Ledger

/-- The sum of an account's CREDIT amounts. -/
def credits (L : Ledger) (id : UUID) : Int :=
  ((L.entries.filter fun e => e.accountID = id ∧ e.direction = .credit).map (·.amount)).sum

/-- The sum of an account's DEBIT amounts. -/
def debits (L : Ledger) (id : UUID) : Int :=
  ((L.entries.filter fun e => e.accountID = id ∧ e.direction = .debit).map (·.amount)).sum

/-- The sum of all balances, EXTERNAL included. -/
def total (L : Ledger) : Int := (L.accounts.map (·.balance)).sum

end Ledger

/-! ## 2. Columns -/

/-- **A `NUMERIC(20,4)` column as a call meets it**: what it stores of a number, `none` where the
    server refuses. What is stored is in range and not negative if the number is not; up to twice
    the range, a number is stored as it is or refused. -/
structure Column where
  store : Int → Option Int
  range : ∀ {n k : Int}, store n = some k → InRange k
  nonneg : ∀ {n k : Int}, 0 ≤ n → store n = some k → 0 ≤ k
  small : ∀ {n : Int}, n.natAbs < 2 * numericBound.toNat →
    store n = if InRange n then some n else none

namespace Column

/-- The column itself: what is in range, and nothing else. -/
def exact : Column where
  store n := if InRange n then some n else none
  range h := by
    split at h
    · cases h
      assumption
    · cases h
  nonneg h₀ h := by
    split at h
    · cases h
      exact h₀
    · cases h
  small _ := rfl

/-- The column behind the driver. -/
def driver : Column where
  store n := ((Money.ofColumn n).toColumn 1).toOption
  range {n k} h := by
    have hk : (Money.ofColumn n).stored = k := by rw [Money.stored, h, Option.getD_some]
    exact hk ▸ Money.stored_inRange _
  nonneg {n k} h₀ h := by
    have hk : (Money.ofColumn n).stored = k := by rw [Money.stored, h, Option.getD_some]
    exact hk ▸ Money.stored_nonneg _ (by rw [Money.units_ofColumn]; exact h₀)
  small h := by
    rw [Money.toColumn_exact 1 (Money.sendable_of_lt (by rw [Money.units_ofColumn]; exact h)),
      Money.units_ofColumn]
    split <;> rfl

/-- What the column holds afterwards, 0 where it refuses. -/
def stored (col : Column) (n : Int) : Int := (col.store n).getD 0

end Column

/-! ## 3. Postings -/

/-- What a posting adds to the balance of account `id`. -/
def delta (debitID creditID : UUID) (amount : Int) (id : UUID) : Int :=
  (if id = creditID then amount else 0) - (if id = debitID then amount else 0)

/-- The balance of an account after a posting: the columns are written one by one. -/
def Column.balance (col : Column) (debitID creditID : UUID) (amount : Int) (a : AccountRow) : Int :=
  if a.id = debitID ∨ a.id = creditID then
    col.stored (a.balance + delta debitID creditID amount a.id)
  else a.balance

/-- The ledger after one posting. -/
def Ledger.post (L : Ledger) (col : Column) (kind : TransactionKind) (key : GoString)
    (reverses : Option UUID) (debitID creditID : UUID) (amount : Int) (st : Stamp) : Ledger where
  accounts := L.accounts.map fun a => { a with balance := col.balance debitID creditID amount a }
  transactions := L.transactions ++ [⟨st.txID, kind, key, reverses, st.now⟩]
  entries := L.entries ++
    [⟨st.debitEntry, st.txID, debitID, .debit, col.stored amount, st.now⟩,
      ⟨st.creditEntry, st.txID, creditID, .credit, col.stored amount, st.now⟩]

/-- When a posting may commit. `funds` asks that the debited account covers the amount; the columns
    have to take the amount and the two new balances. -/
def CanPost (L : Ledger) (col : Column) (funds : Bool) (key : GoString) (debitID creditID : UUID)
    (amount : Int) (st : Stamp) : Prop :=
  0 < amount ∧ debitID ≠ creditID ∧ st.debitEntry < st.creditEntry ∧
  (∀ t ∈ L.transactions, t.id ≠ st.txID) ∧ (∀ t ∈ L.transactions, t.idempotencyKey ≠ key) ∧
  (col.store amount).isSome ∧
  (∃ a ∈ L.accounts, a.id = creditID ∧ (col.store (a.balance + amount)).isSome) ∧
  ∃ a ∈ L.accounts, a.id = debitID ∧ (funds = true → amount ≤ a.balance) ∧
    (col.store (a.balance - amount)).isSome

instance (L : Ledger) (col : Column) (funds : Bool) (key : GoString) (debitID creditID : UUID)
    (amount : Int) (st : Stamp) : Decidable (CanPost L col funds key debitID creditID amount st) :=
  inferInstanceAs (Decidable (_ ∧ _))

/-! ## 4. Atomic calls -/

/-- The posting of a request on a ledger: whether funds are asked for, the debited and the credited
    account, the amount. `none` where the request itself is refused. -/
def Request.posting? (L : Ledger) : Request → Option (Bool × UUID × UUID × Int)
  | .transfer srcID dstID amount _ _ =>
    if srcID ≠ externalAccountID ∧ dstID ≠ externalAccountID then
      some (true, srcID, dstID, amount.units)
    else none
  | .deposit dstID amount _ _ =>
    if dstID ≠ externalAccountID then some (false, externalAccountID, dstID, amount.units)
    else none
  | .reverse originalTxID _ _ =>
    match L.transaction? originalTxID, L.legsOf originalTxID with
    | some t, [d, c] =>
      if t.kind = .transfer ∧ ∀ r ∈ L.transactions, r.reversesTransactionID ≠ some originalTxID then
        some (true, c.accountID, d.accountID, d.amount)
      else none
    | _, _ => none

/-- What the header of a request refers to. -/
def Request.reverses : Request → Option UUID
  | .reverse originalTxID _ _ => some originalTxID
  | _ => none

/-- **One committing call as an atomic step**, on tables with the given columns. -/
def Commit.applyTo (col : Column) (L : Ledger) : Commit → Option Ledger
  | .request r st =>
    match r.posting? L with
    | none => none
    | some (funds, debitID, creditID, amount) =>
      if CanPost L col funds r.key debitID creditID amount st then
        some (L.post col r.kind r.key r.reverses debitID creditID amount st)
      else none
  | .createAccount id name =>
    if (L.account? id).isSome then none
    else some { L with accounts := L.accounts ++ [⟨id, name, 0, false⟩] }

/-- One committing call through the driver. -/
abbrev Commit.apply (L : Ledger) (c : Commit) : Option Ledger := c.applyTo .driver L

/-- One committing call that moves exactly the amount. -/
abbrev Commit.move (L : Ledger) (c : Commit) : Option Ledger := c.applyTo .exact L

/-- The ledger after a history of committing calls, one at a time; `none` if one of them must not
    commit where it stands. -/
abbrev replay (L : Ledger) (h : List (Nat × Commit)) : Option Ledger :=
  Lib.run (fun L e => e.2.apply L) L h

/-- The same with exactly the amounts moved. -/
abbrev replayExact (L : Ledger) (h : List (Nat × Commit)) : Option Ledger :=
  Lib.run (fun L e => e.2.move L) L h

/-- The driver sends the amount of a deposit as it is. What the other calls move is covered by a
    balance, and so small enough. -/
def Request.sendable : Request → Bool
  | .deposit _ amount _ _ => amount.sendable
  | _ => true

def Commit.sendable : Commit → Bool
  | .request r _ => r.sendable
  | .createAccount _ _ => true

/-! ## 5. The ledger invariant -/

/-- The two legs of a transaction: a DEBIT and a CREDIT of one amount on two accounts, EXTERNAL
    being debited by deposits alone and never credited. The amount is positive; only of a deposit
    may the driver leave nothing, where the CHECK is dropped. -/
structure LegsOk (t : TransactionRow) (d c : EntryRow) : Prop where
  debit : d.direction = .debit
  credit : c.direction = .credit
  amount : c.amount = d.amount
  nonneg : 0 ≤ d.amount
  pos : t.kind ≠ .deposit → 0 < d.amount
  accounts : d.accountID ≠ c.accountID
  order : d.id < c.id
  debitExternal : d.accountID = externalAccountID ↔ t.kind = .deposit
  creditExternal : c.accountID ≠ externalAccountID

/-- The legs `d' c'` are the legs `d c` with the accounts swapped. -/
def Mirrored (d c d' c' : EntryRow) : Prop :=
  d'.accountID = c.accountID ∧ c'.accountID = d.accountID ∧ d'.amount = d.amount ∧
    c'.amount = c.amount

/-- What a header refers to: a REVERSAL to a TRANSFER it mirrors, any other kind to nothing. -/
def ReversalOk (L : Ledger) (t : TransactionRow) : Prop :=
  (t.kind = .reversal ∧ ∃ o ∈ L.transactions, t.reversesTransactionID = some o.id ∧
    o.kind = .transfer ∧ ∃ d c d' c', L.legsOf o.id = [d, c] ∧ L.legsOf t.id = [d', c'] ∧
      Mirrored d c d' c') ∨
  (t.kind ≠ .reversal ∧ t.reversesTransactionID = none)

/-- **The ledger invariant**, which holds whatever the driver makes of the amounts. -/
structure LedgerInv (L : Ledger) : Prop where
  accountIDs : (L.accounts.map (·.id)).Nodup
  external : ∃ a ∈ L.accounts, a.id = externalAccountID
  system : ∀ a ∈ L.accounts, a.isSystem = true ↔ a.id = externalAccountID
  transactionIDs : (L.transactions.map (·.id)).Nodup
  keys : (L.transactions.map (·.idempotencyKey)).Nodup
  reversed : (L.transactions.filterMap (·.reversesTransactionID)).Nodup
  legs : ∀ t ∈ L.transactions, ∃ d c, L.legsOf t.id = [d, c] ∧ LegsOk t d c
  entryTransaction : ∀ e ∈ L.entries, ∃ t ∈ L.transactions, t.id = e.transactionID
  entryAccount : ∀ e ∈ L.entries, ∃ a ∈ L.accounts, a.id = e.accountID
  nonneg : ∀ a ∈ L.accounts, a.id ≠ externalAccountID → 0 ≤ a.balance
  range : ∀ a ∈ L.accounts, InRange a.balance
  reversal : ∀ t ∈ L.transactions, ReversalOk L t

/-- **The ledger adds up**: every balance is what the entries say, no money is made or lost, and
    every entry moves some. -/
structure LedgerExact (L : Ledger) : Prop where
  reconciled : ∀ a ∈ L.accounts, a.balance = L.credits a.id - L.debits a.id
  zeroSum : L.total = 0
  positive : ∀ e ∈ L.entries, 0 < e.amount

end BankingService
