/-
  File:      BankingService/Spec/Verdict.lean
  Subject:   THE ANSWER TO A REQUEST, without concurrency: what one call, alone on a ledger, has to
             return.

  `Request.verdict cfg L r` looks at the arguments, then for a header with the key, then at the
  ledger (`Request.judge`): the original of a reversal, the two accounts, the balance of the debited
  one, what the columns, the text type and the CHECK on the entries take, and whether the original
  is reversed already.

  Nothing here is translated from the source: it is what the answers of the machine are compared
  with.
-/
import BankingService.Lib.Table
import BankingService.Spec.Atomic

namespace BankingService

open Lib

/-! ## 1. Verdicts -/

/-- What the specification answers to a request. -/
inductive Verdict where
  /-- The key is on this header: its transaction is returned again. -/
  | replay (t : TransactionRow)
  | post (p : Posting)
  | reject (s : Sentinel)
  /-- The database does not take a value: a new balance, the key, or the amount of the entries. -/
  | refuse
  deriving DecidableEq, Repr

/-- What is wrong with the arguments alone. -/
def Request.invalid? : Request → Option Sentinel
  | .transfer srcID dstID amount _ _ =>
    if amount.units ≤ 0 then some .invalidAmount
    else if srcID = dstID then some .selfTransfer
    else if srcID = externalAccountID ∨ dstID = externalAccountID then some .systemAccount
    else none
  | .reverse .. => none
  | .deposit dstID amount _ _ =>
    if amount.units ≤ 0 then some .invalidAmount
    else if dstID = externalAccountID then some .systemAccount
    else none

/-- The move of money a request asks for. Only a transfer can be reversed. -/
def Request.plan (L : Ledger) : Request → Except Sentinel Posting
  | .transfer srcID dstID amount _ _ => .ok (transferPosting srcID dstID amount)
  | .deposit dstID amount _ _ => .ok (depositPosting dstID amount)
  | .reverse originalTxID _ _ =>
    match L.transaction? originalTxID, L.legsOf originalTxID with
    | none, _ => .error .transactionNotFound
    | some t, [d, c] =>
      if t.kind = .transfer then
        .ok (reversePosting d.accountID c.accountID (Money.ofColumn d.amount))
      else .error .notReversible
    | some _, _ => .error .notReversible

/-- A header refers to the transaction. -/
def Ledger.isReversed (L : Ledger) (id : UUID) : Bool :=
  L.transactions.any fun t => t.reversesTransactionID = some id

/-- The columns take the two new balances. -/
def Posting.balancesFit (p : Posting) (debited credited : AccountRow) : Bool :=
  (Column.driver.store (debited.balance - p.amount.units)).isSome &&
    (Column.driver.store (credited.balance + p.amount.units)).isSome

/-- The verdict on a move of money. -/
def Posting.judge (cfg : Config) (L : Ledger) (p : Posting) (key : GoString)
    (reverses : Option UUID) : Verdict :=
  match L.account? p.debitID, L.account? p.creditID with
  | some debited, some credited =>
    if p.checkFunds = true ∧ debited.balance < p.amount.units then .reject .insufficientFunds
    else if p.balancesFit debited credited = false then .refuse
    else if pgText key = false then .refuse
    else if reverses.any L.isReversed then .reject .alreadyReversed
    else if entryTakes cfg p.amount = false then .refuse
    else .post p
  | _, _ => .reject .accountNotFound

/-- The verdict on a request with a new key. -/
def Request.judge (cfg : Config) (L : Ledger) (r : Request) : Verdict :=
  match r.invalid?, r.plan L with
  | some s, _ => .reject s
  | none, .error s => .reject s
  | none, .ok p => p.judge cfg L r.key r.reverses

/-- **The verdict on a request.** A key that is no text is on no header. -/
def Request.verdict (cfg : Config) (L : Ledger) (r : Request) : Verdict :=
  match r.invalid?, L.transactionByKey? r.key with
  | some s, _ => .reject s
  | none, some t => if pgText r.key = true then .replay t else r.judge cfg L
  | none, none => r.judge cfg L

/-- The return is the verdict's: the transaction with the key and its entries, the header and the
    legs that were posted, or the error. -/
def Verdict.Answers (L : Ledger) (r : Request) : Verdict → Return → Prop
  | .replay t, ret =>
      ret = .existing { scanTransaction t with entries := listEntries L t.id } (listEntries L t.id)
  | .post p, ret => ∃ u, ret = .committed (r.txn u) (Work.legs ⟨p, r.txn u⟩)
  | .reject s, ret => ret = .failed (.sentinel s)
  | .refuse, ret => ∃ context e, ret = .failed (.wrapped context (.pg e))

/-! ## 2. Reading a verdict -/

section Judge

variable {cfg : Config} {L : Ledger} {r : Request} {p : Posting} {key : GoString}
  {reverses : Option UUID}

theorem Ledger.isReversed_iff {id : UUID} :
    L.isReversed id = true ↔ ∃ t ∈ L.transactions, t.reversesTransactionID = some id := by
  simp [Ledger.isReversed]

theorem Request.judge_invalid {s : Sentinel} (h : r.invalid? = some s) :
    r.judge cfg L = .reject s := by
  simp only [Request.judge, h]

theorem Request.judge_error {s : Sentinel} (hv : r.invalid? = none) (h : r.plan L = .error s) :
    r.judge cfg L = .reject s := by
  simp only [Request.judge, hv, h]

theorem Request.judge_plan (hv : r.invalid? = none) (h : r.plan L = .ok p) :
    r.judge cfg L = p.judge cfg L r.key r.reverses := by
  simp only [Request.judge, hv, h]

/-- With a new key the ledger decides. -/
theorem Request.verdict_new
    (h : pgText r.key = true → ∀ t ∈ L.transactions, t.idempotencyKey ≠ r.key) :
    r.verdict cfg L = r.judge cfg L := by
  unfold Request.verdict
  cases hv : r.invalid? with
  | some s => exact (Request.judge_invalid hv).symm
  | none =>
      cases ht : L.transactionByKey? r.key with
      | none => rfl
      | some t =>
          obtain ⟨hm, hk⟩ := mem_of_find_key ht
          exact if_neg fun hp => h hp t hm hk

/-- With a used one the transaction is returned again. -/
theorem Request.verdict_replay (hkeys : (L.transactions.map (·.idempotencyKey)).Nodup)
    (hv : r.invalid? = none) {t : TransactionRow} (ht : t ∈ L.transactions)
    (hk : t.idempotencyKey = r.key) (htext : pgText t.idempotencyKey = true) :
    r.verdict cfg L = .replay t := by
  have hfind : L.transactionByKey? r.key = some t := hk ▸ find_key hkeys ht
  simp only [Request.verdict, hv, hfind]
  exact if_pos (hk ▸ htext)

/-- An account that does not exist is the first thing to be found out. -/
theorem Posting.judge_missing
    (h : (∀ a ∈ L.accounts, a.id ≠ p.debitID) ∨ ∀ a ∈ L.accounts, a.id ≠ p.creditID) :
    p.judge cfg L key reverses = .reject .accountNotFound := by
  unfold Posting.judge
  rcases h with h | h
  · have hnone : L.account? p.debitID = none := find_key_none.mpr h
    rw [hnone]
  · have hnone : L.account? p.creditID = none := find_key_none.mpr h
    rw [hnone]
    cases L.account? p.debitID <;> rfl

/-- With both accounts there, their balances decide the rest. -/
theorem Posting.judge_found {da ca : AccountRow} (hd : L.account? p.debitID = some da)
    (hc : L.account? p.creditID = some ca) :
    p.judge cfg L key reverses =
      if p.checkFunds = true ∧ da.balance < p.amount.units then .reject .insufficientFunds
      else if p.balancesFit da ca = false then .refuse
      else if pgText key = false then .refuse
      else if reverses.any L.isReversed then .reject .alreadyReversed
      else if entryTakes cfg p.amount = false then .refuse
      else .post p := by
  simp only [Posting.judge, hd, hc]

end Judge

end BankingService
