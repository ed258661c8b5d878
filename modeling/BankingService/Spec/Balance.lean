/-
  File:      BankingService/Spec/Balance.lean
  Subject:   WHAT A COMMIT DOES TO ONE BALANCE.

  * **`move_balance`** -- a call that moves exactly its amount moves the balance of an account by
    its effect, which is zero for every account the posting does not name;
  * `apply_balance_stays` -- where the effect is zero, no column changes;
  * `effect_external` -- EXTERNAL pays for deposits and for nothing else;
  * `userAccounts_sum` -- what the user accounts hold together is what EXTERNAL has paid.
-/
import BankingService.Spec.Exact

namespace BankingService

open Lib

/-- The balance of an account, zero where there is none. -/
def Ledger.balance (L : Ledger) (id : UUID) : Int := ((L.account? id).map (·.balance)).getD 0

/-- The posting of a commit: the debited account, the credited one and the amount. -/
def Commit.posting? (L : Ledger) : Commit → Option (UUID × UUID × Int)
  | .request r _ => (r.posting? L).map (·.2)
  | .createAccount _ _ => none

/-- What a commit adds to the balance of `id`. -/
def Commit.effect (L : Ledger) (c : Commit) (id : UUID) : Int :=
  match c.posting? L with
  | none => 0
  | some (debitID, creditID, amount) => delta debitID creditID amount id

/-- The amount a commit pays in. -/
def Commit.deposited : Commit → Int
  | .request (.deposit _ amount _ _) _ => amount.units
  | _ => 0

section Effect

variable {L L' : Ledger} {c : Commit}

theorem Ledger.balance_of_mem (hI : LedgerInv L) {a : AccountRow} (ha : a ∈ L.accounts) :
    L.balance a.id = a.balance := by
  rw [Ledger.balance, Ledger.account?, find_key hI.accountIDs ha]
  rfl

theorem Ledger.balance_none {id : UUID} (h : ∀ a ∈ L.accounts, a.id ≠ id) : L.balance id = 0 := by
  rw [Ledger.balance, Ledger.account?, find_key_none.mpr h]
  rfl

/-- The balances after a posting. -/
theorem post_balance (L : Ledger) (col : Column) (kind : TransactionKind) (key : GoString)
    (reverses : Option UUID) (debitID creditID : UUID) (amount : Int) (st : Stamp) (id : UUID) :
    (L.post col kind key reverses debitID creditID amount st).balance id =
      ((L.account? id).map (col.balance debitID creditID amount)).getD 0 := by
  simp only [Ledger.balance, Ledger.account?, Ledger.post, List.find?_map, Option.map_map]
  rfl

/-- A new account changes no balance. -/
theorem create_balance (L : Ledger) {newID : UUID} (name : GoString)
    (hnew : ∀ a ∈ L.accounts, a.id ≠ newID) (id : UUID) :
    ({ L with accounts := L.accounts ++ [⟨newID, name, 0, false⟩] } : Ledger).balance id =
      L.balance id := by
  rw [Ledger.balance, Ledger.account?, List.find?_append, List.find?_singleton]
  by_cases hid : newID = id
  · have hnone : L.accounts.find? (fun a => decide (a.id = id)) = none :=
      find_key_none.mpr (hid ▸ hnew)
    rw [hnone, Ledger.balance_none (hid ▸ hnew)]
    simp [hid]
  · simp [hid, Ledger.balance, Ledger.account?]

theorem effect_request {r : Request} {st : Stamp} {funds : Bool} {debitID creditID : UUID}
    {amount : Int} (hp : r.posting? L = some (funds, debitID, creditID, amount)) (id : UUID) :
    (Commit.request r st).effect L id = delta debitID creditID amount id := by
  rw [Commit.effect, Commit.posting?, hp]
  rfl

/-- **A call that moves exactly its amount moves every balance by its effect.** -/
theorem move_balance (hI : LedgerInv L) (h : c.move L = some L') (id : UUID) :
    L'.balance id = L.balance id + c.effect L id := by
  cases c with
  | request r st =>
      obtain ⟨funds, debitID, creditID, amount, hpost, hp, rfl⟩ := apply_request h
      rw [effect_request hpost, post_balance, Ledger.balance]
      cases ha : L.account? id with
      | none =>
          obtain ⟨_, _, _, _, _, _, ⟨ca, hca, hcid, _⟩, da, hda, hdid, _⟩ := hp
          have hno : ∀ a ∈ L.accounts, a.id ≠ id := find_key_none.mp ha
          rw [delta_other (fun e => hno da hda (hdid.trans e.symm))
            fun e => hno ca hca (hcid.trans e.symm)]
          rfl
      | some a =>
          obtain ⟨hmem, hid⟩ := mem_of_find_key ha
          have hr : InRange amount := Column.exact_isSome.mp hp.2.2.2.2.2.1
          rw [← hid]
          exact hp.balance_eq hI hr hmem
  | createAccount newID name =>
      obtain ⟨hnew, rfl⟩ := apply_createAccount h
      exact (create_balance L name hnew id).trans (add_zero _).symm

/-- **A balance that a call has no effect on stays**, whatever the columns store. -/
theorem apply_balance_stays {col : Column} (h : c.applyTo col L = some L') {id : UUID}
    (he : c.effect L id = 0) : L'.balance id = L.balance id := by
  cases c with
  | request r st =>
      obtain ⟨funds, debitID, creditID, amount, hpost, ⟨hpos, hne, _⟩, rfl⟩ := apply_request h
      rw [effect_request hpost] at he
      rw [post_balance, Ledger.balance]
      cases ha : L.account? id with
      | none => rfl
      | some a =>
          obtain ⟨_, hid⟩ := mem_of_find_key ha
          refine balance_other col (fun e => ?_) fun e => ?_
          · rw [← hid, e, delta_debit hne] at he
            omega
          · rw [← hid, e, delta_credit hne] at he
            omega
  | createAccount newID name =>
      obtain ⟨hnew, rfl⟩ := apply_createAccount h
      exact create_balance L name hnew id

/-- **EXTERNAL pays for deposits and for nothing else.** -/
theorem effect_external (hI : LedgerInv L) {col : Column} (h : c.applyTo col L = some L') :
    c.effect L externalAccountID = -c.deposited := by
  cases c with
  | request r st =>
      obtain ⟨funds, debitID, creditID, amount, hp, hc, rfl⟩ := apply_request h
      rw [effect_request hp]
      cases r with
      | transfer srcID dstID amount' key requestID =>
          simp only [Request.posting?] at hp
          split at hp
          · rename_i hne
            cases hp
            exact delta_other hne.1.symm hne.2.symm
          · cases hp
      | deposit dstID amount' key requestID =>
          simp only [Request.posting?] at hp
          split at hp
          · cases hp
            exact delta_debit hc.2.1
          · cases hp
      | reverse originalTxID key requestID =>
          simp only [Request.posting?] at hp
          split at hp
          · rename_i t d c ht hl
            split at hp
            · rename_i hkind
              cases hp
              have htm : t ∈ L.transactions := List.mem_of_find?_eq_some ht
              have htid : t.id = originalTxID := by simpa using List.find?_some ht
              obtain ⟨d', c', hl', hok⟩ := hI.legs t htm
              rw [htid, hl] at hl'
              cases hl'
              refine delta_other (fun e => hok.creditExternal e.symm) fun e => ?_
              have := hok.debitExternal.mp e.symm
              rw [hkind.1] at this
              cases this
            · cases hp
          · cases hp
  | createAccount newID name => rfl

end Effect

/-- **What the user accounts hold together is what EXTERNAL has paid.** -/
theorem userAccounts_sum {L : Ledger} (hI : LedgerInv L) (hE : LedgerExact L) :
    ((L.accounts.filter fun a => !a.isSystem).map (·.balance)).sum =
      -L.balance externalAccountID := by
  obtain ⟨x, hx, hxid⟩ := hI.external
  have hsystem : (L.accounts.filter fun a => a.isSystem) = [x] := by
    rw [← filter_key hI.accountIDs hx]
    refine List.filter_congr fun a ha => ?_
    rw [hxid, Bool.eq_iff_iff, hI.system a ha, decide_eq_true_eq]
  have hsplit := List.sum_map_filter_add_sum_map_filter_not
    (fun a : AccountRow => a.isSystem = true) (·.balance) L.accounts
  have hzero : (L.accounts.map (·.balance)).sum = 0 := hE.zeroSum
  simp only [Bool.decide_eq_true, Bool.not_eq_true, Bool.decide_eq_false, hsystem, hzero,
    List.map_cons, List.map_nil, List.sum_cons, List.sum_nil, add_zero] at hsplit
  rw [← hxid, Ledger.balance_of_mem hI hx]
  omega

end BankingService
