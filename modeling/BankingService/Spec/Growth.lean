/-
  File:      BankingService/Spec/Growth.lean
  Subject:   THE LEDGER ONLY GROWS: what a call has read outside its transaction stays true.

  No call deletes or rewrites a header, an entry, or an account's id, name or flag; balances are the
  only thing a commit overwrites. `Ledger.Extends L L'` says so for two ledgers.

  * `extends_apply` -- every atomic call extends the ledger, with the balances of all accounts but
    its own two untouched (`post_frame`).
  * `listEntries_eq` -- the query for the entries of a header gives its two legs, debit first;
    `Ledger.Extends.listEntries` -- and gives the same ever after.
  * `replay_keys` -- the idempotency keys of the headers are the keys of the commits.
-/
import BankingService.Spec.AtomicInv

namespace BankingService

open Lib

/-- `L'` has what `L` has: accounts keep everything but their balance, headers and their legs
    stay as they are. -/
structure Ledger.Extends (L L' : Ledger) : Prop where
  account : ∀ a ∈ L.accounts,
    ∃ b ∈ L'.accounts, b.id = a.id ∧ b.name = a.name ∧ b.isSystem = a.isSystem
  transaction : ∀ t ∈ L.transactions, t ∈ L'.transactions
  legs : ∀ t ∈ L.transactions, L'.legsOf t.id = L.legsOf t.id

/-! ## 1. Atomic calls extend the ledger -/

theorem Ledger.Extends.refl (L : Ledger) : L.Extends L :=
  ⟨fun a ha => ⟨a, ha, rfl, rfl, rfl⟩, fun _ h => h, fun _ _ => rfl⟩

theorem Ledger.Extends.trans {L₁ L₂ L₃ : Ledger} (h : L₁.Extends L₂) (h' : L₂.Extends L₃) :
    L₁.Extends L₃ := by
  refine ⟨fun a ha => ?_, fun t ht => h'.transaction t (h.transaction t ht), fun t ht => ?_⟩
  · obtain ⟨b, hb, e₁, e₂, e₃⟩ := h.account a ha
    obtain ⟨c, hc, f₁, f₂, f₃⟩ := h'.account b hb
    exact ⟨c, hc, f₁.trans e₁, f₂.trans e₂, f₃.trans e₃⟩
  · rw [h'.legs t (h.transaction t ht), h.legs t ht]

theorem extends_post (L : Ledger) (col : Column) (kind : TransactionKind) (key : GoString)
    (reverses : Option UUID) (debitID creditID : UUID) (amount : Int) {st : Stamp}
    (hid : ∀ t ∈ L.transactions, t.id ≠ st.txID) :
    L.Extends (L.post col kind key reverses debitID creditID amount st) := by
  refine ⟨fun a ha => ?_, fun t ht => List.mem_append_left _ ht, fun t ht => ?_⟩
  · exact ⟨_, (mem_post_accounts ..).mpr ⟨a, ha, rfl⟩, rfl, rfl, rfl⟩
  · exact legsOf_post_old _ _ _ _ _ _ _ _ _ (hid t ht)

/-- **An atomic call extends the ledger.** -/
theorem extends_apply {L L' : Ledger} {c : Commit} (h : c.apply L = some L') : L.Extends L' := by
  cases c with
  | request r st =>
      obtain ⟨_, _, _, _, _, hc, rfl⟩ := apply_request h
      exact extends_post _ _ _ _ _ _ _ _ hc.2.2.2.1
  | createAccount id name =>
      obtain ⟨_, rfl⟩ := apply_createAccount h
      exact ⟨fun a ha => ⟨a, List.mem_append_left _ ha, rfl, rfl, rfl⟩, fun _ h => h,
        fun _ _ => rfl⟩

/-- The rows a posting does not name are untouched. -/
theorem post_frame {L : Ledger} {debitID creditID : UUID} {a : AccountRow} (ha : a ∈ L.accounts)
    (hd : a.id ≠ debitID) (hc : a.id ≠ creditID) (kind : TransactionKind) (key : GoString)
    (reverses : Option UUID) (amount : Int) (st : Stamp) (col : Column) :
    a ∈ (L.post col kind key reverses debitID creditID amount st).accounts := by
  refine (mem_post_accounts ..).mpr ⟨a, ha, ?_⟩
  rw [balance_other col hd hc]

/-! ## 2. The entries of a header -/

/-- **The entries query of a committed header** gives its two legs, the debit first, each with the
    name of its account. -/
theorem listEntries_eq {L : Ledger} (hI : LedgerInv L) {t : TransactionRow}
    (ht : t ∈ L.transactions) :
    ∃ d c x y, L.legsOf t.id = [d, c] ∧ LegsOk t d c ∧ x ∈ L.accounts ∧ x.id = d.accountID ∧
      y ∈ L.accounts ∧ y.id = c.accountID ∧
      listEntries L t.id = [scanEntry d x.name, scanEntry c y.name] := by
  obtain ⟨d, c, hl, hok⟩ := hI.legs t ht
  have hmem : ∀ e ∈ L.legsOf t.id, ∃ a ∈ L.accounts, a.id = e.accountID :=
    fun e he => hI.entryAccount e (List.mem_of_mem_filter he)
  obtain ⟨x, hx, hxid⟩ := hmem d (by rw [hl]; exact List.mem_cons_self)
  obtain ⟨y, hy, hyid⟩ := hmem c (by rw [hl]; exact List.mem_cons_of_mem _ List.mem_cons_self)
  refine ⟨d, c, x, y, hl, hok, hx, hxid, hy, hyid, ?_⟩
  have hsort : [d, c].insertionSort (fun e e' => e.id ≤ e'.id) = [d, c] := by
    simp [List.insertionSort, hok.order.le]
  unfold listEntries
  rw [hl, hsort]
  simp [← hxid, ← hyid, hI.account_mem hx, hI.account_mem hy]

/-- **The entries of a header never change**, names included. -/
theorem Ledger.Extends.listEntries {L L' : Ledger} (h : L.Extends L') (hI : LedgerInv L)
    (hI' : LedgerInv L') {t : TransactionRow} (ht : t ∈ L.transactions) :
    listEntries L' t.id = listEntries L t.id := by
  obtain ⟨d, c, x, y, hl, _, hx, hxid, hy, hyid, e⟩ := listEntries_eq hI ht
  obtain ⟨d', c', x', y', hl', _, hx', hxid', hy', hyid', e'⟩ :=
    listEntries_eq hI' (h.transaction t ht)
  rw [h.legs t ht, hl] at hl'
  cases hl'
  have hname : ∀ {a b : AccountRow}, a ∈ L.accounts → b ∈ L'.accounts → b.id = a.id →
      b.name = a.name := by
    intro a b ha hb hab
    obtain ⟨b', hb', hid, hn, _⟩ := h.account a ha
    rw [row_unique hI'.accountIDs hb hb' (hab.trans hid.symm)]
    exact hn
  rw [e, e', hname hx hx' (hxid'.trans hxid.symm), hname hy hy' (hyid'.trans hyid.symm)]

/-! ## 3. The keys of a history -/

/-- The idempotency key a commit books. -/
def Commit.key? : Commit → Option GoString
  | .request r _ => some r.key
  | .createAccount _ _ => none

/-- A commit appends its header. -/
theorem apply_transactions {L L' : Ledger} {c : Commit} (h : c.apply L = some L') :
    L.transactions <+: L'.transactions := by
  cases c with
  | request r st =>
      obtain ⟨_, _, _, _, _, _, rfl⟩ := apply_request h
      exact List.prefix_append _ _
  | createAccount id name =>
      obtain ⟨_, rfl⟩ := apply_createAccount h
      exact List.prefix_refl _

/-- A commit's header has an id that no header had. -/
theorem apply_fresh {L L' : Ledger} {r : Request} {st : Stamp}
    (h : (Commit.request r st).apply L = some L') : ∀ t ∈ L.transactions, t.id ≠ st.txID := by
  obtain ⟨_, _, _, _, _, hc, _⟩ := apply_request h
  exact hc.2.2.2.1

theorem apply_keys {L L' : Ledger} {c : Commit} (h : c.apply L = some L') :
    L'.transactions.map (·.idempotencyKey) =
      L.transactions.map (·.idempotencyKey) ++ c.key?.toList := by
  cases c with
  | request r st =>
      obtain ⟨_, _, _, _, _, _, rfl⟩ := apply_request h
      simp [Ledger.post, Commit.key?]
  | createAccount id name =>
      obtain ⟨_, rfl⟩ := apply_createAccount h
      simp [Commit.key?]

/-- Every commit of a history adds one header with its own key, and nothing else does. -/
theorem replay_keys {L L' : Ledger} {h : List (Nat × Commit)} (hr : replay L h = some L') :
    L'.transactions.map (·.idempotencyKey) =
      L.transactions.map (·.idempotencyKey) ++ h.filterMap (·.2.key?) := by
  induction h generalizing L with
  | nil =>
      cases hr
      simp
  | cons e h ih =>
      obtain ⟨m, hm, hr⟩ := Option.bind_eq_some_iff.mp hr
      rw [ih hr, apply_keys hm, List.append_assoc]
      cases hk : e.2.key? <;> simp [hk]

end BankingService
