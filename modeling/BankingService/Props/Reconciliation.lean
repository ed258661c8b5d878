/-
  File:      BankingService/Props/Reconciliation.lean
  Subject:   THE BOOKS OF EVERY REACHABLE STATE: balances, legs, totals, and what a reversal leaves.

  The structure is read off the ledger invariant (`LedgerInv`), which every run keeps
  (`ledgerInv_exec`), whatever the interleaving and whatever fails. The sums need more: the driver
  has to send what a deposit pays in, and a run whose deposits are below `10 ^ 131072` keeps them
  (`ledgerExact_exec`).

  * `ledger_reconciles` -- balances are credits minus debits, every header has its two legs,
    EXTERNAL pays for deposits only, and all balances sum to zero. `wrapped_books` -- not so after a
    deposit of `10 ^ 262144`.
  * `net_without_pair` -- a transfer and its reversal cancel on every account;
    `reversal_structure` -- reversals refer to transfers, one to one, mirror their legs, and the
    balances are those of the ledger without the pair, which `wrapped_pair` shows to need the bound.
-/
import BankingService.Proof.Alone
import BankingService.Proof.Sent

namespace BankingService

open Lib

/-- The ledger invariant in every state reached from the migrated database. -/
theorem ledgerInv_exec {cfg : Config} {now clock : Time} {acts : List Act} {s : St}
    (h : exec cfg (St.start (Db.migrated now) clock) acts = some s) : LedgerInv s.db.toLedger :=
  (inv_exec (inv_start cfg now clock) h).ledger

/-- It adds up if every deposit has been sendable. -/
theorem ledgerExact_exec {cfg : Config} {now clock : Time} {acts : List Act} {s : St}
    (h : exec cfg (St.start (Db.migrated now) clock) acts = some s)
    (hsend : ∀ a ∈ acts, a.sendable = true) : LedgerExact s.db.toLedger :=
  exec_exact (inv_start cfg now clock) (St.sendable_start _ _) (exact_migrated now) hsend h

/-! ## 1. Reconciliation -/

/-- **Ledger reconciliation**, as long as every deposit is below `10 ^ 131072`: in every reachable
    state (a) each balance is the sum of the account's credits minus the sum of its debits; (b) each
    header has exactly two legs, a DEBIT and a CREDIT of one positive amount on two accounts; (c)
    the debited account is EXTERNAL exactly for deposits, and no leg of a transfer or a reversal is
    on EXTERNAL; (d) all balances sum to zero. -/
theorem ledger_reconciles {cfg : Config} {now clock : Time} {acts : List Act} {s : St}
    (h : exec cfg (St.start (Db.migrated now) clock) acts = some s)
    (hsend : ∀ a ∈ acts, a.sendable = true) :
    (∀ a ∈ s.db.accounts, a.balance = s.db.credits a.id - s.db.debits a.id) ∧
    (∀ t ∈ s.db.transactions, ∃ d c, s.db.legsOf t.id = [d, c] ∧
      d.direction = .debit ∧ c.direction = .credit ∧ d.amount = c.amount ∧ 0 < d.amount ∧
      d.accountID ≠ c.accountID ∧
      (d.accountID = externalAccountID ↔ t.kind = .deposit) ∧
      (t.kind = .transfer ∨ t.kind = .reversal →
        d.accountID ≠ externalAccountID ∧ c.accountID ≠ externalAccountID)) ∧
    s.db.total = 0 := by
  have hI := ledgerInv_exec h
  have hE := ledgerExact_exec h hsend
  refine ⟨hE.reconciled, fun t ht => ?_, hE.zeroSum⟩
  obtain ⟨d, c, hl, hok⟩ := hI.legs t ht
  have hd : d ∈ s.db.legsOf t.id := hl ▸ List.mem_cons_self
  refine ⟨d, c, hl, hok.debit, hok.credit, hok.amount.symm,
    hE.positive d (List.mem_of_mem_filter hd), hok.accounts, hok.debitExternal,
    fun hk => ⟨fun e => ?_, hok.creditExternal⟩⟩
  have hdep := hok.debitExternal.mp e
  rcases hk with hk | hk <;> (rw [hk] at hdep; cases hdep)

/-- Reconciliation after the sample run. -/
theorem ledger_reconciles_sample :
    (∀ a ∈ sampleEnd.db.accounts,
      a.balance = sampleEnd.db.credits a.id - sampleEnd.db.debits a.id) ∧
      sampleEnd.db.total = 0 := by
  have hsend : ∀ a ∈ sampleRun, a.sendable = true := by decide +kernel
  exact ⟨(ledger_reconciles sampleRun_exec hsend).1, (ledger_reconciles sampleRun_exec hsend).2.2⟩

/-- **Books that do not add up**: the deposit of `10 ^ 262144` to Dora is booked as 1 and takes what
    EXTERNAL owes from `10 ^ 8` to 1. Then EXTERNAL owes less than its entries say, and the balances
    sum to `10 ^ 8`. -/
theorem wrapped_books :
    ∃ s, exec Config.migrated (St.start (Db.migrated 0) 1000) wrapRun = some s ∧
      (∃ a ∈ s.db.accounts, a.id = externalAccountID ∧ a.balance = -10000 ∧
        s.db.credits a.id - s.db.debits a.id = -1000000010000) ∧
      s.db.total = 1000000000000 := by
  obtain ⟨s, hrun, hledger⟩ := wrapRun_exec
  refine ⟨s, hrun, ?_⟩
  rw [hledger]
  decide +kernel

/-! ## 2. Pairs that cancel -/

/-- The ledger with the headers `ids` and their entries removed. -/
def Ledger.without (L : Ledger) (ids : List UUID) : Ledger :=
  { L with
    transactions := L.transactions.filter fun t => !ids.contains t.id
    entries := L.entries.filter fun e => !ids.contains e.transactionID }

/-- The entries of two headers and the rest make up all entries. -/
theorem net_split (L : Ledger) {o t : UUID} (hne : o ≠ t) (id : UUID) :
    net L.entries id =
      net (L.without [o, t]).entries id + (net (L.legsOf o) id + net (L.legsOf t) id) := by
  unfold Ledger.without Ledger.legsOf
  simp only
  induction L.entries with
  | nil => rfl
  | cons e es ih =>
      by_cases ho : e.transactionID = o
      · simp [ho, hne, net_cons, ih]
        ring
      · by_cases ht : e.transactionID = t
        · simp [ht, net_cons, ih, hne.symm]
          ring
        · simp [ho, ht, net_cons, ih]
          ring

/-- Two pairs of legs with swapped accounts cancel on every account. -/
theorem net_mirrored {t t' : TransactionRow} {d c d' c' : EntryRow} (h : LegsOk t d c)
    (h' : LegsOk t' d' c') (hm : Mirrored d c d' c') (id : UUID) :
    net [d, c] id + net [d', c'] id = 0 := by
  obtain ⟨ha, hb, hd, hc⟩ := hm
  have hdc := h.amount
  simp only [net_cons, EntryRow.signed, h.debit, h.credit, h'.debit, h'.credit, ha, hb, hd, hc]
  by_cases h₁ : d.accountID = id <;> by_cases h₂ : c.accountID = id <;> simp [net, h₁, h₂, hdc]

/-- A header that refers to another one, with the two pairs of legs. -/
theorem LedgerInv.pair {L : Ledger} (hI : LedgerInv L) {t : TransactionRow}
    (ht : t ∈ L.transactions) {o : UUID} (ho : t.reversesTransactionID = some o) :
    t.kind = .reversal ∧ ∃ x ∈ L.transactions, x.id = o ∧ x.kind = .transfer ∧ o ≠ t.id ∧
      ∃ d c d' c', L.legsOf o = [d, c] ∧ L.legsOf t.id = [d', c'] ∧ LegsOk x d c ∧
        LegsOk t d' c' ∧ Mirrored d c d' c' := by
  rcases hI.reversal t ht with ⟨hk, x, hx, hr, hxk, d, c, d', c', hl, hl', hm⟩ | ⟨_, hn⟩
  · rw [ho] at hr
    cases hr
    refine ⟨hk, x, hx, rfl, hxk, fun e => ?_, d, c, d', c', hl, hl', ?_, ?_, hm⟩
    · rw [row_unique hI.transactionIDs hx ht e, hk] at hxk
      cases hxk
    · obtain ⟨_, _, hl₁, hok⟩ := hI.legs x hx
      rw [hl] at hl₁
      cases hl₁
      exact hok
    · obtain ⟨_, _, hl₁, hok⟩ := hI.legs t ht
      rw [hl'] at hl₁
      cases hl₁
      exact hok
  · rw [ho] at hn
    cases hn

/-- **A transfer and its reversal cancel**: every balance is that of the ledger without both. -/
theorem net_without_pair {L : Ledger} (hI : LedgerInv L) {t : TransactionRow}
    (ht : t ∈ L.transactions) {o : UUID} (ho : t.reversesTransactionID = some o) (id : UUID) :
    net (L.legsOf o) id + net (L.legsOf t.id) id = 0 ∧
      L.credits id - L.debits id =
        (L.without [o, t.id]).credits id - (L.without [o, t.id]).debits id := by
  obtain ⟨_, x, _, _, _, hne, d, c, d', c', hl, hl', hok, hok', hm⟩ := hI.pair ht ho
  have h0 : net (L.legsOf o) id + net (L.legsOf t.id) id = 0 := by
    rw [hl, hl']
    exact net_mirrored hok hok' hm id
  refine ⟨h0, ?_⟩
  rw [credits_sub_debits, credits_sub_debits, net_split L hne, h0, Int.add_zero]

/-! ## 3. Reversals -/

/-- **The structure of reversals**, in every reachable state: a REVERSAL refers to a TRANSFER whose
    legs it has with DEBIT and CREDIT swapped and the same amount; no other kind refers to anything;
    no transfer is referred to twice; and a transfer and its reversal contribute nothing to any
    account, so that, as long as every deposit is below `10 ^ 131072`, every balance is the one of
    the ledger with both removed. -/
theorem reversal_structure {cfg : Config} {now clock : Time} {acts : List Act} {s : St}
    (h : exec cfg (St.start (Db.migrated now) clock) acts = some s) :
    (∀ t ∈ s.db.transactions, t.kind = .reversal →
      ∃ o ∈ s.db.transactions, t.reversesTransactionID = some o.id ∧ o.kind = .transfer ∧
        ∃ d c d' c', s.db.legsOf o.id = [d, c] ∧ s.db.legsOf t.id = [d', c'] ∧
          d.direction = .debit ∧ c.direction = .credit ∧
          d'.direction = .debit ∧ c'.direction = .credit ∧
          d'.accountID = c.accountID ∧ c'.accountID = d.accountID ∧
          d'.amount = c.amount ∧ c'.amount = d.amount) ∧
    (∀ t ∈ s.db.transactions, t.kind ≠ .reversal → t.reversesTransactionID = none) ∧
    (∀ t ∈ s.db.transactions, ∀ t' ∈ s.db.transactions, ∀ o, t.reversesTransactionID = some o →
      t'.reversesTransactionID = some o → t = t') ∧
    (∀ t ∈ s.db.transactions, ∀ o, t.reversesTransactionID = some o → ∀ a ∈ s.db.accounts,
      net (s.db.legsOf o) a.id + net (s.db.legsOf t.id) a.id = 0 ∧
        ((∀ a ∈ acts, a.sendable = true) →
          a.balance = (s.db.without [o, t.id]).credits a.id -
            (s.db.without [o, t.id]).debits a.id)) := by
  have hI := ledgerInv_exec h
  refine ⟨fun t ht hk => ?_, fun t ht hk => ?_, fun t ht t' ht' o ho ho' => ?_,
    fun t ht o ho a ha => ?_⟩
  · rcases hI.reversal t ht with ⟨_, x, hx, hr, _⟩ | ⟨hn, _⟩
    · obtain ⟨_, y, hy, hyid, hyk, _, d, c, d', c', hl, hl', hok, hok', ha, hb, hd, hc⟩ :=
        hI.pair ht hr
      refine ⟨x, hx, hr, row_unique hI.transactionIDs hx hy hyid.symm ▸ hyk, d, c, d', c', hl, hl',
        hok.debit, hok.credit, hok'.debit, hok'.credit, ha, hb, ?_, ?_⟩
      · rw [hd, hok.amount]
      · rw [hc, hok.amount]
    · exact absurd hk hn
  · rcases hI.reversal t ht with ⟨hr, _⟩ | ⟨_, hn⟩
    · exact absurd hr hk
    · exact hn
  · exact eq_of_filterMap_nodup hI.reversed ht ht' ho ho'
  · obtain ⟨h0, he⟩ := net_without_pair hI ht ho a.id
    exact ⟨h0, fun hsend => ((ledgerExact_exec h hsend).reconciled a ha).trans he⟩

/-- After the sample run the reversal undoes the transfer: every balance is that of the ledger
    without the two. -/
theorem reversal_structure_sample :
    ∃ t ∈ sampleEnd.db.transactions, t.reversesTransactionID = some 100#128 ∧
      ∀ a ∈ sampleEnd.db.accounts, a.balance =
        (sampleEnd.db.without [100#128, t.id]).credits a.id -
          (sampleEnd.db.without [100#128, t.id]).debits a.id := by
  have hrow : ∃ t ∈ sampleEnd.db.transactions, t.reversesTransactionID = some 100#128 := by
    decide +kernel
  obtain ⟨t, ht, ho⟩ := hrow
  exact ⟨t, ht, ho, fun a ha =>
    ((reversal_structure sampleRun_exec).2.2.2 t ht _ ho a ha).2 (by decide +kernel)⟩

/-- **A pair that cancels in books that do not**: after the deposit of `10 ^ 262144` the balance of
    EXTERNAL is not that of the ledger without the transfer and its reversal. -/
theorem wrapped_pair :
    ∃ s, exec Config.migrated (St.start (Db.migrated 0) 1000) wrapRun = some s ∧
      ∃ t ∈ s.db.transactions, t.reversesTransactionID = some 100#128 ∧
        ∃ a ∈ s.db.accounts, a.balance = -10000 ∧
          (s.db.without [100#128, t.id]).credits a.id -
            (s.db.without [100#128, t.id]).debits a.id = -1000000010000 := by
  obtain ⟨s, hrun, hledger⟩ := wrapRun_exec
  refine ⟨s, hrun, ?_⟩
  rw [hledger]
  decide +kernel

end BankingService
