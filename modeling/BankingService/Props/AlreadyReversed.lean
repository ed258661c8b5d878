/-
  File:      BankingService/Props/AlreadyReversed.lean
  Subject:   THE SECOND REVERSAL of a transfer, with a new key: when it reports ErrAlreadyReversed,
             and what answers first when it does not.

  That a transfer is reversed already is found out by the header INSERT alone. The funds check on
  the original destination comes before it, and so do the UPDATE of the original source and the
  encoding of the key. So a second reversal is answered with ErrAlreadyReversed exactly when the
  destination still has the amount, the source can take it and the key is text
  (`already_reversed`); otherwise with ErrInsufficientFunds (`second_reversal_poor`) or with an
  internal error.

  * `next_beforeCheck` -- up to the funds check, which decides by the balance it finds;
    `next_refusing` -- past it, up to the index on the reversed transaction.
-/
import BankingService.Http.Handlers
import BankingService.Proof.Conflicts
import BankingService.Props.Progress

namespace BankingService

open Lib

/-! ## 1. A reversed transfer -/

/-- `T` is a transfer with the legs `d` and `c`, and a reversal of it is committed. -/
structure Reversed (L : Ledger) (T : UUID) (d c : EntryRow) : Prop where
  original : ∃ t ∈ L.transactions, t.id = T ∧ t.kind = .transfer
  legs : L.legsOf T = [d, c]
  reversal : ∃ t ∈ L.transactions, t.reversesTransactionID = some T

section Reversed

variable {L L' : Ledger} {T : UUID} {d c : EntryRow}

theorem Reversed.mono (he : L.Extends L') (h : Reversed L T d c) : Reversed L' T d c := by
  obtain ⟨t, ht, hid, hk⟩ := h.original
  obtain ⟨t', ht', hr⟩ := h.reversal
  refine ⟨⟨t, he.transaction t ht, hid, hk⟩, ?_, t', he.transaction t' ht', hr⟩
  rw [← hid, he.legs t ht, hid]
  exact h.legs

/-- The posting of a reversal of `T`: from the original destination back to the source. -/
theorem Reversed.posting (h : Reversed L T d c) {p : Posting} {key q : GoString}
    (hp : PostingOk L p (.reverse T key q)) :
    p = reversePosting d.accountID c.accountID (Money.ofColumn d.amount) := by
  obtain ⟨t, _, hid, _, d', c', hl, rfl⟩ := hp
  rw [hid, h.legs] at hl
  cases hl
  rfl

/-- The amount of a leg is no debt. -/
theorem Reversed.nonneg (hI : LedgerInv L) (h : Reversed L T d c) : 0 ≤ d.amount := by
  obtain ⟨t, ht, rfl, _⟩ := h.original
  obtain ⟨d', c', hl, hok⟩ := hI.legs t ht
  rw [h.legs] at hl
  cases hl
  exact hok.nonneg

end Reversed

/-! ## 2. The second reversal -/

/-- What answers past the funds check, for the new balance `n` of the original source: its UPDATE,
    or the header INSERT. -/
def refusal (key : GoString) (n : Int) : Err :=
  if InRange n then
    if pgText key = true then .sentinel .alreadyReversed
    else .wrapped "store.InsertReversalTransaction" (.pg invalidText)
  else .wrapped "store.UpdateBalance" (.pg numericOverflow)

theorem refusal_ne_conflict (key : GoString) (n : Int) :
    refusal key n ≠ .sentinel .idempotencyConflict := by
  unfold refusal
  split
  · split <;> simp
  · simp

section Second

variable {cfg : Config} {db : Db} {T : UUID} {d c : EntryRow} {key q : GoString} {ch : Choice}
  {p p' : Phase} {n : Int}

/-- On the way to the funds check. -/
def BeforeCheck : Phase → Prop
  | .lookup => True
  | .original _ => True
  | .originalEntries _ => True
  | .newID _ => True
  | .beginTx _ => True
  | .inTx _ _ .lock => True
  | .inTx w _ (.lockRow todo rows) => LockComplete w.posting todo rows
  | _ => False

/-- Past it, on the way to the index on the reversed transaction; `n` is the new balance of the
    original source. -/
def Refusing (key : GoString) (n : Int) : Phase → Prop
  | .inTx _ _ (.updateDebit _ newCredit) => newCredit.units = n ∧ newCredit.sendable = true
  | .inTx _ _ (.updateCredit newCredit) => newCredit.units = n ∧ newCredit.sendable = true
  | .inTx _ _ .insertHeader => InRange n
  | .inTx _ _ (.insertIndex todo) => InRange n ∧ pgText key = true ∧ .reverses ∈ todo
  | _ => False

/-- The call is at its funds check. -/
def AtCheck (p : Phase) : Prop := ∃ w tx rows, p = .inTx w tx (.lockRow [] rows)

/-- What the funds check decides, by the balances of the original destination `a` and the original
    source `b`. -/
def CheckVerdict (key : GoString) (d c : EntryRow) (db : Db) (p : Phase) : Prop :=
  ∃ a ∈ db.accounts, ∃ b ∈ db.accounts, a.id = c.accountID ∧ b.id = d.accountID ∧
    ((a.balance < d.amount ∧ Ends (.sentinel .insufficientFunds) p) ∨
      (d.amount ≤ a.balance ∧ (Refusing key (b.balance + d.amount) p ∨
        Ends (refusal key (b.balance + d.amount)) p)))

theorem BeforeCheck.committed? (h : BeforeCheck p) : p.committed? = none :=
  Phase.committed?_of (fun _ _ => id) (fun _ => id) h

theorem Refusing.committed? (h : Refusing key n p) : p.committed? = none :=
  Phase.committed?_of (fun _ _ => id) (fun _ => id) h

theorem CheckVerdict.committed? {db₀ : Db} (h : CheckVerdict key d c db₀ p) :
    p.committed? = none := by
  obtain ⟨_, _, _, _, _, _, ⟨_, he⟩ | ⟨_, hr | he⟩⟩ := h
  · exact he.committed?
  · exact hr.committed?
  · exact he.committed?

/-- **One step before the funds check**: with the key unused, nothing but that check can reject. -/
theorem next_beforeCheck (hI : LedgerInv db.toLedger) (hR : Reversed db.toLedger T d c)
    (hp : PhaseOk cfg db (.reverse T key q) p) (hn : Next cfg db (.reverse T key q) ch p p')
    (hh : ch.healthy = true) (hkey : ∀ t ∈ db.transactions, t.idempotencyKey ≠ key)
    (h : BeforeCheck p) :
    BeforeCheck p' ∨ AtCheck p ∧ CheckVerdict key d c db p' := by
  cases hn with
  | found hrow hk => exact absurd hk (hkey _ hrow)
  | missed => exact .inl trivial
  | noOriginal hno =>
      obtain ⟨t, ht, hid, _⟩ := hR.original
      cases hp
      exact absurd hid (hno t ht)
  | original => exact .inl trivial
  | notTransfer hrow ht hk =>
      obtain ⟨row, hrow', hrev, ht'⟩ := hp
      obtain ⟨t, htm, hid, hkind⟩ := hR.original
      have e : t = row := row_unique hI.transactionIDs htm hrow' (hid.trans (Option.some.inj hrev))
      have e' := congrArg Transaction.kind (ht.symm.trans ht')
      exact absurd (e'.trans (e ▸ hkind)) hk
  | legs => exact .inl trivial
  | generated => exact .inl trivial
  | began => exact .inl trivial
  | locking w tx =>
      obtain ⟨h₁, h₂⟩ := hp.1.posting.accounts_of_reverse hI
      exact .inl (lockComplete_start h₁ h₂)
  | lockedRow => exact .inl (LockComplete.next h)
  | accountMissing hl =>
      obtain ⟨hw, _, hs⟩ := hp
      have hne := (hw.posting.sound hI).distinct
      rw [hR.posting hw.posting] at hne
      refine absurd (LockingOk.length_two hs ?_ h) hl
      rw [hR.posting hw.posting]
      exact hne.symm
  | poor _ ha hid _ hb =>
      obtain ⟨⟨b, hb', hbid⟩, _⟩ := hp.1.posting.accounts_of_reverse hI
      rw [hR.posting hp.1.posting] at hid hb hbid
      refine .inr ⟨⟨_, _, _, rfl⟩, _, ha, b, hb', hid, hbid, .inl ⟨?_, rfl⟩⟩
      simpa [reversePosting, Money.units_ofColumn] using hb
  | funded _ ha hid hb hca hcid hm =>
      rw [hR.posting hp.1.posting] at hid hb hcid hm
      have hle := hb rfl
      simp only [reversePosting, Money.units_ofColumn] at hle hm
      refine .inr ⟨⟨_, _, _, rfl⟩, _, ha, _, hca, hid, hcid, .inr ⟨hle, .inl ⟨hm, ?_⟩⟩⟩
      -- both summands are in range, so the driver sends the sum as it is
      have hpos := hR.nonneg hI
      have hra := hI.range _ ha
      have hrb := hI.range _ hca
      refine Money.sendable_of_lt ?_
      rw [hm]
      simp only [InRange, numericBound] at hra hrb ⊢
      omega
  | _ => first | exact False.elim h | cases hh

/-- **One step past the funds check**: with the key and the generated id unused, the header INSERT
    refuses the row. -/
theorem next_refusing (hR : Reversed db.toLedger T d c) (hp : PhaseOk cfg db (.reverse T key q) p)
    (hn : Next cfg db (.reverse T key q) ch p p') (hh : ch.healthy = true)
    (hkey : ∀ t ∈ db.transactions, t.idempotencyKey ≠ key)
    (hid : ∀ w, p.work? = some w → ∀ t ∈ db.transactions, t.id ≠ w.txn.id)
    (h : Refusing key n p) : Refusing key n p' ∨ Ends (refusal key n) p' := by
  cases hn with
  | debitRefused hk => cases hk
  | debited => exact .inl h
  | creditRefused _ _ _ he =>
      obtain ⟨rfl, hs⟩ := h
      rw [Money.toColumn_exact 1 hs] at he
      split at he
      · cases he
      · rename_i hr
        cases he
        refine .inr ?_
        rw [refusal, if_neg hr]
        exact rfl
  | credited _ _ _ hst =>
      obtain ⟨rfl, hs⟩ := h
      exact .inl ((Money.storable_iff hs).mp hst)
  | keyNoText hno =>
      refine .inr ?_
      have hno : ¬pgText key = true := Bool.eq_false_iff.mp hno
      have hin : InRange n := h
      rw [refusal, if_pos hin, if_neg hno]
      exact rfl
  | keyText ht => exact .inl ⟨h, ht, by decide⟩
  | @duplicate w tx ix todo k hix hin =>
      cases ix with
      | pkey =>
          cases hix
          obtain ⟨t, ht, e⟩ := indexed_id.mp hin
          exact absurd e (hid w rfl t ht)
      | idempotencyKey =>
          cases hix
          obtain ⟨t, ht, e⟩ := indexed_key.mp hin
          exact absurd (e.trans hp.1.key) (hkey t ht)
      | reverses =>
          obtain ⟨u, _, rfl⟩ := Option.map_eq_some_iff.mp hix
          refine .inr ?_
          rw [refusal, if_pos h.1, if_pos h.2.1]
          exact insertErr_reverses T u key q
  | @indexed w tx tx' ix todo hfree =>
      refine .inl ⟨h.1, h.2.1, ?_⟩
      cases ix with
      | pkey => simpa using h.2.2
      | idempotencyKey => simpa using h.2.2
      | reverses =>
          -- the reversal that exists is in this index
          have hrev : w.txn.reversesTransactionID = some T := hp.1.reverses
          have hno := hfree (.reverses T) (by simp [Transaction.indexKey, hrev])
          rw [indexed_reverses.mpr hR.reversal] at hno
          cases hno
  | headerIn => exact absurd h.2.2 List.not_mem_nil
  | _ => first | exact False.elim h | cases hh

/-- What the funds check has decided stays decided. -/
theorem next_checkVerdict {db₀ : Db} (hR : Reversed db.toLedger T d c)
    (hp : PhaseOk cfg db (.reverse T key q) p) (hn : Next cfg db (.reverse T key q) ch p p')
    (hh : ch.healthy = true) (hkey : ∀ t ∈ db.transactions, t.idempotencyKey ≠ key)
    (hid : ∀ w, p.work? = some w → ∀ t ∈ db.transactions, t.id ≠ w.txn.id)
    (h : CheckVerdict key d c db₀ p) : CheckVerdict key d c db₀ p' := by
  obtain ⟨a, ha, b, hb, haid, hbid, ⟨hlt, he⟩ | ⟨hle, hr | he⟩⟩ := h
  · exact ⟨a, ha, b, hb, haid, hbid, .inl ⟨hlt, (next_ends hn (by decide) he).1⟩⟩
  · exact ⟨a, ha, b, hb, haid, hbid, .inr ⟨hle, next_refusing hR hp hn hh hkey hid hr⟩⟩
  · exact ⟨a, ha, b, hb, haid, hbid,
      .inr ⟨hle, .inr (next_ends hn (refusal_ne_conflict key _) he).1⟩⟩

end Second

/-! ## 3. The theorem -/

/-- **A second reversal, and what it reports.** In a reachable state `s₁` with a transfer `T` that
    has a committed reversal, let a reversal of `T` with an unused key be at its lookup. It can come
    to its return; and in every run in which it does, no store call of it fails, no other call
    commits the key and the id it generates is no transaction's, it has committed nothing. It
    reports ErrAlreadyReversed, as a 409, exactly when the key is text and, at the moment of the
    funds check, the original destination has the amount and the original source's balance plus the
    amount is in range. -/
theorem already_reversed {cfg : Config} {now clock : Time} {before : List Act} {s₁ : St}
    (h₁ : exec cfg (St.start (Db.migrated now) clock) before = some s₁) {i : Nat} {T : UUID}
    {key q : GoString} (hc : s₁.calls[i]? = some (.request (.reverse T key q) .lookup))
    (hT : ∃ t ∈ s₁.db.transactions, t.id = T ∧ t.kind = .transfer)
    (hrev : ∃ t ∈ s₁.db.transactions, t.reversesTransactionID = some T)
    (hkey : ∀ t ∈ s₁.db.transactions, t.idempotencyKey ≠ key) :
    (∃ acts s ret, (∀ a ∈ acts, a.healthy = true) ∧ exec cfg s₁ acts = some s ∧
      s.calls[i]? = some (.request (.reverse T key q) (.done ret))) ∧
    ∀ acts s ret, exec cfg s₁ acts = some s → (∀ a ∈ acts, a.healthyFor i = true) →
      (∀ e ∈ history cfg s₁ acts, e.1 ≠ i → e.2.key? ≠ some key) →
      (∀ u, .call i (.uuid u) ∈ acts → ∀ t ∈ s.db.transactions, t.id ≠ u) →
      s.calls[i]? = some (.request (.reverse T key q) (.done ret)) →
      (own (history cfg s₁ acts) i = [] ∧
        replay s₁.db.toLedger (history cfg s₁ acts) = some s.db.toLedger) ∧
      ∃ d c pre post m a b, s₁.db.legsOf T = [d, c] ∧ acts = pre ++ post ∧
        exec cfg s₁ pre = some m ∧
        (∃ w tx rows, m.calls[i]? = some (.request (.reverse T key q)
          (.inTx w tx (.lockRow [] rows)))) ∧
        a ∈ m.db.accounts ∧ a.id = c.accountID ∧ b ∈ m.db.accounts ∧ b.id = d.accountID ∧
        (ret = .failed (.sentinel .alreadyReversed) ↔
          pgText key = true ∧ d.amount ≤ a.balance ∧ InRange (b.balance + d.amount)) ∧
        ((respond ret).status = 409 ↔
          pgText key = true ∧ d.amount ≤ a.balance ∧ InRange (b.balance + d.amount)) := by
  have hI := inv_exec (inv_start cfg now clock) h₁
  refine ⟨exists_return hI hc, fun acts s ret h hh huse hid hret => ?_⟩
  obtain ⟨t, ht, rfl, hkind⟩ := hT
  obtain ⟨d, c, hl, _⟩ := hI.ledger.legs t ht
  have hR : Reversed s₁.db.toLedger t.id d c := ⟨⟨t, ht, rfl, hkind⟩, hl, hrev⟩
  have hfree : ∀ {as m ch p}, as ++ [.call i ch] <+: acts → exec cfg s₁ as = some m →
      m.calls[i]? = some (.request (.reverse t.id key q) p) → p.committed? = none →
      ∀ t ∈ m.db.transactions, t.idempotencyKey ≠ key := fun hpre hr hp hcm =>
    exec_key_free hI hc hkey ((List.prefix_append _ _).trans hpre) hr hh huse hp hcm
  obtain ⟨p, hp, hcase⟩ := exec_decided (B := BeforeCheck) (D := AtCheck)
    (V := CheckVerdict key d c) hI hc h trivial
    (fun as m ch p p' hpre hr hIm hpm hn hB =>
      next_beforeCheck hIm.ledger (hR.mono (exec_extends hI hr)) (hIm.calls i _ hpm) hn
        (healthy_of_mem hh hpre) (hfree hpre hr hpm hB.committed?) hB)
    (fun as m ch p p' db₀ hpre hr hIm hpm hn hV => by
      refine next_checkVerdict (hR.mono (exec_extends hI hr)) (hIm.calls i _ hpm) hn
        (healthy_of_mem hh hpre) (hfree hpre hr hpm hV.committed?) (fun w hw t ht => ?_) hV
      -- the id was generated in this run, and what is committed stays committed
      have hpre := (List.prefix_append as _).trans hpre
      exact hid _ (hpre.subset (exec_generated hI hc rfl hr hpm hw)) t
        ((exec_prefix_extends hI hpre hr h).transaction t ht))
  rw [hret] at hp
  cases hp
  rcases hcase with hB | ⟨pre, post, m, _, e, hm, hq, ⟨w, tx, rows, rfl⟩, hV⟩
  · exact False.elim hB
  · refine ⟨⟨exec_uncommitted hI hc h hh hret hV.committed?, exec_refines hI h⟩, ?_⟩
    obtain ⟨a, ha, b, hb, haid, hbid, hcase⟩ := hV
    refine ⟨d, c, pre, post, m, a, b, hl, e, hm, ⟨w, tx, rows, hq⟩, ha, haid, hb, hbid, ?_⟩
    rcases hcase with ⟨hlt, he⟩ | ⟨hle, hr | he⟩
    · obtain rfl : ret = .failed (.sentinel .insufficientFunds) := he
      have : ¬d.amount ≤ a.balance := not_le.mpr hlt
      simp [this, respond, mapError, writeError, writeJSON]
    · exact False.elim hr
    · obtain rfl : ret = .failed (refusal key (b.balance + d.amount)) := he
      unfold refusal
      split
      · rename_i hin
        split
        · rename_i ht
          simp [ht, hle, hin, respond, mapError, writeError, writeJSON]
        · rename_i ht
          simp [ht, respond, mapError, internalError, writeError, writeJSON]
      · rename_i hin
        simp [hin, respond, mapError, internalError, writeError, writeJSON]

/-! ## 4. Two runs -/

/-- A second reversal of the transfer of the sample run, with a new key. -/
def secondReversal : Request := .reverse 100#128 (bytes "undo-2") (bytes "req-3")

/-- The state after the sample run in which the second reversal has arrived. -/
def secondStart : St :=
  { sampleEnd with calls := sampleEnd.calls ++ [.request secondReversal .lookup] }

/-- Its steps: the lookup, the two reads of the original, the new id, and `n` steps of the rest. -/
def secondRun (i n : Nat) (u : UUID) : List Act :=
  List.replicate 3 (.call i .ok) ++ [.call i (.uuid u)] ++ List.replicate n (.call i .ok)

theorem secondRun_isSome :
    (exec Config.migrated secondStart (secondRun 2 13 102#128)).isSome = true := by
  decide +kernel

/-- After the sample run Bob still has the amount: the second reversal reports ErrAlreadyReversed
    and commits nothing. -/
theorem already_reversed_sample :
    ∃ s, exec Config.migrated secondStart (secondRun 2 13 102#128) = some s ∧
      s.calls[2]? = some (.request secondReversal (.done (.failed (.sentinel .alreadyReversed)))) ∧
      own (history Config.migrated secondStart (secondRun 2 13 102#128)) 2 = [] := by
  have h₁ : exec Config.migrated (St.start (Db.migrated 0) 1000)
      (sampleRun ++ [.arrive secondReversal]) = some secondStart :=
    run_snoc.mpr ⟨sampleEnd, sampleRun_exec, rfl⟩
  let s := (exec Config.migrated secondStart (secondRun 2 13 102#128)).get secondRun_isSome
  have hs : exec Config.migrated secondStart (secondRun 2 13 102#128) = some s :=
    (Option.some_get secondRun_isSome).symm
  have hret : s.calls[2]? =
      some (.request secondReversal (.done (.failed (.sentinel .alreadyReversed)))) := by
    decide +kernel
  have hid : ∀ u, .call 2 (.uuid u) ∈ secondRun 2 13 102#128 →
      ∀ t ∈ s.db.transactions, t.id ≠ u := by
    intro u hu
    obtain rfl : u = 102#128 := by simpa [secondRun] using hu
    decide +kernel
  obtain ⟨hc, hT, hrev, hkey⟩ :
      secondStart.calls[2]? = some (.request secondReversal .lookup) ∧
      (∃ t ∈ secondStart.db.transactions, t.id = 100#128 ∧ t.kind = .transfer) ∧
      (∃ t ∈ secondStart.db.transactions, t.reversesTransactionID = some 100#128) ∧
      ∀ t ∈ secondStart.db.transactions, t.idempotencyKey ≠ bytes "undo-2" := by
    decide +kernel
  exact ⟨s, hs, hret, ((already_reversed h₁ (i := 2) (T := 100#128) hc hT hrev hkey).2 _ s _ hs
    (by decide +kernel) (by decide +kernel) hid hret).1.1⟩

/-- The sample run, then Bob sends all he has to Charlie, then the second reversal arrives. -/
def poorBefore : List Act :=
  sampleRun ++
    soloCall 2 (.transfer bobID charlieID (Money.fromInt 10000) (bytes "pay-2") (bytes "req-4"))
      102#128 ++ [.arrive secondReversal]

theorem poorBefore_isSome :
    (exec Config.migrated (St.start (Db.migrated 0) 1000) poorBefore).isSome = true ∧
    (exec Config.migrated (St.start (Db.migrated 0) 1000)
      (poorBefore ++ secondRun 3 7 103#128)).isSome = true := by
  decide +kernel

/-- **The second reversal that the funds check answers**: the transfer is reversed, nobody has used
    the key, no store call fails, and the reversal returns ErrInsufficientFunds, as a 422. -/
theorem second_reversal_poor :
    let s₁ := (exec Config.migrated (St.start (Db.migrated 0) 1000) poorBefore).get
      poorBefore_isSome.1
    let s := (exec Config.migrated (St.start (Db.migrated 0) 1000)
      (poorBefore ++ secondRun 3 7 103#128)).get poorBefore_isSome.2
    s₁.calls[3]? = some (.request secondReversal .lookup) ∧
    (∃ t ∈ s₁.db.transactions, t.id = 100#128 ∧ t.kind = .transfer) ∧
    (∃ t ∈ s₁.db.transactions, t.reversesTransactionID = some 100#128) ∧
    (∀ t ∈ s₁.db.transactions, t.idempotencyKey ≠ bytes "undo-2") ∧
    exec Config.migrated s₁ (secondRun 3 7 103#128) = some s ∧
    (∀ a ∈ secondRun 3 7 103#128, a.healthy = true) ∧
    s.calls[3]? = some (.request secondReversal
      (.done (.failed (.sentinel .insufficientFunds)))) ∧
    (respond (.failed (.sentinel .insufficientFunds))).status = 422 := by
  decide +kernel

end BankingService
