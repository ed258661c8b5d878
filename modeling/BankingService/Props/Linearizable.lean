/-
  File:      BankingService/Props/Linearizable.lean
  Subject:   EVERY ANSWER HAS ITS INSTANT: what a call returns is what the specification answers on
             the tables of one moment between its arrival and its return.

  A call makes up to ten reads and writes, with other calls in between, so the tables it has looked
  at need never have existed at one time. Still:

  * `rejection_justified` -- a call that returns a sentinel, whatever faults it met, was right to
    at some moment while it ran: on the tables of that moment the specification rejects the
    request with just this sentinel;
  * `linearizable` -- a call that meets no fault returns the verdict of one moment, keys included,
    and posts, if it posts, right there. The one thing that has to be assumed is that a call that
    fails has not lost its key or its id to another call meanwhile.

  * `Headed`, `next_headed` -- a call that is headed for a return either was before its step or is
    from now on, by the tables of this step; the rest is the run.
-/
import BankingService.Proof.Conflicts
import BankingService.Proof.Track
import BankingService.Spec.Verdict

namespace BankingService

open Lib

/-! ## 1. What a call knows and what the specification says -/

section Known

variable {cfg : Config} {L : Ledger} {r : Request} {p : Posting}

/-- The checks before the first database call are the specification's. -/
theorem start_invalid (r : Request) :
    (r.start = .lookup ∧ r.invalid? = none) ∨
      ∃ e s, r.start = .audit e (.failed (.sentinel s)) ∧ r.invalid? = some s ∧
        s ≠ .idempotencyConflict := by
  have hpos : ∀ amount : Money, amount.units ≤ 0 ↔ (!amount.isPositive) = true := fun amount => by
    rw [← not_lt, ← Money.isPositive_iff, Bool.not_eq_true, Bool.not_eq_true']
  cases r with
  | reverse => exact .inl ⟨rfl, rfl⟩
  | transfer srcID dstID amount =>
      simp only [Request.start, Request.invalid?, hpos]
      split
      · exact .inr ⟨_, _, rfl, rfl, by decide⟩
      · split
        · exact .inr ⟨_, _, rfl, rfl, by decide⟩
        · split
          · exact .inr ⟨_, _, rfl, rfl, by decide⟩
          · exact .inl ⟨rfl, rfl⟩
  | deposit dstID amount =>
      simp only [Request.start, Request.invalid?, hpos]
      split
      · exact .inr ⟨_, _, rfl, rfl, by decide⟩
      · split
        · exact .inr ⟨_, _, rfl, rfl, by decide⟩
        · exact .inl ⟨rfl, rfl⟩

/-- A call that looks for its key has passed the checks. -/
theorem invalid_of_lookup (h : r.start = .lookup) : r.invalid? = none := by
  rcases start_invalid r with ⟨_, hv⟩ | ⟨e, s, hs, _⟩
  · exact hv
  · rw [h] at hs
    cases hs

/-- The posting a call has arrived at is the plan. -/
theorem PostingOk.plan (hI : LedgerInv L) (h : PostingOk L p r) :
    r.invalid? = none ∧ r.plan L = .ok p := by
  cases r with
  | transfer srcID dstID amount =>
      obtain ⟨rfl, hpos, hne, hs, hd⟩ := h
      have hu : ¬amount.units ≤ 0 := not_le.mpr ((Money.isPositive_iff _).mp hpos)
      exact ⟨by simp [Request.invalid?, hu, hne, hs, hd], rfl⟩
  | deposit dstID amount =>
      obtain ⟨rfl, hpos, hd⟩ := h
      have hu : ¬amount.units ≤ 0 := not_le.mpr ((Money.isPositive_iff _).mp hpos)
      exact ⟨by simp [Request.invalid?, hu, hd], rfl⟩
  | reverse originalTxID =>
      obtain ⟨t, ht, rfl, hk, d, c, hl, rfl⟩ := h
      exact ⟨rfl, by simp only [Request.plan, hI.transaction_mem ht, hl, if_pos hk]⟩

theorem PostingOk.judge (hI : LedgerInv L) (h : PostingOk L p r) :
    r.judge cfg L = p.judge cfg L r.key r.reverses :=
  Request.judge_plan (h.plan hI).1 (h.plan hI).2

/-- With both rows locked and the funds there, only the columns, the key, an earlier reversal and
    the amount of the entries are left to decide. -/
theorem Held.judge {tx : Tx} {da ca : AccountRow} (hI : LedgerInv L) (h : Held L p tx da ca)
    (key : GoString) (reverses : Option UUID) :
    p.judge cfg L key reverses =
      if p.balancesFit da ca = false then .refuse
      else if pgText key = false then .refuse
      else if reverses.any L.isReversed then .reject .alreadyReversed
      else if entryTakes cfg p.amount = false then .refuse
      else .post p := by
  rw [Posting.judge_found (h.debitID ▸ hI.account_mem h.debitMem)
    (h.creditID ▸ hI.account_mem h.creditMem), if_neg]
  exact fun ⟨hc, hb⟩ => absurd (h.funds hc) (not_le.mpr hb)

/-- Past both UPDATEs the new balances fit. -/
theorem Updated.judge {w : Work} {tx : Tx} {da ca : AccountRow} (hI : LedgerInv L)
    (hw : WorkOk L r w) (h : Updated L w tx da ca) :
    r.judge cfg L =
      if pgText r.key = false then .refuse
      else if r.reverses.any L.isReversed then .reject .alreadyReversed
      else if entryTakes cfg w.posting.amount = false then .refuse
      else .post w.posting := by
  have hfit : w.posting.balancesFit da ca = true := by
    rw [Posting.balancesFit, h.debitTaken, h.creditTaken]
    rfl
  rw [hw.posting.judge hI, h.toHeld.judge hI, if_neg (by rw [hfit]; decide)]

/-- With the header in, its key is text and new and its original is not reversed: the amount of the
    entries decides. -/
theorem Inserted.judge {db : Db} {w : Work} {tx : Tx} {todo : List Entry}
    (hI : LedgerInv db.toLedger) (hw : WorkOk db.toLedger r w) (ht : TxOk db.toLedger tx)
    (h : Inserted cfg db w tx todo) :
    (∀ t ∈ db.transactions, t.idempotencyKey ≠ r.key) ∧
      r.judge cfg db.toLedger =
        if entryTakes cfg w.posting.amount = false then .refuse else .post w.posting := by
  obtain ⟨da, ca, rows, hu, htext, _, hwrote⟩ := h
  have hfree : ∀ k ∈ (headerRow w.txn tx.now).indexKeys, ∀ row ∈ db.transactions,
      k ∉ row.indexKeys := fun k hk => ht.unindexed (hwrote.index ▸ hk)
  constructor
  · intro t htm hk
    refine hfree (.key r.key) ?_ t htm (by simp [TransactionRow.indexKeys, hk])
    simp [TransactionRow.indexKeys, headerRow, hw.key]
  · rw [hu.judge hI hw, if_neg (by rw [← hw.key, htext]; decide), if_neg]
    intro hrev
    obtain ⟨o, ho, hr⟩ := (Option.any_eq_true _ _).mp hrev
    obtain ⟨t, htm, hto⟩ := Ledger.isReversed_iff.mp hr
    refine hfree (.reverses o) ?_ t htm (by simp [TransactionRow.indexKeys, hto])
    simp [TransactionRow.indexKeys, headerRow, hw.reverses, ho]

end Known

/-! ## 2. The decisive step -/

/-- The ledger decides for a return. -/
inductive Decides (cfg : Config) (L : Ledger) (r : Request) : Return → Prop
  | replayed {t : TransactionRow} (ht : t ∈ L.transactions) (hk : t.idempotencyKey = r.key)
      (hv : r.invalid? = none) :
      Decides cfg L r (.existing { scanTransaction t with entries := listEntries L t.id }
        (listEntries L t.id))
  | posted {p : Posting} {u : UUID} (hj : r.judge cfg L = .post p)
      (hk : ∀ t ∈ L.transactions, t.idempotencyKey ≠ r.key) :
      Decides cfg L r (.committed (r.txn u) (Work.legs ⟨p, r.txn u⟩))
  | failed {e : Err} (hj : (r.judge cfg L).Answers L r (.failed e)) : Decides cfg L r (.failed e)

/-- The call is headed for a return: on its way out with it, or about to find that the lock query
    has not named both accounts. -/
def Headed (ret : Return) : Phase → Prop
  | .inTx w _ (.lockRow todo rows) =>
      ret = .failed (.sentinel .accountNotFound) ∧ ¬LockComplete w.posting todo rows
  | .inTx _ _ (.rollback e) => ret = .failed e
  | .audit _ ret' => ret = ret'
  | .done ret' => ret = ret'
  | _ => False

section Step

variable {cfg : Config} {db : Db} {r : Request} {ch : Choice} {p p' : Phase} {ret : Return}

/-- A failing store call gives an error of the connection. -/
theorem stageErr_other {text : String} {stage : Stage} {e : Err}
    (h : stageErr r text stage = some e) : ∃ context text, e = .wrapped context (.other text) := by
  cases stage with
  | lockRow todo rows => cases todo <;> cases h; exact ⟨_, _, rfl⟩
  | insertEntries todo => cases todo <;> cases h; exact ⟨_, _, rfl⟩
  | insertHeader => cases h; cases r <;> exact ⟨_, _, rfl⟩
  | insertIndex => cases h; cases r <;> exact ⟨_, _, rfl⟩
  | rollback => cases h
  | _ => cases h; exact ⟨_, _, rfl⟩

/-- A lock query that does not name both accounts is the specification's missing account. -/
theorem judge_of_incomplete (hI : LedgerInv db.toLedger) {w : Work} (hw : WorkOk db.toLedger r w)
    (h : ¬LockComplete w.posting
      (lockAccountsForUpdate cfg db.toLedger [w.posting.first, w.posting.second]) []) :
    r.judge cfg db.toLedger = .reject .accountNotFound := by
  rw [hw.posting.judge hI]
  refine Posting.judge_missing ?_
  by_contra hno
  simp only [not_or, not_forall, not_not, exists_prop] at hno
  obtain ⟨hd, hc⟩ := hno
  refine h ?_
  -- which of the two is debited does not matter
  cases hf : w.posting.debitFirst with
  | true =>
      simp only [Posting.debitID, Posting.creditID, hf, if_true] at hd hc
      exact lockComplete_start hd hc
  | false =>
      simp only [Posting.debitID, Posting.creditID, hf] at hd hc
      exact lockComplete_start hc hd

/-- An index conflict that is not about the key or the id is about the reversal. -/
theorem duplicate_reverses {w : Work} (hw : WorkOk db.toLedger r w) {ix : UniqueIndex}
    {k : IndexKey} (hk : w.txn.indexKey ix = some k) (h : db.indexed k = true) :
    (r.insertErr (.pg k.violation) = .sentinel .idempotencyConflict ∧
        ((∃ t ∈ db.transactions, t.id = w.txn.id) ∨
          ∃ t ∈ db.transactions, t.idempotencyKey = r.key)) ∨
      r.insertErr (.pg k.violation) = .sentinel .alreadyReversed ∧
        r.reverses.any db.isReversed = true := by
  cases ix with
  | pkey =>
      cases hk
      exact .inl ⟨insertErr_id r _, .inl (indexed_id.mp h)⟩
  | idempotencyKey =>
      cases hk
      exact .inl ⟨insertErr_key r _, .inr (hw.key ▸ indexed_key.mp h)⟩
  | reverses =>
      obtain ⟨o, ho, rfl⟩ := Option.map_eq_some_iff.mp hk
      have hrev : r.reverses = some o := hw.reverses.symm.trans ho
      refine .inr ⟨?_, ?_⟩
      · cases r with
        | reverse T key q => exact insertErr_reverses T o key q
        | _ => cases hrev
      · rw [hrev]
        exact Ledger.isReversed_iff.mpr (indexed_reverses.mp h)

/-- **One step towards a return**: the call was headed for it already, or the tables of this step
    decide for it, or a store call failed. A return of the call's own transaction is decided by its
    COMMIT. -/
theorem next_headed (hI : LedgerInv db.toLedger) (hp : PhaseOk cfg db r p)
    (hn : Next cfg db r ch p p') (hne : ret ≠ .failed (.sentinel .idempotencyConflict))
    (h : Headed ret p') :
    Headed ret p ∨
      (Decides cfg db.toLedger r ret ∧ ∀ t entries, ret = .committed t entries →
        ∃ st, p.commit? r ch = some (.request r st) ∧ st.txID = t.id) ∨
      (ch.healthy = false ∧ ∃ context text, ret = .failed (.wrapped context (.other text))) := by
  -- a failure decided here
  have fails : ∀ {e : Err}, ret = .failed e → (r.judge cfg db.toLedger).Answers db.toLedger r
      (.failed e) → Decides cfg db.toLedger r ret ∧ ∀ t entries, ret = .committed t entries →
        ∃ st, p.commit? r ch = some (.request r st) ∧ st.txID = t.id := by
    rintro e rfl hj
    exact ⟨.failed hj, fun _ _ e => by cases e⟩
  -- and a fault
  have faulty : ∀ {e : Err}, ret = .failed e → ch.healthy = false →
      (∃ context text, e = .wrapped context (.other text)) →
      ch.healthy = false ∧ ∃ context text, ret = .failed (.wrapped context (.other text)) := by
    rintro e rfl hch ⟨context, text, rfl⟩
    exact ⟨hch, context, text, rfl⟩
  cases hn with
  | missed => cases r <;> exact False.elim h
  | lookupFails => cases r <;> exact False.elim h
  | lookupEntriesFails => cases r <;> exact False.elim h
  | replayed hrow hk ht =>
      subst ht
      obtain rfl : ret = _ := h
      exact .inr (.inl ⟨.replayed hrow hk (invalid_of_lookup hp.1), fun _ _ e => by cases e⟩)
  | @noOriginal id hno =>
      refine .inr (.inl (fails h ?_))
      have hrev : r.reverses = some id := hp
      cases r with
      | reverse T key q =>
          cases hrev
          rw [Request.judge_error rfl]
          · exact rfl
          · simp only [Request.plan, show db.transaction? id = none from find_key_none.mpr hno]
      | _ => cases hrev
  | originalFails id text => exact .inr (.inr (faulty h rfl ⟨_, _, rfl⟩))
  | notTransfer hrow ht hk =>
      refine .inr (.inl (fails h ?_))
      obtain ⟨row, hrow', hrev, ht'⟩ := hp
      have hkind : row.kind ≠ .transfer := fun e => hk ((congrArg Transaction.kind
        (ht.symm.trans ht')).trans e)
      cases r with
      | reverse T key q =>
          cases hrev
          rw [Request.judge_error rfl]
          · exact rfl
          · obtain ⟨d, c, hl, _⟩ := hI.legs row hrow'
            simp only [Request.plan, hI.transaction_mem hrow', hl, if_neg hkind]
      | _ => cases hrev
  | originalEntriesFails t text => exact .inr (.inr (faulty h rfl ⟨_, _, rfl⟩))
  | generateFails pst text => exact .inr (.inr (faulty h rfl ⟨_, _, rfl⟩))
  | beginFails w text => exact .inr (.inr (faulty h rfl ⟨_, _, rfl⟩))
  | locking w tx =>
      obtain ⟨hret, hinc⟩ := h
      refine .inr (.inl (fails hret ?_))
      rw [judge_of_incomplete hI hp.1 hinc]
      exact rfl
  | lockedRow => exact .inl ⟨h.1, fun hc => h.2 hc.next⟩
  | @accountMissing w tx rows hl =>
      obtain ⟨hw, _, hs⟩ := hp
      refine .inl ⟨h, fun hc => hl (LockingOk.length_two hs ?_ hc)⟩
      have hd := (hw.posting.sound hI).distinct
      intro e
      simp only [Posting.debitID, Posting.creditID, e, ite_self] at hd
      exact hd rfl
  | poor hl ha hid hc hb =>
      obtain ⟨hw, _, hs⟩ := hp
      refine .inr (.inl (fails h ?_))
      rcases afterLock_spec hs with ⟨hl', _⟩ | ⟨da, ca, _, hda, hdid, hca, hcid, _⟩
      · exact absurd hl hl'
      · obtain rfl := row_unique hI.accountIDs ha hda (hid.trans hdid.symm)
        rw [hw.posting.judge hI, Posting.judge_found (hdid ▸ hI.account_mem hda)
          (hcid ▸ hI.account_mem hca), if_pos ⟨hc, hb⟩]
        exact rfl
  | @debitRefused w tx newDebit newCredit _ _ _ _ _ _ he =>
      obtain ⟨hw, _, da, ca, hh, hd, _⟩ := hp
      refine .inr (.inl (fails h ?_))
      have hno : w.posting.balancesFit da ca = false := by
        rw [Posting.balancesFit, ← hd, Column.driver_isSome, newDebit.toColumn_error_iff.mp ⟨_, he⟩]
        rfl
      rw [hw.posting.judge hI, hh.judge hI, if_pos hno]
      exact ⟨_, _, rfl⟩
  | @creditRefused w tx newCredit _ _ _ _ _ he =>
      obtain ⟨hw, _, da, ca, hh, hc, _⟩ := hp
      refine .inr (.inl (fails h ?_))
      have hno : w.posting.balancesFit da ca = false := by
        have hst := newCredit.toColumn_error_iff.mp ⟨_, he⟩
        rw [Posting.balancesFit, ← hc, Column.driver_isSome, hst]
        exact Bool.and_false _
      rw [hw.posting.judge hI, hh.toHeld.judge hI, if_pos hno]
      exact ⟨_, _, rfl⟩
  | keyNoText hno =>
      obtain ⟨hw, _, da, ca, hu, _⟩ := hp
      refine .inr (.inl (fails h ?_))
      rw [hu.judge hI hw, if_pos hno]
      cases r <;> exact ⟨_, _, rfl⟩
  | @duplicate w tx ix todo k hix hin =>
      obtain ⟨hw, _, da, ca, done, hu, htext, _⟩ := hp
      obtain rfl : ret = .failed (r.insertErr (.pg k.violation)) := h
      rcases duplicate_reverses hw hix hin with ⟨he, _⟩ | ⟨he, hrev⟩
      · exact absurd (congrArg Return.failed he) hne
      · refine .inr (.inl (fails rfl ?_))
        rw [hu.judge hI hw, if_neg (by rw [← hw.key, htext]; decide), if_pos hrev, he]
        exact rfl
  | entryRefused _ hno _ =>
      obtain ⟨hw, ht, hs⟩ := hp
      refine .inr (.inl (fails h ?_))
      rw [(Inserted.judge hI hw ht hs).2, if_pos hno]
      exact ⟨_, _, rfl⟩
  | committed w tx =>
      obtain ⟨hw, ht, hs⟩ := hp
      obtain rfl : ret = .committed w.txn w.legs := h
      obtain ⟨hkey, hjudge⟩ := Inserted.judge hI hw ht hs
      obtain ⟨_, _, _, _, _, hes, _⟩ := hs
      obtain ⟨_, _, _, _, htake, _⟩ := hes.of_nil
      rw [if_neg (by rw [htake]; decide)] at hjudge
      have hdec := Decides.posted (u := w.txn.id) hjudge hkey
      rw [← hw.txn] at hdec
      refine .inr (.inl ⟨hdec, fun t entries e => ?_⟩)
      cases e
      exact ⟨w.stamp tx, rfl, w.stamp_txID tx⟩
  | ackLost w tx text => exact .inr (.inr (faulty h rfl ⟨_, _, rfl⟩))
  | statementFails he => exact .inr (.inr (faulty h rfl (stageErr_other he)))
  | rolledBack w tx e =>
      refine .inl ?_
      unfold Request.afterTxErr at h
      split at h
      · exact False.elim h
      · exact h
  | refetchMissed => exact absurd h hne
  | refetchFails => exact absurd h hne
  | refetchedEntries hrow hk ht =>
      subst ht
      obtain rfl : ret = _ := h
      exact .inr (.inl ⟨.replayed hrow hk (hp.1.posting.plan hI).1, fun _ _ e => by cases e⟩)
  | refetchEntriesFails => exact absurd h hne
  | audited => exact .inl h
  | auditFails => exact .inl h
  | _ => exact False.elim h

end Step

/-! ## 3. The instant -/

/-- Within a run the return of call `i` is decided: at a moment when the call is under way the
    tables decide for it, and if it is a transaction of its own, the next action commits it. -/
def DecidedIn (cfg : Config) (s₀ : St) (acts : List Act) (i : Nat) (r : Request) (ret : Return) :
    Prop :=
  ∃ pre m p, pre <+: acts ∧ exec cfg s₀ pre = some m ∧ m.calls[i]? = some (.request r p) ∧
    (∀ ret, p ≠ .done ret) ∧ Decides cfg m.db.toLedger r ret ∧
    ∀ t entries, ret = .committed t entries → ∃ ch st, pre ++ [.call i ch] <+: acts ∧
      commitOf cfg m (.call i ch) = some (i, .request r st) ∧ st.txID = t.id

section Run

variable {cfg : Config} {s₀ s : St} {i : Nat} {r : Request} {ret : Return} {acts : List Act}

theorem DecidedIn.mono {as : List Act} (hpre : as <+: acts) (h : DecidedIn cfg s₀ as i r ret) :
    DecidedIn cfg s₀ acts i r ret := by
  obtain ⟨pre, m, p, hp, hr, hc, hd, hdec, hcom⟩ := h
  refine ⟨pre, m, p, hp.trans hpre, hr, hc, hd, hdec, fun t entries e => ?_⟩
  obtain ⟨ch, st, hch, h'⟩ := hcom t entries e
  exact ⟨ch, st, hch.trans hpre, h'⟩

/-- The state in which a request arrives rejects its arguments. -/
theorem decidedIn_start (hc : s₀.calls[i]? = some (.request r r.start)) (h : Headed ret r.start) :
    DecidedIn cfg s₀ [] i r ret := by
  rcases start_invalid r with ⟨hs, _⟩ | ⟨e, x, hs, hv, _⟩
  · rw [hs] at h
    exact False.elim h
  · rw [hs] at h hc
    obtain rfl : ret = .failed (.sentinel x) := h
    refine ⟨[], s₀, _, List.prefix_refl _, rfl, hc, fun _ e => (by cases e), .failed ?_,
      fun _ _ e => (by cases e)⟩
    rw [Request.judge_invalid hv]
    exact rfl

/-- **A return is decided in the course of the call**, or a store call has failed. -/
theorem exec_decidedIn (h₀ : SysInv cfg s₀) (hc : s₀.calls[i]? = some (.request r r.start))
    (h : exec cfg s₀ acts = some s) (hret : s.calls[i]? = some (.request r (.done ret)))
    (hne : ret ≠ .failed (.sentinel .idempotencyConflict)) :
    DecidedIn cfg s₀ acts i r ret ∨
      (∃ a ∈ acts, a.healthyFor i = false) ∧
        ∃ context text, ret = .failed (.wrapped context (.other text)) := by
  obtain ⟨p, hp, hP⟩ := exec_track
    (P := fun as _ p => Headed ret p → DecidedIn cfg s₀ as i r ret ∨
      (∃ a ∈ as, a.healthyFor i = false) ∧
        ∃ context text, ret = .failed (.wrapped context (.other text))) h₀ hc h
    (fun hh => .inl (decidedIn_start hc hh))
    (fun as m a m' p _ _ _ _ _ ih hh => by
      rcases ih hh with hd | ⟨⟨b, hb, hbf⟩, hw⟩
      · exact .inl (hd.mono (List.prefix_append _ _))
      · exact .inr ⟨⟨b, List.mem_append_left _ hb, hbf⟩, hw⟩)
    (fun as m ch m' p p' _ hr hI _ hpm hn ih hh => by
      rcases next_headed hI.ledger (hI.calls i _ hpm) hn hne hh with hh | ⟨hd, hcom⟩ | ⟨hf, hw⟩
      · rcases ih hh with hd | ⟨⟨b, hb, hbf⟩, hw⟩
        · exact .inl (hd.mono (List.prefix_append _ _))
        · exact .inr ⟨⟨b, List.mem_append_left _ hb, hbf⟩, hw⟩
      · refine .inl ⟨as, m, p, List.prefix_append _ _, hr, hpm, fun ret e => ?_, hd,
          fun t entries e => ?_⟩
        · subst e
          cases hn
        · obtain ⟨st, hst, hid⟩ := hcom t entries e
          refine ⟨ch, st, List.prefix_refl _, ?_, hid⟩
          rw [commitOf_own hI hpm, hst]
          rfl
      · refine .inr ⟨⟨_, List.mem_append_right _ (List.mem_singleton_self _), ?_⟩, hw⟩
        simp [Act.healthyFor, hf])
  rw [hret] at hp
  cases hp
  exact hP rfl

end Run

/-- **A rejection is justified.** A call that returns a sentinel, other than the one for a lost key,
    returns it rightly: at some moment between its arrival and its return, the specification, alone
    with the tables of that moment, rejects the request with this sentinel. This holds whatever
    store calls have failed on the way. -/
theorem rejection_justified {cfg : Config} {now clock : Time} {acts₀ acts : List Act} {s₁ s : St}
    (h₁ : exec cfg (St.start (Db.migrated now) clock) acts₀ = some s₁) {r : Request}
    (h : exec cfg (s₁.arrived r) acts = some s) {x : Sentinel}
    (hret : s.calls[s₁.calls.length]? = some (.request r (.done (.failed (.sentinel x)))))
    (hne : x ≠ .idempotencyConflict) :
    ∃ pre m p, pre <+: acts ∧ exec cfg (s₁.arrived r) pre = some m ∧
      m.calls[s₁.calls.length]? = some (.request r p) ∧ (∀ ret, p ≠ .done ret) ∧
      r.judge cfg m.db.toLedger = .reject x := by
  have hI := inv_arrived (inv_exec (inv_start cfg now clock) h₁) r
  rcases exec_decidedIn hI (arrived_call s₁ r) h hret (by simpa using hne) with
    ⟨pre, m, p, hpre, hr, hc, hd, hdec, _⟩ | ⟨_, context, text, e⟩
  · refine ⟨pre, m, p, hpre, hr, hc, hd, ?_⟩
    cases hdec with
    | failed hj =>
        cases hv : r.judge cfg m.db.toLedger with
        | reject y =>
            rw [hv] at hj
            cases hj
            rfl
        | replay t =>
            rw [hv] at hj
            cases hj
        | post p =>
            rw [hv] at hj
            obtain ⟨_, e⟩ := hj
            cases e
        | refuse =>
            rw [hv] at hj
            obtain ⟨_, _, e⟩ := hj
            cases e
  · cases e

/-- A transfer of more than Bob has; its lookup fails and so does its audit row. -/
def boldTransfer : Request :=
  .transfer bobID charlieID (Money.fromInt 20000) (bytes "pay-9") (bytes "req-9")

def boldRun : List Act :=
  [.call 0 (.fail "i/o timeout"), .call 0 (.uuid 100#128)] ++ List.replicate 6 (.call 0 .ok) ++
    [.call 0 (.fail "i/o timeout")]

theorem boldRun_isSome :
    (exec Config.migrated ((St.start (Db.migrated 0) 1000).arrived boldTransfer)
      boldRun).isSome = true := by
  decide +kernel

def boldEnd : St :=
  (exec Config.migrated ((St.start (Db.migrated 0) 1000).arrived boldTransfer) boldRun).get
    boldRun_isSome

theorem boldRun_exec :
    exec Config.migrated ((St.start (Db.migrated 0) 1000).arrived boldTransfer) boldRun =
      some boldEnd :=
  (Option.some_get boldRun_isSome).symm

/-- In spite of the faults Bob was short of funds at a moment of the call. -/
theorem rejection_justified_bold :
    ∃ pre m, pre <+: boldRun ∧
      exec Config.migrated ((St.start (Db.migrated 0) 1000).arrived boldTransfer) pre = some m ∧
      boldTransfer.judge Config.migrated m.db.toLedger = .reject .insufficientFunds := by
  have hret : boldEnd.calls[0]? =
      some (.request boldTransfer (.done (.failed (.sentinel .insufficientFunds)))) := by
    decide +kernel
  obtain ⟨pre, m, _, hpre, hm, _, _, hj⟩ :=
    @rejection_justified Config.migrated 0 1000 [] _ _ _ rfl _ boldRun_exec _ hret (by decide)
  exact ⟨pre, m, hpre, hm, hj⟩

/-! ## 4. Keys -/

/-- The call has met another header with its key or its id, or says so. -/
def Conflicting : Phase → Prop
  | .inTx _ _ (.rollback e) => e = .sentinel .idempotencyConflict
  | .refetch _ => True
  | .refetchEntries _ _ => True
  | .audit _ ret => ret = .failed (.sentinel .idempotencyConflict)
  | .done ret => ret = .failed (.sentinel .idempotencyConflict)
  | _ => False

/-- The call is still looking for its key, or has found it. -/
def Looking : Phase → Prop
  | .lookup => True
  | .lookupEntries _ => True
  | .done (.existing _ _) => True
  | _ => False

section Keys

variable {cfg : Config} {s₀ s : St} {i : Nat} {r : Request} {ret : Return} {acts : List Act}

/-- **A conflict needs a header**: with the key and the id unused a call does not come to one. -/
theorem next_conflicting {db : Db} {ch : Choice} {p p' : Phase} (hp : PhaseOk cfg db r p)
    (hn : Next cfg db r ch p p') (hkey : ∀ t ∈ db.transactions, t.idempotencyKey ≠ r.key)
    (hid : ∀ w, p.work? = some w → ∀ t ∈ db.transactions, t.id ≠ w.txn.id)
    (h : Conflicting p') : Conflicting p := by
  cases hn with
  | missed => cases r <;> exact False.elim h
  | lookupFails => cases r <;> exact False.elim h
  | lookupEntriesFails => cases r <;> exact False.elim h
  | @duplicate w tx ix todo k hix hin =>
      rcases duplicate_reverses hp.1 hix hin with ⟨_, ⟨t, ht, e⟩ | ⟨t, ht, e⟩⟩ | ⟨he, _⟩
      · exact absurd e (hid w rfl t ht)
      · exact absurd e (hkey t ht)
      · exact absurd (he.symm.trans h) (by decide)
  | keyNoText => cases r <;> cases h
  | statementFails he =>
      obtain ⟨_, _, rfl⟩ := stageErr_other he
      cases h
  | rolledBack w tx e =>
      unfold Request.afterTxErr at h
      split at h
      · assumption
      · exact Return.failed.inj h
  | refetchedEntries => trivial
  | refetchMissed => trivial
  | refetchFails => trivial
  | refetchEntriesFails => trivial
  | refetched => trivial
  | audited => exact h
  | auditFails => exact h
  | _ => cases h

/-- A call that meets no fault and does not return the transaction with its key has found the key
    unused. -/
theorem exec_missed (h₀ : SysInv cfg s₀) (hc : s₀.calls[i]? = some (.request r r.start))
    (hs : r.start = .lookup) (h : exec cfg s₀ acts = some s)
    (hh : ∀ a ∈ acts, a.healthyFor i = true) {p : Phase}
    (hp : s.calls[i]? = some (.request r p)) (hno : ¬Looking p) :
    KeyMissed s₀.db.toLedger r.key := by
  obtain ⟨p', hp', hP⟩ := exec_track
    (P := fun _ _ p => Looking p ∨ KeyMissed s₀.db.toLedger r.key) h₀ hc h
    (.inl (hs ▸ trivial)) (fun _ _ _ _ _ _ _ _ _ _ ih => ih)
    (fun as m ch m' p p' hpre hr _ _ _ hn ih => by
      have hch := healthy_of_mem hh hpre
      rcases ih with hl | hk
      · cases hn with
        | found => exact .inl trivial
        | replayed => exact .inl trivial
        | missed hk =>
            -- what is missed now was not there before
            exact .inr fun ht t htm =>
              hk ht t ((exec_extends h₀ hr).transaction t htm)
        | lookupFails => cases hch
        | lookupEntriesFails => cases hch
        | _ => exact False.elim hl
      · exact .inr hk)
  rw [hp] at hp'
  cases hp'
  exact hP.resolve_left hno

/-- A key that was unused when the call arrived and that nobody commits is unused all along. -/
theorem exec_missed_all (h₀ : SysInv cfg s₀) (h : exec cfg s₀ acts = some s)
    (hk : KeyMissed s₀.db.toLedger r.key)
    (huse : ∀ e ∈ history cfg s₀ acts, e.2.key? ≠ some r.key) {pre : List Act}
    (hpre : pre <+: acts) {m : St} (hm : exec cfg s₀ pre = some m) :
    KeyMissed m.db.toLedger r.key := fun ht t htm =>
  exec_key_unused h₀ h (hk ht) huse t ((exec_prefix_extends h₀ hpre hm h).transaction t htm)

/-- A call whose key and id stay unused reports no conflict. -/
theorem exec_unconflicted (h₀ : SysInv cfg s₀) (hc : s₀.calls[i]? = some (.request r r.start))
    (hs : r.start = .lookup) (h : exec cfg s₀ acts = some s)
    (hmissed : ∀ pre m, pre <+: acts → exec cfg s₀ pre = some m → KeyMissed m.db.toLedger r.key)
    (hid : ∀ u, .call i (.uuid u) ∈ acts → ∀ t ∈ s.db.transactions, t.id ≠ u)
    (hret : s.calls[i]? = some (.request r (.done ret))) :
    ret ≠ .failed (.sentinel .idempotencyConflict) := by
  obtain ⟨p, hp, hP⟩ := exec_track (P := fun _ _ p => ¬Conflicting p) h₀ hc h
    (by rw [hs]; exact id) (fun _ _ _ _ _ _ _ _ _ _ ih => ih)
    (fun as m ch m' p p' hpre hr hI _ hpm hn ih hcon => by
      have hpre := (List.prefix_append as _).trans hpre
      refine ih (next_conflicting (hI.calls i _ hpm) hn (fun t ht e => ?_) (fun w hw t ht => ?_)
        hcon)
      · exact hmissed as m hpre hr (e ▸ hI.text t ht) t ht e
      · exact hid _ (hpre.subset (exec_generated h₀ hc (by rw [hs]; rfl) hr hpm hw)) t
          ((exec_prefix_extends h₀ hpre hr h).transaction t ht))
  rw [hret] at hp
  cases hp
  exact hP

end Keys

/-! ## 5. Linearizability -/

/-- **The service is linearizable.** A call that meets no fault returns what the specification
    answers on the tables of one moment between its arrival and its return: the transaction with
    its key, a new posting, a sentinel or the refusal of the database. If it posts, it is the next
    action that commits, and otherwise the call commits nothing. For a call that fails, no other
    call may have committed its key meanwhile, and nobody may hold the id it has generated. -/
theorem linearizable {cfg : Config} {now clock : Time} {acts₀ acts : List Act} {s₁ s : St}
    (h₁ : exec cfg (St.start (Db.migrated now) clock) acts₀ = some s₁) {r : Request} {i : Nat}
    (hi : i = s₁.calls.length) (h : exec cfg (s₁.arrived r) acts = some s)
    (hh : ∀ a ∈ acts, a.healthyFor i = true) {ret : Return}
    (hret : s.calls[i]? = some (.request r (.done ret)))
    (hkey : ∀ e, ret = .failed e → ∀ c ∈ history cfg (s₁.arrived r) acts, c.1 ≠ i →
      c.2.key? ≠ some r.key)
    (hid : ∀ e, ret = .failed e → ∀ u, .call i (.uuid u) ∈ acts →
      ∀ t ∈ s.db.transactions, t.id ≠ u) :
    ∃ pre m p, pre <+: acts ∧ exec cfg (s₁.arrived r) pre = some m ∧
      m.calls[i]? = some (.request r p) ∧ (∀ ret, p ≠ .done ret) ∧
      (r.verdict cfg m.db.toLedger).Answers m.db.toLedger r ret ∧
      (∀ t entries, ret = .committed t entries → ∃ ch st, pre ++ [.call i ch] <+: acts ∧
        commitOf cfg m (.call i ch) = some (i, .request r st) ∧ st.txID = t.id) ∧
      ((∀ t entries, ret ≠ .committed t entries) →
        own (history cfg (s₁.arrived r) acts) i = []) := by
  subst hi
  have hI := inv_arrived (inv_exec (inv_start cfg now clock) h₁) r
  have hc := arrived_call s₁ r
  have hown : (∀ t entries, ret ≠ .committed t entries) →
      own (history cfg (s₁.arrived r) acts) s₁.calls.length = [] := fun hno => by
    refine exec_uncommitted hI hc h hh hret ?_
    cases ret with
    | committed t entries => exact absurd rfl (hno t entries)
    | _ => rfl
  have healthy : ¬∃ a ∈ acts, a.healthyFor s₁.calls.length = false := fun ⟨a, ha, hf⟩ => by
    rw [hh a ha] at hf
    cases hf
  rcases start_invalid r with ⟨hs, _⟩ | ⟨e, x, hs, hv, hx⟩
  · -- the keys of a failing call
    have hfailed : ∀ e, ret = .failed e → ∀ pre m, pre <+: acts →
        exec cfg (s₁.arrived r) pre = some m → KeyMissed m.db.toLedger r.key := by
      rintro e rfl pre m hpre hm
      have hempty := hown fun _ _ e => by cases e
      exact exec_missed_all hI h (exec_missed hI hc hs h hh hret id)
        (fun c hcm => hkey e rfl c hcm (own_eq_nil hempty c hcm)) hpre hm
    have hne : ret ≠ .failed (.sentinel .idempotencyConflict) := by
      intro e
      exact exec_unconflicted hI hc hs h (hfailed _ e) (hid _ e) hret e
    obtain ⟨pre, m, p, hpre, hr, hcm, hd, hdec, hcom⟩ :=
      (exec_decidedIn hI hc h hret hne).resolve_right fun hf => healthy hf.1
    refine ⟨pre, m, p, hpre, hr, hcm, hd, ?_, hcom, hown⟩
    have hIm := inv_exec hI hr
    cases hdec with
    | replayed ht hk hv =>
        rw [Request.verdict_replay hIm.ledger.keys hv ht hk (hIm.text _ ht)]
        exact rfl
    | posted hj hk =>
        rw [Request.verdict_new fun _ => hk, hj]
        exact ⟨_, rfl⟩
    | @failed e hj =>
        rw [Request.verdict_new (hfailed e rfl pre m hpre hr)]
        exact hj
  · -- the arguments are rejected on arrival
    have hend : ret = .failed (.sentinel x) := by
      obtain ⟨p, hp, hP⟩ := exec_track (P := fun _ _ p => Ends (.sentinel x) p) hI hc h
        (by rw [hs]; exact rfl) (fun _ _ _ _ _ _ _ _ _ _ ih => ih)
        (fun _ _ _ _ _ _ _ _ _ _ _ hn ih => (next_ends hn (by simpa using hx) ih).1)
      rw [hret] at hp
      cases hp
      exact hP
    subst hend
    refine ⟨[], _, _, List.nil_prefix, rfl, hc, fun _ e => ?_, ?_, fun _ _ e => (by cases e), hown⟩
    · rw [hs] at e
      cases e
    · rw [show r.verdict cfg (s₁.arrived r).db.toLedger = .reject x by
        simp only [Request.verdict, hv]]
      exact rfl

/-- Alice sends Bob 2500, and a first reversal arrives. -/
def undoBefore : List Act :=
  soloCall 0 (.transfer aliceID bobID (Money.fromInt 2500) (bytes "pay-1") (bytes "req-1"))
    100#128 ++ [.arrive (.reverse 100#128 (bytes "undo-1") (bytes "req-2"))]

/-- A second reversal, with a key of its own. -/
def undoAgain : Request := .reverse 100#128 (bytes "undo-2") (bytes "req-3")

/-- Both read the original before either writes; the first one commits, the second one comes to the
    index on the reversed transaction. -/
def undoRace : List Act :=
  List.replicate 3 (.call 1 .ok) ++ List.replicate 3 (.call 2 .ok) ++
    [.call 1 (.uuid 101#128), .call 2 (.uuid 102#128)] ++ List.replicate 17 (.call 1 .ok) ++
    List.replicate 13 (.call 2 .ok)

theorem undoBefore_isSome :
    (exec Config.migrated (St.start (Db.migrated 0) 1000) undoBefore).isSome = true := by
  decide +kernel

def undoStart : St :=
  (exec Config.migrated (St.start (Db.migrated 0) 1000) undoBefore).get undoBefore_isSome

theorem undoBefore_exec :
    exec Config.migrated (St.start (Db.migrated 0) 1000) undoBefore = some undoStart :=
  (Option.some_get undoBefore_isSome).symm

theorem undoRace_isSome :
    (exec Config.migrated (undoStart.arrived undoAgain) undoRace).isSome = true := by
  decide +kernel

def undoEnd : St :=
  (exec Config.migrated (undoStart.arrived undoAgain) undoRace).get undoRace_isSome

theorem undoRace_exec :
    exec Config.migrated (undoStart.arrived undoAgain) undoRace = some undoEnd :=
  (Option.some_get undoRace_isSome).symm

/-- The reversal that loses the race returns the verdict of a moment at which the other one has
    committed. -/
theorem linearizable_undo :
    undoEnd.calls[2]? =
        some (.request undoAgain (.done (.failed (.sentinel .alreadyReversed)))) ∧
      ∃ pre m, pre <+: undoRace ∧
        exec Config.migrated (undoStart.arrived undoAgain) pre = some m ∧
        (undoAgain.verdict Config.migrated m.db.toLedger).Answers m.db.toLedger undoAgain
          (.failed (.sentinel .alreadyReversed)) := by
  obtain ⟨hlen, hret, hids⟩ : 2 = undoStart.calls.length ∧
      undoEnd.calls[2]? =
        some (.request undoAgain (.done (.failed (.sentinel .alreadyReversed)))) ∧
      ∀ t ∈ undoEnd.db.transactions, t.id ≠ 102#128 := by
    decide +kernel
  have hkeys : ∀ c ∈ history Config.migrated (undoStart.arrived undoAgain) undoRace, c.1 ≠ 2 →
      c.2.key? ≠ some undoAgain.key := by decide +kernel
  have hu : ∀ u, Act.call 2 (.uuid u) ∈ undoRace → u = 102#128 := by
    intro u h
    simpa [undoRace] using h
  obtain ⟨pre, m, _, hpre, hm, _, _, hv, _⟩ := linearizable undoBefore_exec hlen undoRace_exec
    (by decide +kernel) hret (fun _ _ => hkeys)
    (fun _ _ u h t ht => hu u h ▸ hids t ht)
  exact ⟨hret, pre, m, hpre, hm, hv⟩

end BankingService
