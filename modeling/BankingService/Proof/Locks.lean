/-
  File:      BankingService/Proof/Locks.lean
  Subject:   WHAT A STEP DOES TO THE OPEN TRANSACTION OF ITS CALL: `now()` is fixed at BEGIN, and a
             row lock comes from the lock query alone.

  * `requestStep_tx` -- the transaction after a step has just begun, or has the time of the one
    before and, but for the row the lock query has reached, no new row lock.
  * `step_tx` -- the same for a step of the system, seen from any call.
  * `step_posts` -- a posting commits with both its accounts locked, and its header comes last on
    them.
-/
import BankingService.Proof.Track
import BankingService.Spec.Statement

namespace BankingService

open Lib

/-! ## 1. One call -/

/-- The transaction goes on with the same time and the same row locks. -/
def Tx.SameLocks (tx tx' : Tx) : Prop := tx'.now = tx.now ∧ tx'.forUpdate = tx.forUpdate

theorem updateBalance_locks {cfg : Config} {L : Ledger} {tx tx' : Tx} {id : UUID} {m : Money}
    (h : updateBalance cfg L tx id m = .ok tx') : tx.SameLocks tx' := by
  unfold updateBalance at h
  split at h
  · cases h
  · split at h
    · cases h
      exact ⟨rfl, rfl⟩
    · split at h
      · cases h
      · cases h
        exact ⟨rfl, rfl⟩

theorem insertIndex_locks {L : Ledger} {tx tx' : Tx} {k : Option IndexKey}
    (h : insertIndex L tx k = .ok tx') : tx.SameLocks tx' := by
  unfold insertIndex at h
  split at h
  · cases h
    exact ⟨rfl, rfl⟩
  · split at h
    · cases h
    · cases h
      exact ⟨rfl, rfl⟩

theorem insertHeader_locks {L : Ledger} {tx tx' : Tx} {t : Transaction}
    (h : insertHeader L tx t = .ok tx') : tx.SameLocks tx' := by
  unfold insertHeader at h
  split at h
  · cases h
    exact ⟨rfl, rfl⟩
  · split at h
    · cases h
      exact ⟨rfl, rfl⟩
    · cases h

theorem insertEntry_locks {cfg : Config} {db db' : Db} {tx tx' : Tx} {e : Entry}
    (h : insertEntry cfg db tx e = .ok (db', tx')) : tx.SameLocks tx' := by
  unfold insertEntry at h
  split at h
  · cases h
  · split at h
    · cases h
    · split at h
      · cases h
      · split at h
        · cases h
        · split at h
          · cases h
          · cases h
            exact ⟨rfl, rfl⟩

theorem afterLookup_tx (r : Request) : r.afterLookup.tx? = none := by cases r <;> rfl

theorem afterOriginal_tx (r : Request) (t : Transaction) (entries : List Entry) :
    (r.afterOriginal t entries).tx? = none := by
  unfold Request.afterOriginal
  split <;> rfl

theorem afterTxErr_tx (r : Request) (w : Work) (e : Err) : (r.afterTxErr w e).tx? = none := by
  unfold Request.afterTxErr
  split <;> rfl

/-- BEGIN. -/
def Phase.begins : Phase → Choice → Bool
  | .beginTx _, .ok => true
  | _, _ => false

/-- The database transaction of the call is over. -/
def Phase.isOver : Phase → Bool
  | .refetch _ => true
  | .refetchEntries _ _ => true
  | .audit _ _ => true
  | .done _ => true
  | _ => false

theorem Phase.tx?_of_isOver {p : Phase} (h : p.isOver = true) : p.tx? = none := by
  cases p with
  | refetch | refetchEntries | audit | done => rfl
  | _ => cases h

/-- It stays over. -/
theorem next_isOver {cfg : Config} {db : Db} {r : Request} {ch : Choice} {p p' : Phase}
    (hn : Next cfg db r ch p p') (h : p.isOver = true) : p'.isOver = true := by
  cases hn <;> first | rfl | cases h

/-- The row lock a step acquires. -/
def Phase.locks? : Phase → Choice → Option UUID
  | .inTx _ _ (.lockRow (id :: _) _), .ok => some id
  | _, _ => none

/-- The transaction `tx` has become `tx'`: the same time, and no row lock but the acquired one. -/
def Tx.GoesOn (tx tx' : Tx) (lock? : Option UUID) : Prop :=
  tx'.now = tx.now ∧
    ∀ row ∈ tx'.forUpdate, row ∈ tx.forUpdate ∨ ∃ id, lock? = some id ∧ row = .account id

theorem Tx.SameLocks.goesOn {tx tx' : Tx} (h : tx.SameLocks tx') (lock? : Option UUID) :
    tx.GoesOn tx' lock? :=
  ⟨h.1, fun _ hr => .inl (h.2 ▸ hr)⟩

theorem Tx.goesOn_refl (tx : Tx) (lock? : Option UUID) : tx.GoesOn tx lock? :=
  Tx.SameLocks.goesOn ⟨rfl, rfl⟩ lock?

section OneCall

variable {cfg : Config} {db db' : Db} {r : Request} {w : Work} {tx tx' : Tx} {stage : Stage}

/-- A statement inside the transaction. -/
theorem stageStep_tx (h : (stageStep cfg db r w tx stage).2.tx? = some tx') :
    tx.GoesOn tx' ((Phase.inTx w tx stage).locks? .ok) := by
  cases stage with
  | lock => cases h; exact tx.goesOn_refl _
  | lockRow todo rows =>
      cases todo with
      | nil =>
          simp only [stageStep] at h
          split at h <;> (cases h; exact tx.goesOn_refl _)
      | cons id todo =>
          simp only [stageStep] at h
          split at h
          · cases h; exact tx.goesOn_refl _
          · cases h
            refine ⟨rfl, fun row hr => ?_⟩
            rcases List.mem_append.mp hr with hr | hr
            · exact .inl hr
            · exact .inr ⟨id, rfl, List.mem_singleton.mp hr⟩
  | updateDebit =>
      simp only [stageStep] at h
      split at h
      · cases h; exact tx.goesOn_refl _
      · rename_i hu
        cases h
        exact (updateBalance_locks hu).goesOn _
  | updateCredit =>
      simp only [stageStep] at h
      split at h
      · cases h; exact tx.goesOn_refl _
      · rename_i hu
        cases h
        exact (updateBalance_locks hu).goesOn _
  | insertHeader =>
      simp only [stageStep] at h
      split at h <;> (cases h; exact tx.goesOn_refl _)
  | insertIndex todo =>
      cases todo with
      | cons ix todo =>
          simp only [stageStep] at h
          split at h
          · cases h; exact tx.goesOn_refl _
          · rename_i hi
            cases h
            exact (insertIndex_locks hi).goesOn _
      | nil =>
          simp only [stageStep] at h
          split at h
          · cases h; exact tx.goesOn_refl _
          · rename_i hi
            split at h <;> (cases h; exact (insertHeader_locks hi).goesOn _)
  | insertEntries todo =>
      cases todo with
      | nil => cases h; exact tx.goesOn_refl _
      | cons e todo =>
          simp only [stageStep] at h
          split at h
          · cases h; exact tx.goesOn_refl _
          · rename_i hi
            cases h
            exact (insertEntry_locks hi).goesOn _
  | commit =>
      simp only [stageStep] at h
      split at h
      · cases h; exact tx.goesOn_refl _
      · cases h
  | rollback e =>
      rw [show stageStep cfg db r w tx (.rollback e) = (db, r.afterTxErr w e) from rfl,
        afterTxErr_tx] at h
      cases h

/-- **A step of a call**: its transaction has just begun, or goes on. -/
theorem requestStep_tx {now : Time} {others : List Tx} {p p' : Phase} {ch : Choice}
    (h : requestStep cfg now others db r p ch = some (db', p')) (ht : p'.tx? = some tx') :
    (p.begins ch = true ∧ tx' = Tx.start now) ∨
      ∃ tx, p.tx? = some tx ∧ tx.GoesOn tx' (p.locks? ch) := by
  cases p with
  | beginTx w =>
      cases ch with
      | ok => cases h; cases ht; exact .inl ⟨rfl, rfl⟩
      | fail => cases h; cases ht
      | _ => cases h
  | inTx w tx stage =>
      refine .inr ⟨tx, rfl, ?_⟩
      cases ch with
      | ok =>
          simp only [requestStep] at h
          split at h
          · cases h
          · rw [← show (stageStep cfg db r w tx stage).2 = p' from
              congrArg Prod.snd (Option.some.inj h)] at ht
            exact stageStep_tx ht
      | fail text =>
          simp only [requestStep] at h
          obtain ⟨e, _, e'⟩ := Option.map_eq_some_iff.mp h
          cases e'
          cases ht
          exact Tx.goesOn_refl _ _
      | lostAck text =>
          cases stage with
          | commit =>
              simp only [requestStep] at h
              split at h
              · cases h
              · cases h
                rw [afterTxErr_tx] at ht
                cases ht
          | _ => cases h
      | uuid => cases stage <;> cases h
  | lookup =>
      cases ch with
      | ok =>
          simp only [requestStep] at h
          split at h
          · cases h; cases ht
          · cases h; rw [afterLookup_tx] at ht; cases ht
      | fail => cases h; rw [afterLookup_tx] at ht; cases ht
      | _ => cases h
  | lookupEntries t =>
      cases ch with
      | ok => cases h; cases ht
      | fail => cases h; rw [afterLookup_tx] at ht; cases ht
      | _ => cases h
  | originalEntries t =>
      cases ch with
      | ok => cases h; rw [afterOriginal_tx] at ht; cases ht
      | fail => cases h; cases ht
      | _ => cases h
  | _ =>
      cases ch with
      | ok =>
          simp only [requestStep] at h
          first | (cases h <;> cases ht) | (split at h <;> (cases h; cases ht))
      | _ => cases h <;> cases ht

end OneCall

/-! ## 2. The system -/

section System

variable {cfg : Config} {s s' : St} {a : Act} {i : Nat}

/-- **A step seen from an open transaction**: it was open before and its call stays, it has just
    begun, or its call's step has let it go on. -/
theorem step_tx (h : step cfg s a = some s') {tx' : Tx} (ht : s'.tx? i = some tx') :
    (s.tx? i = some tx' ∧ ∀ ch, a ≠ .call i ch) ∨
      ∃ ch r p, a = .call i ch ∧ s.calls[i]? = some (.request r p) ∧
        ((p.begins ch = true ∧ tx' = Tx.start s.clock) ∨
          ∃ tx, p.tx? = some tx ∧ tx.GoesOn tx' (p.locks? ch)) := by
  obtain ⟨r, w, stage, hc'⟩ := St.call_of_tx? ht
  cases hc : s.calls[i]? with
  | some c =>
      rcases step_slot h hc with ⟨hstay, hne⟩ | ⟨ch, db', c', rfl, hc'', hcall⟩
      · rw [hc'] at hstay
        cases hstay
        exact .inl ⟨St.tx?_of_call hc, hne⟩
      · rw [hc'] at hc''
        cases hc''
        cases c with
        | request r₁ p =>
            obtain ⟨⟨db₁, p'⟩, hreq, e⟩ := Option.map_eq_some_iff.mp hcall
            cases e
            exact .inr ⟨ch, _, p, rfl, rfl, requestStep_tx hreq rfl⟩
        | createAccount name p =>
            obtain ⟨_, _, e⟩ := Option.map_eq_some_iff.mp hcall
            cases e
  | none =>
      -- a call that has just arrived has no transaction
      rcases step_cases h with ⟨r₁, rfl, rfl⟩ | ⟨name, rfl, rfl⟩ | ⟨d, rfl, rfl⟩ |
        ⟨j, ch, c, db', c', rfl, hj, hs, rfl⟩
      · rcases getElem?_snoc hc' with h' | ⟨_, e⟩
        · rw [hc] at h'
          cases h'
        · have := (start_ok cfg s.db r₁).2
          rw [← (Call.request.inj e).2] at this
          cases this
      · rcases getElem?_snoc hc' with h' | ⟨_, e⟩
        · rw [hc] at h'
          cases h'
        · cases e
      · rw [hc] at hc'
        cases hc'
      · have hij : j ≠ i := fun e => by
          rw [← e, hj] at hc
          cases hc
        rw [List.getElem?_set_ne hij, hc] at hc'
        cases hc'

/-- **A posting that commits** has both its accounts locked, and its header comes last on these two
    accounts, with the time its transaction began; its transaction is closed. -/
theorem step_posts (hI : SysInv cfg s) (h : step cfg s a = some s') {r : Request} {st : Stamp}
    (hl : commitOf cfg s a = some (i, .request r st)) :
    (∃ ch, a = .call i ch) ∧ (∃ r p, s'.calls[i]? = some (.request r p) ∧ p.isOver = true) ∧
      ∃ w tx t, s.calls[i]? = some (.request r (.inTx w tx .commit)) ∧ t.createdAt = tx.now ∧
        ∀ id, s'.db.headersOf id = s.db.headersOf id ∨
          ((id = w.posting.debitID ∨ id = w.posting.creditID) ∧ .account id ∈ tx.forUpdate ∧
            s'.db.headersOf id = s.db.headersOf id ++ [t]) := by
  obtain ⟨ch, w, tx, rfl, hc⟩ := commitOf_request hl
  have happly := step_commit hI h hl
  obtain ⟨hw, ht, hs⟩ := hI.calls i _ hc
  obtain ⟨L, n, m, _, hst, hL, happly'⟩ := commitTx_ok cfg hI.ledger hw ht hs
  have hfresh := apply_fresh happly'
  rw [hst] at hfresh
  -- the commit of the label is the one of the call's transaction
  have hstamp : st = w.stamp tx := by
    rw [commitOf_own hI hc] at hl
    obtain ⟨k, hk, e⟩ := Option.map_eq_some_iff.mp hl
    cases hx : ch.executes <;> simp [Phase.commit?, hx] at hk
    cases e
    exact (Commit.request.inj hk).2.symm
  have hdb : s'.db.toLedger = L := by
    rw [hstamp] at happly
    exact Option.some.inj (happly.symm.trans happly')
  refine ⟨⟨ch, rfl⟩, ?_, w, tx, ⟨w.txn.id, r.kind, r.key, r.reverses, tx.now⟩, hc, rfl,
    fun id => ?_⟩
  · rcases step_call hI h hc with ⟨_, hne⟩ | ⟨ch', p', e, hc', hn⟩
    · exact absurd rfl (hne ch)
    · cases e
      refine ⟨r, p', hc', ?_⟩
      cases hn with
      | committed => rfl
      | ackLost => rfl
      | statementFails =>
          rw [commitOf_own hI hc] at hl
          cases hl
  · obtain ⟨da, ca, _, hu, _⟩ := hs
    rw [hdb, hL, headersOf_post hfresh (entries_fresh hI.ledger hfresh)]
    split
    · rename_i hid
      refine .inr ⟨hid, ?_, rfl⟩
      rcases hid with rfl | rfl
      · exact hu.debitLocked
      · exact hu.creditLocked
    · exact .inl (List.append_nil _)

end System

end BankingService
