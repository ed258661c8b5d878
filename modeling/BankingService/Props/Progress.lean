/-
  File:      BankingService/Props/Progress.lean
  Subject:   DEADLOCK FREEDOM of the lock protocol, and that every call can come to its end.

  A transaction blocks on three kinds of things: an account row, an entry of a unique index that an
  uncommitted INSERT holds, and a row a foreign key has to share. `Resource.lt` orders them:
  accounts by `id::text`, below all index entries, and those by the index they are in (primary key,
  idempotency key, reversed transaction), which is the order one INSERT fills them.

  * `wants_of_blocked` -- what a blocked statement waits for is held by the transaction it waits
    for. The UPDATEs and the foreign key checks never wait: the rows they need are locked already.
  * `holds_lt_wants` -- a transaction holds only what is below what it waits for. Two reversals of
    one transfer cannot wait crosswise: the second one gets no further than the first one's entry.
  * `deadlock_free` -- so the waits-for relation has no cycle, and as long as a transaction is open,
    some open transaction can take a step.
  * `next_rank` -- every step of a call lowers its rank; `exists_return` -- so from every reachable
    state some run without a fault brings every call to its return.
-/
import Mathlib.Data.Set.Finite.Basic
import BankingService.Lib.WaitFor
import BankingService.Proof.Track

namespace BankingService

open Lib Relation

/-! ## 1. Resources and their order -/

/-- What a transaction can hold against others. -/
inductive Resource where
  | account (id : UUID)
  | index (k : IndexKey)

/-- The place of an index among those of `transactions`. -/
def UniqueIndex.level : UniqueIndex → Nat
  | .pkey => 0
  | .idempotencyKey => 1
  | .reverses => 2

/-- The place of an entry's index. -/
def IndexKey.level : IndexKey → Nat
  | .id _ => UniqueIndex.pkey.level
  | .key _ => UniqueIndex.idempotencyKey.level
  | .reverses _ => UniqueIndex.reverses.level

theorem level_indexKey {t : Transaction} {ix : UniqueIndex} {k : IndexKey}
    (h : t.indexKey ix = some k) : k.level = ix.level := by
  cases ix with
  | pkey => cases h; rfl
  | idempotencyKey => cases h; rfl
  | reverses =>
      obtain ⟨u, _, rfl⟩ := Option.map_eq_some_iff.mp h
      rfl

/-- The order in which a transaction acquires. -/
def Resource.lt (cfg : Config) : Resource → Resource → Prop
  | .account a, .account b => cfg.textLe a b = true ∧ a ≠ b
  | .account _, .index _ => True
  | .index _, .account _ => False
  | .index k, .index k' => k.level < k'.level

theorem Resource.lt_irrefl (cfg : Config) (a : Resource) : ¬a.lt cfg a := by
  cases a with
  | account => exact fun h => h.2 rfl
  | index => exact Nat.lt_irrefl _

theorem Resource.lt_trans (cfg : Config) (a b c : Resource) (h : a.lt cfg b) (h' : b.lt cfg c) :
    a.lt cfg c := by
  cases a with
  | account a =>
      cases c with
      | index => trivial
      | account c =>
          cases b with
          | index => exact h'.elim
          | account b =>
              refine ⟨cfg.textLe_trans a b c h.1 h'.1, fun e => h.2 ?_⟩
              exact cfg.textLe_antisymm a b h.1 (e ▸ h'.1)
  | index a =>
      cases b with
      | account => exact h.elim
      | index b =>
          cases c with
          | account => exact h'.elim
          | index c => exact Nat.lt_trans h h'

/-- What an open transaction holds. A `FOR KEY SHARE` lock on an account counts where it goes beyond
    the `FOR UPDATE` locks, which it never does. -/
def Tx.holds (t : Tx) : Resource → Prop
  | .account id => .account id ∈ t.forUpdate
  | .index k => k ∈ t.index

/-- What a call waits for if it has to wait. -/
def Phase.wants : Phase → Option Resource
  | .inTx _ _ (.lockRow (id :: _) _) => some (.account id)
  | .inTx w _ (.insertIndex (ix :: _)) => (w.txn.indexKey ix).map .index
  | _ => none

/-! ## 2. Waits -/

section Waits

variable {cfg : Config} {db : Db} {r : Request} {w : Work} {tx t : Tx} {stage : Stage}

/-- **A wait is for something held**, and only at the lock query or at an index. -/
theorem wants_of_blocked (hp : PhaseOk cfg db r (.inTx w tx stage)) (ht : TxOk db.toLedger t)
    (hapart : tx.Apart t) (hb : (Phase.inTx w tx stage).blockedBy t = true) :
    ∃ x, (Phase.inTx w tx stage).wants = some x ∧ t.holds x := by
  obtain ⟨_, _, hs⟩ := hp
  cases stage with
  | lockRow todo rows =>
      cases todo with
      | nil => cases hb
      | cons id todo =>
          simp only [Phase.blockedBy, Bool.or_eq_true, decide_eq_true_eq] at hb
          exact ⟨_, rfl, hb.elim (fun h => h) (ht.share id)⟩
  | updateDebit nd nc =>
      obtain ⟨da, ca, hh, _⟩ := hs
      exact absurd (of_decide_eq_true hb) (hapart.rows _ hh.debitLocked)
  | updateCredit nc =>
      obtain ⟨da, ca, hu, _⟩ := hs
      exact absurd (of_decide_eq_true hb) (hapart.rows _ hu.creditLocked)
  | insertIndex todo =>
      cases todo with
      | nil =>
          simp only [Phase.blockedBy, Option.any_eq_true_iff_get, decide_eq_true_eq] at hb
          obtain ⟨_, hin⟩ := hb
          exact absurd hin (ht.rows _)
      | cons ix todo =>
          cases hk : w.txn.indexKey ix with
          | none =>
              simp only [Phase.blockedBy, hk] at hb
              cases hb
          | some k =>
              simp only [Phase.blockedBy, hk, Option.any_some, decide_eq_true_eq] at hb
              exact ⟨.index k, by simp [Phase.wants, hk], hb⟩
  | insertEntries todo =>
      cases todo with
      | nil => cases hb
      | cons e todo =>
          obtain ⟨da, ca, rows, hu, _, he, _⟩ := hs
          simp only [Phase.blockedBy, Bool.or_eq_true, decide_eq_true_eq] at hb
          rcases hb with hb | hb
          · exact absurd hb (ht.rows _)
          · refine absurd hb (hapart.rows _ ?_)
            rcases he.of_cons with ⟨hl, _⟩ | ⟨n, _, hl, _⟩
            · obtain ⟨rfl, _⟩ := List.cons.inj hl
              exact hu.debitLocked
            · obtain ⟨rfl, _⟩ := List.cons.inj hl
              exact hu.creditLocked
  | _ => cases hb

/-- The indexes before the next one are below it. -/
theorem level_lt_of_split {done todo : List UniqueIndex} {ix : UniqueIndex}
    (hall : UniqueIndex.all = done ++ ix :: todo) {t : Transaction} {k k' : IndexKey}
    (hk : k ∈ done.filterMap t.indexKey) (hk' : t.indexKey ix = some k') : k.level < k'.level := by
  obtain ⟨j, hj, he⟩ := List.mem_filterMap.mp hk
  have hsorted : UniqueIndex.all.Pairwise fun i j => i.level < j.level := by decide
  rw [hall, List.pairwise_append] at hsorted
  rw [level_indexKey he, level_indexKey hk']
  exact hsorted.2.2 j hj ix List.mem_cons_self

/-- **What a waiting transaction holds is below what it waits for.** -/
theorem holds_lt_wants (hp : PhaseOk cfg db r (.inTx w tx stage)) {x y : Resource}
    (hx : (Phase.inTx w tx stage).wants = some x) (hy : tx.holds y) : y.lt cfg x := by
  obtain ⟨_, ht, hs⟩ := hp
  cases stage with
  | lockRow todo rows =>
      cases todo with
      | nil => cases hx
      | cons id todo =>
          cases hx
          have hs : LockingOk cfg db.toLedger w.posting tx (id :: todo) rows := hs
          cases y with
          | index k =>
              have hy : k ∈ tx.index := hy
              rw [hs.wrote.index] at hy
              exact absurd hy List.not_mem_nil
          | account a =>
              have hy : Row.account a ∈ tx.forUpdate := hy
              rw [hs.locked] at hy
              obtain ⟨row, hrow, e⟩ := List.mem_map.mp hy
              cases e
              exact (List.pairwise_append.mp hs.sorted).2.2 _ (List.mem_map.mpr ⟨row, hrow, rfl⟩) id
                List.mem_cons_self
  | insertIndex todo =>
      cases todo with
      | nil => cases hx
      | cons ix todo =>
          obtain ⟨k', hk', rfl⟩ := Option.map_eq_some_iff.mp hx
          cases y with
          | account => trivial
          | index k =>
              obtain ⟨da, ca, done, _, _, hall, hwr⟩ := hs
              have hy : k ∈ tx.index := hy
              rw [hwr.index] at hy
              exact level_lt_of_split hall hy hk'
  | _ => cases hx

end Waits

/-! ## 3. Deadlock freedom -/

/-- Call `i` is at a statement that has to wait for the open transaction of call `j`. -/
def waitsFor (s : St) (i j : Nat) : Prop :=
  i ≠ j ∧ ∃ r p t, s.calls[i]? = some (.request r p) ∧ s.tx? j = some t ∧ p.blockedBy t = true

/-- What call `i` waits for. -/
def St.wants (s : St) (i : Nat) : Option Resource :=
  match s.calls[i]? with
  | some (.request _ p) => p.wants
  | _ => none

/-- What call `i` holds. -/
def St.holds (s : St) (i : Nat) (x : Resource) : Prop := ∃ t, s.tx? i = some t ∧ t.holds x

section System

variable {cfg : Config} {s : St}

theorem SysInv.txOk (hI : SysInv cfg s) {i : Nat} {t : Tx} (h : s.tx? i = some t) :
    TxOk s.db.toLedger t := by
  obtain ⟨r, w, stage, hc⟩ := St.call_of_tx? h
  exact (hI.calls i _ hc).2.1

/-- A blocked call is inside a transaction. -/
theorem Phase.inTx_of_blocked {p : Phase} {t : Tx} (h : p.blockedBy t = true) :
    ∃ w tx stage, p = .inTx w tx stage := by
  cases p with
  | inTx w tx stage => exact ⟨w, tx, stage, rfl⟩
  | _ => cases h

theorem waitsFor_spec (hI : SysInv cfg s) {i j : Nat} (h : waitsFor s i j) :
    WaitsFor s.wants s.holds i j := by
  obtain ⟨hij, r, p, t, hc, ht, hb⟩ := h
  obtain ⟨w, tx, stage, rfl⟩ := Phase.inTx_of_blocked hb
  have hti : s.tx? i = some tx := St.tx?_of_call hc
  obtain ⟨x, hx, hh⟩ := wants_of_blocked (hI.calls i _ hc) (hI.txOk ht)
    (hI.apart i j tx t hij hti ht) hb
  exact ⟨x, by rw [St.wants, hc]; exact hx, t, ht, hh⟩

/-- Every call acquires in the order of the resources. -/
theorem ordered (hI : SysInv cfg s) (i : Nat) (x y : Resource) (hx : s.wants i = some x)
    (hy : s.holds i y) : y.lt cfg x := by
  obtain ⟨t, ht, hy⟩ := hy
  obtain ⟨r, w, stage, hc⟩ := St.call_of_tx? ht
  rw [St.wants, hc] at hx
  exact holds_lt_wants (hI.calls i _ hc) hx hy

/-- A call inside a transaction that waits for nobody can take its next step. -/
theorem step_of_free {i : Nat} {t : Tx} (ht : s.tx? i = some t) (hfree : ∀ j, ¬waitsFor s i j) :
    (step cfg s (.call i .ok)).isSome = true := by
  obtain ⟨r, w, stage, hc⟩ := St.call_of_tx? ht
  have hb : (s.others i).any (Phase.inTx w t stage).blockedBy = false := by
    refine List.any_eq_false.mpr fun t' ht' hb => ?_
    obtain ⟨j, hj, htj⟩ := St.mem_others.mp ht'
    exact hfree j ⟨Ne.symm hj, r, _, t', hc, htj, hb⟩
  simp [step, hc, callStep, requestStep, hb]

/-- Nobody waits for itself, not even through others. -/
theorem SysInv.acyclic (hI : SysInv cfg s) (i : Nat) : ¬TransGen (waitsFor s) i i := fun hi =>
  acyclic_of_ordered (Resource.lt_irrefl cfg) (Resource.lt_trans cfg) (ordered hI) i
    (TransGen.mono (fun _ _ => waitsFor_spec hI) _ _ hi)

/-- While a transaction is open, some open transaction can take its next step. -/
theorem SysInv.exists_open_step (hI : SysInv cfg s) (hopen : ∃ i, (s.tx? i).isSome = true) :
    ∃ i, (s.tx? i).isSome = true ∧ (step cfg s (.call i .ok)).isSome = true := by
  have hfin : {i | (s.tx? i).isSome = true}.Finite := by
    refine (Finset.range s.calls.length).finite_toSet.subset fun i hi => ?_
    obtain ⟨t, ht⟩ := Option.isSome_iff_exists.mp hi
    obtain ⟨r, w, stage, hc⟩ := St.call_of_tx? ht
    exact Finset.mem_coe.mpr (Finset.mem_range.mpr (List.getElem?_eq_some_iff.mp hc).1)
  obtain ⟨i, hi, hfree⟩ := exists_free hI.acyclic hfin hopen fun i _ j ⟨_, _, _, t, _, ht, _⟩ => by
    simp [ht]
  obtain ⟨t, ht⟩ := Option.isSome_iff_exists.mp hi
  exact ⟨i, hi, step_of_free ht hfree⟩

end System

/-- **Deadlock freedom.** In every reachable state the waits-for relation has no cycle; and whenever
    some transaction is open, some open transaction can take its next step. -/
theorem deadlock_free {cfg : Config} {now clock : Time} {acts : List Act} {s : St}
    (h : exec cfg (St.start (Db.migrated now) clock) acts = some s) :
    (∀ i, ¬TransGen (waitsFor s) i i) ∧
      ((∃ i, (s.tx? i).isSome = true) →
        ∃ i, (s.tx? i).isSome = true ∧ (step cfg s (.call i .ok)).isSome = true) := by
  have hI := inv_exec (inv_start cfg now clock) h
  exact ⟨hI.acyclic, hI.exists_open_step⟩

/-- Alice sends Bob money while Bob sends Alice money; the first has locked one row and the second
    has started its lock query. -/
def crossRun : List Act :=
  [.arrive (.transfer aliceID bobID (Money.fromInt 1) (bytes "ab") (bytes "req-1")),
    .arrive (.transfer bobID aliceID (Money.fromInt 1) (bytes "ba") (bytes "req-2")),
    .call 0 .ok, .call 1 .ok, .call 0 (.uuid 100#128), .call 1 (.uuid 101#128),
    .call 0 .ok, .call 1 .ok, .call 0 .ok, .call 1 .ok, .call 0 .ok]

theorem crossRun_isSome :
    (exec Config.migrated (St.start (Db.migrated 0) 1000) crossRun).isSome = true := by
  decide +kernel

/-- There the second transfer is blocked, there is no cycle, and somebody can step. -/
theorem deadlock_free_crossRun :
    let s := (exec Config.migrated (St.start (Db.migrated 0) 1000) crossRun).get crossRun_isSome
    step Config.migrated s (.call 1 .ok) = none ∧ (∀ i, ¬TransGen (waitsFor s) i i) ∧
      ∃ i, (s.tx? i).isSome = true ∧ (step Config.migrated s (.call i .ok)).isSome = true := by
  intro s
  have h := deadlock_free (Option.some_get crossRun_isSome).symm
  exact ⟨by decide +kernel, h.1, h.2 ⟨0, by decide +kernel⟩⟩

/-! ## 4. Every call can come to its end -/

/-- An upper bound on the steps a call has left inside `WithTx` and after it. -/
def Stage.rank : Stage → Nat
  | .rollback _ => 4
  | .commit => 5
  | .insertEntries todo => 6 + todo.length
  | .insertIndex todo => 9 + todo.length
  | .insertHeader => 13
  | .updateCredit _ => 14
  | .updateDebit _ _ => 15
  | .lockRow todo _ => 16 + todo.length
  | .lock => 19

/-- An upper bound on the steps a call has left. -/
def Phase.rank : Phase → Nat
  | .done _ => 0
  | .audit _ _ => 1
  | .refetchEntries _ _ => 2
  | .refetch _ => 3
  | .inTx _ _ stage => stage.rank
  | .beginTx _ => 20
  | .newID _ => 21
  | .originalEntries _ => 22
  | .original _ => 23
  | .lookupEntries _ => 24
  | .lookup => 25

def CreatePhase.rank : CreatePhase → Nat
  | .newID => 2
  | .insert _ => 1
  | .done _ => 0
  | .failed _ => 0

def Call.rank : Call → Nat
  | .request _ p => p.rank
  | .createAccount _ p => p.rank

def St.rank (s : St) : Nat := (s.calls.map Call.rank).sum

section Rank

variable {cfg : Config} {db db' : Db} {r : Request} {ch : Choice} {p p' : Phase}

theorem rank_afterLookup (r : Request) : r.afterLookup.rank < 24 := by
  cases r <;> simp [Request.afterLookup, Phase.rank]

theorem rank_afterTxErr (r : Request) (w : Work) (e : Err) : (r.afterTxErr w e).rank < 4 := by
  unfold Request.afterTxErr
  split <;> simp [Request.reject, Phase.rank]

/-- The lock query names at most two rows. -/
theorem length_lockAccountsForUpdate (cfg : Config) {L : Ledger} (hI : LedgerInv L) (a b : UUID) :
    (lockAccountsForUpdate cfg L [a, b]).length ≤ 2 := by
  have hnd : (lockAccountsForUpdate cfg L [a, b]).Nodup :=
    (lockAccountsForUpdate_sorted cfg hI [a, b]).imp fun h => h.2
  exact (hnd.subperm fun id hid => ((lockAccountsForUpdate_mem cfg L _ id).mp hid).1).length_le

/-- A statement that can fail is before the rollback. -/
theorem rank_stageErr {text : String} {stage : Stage} {e : Err}
    (h : stageErr r text stage = some e) : 4 < stage.rank := by
  cases stage with
  | rollback => cases h
  | _ =>
      simp only [Stage.rank]
      omega

/-- **Every step of a service call lowers its rank.** -/
theorem next_rank (hI : LedgerInv db.toLedger) (hn : Next cfg db r ch p p') : p'.rank < p.rank := by
  cases hn with
  | missed => exact (rank_afterLookup r).trans (by decide)
  | lookupFails => exact (rank_afterLookup r).trans (by decide)
  | lookupEntriesFails => exact rank_afterLookup r
  | locking w tx =>
      have := length_lockAccountsForUpdate cfg hI w.posting.first w.posting.second
      simp only [Phase.rank, Stage.rank]
      omega
  | statementFails h => exact rank_stageErr h
  | rolledBack w tx e => exact rank_afterTxErr r w e
  | duplicate =>
      simp only [Phase.rank, Stage.rank]
      omega
  | entryRefused =>
      simp only [Phase.rank, Stage.rank]
      omega
  | _ =>
      simp [Phase.rank, Stage.rank, Request.rejectOriginal, Request.reject, UniqueIndex.all,
        Work.legs]

/-- Every step of `CreateAccount` lowers its rank. -/
theorem createStep_rank {name : GoString} {p p' : CreatePhase}
    (h : createStep db name p ch = some (db', p')) : p'.rank < p.rank := by
  cases p with
  | newID => cases ch <;> cases h <;> simp [CreatePhase.rank]
  | insert id =>
      cases ch with
      | ok =>
          simp only [createStep] at h
          split at h <;> cases h <;> exact Nat.zero_lt_one
      | fail =>
          cases h
          exact Nat.zero_lt_one
      | lostAck =>
          simp only [createStep] at h
          split at h
          · cases h
          · cases h
            exact Nat.zero_lt_one
      | uuid => cases h
  | done => cases ch <;> cases h
  | failed => cases ch <;> cases h

/-- **Every step of a call lowers the rank of the system**; there is no endless run without
    arrivals. -/
theorem step_rank {s s' : St} {i : Nat} (hI : SysInv cfg s)
    (h : step cfg s (.call i ch) = some s') : s'.rank < s.rank := by
  rcases step_cases h with ⟨_, e, _⟩ | ⟨_, e, _⟩ | ⟨_, e, _⟩ | ⟨j, ch', c, db', c', e, hc, hs, rfl⟩
  · cases e
  · cases e
  · cases e
  · cases e
    refine sum_set_lt hc ?_
    cases c with
    | request r p =>
        obtain ⟨⟨db₁, p'⟩, hp, e⟩ := Option.map_eq_some_iff.mp hs
        cases e
        exact next_rank hI.ledger (requestStep_ok hI.ledger (hI.calls i _ hc) hp).2.1
    | createAccount name p =>
        obtain ⟨⟨db₁, p'⟩, hp, e⟩ := Option.map_eq_some_iff.mp hs
        cases e
        exact createStep_rank hp

end Rank

/-- The call has returned. -/
def Call.finished : Call → Bool
  | .request _ (.done _) => true
  | .createAccount _ (.done _) => true
  | .createAccount _ (.failed _) => true
  | _ => false

section Return

variable {cfg : Config} {s : St}

/-- A call outside a transaction that has not returned can take its next step. -/
theorem step_outside {i : Nat} {c : Call} (hc : s.calls[i]? = some c) (ht : c.tx? = none)
    (hf : c.finished = false) :
    ∃ ch, ch.healthy = true ∧ (step cfg s (.call i ch)).isSome = true := by
  simp only [step, hc, callStep, Option.isSome_map]
  cases c with
  | request r p =>
      cases p with
      | inTx => cases ht
      | done => cases hf
      | newID => exact ⟨.uuid 0, rfl, rfl⟩
      | _ =>
          refine ⟨.ok, rfl, ?_⟩
          simp only [requestStep, Option.isSome_map]
          first | rfl | (split <;> rfl)
  | createAccount name p =>
      cases p with
      | newID => exact ⟨.uuid 0, rfl, rfl⟩
      | insert id =>
          refine ⟨.ok, rfl, ?_⟩
          simp only [createStep, Option.isSome_map]
          split <;> rfl
      | done => cases hf
      | failed => cases hf

/-- **A system in which some call has not returned can take a step without a fault.** -/
theorem exists_step (hI : SysInv cfg s) (h : ¬∀ c ∈ s.calls, c.finished = true) :
    ∃ i ch, ch.healthy = true ∧ (step cfg s (.call i ch)).isSome = true := by
  by_cases hopen : ∃ i, (s.tx? i).isSome = true
  · obtain ⟨i, _, hs⟩ := hI.exists_open_step hopen
    exact ⟨i, .ok, rfl, hs⟩
  · push Not at h
    obtain ⟨c, hc, hf⟩ := h
    obtain ⟨i, hi⟩ := List.mem_iff_getElem?.mp hc
    have ht : c.tx? = none := by
      rw [← St.tx?_of_call hi]
      exact Option.not_isSome_iff_eq_none.mp fun h => hopen ⟨i, h⟩
    obtain ⟨ch, hch, hs⟩ := step_outside hi ht (Bool.eq_false_iff.mpr hf)
    exact ⟨i, ch, hch, hs⟩

/-- **Every call can come to its return**, whatever state the system is in. -/
theorem exists_return (hI : SysInv cfg s) {i : Nat} {r : Request} {p : Phase}
    (hc : s.calls[i]? = some (.request r p)) :
    ∃ acts s' ret, (∀ a ∈ acts, a.healthy = true) ∧ exec cfg s acts = some s' ∧
      s'.calls[i]? = some (.request r (.done ret)) := by
  have progress : ∀ s, SysInv cfg s → ¬(∀ c ∈ s.calls, c.finished = true) →
      ∃ a s', Act.healthy a = true ∧ step cfg s a = some s' ∧ SysInv cfg s' ∧ s'.rank < s.rank := by
    intro s hI hn
    obtain ⟨i, ch, hch, hs⟩ := exists_step hI hn
    obtain ⟨s', hs⟩ := Option.isSome_iff_exists.mp hs
    exact ⟨.call i ch, s', hch, hs, inv_step hI hs, step_rank hI hs⟩
  obtain ⟨acts, s', hok, hrun, hrest⟩ := exists_run_to_rest progress hI
  obtain ⟨p', hp', _⟩ := exec_track (P := fun _ _ _ => True) hI hc hrun trivial
    (fun _ _ _ _ _ _ _ _ _ _ _ => trivial) (fun _ _ _ _ _ _ _ _ _ _ _ _ _ => trivial)
  have hfin := hrest _ (List.mem_of_getElem? hp')
  cases p' with
  | done ret => exact ⟨acts, s', ret, hok, hrun, hp'⟩
  | _ => cases hfin

end Return

end BankingService
