/-
  File:      BankingService/Proof/System.lean
  Subject:   THE INVARIANT OF THE WHOLE SYSTEM, and that the machine refines the atomic
             specification.

  * `step_cases` -- everything a step of the system can be.
  * `SysInv` -- the ledger invariant on the committed tables, every call's own invariant, and that
    the open transactions are apart: no row lock and no index entry is held twice.
  * `inv_step`, `inv_exec` -- kept by every step and so by every run, whatever fails.
  * `exec_refines` -- **the simulation**: the ledger after a run is the atomic replay of the run's
    commits, in commit order.
-/
import BankingService.Proof.Steps

namespace BankingService

open Lib

/-! ## 1. Steps of the system -/

section Cases

variable {cfg : Config} {s s' : St} {a : Act}

/-- **Everything a step can be**: a request arrives, time passes, or one call takes a step. -/
theorem step_cases (h : step cfg s a = some s') :
    (∃ r, a = .arrive r ∧ s' = { s with calls := s.calls ++ [.request r r.start] }) ∨
    (∃ name, a = .arriveCreate name ∧
      s' = { s with calls := s.calls ++ [.createAccount name .newID] }) ∨
    (∃ d, a = .tick d ∧ s' = { s with clock := s.clock + d }) ∨
    ∃ i ch c db' c', a = .call i ch ∧ s.calls[i]? = some c ∧
      callStep cfg s i ch c = some (db', c') ∧
      s' = { s with db := db', calls := s.calls.set i c' } := by
  cases a with
  | arrive r => cases h; exact .inl ⟨r, rfl, rfl⟩
  | arriveCreate name => cases h; exact .inr (.inl ⟨name, rfl, rfl⟩)
  | tick d => cases h; exact .inr (.inr (.inl ⟨d, rfl, rfl⟩))
  | call i ch =>
      simp only [step] at h
      split at h
      · cases h
      · rename_i c hc
        obtain ⟨⟨db', c'⟩, hcs, rfl⟩ := Option.map_eq_some_iff.mp h
        exact .inr (.inr (.inr ⟨i, ch, c, db', c', rfl, hc, hcs, rfl⟩))

end Cases

/-- The open transaction of call `i`. -/
def St.tx? (s : St) (i : Nat) : Option Tx := (s.calls[i]?).bind Call.tx?

theorem St.tx?_of_call {s : St} {i : Nat} {c : Call} (h : s.calls[i]? = some c) :
    s.tx? i = c.tx? := by
  rw [St.tx?, h]
  rfl

theorem St.call_of_tx? {s : St} {i : Nat} {tx : Tx} (h : s.tx? i = some tx) :
    ∃ r w stage, s.calls[i]? = some (.request r (.inTx w tx stage)) := by
  obtain ⟨c, hc, ht⟩ := Option.bind_eq_some_iff.mp h
  cases c with
  | createAccount => cases ht
  | request r p =>
      cases p with
      | inTx w tx' stage => cases ht; exact ⟨r, w, stage, hc⟩
      | _ => cases ht

theorem St.mem_others {s : St} {i : Nat} {t : Tx} :
    t ∈ s.others i ↔ ∃ j, j ≠ i ∧ s.tx? j = some t := by
  unfold St.others St.tx?
  rw [List.mem_filterMap]
  constructor
  · rintro ⟨⟨c, j⟩, hm, h⟩
    rw [List.mem_zipIdx_iff_getElem?] at hm
    by_cases hj : j = i
    · simp [hj] at h
    · simp only [hj, if_false] at h
      exact ⟨j, hj, by rw [hm]; exact h⟩
  · rintro ⟨j, hj, h⟩
    obtain ⟨c, hc, ht⟩ := Option.bind_eq_some_iff.mp h
    exact ⟨(c, j), List.mem_zipIdx_iff_getElem?.mpr hc, by simp [hj, ht]⟩

/-! ## 2. One step of one call -/

/-- The invariant of a call. -/
def CallOk (cfg : Config) (db : Db) : Call → Prop
  | .request r p => PhaseOk cfg db r p
  | .createAccount _ p => CreateOk p

/-- The commit a step of a call performs. -/
def Call.commit? (L : Ledger) : Call → Choice → Option Commit
  | .request r p, ch => p.commit? r ch
  | .createAccount name p, ch => p.commit? L name ch

theorem Call.tx?_request (r : Request) (p : Phase) : (Call.request r p).tx? = p.tx? := by
  cases p <;> rfl

theorem callStep_ok {cfg : Config} {s : St} {i : Nat} {ch : Choice} {c c' : Call} {db' : Db}
    (hI : LedgerInv s.db.toLedger) (hc : CallOk cfg s.db c)
    (h : callStep cfg s i ch c = some (db', c')) :
    CallOk cfg db' c' ∧
      StepOk (s.others i) s.db c.tx? (c.commit? s.db.toLedger ch) db' c'.tx? := by
  cases c with
  | request r p =>
      obtain ⟨⟨db₁, p'⟩, hs, e⟩ := Option.map_eq_some_iff.mp h
      cases e
      rw [Call.tx?_request, Call.tx?_request]
      obtain ⟨hp, _, hst⟩ := requestStep_ok hI hc hs
      exact ⟨hp, hst⟩
  | createAccount name p =>
      obtain ⟨⟨db₁, p'⟩, hs, e⟩ := Option.map_eq_some_iff.mp h
      cases e
      exact createStep_ok hc hs

/-- Another call's step keeps a call's invariant. -/
theorem CallOk.stable {cfg : Config} {db db' : Db} {c : Call}
    (he : db.toLedger.Extends db'.toLedger) (hI : LedgerInv db.toLedger)
    (hI' : LedgerInv db'.toLedger) (hs : db.entriesSeq ≤ db'.entriesSeq)
    (hrows : ∀ tx, c.tx? = some tx →
      ∀ a ∈ db.accounts, .account a.id ∈ tx.forUpdate → a ∈ db'.accounts)
    (hindex : ∀ tx, c.tx? = some tx →
      ∀ k ∈ tx.index, db.indexed k = false → db'.indexed k = false)
    (h : CallOk cfg db c) : CallOk cfg db' c := by
  cases c with
  | request r p =>
      rw [Call.tx?_request] at hrows hindex
      exact PhaseOk.stable he hI hI' hs hrows hindex h
  | createAccount => exact h

/-! ## 3. The invariant -/

/-- Two transactions hold nothing in common. -/
structure Tx.Apart (t t' : Tx) : Prop where
  rows : ∀ row ∈ t.forUpdate, row ∉ t'.forUpdate
  index : ∀ k ∈ t.index, k ∉ t'.index

theorem Tx.Apart.symm {t t' : Tx} (h : t.Apart t') : t'.Apart t :=
  ⟨fun row hr hr' => h.rows row hr' hr, fun k hk hk' => h.index k hk' hk⟩

/-- **The invariant of the system.** -/
structure SysInv (cfg : Config) (s : St) : Prop where
  ledger : LedgerInv s.db.toLedger
  text : ∀ t ∈ s.db.transactions, pgText t.idempotencyKey = true
  calls : ∀ (i : Nat) c, s.calls[i]? = some c → CallOk cfg s.db c
  apart : ∀ i j ti tj, i ≠ j → s.tx? i = some ti → s.tx? j = some tj → ti.Apart tj

section Step

variable {cfg : Config} {s s' : St} {a : Act}

/-- A call that arrives and holds nothing yet. -/
theorem inv_arrive (hI : SysInv cfg s) {c : Call} (hc : CallOk cfg s.db c) (ht : c.tx? = none) :
    SysInv cfg { s with calls := s.calls ++ [c] } := by
  have htx : ∀ i tx, St.tx? { s with calls := s.calls ++ [c] } i = some tx → s.tx? i = some tx := by
    intro i tx h
    obtain ⟨c', hc', htc⟩ := Option.bind_eq_some_iff.mp h
    rcases getElem?_snoc hc' with h' | ⟨_, rfl⟩
    · rw [St.tx?_of_call h']
      exact htc
    · rw [ht] at htc
      cases htc
  refine ⟨hI.ledger, hI.text, fun i c' h => ?_, fun i j ti tj hij hi hj => ?_⟩
  · rcases getElem?_snoc h with h | ⟨_, rfl⟩
    · exact hI.calls i c' h
    · exact hc
  · exact hI.apart i j ti tj hij (htx i ti hi) (htx j tj hj)

/-- What a call holds after its step is apart from what the others hold. -/
theorem apart_after {db' : Db} {i j : Nat} {c c' : Call} {k : Option Commit} (hI : SysInv cfg s)
    (hc : s.calls[i]? = some c) (hs : StepOk (s.others i) s.db c.tx? k db' c'.tx?) (hij : j ≠ i)
    {ti tj : Tx} (hti : c'.tx? = some ti) (htj : s.tx? j = some tj) : ti.Apart tj := by
  have hold : ∀ {tx}, c.tx? = some tx → tx.Apart tj := fun h =>
    hI.apart i j _ tj (Ne.symm hij) ((St.tx?_of_call hc).trans h) htj
  have hmem : tj ∈ s.others i := St.mem_others.mpr ⟨j, hij, htj⟩
  refine ⟨fun row hrow => ?_, fun k hk => ?_⟩
  · rcases hs.rows ti hti row hrow with ⟨tx, htx, hr⟩ | h
    · exact (hold htx).rows row hr
    · exact h tj hmem
  · rcases hs.index ti hti k hk with ⟨tx, htx, hk'⟩ | h
    · exact (hold htx).index k hk'
    · exact h tj hmem

/-- One call steps: its own invariant by `callStep_ok`, the others' because they are apart. -/
theorem inv_call (hI : SysInv cfg s) {i : Nat} {ch : Choice} {c c' : Call} {db' : Db}
    (hc : s.calls[i]? = some c) (h : callStep cfg s i ch c = some (db', c')) :
    SysInv cfg { s with db := db', calls := s.calls.set i c' } := by
  obtain ⟨hc', hs⟩ := callStep_ok hI.ledger (hI.calls i c hc) h
  have hi : i < s.calls.length := (List.getElem?_eq_some_iff.mp hc).1
  have hself : (s.calls.set i c')[i]? = some c' := List.getElem?_set_self hi
  have hother : ∀ j, j ≠ i → (s.calls.set i c')[j]? = s.calls[j]? :=
    fun j hj => List.getElem?_set_ne (Ne.symm hj)
  have htx : ∀ j, j ≠ i → St.tx? { s with db := db', calls := s.calls.set i c' } j = s.tx? j :=
    fun j hj => by unfold St.tx?; rw [hother j hj]
  have htxi : St.tx? { s with db := db', calls := s.calls.set i c' } i = c'.tx? :=
    St.tx?_of_call hself
  refine ⟨hs.ledgerInv hI.ledger, fun t ht => (hs.text t ht).elim (hI.text t) id,
    fun j cj hj => ?_, fun j k tj tk hjk hj hk => ?_⟩
  · by_cases hji : j = i
    · subst hji
      rw [hself] at hj
      cases hj
      exact hc'
    · rw [hother j hji] at hj
      have hapart : ∀ {ti tj}, c.tx? = some ti → cj.tx? = some tj → ti.Apart tj := fun h h' =>
        hI.apart i j _ _ (Ne.symm hji) ((St.tx?_of_call hc).trans h) ((St.tx?_of_call hj).trans h')
      refine (hI.calls j cj hj).stable hs.ext hI.ledger (hs.ledgerInv hI.ledger) hs.seq ?_ ?_
      · intro tj htj a ha hlock
        rcases hs.frame a ha with h | ⟨ti, hti, hin⟩
        · exact h
        · exact absurd hlock ((hapart hti htj).rows _ hin)
      · intro tj htj k hk hfresh
        refine Bool.eq_false_iff.mpr fun hin => ?_
        rcases hs.indexed k hin with h | ⟨ti, hti, hki⟩
        · rw [hfresh] at h
          cases h
        · exact (hapart hti htj).index k hki hk
  · by_cases hji : j = i
    · subst hji
      rw [htxi] at hj
      rw [htx k (Ne.symm hjk)] at hk
      exact apart_after hI hc hs (Ne.symm hjk) hj hk
    · rw [htx j hji] at hj
      by_cases hki : k = i
      · subst hki
        rw [htxi] at hk
        exact (apart_after hI hc hs hji hk hj).symm
      · rw [htx k hki] at hk
        exact hI.apart j k tj tk hjk hj hk

/-- **Every step keeps the invariant**, whoever steps and whatever fails. -/
theorem inv_step (hI : SysInv cfg s) (h : step cfg s a = some s') : SysInv cfg s' := by
  rcases step_cases h with ⟨r, _, rfl⟩ | ⟨name, _, rfl⟩ | ⟨d, _, rfl⟩ |
    ⟨i, ch, c, db', c', _, hc, hs, rfl⟩
  · obtain ⟨hok, htx⟩ := start_ok cfg s.db r
    exact inv_arrive hI hok ((Call.tx?_request r r.start).trans htx)
  · exact inv_arrive hI trivial rfl
  · exact ⟨hI.ledger, hI.text, hI.calls, hI.apart⟩
  · exact inv_call hI hc hs

end Step

/-- A database with the invariant, with no call yet. -/
theorem sysInv_start (cfg : Config) {db : Db} (hL : LedgerInv db.toLedger)
    (htext : ∀ t ∈ db.transactions, pgText t.idempotencyKey = true) (clock : Time) :
    SysInv cfg (St.start db clock) := by
  refine ⟨hL, htext, fun i c h => ?_, fun i j ti tj _ h => ?_⟩
  · exact absurd (List.mem_of_getElem? h) List.not_mem_nil
  · obtain ⟨r, w, stage, hc⟩ := St.call_of_tx? h
    exact absurd (List.mem_of_getElem? hc) List.not_mem_nil

/-- The migrated database, with no call yet, has the invariant. -/
theorem inv_start (cfg : Config) (now clock : Time) :
    SysInv cfg (St.start (Db.migrated now) clock) := by
  refine sysInv_start cfg (inv_migrated now) (fun t ht => ?_) clock
  simp only [Db.migrated_eq, List.mem_cons, List.not_mem_nil, or_false] at ht
  rcases ht with rfl | rfl | rfl
  · exact (by decide +kernel : pgText (bytes "seed-deposit-alice-001") = true)
  · exact (by decide +kernel : pgText (bytes "seed-deposit-bob-001") = true)
  · exact (by decide +kernel : pgText (bytes "seed-deposit-charlie-001") = true)

/-- **The invariant in every reachable state.** -/
theorem inv_exec {cfg : Config} {s₀ s : St} {acts : List Act} (h₀ : SysInv cfg s₀)
    (h : exec cfg s₀ acts = some s) : SysInv cfg s :=
  run_inv (fun _ _ _ hi hs => inv_step hi hs) h₀ h

/-! ## 4. The refinement -/

section Refines

variable {cfg : Config} {s s' : St}

/-- The label of a step is the commit its call performs. -/
theorem commitOf_call (hI : SysInv cfg s) {i : Nat} {c : Call} (hc : s.calls[i]? = some c)
    (ch : Choice) :
    commitOf cfg s (.call i ch) = (c.commit? s.db.toLedger ch).map fun k => (i, k) := by
  have hok := hI.calls i c hc
  cases c with
  | request r p =>
      cases p with
      | inTx w tx stage =>
          cases stage with
          | commit =>
              obtain ⟨hw, ht, hs⟩ := hok
              obtain ⟨db', hcommit, _⟩ := commit_effect cfg [] hI.ledger hw ht hs
              simp only [commitOf, hc, hcommit, Call.commit?, Phase.commit?]
              cases ch.executes <;> rfl
          | _ => simp [commitOf, hc, Call.commit?, Phase.commit?]
      | _ => simp [commitOf, hc, Call.commit?, Phase.commit?]
  | createAccount name p =>
      cases p with
      | insert id =>
          simp only [commitOf, hc, Call.commit?, CreatePhase.commit?]
          cases ch.executes <;> cases insertAccount s.db.toLedger id name <;> rfl
      | _ => simp [commitOf, hc, Call.commit?, CreatePhase.commit?]

/-- What a step does to the ledger is its label. -/
theorem step_effect (hI : SysInv cfg s) {a : Act} (h : step cfg s a = some s') :
    match commitOf cfg s a with
    | none => s'.db.toLedger = s.db.toLedger
    | some e => e.2.apply s.db.toLedger = some s'.db.toLedger := by
  rcases step_cases h with ⟨r, rfl, rfl⟩ | ⟨name, rfl, rfl⟩ | ⟨d, rfl, rfl⟩ |
    ⟨i, ch, c, db', c', rfl, hc, hs, rfl⟩
  · exact rfl
  · exact rfl
  · exact rfl
  · have he := (callStep_ok hI.ledger (hI.calls i c hc) hs).2.effect
    rw [commitOf_call hI hc]
    cases hk : c.commit? s.db.toLedger ch with
    | none => rw [hk] at he; exact he
    | some k => rw [hk] at he; exact he

theorem step_silent (hI : SysInv cfg s) {a : Act} (h : step cfg s a = some s')
    (hl : commitOf cfg s a = none) : s'.db.toLedger = s.db.toLedger := by
  have he := step_effect hI h
  rw [hl] at he
  exact he

theorem step_commit (hI : SysInv cfg s) {a : Act} (h : step cfg s a = some s') {e : Nat × Commit}
    (hl : commitOf cfg s a = some e) : e.2.apply s.db.toLedger = some s'.db.toLedger := by
  have he := step_effect hI h
  rw [hl] at he
  exact he

/-- **THE REFINEMENT**: after any run, the ledger is the atomic replay of the run's commits. -/
theorem exec_refines {acts : List Act} (h₀ : SysInv cfg s) (h : exec cfg s acts = some s') :
    replay s.db.toLedger (history cfg s acts) = some s'.db.toLedger := by
  have silent : ∀ s a s', SysInv cfg s → step cfg s a = some s' → commitOf cfg s a = none →
      s'.db.toLedger = s.db.toLedger := fun _ _ _ hi hs hl => step_silent hi hs hl
  have visible : ∀ s a s' e, SysInv cfg s → step cfg s a = some s' → commitOf cfg s a = some e →
      e.2.apply s.db.toLedger = some s'.db.toLedger := fun _ _ _ _ hi hs hl => step_commit hi hs hl
  exact run_refines (fun _ _ _ hi hs => inv_step hi hs) silent visible h₀ h

end Refines

end BankingService
