/-
  File:      BankingService/Props/Serializable.lean
  Subject:   SERIALIZABILITY: the committed tables are the atomic replay of the committing calls,
             and each call's return value says what it committed.

  The replay itself is the refinement of Proof/System.lean, which Proof/Sent.lean takes to exact
  moves where every deposit is below `10 ^ 131072`. What is added here is the link between
  a call and its commits (`Linked`): as long as no acknowledgement of an executed COMMIT is lost, a
  call that returns its own transaction has committed exactly once, with its own request, and a
  call that returns an error or an existing transaction has committed nothing.

  * `linked_call` -- one step: a call reports a commit exactly from its COMMIT on.
  * `AllLinked.arrive`, `AllLinked.call`, `linked_exec` -- so over every run.
  * `serializable` -- the theorem; `wrapped_tables` -- tables that are no replay of exact moves.
-/
import BankingService.Proof.Alone
import BankingService.Proof.Sent

namespace BankingService

open Lib

/-! ## 1. `CreateAccount` -/

/-- The account a `CreateAccount` call reports. -/
def CreatePhase.created? : CreatePhase → Option UUID
  | .done a => some a.id
  | _ => none

/-- The commit a step of `CreateAccount` performs and what the call reports afterwards. -/
theorem createStep_created {db db' : Db} {name : GoString} {p p' : CreatePhase} {ch : Choice}
    {i : Nat} (h : createStep db name p ch = some (db', p'))
    (hack : (Act.call i ch).losesAck = false) :
    (p.commit? db.toLedger name ch = none ∧ p'.created? = p.created?) ∨
      ∃ id, p.commit? db.toLedger name ch = some (.createAccount id name) ∧ p.created? = none ∧
        p'.created? = some id := by
  cases p with
  | newID =>
      cases ch with
      | uuid => cases h; exact .inl ⟨rfl, rfl⟩
      | fail => cases h; exact .inl ⟨rfl, rfl⟩
      | ok => cases h
      | lostAck => cases h
  | insert id =>
      cases ch with
      | ok =>
          simp only [createStep] at h
          simp only [CreatePhase.commit?, Choice.executes]
          split at h
          · rename_i e hins
            cases h
            rw [hins]
            exact .inl ⟨rfl, rfl⟩
          · rename_i L hins
            cases h
            rw [hins]
            exact .inr ⟨id, rfl, rfl, rfl⟩
      | fail => cases h; exact .inl ⟨rfl, rfl⟩
      | uuid => cases h
      | lostAck => cases hack
  | done => cases ch <;> cases h
  | failed => cases ch <;> cases h

/-! ## 2. A call and its commits -/

/-- What a call reports is what it has committed. -/
def Linked (h : List (Nat × Commit)) (i : Nat) : Call → Prop
  | .request r p =>
    match p.committed? with
    | none => own h i = []
    | some t => ∃ st, st.txID = t.id ∧ own h i = [(i, .request r st)]
  | .createAccount name p =>
    match p.created? with
    | none => own h i = []
    | some id => own h i = [(i, .createAccount id name)]

/-- One step of a call keeps it linked. -/
theorem linked_call {cfg : Config} {s : St} {h : List (Nat × Commit)} {i : Nat} {ch : Choice}
    {c c' : Call} {db' : Db} (hI : SysInv cfg s) (hc : s.calls[i]? = some c)
    (hs : callStep cfg s i ch c = some (db', c')) (hack : (Act.call i ch).losesAck = false)
    (hl : Linked h i c) :
    Linked (h ++ ((c.commit? s.db.toLedger ch).map fun k => (i, k)).toList) i c' := by
  cases c with
  | request r p =>
      obtain ⟨⟨db₁, p'⟩, hp, e⟩ := Option.map_eq_some_iff.mp hs
      cases e
      obtain ⟨_, hn, _⟩ := requestStep_ok hI.ledger (hI.calls i _ hc) hp
      simp only [Linked, Call.commit?] at hl ⊢
      rcases next_committed hn hack with ⟨hk, he⟩ | ⟨w, tx, hk, he, he'⟩
      · rw [hk, he]
        simpa using hl
      · rw [he] at hl
        rw [hk, he']
        refine ⟨w.stamp tx, w.stamp_txID tx, ?_⟩
        rw [own_append, hl]
        exact own_self i _
  | createAccount name p =>
      obtain ⟨⟨db₁, p'⟩, hp, e⟩ := Option.map_eq_some_iff.mp hs
      cases e
      simp only [Linked, Call.commit?] at hl ⊢
      rcases createStep_created hp hack with ⟨hk, he⟩ | ⟨id, hk, he, he'⟩
      · rw [hk, he]
        simpa using hl
      · rw [he] at hl
        rw [hk, he']
        simp only
        rw [own_append, hl]
        exact own_self i _

/-- Every call is linked to its commits, and only calls commit. -/
def AllLinked (h : List (Nat × Commit)) (calls : List Call) : Prop :=
  (∀ (i : Nat) c, calls[i]? = some c → Linked h i c) ∧ ∀ i, calls.length ≤ i → own h i = []

section AllLinked

variable {h : List (Nat × Commit)} {calls : List Call}

/-- A call that arrives has committed nothing. -/
theorem AllLinked.arrive (hl : AllLinked h calls) {c : Call}
    (hc : ∀ i, own h i = [] → Linked h i c) : AllLinked h (calls ++ [c]) := by
  obtain ⟨hcalls, hrest⟩ := hl
  refine ⟨fun i c' hi => ?_, fun i hi => hrest i ?_⟩
  · rcases getElem?_snoc hi with hi | ⟨rfl, rfl⟩
    · exact hcalls i c' hi
    · exact hc _ (hrest _ le_rfl)
  · rw [List.length_append] at hi
    omega

/-- A step of one call is no commit of another. -/
theorem AllLinked.call (hl : AllLinked h calls) {i : Nat} (hi : i < calls.length) {c : Call}
    {k : Option Commit} (hc : Linked (h ++ (k.map fun k => (i, k)).toList) i c) :
    AllLinked (h ++ (k.map fun k => (i, k)).toList) (calls.set i c) := by
  obtain ⟨hcalls, hrest⟩ := hl
  have other : ∀ {j}, j ≠ i → own (h ++ (k.map fun k => (i, k)).toList) j = own h j := by
    intro j hji
    rw [own_append, own_other hji, List.append_nil]
  refine ⟨fun j cj hj => ?_, fun j hj => ?_⟩
  · by_cases hji : j = i
    · subst hji
      rw [List.getElem?_set_self hi] at hj
      cases hj
      exact hc
    · rw [List.getElem?_set_ne (Ne.symm hji)] at hj
      have hlj := hcalls j cj hj
      unfold Linked at hlj ⊢
      rw [other hji]
      exact hlj
  · rw [List.length_set] at hj
    rw [other (by omega)]
    exact hrest j hj

end AllLinked

/-- **Over every run** in which no acknowledgement is lost, every call is linked to its commits. -/
theorem linked_exec {cfg : Config} {db : Db} {clock : Time} (h₀ : SysInv cfg (St.start db clock))
    {acts : List Act} {s : St} (h : exec cfg (St.start db clock) acts = some s)
    (hack : ∀ a ∈ acts, a.losesAck = false) :
    AllLinked (history cfg (St.start db clock) acts) s.calls := by
  revert hack
  refine run_induction (motive := fun as s => (∀ a ∈ as, a.losesAck = false) →
    AllLinked (history cfg (St.start db clock) as) s.calls) ?_ ?_ h
  · exact fun _ => ⟨fun i c hc => absurd (List.mem_of_getElem? hc) List.not_mem_nil, fun _ _ => rfl⟩
  · intro as s a s' hr ih hs hack
    have hl := ih fun b hb => hack b (List.mem_append_left _ hb)
    have ha := hack a (List.mem_append_right _ (List.mem_singleton_self _))
    have hI : SysInv cfg s := inv_exec h₀ hr
    have hh : history cfg (St.start db clock) (as ++ [a]) =
        history cfg (St.start db clock) as ++ (commitOf cfg s a).toList := labels_snoc hr hs
    rw [hh]
    rcases step_cases hs with ⟨r, rfl, rfl⟩ | ⟨name, rfl, rfl⟩ | ⟨d, rfl, rfl⟩ |
      ⟨i, ch, c, db', c', rfl, hc, hcs, rfl⟩
    · simp only [commitOf, Option.toList_none, List.append_nil]
      refine hl.arrive fun i hi => ?_
      simp only [Linked, start_committed]
      exact hi
    · simp only [commitOf, Option.toList_none, List.append_nil]
      exact hl.arrive fun i hi => hi
    · simp only [commitOf, Option.toList_none, List.append_nil]
      exact hl
    · rw [commitOf_call hI hc]
      have hi : i < s.calls.length := (List.getElem?_eq_some_iff.mp hc).1
      exact hl.call hi (linked_call hI hc hcs ha (hl.1 i c hc))

/-! ## 3. The theorem -/

/-- **Serializability**, as long as every deposit is below `10 ^ 131072`. After any interleaving of
    any calls, with any store call failing or any acknowledgement lost, the committed accounts,
    transactions and entries are those of the atomic calls of the history, each moving exactly its
    amount, applied one at a time, in commit order, to the initial ledger. Where no
    acknowledgement of an executed COMMIT is lost, a call that returns its own transaction or its
    new account stands in the history exactly once, and a call that returns an error or replays an
    existing transaction does not stand there at all. -/
theorem serializable {cfg : Config} {now clock : Time} {acts : List Act} {s : St}
    (h : exec cfg (St.start (Db.migrated now) clock) acts = some s)
    (hsend : ∀ a ∈ acts, a.sendable = true) :
    replayExact (Db.migrated now).toLedger
        (history cfg (St.start (Db.migrated now) clock) acts) =
      some s.db.toLedger ∧
    ((∀ a ∈ acts, a.losesAck = false) →
      (∀ (i : Nat) r t es, s.calls[i]? = some (.request r (.done (.committed t es))) →
        ∃ st, st.txID = t.id ∧ own (history cfg (St.start (Db.migrated now) clock) acts) i =
          [(i, .request r st)]) ∧
      (∀ (i : Nat) r t es, s.calls[i]? = some (.request r (.done (.existing t es))) →
        own (history cfg (St.start (Db.migrated now) clock) acts) i = []) ∧
      (∀ (i : Nat) r e, s.calls[i]? = some (.request r (.done (.failed e))) →
        own (history cfg (St.start (Db.migrated now) clock) acts) i = []) ∧
      (∀ (i : Nat) name a, s.calls[i]? = some (.createAccount name (.done a)) →
        own (history cfg (St.start (Db.migrated now) clock) acts) i =
          [(i, .createAccount a.id name)]) ∧
      (∀ (i : Nat) name e, s.calls[i]? = some (.createAccount name (.failed e)) →
        own (history cfg (St.start (Db.migrated now) clock) acts) i = [])) := by
  have h₀ := inv_start cfg now clock
  have hr := exec_refinesExact h₀ (St.sendable_start _ _) hsend h
  rw [St.start_db] at hr
  refine ⟨hr, fun hack => ?_⟩
  have hl := (linked_exec h₀ h hack).1
  generalize history cfg (St.start (Db.migrated now) clock) acts = H at hl ⊢
  exact ⟨fun i r t es hc => hl i _ hc, fun i r t es hc => hl i _ hc, fun i r e hc => hl i _ hc,
    fun i name a hc => hl i _ hc, fun i name e hc => hl i _ hc⟩

/-- The sample run: the tables are the replay of the transfer and of its reversal. -/
theorem serializable_sample :
    replayExact (Db.migrated 0).toLedger
        (history Config.migrated (St.start (Db.migrated 0) 1000) sampleRun) =
      some sampleEnd.db.toLedger ∧
    (history Config.migrated (St.start (Db.migrated 0) 1000) sampleRun).length = 2 ∧
    ∀ (i : Nat) r e, sampleEnd.calls[i]? = some (.request r (.done (.failed e))) →
      own (history Config.migrated (St.start (Db.migrated 0) 1000) sampleRun) i = [] := by
  have hsend : ∀ a ∈ sampleRun, a.sendable = true := by decide +kernel
  exact ⟨(serializable sampleRun_exec hsend).1, by decide +kernel,
    ((serializable sampleRun_exec hsend).2 (by decide +kernel)).2.2.1⟩

/-- **Tables that no atomic calls leave behind**: exact moves keep the sum of the balances at zero,
    and after the deposit of `10 ^ 262144` it is not. -/
theorem wrapped_tables :
    ∃ s, exec Config.migrated (St.start (Db.migrated 0) 1000) wrapRun = some s ∧
      (∀ a ∈ wrapRun, a.healthy = true) ∧
      ∀ h, replayExact (Db.migrated 0).toLedger h ≠ some s.db.toLedger := by
  obtain ⟨s, hrun, hledger⟩ := wrapRun_exec
  refine ⟨s, hrun, by decide +kernel, fun h hreplay => ?_⟩
  have htotal := (exact_replay (inv_migrated 0) (exact_migrated 0) hreplay).zeroSum
  rw [hledger] at htotal
  revert htotal
  decide +kernel

end BankingService
