/-
  File:      BankingService/Props/Ids.lean
  Subject:   IDS NEVER COLLIDE in the runs of a process, and what that rules out.

  * `IdInv` -- every id in the tables was there at the start or was made by a call that is through
    with it; an id that a call is still working with was made by this call. No two calls have made
    the same id (`node_ids`), so nobody else can have used it up.
  * `node_fresh` -- no INSERT of a header or of an account ever meets its own primary key.
  * **`conflict_needs_fault`** -- so ErrIdempotencyConflict is about keys alone, and then the
    transaction with the key is there to be returned: a call that meets no fault never reports it.
  * **`create_succeeds`** -- and an account with a proper name is created.

  The seed deposits have version 7 ids of June 2024, so the clock of the process has to be past that.
-/
import BankingService.Proof.Calls
import BankingService.Props.Linearizable
import BankingService.Props.Progress
import BankingService.Server.Ids

namespace BankingService

open Lib

/-! ## 1. Ids of calls and tables -/

/-- The id a call has made and not yet used up. -/
def Call.id? : Call → Option UUID
  | .request _ p => p.work?.map (·.txn.id)
  | .createAccount _ (.insert id) => some id
  | _ => none

/-- The call is through with its id. -/
def Call.past : Call → Bool
  | .request _ (.audit _ _) => true
  | .request _ (.done _) => true
  | .createAccount _ (.done _) => true
  | .createAccount _ (.failed _) => true
  | _ => false

/-- The ids of headers and accounts. -/
def Ledger.ids (L : Ledger) : List UUID := L.transactions.map (·.id) ++ L.accounts.map (·.id)

/-- The id a commit puts into the tables. -/
def Commit.id : Commit → UUID
  | .request _ st => st.txID
  | .createAccount id _ => id

theorem Call.past_id {c : Call} (h : c.past = true) : c.id? = none := by
  cases c with
  | request r p => cases p <;> first | rfl | cases h
  | createAccount name p => cases p <;> first | rfl | cases h

theorem apply_ids {L L' : Ledger} {c : Commit} (h : c.apply L = some L') {u : UUID}
    (hu : u ∈ L'.ids) : u ∈ L.ids ∨ u = c.id := by
  cases c with
  | request r st =>
      obtain ⟨_, _, _, _, _, _, rfl⟩ := apply_request h
      simp only [Ledger.ids, Ledger.post, List.map_append, List.map_map, List.mem_append,
        List.map_cons, List.map_nil, List.mem_singleton] at hu ⊢
      rcases hu with (hu | hu) | hu
      · exact .inl (.inl hu)
      · exact .inr hu
      · exact .inl (.inr hu)
  | createAccount id name =>
      obtain ⟨_, rfl⟩ := apply_createAccount h
      simp only [Ledger.ids, List.map_append, List.mem_append, List.map_cons, List.map_nil,
        List.mem_singleton] at hu ⊢
      rcases hu with hu | hu | hu
      · exact .inl (.inl hu)
      · exact .inl (.inr hu)
      · exact .inr hu

section Step

variable {cfg : Config} {s s' : St} {i : Nat} {ch : Choice} {c c' : Call} {db' : Db}

/-- **What a step does to the id of its call**: a call that is through stays so, an id is kept or
    just made, and a commit uses it up. -/
theorem callStep_ids (hI : SysInv cfg s) (hc : s.calls[i]? = some c)
    (h : callStep cfg s i ch c = some (db', c')) :
    (c.past = true → c'.past = true) ∧
      (∀ u, c'.id? = some u → c.id? = some u ∨ ch = .uuid u) ∧
      ∀ e, commitOf cfg s (.call i ch) = some e → c.id? = some e.2.id ∧ c'.past = true := by
  cases c with
  | request r p =>
      obtain ⟨⟨db₁, p'⟩, hp, e⟩ := Option.map_eq_some_iff.mp h
      cases e
      have hn : Next cfg s.db r ch p p' := (requestStep_ok hI.ledger (hI.calls i _ hc) hp).2.1
      refine ⟨fun hpast => ?_, fun u hu => ?_, fun e he => ?_⟩
      · cases hn with
        | audited => rfl
        | auditFails => rfl
        | _ => cases hpast
      · obtain ⟨w, hw, rfl⟩ := Option.map_eq_some_iff.mp hu
        rcases next_work hn hw with hw | hch
        · exact .inl (by rw [Call.id?, hw]; rfl)
        · exact .inr hch
      · rw [commitOf_own hI hc] at he
        obtain ⟨k, hk, rfl⟩ := Option.map_eq_some_iff.mp he
        cases hn with
        | committed w tx =>
            cases hk
            exact ⟨congrArg some (w.stamp_txID tx).symm, rfl⟩
        | ackLost w tx text =>
            cases hk
            exact ⟨congrArg some (w.stamp_txID tx).symm, rfl⟩
        | statementFails hf =>
            rw [Phase.commit?_fail] at hk
            cases hk
        | _ => cases hk
  | createAccount name p =>
      obtain ⟨⟨db₁, p'⟩, hp, e⟩ := Option.map_eq_some_iff.mp h
      cases e
      cases p with
      | newID =>
          refine ⟨fun h => (by cases h), fun u hu => ?_, fun e he => ?_⟩
          · cases ch with
            | uuid v =>
                cases hp
                cases hu
                exact .inr rfl
            | fail =>
                cases hp
                cases hu
            | _ => cases hp
          · simp only [commitOf, hc] at he
            cases he
      | insert id =>
          have hend : (Call.createAccount name p').past = true := by
            cases ch with
            | ok =>
                simp only [createStep] at hp
                split at hp <;> cases hp <;> rfl
            | fail =>
                cases hp
                rfl
            | lostAck =>
                simp only [createStep] at hp
                split at hp
                · cases hp
                · cases hp
                  rfl
            | uuid => cases hp
          refine ⟨fun _ => hend, fun u hu => ?_, fun e he => ?_⟩
          · rw [Call.past_id hend] at hu
            cases hu
          · simp only [commitOf, hc] at he
            split at he
            · cases he
              exact ⟨rfl, hend⟩
            · cases he
      | done => cases ch <;> cases hp
      | failed => cases ch <;> cases hp

end Step

/-! ## 2. The invariant -/

/-- **Where ids come from**, after the actions `as` from `s₀`. -/
structure IdInv (s₀ : St) (as : List Act) (m : St) : Prop where
  pending : ∀ i c u, m.calls[i]? = some c → c.id? = some u → .call i (.uuid u) ∈ as
  used : ∀ u ∈ m.db.ids, u ∈ s₀.db.ids ∨
    ∃ j c, .call j (.uuid u) ∈ as ∧ m.calls[j]? = some c ∧ c.past = true

section Run

variable {cfg : Config} {s₀ m m' : St} {as : List Act} {a : Act}

/-- A step that is no call's leaves the calls and the tables as they are. -/
theorem IdInv.arrive (h : IdInv s₀ as m) {c : Call} (hc : c.id? = none) :
    IdInv s₀ (as ++ [a]) { m with calls := m.calls ++ [c] } := by
  refine ⟨fun i d u hd hu => ?_, fun u hu => ?_⟩
  · rcases getElem?_snoc hd with hd | ⟨_, rfl⟩
    · exact List.mem_append_left _ (h.pending i d u hd hu)
    · rw [hc] at hu
      cases hu
  · rcases h.used u hu with hu | ⟨j, d, hj, hd, hp⟩
    · exact .inl hu
    · refine .inr ⟨j, d, List.mem_append_left _ hj, ?_, hp⟩
      exact (List.getElem?_append_left (List.getElem?_eq_some_iff.mp hd).1).trans hd

/-- **Every step keeps it.** -/
theorem idInv_step (hI : SysInv cfg m) (h : IdInv s₀ as m) (hs : step cfg m a = some m') :
    IdInv s₀ (as ++ [a]) m' := by
  have hstep := hs
  rcases step_cases hs with ⟨r, rfl, rfl⟩ | ⟨name, rfl, rfl⟩ | ⟨d, rfl, rfl⟩ |
    ⟨i, ch, c, db', c', rfl, hc, hcall, rfl⟩
  · refine h.arrive ?_
    rcases start_cases r with e | ⟨_, _, e⟩ <;> rw [Call.id?, e] <;> rfl
  · exact h.arrive rfl
  · exact ⟨fun i c u hc hu => List.mem_append_left _ (h.pending i c u hc hu), fun u hu => by
      rcases h.used u hu with hu | ⟨j, c, hj, hc⟩
      · exact .inl hu
      · exact .inr ⟨j, c, List.mem_append_left _ hj, hc⟩⟩
  · obtain ⟨hpast, hid, hcom⟩ := callStep_ids hI hc hcall
    have hlt : i < m.calls.length := (List.getElem?_eq_some_iff.mp hc).1
    have hself : (m.calls.set i c')[i]? = some c' := List.getElem?_set_self hlt
    refine ⟨fun j d u hd hu => ?_, fun u hu => ?_⟩
    · by_cases hij : i = j
      · subst hij
        rw [hself] at hd
        cases hd
        rcases hid u hu with hu | rfl
        · exact List.mem_append_left _ (h.pending i c u hc hu)
        · exact List.mem_append_right _ (List.mem_singleton_self _)
      · rw [List.getElem?_set_ne hij] at hd
        exact List.mem_append_left _ (h.pending j d u hd hu)
    · -- an id of the tables was there, or the step has committed it
      have old : u ∈ m.db.ids → u ∈ s₀.db.ids ∨ ∃ j d, .call j (.uuid u) ∈ as ++ [.call i ch] ∧
          (m.calls.set i c')[j]? = some d ∧ d.past = true := by
        intro hu
        rcases h.used u hu with hu | ⟨j, d, hj, hd, hp⟩
        · exact .inl hu
        · refine .inr ⟨j, ?_⟩
          by_cases hij : i = j
          · subst hij
            rw [hc] at hd
            cases hd
            exact ⟨c', List.mem_append_left _ hj, hself, hpast hp⟩
          · exact ⟨d, List.mem_append_left _ hj, (List.getElem?_set_ne hij).trans hd, hp⟩
      cases hl : commitOf cfg m (.call i ch) with
      | none =>
          have e : db'.toLedger = m.db.toLedger := step_silent hI hstep hl
          refine old ?_
          rw [← e]
          exact hu
      | some e =>
          obtain ⟨hpend, hend⟩ := hcom e hl
          rcases apply_ids (step_commit hI hstep hl) hu with hu | rfl
          · exact old hu
          · exact .inr ⟨i, c', List.mem_append_left _ (h.pending i c _ hc hpend), hself, hend⟩

theorem idInv_exec (h₀ : SysInv cfg s₀) (hcalls : s₀.calls = []) (h : exec cfg s₀ as = some m) :
    IdInv s₀ as m := by
  refine run_induction (motive := fun as m => IdInv s₀ as m) ?_ ?_ h
  · refine ⟨fun i c u hc => ?_, fun u hu => .inl hu⟩
    rw [hcalls] at hc
    cases hc
  · intro as m a m' hr ih hs
    exact idInv_step (inv_exec h₀ hr) ih hs

end Run

/-! ## 3. The ids a process makes -/

/-- The call and the id of an action that makes one. -/
def Act.made? : Act → Option (Nat × UUID)
  | .call i (.uuid u) => some (i, u)
  | _ => none

theorem made_of_mem {as : List Act} {i : Nat} {u : UUID} (h : .call i (.uuid u) ∈ as) :
    (i, u) ∈ as.filterMap Act.made? :=
  List.mem_filterMap.mpr ⟨_, h, rfl⟩

/-- The ids made so far are in the order of their times, later than the seed rows and none of them
    later than the last. -/
structure MadeInv (as : List Act) (last : Int) : Prop where
  ascending : (as.filterMap Act.made?).Pairwise fun x y => x.2.stamp < y.2.stamp
  bounds : ∀ x ∈ as.filterMap Act.made?,
    seedTime * 2 ^ 12 < x.2.stamp ∧ (x.2.stamp : Int) ≤ last

/-- No two calls have made the same id. -/
theorem MadeInv.unique {as : List Act} {last : Int} (h : MadeInv as last) {i j : Nat} {u : UUID}
    (hi : .call i (.uuid u) ∈ as) (hj : .call j (.uuid u) ∈ as) : i = j := by
  have hnd : ((as.filterMap Act.made?).map fun x => x.2.stamp).Nodup :=
    List.pairwise_map.mpr (h.ascending.imp fun hlt => hlt.ne)
  exact (Prod.mk.inj (row_unique hnd (made_of_mem hi) (made_of_mem hj) rfl)).1

section Node

variable {cfg : Config} {n₀ n n' : Node} {acts : List NodeAct}

/-- **What a step of a process does.** -/
theorem nodeStep_cases {a : NodeAct} (h : nodeStep cfg n a = some n') :
    (∃ b, a = .act b ∧ b.made? = none ∧ step cfg n.sys b = some n'.sys ∧
      n'.lastV7time = n.lastV7time) ∨
    (∃ i bits nano, a = .newV7 i bits nano ∧
      step cfg n.sys (.call i (.uuid (newV7 bits nano n.lastV7time).1)) = some n'.sys ∧
      n'.lastV7time = (newV7 bits nano n.lastV7time).2) ∨
    (∃ bits nano, a = .requestID bits nano ∧ n'.sys = n.sys ∧
      n'.lastV7time = (newV7 bits nano n.lastV7time).2) := by
  cases a with
  | act b =>
      refine .inl ⟨b, rfl, ?_⟩
      cases b with
      | call i ch =>
          cases ch with
          | uuid u => cases h
          | _ =>
              obtain ⟨s', hs, rfl⟩ := Option.map_eq_some_iff.mp h
              exact ⟨rfl, hs, rfl⟩
      | _ =>
          cases h
          exact ⟨rfl, rfl, rfl⟩
  | newV7 i bits nano =>
      obtain ⟨s', hs, rfl⟩ := Option.map_eq_some_iff.mp h
      exact .inr (.inl ⟨i, bits, nano, rfl, hs, rfl⟩)
  | requestID bits nano =>
      cases h
      exact .inr (.inr ⟨bits, nano, rfl, rfl, rfl⟩)

/-- A run of a process is a run of the machine. -/
theorem node_refines (h : nodeExec cfg n₀ acts = some n) :
    exec cfg n₀.sys (n₀.machine cfg acts) = some n.sys := by
  have silent : ∀ m a m', True → nodeStep cfg m a = some m' → m.label a = none →
      m'.sys = m.sys := by
    intro m a m' _ hs hl
    rcases nodeStep_cases hs with ⟨b, rfl, _⟩ | ⟨i, bits, nano, rfl, _⟩ | ⟨_, _, rfl, he, _⟩
    · cases hl
    · cases hl
    · exact he
  have visible : ∀ m a m' e, True → nodeStep cfg m a = some m' → m.label a = some e →
      step cfg m.sys e = some m'.sys := by
    intro m a m' e _ hs hl
    rcases nodeStep_cases hs with ⟨b, rfl, _, hb, _⟩ | ⟨i, bits, nano, rfl, hb, _⟩ | ⟨_, _, rfl, _⟩
    · cases hl
      exact hb
    · cases hl
      exact hb
    · cases hl
  exact run_refines (fun _ _ _ _ _ => trivial) silent visible trivial h

theorem nodeStep_last {a : NodeAct} (hpos : 0 ≤ n.lastV7time) (h : nodeStep cfg n a = some n') :
    n.lastV7time ≤ n'.lastV7time := by
  rcases nodeStep_cases h with ⟨_, _, _, _, e⟩ | ⟨_, bits, nano, _, _, e⟩ |
    ⟨bits, nano, _, _, e⟩ <;> rw [e]
  · exact (newV7_last bits nano hpos).le
  · exact (newV7_last bits nano hpos).le

theorem node_last (h₀ : n₀.lastV7time = 0) (h : nodeExec cfg n₀ acts = some n) :
    0 ≤ n.lastV7time :=
  run_inv (I := fun n : Node => 0 ≤ n.lastV7time)
    (fun _ _ _ hpos hs => le_trans hpos (nodeStep_last hpos hs)) h₀.ge h

/-- A step that makes an id. -/
theorem MadeInv.snoc {as : List Act} {last : Int} (h : MadeInv as last) {i : Nat} {u : UUID}
    (hu : last < u.stamp) (hseed : seedTime * 2 ^ 12 < u.stamp) :
    MadeInv (as ++ [.call i (.uuid u)]) u.stamp := by
  have hsnoc : (as ++ [Act.call i (.uuid u)]).filterMap Act.made? =
      as.filterMap Act.made? ++ [(i, u)] := by
    rw [List.filterMap_append]
    rfl
  constructor
  · rw [hsnoc]
    refine List.pairwise_append.mpr ⟨h.ascending, List.pairwise_singleton _ _, fun x hx y hy => ?_⟩
    rw [List.mem_singleton.mp hy]
    have := (h.bounds x hx).2
    show x.2.stamp < u.stamp
    omega
  · rw [hsnoc]
    intro x hx
    rcases List.mem_append.mp hx with hx | hx
    · exact ⟨(h.bounds x hx).1, (h.bounds x hx).2.trans hu.le⟩
    · rw [List.mem_singleton.mp hx]
      exact ⟨hseed, le_refl _⟩

/-- Any other step. -/
theorem MadeInv.silent {as bs : List Act} {last last' : Int} (h : MadeInv as last)
    (hbs : bs.filterMap Act.made? = []) (hle : last ≤ last') : MadeInv (as ++ bs) last' := by
  have hsame : (as ++ bs).filterMap Act.made? = as.filterMap Act.made? := by
    rw [List.filterMap_append, hbs, List.append_nil]
  constructor
  · rw [hsame]
    exact h.ascending
  · rw [hsame]
    exact fun x hx => ⟨(h.bounds x hx).1, (h.bounds x hx).2.trans hle⟩

/-- **The ids of a process ascend along its run.** -/
theorem node_ids (h₀ : n₀.lastV7time = 0) (h : nodeExec cfg n₀ acts = some n)
    (hclock : ∀ a ∈ acts, a.afterSeeds = true) (hend : n.lastV7time < 2 ^ 60) :
    MadeInv (n₀.machine cfg acts) n.lastV7time := by
  refine run_induction (motive := fun acts n => (∀ a ∈ acts, a.afterSeeds = true) →
    n.lastV7time < 2 ^ 60 → MadeInv (n₀.machine cfg acts) n.lastV7time) ?_ ?_ h hclock hend
  · exact fun _ _ => ⟨List.Pairwise.nil, fun _ hx => absurd hx List.not_mem_nil⟩
  · intro as m a m' hr ih hs hclock hend
    have hpos := node_last h₀ hr
    have hle := nodeStep_last hpos hs
    have ih := ih (fun b hb => hclock b (List.mem_append_left _ hb)) (hle.trans_lt hend)
    have hmachine : n₀.machine cfg (as ++ [a]) = n₀.machine cfg as ++ (m.label a).toList :=
      labels_snoc hr hs
    rw [hmachine]
    rcases nodeStep_cases hs with ⟨b, rfl, hb, _, e⟩ | ⟨i, bits, nano, rfl, _, e⟩ |
      ⟨bits, nano, rfl, _, e⟩
    · exact ih.silent (List.filterMap_cons_none hb) hle
    · rw [e] at hend ⊢
      have hlast := newV7_last bits nano hpos
      have hseed := newV7_after bits m.lastV7time (t := seedTime) (by decide)
        (of_decide_eq_true (hclock _ (List.mem_append_right _ (List.mem_singleton_self _))))
      rw [← newV7_stamp bits nano hpos hend] at hlast hseed ⊢
      exact ih.snoc hlast hseed
    · exact ih.silent rfl hle

/-- The ids of the seed rows are not later than the seed deposits. -/
theorem migrated_ids (now : Time) :
    ∀ u ∈ (Db.migrated now).ids, (u.stamp : Int) ≤ seedTime * 2 ^ 12 := by
  have hall : (([seedDepositID 1, seedDepositID 2, seedDepositID 3] ++
      migratedAccounts.map (·.id)).all fun u => (u.stamp : Int) ≤ seedTime * 2 ^ 12) = true := by
    decide +kernel
  rw [Ledger.ids, Db.migrated_eq]
  exact fun u hu => of_decide_eq_true (List.all_eq_true.mp hall u hu)

/-- **An id in use is its call's alone.** -/
theorem node_fresh {now clock : Time}
    (h : nodeExec cfg (Node.start (Db.migrated now) clock) acts = some n)
    (hclock : ∀ a ∈ acts, a.afterSeeds = true) (hend : n.lastV7time < 2 ^ 60) {i : Nat} {c : Call}
    {u : UUID} (hc : n.sys.calls[i]? = some c) (hu : c.id? = some u) : u ∉ n.sys.db.ids := by
  intro hin
  have hrun := node_refines h
  rw [Node.start_sys] at hrun
  have hI := idInv_exec (inv_start cfg now clock) rfl hrun
  have hM := node_ids rfl h hclock hend
  have hmade := hI.pending i c u hc hu
  rcases hI.used u hin with hseed | ⟨j, d, hj, hd, hp⟩
  · exact absurd (hM.bounds _ (made_of_mem hmade)).1 (not_lt.mpr (migrated_ids now u hseed))
  · obtain rfl := hM.unique hmade hj
    rw [hc] at hd
    cases hd
    rw [Call.past_id hp] at hu
    cases hu

end Node

/-! ## 4. Calls that meet no fault -/

/-- **A call that meets no fault**, with ids that nobody else has: a conflict is about its key, and
    the transaction with the key is there; an account is refused for its name alone. -/
def Sound (L : Ledger) : Call → Prop
  | .request r (.inTx _ _ (.rollback e)) =>
    e = .sentinel .idempotencyConflict → ∃ t ∈ L.transactions, t.idempotencyKey = r.key
  | .request r (.refetch _) => ∃ t ∈ L.transactions, t.idempotencyKey = r.key
  | .request _ (.audit _ ret) => ret ≠ .failed (.sentinel .idempotencyConflict)
  | .request _ (.done ret) => ret ≠ .failed (.sentinel .idempotencyConflict)
  | .createAccount name (.failed _) => pgText name = false
  | _ => True

theorem Sound.mono {L L' : Ledger} (he : L.Extends L') {c : Call} (h : Sound L c) : Sound L' c := by
  have header : ∀ {key : GoString}, (∃ t ∈ L.transactions, t.idempotencyKey = key) →
      ∃ t ∈ L'.transactions, t.idempotencyKey = key := fun ⟨t, ht, e⟩ => ⟨t, he.transaction t ht, e⟩
  cases c with
  | request r p =>
      cases p with
      | inTx w tx stage =>
          cases stage with
          | rollback e => exact fun hc => header (h hc)
          | _ => trivial
      | refetch => exact header h
      | audit => exact h
      | done => exact h
      | _ => trivial
  | createAccount name p =>
      cases p with
      | failed => exact h
      | _ => trivial

section Sound

variable {cfg : Config} {s : St} {i : Nat} {ch : Choice} {c c' : Call} {db' : Db}

/-- A call that has just arrived. -/
theorem sound_start (L : Ledger) (r : Request) : Sound L (.request r r.start) := by
  rcases start_invalid r with ⟨e, _⟩ | ⟨_, s, e, _, hs⟩ <;> rw [e]
  · trivial
  · rintro ⟨⟩
    exact hs rfl

/-- A branch of a service call. -/
theorem next_sound {db : Db} {r : Request} {p p' : Phase} (hp : PhaseOk cfg db r p)
    (htext : ∀ t ∈ db.transactions, pgText t.idempotencyKey = true)
    (hn : Next cfg db r ch p p') (hch : ch.healthy = true)
    (hid : ∀ w, p.work? = some w → w.txn.id ∉ db.ids) (h : Sound db.toLedger (.request r p)) :
    Sound db.toLedger (.request r p') := by
  cases hn with
  | missed => cases r <;> trivial
  | noOriginal =>
      rintro ⟨⟩
  | notTransfer =>
      rintro ⟨⟩
  | @duplicate w tx ix todo k hix hin =>
      intro hcon
      rcases duplicate_reverses hp.1 hix hin with ⟨_, ⟨t, ht, e⟩ | hkey⟩ | ⟨he, _⟩
      · exact absurd (List.mem_append_left _ (List.mem_map.mpr ⟨t, ht, e⟩)) (hid w rfl)
      · exact hkey
      · exact absurd (he.symm.trans hcon) (by decide)
  | keyNoText =>
      intro hcon
      cases r <;> cases hcon
  | accountMissing => rintro ⟨⟩
  | poor => rintro ⟨⟩
  | debitRefused => rintro ⟨⟩
  | creditRefused => rintro ⟨⟩
  | entryRefused => rintro ⟨⟩
  | rolledBack w tx e =>
      unfold Request.afterTxErr
      split
      · exact h ‹_›
      · rintro ⟨⟩
        exact ‹_ ≠ _› rfl
  | refetchMissed hk =>
      obtain ⟨t, ht, e⟩ := h
      exact absurd e (hk (e ▸ htext t ht) t ht)
  | committed => rintro ⟨⟩
  | replayed => rintro ⟨⟩
  | refetchedEntries => rintro ⟨⟩
  | audited => exact h
  | lookupFails => cases hch
  | lookupEntriesFails => cases hch
  | originalFails => cases hch
  | originalEntriesFails => cases hch
  | generateFails => cases hch
  | beginFails => cases hch
  | ackLost => cases hch
  | statementFails => cases hch
  | refetchFails => cases hch
  | refetchEntriesFails => cases hch
  | auditFails => cases hch
  | _ => trivial

/-- An INSERT with an unused id fails for the name alone. -/
theorem insertAccount_fresh {L : Ledger} {id : UUID} {name : GoString} (h : id ∉ L.ids) :
    insertAccount L id name =
      if pgText name = true then .ok { L with accounts := L.accounts ++ [⟨id, name, 0, false⟩] }
      else .error invalidText := by
  have hnone : L.account? id = none := by
    refine List.find?_eq_none.mpr fun a ha e => h (List.mem_append_right _ ?_)
    exact List.mem_map.mpr ⟨a, ha, by simpa using e⟩
  rw [insertAccount, hnone]
  cases pgText name <;> rfl

/-- **A step of a call that meets no fault.** -/
theorem callStep_sound (hI : SysInv cfg s) (hc : s.calls[i]? = some c)
    (h : callStep cfg s i ch c = some (db', c')) (hext : s.db.toLedger.Extends db'.toLedger)
    (hch : ch.healthy = true) (hid : ∀ u, c.id? = some u → u ∉ s.db.ids)
    (hs : Sound s.db.toLedger c) : Sound db'.toLedger c' := by
  cases c with
  | request r p =>
      obtain ⟨⟨db₁, p'⟩, hp, e⟩ := Option.map_eq_some_iff.mp h
      cases e
      have hok := hI.calls i _ hc
      have hn : Next cfg s.db r ch p p' := (requestStep_ok hI.ledger hok hp).2.1
      refine Sound.mono hext (next_sound hok hI.text hn hch (fun w hw => ?_) hs)
      exact hid _ (Option.map_eq_some_iff.mpr ⟨w, hw, rfl⟩)
  | createAccount name p =>
      obtain ⟨⟨db₁, p'⟩, hp, e⟩ := Option.map_eq_some_iff.mp h
      cases e
      cases p with
      | newID =>
          cases ch with
          | uuid u =>
              cases hp
              trivial
          | fail => cases hch
          | _ => cases hp
      | insert id =>
          cases ch with
          | ok =>
              simp only [createStep, insertAccount_fresh (hid id rfl)] at hp
              by_cases htext : pgText name = true
              · rw [if_pos htext] at hp
                cases hp
                trivial
              · rw [if_neg htext] at hp
                cases hp
                exact Bool.eq_false_iff.mpr htext
          | fail => cases hch
          | lostAck => cases hch
          | uuid => cases hp
      | done => cases ch <;> cases hp
      | failed => cases ch <;> cases hp

end Sound

section NodeSound

variable {cfg : Config} {n : Node} {acts : List NodeAct} {now clock : Time}

/-- **Every call that meets no fault is sound.** -/
theorem node_sound (h : nodeExec cfg (Node.start (Db.migrated now) clock) acts = some n)
    (hclock : ∀ a ∈ acts, a.afterSeeds = true) (hend : n.lastV7time < 2 ^ 60) {i : Nat}
    (hh : ∀ a ∈ acts, a.healthyFor i = true) {c : Call} (hc : n.sys.calls[i]? = some c) :
    Sound n.sys.db.toLedger c := by
  refine run_induction (motive := fun acts n => (∀ a ∈ acts, a.afterSeeds = true) →
    n.lastV7time < 2 ^ 60 → (∀ a ∈ acts, a.healthyFor i = true) →
    ∀ c, n.sys.calls[i]? = some c → Sound n.sys.db.toLedger c) ?_ ?_ h hclock hend hh c hc
  · intro _ _ _ c hc
    cases hc
  · intro as m a m' hr ih hs hclock hend hh c' hc'
    have hclock' := fun b hb => hclock b (List.mem_append_left _ hb)
    have hlast := (nodeStep_last (node_last rfl hr) hs).trans_lt hend
    have ih := ih hclock' hlast fun b hb => hh b (List.mem_append_left _ hb)
    have hI : SysInv cfg m.sys := inv_exec (inv_start cfg now clock) (by
      have := node_refines hr
      rwa [Node.start_sys] at this)
    have hha := hh a (List.mem_append_right _ (List.mem_singleton_self a))
    -- a step of the machine, with the ids that nobody else has
    have machine : ∀ b, step cfg m.sys b = some m'.sys → b.healthyFor i = true →
        Sound m'.sys.db.toLedger c' := by
      intro b hb hhb
      refine step_calls (P := Sound) hI hb (fun he hP => hP.mono he) (sound_start _)
        (fun _ => trivial) (fun ch c db' c' e hc hcall hext hP => ?_) ih hc'
      subst e
      have hch : ch.healthy = true := by simpa [Act.healthyFor] using hhb
      exact callStep_sound hI hc hcall hext hch
        (fun u hu => node_fresh hr hclock' hlast hc hu) hP
    rcases nodeStep_cases hs with ⟨b, rfl, _, hb, _⟩ | ⟨j, bits, nano, rfl, hb, _⟩ |
      ⟨_, _, rfl, e, _⟩
    · exact machine b hb hha
    · exact machine _ hb (by simp [Act.healthyFor, Choice.healthy])
    · rw [e] at hc' ⊢
      exact ih c' hc'

/-- **ErrIdempotencyConflict needs a fault.** A call of the service that no fault hits does not
    report it, however many others use its key at the same time: it gets the transaction with the
    key. -/
theorem conflict_needs_fault (h : nodeExec cfg (Node.start (Db.migrated now) clock) acts = some n)
    (hclock : ∀ a ∈ acts, a.afterSeeds = true) (hend : n.lastV7time < 2 ^ 60) {i : Nat}
    (hh : ∀ a ∈ acts, a.healthyFor i = true) {r : Request} {ret : Return}
    (hret : n.sys.calls[i]? = some (.request r (.done ret))) :
    ret ≠ .failed (.sentinel .idempotencyConflict) :=
  node_sound h hclock hend hh hret

/-- **An account with a proper name is always created** by a call that no fault hits: its id is new
    among all that the process has made. -/
theorem create_succeeds (h : nodeExec cfg (Node.start (Db.migrated now) clock) acts = some n)
    (hclock : ∀ a ∈ acts, a.afterSeeds = true) (hend : n.lastV7time < 2 ^ 60) {i : Nat}
    (hh : ∀ a ∈ acts, a.healthyFor i = true) {name : GoString} (htext : pgText name = true)
    {p : CreatePhase} (hc : n.sys.calls[i]? = some (.createAccount name p))
    (hfin : (Call.createAccount name p).finished = true) :
    ∃ a, p = .done a ∧ ∃ row ∈ n.sys.db.accounts, row.id = a.id ∧ row.name = name := by
  have hs := node_sound h hclock hend hh hc
  cases p with
  | done a =>
      have hrun := node_refines h
      rw [Node.start_sys] at hrun
      obtain ⟨row, hrow, hid, hname, _⟩ := exec_created (inv_start cfg now clock) rfl hrun hc
      exact ⟨a, rfl, row, hrow, hid, hname⟩
  | failed e => exact absurd htext (Bool.eq_false_iff.mp hs)
  | newID => cases hfin
  | insert id => cases hfin

end NodeSound

/-- Two calls for one transfer, with a retried key. -/
def twinTransfer : Request :=
  .transfer aliceID bobID (Money.fromInt 5) (bytes "pay-twin") (bytes "req-twin")

/-- Both miss the key and make their ids at one reading of the clock; an account is created in
    between. The second waits for the locks of the first and meets its header. -/
def twinActs : List NodeAct :=
  [.act (.arrive twinTransfer), .act (.arrive twinTransfer), .act (.arriveCreate (bytes "Dora")),
    .act (.call 0 .ok), .act (.call 1 .ok), .newV7 0 7#128 1800000000000000000,
    .newV7 1 7#128 1800000000000000000, .requestID 7#128 1800000000000000000,
    .newV7 2 7#128 1800000000000000000, .act (.call 2 .ok)] ++
  List.replicate 17 (.act (.call 0 .ok)) ++ List.replicate 13 (.act (.call 1 .ok))

theorem twinActs_isSome :
    (nodeExec Config.migrated (Node.start (Db.migrated 0) 1000) twinActs).isSome = true := by
  decide +kernel

def twinEnd : Node :=
  (nodeExec Config.migrated (Node.start (Db.migrated 0) 1000) twinActs).get twinActs_isSome

theorem twinActs_exec :
    nodeExec Config.migrated (Node.start (Db.migrated 0) 1000) twinActs = some twinEnd :=
  (Option.some_get twinActs_isSome).symm

theorem twinActs_clock : (∀ a ∈ twinActs, a.afterSeeds = true) ∧ twinEnd.lastV7time < 2 ^ 60 ∧
    ∀ a ∈ twinActs, a.healthyFor 1 = true ∧ a.healthyFor 2 = true := by
  decide +kernel

/-- What the second call returns. -/
def twinReturn : Return :=
  match (twinEnd.sys.calls[1]? : Option Call) with
  | some (.request _ (.done ret)) => ret
  | _ => .failed (.sentinel .idempotencyConflict)

theorem conflict_needs_fault_twin :
    twinEnd.sys.calls[1]? = some (.request twinTransfer (.done twinReturn)) ∧
      twinReturn ≠ .failed (.sentinel .idempotencyConflict) := by
  obtain ⟨hclock, hend, hh⟩ := twinActs_clock
  have hret : twinEnd.sys.calls[1]? = some (.request twinTransfer (.done twinReturn)) := by
    decide +kernel
  exact ⟨hret, conflict_needs_fault twinActs_exec hclock hend (fun a ha => (hh a ha).1) hret⟩

/-- The account made at the same reading of the clock. -/
def twinAccount : Account :=
  ⟨0x01a3185c500070038000000000000007#128, bytes "Dora", Money.ofColumn 0, false⟩

theorem create_succeeds_twin :
    ∃ row ∈ twinEnd.sys.db.accounts, row.id = twinAccount.id ∧ row.name = bytes "Dora" := by
  obtain ⟨hclock, hend, hh⟩ := twinActs_clock
  have hc : twinEnd.sys.calls[2]? = some (.createAccount (bytes "Dora") (.done twinAccount)) := by
    decide +kernel
  obtain ⟨a, e, hrow⟩ := create_succeeds twinActs_exec hclock hend (fun a ha => (hh a ha).2)
    (by decide) hc rfl
  cases e
  exact hrow

end BankingService
