/-
  File:      BankingService/Props/Startup.lean
  Subject:   WHAT THE STARTUP OF ANY NUMBER OF SERVERS DOES TO THE SCHEMA.

  * `migrations_once` -- every migration file is committed at most once, in ascending order, and
    never while a process serves.
  * `dirty_stays` -- a process that dies between marking a version dirty and marking it clean leaves
    a database no server ever serves on again, and none ever changes.
  * `startup_serves` -- from every other state in which nobody holds the advisory lock, a new
    process whose statements succeed comes to serve.
-/
import BankingService.Proof.Cluster

namespace BankingService

open Lib

/-! ## 1. Every migration once -/

/-- The version whose file an action of the cluster commits. -/
def Cluster.migrates (c : Cluster) : ClusterAct → Option Nat
  | .proc p ans =>
    match c.procs[p]? with
    | some ⟨.run v body _, true⟩ =>
      match ans, body.run c.clock c.bank with
      | .fail _, _ => none
      | _, .error _ => none
      | _, .ok _ => some v
    | _ => none
  | _ => none

section Level

variable {cfg : Config} {c c' : Cluster} {n m : Nat}

/-- The level, read off the tables. -/
def Cluster.level (c : Cluster) : Nat :=
  match c.bank with
  | none => 0
  | some db =>
    if db.accounts.isEmpty then 1 else if (db.account? aliceID).isNone then 2 else 3

theorem Cluster.AtLevel.level_eq (h : c.AtLevel cfg n) (hn : n ≤ 3) : c.level = n := by
  match n with
  | 0 => rw [Cluster.level, h.1]
  | 1 => rw [Cluster.level, h.1]; rfl
  | 2 => rw [Cluster.level, h.1]; decide
  | 3 =>
      obtain ⟨now, start, acts, s, hrun, hsim⟩ := h
      have halice : ∃ a ∈ s.db.accounts, a.id = aliceID := by
        refine exec_account (inv_start cfg now start) hrun
          ⟨⟨aliceID, bytes "Alice", seedAmount, false⟩, ?_, rfl⟩
        rw [St.start_db, Db.migrated_eq]
        exact List.mem_cons_of_mem _ List.mem_cons_self
      obtain ⟨a, ha, hid⟩ := halice
      have hne : s.db.accounts.isEmpty = false := by
        rw [List.isEmpty_eq_false_iff]
        exact List.ne_nil_of_mem ha
      have hsome : (s.db.account? aliceID).isNone = false := by
        rw [Ledger.account?, Option.isNone_eq_false_iff, List.find?_isSome]
        exact ⟨a, ha, decide_eq_true hid⟩
      simp [Cluster.level, hsim.bank, hne, hsome]

theorem Cluster.AtLevel.inj (h : c.AtLevel cfg n) (h' : c.AtLevel cfg m) (hn : n ≤ 3)
    (hm : m ≤ 3) : n = m := by
  rw [← h.level_eq hn, h'.level_eq hm]

theorem Cluster.AtLevel.goTo (h : c.AtLevel cfg n) (p : Nat) (pr : Proc) (phase : ProcPhase) :
    (c.goTo p pr phase).AtLevel cfg n := by
  unfold Cluster.goTo
  split
  · exact h.kill p
  · exact h.congr rfl rfl rfl

/-- **A step keeps the level, or commits the file of the next one**, and then nobody serves. -/
theorem level_step (hI : ClusterInv cfg c) (hl : c.AtLevel cfg n) (hn : n ≤ 3) {a : ClusterAct}
    (hs : Cluster.step cfg c a = some c') :
    c.migrates a = none ∧ c'.AtLevel cfg n ∨
      c.migrates a = some (n + 1) ∧ n < 3 ∧ c'.AtLevel cfg (n + 1) ∧ c.row ≠ rowAt 3 := by
  have serve : ∀ {p b c₁}, c.serves p = true → c.bankStep cfg b = some c₁ →
      Cluster.AtLevel cfg { c₁ with owners := c₁.owners ++ [p] } n := by
    intro p b c₁ hp hb
    have h3 := hI.versions.level (hI.row_of_serves hp)
    obtain rfl := hl.inj h3 hn le_rfl
    exact (h3.arrive hb).congr rfl rfl rfl
  cases a with
  | boot =>
      cases hs
      exact .inl ⟨rfl, hl.congr rfl rfl rfl⟩
  | proc p ans =>
      simp only [Cluster.step] at hs
      split at hs
      · cases hs
      · rename_i pr hp
        by_cases hph : ∃ v body rest, pr = ⟨.run v body rest, true⟩
        · -- the one statement that changes the tables
          obtain ⟨v, body, rest, rfl⟩ := hph
          obtain ⟨k, hk, hi, hr, hlev⟩ := ((hI.procs p _ hp).held rfl rfl).2
          obtain rfl := hl.inj hlev hn (by omega)
          rw [upItems_lt hk] at hi
          cases hi
          obtain ⟨bank, hbank, hup⟩ := hlev.run hk
          have hrow : c.row ≠ rowAt 3 := fun e => rowAt_ne_dirty 3 _ (e.symm.trans hr)
          cases ans with
          | fail text =>
              cases hs
              exact .inl ⟨by simp [Cluster.migrates, hp], hl.goTo p _ _⟩
          | ok =>
              simp only [Cluster.procStep, ProcPhase.starting, ProcPhase.usesSession,
                ProcPhase.waits, ProcPhase.statement, hbank] at hs
              cases hs
              exact .inr ⟨by simp [Cluster.migrates, hp, hbank], hk, hup.goTo p _ _, hrow⟩
          | lost text =>
              simp only [Cluster.procStep, ProcPhase.starting, ProcPhase.usesSession,
                ProcPhase.waits, ProcPhase.statement, hbank] at hs
              cases hs
              exact .inr ⟨by simp [Cluster.migrates, hp, hbank], hk, hup.goTo p _ _, hrow⟩
        · have hnone : c.migrates (.proc p ans) = none := by
            simp only [Cluster.migrates, hp]
            split
            · rename_i v body rest heq
              exact absurd ⟨v, body, rest, Option.some.inj heq⟩ hph
            · rfl
          refine .inl ⟨hnone, ?_⟩
          obtain ⟨_, ⟨text, rfl⟩ | ⟨d, next, hx, hd, hc⟩⟩ := procStep_cases hs
          · exact hl.goTo p pr _
          · have hbank : d.bank = c.bank := by
              refine statement_bank (fun v body rest e => hph ⟨v, body, rest, ?_⟩) hd
              obtain ⟨phase, session⟩ := pr
              obtain rfl : phase = .run v body rest := e
              obtain ⟨hs | hs, _⟩ := hx
              · obtain rfl : session = true := hs
                rfl
              · cases hs
            have hl' : Cluster.AtLevel cfg { c with toShared := d } n := hl.congr hbank rfl rfl
            rcases hc with rfl | ⟨text, rfl⟩
            · exact hl'.goTo p pr _
            · exact hl'.goTo p pr _
  | disconnect p =>
      simp only [Cluster.step] at hs
      split at hs
      · cases hs
      · cases hs
        exact .inl ⟨rfl, hl.congr rfl rfl rfl⟩
  | crash p =>
      simp only [Cluster.step] at hs
      split at hs
      · cases hs
      · cases hs
        exact .inl ⟨rfl, hl.kill p⟩
  | arrive p r =>
      simp only [Cluster.step] at hs
      split at hs
      · rename_i hp
        obtain ⟨c₁, h₁, rfl⟩ := Option.map_eq_some_iff.mp hs
        exact .inl ⟨rfl, serve hp h₁⟩
      · cases hs
  | arriveCreate p name =>
      simp only [Cluster.step] at hs
      split at hs
      · rename_i hp
        obtain ⟨c₁, h₁, rfl⟩ := Option.map_eq_some_iff.mp hs
        exact .inl ⟨rfl, serve hp h₁⟩
      · cases hs
  | call i ch => exact .inl ⟨rfl, hl.call hs⟩
  | tick d =>
      cases hs
      exact .inl ⟨rfl, hl.tick d⟩

end Level

/-- **Every migration once.** Along every run of the cluster from an empty database the committed
    migration files are 0001, 0002, 0003 in this order, as far as they go, each at most once; and
    when one is committed no process serves. -/
theorem migrations_once {cfg : Config} {clock : Time} {acts : List ClusterAct} {c : Cluster}
    (h : Cluster.exec cfg (Cluster.fresh clock) acts = some c) :
    labels (Cluster.step cfg) Cluster.migrates (Cluster.fresh clock) acts <+: [1, 2, 3] ∧
      ∀ x ∈ steps (Cluster.step cfg) (Cluster.fresh clock) acts,
        (x.1.migrates x.2).isSome = true → ∀ p, x.1.serves p = false := by
  have hall := run_induction (motive := fun acts c => ClusterInv cfg c ∧
      (∃ n ≤ 3, c.AtLevel cfg n ∧
        labels (Cluster.step cfg) Cluster.migrates (Cluster.fresh clock) acts =
          [1, 2, 3].take n) ∧
      ∀ x ∈ steps (Cluster.step cfg) (Cluster.fresh clock) acts,
        (x.1.migrates x.2).isSome = true → ∀ p, x.1.serves p = false)
    ⟨inv_fresh cfg clock, ⟨0, by omega, ⟨rfl, rfl⟩, rfl⟩, fun x hx => absurd hx List.not_mem_nil⟩
    ?_ h
  · obtain ⟨_, ⟨n, _, _, hlab⟩, hserve⟩ := hall
    exact ⟨hlab ▸ List.take_prefix n _, hserve⟩
  · rintro as m a m' hr ⟨hI, ⟨n, hn, hl, hlab⟩, hserve⟩ hs
    rw [labels_snoc hr hs, steps_snoc hr hs, hlab]
    refine ⟨inv_clusterStep hI hs, ?_, fun x hx hm p => ?_⟩
    · rcases level_step hI hl hn hs with ⟨hnone, hl'⟩ | ⟨hsome, hlt, hl', _⟩
      · exact ⟨n, hn, hl', by rw [hnone]; simp⟩
      · refine ⟨n + 1, by omega, hl', ?_⟩
        rw [hsome]
        have : n = 0 ∨ n = 1 ∨ n = 2 := by omega
        rcases this with rfl | rfl | rfl <;> rfl
    · rcases List.mem_append.mp hx with hx | hx
      · exact hserve x hx hm p
      · obtain rfl := List.mem_singleton.mp hx
        rcases level_step hI hl hn hs with ⟨hnone, _⟩ | ⟨_, _, _, hrow⟩
        · rw [hnone] at hm
          cases hm
        · exact Bool.eq_false_of_not_eq_true fun hp => hrow (hI.row_of_serves hp)

/-- The first process dies after committing the file of 0001 but before marking it clean; the second
    one cannot go on. -/
def dirtyRun : List ClusterAct :=
  .boot :: List.replicate 8 (.proc 0 .ok) ++ [.crash 0, .boot] ++ List.replicate 6 (.proc 1 .ok)

theorem dirtyRun_isSome :
    (Cluster.exec Config.migrated (Cluster.fresh 1000) dirtyRun).isSome = true := by
  decide +kernel

def dirtyEnd : Cluster :=
  (Cluster.exec Config.migrated (Cluster.fresh 1000) dirtyRun).get dirtyRun_isSome

theorem dirtyRun_exec :
    Cluster.exec Config.migrated (Cluster.fresh 1000) dirtyRun = some dirtyEnd :=
  (Option.some_get dirtyRun_isSome).symm

theorem migrations_once_dirty :
    labels (Cluster.step Config.migrated) Cluster.migrates (Cluster.fresh 1000) dirtyRun = [1] ∧
      labels (Cluster.step Config.migrated) Cluster.migrates (Cluster.fresh 1000) dirtyRun <+:
        [1, 2, 3] :=
  ⟨by decide +kernel, (migrations_once dirtyRun_exec).1⟩

/-! ## 2. A dirty database -/

/-- In the middle of a migration. -/
def ProcPhase.migrating : ProcPhase → Bool
  | .setDirty _ _ _ => true
  | .run _ _ _ => true
  | .setClean _ _ => true
  | _ => false

/-- A version is dirty, and no live process is in the middle of a migration. -/
structure Stuck (cfg : Config) (row : VersionRow) (bank : Option Db) (c : Cluster) : Prop where
  inv : ClusterInv cfg c
  versions : c.versions = some (some row)
  bank : c.bank = bank
  nobody : ∀ (p : Nat) (pr : Proc), c.procs[p]? = some pr → pr.session = true →
    pr.phase.migrating = false

section Stuck

variable {cfg : Config} {c c' : Cluster} {row : VersionRow} {bank : Option Db}

theorem ProcPhase.migrating_onErr (phase : ProcPhase) (e : UpErr) :
    (phase.onErr e).migrating = false := by
  cases phase with
  | unlock errs =>
      show (ProcPhase.afterUp (errs ++ [e])).migrating = false
      unfold ProcPhase.afterUp
      split <;> rfl
  | _ => rfl

/-- On a dirty database a statement outside a migration starts none and leaves everything but the
    lock as it is. -/
theorem statement_dirty {now : Time} {d d' : Shared} {p : Nat} {phase next : ProcPhase}
    (hd : d.versions = some (some row)) (hrow : row.dirty = true)
    (hph : phase.migrating = false) (h : phase.statement now d p = .ok (d', next)) :
    d'.versions = d.versions ∧ next.migrating = false := by
  cases phase with
  | setDirty => cases hph
  | run => cases hph
  | setClean => cases hph
  | ensureCount =>
      cases h
      rw [hd]
      exact ⟨rfl, rfl⟩
  | ensureCreate =>
      cases h
      simp [hd, ProcPhase.migrating]
  | ensureUnlock errs =>
      cases h
      refine ⟨rfl, ?_⟩
      split <;> rfl
  | version =>
      simp only [ProcPhase.statement, Shared.version, hd, hrow, if_true] at h
      cases h
      exact ⟨rfl, rfl⟩
  | unlock errs =>
      cases h
      refine ⟨rfl, ?_⟩
      unfold ProcPhase.afterUp
      split <;> rfl
  | _ =>
      cases h
      exact ⟨rfl, rfl⟩

theorem Stuck.row_ne (h : Stuck cfg row bank c) (hrow : row.dirty = true) : c.row ≠ rowAt 3 := by
  have hr : c.row = some row := by
    rw [Shared.row, h.versions]
    rfl
  obtain ⟨v, dirty⟩ := row
  obtain rfl : dirty = true := hrow
  exact fun e => rowAt_ne_dirty 3 v (e.symm.trans hr)

/-- A process goes on outside a migration. -/
theorem Stuck.goTo {p : Nat} {pr : Proc} {phase : ProcPhase}
    (hI : ClusterInv cfg (c.goTo p pr phase)) (hv : c.versions = some (some row))
    (hb : c.bank = bank) (hph : phase.migrating = false)
    (hn : ∀ (q : Nat) (pr : Proc), q ≠ p → c.procs[q]? = some pr → pr.session = true →
      pr.phase.migrating = false) : Stuck cfg row bank (c.goTo p pr phase) := by
  have key : ∀ (c₁ : Cluster) pr', c₁.procs = c.procs.set p pr' → pr'.phase.migrating = false →
      ∀ (q : Nat) (x : Proc), c₁.procs[q]? = some x → x.session = true →
        x.phase.migrating = false := by
    intro c₁ pr' hprocs hpr' q x hx hs
    rw [hprocs] at hx
    rcases eq_or_ne p q with rfl | hne
    · have hlt := (List.getElem?_eq_some_iff.mp hx).1
      rw [List.length_set] at hlt
      rw [List.getElem?_set_self hlt] at hx
      exact Option.some.inj hx ▸ hpr'
    · rw [List.getElem?_set_ne hne] at hx
      exact hn q x hne.symm hx hs
  unfold Cluster.goTo at hI ⊢
  split
  · rename_i he
    rw [if_pos he] at hI
    exact ⟨hI, hv, hb, key _ _ rfl rfl⟩
  · rename_i he
    rw [if_neg he] at hI
    exact ⟨hI, hv, hb, key _ _ rfl hph⟩

/-- **No step repairs a dirty database.** -/
theorem Stuck.step (h : Stuck cfg row bank c) (hrow : row.dirty = true) {a : ClusterAct}
    (hs : Cluster.step cfg c a = some c') : Stuck cfg row bank c' := by
  have hI' := inv_clusterStep h.inv hs
  have hserve : ∀ p, c.serves p = true → False := fun p hp =>
    h.row_ne hrow (h.inv.row_of_serves hp)
  cases a with
  | boot =>
      cases hs
      refine ⟨hI', h.versions, h.bank, fun p pr hp hsess => ?_⟩
      rcases Nat.lt_or_ge p c.procs.length with hlt | hge
      · simp only [List.getElem?_append_left hlt] at hp
        exact h.nobody p pr hp hsess
      · simp only [List.getElem?_append_right hge] at hp
        obtain rfl := List.mem_singleton.mp (List.mem_of_getElem? hp)
        rfl
  | proc p ans =>
      simp only [Cluster.step] at hs
      split at hs
      · cases hs
      · rename_i pr hp
        have hn : ∀ (q : Nat) (x : Proc), q ≠ p → c.procs[q]? = some x → x.session = true →
            x.phase.migrating = false := fun q x _ => h.nobody q x
        obtain ⟨_, ⟨text, rfl⟩ | ⟨d, next, hx, hd, hc⟩⟩ := procStep_cases hs
        · exact Stuck.goTo hI' h.versions h.bank (ProcPhase.migrating_onErr _ _) hn
        · have hph : pr.phase.migrating = false :=
            hx.1.elim (h.nobody p pr hp) fun e => by rw [e]; rfl
          obtain ⟨hv, hnext⟩ := statement_dirty h.versions hrow hph hd
          have hb : d.bank = c.bank := statement_bank (fun v body rest e => by
            rw [e] at hph
            cases hph) hd
          rcases hc with rfl | ⟨text, rfl⟩
          · exact Stuck.goTo hI' (hv.trans h.versions) (hb.trans h.bank) hnext hn
          · exact Stuck.goTo hI' (hv.trans h.versions) (hb.trans h.bank)
              (ProcPhase.migrating_onErr _ _) hn
  | disconnect p =>
      simp only [Cluster.step] at hs
      split at hs
      · cases hs
      · rename_i pr hp
        cases hs
        refine ⟨hI', h.versions, h.bank, fun q x hx hsess => ?_⟩
        rcases eq_or_ne p q with rfl | hne
        · have hlt := (List.getElem?_eq_some_iff.mp hp).1
          simp only [List.getElem?_set_self hlt] at hx
          cases hx
          cases hsess
        · simp only [List.getElem?_set_ne hne] at hx
          exact h.nobody q x hx hsess
  | crash p =>
      simp only [Cluster.step] at hs
      split at hs
      · cases hs
      · rename_i pr hp
        cases hs
        have hI'' : ClusterInv cfg (c.goTo p pr .exited) := by
          rw [Cluster.goTo, if_pos rfl]
          exact hI'
        have hst := Stuck.goTo hI'' h.versions h.bank rfl fun q x _ => h.nobody q x
        rwa [Cluster.goTo, if_pos rfl] at hst
  | arrive p r =>
      simp only [Cluster.step] at hs
      split at hs
      · rename_i hp
        exact (hserve p hp).elim
      · cases hs
  | arriveCreate p name =>
      simp only [Cluster.step] at hs
      split at hs
      · rename_i hp
        exact (hserve p hp).elim
      · cases hs
  | call i ch => exact (bankStep_call_ne (h.inv.idle (h.row_ne hrow)) hs).elim
  | tick d =>
      cases hs
      exact ⟨hI', h.versions, h.bank, h.nobody⟩

end Stuck

/-- **A dirty database stays dirty.** When the version is marked dirty and nobody holds the advisory
    lock any more, then after any further starts, crashes and statements the version and the tables
    are as they were, and no process serves. -/
theorem dirty_stays {cfg : Config} {clock : Time} {acts acts' : List ClusterAct} {c c' : Cluster}
    (h : Cluster.exec cfg (Cluster.fresh clock) acts = some c) {v : Int}
    (hdirty : c.versions = some (some ⟨v, true⟩)) (hfree : c.lock = none)
    (h' : Cluster.exec cfg c acts' = some c') :
    c'.versions = c.versions ∧ c'.bank = c.bank ∧ ∀ p, c'.serves p = false := by
  have hI := inv_clusterExec h
  have hstuck : Stuck cfg ⟨v, true⟩ c.bank c := by
    refine ⟨hI, hdirty, rfl, fun p pr hp hs => ?_⟩
    refine Bool.eq_false_of_not_eq_true fun hm => ?_
    have hholds : pr.phase.holds = true := by
      cases hph : pr.phase with
      | setDirty => rfl
      | run => rfl
      | setClean => rfl
      | _ =>
          rw [hph] at hm
          cases hm
    have hl := ((hI.procs p pr hp).held hs hholds).1
    rw [hfree] at hl
    cases hl
  have hstuck' : Stuck cfg ⟨v, true⟩ c.bank c' :=
    run_inv (fun _ _ _ hi hs => Stuck.step hi rfl hs) hstuck h'
  refine ⟨hstuck'.versions.trans hdirty.symm, hstuck'.bank, fun p => ?_⟩
  exact Bool.eq_false_of_not_eq_true fun hp =>
    hstuck'.row_ne rfl (hstuck'.inv.row_of_serves hp)

/-- After the crash in the middle of 0001 the second process has given up, and so will a third. -/
theorem dirty_stays_third :
    ∃ c', Cluster.exec Config.migrated dirtyEnd (.boot :: List.replicate 6 (.proc 2 .ok)) =
        some c' ∧ c'.versions = some (some ⟨1, true⟩) ∧ ∀ p, c'.serves p = false := by
  have hend : dirtyEnd.versions = some (some ⟨1, true⟩) ∧ dirtyEnd.lock = none := by
    decide +kernel
  have hsome : (Cluster.exec Config.migrated dirtyEnd
      (.boot :: List.replicate 6 (.proc 2 .ok))).isSome = true := by decide +kernel
  obtain ⟨c', hrun⟩ := Option.isSome_iff_exists.mp hsome
  obtain ⟨hv, _, hs⟩ := dirty_stays dirtyRun_exec hend.1 hend.2 hrun
  exact ⟨c', hrun, hv.trans hend.1, hs⟩

/-! ## 3. A clean database -/

/-- How many statements a starting process has left, at most. -/
def ProcPhase.rank : ProcPhase → Nat
  | .ensureLock => 25
  | .ensureCount => 24
  | .ensureCreate => 23
  | .ensureUnlock _ => 22
  | .lock => 21
  | .version => 20
  | .setDirty _ _ rest => 5 + 3 * rest.length
  | .run _ _ rest => 4 + 3 * rest.length
  | .setClean _ rest => 3 + 3 * rest.length
  | .unlock _ => 2
  | .openStore => 1
  | .serving => 0
  | .exited => 0

/-- The row is clean. -/
def Cluster.Clean (c : Cluster) : Prop := ∃ n ≤ 3, c.row = rowAt n

/-- What a process on its way needs of the database, besides what it knows as the holder of the
    lock. -/
def ProcPhase.Ready (c : Cluster) : ProcPhase → Prop
  | .ensureLock => c.lock = none ∧ c.Clean
  | .ensureCount => c.Clean
  | .ensureCreate => c.Clean
  | .ensureUnlock errs => errs = [] ∧ c.Clean ∧ c.versions.isSome = true
  | .lock => c.lock = none ∧ c.Clean ∧ c.versions.isSome = true
  | .version => c.Clean ∧ c.versions.isSome = true
  | .setDirty _ _ _ => c.versions.isSome = true
  | .run _ _ _ => True
  | .setClean _ _ => c.versions.isSome = true
  | .unlock errs => ProcPhase.goesOn errs = true
  | .openStore => True
  | .serving => True
  | .exited => False

section Ready

variable {cfg : Config} {c : Cluster} {p : Nat} {phase : ProcPhase}

/-- A process whose session is alive executes its statement and goes on. -/
theorem step_statement (hp : c.procs[p]? = some ⟨phase, true⟩) (hst : phase.starting = true)
    (hw : phase.waits c.lock p = false) {d : Shared} {next : ProcPhase}
    (hd : phase.statement c.clock c.toShared p = .ok (d, next)) (hne : next ≠ .exited) :
    Cluster.step cfg c (.proc p .ok) =
      some { c with toShared := d, procs := c.procs.set p ⟨next, true⟩ } := by
  simp [Cluster.step, hp, Cluster.procStep, hst, hw, hd, Cluster.goTo, hne]

theorem setVersion_ok {d : Shared} (h : d.versions.isSome = true) (v : Nat) (dirty : Bool) :
    d.setVersion v dirty = .ok { d with versions := some (some ⟨v, dirty⟩) } := by
  unfold Shared.setVersion
  split
  · rename_i hn
    rw [hn] at h
    cases h
  · rfl

/-- The next statement of a process that is ready, and that it is ready for the one after it. -/
theorem exists_statement (hI : ClusterInv cfg c) (hp : c.procs[p]? = some ⟨phase, true⟩)
    (hst : phase.starting = true) (hr : phase.Ready c) :
    ∃ d next, phase.waits c.lock p = false ∧
      phase.statement c.clock c.toShared p = .ok (d, next) ∧
      next.rank < phase.rank ∧ ∀ procs, next.Ready { c with toShared := d, procs := procs } := by
  have hpr := hI.procs p _ hp
  cases phase with
  | ensureLock =>
      exact ⟨_, _, by rw [ProcPhase.waits, hr.1]; rfl, rfl, by decide, fun _ => hr.2⟩
  | ensureCount =>
      refine ⟨_, _, rfl, rfl, ?_, fun _ => ?_⟩
      · split <;> decide
      · split
        · rename_i hv
          exact ⟨rfl, hr, hv⟩
        · exact hr
  | ensureCreate =>
      refine ⟨_, _, rfl, rfl, by simp [ProcPhase.rank], fun _ => ⟨rfl, ?_, rfl⟩⟩
      obtain ⟨n, hn, hrow⟩ := hr
      refine ⟨n, hn, Eq.trans ?_ hrow⟩
      show Option.join (some (c.versions.getD none)) = c.versions.join
      cases c.versions <;> rfl
  | ensureUnlock errs =>
      obtain ⟨rfl, hclean, hv⟩ := hr
      have hl := (hpr.held rfl rfl).1
      refine ⟨_, .lock, rfl, rfl, by simp [ProcPhase.rank], fun _ => ⟨?_, hclean, hv⟩⟩
      show (if c.lock = some p then none else c.lock) = none
      rw [if_pos hl]
  | lock =>
      exact ⟨_, _, by rw [ProcPhase.waits, hr.1]; rfl, rfl, by decide, fun _ => hr.2⟩
  | version =>
      obtain ⟨⟨n, hn, hrow⟩, hv⟩ := hr
      refine ⟨c.toShared,
        (bankMigrations.readUp (c.row.elim (-1) (·.version))).elim .exited .receive, rfl, ?_, ?_⟩
      · rw [ProcPhase.statement, Shared.version_eq, hrow]
        cases n <;> rfl
      · rw [hrow]
        have received : ∀ n < 3, (ProcPhase.receive (upItems n)).rank < 20 ∧ ∀ procs,
            (ProcPhase.receive (upItems n)).Ready { c with procs := procs } := by
          intro n hn
          rw [upItems_lt hn]
          refine ⟨?_, fun _ => hv⟩
          show 5 + 3 * (upItems (n + 1)).length < 20
          rw [upItems, bankMigrations_index]
          simp
          omega
        cases n with
        | zero =>
            rw [rowAt, Option.elim_none, readUp_nil, Option.elim_some]
            exact received 0 (by omega)
        | succ n =>
            rw [rowAt, Option.elim_some, readUp_of_version (by omega), Option.elim_some]
            split
            · exact ⟨by decide, fun _ => rfl⟩
            · exact received (n + 1) (by omega)
  | setDirty v body rest =>
      obtain ⟨n, hn, hi, _⟩ := (hpr.held rfl rfl).2
      rw [upItems_lt hn] at hi
      cases hi
      refine ⟨{ c.toShared with versions := some (some ⟨(n + 1 : Nat), true⟩) },
        .run (n + 1) (upFile n) (upItems (n + 1)), rfl, ?_, ?_, fun _ => trivial⟩
      · rw [ProcPhase.statement, setVersion_ok hr]
      · simp [ProcPhase.rank]
  | run v body rest =>
      obtain ⟨n, hn, hi, hrow, hlev⟩ := (hpr.held rfl rfl).2
      rw [upItems_lt hn] at hi
      cases hi
      obtain ⟨bank, hbank, _⟩ := hlev.run hn
      refine ⟨{ c.toShared with bank := bank }, .setClean (n + 1) (upItems (n + 1)), rfl, ?_, ?_,
        fun _ => ?_⟩
      · rw [ProcPhase.statement, hbank]
      · simp [ProcPhase.rank]
      · have hv : c.versions = some (some ⟨(n + 1 : Nat), true⟩) := Option.join_eq_some_iff.mp hrow
        show c.versions.isSome = true
        rw [hv]
        rfl
  | setClean v rest =>
      obtain ⟨n, hn, rfl, rfl, _⟩ := (hpr.held rfl rfl).2
      refine ⟨{ c.toShared with versions := some (some ⟨(n + 1 : Nat), false⟩) },
        .receive (upItems (n + 1)), rfl, ?_, ?_, fun _ => ?_⟩
      · rw [ProcPhase.statement, setVersion_ok hr]
      · rcases Nat.lt_or_eq_of_le (Nat.succ_le_of_lt hn) with hlt | he
        · rw [upItems_lt hlt]
          simp [ProcPhase.receive, ProcPhase.rank]
          omega
        · rw [Nat.succ_eq_add_one] at he
          rw [he, upItems_three]
          simp [ProcPhase.receive, ProcPhase.rank]
      · rcases Nat.lt_or_eq_of_le (Nat.succ_le_of_lt hn) with hlt | he
        · rw [upItems_lt hlt]
          exact rfl
        · rw [Nat.succ_eq_add_one] at he
          rw [he, upItems_three]
          exact rfl
  | unlock errs =>
      have hr : ProcPhase.goesOn errs = true := hr
      refine ⟨c.toShared.unlock p, .openStore, rfl, ?_, by simp [ProcPhase.rank], fun _ => trivial⟩
      rw [ProcPhase.statement, ProcPhase.afterUp, if_pos hr]
  | openStore => exact ⟨_, _, rfl, rfl, by decide, fun _ => trivial⟩
  | serving => cases hst
  | exited => cases hst

end Ready

/-- **A clean database can be served.** When the version is not dirty and nobody holds the advisory
    lock, a new process whose statements all succeed comes to serve, whatever the others are in the
    middle of. -/
theorem startup_serves {cfg : Config} {clock : Time} {acts : List ClusterAct} {c : Cluster}
    (h : Cluster.exec cfg (Cluster.fresh clock) acts = some c) (hclean : c.version.2 = false)
    (hfree : c.lock = none) :
    ∃ acts' c', (∀ a ∈ acts', a = .boot ∨ a = .proc c.procs.length .ok) ∧
      Cluster.exec cfg c acts' = some c' ∧ c'.serves c.procs.length = true := by
  have hI := inv_clusterExec h
  have hrow : c.Clean := by
    rcases hI.versions with ⟨n, hn, hr, _⟩ | ⟨n, _, hr, _⟩
    · exact ⟨n, hn, hr⟩
    · rw [Shared.version_eq, hr] at hclean
      cases hclean
  have hboot : Cluster.step cfg c .boot = some { c with procs := c.procs ++ [⟨.ensureLock, true⟩] } :=
    rfl
  have progress : ∀ m : Cluster,
      (ClusterInv cfg m ∧ ∃ phase, m.procs[c.procs.length]? = some ⟨phase, true⟩ ∧
        phase.Ready m) → ¬(m.serves c.procs.length = true) →
      ∃ a m', a = ClusterAct.proc c.procs.length .ok ∧ Cluster.step cfg m a = some m' ∧
        (ClusterInv cfg m' ∧ ∃ phase, m'.procs[c.procs.length]? = some ⟨phase, true⟩ ∧
          phase.Ready m') ∧
        (m'.procs[c.procs.length]?).elim 0 (·.phase.rank) <
          (m.procs[c.procs.length]?).elim 0 (·.phase.rank) := by
    rintro m ⟨hIm, phase, hp, hready⟩ hserves
    have hst : phase.starting = true := by
      cases phase with
      | serving => exact absurd (by simp [Cluster.serves, hp]) hserves
      | exited => exact hready.elim
      | _ => rfl
    obtain ⟨d, next, hw, hd, hrank, hnext⟩ := exists_statement hIm hp hst hready
    have hne : next ≠ .exited := fun e => by
      have := hnext []
      rw [e] at this
      exact this
    have hstep := @step_statement cfg m _ phase hp hst hw d next hd hne
    have hlt := (List.getElem?_eq_some_iff.mp hp).1
    refine ⟨_, _, rfl, hstep, ⟨inv_clusterStep hIm hstep, next, ?_, hnext _⟩, ?_⟩
    · exact List.getElem?_set_self hlt
    · rw [hp]
      simp only [List.getElem?_set_self hlt]
      exact hrank
  obtain ⟨acts', c', hacts, hrun, hserves⟩ := exists_run_to_rest progress
    ⟨inv_clusterStep hI hboot, .ensureLock, List.getElem?_concat_length, hfree, hrow⟩
  refine ⟨.boot :: acts', c', fun a ha => ?_, ?_, hserves⟩
  · rcases List.mem_cons.mp ha with rfl | ha
    · exact .inl rfl
    · exact .inr (hacts a ha)
  · rw [Cluster.exec, run_cons, hboot]
    exact hrun

/-- A process loses its session, and the lock with it, between the first two migrations; another one
    has found the version table. -/
def midwayActs : List ClusterAct :=
  .boot :: List.replicate 9 (.proc 0 .ok) ++ [.boot, .disconnect 0] ++
    List.replicate 3 (.proc 1 .ok)

theorem midwayActs_isSome :
    (Cluster.exec Config.migrated (Cluster.fresh 1000) midwayActs).isSome = true := by
  decide +kernel

def midway : Cluster :=
  (Cluster.exec Config.migrated (Cluster.fresh 1000) midwayActs).get midwayActs_isSome

/-- A third process comes to serve while the first has the second migration in hand and the second
    is about to lock. -/
theorem startup_serves_midway :
    (∃ body rest, midway.procs = [⟨.setDirty 2 body rest, false⟩, ⟨.lock, true⟩]) ∧
      ∃ acts' c', (∀ a ∈ acts', a = .boot ∨ a = .proc 2 .ok) ∧
        Cluster.exec Config.migrated midway acts' = some c' ∧ c'.serves 2 = true := by
  have hprocs : midway.procs =
      [⟨.setDirty 2 (some (upFile 1)) (upItems 2), false⟩, ⟨.lock, true⟩] := by
    decide +kernel
  have hlen : midway.procs.length = 2 := by rw [hprocs]; rfl
  have hserves := startup_serves (Option.some_get midwayActs_isSome).symm
    (by decide +kernel : midway.version.2 = false) (by decide +kernel)
  rw [← midway, hlen] at hserves
  exact ⟨⟨_, _, hprocs⟩, hserves⟩

end BankingService
