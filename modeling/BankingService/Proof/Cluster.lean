/-
  File:      BankingService/Proof/Cluster.lean
  Subject:   THE CLUSTER AND THE SINGLE MACHINE: the invariant of the startup protocol, and the
             simulation of serving, dying processes by one run of the service on a migrated
             database.

  * `exists_abort` -- from every state a run of failing store calls ends any set of calls without
    touching the database: what the death of a process does to its calls, the machine can do too.
  * `Sim` -- the machine has the database and the clock of the cluster, and its calls, but for the
    abandoned ones, which have ended there too. `sim_kill` and `sim_bankStep` carry it through.
  * `AtLevel` -- how far the migrations are: no tables, 0001, 0002, or a state of the machine.
  * **`ClusterInv`** -- the row of `schema_migrations` says how far the migrations are, up to the
    one in progress if it is dirty; a process that holds the lock knows the row; a process that
    has passed `Up` has seen version 3, clean. `inv_clusterStep` keeps it.
-/
import BankingService.Props.Progress
import BankingService.Server.Startup

namespace BankingService

open Lib

/-! ## 1. Ending calls by faults -/

section Abort

variable {cfg : Config} {s : St}

/-- A call that has not returned has a step that leaves the database alone and does not wait: its
    store call fails, or it makes none. -/
theorem callStep_abort {i : Nat} {c : Call} (hf : c.finished = false) :
    ∃ ch c', callStep cfg s i ch c = some (s.db, c') := by
  cases c with
  | request r p =>
      cases p with
      | done => cases hf
      | inTx w tx stage =>
          have inner : ∀ ch p', requestStep cfg s.clock (s.others i) s.db r (.inTx w tx stage) ch =
              some (s.db, p') → ∃ ch c', callStep cfg s i ch (.request r (.inTx w tx stage)) =
                some (s.db, c') :=
            fun ch p' h => ⟨ch, .request r p', by simp [callStep, h]⟩
          have quiet : (∀ t, (Phase.inTx w tx stage).blockedBy t = false) →
              requestStep cfg s.clock (s.others i) s.db r (.inTx w tx stage) .ok =
                some (stageStep cfg s.db r w tx stage) := fun h => by simp [requestStep, h]
          cases stage with
          | lockRow todo rows =>
              cases todo with
              | cons id todo => exact inner (.fail "") _ rfl
              | nil =>
                  have h := quiet fun _ => rfl
                  simp only [stageStep] at h
                  split at h <;> exact inner .ok _ h
          | insertEntries todo =>
              cases todo with
              | cons e todo => exact inner (.fail "") _ rfl
              | nil => exact inner .ok _ (quiet fun _ => rfl)
          | rollback e => exact inner .ok _ (quiet fun _ => rfl)
          | _ => exact inner (.fail "") _ rfl
      | _ => exact ⟨.fail "", _, rfl⟩
  | createAccount name p =>
      cases p with
      | done => cases hf
      | failed => cases hf
      | newID => exact ⟨.fail "", _, rfl⟩
      | insert id => exact ⟨.fail "", _, rfl⟩

/-- A call that has returned has no step. -/
theorem callStep_finished {i : Nat} {c : Call} (hf : c.finished = true) (ch : Choice) :
    callStep cfg s i ch c = none := by
  cases c with
  | request r p =>
      cases p with
      | done => cases ch <;> rfl
      | _ => cases hf
  | createAccount name p =>
      cases p with
      | done => cases ch <;> rfl
      | failed => cases ch <;> rfl
      | newID => cases hf
      | insert => cases hf

/-- `s'` is `s` but for some calls. -/
structure SameBut (S : Nat → Bool) (s s' : St) : Prop where
  db : s'.db = s.db
  clock : s'.clock = s.clock
  length : s'.calls.length = s.calls.length
  other : ∀ i, S i = false → s'.calls[i]? = s.calls[i]?

/-- **A run of failing store calls ends a set of calls** and changes nothing else. -/
theorem exists_abort (hI : SysInv cfg s) (S : Nat → Bool) :
    ∃ acts s', exec cfg s acts = some s' ∧ SameBut S s s' ∧
      ∀ i c, S i = true → s'.calls[i]? = some c → c.finished = true := by
  have progress : ∀ m, SysInv cfg m ∧ SameBut S s m →
      ¬(SameBut S s m ∧ ∀ i c, S i = true → m.calls[i]? = some c → c.finished = true) →
      ∃ a m', True ∧ step cfg m a = some m' ∧ (SysInv cfg m' ∧ SameBut S s m') ∧
        m'.rank < m.rank := by
    rintro m ⟨hIm, hm⟩ hn
    have : ∃ i c, S i = true ∧ m.calls[i]? = some c ∧ c.finished = false := by
      by_contra hno
      push Not at hno
      exact hn ⟨hm, fun i c hi hc => Bool.eq_true_of_not_eq_false (hno i c hi hc)⟩
    obtain ⟨i, c, hi, hc, hf⟩ := this
    obtain ⟨ch, c', hs⟩ := @callStep_abort cfg m i c hf
    have hstep : step cfg m (.call i ch) = some { m with calls := m.calls.set i c' } := by
      simp [step, hc, hs]
    refine ⟨.call i ch, _, trivial, hstep, ⟨inv_step hIm hstep, ?_⟩, step_rank hIm hstep⟩
    refine ⟨hm.db, hm.clock, (List.length_set ..).trans hm.length, fun j hj => ?_⟩
    have hij : i ≠ j := fun e => by
      rw [e, hj] at hi
      cases hi
    rw [List.getElem?_set_ne hij, hm.other j hj]
  obtain ⟨acts, s', _, hrun, hsame, hfin⟩ :=
    exists_run_to_rest progress ⟨hI, ⟨rfl, rfl, rfl, fun _ _ => rfl⟩⟩
  exact ⟨acts, s', hrun, hsame, hfin⟩

end Abort

/-! ## 2. The simulation -/

/-- The client saw its connection close. -/
def Call.isAbandoned : Call → Bool
  | .request _ (.done (.failed e)) => decide (e = connectionClosed)
  | .createAccount _ (.failed e) => decide (e = connectionClosed)
  | _ => false

/-- **The cluster and the machine**: one database, one clock, and the same calls, where a call the
    death of its process has ended has come to some end in the machine. -/
structure Sim (c : Cluster) (s : St) : Prop where
  bank : c.bank = some s.db
  clock : c.clock = s.clock
  length : c.calls.length = s.calls.length
  call : ∀ (i : Nat) (x : Call), c.calls[i]? = some x →
    s.calls[i]? = some x ∨
      x.isAbandoned = true ∧ ∃ y, s.calls[i]? = some y ∧ y.finished = true

theorem Call.finished_of_isAbandoned {x : Call} (h : x.isAbandoned = true) :
    x.finished = true := by
  cases x with
  | request r p =>
      cases p with
      | done => rfl
      | _ => cases h
  | createAccount name p =>
      cases p with
      | failed => rfl
      | _ => cases h

theorem Call.tx?_of_finished {x : Call} (h : x.finished = true) : x.tx? = none := by
  cases x with
  | request r p =>
      cases p with
      | done => rfl
      | _ => cases h
  | createAccount => rfl

theorem Call.abandon_cases (x : Call) :
    x.finished = true ∧ x.abandon = x ∨ x.finished = false ∧ x.abandon.isAbandoned = true := by
  cases x with
  | request r p =>
      cases p with
      | done => exact .inl ⟨rfl, rfl⟩
      | _ => exact .inr ⟨rfl, by simp [abandon, isAbandoned]⟩
  | createAccount name p =>
      cases p with
      | done => exact .inl ⟨rfl, rfl⟩
      | failed => exact .inl ⟨rfl, rfl⟩
      | newID => exact .inr ⟨rfl, by simp [abandon, isAbandoned]⟩
      | insert => exact .inr ⟨rfl, by simp [abandon, isAbandoned]⟩

/-- The open transactions of the others are the same on two states whose calls have the same
    transactions. -/
theorem St.others_congr {s s' : St} (hlen : s.calls.length = s'.calls.length)
    (h : ∀ j, s.tx? j = s'.tx? j) (i : Nat) : s.others i = s'.others i := by
  have key : ∀ s : St, s.others i =
      (s.calls.mapIdx fun j c => if j = i then none else c.tx?).filterMap id := fun s => by
    rw [St.others, List.mapIdx_eq_zipIdx_map, List.filterMap_map]
    rfl
  rw [key, key]
  congr 1
  refine List.ext_getElem? fun j => ?_
  have hj := h j
  simp only [St.tx?] at hj
  rw [List.getElem?_mapIdx, List.getElem?_mapIdx]
  rcases Nat.lt_or_ge j s.calls.length with hlt | hge
  · rw [List.getElem?_eq_getElem hlt, List.getElem?_eq_getElem (hlen ▸ hlt)] at hj ⊢
    simp only [Option.bind_some] at hj
    simp only [Option.map_some, hj]
  · rw [List.getElem?_eq_none hge, List.getElem?_eq_none (hlen ▸ hge)]

section Sim

variable {cfg : Config} {c c' : Cluster} {s : St}

/-- Both states have the same open transactions. -/
theorem Sim.tx? (h : Sim c s) (j : Nat) : St.tx? ⟨s.db, c.calls, s.clock⟩ j = s.tx? j := by
  simp only [St.tx?]
  cases hx : c.calls[j]? with
  | none =>
      have : s.calls[j]? = none :=
        List.getElem?_eq_none (h.length ▸ List.getElem?_eq_none_iff.mp hx)
      rw [this]
  | some x =>
      rcases h.call j x hx with hs | ⟨hab, y, hy, hfin⟩
      · rw [hs]
      · rw [hy, Option.bind_some, Option.bind_some,
          Call.tx?_of_finished (Call.finished_of_isAbandoned hab), Call.tx?_of_finished hfin]

/-- A database without calls is a machine at rest. -/
theorem sim_start (h : c.calls = []) (db : Db) :
    Sim { c with bank := some db } (St.start db c.clock) :=
  ⟨rfl, rfl, by rw [h]; rfl, fun i x hx => by rw [h] at hx; cases hx⟩

/-- What a call of the cluster does, the machine's call does. -/
theorem Sim.callStep (h : Sim c s) (i : Nat) (ch : Choice) (x : Call) :
    callStep cfg ⟨s.db, c.calls, s.clock⟩ i ch x = callStep cfg s i ch x := by
  have ho : St.others ⟨s.db, c.calls, s.clock⟩ i = s.others i :=
    St.others_congr h.length h.tx? i
  cases x with
  | request r p => simp only [BankingService.callStep, ho]
  | createAccount name p => rfl

/-- **A step of the service** in the cluster is one of the machine. -/
theorem Sim.bankStep (h : Sim c s) {a : Act} (hs : c.bankStep cfg a = some c') :
    ∃ s', step cfg s a = some s' ∧ Sim c' s' := by
  simp only [Cluster.bankStep, h.bank, h.clock] at hs
  obtain ⟨m, hm, rfl⟩ := Option.map_eq_some_iff.mp hs
  have append : ∀ (new : Call) (i : Nat) (x : Call), (c.calls ++ [new])[i]? = some x →
      (s.calls ++ [new])[i]? = some x ∨
        x.isAbandoned = true ∧ ∃ y, (s.calls ++ [new])[i]? = some y ∧ y.finished = true := by
    intro new i x hx
    rcases Nat.lt_or_ge i c.calls.length with hlt | hge
    · rw [List.getElem?_append_left hlt] at hx
      rw [List.getElem?_append_left (h.length ▸ hlt)]
      exact h.call i x hx
    · rw [List.getElem?_append_right hge] at hx
      rw [List.getElem?_append_right (h.length ▸ hge), ← h.length]
      exact .inl hx
  rcases step_cases hm with ⟨r, rfl, rfl⟩ | ⟨name, rfl, rfl⟩ | ⟨d, rfl, rfl⟩ |
    ⟨i, ch, x, db', x', rfl, hx, hcs, rfl⟩
  · exact ⟨_, rfl, rfl, rfl, by simp [h.length], append _⟩
  · exact ⟨_, rfl, rfl, rfl, by simp [h.length], append _⟩
  · exact ⟨_, rfl, rfl, rfl, h.length, h.call⟩
  · rw [h.callStep] at hcs
    have hsx : s.calls[i]? = some x := by
      rcases h.call i x hx with hs | ⟨hab, _⟩
      · exact hs
      · rw [callStep_finished (Call.finished_of_isAbandoned hab)] at hcs
        cases hcs
    refine ⟨{ s with db := db', calls := s.calls.set i x' }, by simp [step, hsx, hcs], rfl, rfl,
      by simp [h.length], fun j y hy => ?_⟩
    rcases eq_or_ne i j with rfl | hij
    · have hi : i < c.calls.length := (List.getElem?_eq_some_iff.mp hx).1
      rw [List.getElem?_set_self hi] at hy
      rw [List.getElem?_set_self (h.length ▸ hi)]
      exact .inl hy
    · rw [List.getElem?_set_ne hij] at hy ⊢
      exact h.call j y hy

/-- **The death of a process** is, to the machine, a run of failing store calls. -/
theorem Sim.kill (h : Sim c s) (hI : SysInv cfg s) (p : Nat) :
    ∃ acts s', exec cfg s acts = some s' ∧ Sim (c.kill p) s' := by
  obtain ⟨acts, s', hrun, hsame, hfin⟩ := exists_abort hI fun i =>
    decide (c.owners[i]? = some p) && (c.calls[i]?).any fun x => !x.finished
  refine ⟨acts, s', hrun, ?_, ?_, ?_, fun i x hx => ?_⟩
  · rw [hsame.db]
    exact h.bank
  · rw [hsame.clock]
    exact h.clock
  · rw [hsame.length, ← h.length]
    exact List.length_mapIdx
  · rw [Cluster.kill, List.getElem?_mapIdx] at hx
    obtain ⟨x₀, hx₀, rfl⟩ := Option.map_eq_some_iff.mp hx
    by_cases ho : c.owners[i]? = some p
    · rw [if_pos ho]
      rcases x₀.abandon_cases with ⟨hf, he⟩ | ⟨hf, hab⟩
      · rw [he, hsame.other i (by simp [hx₀, hf])]
        exact h.call i x₀ hx₀
      · have hi : i < s'.calls.length := by
          rw [hsame.length, ← h.length]
          exact (List.getElem?_eq_some_iff.mp hx₀).1
        exact .inr ⟨hab, _, List.getElem?_eq_getElem hi,
          hfin i _ (by simp [ho, hx₀, hf]) (List.getElem?_eq_getElem hi)⟩
    · rw [if_neg ho, hsame.other i (by simp [ho])]
      exact h.call i x₀ hx₀

end Sim

/-! ## 3. How far the migrations are -/

/-- The migrations after version `n`, as `readUp` sends them. -/
def upItems (n : Nat) : List Item := (bankMigrations.index.drop n).map bankMigrations.newMigration

theorem upItems_three : upItems 3 = [] := by
  rw [upItems, bankMigrations_index]
  rfl

theorem upItems_lt {n : Nat} (h : n < 3) :
    upItems n = .migration (n + 1) (some (upFile n)) :: upItems (n + 1) := by
  rw [upItems, upItems, bankMigrations_index, ← bankMigrations_newMigration h]
  have : n = 0 ∨ n = 1 ∨ n = 2 := by omega
  rcases this with rfl | rfl | rfl <;> rfl

theorem readUp_nil : bankMigrations.readUp (-1) = some (upItems 0) :=
  Migrations.readUp_of_nil bankMigrations_fits (by rw [bankMigrations_index]; simp)

theorem readUp_of_version {n : Nat} (h : n < 3) :
    bankMigrations.readUp (n + 1 : Nat) =
      some (if n = 2 then [.err .noChange] else upItems (n + 1)) := by
  have habove : bankMigrations.above (n + 1) = bankMigrations.index.drop (n + 1) := by
    rw [Migrations.above, bankMigrations_index]
    have : n = 0 ∨ n = 1 ∨ n = 2 := by omega
    rcases this with rfl | rfl | rfl <;> rfl
  have hmem : n + 1 ∈ bankMigrations.index := by
    rw [bankMigrations_index]
    simp
    omega
  rw [Migrations.readUp_of_mem bankMigrations_fits hmem, habove, ← upItems]
  by_cases hn : n = 2
  · rw [if_pos hn, hn, bankMigrations_index]
    rfl
  · rw [if_neg hn, if_neg]
    rw [bankMigrations_index]
    simp
    omega

theorem migrate0003Up_version2 (now : Time) :
    migrate0003Up now (migrate0002Up Db.empty) = .ok (Db.migrated now) := by
  cases h : migrate0003Up now (migrate0002Up Db.empty) with
  | ok db => rw [Db.migrated, h]
  | error e =>
      have hempty : Db.migrated now = Db.empty := by rw [Db.migrated, h]
      have haccounts := congrArg (fun db : Db => db.accounts) hempty
      rw [Db.migrated_eq] at haccounts
      cases haccounts

/-- **How far the migrations are**: no tables, those of 0001, of 0002, or a state of the machine
    started on a migrated database. Before the third there are no calls. -/
def Cluster.AtLevel (cfg : Config) (c : Cluster) : Nat → Prop
  | 0 => c.bank = none ∧ c.calls = []
  | 1 => c.bank = some Db.empty ∧ c.calls = []
  | 2 => c.bank = some (migrate0002Up Db.empty) ∧ c.calls = []
  | _ => ∃ now start acts s,
      BankingService.exec cfg (St.start (Db.migrated now) start) acts = some s ∧ Sim c s

section Level

variable {cfg : Config} {c c' : Cluster} {n : Nat}

/-- The tables below the third level. -/
theorem Cluster.atLevel_cases (h : c.AtLevel cfg n) :
    (n < 3 ∧ c.calls = []) ∨
      3 ≤ n ∧ ∃ now start acts s,
        BankingService.exec cfg (St.start (Db.migrated now) start) acts = some s ∧ Sim c s := by
  match n with
  | 0 => exact .inl ⟨by omega, h.2⟩
  | 1 => exact .inl ⟨by omega, h.2⟩
  | 2 => exact .inl ⟨by omega, h.2⟩
  | n + 3 => exact .inr ⟨by omega, h⟩

/-- What keeps the level: the same tables without calls, or a run of the machine. -/
theorem Cluster.AtLevel.keep (h : c.AtLevel cfg n) (hbank : n < 3 → c'.bank = c.bank)
    (hcalls : n < 3 → c.calls = [] → c'.calls = [])
    (hsim : ∀ s, SysInv cfg s → Sim c s → ∃ acts s',
      BankingService.exec cfg s acts = some s' ∧ Sim c' s') : c'.AtLevel cfg n := by
  match n with
  | 0 => exact ⟨(hbank (by omega)).trans h.1, hcalls (by omega) h.2⟩
  | 1 => exact ⟨(hbank (by omega)).trans h.1, hcalls (by omega) h.2⟩
  | 2 => exact ⟨(hbank (by omega)).trans h.1, hcalls (by omega) h.2⟩
  | n + 3 =>
      obtain ⟨now, start, acts, s, hrun, hs⟩ := h
      obtain ⟨acts', s', hrun', hs'⟩ := hsim s (inv_exec (inv_start cfg now start) hrun) hs
      exact ⟨now, start, acts ++ acts', s', run_append_eq_some.mpr ⟨s, hrun, hrun'⟩, hs'⟩

theorem Cluster.AtLevel.congr (h : c.AtLevel cfg n) (hbank : c'.bank = c.bank)
    (hcalls : c'.calls = c.calls) (hclock : c'.clock = c.clock) : c'.AtLevel cfg n :=
  h.keep (fun _ => hbank) (fun _ he => hcalls.trans he) fun s _ hs =>
    ⟨[], s, rfl, hbank.trans hs.bank, hclock.trans hs.clock, hcalls ▸ hs.length,
      fun i x hx => hs.call i x (hcalls ▸ hx)⟩

theorem Cluster.AtLevel.kill (h : c.AtLevel cfg n) (p : Nat) : (c.kill p).AtLevel cfg n :=
  h.keep (fun _ => rfl) (fun _ he => by simp [Cluster.kill, he]) fun _ hI hs => hs.kill hI p

theorem Cluster.AtLevel.tick (h : c.AtLevel cfg n) (d : Nat) :
    Cluster.AtLevel cfg { c with clock := c.clock + d } n :=
  h.keep (fun _ => rfl) (fun _ he => he) fun _ _ hs =>
    ⟨[.tick d], _, rfl, hs.bank, congrArg (· + d) hs.clock, hs.length, hs.call⟩

/-- No call steps where there are none. -/
theorem bankStep_call_ne (he : c.calls = []) {i : Nat} {ch : Choice}
    (hs : c.bankStep cfg (.call i ch) = some c') : False := by
  simp only [Cluster.bankStep] at hs
  split at hs
  · cases hs
  · simp [BankingService.step, he] at hs

theorem Cluster.AtLevel.call (h : c.AtLevel cfg n) {i : Nat} {ch : Choice}
    (hs : c.bankStep cfg (.call i ch) = some c') : c'.AtLevel cfg n := by
  rcases Cluster.atLevel_cases h with ⟨_, he⟩ | ⟨hn, _⟩
  · exact (bankStep_call_ne he hs).elim
  · refine h.keep (fun h => absurd h (by omega)) (fun h => absurd h (by omega)) fun s _ hsim => ?_
    obtain ⟨s', hs', hsim'⟩ := hsim.bankStep hs
    exact ⟨[.call i ch], s', run_one hs', hsim'⟩

theorem Cluster.AtLevel.arrive (h : c.AtLevel cfg 3) {a : Act} (hs : c.bankStep cfg a = some c') :
    c'.AtLevel cfg 3 := by
  refine h.keep (fun h => absurd h (by omega)) (fun h => absurd h (by omega)) fun s _ hsim => ?_
  obtain ⟨s', hs', hsim'⟩ := hsim.bankStep hs
  exact ⟨[a], s', run_one hs', hsim'⟩

/-- **A migration file** takes the tables one level up. -/
theorem Cluster.AtLevel.run (h : c.AtLevel cfg n) (hn : n < 3) :
    ∃ bank, (upFile n).run c.clock c.bank = .ok bank ∧
      Cluster.AtLevel cfg { c with bank := bank } (n + 1) := by
  have : n = 0 ∨ n = 1 ∨ n = 2 := by omega
  rcases this with rfl | rfl | rfl
  · exact ⟨some Db.empty, by rw [h.1]; rfl, rfl, h.2⟩
  · refine ⟨some (migrate0002Up Db.empty), ?_, rfl, h.2⟩
    rw [h.1, Migration.run, if_neg (by decide), if_pos (by decide)]
  · refine ⟨some (Db.migrated c.clock), ?_, c.clock, c.clock, [], _, rfl, sim_start h.2 _⟩
    rw [h.1, Migration.run, if_neg (by decide), if_neg (by decide), if_pos (by decide)]
    simp only [migrate0003Up_version2]

end Level

/-! ## 4. The invariant -/

/-- The row of `schema_migrations`. -/
def Shared.row (d : Shared) : Option VersionRow := d.versions.join

/-- The row after a clean migration to version `n`. -/
def rowAt : Nat → Option VersionRow
  | 0 => none
  | n + 1 => some ⟨(n + 1 : Nat), false⟩

/-- **The row says how far the migrations are**; a dirty one leaves the last migration open. -/
def VersionOk (cfg : Config) (c : Cluster) : Prop :=
  (∃ n ≤ 3, c.row = rowAt n ∧ c.AtLevel cfg n) ∨
    ∃ n < 3, c.row = some ⟨(n + 1 : Nat), true⟩ ∧ (c.AtLevel cfg n ∨ c.AtLevel cfg (n + 1))

namespace ProcPhase

/-- The process has the advisory lock, unless its session is gone. -/
def holds : ProcPhase → Bool
  | .ensureLock => false
  | .lock => false
  | .openStore => false
  | .serving => false
  | .exited => false
  | _ => true

/-- `Up` has returned, or is about to return, an answer with which `main` goes on. -/
def passed : ProcPhase → Bool
  | .unlock errs => goesOn errs
  | .openStore => true
  | .serving => true
  | _ => false

/-- What a process that holds the lock knows about the database. -/
def Expects (cfg : Config) (c : Cluster) : ProcPhase → Prop
  | .setDirty v body rest => ∃ n < 3, .migration v body :: rest = upItems n ∧ c.row = rowAt n
  | .run v body rest => ∃ n < 3, .migration v (some body) :: rest = upItems n ∧
      c.row = some ⟨(n + 1 : Nat), true⟩ ∧ c.AtLevel cfg n
  | .setClean v rest => ∃ n < 3, v = n + 1 ∧ rest = upItems (n + 1) ∧
      c.row = some ⟨(n + 1 : Nat), true⟩ ∧ c.AtLevel cfg (n + 1)
  | _ => True

end ProcPhase

structure ProcOk (cfg : Config) (c : Cluster) (p : Nat) (pr : Proc) : Prop where
  held : pr.session = true → pr.phase.holds = true → c.lock = some p ∧ pr.phase.Expects cfg c
  passed : pr.phase.passed = true → c.row = rowAt 3

/-- **The invariant of the cluster.** -/
structure ClusterInv (cfg : Config) (c : Cluster) : Prop where
  versions : VersionOk cfg c
  procs : ∀ (p : Nat) (pr : Proc), c.procs[p]? = some pr → ProcOk cfg c p pr
  idle : c.row ≠ rowAt 3 → c.calls = []

section Inv

variable {cfg : Config} {c c' : Cluster} {p q : Nat} {pr : Proc}

/-- Steps that keep the level and the row. -/
theorem VersionOk.keep (h : VersionOk cfg c) (hrow : c'.row = c.row)
    (hlevel : ∀ n, c.AtLevel cfg n → c'.AtLevel cfg n) : VersionOk cfg c' := by
  rcases h with ⟨n, hn, hr, hl⟩ | ⟨n, hn, hr, hl⟩
  · exact .inl ⟨n, hn, hrow.trans hr, hlevel n hl⟩
  · exact .inr ⟨n, hn, hrow.trans hr, hl.imp (hlevel n) (hlevel (n + 1))⟩

theorem ProcPhase.Expects.keep {phase : ProcPhase} (h : phase.Expects cfg c)
    (hrow : c'.row = c.row) (hlevel : ∀ n, c.AtLevel cfg n → c'.AtLevel cfg n) :
    phase.Expects cfg c' := by
  cases phase with
  | setDirty v body rest =>
      obtain ⟨n, hn, hi, hr⟩ := h
      exact ⟨n, hn, hi, hrow.trans hr⟩
  | run v body rest =>
      obtain ⟨n, hn, hi, hr, hl⟩ := h
      exact ⟨n, hn, hi, hrow.trans hr, hlevel n hl⟩
  | setClean v rest =>
      obtain ⟨n, hn, hv, hi, hr, hl⟩ := h
      exact ⟨n, hn, hv, hi, hrow.trans hr, hlevel (n + 1) hl⟩
  | _ => trivial

/-- A process is unaffected by a step that keeps its lock, the row and the level. -/
theorem ProcOk.keep (h : ProcOk cfg c q pr) (hlock : c.lock = some q → c'.lock = some q)
    (hrow : c'.row = c.row) (hlevel : ∀ n, c.AtLevel cfg n → c'.AtLevel cfg n) :
    ProcOk cfg c' q pr :=
  ⟨fun hs hh => ⟨hlock (h.held hs hh).1, (h.held hs hh).2.keep hrow hlevel⟩,
    fun hp => hrow.trans (h.passed hp)⟩

theorem rowAt_inj {n m : Nat} (h : rowAt n = rowAt m) : n = m := by
  cases n with
  | zero =>
      cases m with
      | zero => rfl
      | succ m => cases h
  | succ n =>
      cases m with
      | zero => cases h
      | succ m =>
          have h' := congrArg VersionRow.version (Option.some.inj h)
          exact Int.ofNat.inj h'

theorem rowAt_ne_dirty (n : Nat) (v : Int) : rowAt n ≠ some ⟨v, true⟩ := by
  intro h
  cases n with
  | zero => cases h
  | succ n => cases h

/-- A clean row gives the level. -/
theorem VersionOk.level (h : VersionOk cfg c) {n : Nat} (hrow : c.row = rowAt n) :
    c.AtLevel cfg n := by
  rcases h with ⟨m, _, hr, hl⟩ | ⟨m, _, hr, _⟩
  · exact rowAt_inj (hr.symm.trans hrow) ▸ hl
  · exact absurd (hrow.symm.trans hr) (rowAt_ne_dirty n _)

/-- The death of a process. -/
theorem inv_kill (hV : VersionOk cfg c)
    (hP : ∀ q pr, q ≠ p → c.procs[q]? = some pr → ProcOk cfg c q pr)
    (hidle : c.row ≠ rowAt 3 → c.calls = []) : ClusterInv cfg (c.kill p) := by
  have hlevel : ∀ n, c.AtLevel cfg n → (c.kill p).AtLevel cfg n := fun n h => h.kill p
  refine ⟨hV.keep rfl hlevel, fun q pr hq => ?_, fun h => by simp [Cluster.kill, hidle h]⟩
  rcases eq_or_ne p q with rfl | hne
  · have hpr : pr = ⟨.exited, false⟩ := by
      have hlt := (List.getElem?_eq_some_iff.mp hq).1
      simp only [Cluster.kill, List.length_set] at hlt
      simp only [Cluster.kill, List.getElem?_set_self hlt] at hq
      exact (Option.some.inj hq).symm
    subst hpr
    exact ⟨fun h => (by cases h), fun h => (by cases h)⟩
  · simp only [Cluster.kill, List.getElem?_set_ne hne] at hq
    refine (hP q pr hne.symm hq).keep (fun h => ?_) rfl hlevel
    show (if c.lock = some p then none else c.lock) = some q
    rw [if_neg (by rw [h]; exact fun e => hne (Option.some.inj e).symm), h]

/-- A process goes on. -/
theorem inv_goTo {phase : ProcPhase} (hV : VersionOk cfg c)
    (hP : ∀ q pr, q ≠ p → c.procs[q]? = some pr → ProcOk cfg c q pr)
    (hidle : c.row ≠ rowAt 3 → c.calls = [])
    (hp : ProcOk cfg c p { pr with phase := phase }) : ClusterInv cfg (c.goTo p pr phase) := by
  unfold Cluster.goTo
  split
  · exact inv_kill hV hP hidle
  · have hlevel : ∀ n, c.AtLevel cfg n →
        Cluster.AtLevel cfg { c with procs := c.procs.set p { pr with phase := phase } } n :=
      fun n h => h.congr rfl rfl rfl
    refine ⟨hV.keep rfl hlevel, fun q pr' hq => ?_, hidle⟩
    rcases eq_or_ne p q with rfl | hne
    · have hlt := (List.getElem?_eq_some_iff.mp hq).1
      simp only [List.length_set] at hlt
      simp only [List.getElem?_set_self hlt] at hq
      cases hq
      exact hp.keep id rfl hlevel
    · simp only [List.getElem?_set_ne hne] at hq
      exact (hP q pr' hne.symm hq).keep id rfl hlevel

/-- A statement that touches neither the row nor the bank. -/
theorem VersionOk.shared (h : VersionOk cfg c) {d : Shared} (hrow : d.row = c.row)
    (hbank : d.bank = c.bank) : VersionOk cfg { c with toShared := d } :=
  h.keep hrow fun _ hl => hl.congr hbank rfl rfl

/-- A phase that expects nothing of the database and has not passed `Up`. -/
theorem procOk_plain (hE : pr.phase.Expects cfg c) (hp : pr.phase.passed = false)
    (hl : pr.session = true → pr.phase.holds = true → c.lock = some p) : ProcOk cfg c p pr :=
  ⟨fun hs hh => ⟨hl hs hh, hE⟩, fun h => by rw [hp] at h; cases h⟩

/-- A phase that has passed `Up`. -/
theorem procOk_passed (hE : pr.phase.Expects cfg c) (hrow : c.row = rowAt 3)
    (hl : pr.session = true → pr.phase.holds = true → c.lock = some p) : ProcOk cfg c p pr :=
  ⟨fun hs hh => ⟨hl hs hh, hE⟩, fun _ => hrow⟩

/-- `runMigrations` receives what is left after version `n`, which the row says. -/
theorem procOk_receive {n : Nat} (hn : n ≤ 3) (hrow : c.row = rowAt n)
    {session : Bool} (hl : session = true → c.lock = some p) :
    ProcOk cfg c p ⟨.receive (upItems n), session⟩ := by
  rcases Nat.lt_or_eq_of_le hn with hlt | rfl
  · rw [upItems_lt hlt]
    exact procOk_plain ⟨n, hlt, (upItems_lt hlt).symm, hrow⟩ rfl fun hs _ => hl hs
  · rw [upItems_three]
    exact procOk_passed trivial hrow fun hs _ => hl hs

/-- `main` after `Up`. -/
theorem procOk_afterUp {errs : List UpErr} (h : ProcPhase.goesOn errs = true → c.row = rowAt 3)
    (session : Bool) : ProcOk cfg c p ⟨.afterUp errs, session⟩ := by
  unfold ProcPhase.afterUp
  split
  · rename_i hg
    exact procOk_passed trivial (h hg) fun _ hh => (by cases hh)
  · exact procOk_plain trivial rfl fun _ hh => (by cases hh)

theorem goesOn_snoc {errs : List UpErr} {text : String}
    (h : ProcPhase.goesOn (errs ++ [.database text]) = true) : ProcPhase.goesOn errs = true := by
  cases errs with
  | nil => rfl
  | cons e errs => simpa [ProcPhase.goesOn] using h

theorem Shared.version_eq (d : Shared) :
    d.version = (d.row.elim (-1) (·.version), d.row.elim false (·.dirty)) := by
  obtain ⟨versions, lock, bank⟩ := d
  cases versions with
  | none => rfl
  | some row => cases row <;> rfl

/-- What a statement of process `p` leaves behind. -/
structure StartOk (cfg : Config) (c : Cluster) (p : Nat) (pr : Proc) (d : Shared)
    (next : ProcPhase) : Prop where
  versions : VersionOk cfg { c with toShared := d }
  row : c.row = rowAt 3 → d.row = rowAt 3
  next : ProcOk cfg { c with toShared := d } p { pr with phase := next }
  err : ∀ text, ProcOk cfg { c with toShared := d } p
    { pr with phase := pr.phase.onErr (.database text) }

/-- **Every statement of the startup** keeps its part of the invariant, whether its answer arrives
    or not. -/
theorem statement_ok (hV : VersionOk cfg c) (hp : ProcOk cfg c p pr) (hs : pr.session = true)
    {d : Shared} {next : ProcPhase}
    (h : pr.phase.statement c.clock c.toShared p = .ok (d, next)) :
    StartOk cfg c p pr d next := by
  obtain ⟨phase, session⟩ := pr
  obtain rfl : session = true := hs
  cases phase with
  | ensureLock =>
      cases h
      exact ⟨hV.shared rfl rfl, id, procOk_plain trivial rfl fun _ _ => rfl,
        fun _ => procOk_plain trivial rfl fun _ hh => (by cases hh)⟩
  | ensureCount =>
      cases h
      have hl := (hp.held rfl rfl).1
      refine ⟨hV.shared rfl rfl, id, ?_, fun _ => procOk_plain trivial rfl fun _ _ => hl⟩
      split
      · exact procOk_plain trivial rfl fun _ _ => hl
      · exact procOk_plain trivial rfl fun _ _ => hl
  | ensureCreate =>
      cases h
      have hl := (hp.held rfl rfl).1
      have hrow : Option.join (some (c.versions.getD none)) = c.versions.join := by
        cases c.versions <;> rfl
      exact ⟨hV.shared hrow rfl, fun h => hrow.trans h, procOk_plain trivial rfl fun _ _ => hl,
        fun _ => procOk_plain trivial rfl fun _ _ => hl⟩
  | ensureUnlock errs =>
      cases h
      refine ⟨hV.shared rfl rfl, id, ?_, fun _ => procOk_plain trivial rfl fun _ hh => (by cases hh)⟩
      split
      · exact procOk_plain trivial rfl fun _ hh => (by cases hh)
      · exact procOk_plain trivial rfl fun _ hh => (by cases hh)
  | lock =>
      cases h
      exact ⟨hV.shared rfl rfl, id, procOk_plain trivial rfl fun _ _ => rfl,
        fun _ => procOk_plain trivial rfl fun _ hh => (by cases hh)⟩
  | version =>
      have hl := (hp.held rfl rfl).1
      simp only [ProcPhase.statement, Shared.version_eq] at h
      obtain ⟨rfl, rfl⟩ := Prod.mk.inj (Except.ok.inj h)
      refine ⟨hV.shared rfl rfl, id, ?_, fun _ => procOk_plain trivial rfl fun _ _ => hl⟩
      rcases hV with ⟨n, hn, hr, _⟩ | ⟨n, hn, hr, _⟩
      · rw [hr]
        cases n with
        | zero =>
            rw [rowAt, Option.elim_none, Option.elim_none, if_neg Bool.false_ne_true, readUp_nil,
              Option.elim_some]
            exact procOk_receive hn hr fun _ => hl
        | succ n =>
            rw [rowAt, Option.elim_some, Option.elim_some, if_neg Bool.false_ne_true,
              readUp_of_version (by omega), Option.elim_some]
            split
            · rename_i hlast
              obtain rfl := hlast
              exact procOk_passed trivial hr fun _ _ => hl
            · exact procOk_receive hn hr fun _ => hl
      · rw [hr]
        exact procOk_plain trivial rfl fun _ _ => hl
  | setDirty v body rest =>
      obtain ⟨hl, n, hn, hi, hr⟩ := hp.held rfl rfl
      rw [upItems_lt hn] at hi
      cases hi
      simp only [ProcPhase.statement, Shared.setVersion] at h
      split at h
      · cases h
      · rename_i d' hset
        split at hset
        · cases hset
        · cases hset
          cases h
          have hlevel : Cluster.AtLevel cfg { c with
              versions := some (some ⟨(n + 1 : Nat), true⟩) } n := (hV.level hr).congr rfl rfl rfl
          exact ⟨.inr ⟨n, hn, rfl, .inl hlevel⟩,
            fun h => absurd (rowAt_inj (h.symm.trans hr)) (by omega),
            procOk_plain ⟨n, hn, (upItems_lt hn).symm, rfl, hlevel⟩ rfl fun _ _ => hl,
            fun _ => procOk_plain trivial rfl fun _ _ => hl⟩
  | run v body rest =>
      obtain ⟨hl, n, hn, hi, hr, hlev⟩ := hp.held rfl rfl
      rw [upItems_lt hn] at hi
      cases hi
      obtain ⟨bank, hbank, hlevel⟩ := hlev.run hn
      simp only [ProcPhase.statement, hbank] at h
      cases h
      exact ⟨.inr ⟨n, hn, hr, .inr hlevel⟩, id,
        procOk_plain ⟨n, hn, rfl, rfl, hr, hlevel⟩ rfl fun _ _ => hl,
        fun _ => procOk_plain trivial rfl fun _ _ => hl⟩
  | setClean v rest =>
      obtain ⟨hl, n, hn, rfl, rfl, hr, hlev⟩ := hp.held rfl rfl
      simp only [ProcPhase.statement, Shared.setVersion] at h
      split at h
      · cases h
      · rename_i d' hset
        split at hset
        · cases hset
        · cases hset
          cases h
          have hlevel : Cluster.AtLevel cfg { c with
              versions := some (some ⟨(n + 1 : Nat), false⟩) } (n + 1) := hlev.congr rfl rfl rfl
          exact ⟨.inl ⟨n + 1, by omega, rfl, hlevel⟩,
            fun h => absurd (h.symm.trans hr) (rowAt_ne_dirty 3 _),
            procOk_receive (by omega) rfl fun _ => hl,
            fun _ => procOk_plain trivial rfl fun _ _ => hl⟩
  | unlock errs =>
      cases h
      refine ⟨hV.shared rfl rfl, id, procOk_afterUp (fun hg => ?_) true,
        fun _ => procOk_afterUp (fun hg => ?_) true⟩
      · exact hp.passed hg
      · exact hp.passed (goesOn_snoc hg)
  | openStore =>
      cases h
      exact ⟨hV.shared rfl rfl, id, procOk_passed trivial (hp.passed rfl) fun _ hh => (by cases hh),
        fun _ => procOk_plain trivial rfl fun _ hh => (by cases hh)⟩
  | serving =>
      cases h
      exact ⟨hV.shared rfl rfl, id, hp, fun _ => hp⟩
  | exited =>
      cases h
      exact ⟨hV.shared rfl rfl, id, hp, fun _ => procOk_plain trivial rfl fun _ hh => (by cases hh)⟩

/-- The store is opened without the session. -/
theorem openStore_ok (hV : VersionOk cfg c) (hp : ProcOk cfg c p pr)
    (hph : pr.phase = .openStore) {d : Shared} {next : ProcPhase}
    (h : pr.phase.statement c.clock c.toShared p = .ok (d, next)) :
    StartOk cfg c p pr d next := by
  obtain ⟨phase, session⟩ := pr
  obtain rfl : phase = .openStore := hph
  cases h
  exact ⟨hV.shared rfl rfl, id, procOk_passed trivial (hp.passed rfl) fun _ hh => (by cases hh),
    fun _ => procOk_plain trivial rfl fun _ hh => (by cases hh)⟩

/-- An error leaves the database as it is. -/
theorem onErr_ok (hp : ProcOk cfg c p pr) (hst : pr.phase.starting = true) (text : String) :
    ProcOk cfg c p { pr with phase := pr.phase.onErr (.database text) } := by
  obtain ⟨phase, session⟩ := pr
  cases phase with
  | unlock errs =>
      exact procOk_afterUp (fun hg => hp.passed (goesOn_snoc hg)) session
  | serving => cases hst
  | exited => cases hst
  | ensureLock => exact procOk_plain trivial rfl fun _ hh => (by cases hh)
  | ensureUnlock => exact procOk_plain trivial rfl fun _ hh => (by cases hh)
  | lock => exact procOk_plain trivial rfl fun _ hh => (by cases hh)
  | openStore => exact procOk_plain trivial rfl fun _ hh => (by cases hh)
  | _ => exact procOk_plain trivial rfl fun hs _ => (hp.held hs rfl).1

/-- A process executes a statement. -/
def Cluster.executes (c : Cluster) (p : Nat) (pr : Proc) : Prop :=
  (pr.session = true ∨ pr.phase = .openStore) ∧ pr.phase.waits c.lock p = false

/-- **Everything a starting process can do**: its statement fails without a trace, or it is executed
    and `main` goes on with the result or with an error. -/
theorem procStep_cases {ans : Answer} (h : c.procStep p pr ans = some c') :
    pr.phase.starting = true ∧
      ((∃ text, c' = c.goTo p pr (pr.phase.onErr (.database text))) ∨
        ∃ d next, c.executes p pr ∧
          pr.phase.statement c.clock c.toShared p = .ok (d, next) ∧
          (c' = Cluster.goTo { c with toShared := d } p pr next ∨
            ∃ text, c' = Cluster.goTo { c with toShared := d } p pr
              (pr.phase.onErr (.database text)))) := by
  unfold Cluster.procStep at h
  split at h
  · cases h
  · rename_i hst
    refine ⟨by simpa using hst, ?_⟩
    have guard : ¬((pr.phase.usesSession && !pr.session || pr.phase.waits c.lock p) = true) →
        c.executes p pr := fun hg => by
      simp only [Bool.or_eq_true, Bool.and_eq_true, Bool.not_eq_true', not_or, not_and,
        Bool.not_eq_true] at hg
      refine ⟨?_, hg.2⟩
      cases hph : pr.phase with
      | openStore => exact .inr rfl
      | _ => exact .inl (Bool.eq_true_of_not_eq_false (hg.1 (by rw [hph]; rfl)))
    cases ans with
    | fail text => exact .inl ⟨text, (Option.some.inj h).symm⟩
    | ok =>
        simp only at h
        split at h
        · cases h
        · rename_i hg
          split at h
          · exact .inl ⟨_, (Option.some.inj h).symm⟩
          · rename_i d next hd
            exact .inr ⟨d, next, guard hg, hd, .inl (Option.some.inj h).symm⟩
    | lost text =>
        simp only at h
        split at h
        · cases h
        · rename_i hg
          split at h
          · cases h
          · rename_i d next hd
            exact .inr ⟨d, next, guard hg, hd, .inr ⟨text, (Option.some.inj h).symm⟩⟩

/-- While another live process holds the lock, a statement changes nothing that is shared. -/
theorem shared_of_holder (hp : ProcOk cfg c p pr) (hst : pr.phase.starting = true)
    (hx : c.executes p pr) {d : Shared} {next : ProcPhase}
    (h : pr.phase.statement c.clock c.toShared p = .ok (d, next)) (hq : c.lock = some q)
    (hne : q ≠ p) : d = c.toShared := by
  obtain ⟨phase, session⟩ := pr
  obtain ⟨hs | rfl, hw⟩ := hx
  · obtain rfl : session = true := hs
    have held : phase.holds = true → False := fun hh => by
      have hl := (hp.held rfl hh).1
      rw [hq] at hl
      exact hne (Option.some.inj hl)
    cases phase with
    | ensureLock => simp [ProcPhase.waits, hq, hne] at hw
    | lock => simp [ProcPhase.waits, hq, hne] at hw
    | openStore =>
        cases h
        rfl
    | serving => cases hst
    | exited => cases hst
    | _ => exact (held rfl).elim
  · cases h
    rfl

theorem inv_procStep (hI : ClusterInv cfg c) (hpr : c.procs[p]? = some pr) {ans : Answer}
    (h : c.procStep p pr ans = some c') : ClusterInv cfg c' := by
  have hp := hI.procs p pr hpr
  obtain ⟨hst, ⟨text, rfl⟩ | ⟨d, next, hx, hd, hc⟩⟩ := procStep_cases h
  · exact inv_goTo hI.versions (fun q pr' _ hq => hI.procs q pr' hq) hI.idle (onErr_ok hp hst text)
  · have hok : StartOk cfg c p pr d next :=
      hx.1.elim (fun hs => statement_ok hI.versions hp hs hd)
        fun ho => openStore_ok hI.versions hp ho hd
    have hothers : ∀ q pr', q ≠ p → c.procs[q]? = some pr' →
        ProcOk cfg { c with toShared := d } q pr' := by
      intro q pr' hne hq
      have hq := hI.procs q pr' hq
      refine ⟨fun hs hh => ?_, fun hpass => hok.row (hq.passed hpass)⟩
      obtain ⟨hl, hE⟩ := hq.held hs hh
      obtain rfl := shared_of_holder hp hst hx hd hl hne
      exact ⟨hl, hE.keep rfl fun _ hlev => hlev.congr rfl rfl rfl⟩
    have hidle : d.row ≠ rowAt 3 → c.calls = [] := fun h => hI.idle fun h' => h (hok.row h')
    rcases hc with rfl | ⟨text, rfl⟩
    · exact inv_goTo hok.versions hothers hidle hok.next
    · exact inv_goTo hok.versions hothers hidle (hok.err text)

/-- A process that serves has seen version 3, clean. -/
theorem ClusterInv.row_of_serves (hI : ClusterInv cfg c) (h : c.serves p = true) :
    c.row = rowAt 3 := by
  unfold Cluster.serves at h
  cases hp : c.procs[p]? with
  | none =>
      rw [hp] at h
      cases h
  | some pr =>
      rw [hp, Option.any_some, beq_iff_eq] at h
      exact (hI.procs p pr hp).passed (by rw [h]; rfl)

/-- A step of the service leaves the processes alone. -/
theorem bankStep_shared {a : Act} (h : c.bankStep cfg a = some c') :
    c'.procs = c.procs ∧ c'.lock = c.lock ∧ c'.versions = c.versions ∧ c'.owners = c.owners := by
  unfold Cluster.bankStep at h
  split at h
  · cases h
  · obtain ⟨s, _, rfl⟩ := Option.map_eq_some_iff.mp h
    exact ⟨rfl, rfl, rfl, rfl⟩

/-- Steps that leave the processes, the lock and the row alone. -/
theorem ClusterInv.keep (hI : ClusterInv cfg c) (hprocs : c'.procs = c.procs)
    (hlock : c'.lock = c.lock) (hversions : c'.versions = c.versions)
    (hlevel : ∀ n, c.AtLevel cfg n → c'.AtLevel cfg n) (hcalls : c.calls = [] → c'.calls = []) :
    ClusterInv cfg c' := by
  have hrow : c'.row = c.row := congrArg Option.join hversions
  refine ⟨hI.versions.keep hrow hlevel, fun p pr hp => ?_, fun h => hcalls (hI.idle (hrow ▸ h))⟩
  rw [hprocs] at hp
  exact (hI.procs p pr hp).keep (fun h => hlock.trans h) hrow hlevel

/-- A request arrives at a serving process. -/
theorem inv_clusterArrive (hI : ClusterInv cfg c) (hs : c.serves p = true) {a : Act}
    (h : c.bankStep cfg a = some c') :
    ClusterInv cfg { c' with owners := c'.owners ++ [p] } := by
  have hrow := hI.row_of_serves hs
  obtain ⟨hprocs, hlock, hversions, _⟩ := bankStep_shared h
  have hrow' : c'.row = rowAt 3 := (congrArg Option.join hversions).trans hrow
  have hlevel : Cluster.AtLevel cfg { c' with owners := c'.owners ++ [p] } 3 :=
    ((hI.versions.level hrow).arrive h).congr rfl rfl rfl
  refine ⟨.inl ⟨3, le_rfl, hrow', hlevel⟩, fun q pr hq => ?_, fun h => absurd hrow' h⟩
  have hq := hI.procs q pr (hprocs ▸ hq)
  refine ⟨fun hs hh => ?_, fun _ => hrow'⟩
  obtain ⟨hl, hE⟩ := hq.held hs hh
  refine ⟨hlock.trans hl, ?_⟩
  -- nobody is in the middle of a migration
  cases hph : pr.phase with
  | setDirty v body rest =>
      rw [hph] at hE
      obtain ⟨n, hn, _, hr⟩ := hE
      exact absurd (rowAt_inj (hrow.symm.trans hr)) (by omega)
  | run v body rest =>
      rw [hph] at hE
      obtain ⟨n, hn, _, hr, _⟩ := hE
      exact absurd (hrow.symm.trans hr) (rowAt_ne_dirty 3 _)
  | setClean v rest =>
      rw [hph] at hE
      obtain ⟨n, hn, _, _, hr, _⟩ := hE
      exact absurd (hrow.symm.trans hr) (rowAt_ne_dirty 3 _)
  | _ => trivial

/-- **The invariant holds along every run of the cluster.** -/
theorem inv_clusterStep (hI : ClusterInv cfg c) {a : ClusterAct}
    (h : Cluster.step cfg c a = some c') : ClusterInv cfg c' := by
  cases a with
  | boot =>
      cases h
      refine ⟨hI.versions.keep rfl fun _ hl => hl.congr rfl rfl rfl, fun p pr hp => ?_, hI.idle⟩
      rcases Nat.lt_or_ge p c.procs.length with hlt | hge
      · simp only [List.getElem?_append_left hlt] at hp
        exact (hI.procs p pr hp).keep id rfl fun _ hl => hl.congr rfl rfl rfl
      · simp only [List.getElem?_append_right hge] at hp
        obtain rfl : pr = ⟨.ensureLock, true⟩ := by
          cases hk : p - c.procs.length with
          | zero =>
              rw [hk] at hp
              exact (Option.some.inj hp).symm
          | succ k =>
              rw [hk] at hp
              cases hp
        exact procOk_plain trivial rfl fun _ hh => (by cases hh)
  | proc p ans =>
      simp only [Cluster.step] at h
      split at h
      · cases h
      · rename_i pr hp
        exact inv_procStep hI hp h
  | disconnect p =>
      simp only [Cluster.step] at h
      split at h
      · cases h
      · rename_i pr hp
        cases h
        have hlevel : ∀ n, c.AtLevel cfg n → Cluster.AtLevel cfg { c with
            toShared := c.toShared.unlock p
            procs := c.procs.set p { pr with session := false } } n :=
          fun _ hl => hl.congr rfl rfl rfl
        refine ⟨hI.versions.keep rfl hlevel, fun q pr' hq => ?_, hI.idle⟩
        rcases eq_or_ne p q with rfl | hne
        · have hlt := (List.getElem?_eq_some_iff.mp hp).1
          simp only [List.getElem?_set_self hlt] at hq
          cases hq
          exact ⟨fun hs => (by cases hs), fun hpass => (hI.procs p pr hp).passed hpass⟩
        · simp only [List.getElem?_set_ne hne] at hq
          refine (hI.procs q pr' hq).keep (fun hl => ?_) rfl hlevel
          show (if c.lock = some p then none else c.lock) = some q
          rw [if_neg (by rw [hl]; exact fun e => hne (Option.some.inj e).symm), hl]
  | crash p =>
      simp only [Cluster.step] at h
      split at h
      · cases h
      · cases h
        exact inv_kill hI.versions (fun q pr _ hq => hI.procs q pr hq) hI.idle
  | arrive p r =>
      simp only [Cluster.step] at h
      split at h
      · rename_i hs
        obtain ⟨c₁, h₁, rfl⟩ := Option.map_eq_some_iff.mp h
        exact inv_clusterArrive hI hs h₁
      · cases h
  | arriveCreate p name =>
      simp only [Cluster.step] at h
      split at h
      · rename_i hs
        obtain ⟨c₁, h₁, rfl⟩ := Option.map_eq_some_iff.mp h
        exact inv_clusterArrive hI hs h₁
      · cases h
  | call i ch =>
      obtain ⟨hprocs, hlock, hversions, _⟩ := bankStep_shared h
      exact hI.keep hprocs hlock hversions (fun _ hl => hl.call h) fun he =>
        (bankStep_call_ne he h).elim
  | tick d =>
      cases h
      exact hI.keep rfl rfl rfl (fun _ hl => hl.tick d) id

end Inv

/-! ## 5. The simulation along runs -/

section Run

variable {cfg : Config} {c c' : Cluster} {s : St}

theorem Sim.congr (h : Sim c s) (hbank : c'.bank = c.bank) (hcalls : c'.calls = c.calls)
    (hclock : c'.clock = c.clock) : Sim c' s :=
  ⟨hbank.trans h.bank, hclock.trans h.clock, hcalls ▸ h.length,
    fun i x hx => h.call i x (hcalls ▸ hx)⟩

theorem Sim.goTo (h : Sim c s) (hI : SysInv cfg s) (p : Nat) (pr : Proc) (phase : ProcPhase) :
    ∃ acts s', exec cfg s acts = some s' ∧ Sim (c.goTo p pr phase) s' := by
  unfold Cluster.goTo
  split
  · exact h.kill hI p
  · exact ⟨[], s, rfl, h.congr rfl rfl rfl⟩

/-- Only a migration file touches the bank. -/
theorem statement_bank {now : Time} {d d' : Shared} {p : Nat} {phase next : ProcPhase}
    (hph : ∀ v body rest, phase ≠ .run v body rest) (h : phase.statement now d p = .ok (d', next)) :
    d'.bank = d.bank := by
  have set : ∀ {v dirty d'}, d.setVersion v dirty = .ok d' → d'.bank = d.bank := fun h => by
    unfold Shared.setVersion at h
    split at h
    · cases h
    · cases h
      rfl
  cases phase with
  | run v body rest => exact absurd rfl (hph v body rest)
  | setDirty v body rest =>
      simp only [ProcPhase.statement] at h
      split at h
      · cases h
      · rename_i hset
        cases h
        exact set hset
  | setClean v rest =>
      simp only [ProcPhase.statement] at h
      split at h
      · cases h
      · rename_i hset
        cases h
        exact set hset
  | _ =>
      cases h
      rfl

/-- On a completely migrated database no process executes a migration file. -/
theorem ProcOk.not_run {p : Nat} {pr : Proc} (hp : ProcOk cfg c p pr) (hrow : c.row = rowAt 3)
    (hx : c.executes p pr) (v : Nat) (body : Migration) (rest : List Item) :
    pr.phase ≠ .run v body rest := by
  intro hph
  obtain ⟨hs | hs, _⟩ := hx
  · have hE := (hp.held hs (by rw [hph]; rfl)).2
    rw [hph] at hE
    obtain ⟨n, _, _, hr, _⟩ := hE
    exact absurd (hrow.symm.trans hr) (rowAt_ne_dirty 3 _)
  · rw [hph] at hs
    cases hs

/-- **A step of a completely migrated cluster** is a run of the machine. -/
theorem Sim.step (h : Sim c s) (hIs : SysInv cfg s) (hI : ClusterInv cfg c)
    (hrow : c.row = rowAt 3) {a : ClusterAct} (hs : Cluster.step cfg c a = some c') :
    ∃ acts s', exec cfg s acts = some s' ∧ Sim c' s' := by
  have stay : ∀ c' : Cluster, c'.bank = c.bank → c'.calls = c.calls → c'.clock = c.clock →
      ∃ acts s', exec cfg s acts = some s' ∧ Sim c' s' :=
    fun c' hb hc hk => ⟨[], s, rfl, h.congr hb hc hk⟩
  have service : ∀ {a c'}, c.bankStep cfg a = some c' →
      ∃ acts s', exec cfg s acts = some s' ∧ Sim c' s' := fun hb => by
    obtain ⟨s', hs', hsim⟩ := h.bankStep hb
    exact ⟨_, s', run_one hs', hsim⟩
  cases a with
  | boot =>
      cases hs
      exact stay _ rfl rfl rfl
  | proc p ans =>
      simp only [Cluster.step] at hs
      split at hs
      · cases hs
      · rename_i pr hp
        obtain ⟨_, ⟨text, rfl⟩ | ⟨d, next, hx, hd, hc⟩⟩ := procStep_cases hs
        · exact h.goTo hIs p pr _
        · have hbank := statement_bank ((hI.procs p pr hp).not_run hrow hx) hd
          have hsim : Sim { c with toShared := d } s := h.congr hbank rfl rfl
          rcases hc with rfl | ⟨text, rfl⟩
          · exact hsim.goTo hIs p pr _
          · exact hsim.goTo hIs p pr _
  | disconnect p =>
      simp only [Cluster.step] at hs
      split at hs
      · cases hs
      · cases hs
        exact stay _ rfl rfl rfl
  | crash p =>
      simp only [Cluster.step] at hs
      split at hs
      · cases hs
      · cases hs
        exact h.kill hIs p
  | arrive p r =>
      simp only [Cluster.step] at hs
      split at hs
      · obtain ⟨c₁, h₁, rfl⟩ := Option.map_eq_some_iff.mp hs
        obtain ⟨acts, s', hrun, hsim⟩ := service h₁
        exact ⟨acts, s', hrun, hsim.congr rfl rfl rfl⟩
      · cases hs
  | arriveCreate p name =>
      simp only [Cluster.step] at hs
      split at hs
      · obtain ⟨c₁, h₁, rfl⟩ := Option.map_eq_some_iff.mp hs
        obtain ⟨acts, s', hrun, hsim⟩ := service h₁
        exact ⟨acts, s', hrun, hsim.congr rfl rfl rfl⟩
      · cases hs
  | call i ch => exact service hs
  | tick d =>
      cases hs
      exact ⟨[.tick d], _, rfl, h.bank, congrArg (· + d) h.clock, h.length, h.call⟩

/-- A completely migrated database stays so. -/
theorem row_step (hI : ClusterInv cfg c) (hrow : c.row = rowAt 3) {a : ClusterAct}
    (hs : Cluster.step cfg c a = some c') : c'.row = rowAt 3 := by
  have goTo : ∀ (c : Cluster) p pr phase, (c.goTo p pr phase).row = c.row := by
    intro c p pr phase
    unfold Cluster.goTo
    split <;> rfl
  cases a with
  | boot =>
      cases hs
      exact hrow
  | proc p ans =>
      simp only [Cluster.step] at hs
      split at hs
      · cases hs
      · rename_i pr hp
        have hpr := hI.procs p pr hp
        obtain ⟨_, ⟨text, rfl⟩ | ⟨d, next, hx, hd, hc⟩⟩ := procStep_cases hs
        · rw [goTo]
          exact hrow
        · have hok : StartOk cfg c p pr d next :=
            hx.1.elim (fun hs => statement_ok hI.versions hpr hs hd)
              fun ho => openStore_ok hI.versions hpr ho hd
          rcases hc with rfl | ⟨text, rfl⟩ <;> (rw [goTo]; exact hok.row hrow)
  | disconnect p =>
      simp only [Cluster.step] at hs
      split at hs
      · cases hs
      · cases hs
        exact hrow
  | crash p =>
      simp only [Cluster.step] at hs
      split at hs
      · cases hs
      · cases hs
        exact hrow
  | arrive p r =>
      simp only [Cluster.step] at hs
      split at hs
      · obtain ⟨c₁, h₁, rfl⟩ := Option.map_eq_some_iff.mp hs
        exact (congrArg Option.join (bankStep_shared h₁).2.2.1).trans hrow
      · cases hs
  | arriveCreate p name =>
      simp only [Cluster.step] at hs
      split at hs
      · obtain ⟨c₁, h₁, rfl⟩ := Option.map_eq_some_iff.mp hs
        exact (congrArg Option.join (bankStep_shared h₁).2.2.1).trans hrow
      · cases hs
  | call i ch => exact (congrArg Option.join (bankStep_shared hs).2.2.1).trans hrow
  | tick d =>
      cases hs
      exact hrow

/-- **A run of a completely migrated cluster** is a run of the machine. -/
theorem Sim.exec (h : Sim c s) (hIs : SysInv cfg s) (hI : ClusterInv cfg c)
    (hrow : c.row = rowAt 3) {acts : List ClusterAct} (hs : Cluster.exec cfg c acts = some c') :
    c'.row = rowAt 3 ∧ ∃ acts' s', BankingService.exec cfg s acts' = some s' ∧ Sim c' s' := by
  have hall := run_induction (motive := fun _ c' => ClusterInv cfg c' ∧ c'.row = rowAt 3 ∧
      ∃ acts' s', BankingService.exec cfg s acts' = some s' ∧ Sim c' s')
    ⟨hI, hrow, [], s, rfl, h⟩ ?_ hs
  · exact hall.2
  · rintro _ m a m' _ ⟨hIm, hrow, acts', s', hrun, hsim⟩ hstep
    obtain ⟨acts'', s'', hrun', hsim'⟩ := hsim.step (inv_exec hIs hrun) hIm hrow hstep
    exact ⟨inv_clusterStep hIm hstep, row_step hIm hrow hstep, acts' ++ acts'', s'',
      run_append_eq_some.mpr ⟨s', hrun, hrun'⟩, hsim'⟩

end Run

theorem inv_fresh (cfg : Config) (clock : Time) : ClusterInv cfg (Cluster.fresh clock) :=
  ⟨.inl ⟨0, by omega, rfl, rfl, rfl⟩, fun p pr hp => (by cases hp), fun _ => rfl⟩

theorem inv_clusterExec {cfg : Config} {clock : Time} {acts : List ClusterAct} {c : Cluster}
    (h : Cluster.exec cfg (Cluster.fresh clock) acts = some c) : ClusterInv cfg c :=
  run_inv (fun _ _ _ hi hs => inv_clusterStep hi hs) (inv_fresh cfg clock) h

end BankingService
