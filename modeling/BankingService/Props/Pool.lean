/-
  File:      BankingService/Props/Pool.lean
  Subject:   THE POOL IS NEVER EXHAUSTED FOR GOOD: with any number of connections, one is enough, and
             under any schedule, every call and every read returns.

  * `PoolInv` -- a client holds at most one connection, the holders are at a statement or inside a
    transaction, and every open transaction has its connection.
  * `exists_poolStep` -- while a client has not returned, some client can go on: an open transaction
    that waits for no other (`SysInv.exists_open_step`) has its connection already, a holder outside
    a transaction waits for nobody, and where nobody holds a connection there is a free one.
  * `pool_returns` -- the pool adds no behaviour, every client step lowers a measure, and there is
    always one until all have returned.
-/
import BankingService.Props.PrefixStable
import BankingService.Props.Progress
import BankingService.Props.Readers
import BankingService.Server.Pool

namespace BankingService

open Lib

/-! ## 1. Steps and tasks -/

/-- The client has returned. -/
def Task.finished : Task → Bool
  | .call c => c.finished
  | .read _ (.returned _) => true
  | .read _ (.failed _) => true
  | .read _ _ => false

section Task

variable {cfg : Config} {w w' : World} {a : WorldAct}

/-- The system's part of a step. -/
theorem worldStep_sys (hI : SysInv cfg w.sys) (h : worldStep cfg w a = some w') :
    SysInv cfg w'.sys := by
  cases a with
  | sys a =>
      obtain ⟨s', hs, rfl⟩ := Option.map_eq_some_iff.mp h
      exact inv_step hI hs
  | read q =>
      cases h
      exact hI
  | reader j ch =>
      simp only [worldStep] at h
      split at h
      · cases h
      · obtain ⟨p', _, rfl⟩ := Option.map_eq_some_iff.mp h
        exact hI

/-- **A step seen from another client**: its task stays, or it has just arrived, without a
    transaction. -/
theorem task_other (h : worldStep cfg w a = some w') {c : Client} (hc : a.client ≠ some c) :
    w'.task? c = w.task? c ∨ w.task? c = none ∧ (w'.task? c).any Task.keepsConn = false := by
  cases a with
  | sys a =>
      obtain ⟨s', hs, rfl⟩ := Option.map_eq_some_iff.mp h
      cases c with
      | reader j => exact .inl rfl
      | call i =>
          cases hi : w.sys.calls[i]? with
          | some t =>
              rcases step_slot hs hi with ⟨hs', _⟩ | ⟨ch, _, _, rfl, _⟩
              · exact .inl (by simp only [World.task?, hs', hi])
              · exact absurd rfl hc
          | none =>
              refine .inr ⟨by simp only [World.task?, hi, Option.map_none], ?_⟩
              -- a call that was not there has just arrived
              rcases step_cases hs with ⟨r, rfl, rfl⟩ | ⟨name, rfl, rfl⟩ | ⟨d, rfl, rfl⟩ |
                ⟨j, ch, t, db', t', rfl, hj, _, rfl⟩
              · cases hn : (w.sys.calls ++ [Call.request r r.start])[i]? with
                | none => simp only [World.task?, hn, Option.map_none, Option.any_none]
                | some t =>
                    rcases getElem?_snoc hn with hold | ⟨_, e⟩
                    · rw [hi] at hold
                      cases hold
                    · subst e
                      simp only [World.task?, hn, Option.map_some, Option.any_some, Task.keepsConn]
                      rcases start_cases r with hs | ⟨_, _, hs⟩ <;> rw [hs] <;> rfl
              · cases hn : (w.sys.calls ++ [Call.createAccount name .newID])[i]? with
                | none => simp only [World.task?, hn, Option.map_none, Option.any_none]
                | some t =>
                    rcases getElem?_snoc hn with hold | ⟨_, e⟩
                    · rw [hi] at hold
                      cases hold
                    · subst e
                      simp only [World.task?, hn, Option.map_some, Option.any_some, Task.keepsConn]
                      rfl
              · simp only [World.task?, hi, Option.map_none, Option.any_none]
              · have hij : j ≠ i := fun e => hc (by rw [e]; rfl)
                simp only [World.task?, List.getElem?_set_ne hij, hi, Option.map_none,
                  Option.any_none]
  | read q =>
      cases h
      cases c with
      | call i => exact .inl rfl
      | reader j =>
          cases hj : w.reads[j]? with
          | some x =>
              have hlt : j < w.reads.length := (List.getElem?_eq_some_iff.mp hj).1
              exact .inl (by simp only [World.task?, List.getElem?_append_left hlt])
          | none =>
              refine .inr ⟨by simp only [World.task?, hj, Option.map_none], ?_⟩
              simp only [World.task?]
              cases (w.reads ++ [(q, ReadPhase.headers)])[j]? <;> rfl
  | reader k ch =>
      simp only [worldStep] at h
      split at h
      · cases h
      · obtain ⟨p', _, rfl⟩ := Option.map_eq_some_iff.mp h
        cases c with
        | call i => exact .inl rfl
        | reader j =>
            have hkj : k ≠ j := fun e => hc (by rw [e]; rfl)
            exact .inl (by simp only [World.task?, List.getElem?_set_ne hkj])

/-- A task that keeps its connection is one that needs it. -/
theorem Task.needsConn_of_keeps {t : Task} (h : t.keepsConn = true) : t.needsConn = true := by
  cases t with
  | read => cases h
  | call c =>
      cases c with
      | createAccount => cases h
      | request r p =>
          cases p with
          | inTx => rfl
          | _ => cases h

theorem keepsConn_of_tx {i : Nat} (h : (w.sys.tx? i).isSome = true) :
    (w.task? (.call i)).any Task.keepsConn = true := by
  obtain ⟨tx, htx⟩ := Option.isSome_iff_exists.mp h
  obtain ⟨r, wk, stage, hc⟩ := St.call_of_tx? htx
  simp only [World.task?, hc]
  rfl

end Task

/-! ## 2. The measure -/

/-- An upper bound on the rows of a header query. -/
def Read.bound : Read → Nat
  | .getTransactionByIdempotencyKey _ => 1
  | .getTransaction _ => 1
  | .listTransactionsForAccount _ limit => limit.toNat
  | .listTransactions opts => opts.limit.toNat

/-- An upper bound on the steps a read has left. -/
def ReadPhase.rank (q : Read) : ReadPhase → Nat
  | .headers => q.bound + 2
  | .entries _ todo => todo.length + 1
  | .returned _ => 0
  | .failed _ => 0

def World.rank (w : World) : Nat :=
  w.sys.rank + (w.reads.map fun x => x.2.rank x.1).sum

section Rank

variable {cfg : Config} {L : Ledger}

theorem rank_readMany {q : Read} {rows : List TransactionRow} (h : rows.length ≤ q.bound) :
    (readMany rows).rank q < q.bound + 2 := by
  simp only [readMany, ReadPhase.rank, List.length_map]
  omega

theorem rank_readOne {q : Read} (h : q.bound = 1) (t : Option Transaction) :
    (readOne t).rank q < q.bound + 2 := by
  rw [h]
  cases t <;> simp [readOne, ReadPhase.rank]

/-- **Every statement of a read lowers its rank**: a header query returns no more rows than its
    limit. -/
theorem readStep_rank {q : Read} {p p' : ReadPhase} {ch : ReadChoice}
    (h : readStep L q p ch = some p') : p'.rank q < p.rank q := by
  cases p with
  | headers =>
      cases ch with
      | fail text =>
          cases h
          exact Nat.succ_pos _
      | ok =>
          simp only [readStep] at h
          cases q with
          | getTransactionByIdempotencyKey key =>
              simp only [readHeaders] at h
              split at h
              · cases h
                exact Nat.succ_pos _
              · cases h
                exact rank_readOne rfl _
          | getTransaction id =>
              cases h
              exact rank_readOne rfl _
          | listTransactionsForAccount id limit =>
              simp only [readHeaders] at h
              split at h
              · cases h
                exact Nat.succ_pos _
              · cases h
          | listTransactions opts =>
              simp only [readHeaders] at h
              split at h
              · cases h
                exact Nat.succ_pos _
              · rename_i rows hrows
                cases h
                refine rank_readMany ?_
                unfold listTransactions at hrows
                split at hrows
                · cases hrows
                · split at hrows
                  · cases hrows
                  · cases hrows
                    exact List.length_take_le _ _
      | rows rows =>
          simp only [readStep] at h
          cases q with
          | listTransactionsForAccount id limit =>
              simp only [readRows] at h
              split at h
              · rename_i hn
                cases h
                exact rank_readMany (hn.2.1.trans_le (Nat.min_le_left _ _))
              · cases h
          | _ => cases h
  | entries done todo =>
      cases todo with
      | nil =>
          cases ch with
          | ok =>
              cases h
              exact Nat.succ_pos _
          | _ => cases h
      | cons t todo =>
          cases ch with
          | ok =>
              cases h
              exact Nat.lt_succ_self _
          | fail =>
              cases h
              exact Nat.succ_pos _
          | rows => cases h
  | returned => cases ch <;> cases h
  | failed => cases ch <;> cases h

/-- **Every step of a client lowers the rank.** -/
theorem worldStep_rank {w w' : World} {a : WorldAct} (hI : SysInv cfg w.sys)
    (h : worldStep cfg w a = some w') (hc : a.client.isSome = true) : w'.rank < w.rank := by
  cases a with
  | sys a =>
      obtain ⟨s', hs, rfl⟩ := Option.map_eq_some_iff.mp h
      cases a with
      | call i ch => exact Nat.add_lt_add_right (step_rank hI hs) _
      | _ => cases hc
  | read q => cases hc
  | reader j ch =>
      simp only [worldStep] at h
      split at h
      · cases h
      · rename_i q p hj
        obtain ⟨p', hp, rfl⟩ := Option.map_eq_some_iff.mp h
        have hlt : (fun x : Read × ReadPhase => x.2.rank x.1) (q, p') <
            (fun x : Read × ReadPhase => x.2.rank x.1) (q, p) := readStep_rank hp
        exact Nat.add_lt_add_left (sum_set_lt hj hlt) _

end Rank

/-! ## 3. The invariant -/

/-- **The invariant of the pool.** -/
structure PoolInv (cfg : Config) (maxConns : Nat) (p : Pool) : Prop where
  sys : SysInv cfg p.world.sys
  nodup : p.conns.Nodup
  bound : p.conns.length ≤ maxConns
  needs : ∀ c ∈ p.conns, (p.world.task? c).any Task.needsConn = true
  held : ∀ c, (p.world.task? c).any Task.keepsConn = true → c ∈ p.conns

section Pool

variable {cfg : Config} {maxConns : Nat} {p p' : Pool}

/-- **What a step on the pool does.** -/
theorem poolStep_cases {a : PoolAct} (h : poolStep cfg maxConns p a = some p') :
    (∃ c, a = .acquire c ∧ (p.world.task? c).any Task.needsConn = true ∧ c ∉ p.conns ∧
      p.conns.length < maxConns ∧ p' = { p with conns := p.conns ++ [c] }) ∨
    (∃ b w', a = .act b ∧ b.client = none ∧ worldStep cfg p.world b = some w' ∧
      p' = { p with world := w' }) ∨
    (∃ b c w', a = .act b ∧ b.client = some c ∧ p.mayStep c b = true ∧
      worldStep cfg p.world b = some w' ∧
      p' = ⟨w', if (w'.task? c).any Task.keepsConn then p.conns
        else p.conns.filter (· ≠ c)⟩) := by
  cases a with
  | acquire c =>
      simp only [poolStep] at h
      split at h
      · rename_i hc
        simp only [Bool.and_eq_true, Bool.not_eq_true', decide_eq_true_eq] at hc
        refine .inl ⟨c, rfl, hc.1.1, fun hm => ?_, hc.2, (Option.some.inj h).symm⟩
        rw [List.contains_iff_mem.mpr hm] at hc
        exact absurd hc.1.2 (by decide)
      · cases h
  | act b =>
      simp only [poolStep] at h
      cases hb : b.client with
      | none =>
          rw [hb] at h
          obtain ⟨w', hw, rfl⟩ := Option.map_eq_some_iff.mp h
          exact .inr (.inl ⟨b, w', rfl, hb, hw, rfl⟩)
      | some c =>
          simp only [hb] at h
          split at h
          · rename_i hm
            obtain ⟨w', hw, rfl⟩ := Option.map_eq_some_iff.mp h
            exact .inr (.inr ⟨b, c, w', rfl, hb, hm, hw, rfl⟩)
          · cases h

/-- A client that is inside a transaction after its step was there before, or has opened it with a
    connection. -/
theorem keeps_before {w w' : World} {b : WorldAct} (hI : SysInv cfg w.sys)
    (h : worldStep cfg w b = some w') {c : Client} (hb : b.client = some c)
    (hk : (w'.task? c).any Task.keepsConn = true) :
    (w.task? c).any Task.keepsConn = true ∨
      (w.task? c).any Task.needsConn = true ∧ b.fails = false := by
  cases b with
  | read q => cases hb
  | reader j ch =>
      cases hb
      simp only [World.task?] at hk
      cases hj : w'.reads[j]? with
      | none => rw [hj] at hk; cases hk
      | some x => rw [hj] at hk; cases hk
  | sys a =>
      obtain ⟨s', hs, rfl⟩ := Option.map_eq_some_iff.mp h
      cases a with
      | call i ch =>
          cases hb
          cases hi : w.sys.calls[i]? with
          | none => simp only [step, hi] at hs; cases hs
          | some t =>
              cases t with
              | createAccount name q =>
                  rcases step_slot hs hi with ⟨_, hne⟩ | ⟨ch', db', t', _, ht', hcs⟩
                  · exact absurd rfl (hne ch)
                  · obtain ⟨_, _, e⟩ := Option.map_eq_some_iff.mp hcs
                    cases e
                    simp only [World.task?, ht'] at hk
                    cases hk
              | request r q =>
                  rcases step_call hI hs hi with ⟨_, hne⟩ | ⟨ch', q', e, hq', hn⟩
                  · exact absurd rfl (hne ch)
                  · cases e
                    simp only [World.task?, hq'] at hk
                    simp only [World.task?, hi]
                    cases hn with
                    | began => exact .inr ⟨rfl, rfl⟩
                    | missed => cases r <;> cases hk
                    | lookupFails => cases r <;> cases hk
                    | lookupEntriesFails => cases r <;> cases hk
                    | rolledBack => exact .inl rfl
                    | _ => first | exact .inl rfl | cases hk
      | _ => cases hb

/-- **Every step keeps the invariant of the pool.** -/
theorem inv_poolStep {a : PoolAct} (hI : PoolInv cfg maxConns p)
    (h : poolStep cfg maxConns p a = some p') : PoolInv cfg maxConns p' := by
  -- the holders that do not step, and the transactions of those who do not
  have others : ∀ b w', worldStep cfg p.world b = some w' → ∀ c, b.client ≠ some c →
      (c ∈ p.conns → (w'.task? c).any Task.needsConn = true) ∧
        ((w'.task? c).any Task.keepsConn = true → c ∈ p.conns) := by
    intro b w' hw c hc
    rcases task_other hw hc with e | ⟨hnone, hfresh⟩
    · rw [e]
      exact ⟨hI.needs c, hI.held c⟩
    · refine ⟨fun hm => ?_, fun hk => ?_⟩
      · have := hI.needs c hm
        rw [hnone] at this
        cases this
      · rw [hfresh] at hk
        cases hk
  rcases poolStep_cases h with ⟨c, rfl, hneeds, hnot, hlt, rfl⟩ | ⟨b, w', rfl, hb, hw, rfl⟩ |
    ⟨b, c, w', rfl, hb, hmay, hw, rfl⟩
  · refine ⟨hI.sys, ?_, ?_, fun d hd => ?_, fun d hd => List.mem_append_left _ (hI.held d hd)⟩
    · refine List.nodup_append.mpr ⟨hI.nodup, List.nodup_singleton c, fun x hx y hy e => ?_⟩
      rw [List.mem_singleton.mp hy] at e
      exact hnot (e ▸ hx)
    · rw [List.length_append]
      exact hlt
    · rcases List.mem_append.mp hd with hd | hd
      · exact hI.needs d hd
      · rw [List.mem_singleton.mp hd]
        exact hneeds
  · have hne : ∀ c, b.client ≠ some c := fun c e => by rw [hb] at e; cases e
    exact ⟨worldStep_sys hI.sys hw, hI.nodup, hI.bound, fun c hc => (others b w' hw c (hne c)).1 hc,
      fun c hc => (others b w' hw c (hne c)).2 hc⟩
  · have hne : ∀ d, d ≠ c → b.client ≠ some d := fun d hd e => hd (by
      rw [hb] at e
      exact (Option.some.inj e).symm)
    cases hk : (w'.task? c).any Task.keepsConn with
    | true =>
        -- the client has its connection and keeps it
        have hmem : c ∈ p.conns := by
          rcases keeps_before hI.sys hw hb hk with hkeep | ⟨hneed, hok⟩
          · exact hI.held c hkeep
          · simpa [Pool.mayStep, hneed, hok] using hmay
        rw [if_pos rfl]
        refine ⟨worldStep_sys hI.sys hw, hI.nodup, hI.bound, fun d hd => ?_, fun d hd => ?_⟩
        · by_cases hdc : d = c
          · subst hdc
            obtain ⟨t, ht, hkt⟩ := (Option.any_eq_true _ _).mp hk
            exact (Option.any_eq_true _ _).mpr ⟨t, ht, Task.needsConn_of_keeps hkt⟩
          · exact (others b w' hw d (hne d hdc)).1 hd
        · by_cases hdc : d = c
          · exact hdc ▸ hmem
          · exact (others b w' hw d (hne d hdc)).2 hd
    | false =>
        rw [if_neg Bool.false_ne_true]
        refine ⟨worldStep_sys hI.sys hw, hI.nodup.filter _,
          (List.length_filter_le _ _).trans hI.bound, fun d hd => ?_, fun d hd => ?_⟩
        · obtain ⟨hd, hdc⟩ := List.mem_filter.mp hd
          exact (others b w' hw d (hne d (of_decide_eq_true hdc))).1 hd
        · have hdc : d ≠ c := fun e => by
            rw [e] at hd
            exact absurd (hd.symm.trans hk) (by decide)
          exact List.mem_filter.mpr ⟨(others b w' hw d (hne d hdc)).2 hd, decide_eq_true hdc⟩

theorem inv_poolStart (cfg : Config) (maxConns : Nat) (now clock : Time) :
    PoolInv cfg maxConns (Pool.start (Db.migrated now) clock) := by
  refine ⟨inv_start cfg now clock, List.nodup_nil, Nat.zero_le _,
    fun c hc => absurd hc List.not_mem_nil, fun c hc => ?_⟩
  cases c <;> cases hc

theorem inv_poolExec {now clock : Time} {acts : List PoolAct}
    (h : poolExec cfg maxConns (Pool.start (Db.migrated now) clock) acts = some p) :
    PoolInv cfg maxConns p :=
  run_inv (I := PoolInv cfg maxConns) (fun _ _ _ hI hs => inv_poolStep hI hs)
    (inv_poolStart cfg maxConns now clock) h

/-- The pool only delays: without its waits a run is a run of the system. -/
theorem pool_refines {acts : List PoolAct} {p₀ : Pool}
    (h : poolExec cfg maxConns p₀ acts = some p) :
    worldExec cfg p₀.world (acts.filterMap PoolAct.world?) = some p.world := by
  refine run_induction (motive := fun as p =>
    worldExec cfg p₀.world (as.filterMap PoolAct.world?) = some p.world) rfl ?_ h
  intro as m a m' _ ih hs
  rw [List.filterMap_append]
  rcases poolStep_cases hs with ⟨c, rfl, _, _, _, rfl⟩ | ⟨b, w', rfl, _, hw, rfl⟩ |
    ⟨b, c, w', rfl, _, _, hw, rfl⟩
  · exact (congrArg _ (List.append_nil _)).trans ih
  · exact run_snoc.mpr ⟨_, ih, hw⟩
  · exact run_snoc.mpr ⟨_, ih, hw⟩

/-! ## 4. Progress -/

/-- The connections that are left and the steps that are left. -/
def Pool.rank (maxConns : Nat) (p : Pool) : Nat :=
  2 * p.world.rank + (maxConns - p.conns.length)

/-- A client that steps gives at most its own connection back. -/
theorem length_filter_ne {l : List Client} (h : l.Nodup) (c : Client) :
    l.length ≤ (l.filter (· ≠ c)).length + 1 := by
  induction l with
  | nil => exact Nat.zero_le _
  | cons d l ih =>
      obtain ⟨hd, hl⟩ := List.nodup_cons.mp h
      by_cases hdc : d = c
      · have : l.filter (· ≠ c) = l :=
          List.filter_eq_self.mpr fun x hx => decide_eq_true fun e => hd (hdc ▸ e ▸ hx)
        rw [List.filter_cons_of_neg (by simpa using hdc), this, List.length_cons]
      · have := ih hl
        rw [List.filter_cons_of_pos (by simpa using hdc), List.length_cons, List.length_cons]
        omega

/-- **Whatever a client does lowers the rank.** -/
theorem poolStep_rank {a : PoolAct} (hI : PoolInv cfg maxConns p)
    (h : poolStep cfg maxConns p a = some p') (ha : a.works = true) :
    p'.rank maxConns < p.rank maxConns := by
  unfold Pool.rank
  rcases poolStep_cases h with ⟨c, rfl, _, _, hlt, rfl⟩ | ⟨b, w', rfl, hb, _, _⟩ |
    ⟨b, c, w', rfl, hb, _, hw, rfl⟩
  · simp only [List.length_append, List.length_singleton]
    omega
  · simp only [PoolAct.works, hb] at ha
    cases ha
  · have hlt := worldStep_rank hI.sys hw (by rw [hb]; rfl)
    have hlen := length_filter_ne hI.nodup c
    have hle := List.length_filter_le (· ≠ c) p.conns
    show 2 * w'.rank + (maxConns - (if _ then p.conns else p.conns.filter (· ≠ c)).length) < _
    split <;> omega

/-- A read that has not returned can go on: some rows are the newest. -/
theorem exists_readStep {L : Ledger} (hI : LedgerInv L) (q : Read) {rp : ReadPhase}
    (hf : (Task.read q rp).finished = false) :
    ∃ ch, (∀ text, ch ≠ .fail text) ∧ (readStep L q rp ch).isSome = true := by
  cases rp with
  | returned => cases hf
  | failed => cases hf
  | entries done todo => cases todo <;> exact ⟨.ok, fun _ e => (by cases e), rfl⟩
  | headers =>
      cases q with
      | listTransactionsForAccount id limit =>
          by_cases hl : limit < 0
          · exact ⟨.ok, fun _ e => (by cases e), by simp [readStep, readHeaders, hl]⟩
          · have hnd : (L.headersOf id).Nodup :=
              List.Nodup.filter _ (List.Nodup.of_map _ hI.transactionIDs)
            obtain ⟨sorted, hs⟩ := exists_ordered (DescBy TransactionRow.createdAt) (L.headersOf id)
            have hn : Newest limit.toNat (L.headersOf id) (sorted.take limit.toNat) :=
              (limited_iff hnd).mp ⟨sorted, hs, rfl⟩
            exact ⟨.rows (sorted.take limit.toNat), fun _ e => (by cases e),
              by simp [readStep, readRows, not_lt.mp hl, hn]⟩
      | getTransactionByIdempotencyKey key =>
          refine ⟨.ok, fun _ e => (by cases e), ?_⟩
          simp only [readStep, readHeaders]
          split <;> rfl
      | getTransaction id => exact ⟨.ok, fun _ e => (by cases e), rfl⟩
      | listTransactions opts =>
          refine ⟨.ok, fun _ e => (by cases e), ?_⟩
          simp only [readStep, readHeaders]
          split <;> rfl

/-- A client outside a transaction that has not returned can take its next step. -/
theorem exists_taskStep {w : World} (hI : SysInv cfg w.sys) {c : Client} {t : Task}
    (ht : w.task? c = some t) (hk : t.keepsConn = false) (hf : t.finished = false) :
    ∃ b, b.client = some c ∧ (PoolAct.act b).healthy = true ∧ (worldStep cfg w b).isSome = true := by
  cases c with
  | call i =>
      obtain ⟨c, hc, rfl⟩ := Option.map_eq_some_iff.mp ht
      obtain ⟨ch, hch, hs⟩ := @step_outside cfg w.sys i c hc (by simpa [Task.keepsConn] using hk) hf
      exact ⟨.sys (.call i ch), rfl, hch, by rw [worldStep, Option.isSome_map]; exact hs⟩
  | reader j =>
      obtain ⟨⟨q, rp⟩, hj, rfl⟩ := Option.map_eq_some_iff.mp ht
      obtain ⟨ch, hch, hs⟩ := exists_readStep hI.ledger q hf
      refine ⟨.reader j ch, rfl, ?_, ?_⟩
      · cases ch with
        | fail text => exact absurd rfl (hch text)
        | _ => rfl
      · simp only [worldStep, hj, Option.isSome_map]
        exact hs

/-- A step of the system that the pool lets through. -/
theorem poolStep_isSome {b : WorldAct} {c : Client} (hb : b.client = some c)
    (hm : p.mayStep c b = true) (hs : (worldStep cfg p.world b).isSome = true) :
    (poolStep cfg maxConns p (.act b)).isSome = true := by
  simp only [poolStep, hb, hm, if_true, Option.isSome_map]
  exact hs

/-- **While a client has not returned, some client can go on without a fault.** -/
theorem exists_poolStep (hI : PoolInv cfg maxConns p) (hpos : 0 < maxConns)
    (h : ∃ c t, p.world.task? c = some t ∧ t.finished = false) :
    ∃ a, a.works = true ∧ a.healthy = true ∧ (poolStep cfg maxConns p a).isSome = true := by
  by_cases hopen : ∃ i, (p.world.sys.tx? i).isSome = true
  · -- an open transaction that waits for no other has its connection
    obtain ⟨i, hi, hs⟩ := hI.sys.exists_open_step hopen
    have hmem := hI.held (.call i) (keepsConn_of_tx hi)
    refine ⟨.act (.sys (.call i .ok)), rfl, rfl, poolStep_isSome rfl ?_ ?_⟩
    · simp [Pool.mayStep, hmem]
    · rw [worldStep, Option.isSome_map]
      exact hs
  · have hkeep : ∀ c t, p.world.task? c = some t → t.keepsConn = false := by
      intro c t ht
      cases c with
      | reader j =>
          obtain ⟨_, _, rfl⟩ := Option.map_eq_some_iff.mp ht
          rfl
      | call i =>
          obtain ⟨k, hk, rfl⟩ := Option.map_eq_some_iff.mp ht
          rw [← Bool.not_eq_true]
          intro hkt
          exact hopen ⟨i, by rw [St.tx?_of_call hk]; exact hkt⟩
    have go : ∀ c t, p.world.task? c = some t → t.finished = false →
        (t.needsConn = false ∨ c ∈ p.conns) →
        ∃ a, a.works = true ∧ a.healthy = true ∧ (poolStep cfg maxConns p a).isSome = true := by
      intro c t ht hf hmay
      obtain ⟨b, hb, hh, hs⟩ := exists_taskStep hI.sys ht (hkeep c t ht) hf
      refine ⟨.act b, by rw [PoolAct.works, hb]; rfl, hh, poolStep_isSome hb ?_ hs⟩
      rcases hmay with hno | hmem
      · simp [Pool.mayStep, ht, hno]
      · simp [Pool.mayStep, hmem]
    obtain ⟨c, t, ht, hf⟩ := h
    by_cases hneed : t.needsConn = false
    · exact go c t ht hf (.inl hneed)
    · cases hconns : p.conns with
      | nil =>
          -- nobody holds a connection: the client gets one
          refine ⟨.acquire c, rfl, rfl, ?_⟩
          rw [Bool.not_eq_false] at hneed
          simp [poolStep, ht, hneed, hconns, hpos]
      | cons d conns =>
          have hd : d ∈ p.conns := hconns ▸ List.mem_cons_self
          obtain ⟨u, hu, hun⟩ := (Option.any_eq_true _ _).mp (hI.needs d hd)
          refine go d u hu ?_ (.inr hd)
          -- a client that needs a connection has not returned
          cases u with
          | read q rp => cases rp <;> first | rfl | cases hun
          | call k =>
              cases k with
              | request r ph => cases ph <;> first | rfl | cases hun
              | createAccount name ph => cases ph <;> first | rfl | cases hun

end Pool

/-! ## 5. Every client returns -/

/-- **The pool is never exhausted for good.** On a pool of any size but zero, after any run: the pool
    has only delayed the system, never more than `maxConns` connections are out, and from here on, as
    long as nobody new arrives, the clients take a bounded number of steps under every schedule,
    faults included, with always one that some client can take until all have returned. -/
theorem pool_returns {cfg : Config} {maxConns : Nat} (hpos : 0 < maxConns) {now clock : Time}
    {acts : List PoolAct} {p : Pool}
    (h : poolExec cfg maxConns (Pool.start (Db.migrated now) clock) acts = some p) :
    worldExec cfg (World.start (Db.migrated now) clock) (acts.filterMap PoolAct.world?) =
        some p.world ∧
      p.conns.length ≤ maxConns ∧
      (∀ acts' p', (∀ a ∈ acts', a.works = true) → poolExec cfg maxConns p acts' = some p' →
        acts'.length ≤ 2 * p.world.rank + maxConns) ∧
      ((∃ c t, p.world.task? c = some t ∧ t.finished = false) →
        ∃ a, a.works = true ∧ a.healthy = true ∧ (poolStep cfg maxConns p a).isSome = true) := by
  have hI := inv_poolExec h
  have hworld := pool_refines h
  rw [Pool.start_world] at hworld
  have lower : ∀ s a s', PoolInv cfg maxConns s → PoolAct.works a = true →
      poolStep cfg maxConns s a = some s' →
      PoolInv cfg maxConns s' ∧ s'.rank maxConns < s.rank maxConns :=
    fun s a s' hs ha hst => ⟨inv_poolStep hs hst, poolStep_rank hs hst ha⟩
  refine ⟨hworld, hI.bound, fun acts' p' hw hrun => ?_, exists_poolStep hI hpos⟩
  have hlen := run_length_le lower hI hw hrun
  unfold Pool.rank at hlen
  omega

/-- Two transfers and a read on one connection, which the first transfer has for its transaction. -/
def narrowRun : List PoolAct :=
  [.act (.sys (.arrive (.transfer aliceID bobID (Money.fromInt 1) (bytes "ab") (bytes "req-1")))),
    .act (.sys (.arrive (.transfer bobID aliceID (Money.fromInt 1) (bytes "ba") (bytes "req-2")))),
    .act (.read (.listTransactions ⟨50, 0, none⟩)),
    .acquire (.call 0), .act (.sys (.call 0 .ok)), .act (.sys (.call 0 (.uuid 100#128))),
    .acquire (.call 0), .act (.sys (.call 0 .ok))]

theorem narrowRun_isSome :
    (poolExec Config.migrated 1 (Pool.start (Db.migrated 0) 1000) narrowRun).isSome = true := by
  decide +kernel

def narrowEnd : Pool :=
  (poolExec Config.migrated 1 (Pool.start (Db.migrated 0) 1000) narrowRun).get narrowRun_isSome

theorem narrowRun_exec :
    poolExec Config.migrated 1 (Pool.start (Db.migrated 0) 1000) narrowRun = some narrowEnd :=
  (Option.some_get narrowRun_isSome).symm

/-- The others have to wait for the connection, and still somebody can go on. -/
theorem pool_returns_narrow :
    poolStep Config.migrated 1 narrowEnd (.acquire (.call 1)) = none ∧
      poolStep Config.migrated 1 narrowEnd (.acquire (.reader 0)) = none ∧
      ∃ a, a.works = true ∧ a.healthy = true ∧
        (poolStep Config.migrated 1 narrowEnd a).isSome = true := by
  obtain ⟨hcall, hread, hopen⟩ :
      poolStep Config.migrated 1 narrowEnd (.acquire (.call 1)) = none ∧
      poolStep Config.migrated 1 narrowEnd (.acquire (.reader 0)) = none ∧
      (narrowEnd.world.task? (.reader 0)).any (fun t => !t.finished) = true := by
    decide +kernel
  obtain ⟨t, ht, hf⟩ := (Option.any_eq_true _ _).mp hopen
  have hreturns := (pool_returns Nat.one_pos narrowRun_exec).2.2.2
  exact ⟨hcall, hread, hreturns ⟨.reader 0, t, ht, by simpa using hf⟩⟩

end BankingService
