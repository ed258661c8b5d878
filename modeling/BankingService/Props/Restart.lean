/-
  File:      BankingService/Props/Restart.lean
  Subject:   SERVERS THAT DIE AND COME BACK are the one machine: whatever processes start, share the
             database and crash in the middle of their calls, the tables a serving process works on
             are those of one run of the service on a migrated database.

  * `serving_refines` -- the refinement; every result about the runs of the machine holds for the
    tables of the cluster.
  * `success_survives` -- so a success that a client has seen survives every later crash, and no
    retry with its key, through whichever process, is ever told another transaction.
-/
import BankingService.Proof.Cluster
import BankingService.Props.ExactlyOnce

namespace BankingService

open Lib

/-! ## 1. Runs to look at -/

/-- Bob is sent 2500 by Alice, with one key. -/
def sharedRequest : Request :=
  .transfer aliceID bobID (Money.fromInt 2500) (bytes "pay-1") (bytes "req-1")

/-- The statements of a first start: the version table, three migrations, the store. -/
def firstStart (p : Nat) : List ClusterAct := .boot :: List.replicate 17 (.proc p .ok)

/-- The statements of a later start. -/
def laterStart (p : Nat) : List ClusterAct := .boot :: List.replicate 7 (.proc p .ok)

/-- Two processes; the first one dies with a transaction open, in the middle of its entries, and the
    client's retry goes to the second one. -/
def failoverRun : List ClusterAct :=
  firstStart 0 ++ laterStart 1 ++ [.arrive 0 sharedRequest, .call 0 .ok, .call 0 (.uuid 100#128)] ++
    List.replicate 12 (.call 0 .ok) ++ [.crash 0, .arrive 1 sharedRequest, .call 1 .ok,
    .call 1 (.uuid 101#128)] ++ List.replicate 17 (.call 1 .ok)

theorem failoverRun_isSome :
    (Cluster.exec Config.migrated (Cluster.fresh 1000) failoverRun).isSome = true := by
  decide +kernel

def failoverEnd : Cluster :=
  (Cluster.exec Config.migrated (Cluster.fresh 1000) failoverRun).get failoverRun_isSome

theorem failoverRun_exec :
    Cluster.exec Config.migrated (Cluster.fresh 1000) failoverRun = some failoverEnd :=
  (Option.some_get failoverRun_isSome).symm

/-! ## 2. The refinement -/

/-- **A serving process works on a migrated database.** In every state of the cluster, after any
    starts, crashes, lost sessions and failing statements, if some process serves, then
    `schema_migrations` says version 3, clean, and the tables are those of a run of the machine from
    a freshly migrated database; the calls are the machine's too, except that a call whose process
    died has come to its end there. -/
theorem serving_refines {cfg : Config} {clock : Time} {acts : List ClusterAct} {c : Cluster}
    (h : Cluster.exec cfg (Cluster.fresh clock) acts = some c) {p : Nat} (hp : c.serves p = true) :
    c.versions = some (some ⟨3, false⟩) ∧
      ∃ now start acts' s,
        exec cfg (St.start (Db.migrated now) start) acts' = some s ∧ Sim c s := by
  have hI := inv_clusterExec h
  have hrow := hI.row_of_serves hp
  exact ⟨Option.join_eq_some_iff.mp hrow, hI.versions.level hrow⟩

/-- After the failover the second process serves on such tables. -/
theorem serving_refines_failover :
    failoverEnd.serves 0 = false ∧ failoverEnd.serves 1 = true ∧
      ∃ now start acts' s,
        exec Config.migrated (St.start (Db.migrated now) start) acts' = some s ∧
          Sim failoverEnd s := by
  have hp : failoverEnd.serves 1 = true := by decide +kernel
  exact ⟨by decide +kernel, hp, (serving_refines failoverRun_exec hp).2⟩

/-! ## 3. Successes survive -/

section Success

variable {cfg : Config} {c : Cluster} {s : St}

/-- A success is a call of the machine. -/
theorem Sim.success (h : Sim c s) {i : Nat} {r : Request} {ret : Return} {t : Transaction}
    (hc : c.calls[i]? = some (.request r (.done ret))) (ht : ret.transaction? = some t) :
    s.calls[i]? = some (.request r (.done ret)) := by
  rcases h.call i _ hc with hs | ⟨hab, _⟩
  · exact hs
  · cases ret with
    | failed => cases ht
    | existing => cases hab
    | committed => cases hab

/-- Its transaction is the one with its key. -/
theorem Sim.header (h : Sim c s) (hI : SysInv cfg s) {i : Nat} {r : Request} {ret : Return}
    {t : Transaction} (hc : c.calls[i]? = some (.request r (.done ret)))
    (ht : ret.transaction? = some t) :
    ∃ row, s.db.transactions.filter (fun x => x.idempotencyKey = r.key) = [row] ∧
      t.id = row.id ∧ t.kind = row.kind :=
  RetOk.header hI.ledger (hI.calls i _ (h.success hc ht)) ht

end Success

/-- **A success survives.** Once a call has returned a transaction, then after any further starts,
    crashes and calls the table still holds exactly one header with its key, that of the transaction
    it returned, and every success with the same key, of any process, names this transaction. -/
theorem success_survives {cfg : Config} {clock : Time} {acts acts' : List ClusterAct}
    {c c' : Cluster} (h : Cluster.exec cfg (Cluster.fresh clock) acts = some c) {i : Nat}
    {r : Request} {ret : Return} {t : Transaction}
    (hc : c.calls[i]? = some (.request r (.done ret))) (ht : ret.transaction? = some t)
    (h' : Cluster.exec cfg c acts' = some c') :
    ∃ db row, c'.bank = some db ∧
      db.transactions.filter (fun x => x.idempotencyKey = r.key) = [row] ∧ t.id = row.id ∧
      t.kind = row.kind ∧
      ∀ (j : Nat) r' ret' t', c'.calls[j]? = some (.request r' (.done ret')) → r'.key = r.key →
        ret'.transaction? = some t' → t'.id = t.id := by
  have hI := inv_clusterExec h
  have hrow : c.row = rowAt 3 := by
    by_contra hne
    rw [hI.idle hne] at hc
    cases hc
  obtain ⟨now, start, actsM, s, hrun, hsim⟩ := hI.versions.level hrow
  have hIs := inv_exec (inv_start cfg now start) hrun
  obtain ⟨_, actsM', s', hrun', hsim'⟩ := hsim.exec hIs hI hrow h'
  have hIs' := inv_exec hIs hrun'
  obtain ⟨row, hfilter, hid, hkind⟩ := hsim.header hIs hc ht
  have hmem : row ∈ s.db.transactions.filter (fun x => x.idempotencyKey = r.key) := by
    rw [hfilter]
    exact List.mem_singleton_self _
  have hrow' : row ∈ s'.db.transactions :=
    (exec_transactions hIs hrun').subset (List.mem_of_mem_filter hmem)
  have hkey : row.idempotencyKey = r.key := of_decide_eq_true (List.mem_filter.mp hmem).2
  have hfilter' : s'.db.transactions.filter (fun x => x.idempotencyKey = r.key) = [row] :=
    hkey ▸ filter_key hIs'.ledger.keys hrow'
  refine ⟨s'.db, row, hsim'.bank, hfilter', hid, hkind, fun j r' ret' t' hj hk ht' => ?_⟩
  obtain ⟨row', hf, hid', _⟩ := hsim'.header hIs' hj ht'
  rw [hk, hfilter'] at hf
  obtain rfl := (List.cons.inj hf).1
  rw [hid', hid]

/-- The retry of the failover has returned transaction 101; after another start it is still the one
    with its key. -/
theorem success_survives_failover :
    ∃ c', Cluster.exec Config.migrated failoverEnd (.crash 1 :: laterStart 2) = some c' ∧
      c'.serves 2 = true ∧
      ∃ db row, c'.bank = some db ∧
        db.transactions.filter (fun x => x.idempotencyKey = bytes "pay-1") = [row] ∧
        (101#128 : UUID) = row.id := by
  have hsome : (Cluster.exec Config.migrated failoverEnd (.crash 1 :: laterStart 2)).isSome =
      true := by decide +kernel
  have hrun := (Option.some_get hsome).symm
  have hcall : ∃ ret t, failoverEnd.calls[1]? = some (.request sharedRequest (.done ret)) ∧
      ret.transaction? = some t ∧ t.id = 101#128 :=
    ⟨.committed ⟨101#128, .transfer, bytes "pay-1", none, 0, []⟩
      [⟨0, 101#128, aliceID, .debit, [], Money.fromInt 2500, 0⟩,
        ⟨0, 101#128, bobID, .credit, [], Money.fromInt 2500, 0⟩], _,
      by decide +kernel, rfl, rfl⟩
  obtain ⟨ret, t, hc, ht, hid⟩ := hcall
  obtain ⟨db, row, hb, hf, hrow, _⟩ := success_survives failoverRun_exec hc ht hrun
  have hserves : ((Cluster.exec Config.migrated failoverEnd (.crash 1 :: laterStart 2)).any
      fun c => c.serves 2) = true := by decide +kernel
  rw [hrun, Option.any_some] at hserves
  exact ⟨_, hrun, hserves, db, row, hb, hf, hid ▸ hrow⟩

end BankingService
