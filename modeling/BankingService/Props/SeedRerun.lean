/-
  File:      BankingService/Props/SeedRerun.lean
  Subject:   RUNNING 0003 UP AGAIN.

  A service at version 2, 0003 up, the service at version 3, and 0003 up once more. The first run
  generates no id of a seed deposit, so the first 0003 up adds all six entries and leaves everything
  behind that the statements look for (`seeded_of_up`); the service never deletes a row and never
  changes a header or an entry (`exec_grows`), so it is still there.

  * `seed_rerun` -- the second 0003 up succeeds and changes nothing.
-/
import BankingService.Proof.Seeds

namespace BankingService

/-- **0003 up a second time** changes nothing, whatever the service has done before and since. -/
theorem seed_rerun {cfg : Config} {clock clock' now now' : Time} {acts acts' : List Act}
    {s s' : St} {db : Db}
    (hrun : exec cfg (St.start (migrate0002Up Db.empty) clock) acts = some s)
    (hids : ∀ a ∈ acts, a.generates fun u => u ∉ seeds.map Seed.tx)
    (hup : migrate0003Up now s.db = .ok db)
    (hrun' : exec cfg (St.start db clock') acts' = some s') :
    migrate0003Up now' s'.db = .ok s'.db := by
  have hI : SysInv cfg s := inv_exec
    (sysInv_start cfg inv_version2 (fun t ht => absurd ht List.not_mem_nil) clock) hrun
  have hnew : ∀ t ∈ s.db.transactions, t.id ∉ seeds.map Seed.tx :=
    exec_headerIDs (fun t ht => absurd ht List.not_mem_nil) hids hrun
  have hseeded : Seeded db.toLedger := seeded_of_up hI.ledger.entryTransaction hnew hup
  exact seeded_noop (hseeded.mono (exec_grows hrun')) now'

/-- Alice deposits 100, under a key that the seeds might have had. -/
def aliceRun : List Act :=
  soloCall 0 (.deposit aliceID (Money.fromInt 100) (bytes "seed-deposit-dora-001") (bytes "req-2"))
    200#128

theorem aliceRun_isSome :
    (exec Config.migrated (St.start doraSeeded 3000) aliceRun).isSome = true := by
  decide +kernel

def aliceEnd : St := (exec Config.migrated (St.start doraSeeded 3000) aliceRun).get aliceRun_isSome

/-- 0003 up, run again after both deposits. -/
theorem seed_rerun_deposits :
    aliceEnd.db.transactions.length = 5 ∧ migrate0003Up 4000 aliceEnd.db = .ok aliceEnd.db := by
  have hids : ∀ a ∈ doraRun, a.generates fun u => u ∉ seeds.map Seed.tx := by
    simp [doraRun, doraOpens, soloCall, Act.generates, seeds, seedDepositID, doraID]
  exact ⟨by decide +kernel, seed_rerun doraRun_exec hids doraSeeded_up
    (Option.some_get aliceRun_isSome).symm⟩

end BankingService
