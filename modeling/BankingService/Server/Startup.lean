/-
  File:      BankingService/Server/Startup.lean
  Subject:   `cmd/server/main.go` on one database: any number of server processes that start, run
             golang-migrate's `Up`, serve requests and die, one statement at a time.

  A process is where `main` stands (`ProcPhase`): `migrate.New` makes sure of `schema_migrations`
  under the advisory lock; `Up` takes the lock again, reads the version, and for every migration
  that is missing marks the version dirty, runs the file and marks it clean; then it unlocks, and
  `main` opens the store and serves, or exits. Everything `Up` does goes through one session.

  * The outside answers a statement with its result, with an error, or with an error although the
    server has executed it (`Answer`).
  * `disconnect` ends the session, and with it the advisory lock; `crash` ends the process. The
    calls a dead process was working on are abandoned: their database transactions are rolled back
    and their clients get no answer. A graceful shutdown is a crash at a moment without calls.
  * A waiting `pg_advisory_lock` has no step; the 15 s after which `Up` gives up are an error.
-/
import BankingService.Machine
import BankingService.Migrate.Source

namespace BankingService

/-! ## 1. The database -/

/-- The row of `schema_migrations`. -/
structure VersionRow where
  version : Int
  dirty : Bool
  deriving DecidableEq, Repr

/-- What the processes share: `schema_migrations` with its one row (`none` before the table
    exists), the process whose session has the advisory lock, and the tables of the bank (`none`
    before 0001). -/
structure Shared where
  versions : Option (Option VersionRow)
  lock : Option Nat
  bank : Option Db
  deriving DecidableEq, Repr

/-- `postgres.Version`: no row and no table are the nil version. -/
def Shared.version (d : Shared) : Int × Bool :=
  match d.versions with
  | some (some row) => (row.version, row.dirty)
  | _ => (-1, false)

/-- `postgres.SetVersion`: TRUNCATE and INSERT in one transaction. -/
def Shared.setVersion (d : Shared) (version : Nat) (dirty : Bool) : Except String Shared :=
  match d.versions with
  | none => .error "relation \"public.schema_migrations\" does not exist"
  | some _ => .ok { d with versions := some (some ⟨version, dirty⟩) }

/-- `pg_advisory_unlock`, and the end of a session. -/
def Shared.unlock (d : Shared) (p : Nat) : Shared :=
  { d with lock := if d.lock = some p then none else d.lock }

/-- A migration file as one batch on the tables of the bank. The three up files are all there is. -/
def Migration.run (now : Time) (m : Migration) (bank : Option Db) : Except String (Option Db) :=
  match bank with
  | none =>
    if m.raw = bytes "0001_init.up.sql" then .ok (some Db.empty)
    else .error "relation \"accounts\" does not exist"
  | some db =>
    if m.raw = bytes "0001_init.up.sql" then .error "relation \"accounts\" already exists"
    else if m.raw = bytes "0002_seed_system_account.up.sql" then .ok (some (migrate0002Up db))
    else if m.raw = bytes "0003_seed_demo_accounts.up.sql" then
      match migrate0003Up now db with
      | .ok db => .ok (some db)
      | .error e => .error e.message
    else .error "no such migration"

/-! ## 2. Where `main` stands -/

inductive ProcPhase where
  -- `migrate.New`: `ensureVersionTable`
  | ensureLock
  | ensureCount
  | ensureCreate
  | ensureUnlock (errs : List UpErr)
  -- `Up`
  | lock
  | version
  | setDirty (version : Nat) (body : Option Migration) (rest : List Item)
  | run (version : Nat) (body : Migration) (rest : List Item)
  | setClean (version : Nat) (rest : List Item)
  | unlock (errs : List UpErr)
  -- `store.New` and the HTTP server
  | openStore
  | serving
  | exited
  deriving DecidableEq, Repr

/-- What the outside answers to a statement. -/
inductive Answer where
  | ok
  | fail (text : String)
  | lost (text : String)
  deriving DecidableEq, Repr

namespace ProcPhase

/-- The head of the loop of `runMigrations`. -/
def receive : List Item → ProcPhase
  | [] => .unlock []
  | .err e :: _ => .unlock [e]
  | .migration v body :: rest => .setDirty v body rest

/-- `main` after `Up`: `nil` and `ErrNoChange` go on, also when the unlock has failed
    (`errors.Join`, `errors.Is`). -/
def goesOn (errs : List UpErr) : Bool := errs.isEmpty || errs.contains .noChange

def afterUp (errs : List UpErr) : ProcPhase := if goesOn errs then .openStore else .exited

/-- Where `main` goes when the statement of a phase returns an error. -/
def onErr (e : UpErr) : ProcPhase → ProcPhase
  | .ensureCount => .ensureUnlock [e]
  | .ensureCreate => .ensureUnlock [e]
  | .version => .unlock [e]
  | .setDirty _ _ _ => .unlock [e]
  | .run _ _ _ => .unlock [e]
  | .setClean _ _ => .unlock [e]
  | .unlock errs => afterUp (errs ++ [e])
  | .serving => .serving
  | _ => .exited

/-- `main` has a statement left before it serves. -/
def starting : ProcPhase → Bool
  | .serving => false
  | .exited => false
  | _ => true

/-- The statement goes through the session of `migrate`. -/
def usesSession : ProcPhase → Bool
  | .openStore => false
  | _ => true

/-- The statement waits for the advisory lock while another session has it. -/
def waits (lock : Option Nat) (p : Nat) : ProcPhase → Bool
  | .ensureLock => lock.any fun q => q != p
  | .lock => lock.any fun q => q != p
  | _ => false

/-- The statement of a phase, executed by the server for process `p`: what it does and where `main`
    continues, or the error it raises. -/
def statement (now : Time) (d : Shared) (p : Nat) : ProcPhase → Except String (Shared × ProcPhase)
  | .ensureLock => .ok ({ d with lock := some p }, .ensureCount)
  | .ensureCount => .ok (d, if d.versions.isSome then .ensureUnlock [] else .ensureCreate)
  | .ensureCreate => .ok ({ d with versions := some (d.versions.getD none) }, .ensureUnlock [])
  | .ensureUnlock errs => .ok (d.unlock p, if errs.isEmpty then .lock else .exited)
  | .lock => .ok ({ d with lock := some p }, .version)
  | .version =>
    let (v, dirty) := d.version
    -- a panic in `readUp` would end the process
    .ok (d, if dirty then .unlock [.dirty v]
      else (bankMigrations.readUp v).elim .exited receive)
  | .setDirty v body rest =>
    match d.setVersion v true with
    | .error e => .error e
    | .ok d =>
      .ok (d, match body with
        | none => .setClean v rest
        | some body => .run v body rest)
  | .run v body rest =>
    match body.run now d.bank with
    | .error e => .error e
    | .ok bank => .ok ({ d with bank := bank }, .setClean v rest)
  | .setClean v rest =>
    match d.setVersion v false with
    | .error e => .error e
    | .ok d => .ok (d, receive rest)
  | .unlock errs => .ok (d.unlock p, afterUp errs)
  | .openStore => .ok (d, .serving)
  | .serving => .ok (d, .serving)
  | .exited => .ok (d, .exited)

end ProcPhase

/-! ## 3. The cluster -/

/-- A process: where it is, and whether its session is alive. -/
structure Proc where
  phase : ProcPhase
  session : Bool
  deriving DecidableEq, Repr

/-- All processes that were ever started, and the calls they were sent with the process of each. -/
structure Cluster extends Shared where
  procs : List Proc
  calls : List Call
  owners : List Nat
  clock : Time
  deriving DecidableEq, Repr

/-- A new database, and no process. -/
def Cluster.fresh (clock : Time) : Cluster := ⟨⟨none, none, none⟩, [], [], [], clock⟩

/-- The error a client sees when the process it talks to is gone. -/
def connectionClosed : Err := .wrapped "http" (.other "connection closed")

/-- A call whose process dies: if it has not returned, its transaction, if any, is rolled back by
    the server. -/
def Call.abandon : Call → Call
  | .request r (.done ret) => .request r (.done ret)
  | .request r _ => .request r (.done (.failed connectionClosed))
  | .createAccount name (.done a) => .createAccount name (.done a)
  | .createAccount name (.failed e) => .createAccount name (.failed e)
  | .createAccount name _ => .createAccount name (.failed connectionClosed)

inductive ClusterAct where
  | boot
  | proc (p : Nat) (ans : Answer)
  | disconnect (p : Nat)
  | crash (p : Nat)
  | arrive (p : Nat) (r : Request)
  | arriveCreate (p : Nat) (name : GoString)
  | call (i : Nat) (ch : Choice)
  | tick (d : Nat)
  deriving DecidableEq, Repr

namespace Cluster

/-- The process is gone: its session, its lock and its calls with it. -/
def kill (c : Cluster) (p : Nat) : Cluster :=
  { c with
    toShared := c.toShared.unlock p
    procs := c.procs.set p ⟨.exited, false⟩
    calls := c.calls.mapIdx fun i call => if c.owners[i]? = some p then call.abandon else call }

/-- Process `p` goes on at a phase. -/
def goTo (c : Cluster) (p : Nat) (pr : Proc) (phase : ProcPhase) : Cluster :=
  if phase = .exited then c.kill p
  else { c with procs := c.procs.set p { pr with phase := phase } }

/-- The next statement of a starting process. -/
def procStep (c : Cluster) (p : Nat) (pr : Proc) (ans : Answer) : Option Cluster :=
  if !pr.phase.starting then none
  else
    match ans with
    | .fail text => some (c.goTo p pr (pr.phase.onErr (.database text)))
    | .ok =>
      if pr.phase.usesSession && !pr.session || pr.phase.waits c.lock p then none
      else
        match pr.phase.statement c.clock c.toShared p with
        | .error text => some (c.goTo p pr (pr.phase.onErr (.database text)))
        | .ok (d, phase) => some ({ c with toShared := d }.goTo p pr phase)
    | .lost text =>
      if pr.phase.usesSession && !pr.session || pr.phase.waits c.lock p then none
      else
        match pr.phase.statement c.clock c.toShared p with
        | .error _ => none
        | .ok (d, _) =>
          some ({ c with toShared := d }.goTo p pr (pr.phase.onErr (.database text)))

/-- Process `p` serves requests. -/
def serves (c : Cluster) (p : Nat) : Bool := (c.procs[p]?).any fun pr => pr.phase == .serving

/-- An action of the service on the tables of the bank. -/
def bankStep (cfg : Config) (c : Cluster) (a : Act) : Option Cluster :=
  match c.bank with
  | none => none
  | some db =>
    (step cfg ⟨db, c.calls, c.clock⟩ a).map fun s =>
      { c with bank := some s.db, calls := s.calls, clock := s.clock }

/-- **One step of the cluster.** -/
def step (cfg : Config) (c : Cluster) : ClusterAct → Option Cluster
  | .boot => some { c with procs := c.procs ++ [⟨.ensureLock, true⟩] }
  | .proc p ans =>
    match c.procs[p]? with
    | none => none
    | some pr => c.procStep p pr ans
  | .disconnect p =>
    match c.procs[p]? with
    | none => none
    | some pr =>
      some { c with
        toShared := c.toShared.unlock p
        procs := c.procs.set p { pr with session := false } }
  | .crash p =>
    match c.procs[p]? with
    | none => none
    | some _ => some (c.kill p)
  | .arrive p r =>
    if c.serves p then
      (c.bankStep cfg (.arrive r)).map fun c => { c with owners := c.owners ++ [p] }
    else none
  | .arriveCreate p name =>
    if c.serves p then
      (c.bankStep cfg (.arriveCreate name)).map fun c => { c with owners := c.owners ++ [p] }
    else none
  | .call i ch => c.bankStep cfg (.call i ch)
  | .tick d => some { c with clock := c.clock + d }

/-- The runs of the cluster. -/
abbrev exec (cfg : Config) (c : Cluster) (acts : List ClusterAct) : Option Cluster :=
  Lib.run (step cfg) c acts

end Cluster

end BankingService
