/-
  File:      BankingService/Machine.lean
  Subject:   THE WHOLE SYSTEM: one database, any number of concurrent calls, one step of one call at
             a time.

  A state is the committed database, the calls that ever arrived (their index is their name), and
  the clock. `step` is partial: `none` means the action is not enabled, so a call whose statement is
  blocked by another call's transaction simply has no `ok` step. Every interleaving of the calls'
  statements is a list of actions (`Lib.run`); faults are actions too.

  `commitOf` labels the steps at which the server makes a call's writes visible; the labels of a run
  are its `history`, the commits in commit order.
-/
import BankingService.Lib.Run
import BankingService.Ledger.Service
import BankingService.Store.Migrations

namespace BankingService

/-! ## 1. `CreateAccount` -/

/-- The point `CreateAccount` has reached. -/
inductive CreatePhase where
  | newID
  | insert (id : UUID)
  | done (a : Account)
  | failed (e : Err)
  deriving DecidableEq, Repr

/-- One step of `CreateAccount`: its INSERT is a transaction of its own. -/
def createStep (db : Db) (name : GoString) : CreatePhase → Choice → Option (Db × CreatePhase)
  | .newID, .uuid u => some (db, .insert u)
  | .newID, .fail text => some (db, .failed (.wrapped "store.CreateAccount uuid" (.other text)))
  | .insert id, .ok =>
    match insertAccount db.toLedger id name with
    | .error e => some (db, .failed (.wrapped "store.CreateAccount" (.pg e)))
    | .ok L => some ({ db with toLedger := L }, .done (scanAccount ⟨id, name, 0, false⟩))
  | .insert _, .fail text => some (db, .failed (.wrapped "store.CreateAccount" (.other text)))
  | .insert id, .lostAck text =>
    match insertAccount db.toLedger id name with
    | .error _ => none
    | .ok L =>
      some ({ db with toLedger := L }, .failed (.wrapped "store.CreateAccount" (.other text)))
  | _, _ => none

/-! ## 2. States and actions -/

inductive Call where
  | request (r : Request) (phase : Phase)
  | createAccount (name : GoString) (phase : CreatePhase)
  deriving DecidableEq, Repr

/-- The open database transaction of a call. -/
def Call.tx? : Call → Option Tx
  | .request _ (.inTx _ tx _) => some tx
  | _ => none

structure St where
  db : Db
  calls : List Call
  clock : Time
  deriving DecidableEq, Repr

/-- The system at rest on a database. -/
def St.start (db : Db) (clock : Time) : St := ⟨db, [], clock⟩

@[simp] theorem St.start_db (db : Db) (clock : Time) : (St.start db clock).db = db := rfl

/-- The open transactions of the calls other than `i`. -/
def St.others (s : St) (i : Nat) : List Tx :=
  s.calls.zipIdx.filterMap fun (c, j) => if j = i then none else c.tx?

inductive Act where
  | arrive (r : Request)
  | arriveCreate (name : GoString)
  | tick (d : Nat)
  | call (i : Nat) (ch : Choice)
  deriving DecidableEq, Repr

/-- Call `i` takes its next step. -/
def callStep (cfg : Config) (s : St) (i : Nat) (ch : Choice) : Call → Option (Db × Call)
  | .request r p =>
    (requestStep cfg s.clock (s.others i) s.db r p ch).map fun (db, p) => (db, .request r p)
  | .createAccount name p =>
    (createStep s.db name p ch).map fun (db, p) => (db, .createAccount name p)

/-- **One step of the system.** -/
def step (cfg : Config) (s : St) : Act → Option St
  | .arrive r => some { s with calls := s.calls ++ [.request r r.start] }
  | .arriveCreate name => some { s with calls := s.calls ++ [.createAccount name .newID] }
  | .tick d => some { s with clock := s.clock + d }
  | .call i ch =>
    match s.calls[i]? with
    | none => none
    | some c =>
      (callStep cfg s i ch c).map fun (db, c) => { s with db := db, calls := s.calls.set i c }

/-- The runs of the system. -/
abbrev exec (cfg : Config) (s : St) (acts : List Act) : Option St := Lib.run (step cfg) s acts

/-- The actions of a run, each with the state it is taken in. -/
abbrev trace (cfg : Config) (s : St) (acts : List Act) : List (St × Act) :=
  Lib.steps (step cfg) s acts

/-! ## 3. Commits -/

/-- What the server chooses when a transaction commits: the header's id and `now()`, and the ids
    of its two entries. -/
structure Stamp where
  txID : UUID
  now : Time
  debitEntry : Nat
  creditEntry : Nat
  deriving DecidableEq, Repr

def Work.stamp (w : Work) (tx : Tx) : Stamp :=
  match tx.entries with
  | [d, c] => ⟨w.txn.id, tx.now, d.id, c.id⟩
  | _ => ⟨w.txn.id, tx.now, 0, 0⟩

theorem Work.stamp_txID (w : Work) (tx : Tx) : (w.stamp tx).txID = w.txn.id := by
  unfold Work.stamp
  split <;> rfl

/-- A committing call, as the request it was and the server's choices. -/
inductive Commit where
  | request (r : Request) (stamp : Stamp)
  | createAccount (id : UUID) (name : GoString)
  deriving DecidableEq, Repr

/-- The server executes the statement: COMMIT with or without an acknowledgement. -/
def Choice.executes : Choice → Bool
  | .ok => true
  | .lostAck _ => true
  | _ => false

/-- The commit an action performs, with the index of the call. -/
def commitOf (cfg : Config) (s : St) : Act → Option (Nat × Commit)
  | .call i ch =>
    match s.calls[i]? with
    | some (.request r (.inTx w tx .commit)) =>
      match ch.executes, commitTx cfg s.db tx with
      | true, .ok _ => some (i, .request r (w.stamp tx))
      | _, _ => none
    | some (.createAccount name (.insert id)) =>
      match ch.executes, insertAccount s.db.toLedger id name with
      | true, .ok _ => some (i, .createAccount id name)
      | _, _ => none
    | _ => none
  | _ => none

/-- The commits of a run, in commit order. -/
def history (cfg : Config) (s : St) (acts : List Act) : List (Nat × Commit) :=
  Lib.labels (step cfg) (commitOf cfg) s acts

/-! ## 4. Faults -/

/-- The store call succeeds and its answer arrives. -/
def Choice.healthy : Choice → Bool
  | .fail _ => false
  | .lostAck _ => false
  | _ => true

/-- No store call fails and no acknowledgement is lost. -/
def Act.healthy : Act → Bool
  | .call _ ch => ch.healthy
  | _ => true

/-- No fault hits call `i`. -/
def Act.healthyFor (i : Nat) : Act → Bool
  | .call j ch => j != i || ch.healthy
  | _ => true

/-- The acknowledgement of an executed COMMIT is lost. -/
def Act.losesAck : Act → Bool
  | .call _ (.lostAck _) => true
  | _ => false

/-! ## 5. A run -/

/-- The actions of one service call that meets no other: its lookup, for a reversal the two reads of
    the original, its new id, its transaction and its audit row. -/
def soloCall (i : Nat) (r : Request) (u : UUID) : List Act :=
  let reads := match r with
    | .reverse .. => 3
    | _ => 1
  .arrive r :: List.replicate reads (.call i .ok) ++ [.call i (.uuid u)] ++
    List.replicate 17 (.call i .ok)

/-- Alice sends Bob 2500 and the transfer is reversed. -/
def sampleRun : List Act :=
  soloCall 0 (.transfer aliceID bobID (Money.fromInt 2500) (bytes "pay-1") (bytes "req-1"))
      100#128 ++
    soloCall 1 (.reverse 100#128 (bytes "undo-1") (bytes "req-2")) 101#128

theorem sampleRun_isSome :
    (exec Config.migrated (St.start (Db.migrated 0) 1000) sampleRun).isSome = true := by
  decide +kernel

/-- The state the sample run ends in. -/
def sampleEnd : St :=
  (exec Config.migrated (St.start (Db.migrated 0) 1000) sampleRun).get sampleRun_isSome

theorem sampleRun_exec :
    exec Config.migrated (St.start (Db.migrated 0) 1000) sampleRun = some sampleEnd :=
  (Option.some_get sampleRun_isSome).symm

end BankingService
