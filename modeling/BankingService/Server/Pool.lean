/-
  File:      BankingService/Server/Pool.lean
  Subject:   THE CONNECTION POOL of a process: `pgxpool` as `internal/store` uses it, under the calls
             of the service and the reads next to them.

  The pool hands out at most `maxConns` connections; `Acquire` waits while none is free. A statement
  outside a transaction (`pool.QueryRow`, `pool.Query`, `pool.Exec`) takes a connection and gives it
  back at its end: at `Scan`, at `rows.Close`, at the return of `Exec`. The two list functions close
  the rows of their header query before the first `listEntries`. `BeginTx` keeps its connection until
  `Commit` or the deferred `Rollback`. So a client holds at most one connection, from its `Acquire`
  to the end of its statement or of its transaction.

  A store call may fail before it has a connection (`Acquire` returns an error when the context of
  the request ends).
-/
import BankingService.Readers

namespace BankingService

/-! ## 1. Who uses a connection -/

/-- A goroutine that runs a handler: with a call of the service or of `CreateAccount`, or a read. -/
inductive Client where
  | call (i : Nat)
  | reader (j : Nat)
  deriving DecidableEq, Repr

/-- What a client is at. -/
inductive Task where
  | call (c : Call)
  | read (q : Read) (p : ReadPhase)
  deriving DecidableEq, Repr

def World.task? (w : World) : Client → Option Task
  | .call i => (w.sys.calls[i]?).map .call
  | .reader j => (w.reads[j]?).map fun (q, p) => .read q p

/-- The next step of a service method goes to the database. -/
def Phase.needsConn : Phase → Bool
  | .newID _ => false
  | .done _ => false
  | _ => true

def CreatePhase.needsConn : CreatePhase → Bool
  | .insert _ => true
  | _ => false

def ReadPhase.needsConn : ReadPhase → Bool
  | .headers => true
  | .entries _ (_ :: _) => true
  | _ => false

def Task.needsConn : Task → Bool
  | .call (.request _ p) => p.needsConn
  | .call (.createAccount _ p) => p.needsConn
  | .read _ p => p.needsConn

/-- The client is between `BeginTx` and the end of its transaction. -/
def Task.keepsConn : Task → Bool
  | .call c => c.tx?.isSome
  | .read _ _ => false

/-! ## 2. The pool -/

/-- The system with readers, and the clients that hold a connection. -/
structure Pool where
  world : World
  conns : List Client
  deriving DecidableEq, Repr

def Pool.start (db : Db) (clock : Time) : Pool := ⟨World.start db clock, []⟩

@[simp] theorem Pool.start_world (db : Db) (clock : Time) :
    (Pool.start db clock).world = World.start db clock := rfl

inductive PoolAct where
  | acquire (c : Client)
  | act (a : WorldAct)
  deriving DecidableEq, Repr

/-- The client that takes a step, `none` for an arrival and for the clock. -/
def WorldAct.client : WorldAct → Option Client
  | .sys (.call i _) => some (.call i)
  | .reader j _ => some (.reader j)
  | _ => none

/-- The store call fails. -/
def WorldAct.fails : WorldAct → Bool
  | .sys (.call _ (.fail _)) => true
  | .reader _ (.fail _) => true
  | _ => false

/-- The client may take its step: it needs no connection, it has one, or the step is the failure to
    get one. -/
def Pool.mayStep (p : Pool) (c : Client) (a : WorldAct) : Bool :=
  !(p.world.task? c).any Task.needsConn || p.conns.contains c || a.fails

/-- **One step of the system on a pool of `maxConns` connections.** -/
def poolStep (cfg : Config) (maxConns : Nat) (p : Pool) : PoolAct → Option Pool
  | .acquire c =>
    if (p.world.task? c).any Task.needsConn && !p.conns.contains c && p.conns.length < maxConns then
      some { p with conns := p.conns ++ [c] }
    else none
  | .act a =>
    match a.client with
    | none => (worldStep cfg p.world a).map fun w => { p with world := w }
    | some c =>
      if p.mayStep c a then
        (worldStep cfg p.world a).map fun w =>
          -- the connection goes back unless a transaction is open
          ⟨w, if (w.task? c).any Task.keepsConn then p.conns else p.conns.filter (· ≠ c)⟩
      else none

/-- The runs of the system on a pool. -/
abbrev poolExec (cfg : Config) (maxConns : Nat) (p : Pool) (acts : List PoolAct) : Option Pool :=
  Lib.run (poolStep cfg maxConns) p acts

/-- The action of the system without the pool. -/
def PoolAct.world? : PoolAct → Option WorldAct
  | .acquire _ => none
  | .act a => some a

/-- A client does something: it gets a connection or takes a step. -/
def PoolAct.works : PoolAct → Bool
  | .acquire _ => true
  | .act a => a.client.isSome

/-- No store call fails and no acknowledgement is lost. -/
def PoolAct.healthy : PoolAct → Bool
  | .act (.sys a) => a.healthy
  | .act (.reader _ (.fail _)) => false
  | _ => true

end BankingService
