/-
  File:      BankingService/Server/Ids.lean
  Subject:   A PROCESS AND ITS IDS: the calls of the machine with `uuid.NewV7` in place of an id from
             outside.

  Every id of an account or a transaction is made by `NewV7`, from one `lastV7time` per process.
  `resolveRequestID` draws on the same number when a request has no `X-Request-ID`. The clock of
  the process and the random bits are up to the environment; they need not be the server's `now()`.
-/
import BankingService.Machine
import BankingService.Uuid.Version7

namespace BankingService

/-- A process: its calls and the state of its id generator. -/
structure Node where
  sys : St
  lastV7time : Int
  deriving DecidableEq, Repr

def Node.start (db : Db) (clock : Time) : Node := ⟨St.start db clock, 0⟩

@[simp] theorem Node.start_sys (db : Db) (clock : Time) :
    (Node.start db clock).sys = St.start db clock := rfl

inductive NodeAct where
  | act (a : Act)
  /-- Call `i` makes its id. -/
  | newV7 (i : Nat) (bits : BitVec 128) (nano : Int)
  /-- A handler makes a request id. -/
  | requestID (bits : BitVec 128) (nano : Int)
  deriving DecidableEq, Repr

/-- The action of the machine, `none` where a handler alone does something. -/
def Node.label (n : Node) : NodeAct → Option Act
  | .act a => some a
  | .newV7 i bits nano => some (.call i (.uuid (newV7 bits nano n.lastV7time).1))
  | .requestID _ _ => none

/-- **One step of a process.** An id comes from the generator only. -/
def nodeStep (cfg : Config) (n : Node) : NodeAct → Option Node
  | .act (.call _ (.uuid _)) => none
  | .act a => (step cfg n.sys a).map fun s => { n with sys := s }
  | .newV7 i bits nano =>
    let (u, last) := newV7 bits nano n.lastV7time
    (step cfg n.sys (.call i (.uuid u))).map fun s => ⟨s, last⟩
  | .requestID bits nano => some { n with lastV7time := (newV7 bits nano n.lastV7time).2 }

/-- The runs of a process. -/
abbrev nodeExec (cfg : Config) (n : Node) (acts : List NodeAct) : Option Node :=
  Lib.run (nodeStep cfg) n acts

/-- The run of the machine a run of the process is. -/
def Node.machine (cfg : Config) (n : Node) (acts : List NodeAct) : List Act :=
  Lib.labels (nodeStep cfg) Node.label n acts

/-- The milliseconds in the ids of the seed deposits (`01900000-0000-7000-…`), in June 2024. -/
def seedTime : Int := 0x019000000000

/-- The clock of the process, if it is read, is past this millisecond. -/
def NodeAct.afterSeeds : NodeAct → Bool
  | .act _ => true
  | .newV7 _ _ nano | .requestID _ nano => (seedTime + 1) * nanoPerMilli ≤ nano

/-- No fault hits call `i`. -/
def NodeAct.healthyFor (i : Nat) : NodeAct → Bool
  | .act a => a.healthyFor i
  | _ => true

end BankingService
