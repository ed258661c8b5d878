/-
  File:      BankingService/Client/LoadTest.lean
  Subject:   `cmd/loadtest/main.go`: workers that post transfers to and fro between two accounts, and
             the check that the two hold together what they held before.

  The program and the server run next to each other: an action is a step of the server, which serves
  anybody, or a step of the load test. A request that the handler lets through becomes a call of the
  server (`posted`); the worker waits for its response, or gives up on it, and then the call goes
  on by itself. The reads of the balances are two requests each time, so not of one moment. Each
  request is sent once: the replay of a request whose connection breaks is not modelled.

  The flags are printable text without quotes or backslashes, for which `%q` adds the quotes and
  nothing else.
-/
import BankingService.Http.Accounts

namespace BankingService

/-! ## 1. Requests -/

/-- The flags of `main`. -/
structure LoadFlags where
  workers : Nat
  iters : Nat
  amount : GoString
  src : GoString
  dst : GoString
  deriving DecidableEq, Repr

/-- `getBalance` from its response on; `none` is an error. -/
def decodeBalance (resp : Response) : Option Decimal :=
  if resp.status ≠ 200 then none
  else
    match resp.body with
    | .account a => (Decimal.newFromString a.balance.string).toOption
    | _ => none

/-- `getBalance`: the request, answered as the server chooses. -/
def getBalance (L : Ledger) (id : GoString) (ch : AccountsChoice) : Option (Option Decimal) :=
  (getAccountByID L id ch).map decodeBalance

/-- The canonical text of a UUID can stand in a header. -/
theorem headerValue_text (u : UUID) : headerValue u.text = true := by
  have hdigit : ∀ n < 16, 32 ≤ hexDigit n ∧ hexDigit n ≠ 127 := by decide
  have hhex : ∀ i n b, b ∈ (List.range n).map
      (fun k => hexDigit (u.toNat / 16 ^ (31 - (i + k)) % 16)) → 32 ≤ b ∧ b ≠ 127 := by
    intro i n b hb
    obtain ⟨k, _, rfl⟩ := List.mem_map.mp hb
    exact hdigit _ (Nat.mod_lt _ (by decide))
  have hall : ∀ b ∈ u.text, 32 ≤ b ∧ b ≠ 127 := by
    intro b hb
    simp only [UUID.text, List.mem_append, List.mem_singleton] at hb
    rcases hb with (((((((hb | rfl) | hb) | rfl) | hb) | rfl) | hb) | rfl) | hb
    all_goals first | exact hhex _ _ _ hb | decide
  refine List.all_eq_true.mpr fun b hb => ?_
  obtain ⟨hlo, hne⟩ := hall b hb
  simp [hlo, hne]

/-- The request of `postTransfer`. It has no `X-Request-ID`. -/
def transferPost (source dest amount : GoString) (idemKey : UUID) : Post :=
  .transfers ⟨idemKey.text, [], headerValue_text idemKey, rfl⟩
    (some ⟨source, dest, some (34 :: (amount ++ [34]))⟩)

/-- `postTransfer` from its response on: the error code, empty for a success. -/
def errCode (resp : Response) : String :=
  if resp.status = 201 then ""
  else
    match resp.body with
    | .error code _ => code
    | _ => ""

/-! ## 2. States -/

inductive WorkerState where
  | idle
  | waiting (call : Nat)
  | returned
  deriving DecidableEq, Repr

/-- A worker in the loop of `worker`. -/
structure LoadWorker where
  i : Nat
  state : WorkerState
  deriving DecidableEq, Repr

/-- The point `main` has reached. -/
inductive LoadPhase where
  | startSrc
  | startDst (startSrc : Decimal)
  | running (startTotal : Decimal)
  | endSrc (startTotal : Decimal)
  | endDst (startTotal endSrc : Decimal)
  | summary (startTotal endTotal : Decimal)
  | failed
  deriving DecidableEq, Repr

/-- The server and the load test: `out` is the channel of the results, `posted` the calls its
    requests have become. -/
structure LoadTest where
  sys : St
  phase : LoadPhase
  workers : List LoadWorker
  out : List String
  posted : List Nat
  deriving DecidableEq, Repr

def LoadTest.start (flags : LoadFlags) (sys : St) : LoadTest :=
  ⟨sys, .startSrc, List.replicate flags.workers ⟨0, .idle⟩, [], []⟩

/-! ## 3. Steps -/

inductive LoadAct where
  | sys (a : Act)
  /-- A request of `main` for a balance, or its failure on the way. -/
  | get (ch : AccountsChoice)
  | getFails
  /-- Worker `w` posts; `gen` is the request id the server makes. -/
  | post (w : Nat) (idemKey gen : UUID)
  | reply (w : Nat)
  | httpError (w : Nat)
  /-- Worker `w` is through, or its context is done. -/
  | quit (w : Nat)
  /-- `wg.Wait` and `close(ch)`. -/
  | close
  deriving DecidableEq, Repr

/-- The next request of `main` for a balance: the account, and what its value leads to. -/
def LoadPhase.next (flags : LoadFlags) : LoadPhase → Option (GoString × (Decimal → LoadPhase))
  | .startSrc => some (flags.src, .startDst)
  | .startDst x => some (flags.dst, fun d => .running (x.add d))
  | .endSrc startTotal => some (flags.src, .endDst startTotal)
  | .endDst startTotal x => some (flags.dst, fun d => .summary startTotal (x.add d))
  | _ => none

/-- Worker `w` sends its result and goes on. -/
def LoadTest.result (t : LoadTest) (w i : Nat) (code : String) : LoadTest :=
  { t with workers := t.workers.set w ⟨i + 1, .idle⟩, out := t.out ++ [code] }

/-- The accounts of an iteration. -/
def LoadFlags.direction (flags : LoadFlags) (i : Nat) : GoString × GoString :=
  if i % 2 = 1 then (flags.dst, flags.src) else (flags.src, flags.dst)

def isRunning : LoadPhase → Bool
  | .running _ => true
  | _ => false

/-- **One step of the server with the load test.** -/
def loadStep (cfg : Config) (flags : LoadFlags) (t : LoadTest) : LoadAct → Option LoadTest
  | .sys a => (step cfg t.sys a).map fun s => { t with sys := s }
  | .get ch =>
    match t.phase.next flags with
    | none => none
    | some (id, k) => (getBalance t.sys.db.toLedger id ch).map fun
      | none => { t with phase := .failed }
      | some d => { t with phase := k d }
  | .getFails =>
    match t.phase.next flags with
    | none => none
    | some _ => some { t with phase := .failed }
  | .post w idemKey gen =>
    match isRunning t.phase, t.workers[w]? with
    | true, some ⟨i, .idle⟩ =>
      if i < flags.iters then
        let (source, dest) := flags.direction i
        match (transferPost source dest flags.amount idemKey).handle gen with
        | .error resp => some (t.result w i (errCode resp))
        | .ok a => (step cfg t.sys a).map fun s =>
            { t with
              sys := s, workers := t.workers.set w ⟨i, .waiting t.sys.calls.length⟩,
              posted := t.posted ++ [t.sys.calls.length] }
      else none
    | _, _ => none
  | .reply w =>
    match t.workers[w]? with
    | some ⟨i, .waiting call⟩ =>
      (t.sys.calls[call]?.bind Call.response).map fun resp => t.result w i (errCode resp)
    | _ => none
  | .httpError w =>
    match isRunning t.phase, t.workers[w]? with
    | true, some ⟨i, .idle⟩ => if i < flags.iters then some (t.result w i "http_error") else none
    | true, some ⟨i, .waiting _⟩ => some (t.result w i "http_error")
    | _, _ => none
  | .quit w =>
    match isRunning t.phase, t.workers[w]? with
    | true, some ⟨i, .idle⟩ => some { t with workers := t.workers.set w ⟨i, .returned⟩ }
    | _, _ => none
  | .close =>
    match t.phase with
    | .running startTotal =>
      if t.workers.all fun wk => wk.state == .returned then
        some { t with phase := .endSrc startTotal }
      else none
    | _ => none

/-- The runs of the server with the load test. -/
abbrev loadExec (cfg : Config) (flags : LoadFlags) (t : LoadTest) (acts : List LoadAct) :
    Option LoadTest :=
  Lib.run (loadStep cfg flags) t acts

/-! ## 4. The summary -/

/-- `startTotal.Equal(endTotal)`. -/
def invariantOK (startTotal endTotal : Decimal) : Bool := startTotal.cmp endTotal == .eq

/-- The exit code of `main` after the summary. -/
def LoadTest.exitCode (t : LoadTest) : Option Nat :=
  match t.phase with
  | .summary startTotal endTotal =>
    some (if invariantOK startTotal endTotal && t.out.all (· == "") then 0 else 1)
  | .failed => some 1
  | _ => none

end BankingService
