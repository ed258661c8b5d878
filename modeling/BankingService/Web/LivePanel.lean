/-
  File:      BankingService/Web/LivePanel.lean
  Subject:   THE LEDGER ACTIVITY PANEL ON A SERVER THAT GOES ON WORKING: the panel of
             `Web/LedgerPanel.lean` next to the calls and reads of `Readers.lean`.

  A request of the panel is a read of the server: the handler parses the query and calls
  `ListTransactions`, whose statements run between the statements of everybody else. The response
  arrives at any time after the read has returned; a request can fail at any time.
-/
import BankingService.Web.LedgerPanel

namespace BankingService

/-- The server and the panel. A request in flight carries the number of its read. -/
structure Page where
  world : World
  allLedgerOffset : Nat
  rows : List Transaction
  loadMore : Bool
  inFlight : List (Fetch × Nat)
  last : Option Bool
  deriving DecidableEq, Repr

/-- The panel by itself. -/
def Page.panel (p : Page) : Panel :=
  ⟨p.allLedgerOffset, p.rows, p.loadMore, p.inFlight.map (·.1), p.last⟩

/-- Before the script has run: `fetchLedgerActivity(false)`, its last line, then does what the end
    of `refreshOpenHistory` does. -/
def Page.blank (w : World) : Page := ⟨w, 0, [], false, [], none⟩

/-- The query string of `fetchLedgerActivity`. -/
def ledgerQuery (offset : Nat) : ListQuery := ⟨Lib.natText allLedgerLimit, Lib.natText offset, []⟩

/-- `fetchLedgerActivity` up to its `await`, and the handler up to its call of the store. -/
def Page.fetch (cfg : Config) (p : Page) (f : Fetch) : Option Page :=
  match listAllTransactions (ledgerQuery f.offset) with
  -- no kind is asked for, so there is none to be refused
  | .error _ => none
  | .ok opts =>
    (worldStep cfg p.world (.read (.listTransactions opts))).map fun w =>
      { p with world := w, inFlight := p.inFlight ++ [(f, p.world.reads.length)] }

inductive PageAct where
  | world (a : WorldAct)
  | panel (a : PanelAct)
  deriving DecidableEq, Repr

/-- **One step of the server with the panel.** -/
def pageStep (cfg : Config) (p : Page) : PageAct → Option Page
  | .world a => (worldStep cfg p.world a).map fun w => { p with world := w }
  | .panel .loadMoreLedger =>
    if p.loadMore then
      let offset := p.allLedgerOffset + allLedgerLimit
      { p with allLedgerOffset := offset }.fetch cfg ⟨true, offset⟩
    else none
  | .panel .refreshOpenHistory =>
    { p with allLedgerOffset := 0, rows := [] }.fetch cfg ⟨false, 0⟩
  | .panel (.succeed i) =>
    match p.inFlight[i]? with
    | none => none
    | some (f, j) =>
      match (p.world.reads[j]?).bind (·.2.listResponse) with
      | some (.ok txns) =>
        some { p with
          rows := renderTransactions p.rows txns f.append
          loadMore := decide (allLedgerLimit ≤ txns.length)
          inFlight := p.inFlight.eraseIdx i
          last := some true }
      | _ => none
  | .panel (.fail i) =>
    match p.inFlight[i]? with
    | none => none
    | some _ => some { p with inFlight := p.inFlight.eraseIdx i, last := some false }

/-- The runs of the server with the panel. -/
abbrev pageExec (cfg : Config) (p : Page) (acts : List PageAct) : Option Page :=
  Lib.run (pageStep cfg) p acts

end BankingService
