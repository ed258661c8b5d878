/-
  File:      BankingService/Web/LedgerPanel.lean
  Subject:   THE LEDGER ACTIVITY PANEL of `web/app.js`: `fetchLedgerActivity`, `loadMoreLedger` and
             `refreshOpenHistory`, with requests that overlap, fail, and are answered in any order.

  The script runs to its next `await` without interruption. A step of the panel is such a stretch:
  from a click, or from the reset of `refreshOpenHistory`, to the `fetch`, and from the response of
  a request to the end of `fetchLedgerActivity`. A request carries the offset it was issued with and
  whether its rows will be appended; the tables on the server do not change.

  `allLedgerOffset` is a JavaScript number, exact below 2⁵³; here it is a natural number.
-/
import BankingService.Http.Listing

namespace BankingService

/-- `allLedgerLimit`. -/
def allLedgerLimit : Nat := 50

/-- A call of `fetchLedgerActivity` that waits for its response. -/
structure Fetch where
  append : Bool
  offset : Nat
  deriving DecidableEq, Repr

/-- The panel. `rows` are the rows of `all-txns-body`, `loadMore` says that
    `all-load-more-container` is not hidden, and `last` is the outcome of the fetch that was
    answered last. -/
structure Panel where
  allLedgerOffset : Nat
  rows : List Transaction
  loadMore : Bool
  inFlight : List Fetch
  last : Option Bool
  deriving DecidableEq, Repr

/-- After the script has run: the initial load is under way. -/
def Panel.start : Panel := ⟨0, [], false, [⟨false, 0⟩], none⟩

/-- `apiFetch` of the page at an offset; a response without status 200 throws. -/
def fetchPage (L : Ledger) (offset : Nat) : Option (List Transaction) :=
  match getTransactions L ⟨Lib.natText allLedgerLimit, Lib.natText offset, []⟩ with
  | .ok txns => some txns
  | _ => none

/-- `renderTransactions`, as far as the rows go. -/
def renderTransactions (rows txns : List Transaction) (append : Bool) : List Transaction :=
  (if append then rows else []) ++ txns

inductive PanelAct where
  | loadMoreLedger
  | refreshOpenHistory
  | succeed (i : Nat)
  | fail (i : Nat)
  deriving DecidableEq, Repr

/-- **One step of the panel.** -/
def panelStep (L : Ledger) (p : Panel) : PanelAct → Option Panel
  | .loadMoreLedger =>
    -- a hidden button cannot be clicked
    if p.loadMore then
      let offset := p.allLedgerOffset + allLedgerLimit
      some { p with allLedgerOffset := offset, inFlight := p.inFlight ++ [⟨true, offset⟩] }
    else none
  | .refreshOpenHistory =>
    some { p with allLedgerOffset := 0, rows := [], inFlight := p.inFlight ++ [⟨false, 0⟩] }
  | .succeed i =>
    match p.inFlight[i]? with
    | none => none
    | some f =>
      (fetchPage L f.offset).map fun txns =>
        { p with
          rows := renderTransactions p.rows txns f.append
          loadMore := decide (allLedgerLimit ≤ txns.length)
          inFlight := p.inFlight.eraseIdx i
          last := some true }
  | .fail i =>
    -- the rows, the offset and the button stay as they are
    match p.inFlight[i]? with
    | none => none
    | some _ => some { p with inFlight := p.inFlight.eraseIdx i, last := some false }

end BankingService
