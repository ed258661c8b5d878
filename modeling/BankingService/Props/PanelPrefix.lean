/-
  File:      BankingService/Props/PanelPrefix.lean
  Subject:   WHAT THE LEDGER ACTIVITY PANEL SHOWS: a beginning of the server's list, as long as it
             is used one request at a time.

  * `fetchPage_eq` -- the page a request is answered with;
  * `Careful` -- Load more is clicked when nothing is under way and the last fetch succeeded, and a
    refresh does not overtake a Load more;
  * `PanelOk` -- then the offset and the rows belong together (`panelOk_step`), and
    `panel_gapFree` -- the rows are a beginning of the list in every state;
  * `panel_gap` -- a Load more that fails has advanced the offset, and the next one leaves out a
    page.
-/
import BankingService.Props.Pagination
import BankingService.Web.LedgerPanel

namespace BankingService

open Lib

/-! ## 1. Pages -/

section Panel

variable {L : Ledger} {all : List TransactionRow}

/-- The page a request is answered with. -/
theorem fetchPage_eq (hpk : (L.transactions.map (·.id)).Nodup)
    (hall : Ordered newestFirst (L.ofKind none) all) {offset : Nat} (ho : offset < 2 ^ 53) :
    fetchPage L offset = some (page (all.map L.transactionOf) offset allLedgerLimit) := by
  have hdig : ∀ n, Digits (natText n) := fun n => ⟨natText_ne_nil n, fun _ => isDigit_natText⟩
  have hget := getTransactions_page hpk hall (hdig allLedgerLimit) (digitsVal_natText _) (by decide)
    (hdig offset) (digitsVal_natText offset)
  rw [if_pos (by omega), if_pos (by decide)] at hget
  have hq : getTransactions L ⟨natText allLedgerLimit, natText offset, []⟩ =
      .ok (page (all.map L.transactionOf) offset allLedgerLimit) := by
    rw [page, ← List.map_drop, ← List.map_take]
    exact hget
  simp only [fetchPage, hq]

/-! ## 2. Using the panel one request at a time -/

/-- The condition on a step: Load more is clicked when no request is in flight and the last fetch
    succeeded (and its offset is an exact number), and the panel is not refreshed while a Load more
    is in flight. -/
def Careful (p : Panel) : PanelAct → Prop
  | .loadMoreLedger =>
    p.inFlight = [] ∧ p.last = some true ∧ p.allLedgerOffset + allLedgerLimit < 2 ^ 53
  | .refreshOpenHistory => ∀ f ∈ p.inFlight, f.append = false
  | _ => True

instance (p : Panel) (a : PanelAct) : Decidable (Careful p a) :=
  match a with
  | .loadMoreLedger => inferInstanceAs (Decidable (_ ∧ _ ∧ _))
  | .refreshOpenHistory => inferInstanceAs (Decidable (∀ f ∈ p.inFlight, f.append = false))
  | .succeed _ => inferInstanceAs (Decidable True)
  | .fail _ => inferInstanceAs (Decidable True)

/-- **The invariant of a panel that is used with care**, for a server that has the list `txns`:
    the requests in flight are all for the first page, or there is one, for the page that follows
    the rows. -/
structure PanelOk (txns : List Transaction) (p : Panel) : Prop where
  shown : ∃ n, p.rows = txns.take n
  offset : p.allLedgerOffset < 2 ^ 53
  fetches : (p.allLedgerOffset = 0 ∧ ∀ f ∈ p.inFlight, f = ⟨false, 0⟩) ∨ p.inFlight = [] ∨
    (p.inFlight = [⟨true, p.allLedgerOffset⟩] ∧ p.rows = txns.take p.allLedgerOffset)
  settled : p.inFlight = [] → p.last = some true →
    p.rows = txns.take (p.allLedgerOffset + allLedgerLimit)

variable {p p' : Panel} {a : PanelAct}

theorem panelOk_start (txns : List Transaction) : PanelOk txns Panel.start :=
  ⟨⟨0, rfl⟩, by decide, .inl ⟨rfl, fun _ hf => List.mem_singleton.mp hf⟩, fun h => by cases h⟩

theorem panelOk_loadMore {txns : List Transaction} (hI : PanelOk txns p)
    (hC : Careful p .loadMoreLedger) (h : panelStep L p .loadMoreLedger = some p') :
    PanelOk txns p' := by
  obtain ⟨hidle, hlast, hbound⟩ := hC
  simp only [panelStep] at h
  split at h
  · cases h
    have hrows := hI.settled hidle hlast
    refine ⟨hI.shown, hbound, .inr (.inr ⟨?_, hrows⟩), fun he => ?_⟩
    · rw [hidle]
      rfl
    · exact absurd he (by simp)
  · cases h

theorem panelOk_refresh {txns : List Transaction} (hI : PanelOk txns p)
    (hC : Careful p .refreshOpenHistory) (h : panelStep L p .refreshOpenHistory = some p') :
    PanelOk txns p' := by
  cases h
  have hfirst : ∀ f ∈ p.inFlight, f = ⟨false, 0⟩ := by
    intro f hf
    rcases hI.fetches with ⟨_, hall⟩ | hnone | ⟨hone, _⟩
    · exact hall f hf
    · rw [hnone] at hf
      cases hf
    · rw [hone] at hf
      have happ := hC f (hone ▸ hf)
      rw [List.mem_singleton.mp hf] at happ
      cases happ
  refine ⟨⟨0, rfl⟩, Nat.two_pow_pos 53, .inl ⟨rfl, fun f hf => ?_⟩, fun he => ?_⟩
  · rcases List.mem_append.mp hf with hf | hf
    · exact hfirst f hf
    · exact List.mem_singleton.mp hf
  · exact absurd he (by simp)

/-- The response to the only request in flight. -/
theorem only_request {f g : Fetch} {i : Nat} (h : [f][i]? = some g) : i = 0 ∧ g = f := by
  cases i with
  | zero => exact ⟨rfl, (Option.some.inj h).symm⟩
  | succ i => cases h

theorem panelOk_succeed (hpk : (L.transactions.map (·.id)).Nodup)
    (hall : Ordered newestFirst (L.ofKind none) all) (hI : PanelOk (all.map L.transactionOf) p)
    {i : Nat} (h : panelStep L p (.succeed i) = some p') :
    PanelOk (all.map L.transactionOf) p' := by
  simp only [panelStep] at h
  split at h
  · cases h
  · rename_i f hf
    have hmem := List.mem_of_getElem? hf
    obtain ⟨txns, hpage, rfl⟩ := Option.map_eq_some_iff.mp h
    rcases hI.fetches with ⟨hzero, hfirst⟩ | hnone | ⟨hone, hrows⟩
    · -- the first page, shown in place of the rows
      obtain rfl := hfirst f hmem
      rw [fetchPage_eq hpk hall (by decide)] at hpage
      cases hpage
      refine ⟨⟨allLedgerLimit, rfl⟩, hI.offset,
        .inl ⟨hzero, fun f' hf' => hfirst f' (List.mem_of_mem_eraseIdx hf')⟩, fun _ _ => ?_⟩
      rw [hzero, Nat.zero_add]
      rfl
    · rw [hnone] at hmem
      cases hmem
    · -- the page that follows the rows
      rw [hone] at hf
      obtain ⟨hi, rfl⟩ := only_request hf
      rw [fetchPage_eq hpk hall hI.offset] at hpage
      cases hpage
      have hshown : renderTransactions p.rows
          (page (all.map L.transactionOf) p.allLedgerOffset allLedgerLimit) true =
            (all.map L.transactionOf).take (p.allLedgerOffset + allLedgerLimit) := by
        rw [← take_append_page, ← hrows]
        rfl
      refine ⟨⟨_, hshown⟩, hI.offset, .inr (.inl ?_), fun _ _ => hshown⟩
      rw [hone, hi]
      rfl

theorem panelOk_fail {txns : List Transaction} (hI : PanelOk txns p) {i : Nat}
    (h : panelStep L p (.fail i) = some p') : PanelOk txns p' := by
  simp only [panelStep] at h
  split at h
  · cases h
  · rename_i f hf
    cases h
    refine ⟨hI.shown, hI.offset, ?_, fun _ hlast => by cases hlast⟩
    rcases hI.fetches with ⟨hzero, hfirst⟩ | hnone | ⟨hone, _⟩
    · exact .inl ⟨hzero, fun f' hf' => hfirst f' (List.mem_of_mem_eraseIdx hf')⟩
    · rw [hnone] at hf
      cases hf
    · rw [hone] at hf
      obtain ⟨hi, _⟩ := only_request hf
      refine .inr (.inl ?_)
      rw [hone, hi]
      rfl

/-- **A careful step keeps the offset and the rows together.** -/
theorem panelOk_step (hpk : (L.transactions.map (·.id)).Nodup)
    (hall : Ordered newestFirst (L.ofKind none) all) (hC : Careful p a)
    (hI : PanelOk (all.map L.transactionOf) p) (h : panelStep L p a = some p') :
    PanelOk (all.map L.transactionOf) p' := by
  cases a with
  | loadMoreLedger => exact panelOk_loadMore hI hC h
  | refreshOpenHistory => exact panelOk_refresh hI hC h
  | succeed i => exact panelOk_succeed hpk hall hI h
  | fail i => exact panelOk_fail hI h

end Panel

/-! ## 3. What is shown -/

/-- **The panel shows a beginning of the list.** Let `all` be the transactions by `created_at` and
    then `id`, newest first, in tables that do not change. In every run of the panel whose steps are
    all careful, whatever fails and in whatever order the responses arrive, the rows are a beginning
    of the list, and when no request is in flight and the last one succeeded, they are the pages up
    to the offset. -/
theorem panel_gapFree (L : Ledger) (hpk : (L.transactions.map (·.id)).Nodup)
    (all : List TransactionRow) (hall : Ordered newestFirst L.transactions all)
    {acts : List PanelAct} {p : Panel} (h : run (panelStep L) Panel.start acts = some p)
    (hC : ∀ x ∈ steps (panelStep L) Panel.start acts, Careful x.1 x.2) :
    p.rows <+: all.map L.transactionOf ∧
      (p.inFlight = [] → p.last = some true →
        p.rows = (all.map L.transactionOf).take (p.allLedgerOffset + allLedgerLimit)) := by
  have hkind : L.ofKind none = L.transactions := List.filter_eq_self.mpr fun _ _ => rfl
  rw [← hkind] at hall
  have hI := run_inv_steps (fun _ _ _ hC hI hs => panelOk_step hpk hall hC hI hs)
    (panelOk_start (all.map L.transactionOf)) h hC
  obtain ⟨n, hn⟩ := hI.shown
  exact ⟨hn ▸ List.take_prefix .., hI.settled⟩

/-- A ledger with 150 headers, newest first. -/
def longLedger : Ledger :=
  ⟨[], (List.range 150).reverse.map fun n =>
    ⟨BitVec.ofNat 128 n, .deposit, natText n, none, n⟩, []⟩

/-- The initial load, a Load more that fails, a refresh, and a Load more that succeeds. -/
def recoveredRun : List PanelAct :=
  [.succeed 0, .loadMoreLedger, .fail 0, .refreshOpenHistory, .succeed 0, .loadMoreLedger,
    .succeed 0]

theorem recoveredRun_isSome :
    (run (panelStep longLedger) Panel.start recoveredRun).isSome = true := by
  decide +kernel

def recoveredEnd : Panel :=
  (run (panelStep longLedger) Panel.start recoveredRun).get recoveredRun_isSome

theorem recoveredRun_exec :
    run (panelStep longLedger) Panel.start recoveredRun = some recoveredEnd :=
  (Option.some_get recoveredRun_isSome).symm

/-- The first 100 rows are shown. -/
theorem panel_gapFree_recovered :
    recoveredEnd.rows <+:
        (longLedger.transactions.insertionSort newestFirst).map longLedger.transactionOf ∧
      recoveredEnd.rows.length = 100 :=
  ⟨(panel_gapFree longLedger (by decide +kernel) _ (ordered_insertionSort _) recoveredRun_exec
    (by decide +kernel)).1, by decide +kernel⟩

/-- The initial load, a Load more that fails, and one that succeeds. -/
def gapRun : List PanelAct := [.succeed 0, .loadMoreLedger, .fail 0, .loadMoreLedger, .succeed 0]

/-- **A page is missing.** The Load more that failed has advanced the offset to 50, so the next one
    asks for the rows from 100 on: the rows 50 to 99 are not shown, and nothing is in flight. -/
theorem panel_gap :
    ∃ p, run (panelStep longLedger) Panel.start gapRun = some p ∧ p.inFlight = [] ∧
      p.last = some true ∧
      p.rows =
        ((longLedger.transactions.take 50 ++ longLedger.transactions.drop 100).map
          longLedger.transactionOf) ∧
      Ordered newestFirst longLedger.transactions longLedger.transactions ∧
      ¬p.rows <+: longLedger.transactions.map longLedger.transactionOf := by
  have hrun : run (panelStep longLedger) Panel.start gapRun = some
      ⟨100, (longLedger.transactions.take 50 ++ longLedger.transactions.drop 100).map
        longLedger.transactionOf, true, [], some true⟩ := by
    decide +kernel
  have hsorted : longLedger.transactions.Pairwise newestFirst := by
    decide +kernel
  refine ⟨_, hrun, rfl, rfl, rfl, ⟨List.Perm.refl _, hsorted⟩, ?_⟩
  decide +kernel

end BankingService
