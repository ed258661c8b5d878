/-
  File:      BankingService/Props/LivePanel.lean
  Subject:   THE PANEL MISSES NOTHING OF A LEDGER THAT GROWS.

  The pages of the panel are read one after the other, by their offset, while transactions go on
  being committed. A new transaction can come anywhere in the list, and moves what comes after it
  down: a row can be shown twice, but the pages to come never lose one. So a transaction that was
  committed before the panel was loaded is on one of the pages, or comes after all of them.

  * `Tracks`, `Tracks.step` -- one read of a page and one transaction;
  * `PageInv`, `pageInv_step` -- the invariant of a panel that is used with care;
  * **`panel_complete`** -- what is shown when no request is under way.
-/
import BankingService.Props.PanelPrefix
import BankingService.Props.Readers
import BankingService.Web.LivePanel

namespace BankingService

open Lib

/-! ## 1. One read -/

/-- The read of the page at an offset. -/
def ledgerRead (offset : Nat) : Read := .listTransactions ⟨allLedgerLimit, offset, none⟩

/-- The position of a transaction in the list of the panel. -/
def Ledger.position (L : Ledger) (row : TransactionRow) : Nat :=
  rank newestFirst L.transactions row

/-- The page `ids` from an offset on has the transaction, or it is full and the transaction comes
    later. -/
def Reaches (L : Ledger) (row : TransactionRow) (offset : Nat) (ids : List UUID) : Prop :=
  row.id ∈ ids ∨ (offset + allLedgerLimit ≤ L.position row ∧ allLedgerLimit ≤ ids.length)

/-- The same at each point of the read. -/
def Tracks (L : Ledger) (row : TransactionRow) (offset : Nat) : ReadPhase → Prop
  | .headers => offset ≤ L.position row
  | .entries done todo => Reaches L row offset ((done ++ todo).map Transaction.id)
  | .returned txns => Reaches L row offset (txns.map Transaction.id)
  | .failed _ => True

section Read

variable {L L' : Ledger} {row : TransactionRow} {offset : Nat} {ph ph' : ReadPhase}

theorem Ledger.Extends.position (he : L.Extends L') (hI : LedgerInv L) (row : TransactionRow) :
    L.position row ≤ L'.position row :=
  rank_mono hI.transactionIDs.of_map he.transaction row

theorem Reaches.mono (hle : L.position row ≤ L'.position row) {ids : List UUID}
    (h : Reaches L row offset ids) : Reaches L' row offset ids :=
  h.imp_right fun h => ⟨h.1.trans hle, h.2⟩

theorem Tracks.mono (hle : L.position row ≤ L'.position row) (h : Tracks L row offset ph) :
    Tracks L' row offset ph := by
  cases ph with
  | headers => exact Nat.le_trans h hle
  | entries done todo => exact Reaches.mono hle h
  | returned txns => exact Reaches.mono hle h
  | failed e => trivial

/-- The header query: the transaction is on the page, or it comes later. -/
theorem reaches_page (hI : LedgerInv L) (hrow : row ∈ L.transactions)
    (ho : offset ≤ L.position row) {rows : List TransactionRow}
    (h : listTransactions L ⟨allLedgerLimit, offset, none⟩ = .ok rows) :
    Reaches L row offset (rows.map TransactionRow.id) := by
  have hrows : page (L.transactions.insertionSort newestFirst) offset allLedgerLimit = rows := by
    rw [listTransactions, if_neg (Int.not_lt.mpr (Int.natCast_nonneg _)),
      if_neg (Int.not_lt.mpr (Int.natCast_nonneg _))] at h
    have hall : L.transactions.filter
        (fun t => (none : Option TransactionKind).all fun k => decide (t.kind = k)) =
          L.transactions :=
      List.filter_eq_self.mpr fun _ _ => rfl
    have h := Except.ok.inj h
    rw [hall] at h
    exact h
  have hpage := mem_page_or_later hI.transactionIDs.of_map (newestFirst_untied hI.transactionIDs)
    (ordered_insertionSort L.transactions) hrow ho allLedgerLimit
  rw [hrows] at hpage
  rcases hpage with hmem | ⟨hlater, hlen⟩
  · exact .inl (List.mem_map_of_mem hmem)
  · exact .inr ⟨hlater, by rw [List.length_map, hlen]⟩

/-- **A statement of the read.** -/
theorem Tracks.step (hI : LedgerInv L) (hrow : row ∈ L.transactions) {ch : ReadChoice}
    (hs : readStep L (ledgerRead offset) ph ch = some ph') (h : Tracks L row offset ph) :
    Tracks L row offset ph' := by
  cases ph with
  | headers =>
      cases ch with
      | ok =>
          simp only [readStep, ledgerRead, readHeaders] at hs
          split at hs
          · obtain rfl := Option.some.inj hs
            trivial
          · rename_i rows hrows
            obtain rfl := Option.some.inj hs
            have hids : ([] ++ rows.map scanTransaction).map Transaction.id =
                rows.map TransactionRow.id := by
              rw [List.nil_append, List.map_map]
              rfl
            show Reaches L row offset (([] ++ rows.map scanTransaction).map Transaction.id)
            rw [hids]
            exact reaches_page hI hrow h hrows
      | rows rows => cases hs
      | fail text =>
          obtain rfl := Option.some.inj hs
          trivial
  | entries done todo =>
      cases todo with
      | nil =>
          cases ch with
          | ok =>
              obtain rfl := Option.some.inj hs
              have h : Reaches L row offset ((done ++ []).map Transaction.id) := h
              rw [List.append_nil] at h
              exact h
          | rows rows => cases hs
          | fail text => cases hs
      | cons t todo =>
          cases ch with
          | ok =>
              obtain rfl := Option.some.inj hs
              -- the entries do not change which headers the page has
              have hids : ((done ++ [{ t with entries := listEntries L t.id }]) ++ todo).map
                  Transaction.id = (done ++ t :: todo).map Transaction.id := by
                simp only [List.map_append, List.map_cons, List.append_assoc, List.cons_append,
                  List.nil_append]
              show Reaches L row offset
                (((done ++ [{ t with entries := listEntries L t.id }]) ++ todo).map Transaction.id)
              rw [hids]
              exact h
          | rows rows => cases hs
          | fail text =>
              obtain rfl := Option.some.inj hs
              trivial
  | returned txns => cases ch <;> cases hs
  | failed e => cases ch <;> cases hs

end Read

/-! ## 2. The reads of the panel -/

section World

variable {cfg : Config} {w w' : World} {a : WorldAct}

/-- The tables only grow. -/
theorem worldStep_extends (hI : WorldInv cfg w) (h : worldStep cfg w a = some w') :
    w.sys.db.toLedger.Extends w'.sys.db.toLedger := by
  cases a with
  | sys a =>
      obtain ⟨s', hs, rfl⟩ := Option.map_eq_some_iff.mp h
      exact step_extends hI.sys hs
  | read q =>
      obtain rfl := Option.some.inj h
      exact Ledger.Extends.refl _
  | reader j ch =>
      simp only [worldStep] at h
      split at h
      · cases h
      · obtain ⟨ph, _, rfl⟩ := Option.map_eq_some_iff.mp h
        exact Ledger.Extends.refl _

/-- A read stays where it is, or takes a step on the tables of the moment. -/
theorem worldStep_read (h : worldStep cfg w a = some w') {j : Nat} {q : Read} {ph : ReadPhase}
    (hj : w.reads[j]? = some (q, ph)) :
    ∃ ph', w'.reads[j]? = some (q, ph') ∧
      (ph' = ph ∨ ∃ ch, readStep w.sys.db.toLedger q ph ch = some ph') := by
  cases a with
  | sys a =>
      obtain ⟨s', _, rfl⟩ := Option.map_eq_some_iff.mp h
      exact ⟨ph, hj, .inl rfl⟩
  | read q' =>
      obtain rfl := Option.some.inj h
      exact ⟨ph, List.getElem?_append_left (List.getElem?_eq_some_iff.mp hj).1 ▸ hj, .inl rfl⟩
  | reader k ch =>
      simp only [worldStep] at h
      split at h
      · cases h
      · rename_i q' ph₀ hk
        obtain ⟨ph', hs, rfl⟩ := Option.map_eq_some_iff.mp h
        by_cases e : k = j
        · subst e
          rw [hk] at hj
          obtain ⟨rfl, rfl⟩ := Prod.mk.inj (Option.some.inj hj)
          exact ⟨ph', List.getElem?_set_self (List.getElem?_eq_some_iff.mp hk).1, .inr ⟨ch, hs⟩⟩
        · exact ⟨ph, (List.getElem?_set_ne e).trans hj, .inl rfl⟩

/-- The read of a request in flight, as far as one transaction is concerned. -/
def Follows (w : World) (row : TransactionRow) (x : Fetch × Nat) : Prop :=
  ∃ ph, w.reads[x.2]? = some (ledgerRead x.1.offset, ph) ∧
    Tracks w.sys.db.toLedger row x.1.offset ph

theorem Follows.step (hI : WorldInv cfg w) (h : worldStep cfg w a = some w')
    {row : TransactionRow} (hrow : row ∈ w.sys.db.transactions) {x : Fetch × Nat}
    (hx : Follows w row x) : Follows w' row x := by
  obtain ⟨ph, hj, ht⟩ := hx
  obtain ⟨ph', hj', hph⟩ := worldStep_read h hj
  have hle := (worldStep_extends hI h).position hI.sys.ledger row
  rcases hph with rfl | ⟨ch, hs⟩
  · exact ⟨_, hj', ht.mono hle⟩
  · exact ⟨_, hj', (ht.step hI.sys.ledger hrow hs).mono hle⟩

/-- A new request. -/
theorem Follows.new {row : TransactionRow} {f : Fetch} (ho : f.offset ≤ w.sys.db.position row) :
    Follows { w with reads := w.reads ++ [(ledgerRead f.offset, .headers)] } row
      (f, w.reads.length) :=
  ⟨.headers, List.getElem?_concat_length, ho⟩

end World

/-! ## 3. The panel -/

/-- What holds of a page however it is used: the rows are whole transactions. -/
structure PageOk (cfg : Config) (p : Page) : Prop where
  world : WorldInv cfg p.world
  whole : ∀ t ∈ p.rows, Whole p.world.sys.db.toLedger t

/-- The panel has a row of the transaction. -/
def Shows (rows : List Transaction) (row : TransactionRow) : Prop :=
  row.id ∈ rows.map Transaction.id

/-- **The invariant of a panel that is used with care**, for a transaction that was committed
    before it was loaded: the requests in flight are all for the first page, or there is one, for
    the page that follows; and the transaction is shown or still to come. -/
structure PageInv (row : TransactionRow) (p : Page) : Prop where
  committed : row ∈ p.world.sys.db.transactions
  offset : p.allLedgerOffset < 2 ^ 53
  fetches : (p.allLedgerOffset = 0 ∧ ∀ x ∈ p.inFlight, x.1 = ⟨false, 0⟩ ∧ Follows p.world row x) ∨
    p.inFlight = [] ∨
    ∃ j, p.inFlight = [(⟨true, p.allLedgerOffset⟩, j)] ∧
      (Shows p.rows row ∨ Follows p.world row (⟨true, p.allLedgerOffset⟩, j))
  settled : p.inFlight = [] → p.last = some true →
    Shows p.rows row ∨
      (p.loadMore = true ∧ p.allLedgerOffset + allLedgerLimit ≤ p.world.sys.db.position row)

/-- The condition on a step: the panel is used with care. -/
def Page.Careful (p : Page) : PageAct → Prop
  | .world _ => True
  | .panel a => BankingService.Careful p.panel a

instance (p : Page) (a : PageAct) : Decidable (p.Careful a) :=
  match a with
  | .world _ => inferInstanceAs (Decidable True)
  | .panel a => inferInstanceAs (Decidable (BankingService.Careful p.panel a))

section Panel

variable {cfg : Config} {row : TransactionRow} {p p' : Page}

/-- A request that is issued. -/
theorem Page.fetch_eq {f : Fetch} (ho : f.offset < 2 ^ 53) :
    p.fetch cfg f = some { p with
      world := { p.world with reads := p.world.reads ++ [(ledgerRead f.offset, .headers)] }
      inFlight := p.inFlight ++ [(f, p.world.reads.length)] } := by
  have hdig : ∀ n, Digits (natText n) := fun n => ⟨natText_ne_nil n, fun _ => isDigit_natText⟩
  have hopts : listAllTransactions (ledgerQuery f.offset) =
      .ok ⟨allLedgerLimit, f.offset, none⟩ := by
    rw [ledgerQuery, show ([] : GoString) = kindParam none from rfl, listAllTransactions_kindParam,
      parseLimit_digits (hdig _) (digitsVal_natText _) (by decide),
      parseOffset_digits (hdig _) (digitsVal_natText _), if_pos (by decide), if_pos (by omega)]
    rfl
  rw [Page.fetch, hopts]
  rfl

/-- Whatever its offset, a request is a new read of the server. -/
theorem fetch_cases {f : Fetch} (h : p.fetch cfg f = some p') :
    ∃ q w, worldStep cfg p.world (.read q) = some w ∧
      p' = { p with world := w, inFlight := p.inFlight ++ [(f, p.world.reads.length)] } := by
  rw [Page.fetch] at h
  split at h
  · cases h
  · obtain ⟨w, hw, rfl⟩ := Option.map_eq_some_iff.mp h
    exact ⟨_, w, hw, rfl⟩

/-- A response: the request, and the transactions its read has returned. -/
theorem succeed_cases {i : Nat} (hs : pageStep cfg p (.panel (.succeed i)) = some p') :
    ∃ f j q txns, p.inFlight[i]? = some (f, j) ∧ p.world.reads[j]? = some (q, .returned txns) ∧
      p' = { p with
        rows := renderTransactions p.rows txns f.append
        loadMore := decide (allLedgerLimit ≤ txns.length)
        inFlight := p.inFlight.eraseIdx i
        last := some true } := by
  simp only [pageStep] at hs
  split at hs
  · cases hs
  · rename_i f j hi
    split at hs
    · rename_i txns hresp
      obtain ⟨⟨q, ph⟩, hj, hph⟩ := Option.bind_eq_some_iff.mp hresp
      obtain rfl := listResponse_ok.mp hph
      exact ⟨f, j, q, txns, hi, hj, (Option.some.inj hs).symm⟩
    · cases hs

/-- A request that fails. -/
theorem fail_cases {i : Nat} (hs : pageStep cfg p (.panel (.fail i)) = some p') :
    ∃ x, p.inFlight[i]? = some x ∧
      p' = { p with inFlight := p.inFlight.eraseIdx i, last := some false } := by
  simp only [pageStep] at hs
  split at hs
  · cases hs
  · rename_i x hi
    exact ⟨x, hi, (Option.some.inj hs).symm⟩

theorem pageOk_blank {w : World} (h : WorldInv cfg w) : PageOk cfg (Page.blank w) :=
  ⟨h, fun _ ht => absurd ht List.not_mem_nil⟩

/-- **The rows are whole transactions**, whatever the user does. -/
theorem pageOk_step {a : PageAct} (h : PageOk cfg p) (hs : pageStep cfg p a = some p') :
    PageOk cfg p' := by
  have hserver : ∀ {a : WorldAct} {w' : World}, worldStep cfg p.world a = some w' →
      WorldInv cfg w' ∧ ∀ t ∈ p.rows, Whole w'.sys.db.toLedger t := by
    intro a w' hw
    have hI := worldInv_step h.world hw
    exact ⟨hI, fun t ht =>
      (h.whole t ht).mono (worldStep_extends h.world hw) h.world.sys.ledger hI.sys.ledger⟩
  cases a with
  | world a =>
      obtain ⟨w', hw, rfl⟩ := Option.map_eq_some_iff.mp hs
      exact ⟨(hserver hw).1, (hserver hw).2⟩
  | panel a =>
      cases a with
      | loadMoreLedger =>
          simp only [pageStep] at hs
          split at hs
          · obtain ⟨q, w, hw, rfl⟩ := fetch_cases hs
            exact ⟨(hserver hw).1, (hserver hw).2⟩
          · cases hs
      | refreshOpenHistory =>
          simp only [pageStep] at hs
          obtain ⟨q, w, hw, rfl⟩ := fetch_cases hs
          exact ⟨(hserver hw).1, fun t ht => absurd ht List.not_mem_nil⟩
      | succeed i =>
          obtain ⟨f, j, q, txns, _, hj, rfl⟩ := succeed_cases hs
          refine ⟨h.world, fun t ht => ?_⟩
          rcases List.mem_append.mp ht with ht | ht
          · split at ht
            · exact h.whole t ht
            · exact absurd ht List.not_mem_nil
          · exact h.world.reads _ (List.mem_of_getElem? hj) t ht
      | fail i =>
          obtain ⟨_, _, rfl⟩ := fail_cases hs
          exact ⟨h.world, h.whole⟩

/-- A step of the server. -/
theorem PageInv.serverStep (hok : PageOk cfg p) (h : PageInv row p) {a : WorldAct} {w' : World}
    (hs : worldStep cfg p.world a = some w') : PageInv row { p with world := w' } where
  committed := (worldStep_extends hok.world hs).transaction row h.committed
  offset := h.offset
  fetches := by
    have keep : ∀ x, Follows p.world row x → Follows w' row x :=
      fun x hx => hx.step hok.world hs h.committed
    rcases h.fetches with ⟨h0, hall⟩ | hnone | ⟨j, hone, hrow⟩
    · exact .inl ⟨h0, fun x hx => ⟨(hall x hx).1, keep x (hall x hx).2⟩⟩
    · exact .inr (.inl hnone)
    · exact .inr (.inr ⟨j, hone, hrow.imp_right (keep _)⟩)
  settled hidle hlast := by
    have hle := (worldStep_extends hok.world hs).position hok.world.sys.ledger row
    exact (h.settled hidle hlast).imp_right fun hl => ⟨hl.1, hl.2.trans hle⟩

/-- Load more: the page that follows has the transaction, if the pages before do not. -/
theorem PageInv.loadMoreLedger (h : PageInv row p) (hC : p.Careful (.panel .loadMoreLedger))
    (hs : pageStep cfg p (.panel .loadMoreLedger) = some p') : PageInv row p' := by
  obtain ⟨hidle, hlast, hbound⟩ := hC
  have hidle : p.inFlight = [] := List.map_eq_nil_iff.mp hidle
  have hbound : p.allLedgerOffset + allLedgerLimit < 2 ^ 53 := hbound
  simp only [pageStep] at hs
  split at hs
  · rw [Page.fetch_eq hbound] at hs
    obtain rfl := Option.some.inj hs
    refine ⟨h.committed, hbound, .inr (.inr ⟨p.world.reads.length, ?_, ?_⟩), fun he => ?_⟩
    · simp only [hidle, List.nil_append]
    · rcases h.settled hidle hlast with hshown | ⟨_, hlater⟩
      · exact .inl hshown
      · exact .inr (Follows.new hlater)
    · exact absurd (List.append_eq_nil_iff.mp he).2 (List.cons_ne_nil _ _)
  · cases hs

/-- A reload: the first page has the transaction, or it comes later. -/
theorem PageInv.reload (hok : PageOk cfg p) (hrow : row ∈ p.world.sys.db.transactions)
    (hfirst : ∀ x ∈ p.inFlight, x.1 = ⟨false, 0⟩ ∧ Follows p.world row x)
    (hs : pageStep cfg p (.panel .refreshOpenHistory) = some p') : PageInv row p' := by
  simp only [pageStep] at hs
  rw [Page.fetch_eq (Nat.pow_pos (by decide))] at hs
  obtain rfl := Option.some.inj hs
  have hread : worldStep cfg p.world (.read (ledgerRead 0)) =
      some { p.world with reads := p.world.reads ++ [(ledgerRead 0, .headers)] } := rfl
  refine ⟨hrow, Nat.pow_pos (by decide),
    .inl ⟨rfl, forall_mem_snoc (fun x hx => ?_) ⟨rfl, Follows.new (Nat.zero_le _)⟩⟩, fun he => ?_⟩
  · exact ⟨(hfirst x hx).1, (hfirst x hx).2.step hok.world hread hrow⟩
  · exact absurd (List.append_eq_nil_iff.mp he).2 (List.cons_ne_nil _ _)

/-- The page a request was answered with has the transaction, or it is full and the transaction
    comes later. -/
theorem Follows.reaches {f : Fetch} {j : Nat} (h : Follows p.world row (f, j)) {q : Read}
    {txns : List Transaction} (hj : p.world.reads[j]? = some (q, .returned txns))
    (rows : List Transaction) :
    Shows (rows ++ txns) row ∨ (decide (allLedgerLimit ≤ txns.length) = true ∧
      f.offset + allLedgerLimit ≤ p.world.sys.db.position row) := by
  obtain ⟨ph, hj', ht⟩ := h
  rw [hj] at hj'
  obtain ⟨_, rfl⟩ := Prod.mk.inj (Option.some.inj hj')
  rcases ht with hmem | ⟨hlater, hlen⟩
  · rw [Shows, List.map_append]
    exact .inl (List.mem_append_right _ hmem)
  · rw [List.length_map] at hlen
    exact .inr ⟨decide_eq_true hlen, hlater⟩

/-- The only request in flight is answered or fails. -/
theorem eraseIdx_only {α : Type*} {l : List α} {x y : α} {i : Nat} (hl : l = [x])
    (hi : l[i]? = some y) : y = x ∧ l.eraseIdx i = [] := by
  subst hl
  obtain rfl : i = 0 := Nat.lt_one_iff.mp (List.getElem?_eq_some_iff.mp hi).1
  exact ⟨(Option.some.inj hi).symm, rfl⟩

/-- A response: the page is shown. -/
theorem PageInv.succeed (h : PageInv row p) {i : Nat}
    (hs : pageStep cfg p (.panel (.succeed i)) = some p') : PageInv row p' := by
  obtain ⟨f, j, q, txns, hi, hj, rfl⟩ := succeed_cases hs
  rcases h.fetches with ⟨h0, hall⟩ | hnone | ⟨j', hone, hrow⟩
  · obtain ⟨hf, hfollows⟩ := hall _ (List.mem_of_getElem? hi)
    have hf : f = ⟨false, 0⟩ := hf
    subst hf
    refine ⟨h.committed, h.offset,
      .inl ⟨h0, fun x hx => hall x (List.mem_of_mem_eraseIdx hx)⟩, fun _ _ => ?_⟩
    have := hfollows.reaches hj []
    rwa [← h0] at this
  · rw [hnone] at hi
    cases hi
  · obtain ⟨hx, herase⟩ := eraseIdx_only hone hi
    obtain ⟨rfl, rfl⟩ := Prod.mk.inj hx
    refine ⟨h.committed, h.offset, .inr (.inl herase), fun _ _ => ?_⟩
    rcases hrow with hshown | hfollows
    · refine .inl ?_
      rw [Shows] at hshown ⊢
      simp only [renderTransactions, if_true, List.map_append]
      exact List.mem_append_left _ hshown
    · exact hfollows.reaches hj p.rows

/-- A request that fails: what was shown stays, and the next step must be a reload. -/
theorem PageInv.fail (h : PageInv row p) {i : Nat}
    (hs : pageStep cfg p (.panel (.fail i)) = some p') : PageInv row p' := by
  obtain ⟨x, hi, rfl⟩ := fail_cases hs
  refine ⟨h.committed, h.offset, ?_, fun _ hlast => Bool.noConfusion (Option.some.inj hlast)⟩
  rcases h.fetches with ⟨h0, hall⟩ | hnone | ⟨j, hone, _⟩
  · exact .inl ⟨h0, fun x hx => hall x (List.mem_of_mem_eraseIdx hx)⟩
  · rw [hnone] at hi
    cases hi
  · exact .inr (.inl (eraseIdx_only hone hi).2)

/-- **Every careful step keeps the invariant.** -/
theorem pageInv_step {a : PageAct} (hC : p.Careful a) (hok : PageOk cfg p) (h : PageInv row p)
    (hs : pageStep cfg p a = some p') : PageInv row p' := by
  cases a with
  | world a =>
      obtain ⟨w', hw, rfl⟩ := Option.map_eq_some_iff.mp hs
      exact h.serverStep hok hw
  | panel a =>
      cases a with
      | loadMoreLedger => exact h.loadMoreLedger hC hs
      | refreshOpenHistory =>
          refine PageInv.reload hok h.committed (fun x hx => ?_) hs
          rcases h.fetches with ⟨_, hall⟩ | hnone | ⟨j, hone, _⟩
          · exact hall x hx
          · rw [hnone] at hx
            exact absurd hx List.not_mem_nil
          · -- a reload does not overtake a Load more
            have happend : (⟨true, p.allLedgerOffset⟩ : Fetch).append = false :=
              hC _ (List.mem_map_of_mem (hone ▸ List.mem_singleton_self _))
            exact Bool.noConfusion happend
      | succeed i => exact h.succeed hs
      | fail i => exact h.fail hs

/-- A row that is shown is the transaction as it stands in the tables. -/
theorem PageOk.row_of_shows (h : PageOk cfg p) (hrow : row ∈ p.world.sys.db.transactions)
    (hshown : Shows p.rows row) : p.world.sys.db.transactionOf row ∈ p.rows := by
  obtain ⟨t, ht, hid⟩ := List.mem_map.mp hshown
  have hsame : t = p.world.sys.db.transactionOf row :=
    (h.whole t ht).unique h.world.sys.ledger ⟨row, hrow, rfl⟩ hid
  exact hsame ▸ ht

end Panel

/-! ## 4. What is shown -/

/-- **Nothing that was committed is left out.** Let a page and a server run in any interleaving,
    with the panel idle at some moment and then reloaded. When later, the panel used with care
    since, no request is in flight and the last one succeeded, all the rows are whole transactions
    of the ledger, and each transaction that was committed when the panel was reloaded is a row, or
    Load more is offered and at least as many transactions as were asked for come before it. -/
theorem panel_complete {cfg : Config} {now clock : Time} {acts₀ acts : List PageAct} {p₀ p : Page}
    (h₀ : pageExec cfg (Page.blank (World.start (Db.migrated now) clock)) acts₀ = some p₀)
    (hidle : p₀.inFlight = [])
    (h : pageExec cfg p₀ (.panel .refreshOpenHistory :: acts) = some p)
    (hC : ∀ x ∈ steps (pageStep cfg) p₀ (.panel .refreshOpenHistory :: acts), x.1.Careful x.2)
    (hrest : p.inFlight = []) (hlast : p.last = some true) :
    (∀ t ∈ p.rows, ∃ row ∈ p.world.sys.db.transactions,
      t = p.world.sys.db.transactionOf row) ∧
    ∀ row ∈ p₀.world.sys.db.transactions,
      p.world.sys.db.transactionOf row ∈ p.rows ∨
        (p.loadMore = true ∧ p.allLedgerOffset + allLedgerLimit ≤ p.world.sys.db.position row) := by
  have hstep : ∀ q a q', PageOk cfg q → pageStep cfg q a = some q' → PageOk cfg q' :=
    fun _ _ _ hok hs => pageOk_step hok hs
  have hblank : PageOk cfg (Page.blank (World.start (Db.migrated now) clock)) :=
    pageOk_blank (worldInv_start (inv_start cfg now clock))
  have hok₀ : PageOk cfg p₀ := run_inv hstep hblank h₀
  have hok : PageOk cfg p := run_inv hstep hok₀ h
  obtain ⟨p₁, hload, hrun⟩ := Option.bind_eq_some_iff.mp h
  refine ⟨hok.whole, fun row hrow => ?_⟩
  -- from the reload on, the invariant holds for every transaction of that moment
  have h₁ : PageInv row p₁ :=
    PageInv.reload hok₀ hrow (fun x hx => absurd (hidle ▸ hx) List.not_mem_nil) hload
  have hinv : PageOk cfg p ∧ PageInv row p := by
    refine run_inv_steps (I := fun q => PageOk cfg q ∧ PageInv row q) (C := Page.Careful)
      (fun _ _ _ hC hI hs => ⟨pageOk_step hI.1 hs, pageInv_step hC hI.1 hI.2 hs⟩)
      ⟨pageOk_step hok₀ hload, h₁⟩ hrun fun x hx => hC x ?_
    rw [steps_cons hload]
    exact List.mem_cons_of_mem _ hx
  exact (hinv.2.settled hrest hlast).imp_left (hok.row_of_shows hinv.2.committed)

/-- A page of deposits. -/
def busyActs : List PageAct :=
  ((List.range 48).flatMap fun n =>
    soloCall n (.deposit aliceID (Money.fromInt 100) [UInt8.ofNat (65 + n)] (bytes "req-1"))
      (BitVec.ofNat 128 (100 + n))).map fun a => .world (.sys a)

/-- The panel is reloaded, Alice sends Bob 2500 between the two pages, and Load more is clicked. -/
def moreActs : List PageAct :=
  List.replicate 52 (.world (.reader 0 .ok)) ++ [.panel (.succeed 0)] ++
    (soloCall 48 (.transfer aliceID bobID (Money.fromInt 2500) (bytes "pay-1") (bytes "req-2"))
      200#128).map (fun a => .world (.sys a)) ++
    [.panel .loadMoreLedger] ++ List.replicate 4 (.world (.reader 1 .ok)) ++ [.panel (.succeed 0)]

/-- Both runs, and what the panel shows at the end: 50 rows of the first page and two of the second,
    of which one is a row of the first. -/
theorem moreActs_exec :
    ∃ p₀ p, pageExec Config.migrated (Page.blank (World.start (Db.migrated 0) 1000)) busyActs =
        some p₀ ∧
      pageExec Config.migrated p₀ (.panel .refreshOpenHistory :: moreActs) = some p ∧
      p₀.inFlight = [] ∧
      (∀ x ∈ steps (pageStep Config.migrated) p₀ (.panel .refreshOpenHistory :: moreActs),
        x.1.Careful x.2) ∧
      p.inFlight = [] ∧ p.last = some true ∧ p.loadMore = false ∧ p.rows.length = 52 ∧
      p.world.sys.db.transactions.length = 52 := by
  have hrun : ((pageExec Config.migrated (Page.blank (World.start (Db.migrated 0) 1000))
      busyActs).any fun p₀ =>
        (pageExec Config.migrated p₀ (.panel .refreshOpenHistory :: moreActs)).any fun p =>
          p₀.inFlight = [] ∧
          (∀ x ∈ steps (pageStep Config.migrated) p₀ (.panel .refreshOpenHistory :: moreActs),
            x.1.Careful x.2) ∧
          p.inFlight = [] ∧ p.last = some true ∧ p.loadMore = false ∧ p.rows.length = 52 ∧
          p.world.sys.db.transactions.length = 52) = true := by
    decide +kernel
  obtain ⟨p₀, h₀, hrun⟩ := (Option.any_eq_true _ _).mp hrun
  obtain ⟨p, h, hend⟩ := (Option.any_eq_true _ _).mp hrun
  exact ⟨p₀, p, h₀, h, of_decide_eq_true hend⟩

/-- Every transaction that was there at the reload is a row, on one page or the other. -/
theorem panel_complete_more :
    ∃ p₀ p, pageExec Config.migrated (Page.blank (World.start (Db.migrated 0) 1000)) busyActs =
        some p₀ ∧
      pageExec Config.migrated p₀ (.panel .refreshOpenHistory :: moreActs) = some p ∧
      (p.rows.length = 52 ∧ p.world.sys.db.transactions.length = 52) ∧
      ∀ row ∈ p₀.world.sys.db.transactions, p.world.sys.db.transactionOf row ∈ p.rows := by
  obtain ⟨p₀, p, h₀, h, hidle, hC, hrest, hlast, hmore, hlen⟩ := moreActs_exec
  refine ⟨p₀, p, h₀, h, hlen, fun row hrow => ?_⟩
  refine ((panel_complete h₀ hidle h hC hrest hlast).2 row hrow).resolve_right fun hoffered => ?_
  rw [hmore] at hoffered
  exact Bool.noConfusion hoffered.1

end BankingService
