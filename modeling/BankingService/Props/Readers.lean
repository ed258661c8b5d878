/-
  File:      BankingService/Props/Readers.lean
  Subject:   WHAT READERS SEE: every transaction a read returns is whole, and it is the same in
             every read.

  A header that one statement has read is committed, and with it its two legs; neither changes
  again (`Ledger.Extends`). So the entries query of a later statement, on whatever snapshot, finds
  exactly the legs of the header.

  * `ReadOk` -- the invariant of one read on the committed tables; `readStep_ok` -- its statements
    keep it; `ReadOk.mono` -- the commits of other calls keep it.
  * `reads_whole` -- what every read has returned, in every reachable state.
-/
import BankingService.Proof.Track
import BankingService.Readers

namespace BankingService

open Lib

/-! ## 1. One read -/

/-- The header of a transaction is committed. -/
def Committed (L : Ledger) (t : Transaction) : Prop :=
  ∃ row ∈ L.transactions, t = scanTransaction row

/-- A transaction as it stands in the tables, with the entries of its header. -/
def Whole (L : Ledger) (t : Transaction) : Prop :=
  ∃ row ∈ L.transactions, t = { scanTransaction row with entries := listEntries L row.id }

/-- **The invariant of a read.** -/
def ReadOk (L : Ledger) : ReadPhase → Prop
  | .entries done todo => (∀ t ∈ done, Whole L t) ∧ ∀ t ∈ todo, Committed L t
  | .returned txns => ∀ t ∈ txns, Whole L t
  | _ => True

section OneRead

variable {L L' : Ledger}

theorem Whole.mono (he : L.Extends L') (hI : LedgerInv L) (hI' : LedgerInv L') {t : Transaction}
    (h : Whole L t) : Whole L' t := by
  obtain ⟨row, hrow, rfl⟩ := h
  refine ⟨row, he.transaction row hrow, ?_⟩
  rw [he.listEntries hI hI' hrow]

theorem ReadOk.mono (he : L.Extends L') (hI : LedgerInv L) (hI' : LedgerInv L') {p : ReadPhase}
    (h : ReadOk L p) : ReadOk L' p := by
  cases p with
  | entries done todo =>
      refine ⟨fun t ht => (h.1 t ht).mono he hI hI', fun t ht => ?_⟩
      obtain ⟨row, hrow, e⟩ := h.2 t ht
      exact ⟨row, he.transaction row hrow, e⟩
  | returned txns => exact fun t ht => (h t ht).mono he hI hI'
  | _ => trivial

theorem readOne_ok {t? : Option Transaction} (h : ∀ t, t? = some t → Committed L t) :
    ReadOk L (readOne t?) := by
  cases t? with
  | none => trivial
  | some t =>
      refine ⟨fun _ h => absurd h List.not_mem_nil, fun t' ht' => ?_⟩
      rw [List.mem_singleton.mp ht']
      exact h t rfl

theorem readMany_ok {rows : List TransactionRow} (h : ∀ t ∈ rows, t ∈ L.transactions) :
    ReadOk L (readMany rows) := by
  refine ⟨fun _ h => absurd h List.not_mem_nil, fun t ht => ?_⟩
  obtain ⟨row, hrow, rfl⟩ := List.mem_map.mp ht
  exact ⟨row, h row hrow, rfl⟩

/-- A header a lookup gives is committed. -/
theorem committed_of_find {row? : Option TransactionRow}
    (h : ∀ row, row? = some row → row ∈ L.transactions) (t : Transaction)
    (ht : row?.map scanTransaction = some t) : Committed L t := by
  obtain ⟨row, hrow, rfl⟩ := Option.map_eq_some_iff.mp ht
  exact ⟨row, h row hrow, rfl⟩

theorem listTransactions_mem {opts : ListTransactionsOpts} {rows : List TransactionRow}
    (h : listTransactions L opts = .ok rows) : ∀ t ∈ rows, t ∈ L.transactions := by
  unfold listTransactions at h
  split at h
  · cases h
  · split at h
    · cases h
    · cases h
      intro t ht
      have ht := List.mem_of_mem_drop (List.mem_of_mem_take ht)
      exact List.mem_of_mem_filter (List.mem_insertionSort _ |>.mp ht)

theorem readHeaders_ok {q : Read} {p : ReadPhase} (h : readHeaders L q = some p) : ReadOk L p := by
  cases q with
  | getTransactionByIdempotencyKey key =>
      simp only [readHeaders] at h
      split at h
      · cases h
        trivial
      · rename_i t ht
        cases h
        unfold getTransactionByIdempotencyKey at ht
        split at ht
        · cases ht
        · cases ht
          exact readOne_ok (committed_of_find fun _ => List.mem_of_find?_eq_some)
  | getTransaction id =>
      cases h
      exact readOne_ok (committed_of_find fun _ => List.mem_of_find?_eq_some)
  | listTransactionsForAccount accountID limit =>
      simp only [readHeaders] at h
      split at h
      · cases h
        trivial
      · cases h
  | listTransactions opts =>
      simp only [readHeaders] at h
      split at h
      · cases h
        trivial
      · rename_i rows hrows
        cases h
        exact readMany_ok (listTransactions_mem hrows)

theorem readRows_ok {q : Read} {rows : List TransactionRow} {p : ReadPhase}
    (h : readRows L q rows = some p) : ReadOk L p := by
  cases q with
  | listTransactionsForAccount accountID limit =>
      simp only [readRows] at h
      split at h
      · rename_i hr
        cases h
        exact readMany_ok fun t ht => List.mem_of_mem_filter (hr.2.2.2.1 t ht)
      · cases h
  | _ => cases h

/-- **One statement of a read** keeps its invariant. -/
theorem readStep_ok {q : Read} {p p' : ReadPhase} {ch : ReadChoice}
    (h : readStep L q p ch = some p') (hp : ReadOk L p) : ReadOk L p' := by
  cases p with
  | headers =>
      cases ch with
      | ok => exact readHeaders_ok h
      | rows rows => exact readRows_ok h
      | fail text => cases h; trivial
  | entries done todo =>
      cases todo with
      | nil =>
          cases ch with
          | ok => cases h; exact hp.1
          | _ => cases h
      | cons t todo =>
          cases ch with
          | ok =>
              cases h
              refine ⟨forall_mem_snoc hp.1 ?_, fun t' ht' => hp.2 t' (List.mem_cons_of_mem _ ht')⟩
              obtain ⟨row, hrow, rfl⟩ := hp.2 t List.mem_cons_self
              exact ⟨row, hrow, rfl⟩
          | fail text => cases h; trivial
          | rows => cases h
  | returned => cases ch <;> cases h
  | failed => cases ch <;> cases h

end OneRead

/-! ## 2. The system with readers -/

/-- The invariant of the system with readers. -/
structure WorldInv (cfg : Config) (w : World) : Prop where
  sys : SysInv cfg w.sys
  reads : ∀ x ∈ w.reads, ReadOk w.sys.db.toLedger x.2

theorem worldInv_step {cfg : Config} {w w' : World} {a : WorldAct} (hI : WorldInv cfg w)
    (h : worldStep cfg w a = some w') : WorldInv cfg w' := by
  cases a with
  | sys a =>
      obtain ⟨s', hs, rfl⟩ := Option.map_eq_some_iff.mp h
      have hI' := inv_step hI.sys hs
      exact ⟨hI', fun x hx =>
        (hI.reads x hx).mono (step_extends hI.sys hs) hI.sys.ledger hI'.ledger⟩
  | read q =>
      cases h
      exact ⟨hI.sys, forall_mem_snoc hI.reads trivial⟩
  | reader j ch =>
      simp only [worldStep] at h
      split at h
      · cases h
      · rename_i q p hj
        obtain ⟨p', hp', rfl⟩ := Option.map_eq_some_iff.mp h
        refine ⟨hI.sys, fun x hx => ?_⟩
        rcases List.mem_or_eq_of_mem_set hx with hx | rfl
        · exact hI.reads x hx
        · exact readStep_ok hp' (hI.reads _ (List.mem_of_getElem? hj))

theorem worldInv_start {cfg : Config} {db : Db} {clock : Time}
    (h : SysInv cfg (St.start db clock)) :
    WorldInv cfg (World.start db clock) :=
  ⟨h, fun _ hx => absurd hx List.not_mem_nil⟩

/-- **In every reachable state** of the system with readers. -/
theorem worldInv_exec {cfg : Config} {now clock : Time} {acts : List WorldAct} {w : World}
    (h : worldExec cfg (World.start (Db.migrated now) clock) acts = some w) : WorldInv cfg w :=
  run_inv (I := WorldInv cfg) (fun _ _ _ hI hs => worldInv_step hI hs)
    (worldInv_start (inv_start cfg now clock)) h

/-- Two whole transactions with one id are the same. -/
theorem Whole.unique {L : Ledger} (hI : LedgerInv L) {t t' : Transaction} (h : Whole L t)
    (h' : Whole L t') (hid : t.id = t'.id) : t = t' := by
  obtain ⟨row, hrow, rfl⟩ := h
  obtain ⟨row', hrow', rfl⟩ := h'
  rw [row_unique hI.transactionIDs hrow hrow' hid]

/-- **Readers never see half a transaction.** Let calls of the service and any number of reads run
    in any interleaving of their statements, with any of them failing. Every transaction a read has
    returned carries exactly the two legs that are committed for its id, in the order of their
    insertion, DEBIT then CREDIT, with equal amounts; and two reads that have returned a
    transaction with one id, whenever they ran, have returned the same, account names included. -/
theorem reads_whole {cfg : Config} {now clock : Time} {acts : List WorldAct} {w : World}
    (h : worldExec cfg (World.start (Db.migrated now) clock) acts = some w) :
    (∀ (j : Nat) q txns, w.reads[j]? = some (q, .returned txns) → ∀ t ∈ txns,
      ∃ d c, t.entries = [d, c] ∧ (w.sys.db.legsOf t.id).map (·.id) = [d.id, c.id] ∧ d.id < c.id ∧
        d.transactionID = t.id ∧ c.transactionID = t.id ∧ d.direction = .debit ∧
        c.direction = .credit ∧ d.amount = c.amount) ∧
    ∀ (j k : Nat) q q' txns txns', w.reads[j]? = some (q, .returned txns) →
      w.reads[k]? = some (q', .returned txns') →
      ∀ t ∈ txns, ∀ t' ∈ txns', t.id = t'.id → t = t' := by
  have hI := worldInv_exec h
  have hwhole : ∀ {j : Nat} {q txns}, w.reads[j]? = some (q, .returned txns) →
      ∀ t ∈ txns, Whole w.sys.db.toLedger t :=
    fun hj => hI.reads _ (List.mem_of_getElem? hj)
  refine ⟨fun j q txns hj t ht => ?_, fun j k q q' txns txns' hj hk t ht t' ht' hid =>
    (hwhole hj t ht).unique hI.sys.ledger (hwhole hk t' ht') hid⟩
  obtain ⟨row, hrow, rfl⟩ := hwhole hj t ht
  obtain ⟨d, c, x, y, hl, hok, _, _, _, _, hlist⟩ := listEntries_eq hI.sys.ledger hrow
  have hid : ∀ e ∈ w.sys.db.legsOf row.id, e.transactionID = row.id :=
    fun e he => of_decide_eq_true (List.mem_filter.mp he).2
  rw [hl] at hid
  refine ⟨_, _, hlist, ?_, hok.order, hid d (by simp), hid c (by simp), hok.debit, hok.credit, ?_⟩
  · show (w.sys.db.legsOf row.id).map (·.id) = [d.id, c.id]
    rw [hl]
    rfl
  · show Money.ofColumn d.amount = Money.ofColumn c.amount
    rw [hok.amount]

/-- Alice sends Bob 2500, the statements of two reads in between: the first has its headers from
    before the COMMIT and its entries from after it. -/
def readRun : List WorldAct :=
  let pay := (soloCall 0 (.transfer aliceID bobID (Money.fromInt 2500) (bytes "pay-1")
    (bytes "req-1")) 100#128).map WorldAct.sys
  pay.take 12 ++ [.read (.listTransactions ⟨50, 0, none⟩), .reader 0 .ok] ++ pay.drop 12 ++
    List.replicate 4 (.reader 0 .ok) ++
    [.read (.getTransaction 100#128), .reader 1 .ok, .reader 1 .ok, .reader 1 .ok]

theorem readRun_isSome :
    (worldExec Config.migrated (World.start (Db.migrated 0) 1000) readRun).isSome = true := by
  decide +kernel

def readEnd : World :=
  (worldExec Config.migrated (World.start (Db.migrated 0) 1000) readRun).get readRun_isSome

/-- How many transactions a read has returned. -/
def ReadPhase.count? : ReadPhase → Option Nat
  | .returned txns => some txns.length
  | _ => none

/-- The first read has returned the three seed deposits, the second the transfer; what they returned
    is whole. -/
theorem reads_whole_readRun :
    readEnd.reads.map (fun x => x.2.count?) = [some 3, some 1] ∧
      ∀ q txns, readEnd.reads[1]? = some (q, .returned txns) → ∀ t ∈ txns,
        ∃ d c, t.entries = [d, c] ∧ d.amount = c.amount := by
  refine ⟨by decide +kernel, fun q txns hj t ht => ?_⟩
  obtain ⟨d, c, he, _, _, _, _, _, _, ha⟩ :=
    (reads_whole (Option.some_get readRun_isSome).symm).1 1 q txns hj t ht
  exact ⟨d, c, he, ha⟩

end BankingService
