/-
  File:      BankingService/Props/Replay.lean
  Subject:   A REPLAY IS NOT THE FIRST RESPONSE: the call that commits returns the header it built
             in memory, without time stamp and entries; a replay returns the stored one.

  * `next_reports`, `exec_reports` -- a call that reports a commit stands in the history, so no two
    calls with one key do.
  * `RetOk.committed_fields`, `RetOk.existing_fields` -- the two constructions of the response,
    field by field.
  * `replay_differs` -- id, kind, key and reversed transaction agree, `Entries` never does.
-/
import BankingService.Http.Handlers
import BankingService.Proof.Track
import BankingService.Props.ExactlyOnce

namespace BankingService

open Lib

/-! ## 1. One call per key reports a commit -/

/-- A call begins to report a commit with its COMMIT. -/
theorem next_reports {cfg : Config} {db : Db} {r : Request} {ch : Choice} {p p' : Phase}
    {t : Transaction} (hn : Next cfg db r ch p p') (h : p'.committed? = some t) :
    p.committed? = some t ∨ ∃ st, p.commit? r ch = some (.request r st) := by
  cases hn with
  | committed w tx => exact .inr ⟨w.stamp tx, rfl⟩
  | audited e ret => exact .inl (by cases ret <;> exact h)
  | auditFails e ret => exact .inl (by cases ret <;> exact h)
  | missed =>
      rw [afterLookup_committed] at h
      cases h
  | lookupFails =>
      rw [afterLookup_committed] at h
      cases h
  | lookupEntriesFails =>
      rw [afterLookup_committed] at h
      cases h
  | rolledBack =>
      rw [afterTxErr_committed] at h
      cases h
  | _ => cases h

/-- **A call that reports a commit has made it**, whatever failed elsewhere. -/
theorem exec_reports {cfg : Config} {db : Db} {clock : Time} (h₀ : SysInv cfg (St.start db clock))
    {acts : List Act} {s : St} (h : exec cfg (St.start db clock) acts = some s) :
    ∀ (i : Nat) r p t, s.calls[i]? = some (.request r p) → p.committed? = some t →
      ∃ st, (i, .request r st) ∈ history cfg (St.start db clock) acts := by
  refine run_induction (motive := fun as s => ∀ (i : Nat) r p t,
    s.calls[i]? = some (.request r p) → p.committed? = some t →
      ∃ st, (i, .request r st) ∈ history cfg (St.start db clock) as) ?_ ?_ h
  · exact fun i r p t hc => absurd (List.mem_of_getElem? hc) List.not_mem_nil
  · intro as m a m' hr ih hs i r p' t hc ht
    have hI : SysInv cfg m := inv_exec h₀ hr
    rw [history_snoc hr hs]
    have old : ∀ p, m.calls[i]? = some (.request r p) → p.committed? = some t →
        ∃ st, (i, .request r st) ∈ history cfg (St.start db clock) as ++
          (commitOf cfg m a).toList := fun p hp hpt => by
      obtain ⟨st, hst⟩ := ih i r p t hp hpt
      exact ⟨st, List.mem_append_left _ hst⟩
    rcases call_before hI hs hc with ⟨rfl, rfl⟩ | ⟨p, hp, ⟨rfl, _⟩ | ⟨ch, rfl, hn⟩⟩
    · rw [start_committed] at ht
      cases ht
    · exact old p' hp ht
    · rcases next_reports hn ht with hpt | ⟨st, hk⟩
      · exact old p hp hpt
      · refine ⟨st, List.mem_append_right _ ?_⟩
        rw [commitOf_own hI hp, hk]
        exact List.mem_singleton_self _

/-- Two calls that report a commit have different keys. -/
theorem reports_key_ne {cfg : Config} {db : Db} {clock : Time}
    (h₀ : SysInv cfg (St.start db clock)) {acts : List Act} {s : St}
    (h : exec cfg (St.start db clock) acts = some s) {i j : Nat} (hij : i ≠ j) {r r' : Request}
    {p p' : Phase} {t t' : Transaction} (hi : s.calls[i]? = some (.request r p))
    (ht : p.committed? = some t) (hj : s.calls[j]? = some (.request r' p'))
    (ht' : p'.committed? = some t') : r'.key ≠ r.key := by
  intro hk
  obtain ⟨st, hst⟩ := exec_reports h₀ h i r p t hi ht
  obtain ⟨st', hst'⟩ := exec_reports h₀ h j r' p' t' hj ht'
  have hle := commits_per_key (inv_exec h₀ h).ledger (exec_refines h₀ h) r.key
  -- both commits are in the list of the commits with the key, which has one element at most
  have hm : (i, Commit.request r st) ∈ (history cfg (St.start db clock) acts).filter
      fun e => e.2.key? = some r.key := List.mem_filter.mpr ⟨hst, by simp [Commit.key?]⟩
  have hm' : (j, Commit.request r' st') ∈ (history cfg (St.start db clock) acts).filter
      fun e => e.2.key? = some r.key := List.mem_filter.mpr ⟨hst', by simp [Commit.key?, hk]⟩
  obtain ⟨e, he⟩ := List.length_eq_one_iff.mp (le_antisymm hle (List.length_pos_of_mem hm))
  rw [he, List.mem_singleton] at hm hm'
  exact hij (congrArg Prod.fst (hm.trans hm'.symm))

/-! ## 2. The two constructions of the response -/

section Fields

variable {L : Ledger} {r : Request} {t : Transaction} {es : List Entry}

/-- The call that commits returns its header as it built it. -/
theorem RetOk.committed_fields (h : RetOk L r (.committed t es)) :
    (∃ row ∈ L.transactions, row.idempotencyKey = r.key ∧ t.id = row.id ∧ t.kind = row.kind ∧
      t.idempotencyKey = row.idempotencyKey ∧
      t.reversesTransactionID = row.reversesTransactionID) ∧
      t.entries = [] ∧ t.createdAt = 0 := by
  obtain ⟨w, now, _, _, rfl, _, hw, hrow, _⟩ := h
  obtain ⟨_, _, _, _, hes, hcr⟩ := r.txn_fields w.txn.id
  rw [← hw.txn] at hes hcr
  exact ⟨⟨_, hrow, hw.key, rfl, rfl, rfl, rfl⟩, hes, hcr⟩

/-- A replay returns the stored header, its time stamp and its two entries with their accounts'
    names. -/
theorem RetOk.existing_fields (hI : LedgerInv L) (h : RetOk L r (.existing t es)) :
    ∃ row ∈ L.transactions, row.idempotencyKey = r.key ∧ t.id = row.id ∧ t.kind = row.kind ∧
      t.idempotencyKey = row.idempotencyKey ∧
      t.reversesTransactionID = row.reversesTransactionID ∧ t.createdAt = row.createdAt ∧
      t.entries.length = 2 := by
  obtain ⟨row, hrow, hk, rfl, rfl⟩ := h
  obtain ⟨d, c, x, y, _, _, _, _, _, _, hes⟩ := listEntries_eq hI hrow
  refine ⟨row, hrow, hk, rfl, rfl, rfl, rfl, rfl, ?_⟩
  show (listEntries L row.id).length = 2
  rw [hes]
  rfl

end Fields

/-! ## 3. The theorem -/

/-- **A replay never returns the first response.** In every reachable state, let call `i` have
    returned the transaction it committed, and another call `j` with the same key have returned.
    Then their responses differ; and where `j` returned a transaction, both are 201s with the same
    id, kind, key and reversed transaction, but the first one has no entries and the zero time,
    and the other one has two entries. -/
theorem replay_differs {cfg : Config} {now clock : Time} {acts : List Act} {s : St}
    (h : exec cfg (St.start (Db.migrated now) clock) acts = some s) {i j : Nat} (hij : i ≠ j)
    {r r' : Request} {t : Transaction} {es : List Entry} {ret : Return}
    (hi : s.calls[i]? = some (.request r (.done (.committed t es))))
    (hj : s.calls[j]? = some (.request r' (.done ret))) (hk : r'.key = r.key) :
    (respond ret).body ≠ (respond (.committed t es)).body ∧
    (t.entries = [] ∧ t.createdAt = 0) ∧
    ∀ t', ret.transaction? = some t' →
      ((respond (.committed t es)).status = 201 ∧ (respond ret).status = 201) ∧
      (t'.id = t.id ∧ t'.kind = t.kind ∧ t'.idempotencyKey = t.idempotencyKey ∧
        t'.reversesTransactionID = t.reversesTransactionID) ∧ t'.entries.length = 2 := by
  have h₀ := inv_start cfg now clock
  have hI := inv_exec h₀ h
  obtain ⟨⟨row, hrow, hkr, hid, hkind, hkey, hrev⟩, hnil, hzero⟩ :=
    RetOk.committed_fields (hI.calls i _ hi)
  cases ret with
  | committed t' es' => exact absurd hk (reports_key_ne h₀ h hij hi rfl hj rfl)
  | failed e =>
      refine ⟨?_, ⟨hnil, hzero⟩, fun t' ht' => by cases ht'⟩
      cases e with
      | wrapped => simp [respond, mapError, internalError, writeError, writeJSON]
      | sentinel s => cases s <;> simp [respond, mapError, writeError, writeJSON]
  | existing t' es' =>
      obtain ⟨row', hrow', hkr', hid', hkind', hkey', hrev', _, hlen⟩ :=
        RetOk.existing_fields hI.ledger (hI.calls j _ hj)
      obtain rfl : row' = row :=
        row_unique hI.ledger.keys hrow' hrow ((hkr'.trans hk).trans hkr.symm)
      have hne : t' ≠ t := by
        rintro rfl
        rw [hnil] at hlen
        cases hlen
      refine ⟨fun e => hne (Body.transaction.inj e), ⟨hnil, hzero⟩, fun t'' ht'' => ?_⟩
      cases ht''
      exact ⟨⟨rfl, rfl⟩, ⟨hid'.trans hid.symm, hkind'.trans hkind.symm, hkey'.trans hkey.symm,
        hrev'.trans hrev.symm⟩, hlen⟩

/-! ## 4. A run -/

/-- Alice sends Bob 2500. -/
def replayRequest (requestID : String) : Request :=
  .transfer aliceID bobID (Money.fromInt 2500) (bytes "pay-1") (bytes requestID)

/-- The transfer, and then the same transfer again. -/
def replayRun : List Act :=
  soloCall 0 (replayRequest "req-1") 100#128 ++
    [.arrive (replayRequest "req-2"), .call 1 .ok, .call 1 .ok]

theorem replayRun_isSome :
    (exec Config.migrated (St.start (Db.migrated 0) 1000) replayRun).isSome = true := by
  decide +kernel

/-- The state the replay ends in. -/
def replayEnd : St :=
  (exec Config.migrated (St.start (Db.migrated 0) 1000) replayRun).get replayRun_isSome

theorem replayRun_exec :
    exec Config.migrated (St.start (Db.migrated 0) 1000) replayRun = some replayEnd :=
  (Option.some_get replayRun_isSome).symm

/-- What the first call returns. -/
def firstResponse : Transaction := ⟨100#128, .transfer, bytes "pay-1", none, 0, []⟩

/-- What the second one returns. -/
def replayResponse : Transaction :=
  ⟨100#128, .transfer, bytes "pay-1", none, 1000,
    [⟨7, 100#128, aliceID, .debit, bytes "Alice", Money.ofColumn 25000000, 1000⟩,
      ⟨8, 100#128, bobID, .credit, bytes "Bob", Money.ofColumn 25000000, 1000⟩]⟩

/-- The legs of the transfer as the first call built them. -/
def firstEntries : List Entry :=
  [⟨0, 100#128, aliceID, .debit, [], Money.fromInt 2500, 0⟩,
    ⟨0, 100#128, bobID, .credit, [], Money.fromInt 2500, 0⟩]

/-- **The replay that differs**: no store call fails, both calls carry the same arguments, and the
    two 201 bodies have different `CreatedAt` and `Entries`. -/
theorem replay_response_differs :
    exec Config.migrated (St.start (Db.migrated 0) 1000) replayRun = some replayEnd ∧
    (∀ a ∈ replayRun, a.healthy = true) ∧
    replayEnd.calls = [.request (replayRequest "req-1")
        (.done (.committed firstResponse firstEntries)),
      .request (replayRequest "req-2")
        (.done (.existing replayResponse replayResponse.entries))] ∧
    respond (.committed firstResponse firstEntries) = ⟨201, .transaction firstResponse⟩ ∧
    respond (.existing replayResponse replayResponse.entries) =
      ⟨201, .transaction replayResponse⟩ ∧
    firstResponse.createdAt ≠ replayResponse.createdAt ∧
    firstResponse.entries ≠ replayResponse.entries := by
  decide +kernel

/-- In that run the two responses agree in the fields of the header and differ. -/
theorem replay_differs_replayRun :
    (respond (.existing replayResponse replayResponse.entries)).body ≠
      (respond (.committed firstResponse firstEntries)).body ∧
    replayResponse.id = firstResponse.id := by
  have hi : replayEnd.calls[0]? = some (.request (replayRequest "req-1")
      (.done (.committed firstResponse firstEntries))) := by decide +kernel
  have hj : replayEnd.calls[1]? = some (.request (replayRequest "req-2")
      (.done (.existing replayResponse replayResponse.entries))) := by decide +kernel
  have hk : (replayRequest "req-2").key = (replayRequest "req-1").key := by
    simp only [replayRequest, Request.key]
  have hd := replay_differs replayRun_exec Nat.zero_ne_one hi hj hk
  exact ⟨hd.1, (hd.2.2 _ rfl).2.1.1⟩

end BankingService
