/-
  File:      BankingService/Props/ExactlyOnce.lean
  Subject:   EXACTLY ONCE PER IDEMPOTENCY KEY, whatever fails.

  The keys of the headers are the keys of the commits (`replay_keys`), and no key occurs twice
  (`LedgerInv.keys`), so at most one call per key ever changes the ledger. What a call returns as a
  success is a committed header with its key (`RetOk`), so it is that one header.
-/
import BankingService.Proof.System

namespace BankingService

open Lib

/-! ## 1. The keys of a history -/

/-- The commits with a key, counted in the list of keys. -/
theorem length_filter_key (h : List (Nat × Commit)) (K : GoString) :
    (h.filter fun e => e.2.key? = some K).length = (h.filterMap (·.2.key?)).count K := by
  induction h with
  | nil => rfl
  | cons e h ih =>
      cases hk : e.2.key? with
      | none => simp [hk, ih]
      | some k => by_cases he : k = K <;> simp [hk, he, ih]

/-- At most one commit of a history has a given key. -/
theorem commits_per_key {L L' : Ledger} (hI : LedgerInv L') {h : List (Nat × Commit)}
    (hr : replay L h = some L') (K : GoString) :
    (h.filter fun e => e.2.key? = some K).length ≤ 1 := by
  have hc := List.nodup_iff_count_le_one.mp hI.keys K
  rw [replay_keys hr, List.count_append] at hc
  rw [length_filter_key]
  omega

/-! ## 2. What successful calls return -/

/-- The transaction a successful call returns. -/
def Return.transaction? : Return → Option Transaction
  | .existing t _ => some t
  | .committed t _ => some t
  | .failed _ => none

/-- At most one header has a given key. -/
theorem LedgerInv.headers_per_key {L : Ledger} (hI : LedgerInv L) (K : GoString) :
    (L.transactions.filter fun t => t.idempotencyKey = K).length ≤ 1 := by
  cases hl : L.transactions.filter fun t => t.idempotencyKey = K with
  | nil => exact Nat.zero_le 1
  | cons row rest =>
      have hm : row ∈ L.transactions.filter fun t => t.idempotencyKey = K := by
        rw [hl]
        exact List.mem_cons_self
      obtain ⟨hrow, hk⟩ := List.mem_filter.mp hm
      have := filter_key hI.keys hrow
      rw [of_decide_eq_true hk, hl] at this
      rw [this]
      exact le_rfl

/-- A success names the one header with the call's key. -/
theorem RetOk.header {L : Ledger} (hI : LedgerInv L) {r : Request} {ret : Return}
    (h : RetOk L r ret) {t : Transaction} (ht : ret.transaction? = some t) :
    ∃ row, L.transactions.filter (fun x => x.idempotencyKey = r.key) = [row] ∧ t.id = row.id ∧
      t.kind = row.kind := by
  cases ret with
  | failed => cases ht
  | existing t' es =>
      cases ht
      obtain ⟨row, hrow, hk, _, rfl⟩ := h
      exact ⟨row, hk ▸ filter_key hI.keys hrow, rfl, rfl⟩
  | committed t' es =>
      cases ht
      obtain ⟨w, now, n, m, rfl, _, hw, hrow, _⟩ := h
      have hk : (headerRow w.txn now).idempotencyKey = r.key := hw.key
      exact ⟨_, hk ▸ filter_key hI.keys hrow, rfl, rfl⟩

/-! ## 3. The theorem -/

/-- **Exactly once per key.** For every key and in every reachable state, with any store call
    failing at any point and any acknowledgement lost: at most one header with the key is committed;
    the ledger is the replay of a history in which at most one commit has the key; and every call
    with the key that has returned a success names the one header that exists for it, by id and by
    kind. -/
theorem exactly_once {cfg : Config} {now clock : Time} {acts : List Act} {s : St}
    (h : exec cfg (St.start (Db.migrated now) clock) acts = some s) (K : GoString) :
    (s.db.transactions.filter fun t => t.idempotencyKey = K).length ≤ 1 ∧
    (replay (Db.migrated now).toLedger (history cfg (St.start (Db.migrated now) clock) acts) =
        some s.db.toLedger ∧
      ((history cfg (St.start (Db.migrated now) clock) acts).filter
        fun e => e.2.key? = some K).length ≤ 1) ∧
    ∀ (i : Nat) r ret t, s.calls[i]? = some (.request r (.done ret)) → r.key = K →
      ret.transaction? = some t →
      ∃ row, s.db.transactions.filter (fun x => x.idempotencyKey = K) = [row] ∧
        t.id = row.id ∧ t.kind = row.kind := by
  have hI := inv_exec (inv_start cfg now clock) h
  have hr := exec_refines (inv_start cfg now clock) h
  rw [St.start_db] at hr
  refine ⟨hI.ledger.headers_per_key K, ⟨hr, commits_per_key hI.ledger hr K⟩, ?_⟩
  rintro i r ret t hc rfl ht
  exact RetOk.header hI.ledger (hI.calls i _ hc) ht

/-- After the sample run the key of the transfer has its one header, and the call that made it
    returned that header. -/
theorem exactly_once_sample :
    (sampleEnd.db.transactions.filter fun t => t.idempotencyKey = bytes "pay-1").length ≤ 1 ∧
      ((history Config.migrated (St.start (Db.migrated 0) 1000) sampleRun).filter
        fun e => e.2.key? = some (bytes "pay-1")).length ≤ 1 :=
  ⟨(exactly_once sampleRun_exec (bytes "pay-1")).1,
    (exactly_once sampleRun_exec (bytes "pay-1")).2.1.2⟩

end BankingService
