/-
  File:      BankingService/Props/Audit.lean
  Subject:   WHAT THE AUDIT LOG TELLS: every row is true of the ledger, a failure is one unless the
             acknowledgement of a COMMIT was lost, and a call is recorded if its row can be stored.

  * `audit_sound` -- in every reachable state the SUCCESS rows are those of committed transactions,
    at most one for each, the FAILURE rows name a reason and no transaction, and a replay adds none.
  * `failure_uncommitted_iff` -- a call that returns an error has committed nothing exactly when no
    acknowledgement of its COMMIT was lost.
  * `audit_complete_iff` -- with a healthy database a call leaves its one row exactly when the
    request id is UTF-8 and the column of the log takes the amount of the request.
-/
import BankingService.Proof.Audit
import BankingService.Http.Handlers

namespace BankingService

open Lib

/-! ## 1. Soundness -/

/-- **The audit log is sound.** In every reachable state, whatever calls have met and whatever store
    calls have failed: at most one SUCCESS row names a given transaction; every SUCCESS row names a
    committed header, its kind, the accounts of its DEBIT and of its CREDIT leg and their amount;
    every FAILURE row names no transaction and has a reason; and the log holds what the calls have
    written, a call that returned an existing transaction nothing. -/
theorem audit_sound {cfg : Config} {now clock : Time} {acts : List Act} {s : St}
    (h : exec cfg (St.start (Db.migrated now) clock) acts = some s) :
    (∀ id, (s.db.auditLog.filter fun row =>
      row.outcome = .success ∧ row.transactionID = some id).length ≤ 1) ∧
    (∀ row ∈ s.db.auditLog, row.outcome = .success →
      ∃ t ∈ s.db.transactions, ∃ d c, s.db.legsOf t.id = [d, c] ∧ d.direction = .debit ∧
        c.direction = .credit ∧ row.transactionID = some t.id ∧ row.operation = t.kind ∧
        row.fromAccount = some d.accountID ∧ row.toAccount = some c.accountID ∧
        row.amount = some d.amount ∧ row.amount = some c.amount) ∧
    (∀ row ∈ s.db.auditLog, row.outcome = .failure →
      row.transactionID = none ∧ row.errorReason ≠ none) ∧
    s.db.auditLog = (audits cfg (St.start (Db.migrated now) clock) acts).map (·.2) ∧
    ∀ (i : Nat) r t entries, s.calls[i]? = some (.request r (.done (.existing t entries))) →
      auditsOf cfg (St.start (Db.migrated now) clock) acts i = [] := by
  have hA := exec_auditInv h
  refine ⟨fun id => ?_, fun row hrow ho => ?_, hA.failure, ?_, fun i r t entries hc => ?_⟩
  · refine length_filter_le_one hA.once fun a b ha hb hne => ?_
    obtain ⟨hoa, hida⟩ := of_decide_eq_true ha
    obtain ⟨hob, hidb⟩ := of_decide_eq_true hb
    exact hne hoa hob (hida.trans hidb.symm)
  · obtain ⟨t, ht, d, c, hl, hok, hid, hop, hf, hto, ha⟩ := hA.success row hrow ho
    exact ⟨t, ht, d, c, hl, hok.debit, hok.credit, hid, hop, hf, hto, ha, hok.amount ▸ ha⟩
  · rw [exec_auditLog h, St.start_db, Db.migrated_eq]
    rfl
  · -- a row of the call would make it one that has not replayed
    refine List.map_eq_nil_iff.mpr (List.filter_eq_nil_iff.mpr fun e he hi => ?_)
    obtain rfl : e.1 = i := of_decide_eq_true hi
    obtain ⟨r', e', ret, hc', hok⟩ := exec_audited h (i := e.1) he
    rw [hc] at hc'
    cases hc'
    exact hok.fits

/-- After the sample run the log has its two rows, one for each of the two transactions. -/
theorem audit_sound_sample :
    sampleEnd.db.auditLog.length = 2 ∧
      (sampleEnd.db.auditLog.filter fun row =>
        row.outcome = .success ∧ row.transactionID = some 100#128).length ≤ 1 :=
  ⟨by decide +kernel, (audit_sound sampleRun_exec).1 100#128⟩

/-! ## 2. A reported failure -/

/-- **A reported failure and the ledger.** Let a request arrive in any reachable state, and let its
    call return an error at the end of any run from there, whatever fails on the way. The ledger is
    the replay of the run's commits, and every audit row of the call is a FAILURE row. The call has
    committed nothing exactly when no acknowledgement of its COMMIT was lost: then the ledger is
    what the other calls have made it. -/
theorem failure_uncommitted_iff {cfg : Config} {now clock : Time} {before : List Act} {s₁ : St}
    (h₁ : exec cfg (St.start (Db.migrated now) clock) before = some s₁) {r : Request}
    {acts : List Act} {s : St} (h : exec cfg s₁ (.arrive r :: acts) = some s) {err : Err}
    (hret : s.calls[s₁.calls.length]? = some (.request r (.done (.failed err)))) :
    replay s₁.db.toLedger (history cfg s₁ (.arrive r :: acts)) = some s.db.toLedger ∧
    (∀ row ∈ auditsOf cfg s₁ (.arrive r :: acts) s₁.calls.length, row.outcome = .failure) ∧
    (own (history cfg s₁ (.arrive r :: acts)) s₁.calls.length = [] ↔
      ∀ text, .call s₁.calls.length (.lostAck text) ∉ acts) := by
  have h₀ := inv_start cfg now clock
  have hI : SysInv cfg s₁ := inv_exec h₀ h₁
  have hA := exec_amountsInRange h₀ (amountsInRange_migrated now) h₁
  refine ⟨exec_refines hI h, ?_,
    exec_own_iff (inv_arrived hI r) (arrived_call s₁ r) h hret rfl⟩
  rw [auditsOf_arrive]
  rcases exec_rows (inv_arrived hI r) hA (arrived_call s₁ r) h hret with
    ⟨hnil, _⟩ | ⟨e, hok, ⟨_, n, t, hrow⟩ | ⟨hnil, _⟩⟩
  · rw [hnil]
    exact fun _ hrow => absurd hrow List.not_mem_nil
  · obtain ⟨_, _, _, rfl⟩ := hok.fits
    rw [hrow]
    exact fun row hin => by rw [List.mem_singleton.mp hin]; rfl
  · rw [hnil]
    exact fun _ hrow => absurd hrow List.not_mem_nil

/-- Alice, who has 10000, sends Bob 20000. -/
def poorTransfer : Request :=
  .transfer aliceID bobID (Money.fromInt 20000) (bytes "pay-1") (bytes "req-1")

/-- Its steps: the lookup, the new id, the locks, the check, the rollback and the audit row. -/
def poorTransferRun : List Act :=
  [.call 0 .ok, .call 0 (.uuid 100#128)] ++ List.replicate 7 (.call 0 .ok)

theorem poorTransferRun_isSome :
    (exec Config.migrated (St.start (Db.migrated 0) 1000)
      (.arrive poorTransfer :: poorTransferRun)).isSome = true := by
  decide +kernel

/-- The transfer Alice has not the money for commits nothing. -/
theorem failure_uncommitted_poor :
    own (history Config.migrated (St.start (Db.migrated 0) 1000)
      (.arrive poorTransfer :: poorTransferRun)) 0 = [] := by
  have h₁ : exec Config.migrated (St.start (Db.migrated 0) 1000) [] =
      some (St.start (Db.migrated 0) 1000) := rfl
  have hret : ((exec Config.migrated (St.start (Db.migrated 0) 1000)
      (.arrive poorTransfer :: poorTransferRun)).get poorTransferRun_isSome).calls[0]? =
        some (.request poorTransfer (.done (.failed (.sentinel .insufficientFunds)))) := by
    decide +kernel
  refine (failure_uncommitted_iff h₁ (Option.some_get poorTransferRun_isSome).symm hret).2.2.mpr ?_
  intro text hin
  simp [poorTransferRun] at hin

/-- The steps of the small transfer when the acknowledgement of its COMMIT is lost. -/
def lostAckRun : List Act :=
  [.call 0 .ok, .call 0 (.uuid 100#128)] ++ List.replicate 15 (.call 0 .ok) ++
    [.call 0 (.lostAck "timeout"), .call 0 .ok]

theorem lostAckRun_isSome :
    (exec Config.migrated (St.start (Db.migrated 0) 1000)
      (.arrive smallTransfer :: lostAckRun)).isSome = true := by
  decide +kernel

/-- The state it ends in. -/
def lostAckEnd : St :=
  (exec Config.migrated (St.start (Db.migrated 0) 1000)
    (.arrive smallTransfer :: lostAckRun)).get lostAckRun_isSome

/-- **A reported failure that moved money**: the COMMIT is executed and its acknowledgement lost.
    The call returns the error and writes a FAILURE row without a transaction; the header, its two
    legs and the new balances are committed. -/
theorem failure_committed :
    exec Config.migrated (St.start (Db.migrated 0) 1000) (.arrive smallTransfer :: lostAckRun) =
        some lostAckEnd ∧
      lostAckEnd.calls[0]? = some (.request smallTransfer (.done (.failed
        (.wrapped "store.WithTx commit" (.other "timeout"))))) ∧
      lostAckEnd.db.auditLog.map (fun row => (row.outcome, row.transactionID, row.errorReason)) =
        [(.failure, none, some "store.WithTx commit: timeout")] ∧
      (lostAckEnd.db.transactions.filter fun t => t.idempotencyKey = bytes "pay-1").map (·.id) =
        [100#128] ∧
      (lostAckEnd.db.legsOf 100#128).map (fun e => (e.accountID, e.amount)) =
        [(aliceID, 25000000), (bobID, 25000000)] ∧
      (lostAckEnd.db.account? aliceID).map (·.balance) = some 75000000 :=
  ⟨(Option.some_get lostAckRun_isSome).symm, by decide +kernel⟩

/-! ## 3. Completeness -/

/-- What the log has to tell of: a transaction of the call's own, or a sentinel. -/
def Return.Reported : Return → Prop
  | .committed _ _ => True
  | .failed err => ∃ x, err = .sentinel x
  | .existing _ _ => False

/-- The rows of a call that has returned are one row, which tells how. -/
def Recorded (rows : List AuditRow) : Return → Prop
  | .committed t _ => ∃ row, rows = [row] ∧ row.outcome = .success ∧ row.transactionID = some t.id
  | .failed _ => ∃ row, rows = [row] ∧ row.outcome = .failure ∧ row.errorReason ≠ none
  | .existing _ _ => rows = []

theorem sentinel_text (x : Sentinel) : x.text.toList.contains (Char.ofNat 0) = false := by
  cases x <;> decide +kernel

/-- The row of an entry that tells how the call returned. -/
theorem EntryOk.recorded {r : Request} {e : AuditEntry} {ret : Return} (h : EntryOk r e ret)
    (n : Nat) (now : Time) : Recorded [e.row n now] ret := by
  cases ret with
  | existing => exact absurd h.fits id
  | failed err =>
      obtain ⟨_, _, _, rfl⟩ := h.fits
      exact ⟨_, rfl, rfl, Option.some_ne_none _⟩
  | committed t entries =>
      obtain ⟨w, rfl, _, rfl⟩ := h.fits
      exact ⟨_, rfl, rfl, rfl⟩

theorem not_recorded_nil {ret : Return} (h : ret.Reported) : ¬Recorded [] ret := by
  cases ret with
  | existing => exact absurd h id
  | failed => exact fun ⟨_, e, _⟩ => by cases e
  | committed => exact fun ⟨_, e, _⟩ => by cases e

/-- **What can be stored**: the texts of the service itself are text, and the column takes an amount
    that was moved, so it depends on what the request brings along. -/
theorem EntryOk.storable_iff {r : Request} {e : AuditEntry} {ret : Return} (h : EntryOk r e ret)
    (hret : ret.Reported) :
    auditStorable e = true ↔
      pgText r.requestID = true ∧ ∀ m, r.amount? = some m → m.storable = true := by
  have htext : auditText e = pgText r.requestID := by
    cases ret with
    | existing => exact absurd h.fits id
    | failed err =>
        obtain ⟨_, _, _, rfl⟩ := h.fits
        obtain ⟨x, rfl⟩ := hret
        show (pgText r.requestID && !x.text.toList.contains (Char.ofNat 0)) = _
        rw [sentinel_text, Bool.not_false, Bool.and_true]
    | committed t entries =>
        obtain ⟨w, _, _, rfl⟩ := h.fits
        exact Bool.and_true _
  have hamount : e.amount.all Money.storable = true ↔
      ∀ m, r.amount? = some m → m.storable = true := by
    rw [Option.all_eq_true]
    constructor
    · exact fun ha m hm => ha m (h.amount.1 m hm)
    · intro ha m hm
      cases hr : r.amount? with
      | none => exact (Money.storable_of_inRange (h.amount.2 hr m hm)).1
      | some a =>
          rw [h.amount.1 a hr] at hm
          cases hm
          exact ha _ hr
  rw [auditStorable, Bool.and_eq_true, htext, hamount]

/-- **The audit log is complete for what can be stored.** Let a request come through the handlers in
    any reachable state, and let its call return at the end of a run in which no store call of it
    fails. The run adds to the log the rows of its calls. If the call returns a transaction of its
    own or a sentinel, it has left exactly its one row, SUCCESS with that transaction or FAILURE
    with a reason, exactly when the `X-Request-ID` header is UTF-8 and what the driver sends for the
    amount of the request fits `NUMERIC(20,4)`; otherwise it has left none. -/
theorem audit_complete_iff {cfg : Config} {now clock : Time} {before : List Act} {s₁ : St}
    (h₁ : exec cfg (St.start (Db.migrated now) clock) before = some s₁) {post : Post} {gen : UUID}
    {r : Request} (hpost : post.handle gen = .ok (.arrive r)) {acts : List Act} {s : St}
    (h : exec cfg s₁ (.arrive r :: acts) = some s)
    (hh : ∀ a ∈ acts, a.healthyFor s₁.calls.length = true) {ret : Return}
    (hret : s.calls[s₁.calls.length]? = some (.request r (.done ret))) :
    s.db.auditLog = s₁.db.auditLog ++ (audits cfg s₁ (.arrive r :: acts)).map (·.2) ∧
    ∃ headers, post.headers? = some headers ∧
      (ret.Reported →
        (Recorded (auditsOf cfg s₁ (.arrive r :: acts) s₁.calls.length) ret ↔
          utf8Valid headers.requestID = true ∧ ∀ m, r.amount? = some m → m.storable = true) ∧
        (¬Recorded (auditsOf cfg s₁ (.arrive r :: acts) s₁.calls.length) ret →
          auditsOf cfg s₁ (.arrive r :: acts) s₁.calls.length = [])) := by
  have h₀ := inv_start cfg now clock
  have hI : SysInv cfg s₁ := inv_exec h₀ h₁
  have hA := exec_amountsInRange h₀ (amountsInRange_migrated now) h₁
  obtain ⟨headers, hheaders, hfrom⟩ := Post.handle_from hpost
  refine ⟨exec_auditLog h, headers, hheaders, fun hrep => ?_⟩
  rw [auditsOf_arrive, ← hfrom.pgText_requestID]
  rcases exec_rows (inv_arrived hI r) hA (arrived_call s₁ r) h hret with
    ⟨_, t, entries, rfl⟩ | ⟨e, hok, ⟨hs, n, t, hrow⟩ | ⟨hnil, hf⟩⟩
  · exact absurd hrep id
  · rw [hrow, ← hok.storable_iff hrep]
    exact ⟨⟨fun _ => hs, fun _ => hok.recorded n t⟩, fun hn => absurd (hok.recorded n t) hn⟩
  · -- the INSERT did not fail, so the row cannot be stored
    have hs : ¬auditStorable e = true := fun hs => by
      obtain ⟨text, hin⟩ := hf hs
      have := hh _ hin
      simp [Act.healthyFor, Choice.healthy] at this
    rw [hnil, ← hok.storable_iff hrep]
    exact ⟨⟨fun hr => absurd hr (not_recorded_nil hrep), fun h => absurd h hs⟩, fun _ => rfl⟩

/-- Alice sends Bob 2500 with a request id in ASCII, and the transfer is recorded. -/
theorem audit_complete_send :
    ∃ row, auditsOf Config.migrated (St.start (Db.migrated 0) 1000)
        (.arrive smallTransfer :: sendRun) 0 = [row] ∧
      row.outcome = .success ∧ row.transactionID = some 100#128 := by
  have h₁ : exec Config.migrated (St.start (Db.migrated 0) 1000) [] =
      some (St.start (Db.migrated 0) 1000) := rfl
  obtain ⟨_, headers, hheaders, hiff⟩ :=
    audit_complete_iff h₁ sendPost_sample sendRun_exec (by decide +kernel) sendEnd_call
  cases hheaders
  refine (hiff trivial).1.mpr ⟨by decide +kernel, fun m hm => ?_⟩
  cases hm
  decide +kernel

/-- Alice sends Bob 2500 with the request id `0xFF`, which is no UTF-8. -/
def rawIDTransfer : Request :=
  .transfer aliceID bobID (Money.fromInt 2500) (bytes "pay-1") [0xFF]

/-- Alice sends Bob `10 ^ 16`. -/
def hugeTransfer : Request :=
  .transfer aliceID bobID (Money.fromInt 10000000000000000) (bytes "pay-1") (bytes "req-1")

/-- **Two calls the log does not tell of.** A transfer with the request id `0xFF` commits and leaves
    no SUCCESS row; a transfer of `10 ^ 16` is rejected for lack of funds and leaves no FAILURE row.
    Both come through the handlers, and no store call of either fails. -/
theorem audit_missing :
    ((sendPost ⟨bytes "pay-1", [0xFF], by decide +kernel⟩ "2500").handle 0#128 =
        .ok (.arrive rawIDTransfer) ∧
      (∀ a ∈ sendRun, a.healthy = true) ∧
      (exec Config.migrated (St.start (Db.migrated 0) 1000) (.arrive rawIDTransfer :: sendRun)).map
          (fun s => (s.calls, s.db.auditLog)) =
        some ([.request rawIDTransfer (.done sendReturn)], [])) ∧
    (sendPost sampleHeaders "10000000000000000").handle 0#128 = .ok (.arrive hugeTransfer) ∧
      (∀ a ∈ poorTransferRun, a.healthy = true) ∧
      (exec Config.migrated (St.start (Db.migrated 0) 1000)
          (.arrive hugeTransfer :: poorTransferRun)).map (fun s => (s.calls, s.db.auditLog)) =
        some ([.request hugeTransfer (.done (.failed (.sentinel .insufficientFunds)))], []) :=
  ⟨⟨by decide +kernel, by decide +kernel, by decide +kernel⟩, by decide +kernel, by decide +kernel,
    by decide +kernel⟩

end BankingService
