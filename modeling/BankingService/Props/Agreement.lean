/-
  File:      BankingService/Props/Agreement.lean
  Subject:   RACING RETRIES of one request under one idempotency key: when they agree, and the run
             in which they do not.

  A retry that missed the key at its lookup goes through the funds check before it can meet the
  key's index entry. So once the key is committed a retry can still be rejected by the balance the
  winner left behind (`retry_rejected_after_commit`); and a retry that was rejected just before the
  key committed still has to write its audit row.

  * `FundedAfter`, `CommitsQuietly` -- the two conditions on a step that exclude exactly these.
  * `Safe` -- where a retry may stand once the key is committed: on no way to a rejection.
  * `safe_next`, `agree_step` -- kept by every step that meets the conditions.
  * `retries_agree` -- then every retry that finishes after the commit returns the committed
    transaction with its entries, and writes no FAILURE row.
-/
import BankingService.Proof.Conflicts
import BankingService.Proof.Track

namespace BankingService

open Lib

/-! ## 1. Retries and the conditions on a step -/

/-- The request without its request id: what a retry repeats. -/
def Request.arguments : Request → Request
  | .transfer srcID dstID amount idemKey _ => .transfer srcID dstID amount idemKey []
  | .reverse originalTxID idemKey _ => .reverse originalTxID idemKey []
  | .deposit dstID amount idemKey _ => .deposit dstID amount idemKey []

/-- Whatever arrives with the key `K` is the request `r₀` again. -/
def Repeats (K : GoString) (r₀ : Request) : Act → Prop
  | .arrive r => r.key = K → r.arguments = r₀.arguments
  | _ => True

/-- A header with the key is committed. -/
def Ledger.HasKey (L : Ledger) (K : GoString) : Prop :=
  ∃ t ∈ L.transactions, t.idempotencyKey = K

/-- The checks a call is about to make come out well on the committed tables: both rows are locked
    and the debited account has the amount; each UPDATE stays in the column's range. -/
def Phase.Passes (L : Ledger) : Phase → Prop
  | .inTx w _ (.lockRow [] rows) =>
      rows.length = 2 ∧ ∀ a ∈ L.accounts, a.id = w.posting.debitID →
        w.posting.checkFunds = true → w.posting.amount.units ≤ a.balance
  | .inTx w _ (.updateDebit _ _) =>
      ∀ a ∈ L.accounts, a.id = w.posting.debitID →
        InRange (a.balance - w.posting.amount.units)
  | .inTx w _ (.updateCredit _) =>
      ∀ a ∈ L.accounts, a.id = w.posting.creditID →
        InRange (a.balance + w.posting.amount.units)
  | _ => True

/-- The call has been rejected and has not returned yet. -/
def Call.rejected (K : GoString) : Call → Bool
  | .request r (.inTx _ _ (.rollback e)) => r.key = K && e ≠ .sentinel .idempotencyConflict
  | .request r (.audit _ (.failed _)) => r.key = K
  | _ => false

/-- A call with the key that makes its checks after the key is committed passes them. -/
def FundedAfter (K : GoString) (s : St) : Act → Prop
  | .call i _ =>
    match s.calls[i]? with
    | some (.request r p) => r.key = K → s.db.HasKey K → p.Passes s.db.toLedger
    | _ => True
  | _ => True

/-- The key is committed only while no call with the key is on its way out with a rejection. -/
def CommitsQuietly (cfg : Config) (K : GoString) (s : St) (a : Act) : Prop :=
  match commitOf cfg s a with
  | some (_, .request r _) => r.key = K → ∀ c ∈ s.calls, c.rejected K = false
  | _ => True

section Decidable

instance (K : GoString) (r₀ : Request) (a : Act) : Decidable (Repeats K r₀ a) := by
  unfold Repeats
  split <;> infer_instance

instance (L : Ledger) (K : GoString) : Decidable (L.HasKey K) := by
  unfold Ledger.HasKey
  infer_instance

instance (L : Ledger) (p : Phase) : Decidable (p.Passes L) := by
  unfold Phase.Passes
  split <;> infer_instance

instance (K : GoString) (s : St) (a : Act) : Decidable (FundedAfter K s a) := by
  unfold FundedAfter
  split
  · split <;> infer_instance
  · infer_instance

instance (cfg : Config) (K : GoString) (s : St) (a : Act) :
    Decidable (CommitsQuietly cfg K s a) := by
  unfold CommitsQuietly
  split <;> infer_instance

end Decidable

/-! ## 2. What a retry repeats -/

theorem reverses_arguments {r r' : Request} (h : r.arguments = r'.arguments) :
    r.reverses = r'.reverses := by
  cases r <;> cases r' <;> cases h <;> rfl

theorem sendable_arguments {r r' : Request} (h : r.arguments = r'.arguments) :
    r.sendable = r'.sendable := by
  cases r <;> cases r' <;> cases h <;> rfl

/-- The checks before the lookup see the arguments alone. -/
theorem start_arguments {r r' : Request} (h : r.arguments = r'.arguments)
    (h' : r'.start = .lookup) : r.start = .lookup := by
  have hsee : ∀ x : Request, x.start = .lookup ↔ x.arguments.start = .lookup := by
    intro x
    cases x with
    | reverse => exact Iff.rfl
    | transfer srcID dstID amount =>
        simp only [Request.start, Request.arguments]
        split
        · simp
        · split
          · simp
          · split <;> simp
    | deposit dstID amount =>
        simp only [Request.start, Request.arguments]
        split
        · simp
        · split <;> simp
  rw [hsee, h, ← hsee]
  exact h'

/-! ## 3. After the commit -/

/-- The original of a reversal is a committed transfer. -/
def OriginalOk (L : Ledger) (r : Request) : Prop :=
  ∀ id, r.reverses = some id → ∃ row ∈ L.transactions, row.id = id ∧ row.kind = .transfer

theorem OriginalOk.mono {L L' : Ledger} (he : L.Extends L') {r : Request} (h : OriginalOk L r) :
    OriginalOk L' r := fun id hid => by
  obtain ⟨row, hrow, h'⟩ := h id hid
  exact ⟨row, he.transaction row hrow, h'⟩

/-- **Where a call may stand once its key is committed.** -/
def Safe (L : Ledger) (r : Request) : Phase → Prop
  | .original _ => OriginalOk L r
  | .originalEntries _ => OriginalOk L r
  | .inTx _ _ (.rollback e) => e = .sentinel .idempotencyConflict
  | .audit e ret => e.outcome = .success ∧ ∃ t es, ret = .committed t es
  | _ => True

section Safe

variable {cfg : Config} {db : Db} {r : Request} {ch : Choice} {p p' : Phase}

theorem Safe.mono {L L' : Ledger} (he : L.Extends L') (h : Safe L r p) : Safe L' r p := by
  cases p with
  | original => exact OriginalOk.mono he h
  | originalEntries => exact OriginalOk.mono he h
  | inTx w tx stage => cases stage <;> exact h
  | _ => exact h

/-- A committed key is found. -/
theorem HasKey.not_missed (htext : ∀ t ∈ db.transactions, pgText t.idempotencyKey = true)
    (hK : db.HasKey r.key) : ¬KeyMissed db.toLedger r.key := by
  obtain ⟨row, hrow, hk⟩ := hK
  exact fun h => h (hk ▸ htext row hrow) row hrow hk

/-- A transaction whose index entries hold its key has a key nobody has committed. -/
theorem key_not_committed {w : Work} {tx : Tx} (hw : WorkOk db.toLedger r w)
    (ht : TxOk db.toLedger tx) (hin : .key w.txn.idempotencyKey ∈ tx.index) :
    ¬db.HasKey r.key := by
  intro hK
  have hfresh := ht.fresh _ hin
  rw [hw.key, indexed_key.mpr hK] at hfresh
  cases hfresh

/-- The key's index comes before that of the reversed transaction. -/
theorem key_before_reverses {w : Work} {tx : Tx} {todo : List UniqueIndex}
    (hs : StageOk cfg db w tx (.insertIndex (.reverses :: todo))) :
    .key w.txn.idempotencyKey ∈ tx.index := by
  obtain ⟨da, ca, done, _, _, hall, hwr⟩ := hs
  have hdone : .idempotencyKey ∈ done := by
    rcases done with _ | ⟨a, _ | ⟨b, done⟩⟩
    · cases hall
    · cases hall
    · obtain ⟨rfl, h⟩ := List.cons.inj hall
      obtain ⟨rfl, _⟩ := List.cons.inj h
      simp
  rw [hwr.index]
  exact List.mem_filterMap.mpr ⟨_, hdone, rfl⟩

/-- A balance in range is not refused. -/
theorem toColumn_not_refused {m : Money} {param : Nat} {e : PgError} (h : InRange m.units)
    (he : m.toColumn param = .error e) : False := by
  rw [Money.toColumn_exact param (Money.sendable_of_inRange h), if_pos h] at he
  cases he

/-- **One step of a call whose key is committed**: if its checks pass, it does not turn to a
    rejection. -/
theorem safe_next (hI : LedgerInv db.toLedger)
    (htext : ∀ t ∈ db.transactions, pgText t.idempotencyKey = true) (hK : db.HasKey r.key)
    (hp : PhaseOk cfg db r p) (hn : Next cfg db r ch p p') (hh : ch.healthy = true)
    (hpass : p.Passes db.toLedger) (h : Safe db.toLedger r p) : Safe db.toLedger r p' := by
  cases hn with
  | missed hm => exact absurd hm (HasKey.not_missed htext hK)
  | noOriginal hno =>
      obtain ⟨row, hrow, hid, _⟩ := h _ hp
      exact absurd hid (hno row hrow)
  | original => exact h
  | notTransfer hrow ht hk =>
      obtain ⟨row, hrow', hrev, ht'⟩ := hp
      obtain ⟨orig, horig, hid, hkind⟩ := h _ hrev
      have e : orig = row := row_unique hI.transactionIDs horig hrow' hid
      have e' := congrArg Transaction.kind (ht.symm.trans ht')
      exact absurd (e'.trans (e ▸ hkind)) hk
  | accountMissing hl => exact absurd hpass.1 hl
  | poor hl ha hid hc hb => exact absurd (hpass.2 _ ha hid hc) (not_le.mpr hb)
  | debitRefused _ ha hid hm he => exact (toColumn_not_refused (hm ▸ hpass _ ha hid) he).elim
  | creditRefused ha hid hm he => exact (toColumn_not_refused (hm ▸ hpass _ ha hid) he).elim
  | entryRefused =>
      obtain ⟨hw, ht, da, ca, rows, _, _, _, hwr⟩ := hp
      refine absurd hK (key_not_committed hw ht ?_)
      simp [hwr.index, TransactionRow.indexKeys, headerRow]
  | keyNoText hno =>
      obtain ⟨row, hrow, hk⟩ := hK
      rw [← hk, htext row hrow] at hno
      cases hno
  | @duplicate w tx ix todo k hix hin =>
      cases ix with
      | pkey =>
          cases hix
          exact insertErr_id r _
      | idempotencyKey =>
          cases hix
          exact insertErr_key r _
      | reverses =>
          -- the key's index comes first and would have refused the row
          obtain ⟨hw, ht, hs⟩ := hp
          exact absurd hK (key_not_committed hw ht (key_before_reverses hs))
  | committed => exact ⟨rfl, _, _, rfl⟩
  | rolledBack w tx e =>
      cases h
      trivial
  | refetchMissed hm => exact absurd hm (HasKey.not_missed htext hK)
  | _ => trivial

/-- A call that has not been rejected is safe when its key is committed by a repetition. -/
theorem safe_of_not_rejected (hp : PhaseOk cfg db r p) (hK : ¬db.HasKey r.key)
    (hO : OriginalOk db.toLedger r) (hq : (Call.request r p).rejected r.key = false) :
    Safe db.toLedger r p := by
  cases p with
  | original => exact hO
  | originalEntries => exact hO
  | inTx w tx stage =>
      cases stage with
      | rollback e =>
          show e = _
          simpa [Call.rejected] using hq
      | _ => trivial
  | audit e ret =>
      -- a success to report would mean that the key is committed
      cases ret with
      | existing =>
          obtain ⟨row, hrow, hk, _⟩ := hp
          exact absurd ⟨row, hrow, hk⟩ hK
      | committed =>
          obtain ⟨w, now, _, _, _, _, hw, hrow, _⟩ := hp
          exact absurd ⟨_, hrow, hw.key⟩ hK
      | failed => simp [Call.rejected] at hq
  | _ => trivial

/-- A safe call does not finish with an error. -/
theorem safe_done (hn : Next cfg db r ch p p') (hh : ch.healthy = true) (h : Safe db.toLedger r p)
    (e : Err) : p' ≠ .done (.failed e) := by
  intro hd
  cases hn with
  | missed => cases r <;> cases hd
  | rolledBack =>
      cases h
      cases hd
  | audited _ ret =>
      obtain ⟨_, t, es, rfl⟩ := h
      cases hd
  | lookupFails => cases hh
  | lookupEntriesFails => cases hh
  | generateFails => cases hh
  | auditFails => cases hh
  | _ => cases hd

end Safe

/-! ## 4. The runs -/

/-- **The invariant of the retries**: they repeat one request, and once the key is committed each of
    them is safe. -/
structure Agree (K : GoString) (r₀ : Request) (s : St) : Prop where
  same : ∀ (i : Nat) r p, s.calls[i]? = some (.request r p) → r.key = K →
    r.arguments = r₀.arguments
  safe : s.db.HasKey K → ∀ (i : Nat) r p, s.calls[i]? = some (.request r p) → r.key = K →
    Safe s.db.toLedger r p

section Step

variable {cfg : Config} {K : GoString} {r₀ : Request} {s s' : St} {a : Act}

/-- The step that commits the key leaves every other retry safe. -/
theorem safe_at_commit (hI : SysInv cfg s) (hA : Agree K r₀ s) (hq : CommitsQuietly cfg K s a)
    {j : Nat} {r' : Request} {st : Stamp} (hc : commitOf cfg s a = some (j, .request r' st))
    (hk' : r'.key = K) (hK : ¬s.db.HasKey K) {i : Nat} {r : Request} {p : Phase}
    (hi : s.calls[i]? = some (.request r p)) (hk : r.key = K) : Safe s.db.toLedger r p := by
  obtain ⟨ch, w, tx, rfl, hj⟩ := commitOf_request hc
  have hrev : r.reverses = r'.reverses :=
    reverses_arguments ((hA.same i r p hi hk).trans (hA.same j r' _ hj hk').symm)
  have hO : OriginalOk s.db.toLedger r := by
    intro id hid
    rw [hrev] at hid
    have hpost := (hI.calls j _ hj).1.posting
    cases r' with
    | reverse =>
        cases hid
        obtain ⟨t, ht, hid, hkind, _⟩ := hpost
        exact ⟨t, ht, hid, hkind⟩
    | _ => cases hid
  simp only [CommitsQuietly, hc] at hq
  subst hk
  exact safe_of_not_rejected (hI.calls i _ hi) hK hO (hq hk' _ (List.mem_of_getElem? hi))

/-- **A step that meets the conditions keeps the retries in agreement.** -/
theorem agree_step (hv : r₀.start = .lookup) (hI : SysInv cfg s) (hA : Agree K r₀ s)
    (hh : a.healthy = true) (hr : Repeats K r₀ a) (hf : FundedAfter K s a)
    (hq : CommitsQuietly cfg K s a) (h : step cfg s a = some s') : Agree K r₀ s' := by
  have hext := step_extends hI h
  refine ⟨fun i r p' hc hk => ?_, fun hK' i r p' hc hk => ?_⟩
  · rcases call_before hI h hc with ⟨rfl, _⟩ | ⟨p, hp, _⟩
    · exact hr hk
    · exact hA.same i r p hp hk
  · rcases call_before hI h hc with ⟨rfl, rfl⟩ | ⟨p, hp, hmove⟩
    · rw [start_arguments (hr hk) hv]
      trivial
    · by_cases hK : s.db.HasKey K
      · have hsafe := hA.safe hK i r p hp hk
        rcases hmove with ⟨rfl, _⟩ | ⟨ch, rfl, hn⟩
        · exact hsafe.mono hext
        · simp only [FundedAfter, hp] at hf
          subst hk
          exact (safe_next hI.ledger hI.text hK (hI.calls i _ hp) hn hh (hf rfl hK) hsafe).mono hext
      · obtain ⟨t, ht, hkt⟩ := hK'
        obtain ⟨j, r', st, hcm, hk'⟩ := commitOf_key hI h (fun t ht e => hK ⟨t, ht, e⟩) ht hkt
        have hsafe := safe_at_commit hI hA hq hcm hk' hK hp hk
        rcases hmove with ⟨rfl, _⟩ | ⟨ch, rfl, hn⟩
        · exact hsafe.mono hext
        · -- the call that commits
          obtain ⟨ch', w, tx, e, hj⟩ := commitOf_request hcm
          cases e
          rw [hp] at hj
          cases hj
          cases hn with
          | committed => exact ⟨rfl, _, _, rfl⟩
          | ackLost => cases hh
          | statementFails => cases hh

end Step

/-! ## 5. The theorem -/

/-- The fields of a returned transaction that are the header's. -/
def Transaction.Shows (t : Transaction) (row : TransactionRow) : Prop :=
  t.id = row.id ∧ t.kind = row.kind ∧ t.idempotencyKey = row.idempotencyKey ∧
    t.reversesTransactionID = row.reversesTransactionID

/-- A leg as an entry shows it: its transaction, account, direction and amount. -/
def Entry.leg (e : Entry) : UUID × UUID × Direction × Int :=
  (e.transactionID, e.accountID, e.direction, e.amount.units)

def EntryRow.leg (e : EntryRow) : UUID × UUID × Direction × Int :=
  (e.transactionID, e.accountID, e.direction, e.amount)

/-- The call returned the committed header and its legs. -/
def Return.Carries (L : Ledger) (row : TransactionRow) : Return → Prop
  | .existing t es => t.Shows row ∧ es.map Entry.leg = (L.legsOf row.id).map EntryRow.leg
  | .committed t es => t.Shows row ∧ es.map Entry.leg = (L.legsOf row.id).map EntryRow.leg
  | .failed _ => False

/-- A success of a sendable request carries the header with the call's key. -/
theorem RetOk.carries {L : Ledger} (hI : LedgerInv L) {r : Request} {ret : Return}
    (h : RetOk L r ret) (hs : r.sendable = true) (hne : ∀ e, ret ≠ .failed e) {row : TransactionRow}
    (hrow : row ∈ L.transactions) (hk : row.idempotencyKey = r.key) : ret.Carries L row := by
  cases ret with
  | existing t es =>
      obtain ⟨row', hrow', hk', rfl, rfl⟩ := h
      obtain rfl : row' = row := row_unique hI.keys hrow' hrow (hk'.trans hk.symm)
      obtain ⟨d, c, x, y, hl, _, _, _, _, _, hes⟩ := listEntries_eq hI hrow
      refine ⟨⟨rfl, rfl, rfl, rfl⟩, ?_⟩
      rw [hes, hl]
      simp [Entry.leg, EntryRow.leg, scanEntry, Money.units_ofColumn]
  | committed t es =>
      obtain ⟨w, now, n, m, rfl, rfl, hw, hrow', hl, hst⟩ := h
      obtain rfl : headerRow w.txn now = row := row_unique hI.keys hrow' hrow (hw.key.trans hk.symm)
      refine ⟨⟨rfl, rfl, rfl, rfl⟩, ?_⟩
      show _ = (L.legsOf w.txn.id).map EntryRow.leg
      rw [hl]
      simp only [Work.legs, Work.debitRow, Work.creditRow, hst hs]
      rfl
  | failed e => exact absurd rfl (hne e)

/-- **Agreement of racing retries, under the two conditions.** In every run without faults in which
    every call with the key `K` repeats one valid request (no deposit that wraps in the driver), in
    which such a call passes the checks it makes after `K` is committed, and in which `K` is
    committed while no such call is on its way out with a rejection: a call with `K` that finishes
    when `K` is committed returns the committed transaction and its entries, and no step of such a
    call then writes a FAILURE row. -/
theorem retries_agree {cfg : Config} {now clock : Time} {K : GoString} {r₀ : Request}
    {acts : List Act} (hv : r₀.start = .lookup) (hs₀ : r₀.sendable = true)
    (hh : ∀ a ∈ acts, a.healthy = true) (hr : ∀ a ∈ acts, Repeats K r₀ a)
    (hf : ∀ x ∈ trace cfg (St.start (Db.migrated now) clock) acts, FundedAfter K x.1 x.2)
    (hq : ∀ x ∈ trace cfg (St.start (Db.migrated now) clock) acts, CommitsQuietly cfg K x.1 x.2)
    {s s' : St} {i : Nat} {ch : Choice}
    (hx : (s, Act.call i ch) ∈ trace cfg (St.start (Db.migrated now) clock) acts)
    (hs : step cfg s (.call i ch) = some s') {r : Request} {p : Phase}
    (hc : s.calls[i]? = some (.request r p)) (hk : r.key = K) {row : TransactionRow}
    (hrow : row ∈ s.db.transactions) (hkey : row.idempotencyKey = K) :
    (∀ ret, s'.calls[i]? = some (.request r (.done ret)) → ret.Carries s'.db.toLedger row) ∧
      ∃ rows : List AuditRow, s'.db.auditLog = s.db.auditLog ++ rows ∧
        ∀ e ∈ rows, e.outcome = .success := by
  have hstart : Agree K r₀ (St.start (Db.migrated now) clock) :=
    ⟨fun i r p h => absurd (List.mem_of_getElem? h) List.not_mem_nil,
      fun _ i r p h => absurd (List.mem_of_getElem? h) List.not_mem_nil⟩
  have hinv := steps_inv (I := fun s => SysInv cfg s ∧ Agree K r₀ s)
    (C := fun s a => a.healthy = true ∧ Repeats K r₀ a ∧ FundedAfter K s a ∧
      CommitsQuietly cfg K s a)
    (fun s a s' ⟨h₁, h₂, h₃, h₄⟩ ⟨hI, hA⟩ h => ⟨inv_step hI h, agree_step hv hI hA h₁ h₂ h₃ h₄ h⟩)
    ⟨inv_start cfg now clock, hstart⟩
    (fun x hx => ⟨hh x.2 (mem_steps_act hx), hr x.2 (mem_steps_act hx), hf x hx, hq x hx⟩)
  obtain ⟨hI, hA⟩ := hinv _ hx
  have hsafe : Safe s.db.toLedger r p := hA.safe ⟨row, hrow, hkey⟩ i r p hc hk
  have hch : ch.healthy = true := hh _ (mem_steps_act hx)
  refine ⟨fun ret hret => ?_, ?_⟩
  · rcases step_call hI hs hc with ⟨_, hne⟩ | ⟨ch', p', e, hp', hn⟩
    · exact absurd rfl (hne ch)
    · cases e
      rw [hret] at hp'
      cases hp'
      have hI' := inv_step hI hs
      have hsend := (sendable_arguments (hA.same i r p hc hk)).trans hs₀
      refine RetOk.carries hI'.ledger (hI'.calls i _ hret) hsend (fun e he => ?_)
        ((step_extends hI hs).transaction row hrow) (hkey.trans hk.symm)
      exact safe_done hn hch hsafe e (he ▸ rfl)
  · refine ⟨_, step_auditLog hs hc, fun row' hrow' => ?_⟩
    obtain ⟨e, ret, rfl, _, _, rfl⟩ := Phase.audits_eq_some (Option.mem_toList.mp hrow')
    exact hsafe.1

/-! ## 6. Two runs -/

/-- The two retries: Alice sends Bob an amount under one key. -/
def raceRequest (amount : Int) (requestID : String) : Request :=
  .transfer aliceID bobID (Money.fromInt amount) (bytes "pay-1") (bytes requestID)

/-- Both look the key up, then the first runs to its end, then the second takes `rest` steps. -/
def raceRun (amount : Int) (rest : Nat) : List Act :=
  [.arrive (raceRequest amount "req-1"), .arrive (raceRequest amount "req-2"),
    .call 0 .ok, .call 1 .ok, .call 0 (.uuid 100#128), .call 1 (.uuid 101#128)] ++
  List.replicate 17 (.call 0 .ok) ++ List.replicate rest (.call 1 .ok)

theorem raceRun_isSome :
    (exec Config.migrated (St.start (Db.migrated 0) 1000) (raceRun 2500 12)).isSome = true ∧
    (exec Config.migrated (St.start (Db.migrated 0) 1000) (raceRun 2500 13)).isSome = true ∧
    (exec Config.migrated (St.start (Db.migrated 0) 1000) (raceRun 6000 6)).isSome = true ∧
    (exec Config.migrated (St.start (Db.migrated 0) 1000) (raceRun 6000 7)).isSome = true := by
  decide +kernel

/-- The header the first retry commits. -/
def raceHeader : TransactionRow := ⟨100#128, .transfer, bytes "pay-1", none, 1000⟩

/-- With 2500 of Alice's 10000 the second retry meets the key's index entry, and its last step
    returns what the first one committed. -/
theorem retries_agree_race :
    let s' := (exec Config.migrated (St.start (Db.migrated 0) 1000) (raceRun 2500 13)).get
      raceRun_isSome.2.1
    ∃ ret, s'.calls[1]? = some (.request (raceRequest 2500 "req-2") (.done ret)) ∧
      ret.Carries s'.db.toLedger raceHeader := by
  intro s'
  let s := (exec Config.migrated (St.start (Db.migrated 0) 1000) (raceRun 2500 12)).get
    raceRun_isSome.1
  let entries := listEntries s'.db.toLedger raceHeader.id
  have hf : ∀ x ∈ trace Config.migrated (St.start (Db.migrated 0) 1000) (raceRun 2500 13),
      FundedAfter (bytes "pay-1") x.1 x.2 := by decide +kernel
  have hq : ∀ x ∈ trace Config.migrated (St.start (Db.migrated 0) 1000) (raceRun 2500 13),
      CommitsQuietly Config.migrated (bytes "pay-1") x.1 x.2 := by decide +kernel
  have hx : (s, Act.call 1 .ok) ∈
      trace Config.migrated (St.start (Db.migrated 0) 1000) (raceRun 2500 13) := by decide +kernel
  have hs : step Config.migrated s (.call 1 .ok) = some s' := by decide +kernel
  have hc : s.calls[1]? = some (.request (raceRequest 2500 "req-2") (.refetchEntries
      ⟨transferPosting aliceID bobID (Money.fromInt 2500), (raceRequest 2500 "req-2").txn 101#128⟩
      (scanTransaction raceHeader))) ∧ raceHeader ∈ s.db.transactions := by decide +kernel
  have hret : s'.calls[1]? = some (.request (raceRequest 2500 "req-2") (.done
      (.existing { scanTransaction raceHeader with entries := entries } entries))) := by
    decide +kernel
  have hsame : ∀ a ∈ raceRun 2500 13, Repeats (bytes "pay-1") (raceRequest 2500 "req-1") a := by
    decide +kernel
  exact ⟨_, hret,
    (retries_agree rfl rfl (by decide +kernel) hsame hf hq hx hs hc.1 rfl hc.2 rfl).1 _ hret⟩

/-- **The race that breaks the agreement**: with 6000 of Alice's 10000 the first retry leaves less
    than the amount; the second one is rejected for insufficient funds after the key has committed,
    and its last step writes a FAILURE row. No store call failed, and both repeat one request. -/
theorem retry_rejected_after_commit :
    let s := (exec Config.migrated (St.start (Db.migrated 0) 1000) (raceRun 6000 6)).get
      raceRun_isSome.2.2.1
    let s' := (exec Config.migrated (St.start (Db.migrated 0) 1000) (raceRun 6000 7)).get
      raceRun_isSome.2.2.2
    (∀ a ∈ raceRun 6000 7,
      a.healthy = true ∧ Repeats (bytes "pay-1") (raceRequest 6000 "req-1") a) ∧
    (raceRequest 6000 "req-1").start = .lookup ∧ s.db.HasKey (bytes "pay-1") ∧
    step Config.migrated s (.call 1 .ok) = some s' ∧
    s'.calls[1]? = some (.request (raceRequest 6000 "req-2")
      (.done (.failed (.sentinel .insufficientFunds)))) ∧
    s'.db.auditLog.map (·.outcome) = s.db.auditLog.map (·.outcome) ++ [.failure] := by
  decide +kernel

end BankingService
