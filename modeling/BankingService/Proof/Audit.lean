/-
  File:      BankingService/Proof/Audit.lean
  Subject:   THE AUDIT LOG OVER A RUN: which call wrote which row, and what a row says about its
             call.

  * `audits` -- the rows written in the course of a run, each with the call that wrote it;
    `exec_auditLog` -- they are what the run has added to the table.
  * `EntryOk` -- an entry about to be written fits what the call will return and the amount of its
    request; every branch that comes to an audit entry makes it so (`next_entryOk`).
  * `AuditInv` -- **the invariant of the log**: every SUCCESS row belongs to a committed header and
    its legs, no two to the same one, and a call that has yet to write its SUCCESS row is the only
    one that will write it.
-/
import BankingService.Proof.Track

namespace BankingService

open Lib

/-! ## 1. The rows of a run -/

/-- The audit row a step writes, with the index of its call. -/
def auditOf (s : St) : Act → Option (Nat × AuditRow)
  | .call i ch =>
    match s.calls[i]? with
    | some (.request _ p) => (p.audits s.db s.clock ch).map fun row => (i, row)
    | _ => none
  | _ => none

/-- The audit rows of a run, in the order they are written. -/
def audits (cfg : Config) (s : St) (acts : List Act) : List (Nat × AuditRow) :=
  Lib.labels (step cfg) auditOf s acts

/-- The audit rows of a run that call `i` has written. -/
def auditsOf (cfg : Config) (s : St) (acts : List Act) (i : Nat) : List AuditRow :=
  ((audits cfg s acts).filter fun e => e.1 = i).map (·.2)

section Rows

variable {cfg : Config} {s s' : St} {a : Act}

theorem audits_snoc {s₀ : St} {as : List Act} (hr : exec cfg s₀ as = some s)
    (hs : step cfg s a = some s') :
    audits cfg s₀ (as ++ [a]) = audits cfg s₀ as ++ (auditOf s a).toList :=
  labels_snoc hr hs

theorem auditOf_own {i : Nat} {r : Request} {p : Phase} (hc : s.calls[i]? = some (.request r p))
    (ch : Choice) :
    auditOf s (.call i ch) = (p.audits s.db s.clock ch).map fun row => (i, row) := by
  simp only [auditOf, hc]

/-- A row is written by a call that stands at its audit entry. -/
theorem auditOf_eq_some {i : Nat} {row : AuditRow} (h : auditOf s a = some (i, row)) :
    ∃ r e ret, a = .call i .ok ∧ s.calls[i]? = some (.request r (.audit e ret)) ∧
      auditStorable e = true ∧ row = e.row (s.db.auditSeq + 1) s.clock := by
  cases a with
  | call j ch =>
      simp only [auditOf] at h
      split at h
      · rename_i r p hc
        obtain ⟨row', hrow', e⟩ := Option.map_eq_some_iff.mp h
        cases e
        obtain ⟨e, ret, rfl, rfl, hst, rfl⟩ := Phase.audits_eq_some hrow'
        exact ⟨r, e, ret, rfl, hc, hst, rfl⟩
      · cases h
  | _ => cases h

theorem createStep_auditLog {db db' : Db} {name : GoString} {p p' : CreatePhase} {ch : Choice}
    (h : createStep db name p ch = some (db', p')) : db'.auditLog = db.auditLog := by
  cases p with
  | insert id =>
      cases ch with
      | ok =>
          simp only [createStep] at h
          split at h <;> (cases h; rfl)
      | lostAck text =>
          simp only [createStep] at h
          split at h
          · cases h
          · cases h
            rfl
      | _ => cases h <;> rfl
  | _ => cases ch <;> cases h <;> rfl

/-- What a step adds to the audit log is its row. -/
theorem step_audits (h : step cfg s a = some s') :
    s'.db.auditLog = s.db.auditLog ++ ((auditOf s a).map (·.2)).toList := by
  rcases step_cases h with ⟨r, rfl, rfl⟩ | ⟨name, rfl, rfl⟩ | ⟨d, rfl, rfl⟩ |
    ⟨i, ch, c, db', c', rfl, hc, hs, rfl⟩
  · exact (List.append_nil _).symm
  · exact (List.append_nil _).symm
  · exact (List.append_nil _).symm
  · cases c with
    | request r p =>
        rw [step_auditLog h hc, auditOf_own hc]
        cases p.audits s.db s.clock ch <;> rfl
    | createAccount name p =>
        obtain ⟨⟨db₁, p'⟩, hp, e⟩ := Option.map_eq_some_iff.mp hs
        cases e
        simp only [auditOf, hc, Option.map_none, Option.toList_none, List.append_nil]
        exact createStep_auditLog hp

/-- **The audit log of a run** is what was there and the rows of the run. -/
theorem exec_auditLog {acts : List Act} (h : exec cfg s acts = some s') :
    s'.db.auditLog = s.db.auditLog ++ (audits cfg s acts).map (·.2) := by
  refine run_induction (motive := fun as m =>
    m.db.auditLog = s.db.auditLog ++ (audits cfg s as).map (·.2)) (List.append_nil _).symm ?_ h
  intro as m a m' hr ih hs
  rw [step_audits hs, ih, audits_snoc hr hs, List.map_append, List.append_assoc]
  cases auditOf m a <;> rfl

theorem auditsOf_snoc {s₀ : St} {as : List Act} (hr : exec cfg s₀ as = some s)
    (hs : step cfg s a = some s') (i : Nat) :
    auditsOf cfg s₀ (as ++ [a]) i =
      auditsOf cfg s₀ as i ++ (((auditOf s a).toList.filter fun e => e.1 = i).map (·.2)) := by
  unfold auditsOf
  rw [audits_snoc hr hs, List.filter_append, List.map_append]

/-- Another call's step writes no row of this one. -/
theorem auditsOf_other {s₀ : St} {as : List Act} (hr : exec cfg s₀ as = some s)
    (hs : step cfg s a = some s') {i : Nat} (hne : ∀ ch, a ≠ .call i ch) :
    auditsOf cfg s₀ (as ++ [a]) i = auditsOf cfg s₀ as i := by
  rw [auditsOf_snoc hr hs]
  cases ha : auditOf s a with
  | none => simp
  | some e =>
      obtain ⟨r, e', ret, rfl, _⟩ := auditOf_eq_some (i := e.1) ha
      have : e.1 ≠ i := fun h => hne .ok (h ▸ rfl)
      simp [this]

/-- An arrival writes none. -/
theorem auditsOf_arrive (s₀ : St) (r : Request) (as : List Act) (i : Nat) :
    auditsOf cfg s₀ (.arrive r :: as) i = auditsOf cfg (s₀.arrived r) as i := rfl

/-- A call's own step writes its row. -/
theorem auditsOf_own {s₀ : St} {as : List Act} {i : Nat} {ch : Choice}
    (hr : exec cfg s₀ as = some s) (hs : step cfg s (.call i ch) = some s') {r : Request}
    {p : Phase} (hc : s.calls[i]? = some (.request r p)) :
    auditsOf cfg s₀ (as ++ [.call i ch]) i =
      auditsOf cfg s₀ as i ++ (p.audits s.db s.clock ch).toList := by
  rw [auditsOf_snoc hr hs, auditOf_own hc]
  cases p.audits s.db s.clock ch <;> simp

end Rows

/-! ## 2. An audit entry and its call -/

/-- The entry of a call of `r` fits what the call returns. A replay has no entry. -/
def AuditFits (r : Request) (e : AuditEntry) : Return → Prop
  | .committed t entries =>
      ∃ w : Work, t = w.txn ∧ entries = w.legs ∧
        e = r.auditSuccess w.posting.debitID w.posting.creditID w.posting.amount w.txn.id
  | .failed err => ∃ fromID toID amount, e = r.auditFailure fromID toID amount err
  | .existing _ _ => False

/-- The amount a request names. -/
def Request.amount? : Request → Option Money
  | .transfer _ _ amount _ _ => some amount
  | .reverse _ _ _ => none
  | .deposit _ amount _ _ => some amount

/-- The amount of an audit entry is the one its request names, or the one a reversal has found with
    its original. -/
def AmountFits (r : Request) (m : Option Money) : Prop :=
  (∀ a, r.amount? = some a → m = some a) ∧ (r.amount? = none → ∀ a, m = some a → InRange a.units)

theorem amountFits_amount (r : Request) : AmountFits r r.amount? :=
  ⟨fun _ h => h, fun hn a h => by rw [hn] at h; cases h⟩

theorem WorkOk.amountFits {L : Ledger} (hA : L.AmountsInRange) {r : Request} {w : Work}
    (hw : WorkOk L r w) : AmountFits r (some w.posting.amount) := by
  have hp := hw.posting
  cases r with
  | transfer =>
      rw [hp.1]
      exact amountFits_amount (.transfer ..)
  | deposit =>
      rw [hp.1]
      exact amountFits_amount (.deposit ..)
  | reverse =>
      obtain ⟨t, _, _, _, d, c, hl, hp⟩ := hp
      refine ⟨fun a h => (by cases h), fun _ a h => ?_⟩
      have hd : d ∈ L.legsOf t.id := hl ▸ List.mem_cons_self
      rw [← Option.some.inj h, hp]
      show InRange (Money.ofColumn d.amount).units
      rw [Money.units_ofColumn]
      exact hA d (List.mem_of_mem_filter hd)

/-- An audit entry is that of its call. -/
structure EntryOk (r : Request) (e : AuditEntry) (ret : Return) : Prop where
  fits : AuditFits r e ret
  amount : AmountFits r e.amount

theorem reject_entryOk {L : Ledger} (hA : L.AmountsInRange) {r : Request} {w : Work}
    (hw : WorkOk L r w) {err : Err} {e : AuditEntry} {ret : Return}
    (h : r.reject w err = .audit e ret) : EntryOk r e ret := by
  cases h
  exact ⟨⟨_, _, _, rfl⟩, hw.amountFits hA⟩

/-- `Reverse` rejects its original without an amount. -/
theorem rejectOriginal_entryOk {r : Request} {id : UUID} (hr : r.reverses = some id) {err : Err}
    {e : AuditEntry} {ret : Return} (h : r.rejectOriginal err = .audit e ret) :
    EntryOk r e ret := by
  cases r with
  | reverse =>
      cases h
      exact ⟨⟨_, _, _, rfl⟩, amountFits_amount (.reverse ..)⟩
  | _ => cases hr

theorem start_entryOk {r : Request} {e : AuditEntry} {ret : Return} (h : r.start = .audit e ret) :
    EntryOk r e ret := by
  cases r with
  | reverse => cases h
  | transfer =>
      simp only [Request.start] at h
      split at h
      · cases h; exact ⟨⟨_, _, _, rfl⟩, amountFits_amount (.transfer ..)⟩
      · split at h
        · cases h; exact ⟨⟨_, _, _, rfl⟩, amountFits_amount (.transfer ..)⟩
        · split at h
          · cases h; exact ⟨⟨_, _, _, rfl⟩, amountFits_amount (.transfer ..)⟩
          · cases h
  | deposit =>
      simp only [Request.start] at h
      split at h
      · cases h; exact ⟨⟨_, _, _, rfl⟩, amountFits_amount (.deposit ..)⟩
      · split at h
        · cases h; exact ⟨⟨_, _, _, rfl⟩, amountFits_amount (.deposit ..)⟩
        · cases h

/-- **Every branch that comes to an audit entry** comes to that of its call. -/
theorem next_entryOk {cfg : Config} {db : Db} (hA : db.toLedger.AmountsInRange) {r : Request}
    {ch : Choice} {p p' : Phase} (hp : PhaseOk cfg db r p) (hn : Next cfg db r ch p p')
    {e : AuditEntry} {ret : Return} (h : p' = .audit e ret) : EntryOk r e ret := by
  cases hn with
  | missed => cases r <;> cases h
  | lookupFails => cases r <;> cases h
  | lookupEntriesFails => cases r <;> cases h
  | committed w tx => cases h; exact ⟨⟨w, rfl, rfl, rfl⟩, WorkOk.amountFits hA hp.1⟩
  | rolledBack w tx err =>
      unfold Request.afterTxErr at h
      split at h
      · cases h
      · exact reject_entryOk hA hp.1 h
  | noOriginal => exact rejectOriginal_entryOk hp h
  | originalFails => exact rejectOriginal_entryOk hp h
  | notTransfer =>
      obtain ⟨_, _, hr, _⟩ := hp
      exact rejectOriginal_entryOk hr h
  | originalEntriesFails =>
      obtain ⟨_, _, hr, _⟩ := hp
      exact rejectOriginal_entryOk hr h
  | beginFails => exact reject_entryOk hA hp h
  | ackLost => exact reject_entryOk hA hp.1 h
  | refetchMissed => exact reject_entryOk hA hp h
  | refetchFails => exact reject_entryOk hA hp h
  | refetchEntriesFails => exact reject_entryOk hA hp.1 h
  | _ => cases h

/-- **In every reachable state** the entry a call is about to write is its own. -/
theorem exec_entryOk {cfg : Config} {now clock : Time} {acts : List Act} {s : St}
    (h : exec cfg (St.start (Db.migrated now) clock) acts = some s) {i : Nat} {r : Request}
    {e : AuditEntry} {ret : Return} (hc : s.calls[i]? = some (.request r (.audit e ret))) :
    EntryOk r e ret := by
  have h₀ := inv_start cfg now clock
  revert i r e ret
  refine run_induction (motive := fun _ s => ∀ {i : Nat} {r e ret},
    s.calls[i]? = some (.request r (.audit e ret)) → EntryOk r e ret) ?_ ?_ h
  · intro i r e ret hc
    exact absurd (List.mem_of_getElem? hc) List.not_mem_nil
  · intro as m a m' hr ih hs i r e ret hc
    have hI : SysInv cfg m := inv_exec h₀ hr
    rcases call_before hI hs hc with ⟨_, hst⟩ | ⟨p, hp, ⟨rfl, _⟩ | ⟨ch, _, hn⟩⟩
    · exact start_entryOk hst.symm
    · exact ih hp
    · exact next_entryOk (exec_amountsInRange h₀ (amountsInRange_migrated now) hr)
        (hI.calls i _ hp) hn rfl

/-- A call whose row is in the log has returned, and what it returned is no replay. -/
theorem exec_audited {cfg : Config} {now clock : Time} {acts : List Act} {s : St}
    (h : exec cfg (St.start (Db.migrated now) clock) acts = some s) {i : Nat} {row : AuditRow}
    (hrow : (i, row) ∈ audits cfg (St.start (Db.migrated now) clock) acts) :
    ∃ r e ret, s.calls[i]? = some (.request r (.done ret)) ∧ EntryOk r e ret := by
  have h₀ := inv_start cfg now clock
  revert hrow
  refine run_induction (motive := fun as s =>
    (i, row) ∈ audits cfg (St.start (Db.migrated now) clock) as →
      ∃ r e ret, s.calls[i]? = some (.request r (.done ret)) ∧ EntryOk r e ret) ?_ ?_ h
  · intro hrow
    cases hrow
  · intro as m a m' hr ih hs hrow
    have hI : SysInv cfg m := inv_exec h₀ hr
    rw [audits_snoc hr hs, List.mem_append, Option.mem_toList] at hrow
    rcases hrow with hrow | hrow
    · obtain ⟨r, e, ret, hc, hf⟩ := ih hrow
      rcases step_call hI hs hc with ⟨hc', _⟩ | ⟨ch, p', _, _, hn⟩
      · exact ⟨r, e, ret, hc', hf⟩
      · cases hn
    · obtain ⟨r, e, ret, rfl, hc, _⟩ := auditOf_eq_some hrow
      rcases step_call hI hs hc with ⟨_, hne⟩ | ⟨ch, p', hch, hc', hn⟩
      · exact absurd rfl (hne .ok)
      · cases hn with
        | audited => exact ⟨r, e, ret, hc', exec_entryOk hr hc⟩
        | auditFails => cases hch

/-! ## 3. The invariant of the log -/

/-- A SUCCESS row tells of a committed header and its two legs. -/
def SuccessOk (L : Ledger) (row : AuditRow) : Prop :=
  ∃ t ∈ L.transactions, ∃ d c, L.legsOf t.id = [d, c] ∧ LegsOk t d c ∧
    row.transactionID = some t.id ∧ row.operation = t.kind ∧ row.fromAccount = some d.accountID ∧
    row.toAccount = some c.accountID ∧ row.amount = some d.amount

/-- A FAILURE row tells of no transaction, and why. -/
def FailureOk (row : AuditRow) : Prop := row.transactionID = none ∧ row.errorReason ≠ none

/-- The transaction whose SUCCESS row a call has yet to write. -/
def Call.pending? : Call → Option UUID
  | .request _ (.audit _ (.committed t _)) => some t.id
  | _ => none

/-- **The invariant of the audit log.** -/
structure AuditInv (s : St) : Prop where
  success : ∀ row ∈ s.db.auditLog, row.outcome = .success → SuccessOk s.db.toLedger row
  failure : ∀ row ∈ s.db.auditLog, row.outcome = .failure → FailureOk row
  once : s.db.auditLog.Pairwise fun a b =>
    a.outcome = .success → b.outcome = .success → a.transactionID ≠ b.transactionID
  pending : ∀ (i : Nat) c id, s.calls[i]? = some c → c.pending? = some id →
    ∀ row ∈ s.db.auditLog, row.outcome = .success → row.transactionID ≠ some id
  distinct : ∀ (i j : Nat) c c' id, i ≠ j → s.calls[i]? = some c → s.calls[j]? = some c' →
    c.pending? = some id → c'.pending? ≠ some id

theorem SuccessOk.mono {L L' : Ledger} (he : L.Extends L') {row : AuditRow}
    (h : SuccessOk L row) : SuccessOk L' row := by
  obtain ⟨t, ht, d, c, hl, h'⟩ := h
  exact ⟨t, he.transaction t ht, d, c, (he.legs t ht).trans hl, h'⟩

/-- The work of a call is determined by the legs it reports. -/
theorem Work.posting_of_legs {w w' : Work} (h : w.legs = w'.legs) :
    w.posting.debitID = w'.posting.debitID ∧ w.posting.creditID = w'.posting.creditID ∧
      w.posting.amount = w'.posting.amount := by
  simp only [Work.legs, List.cons.injEq, Entry.mk.injEq] at h
  exact ⟨h.1.2.2.1, h.2.1.2.2.1, h.1.2.2.2.2.2.1⟩

section Invariant

variable {cfg : Config} {s s' : St} {a : Act}

/-- The header of a pending SUCCESS row is committed. -/
theorem pending_committed (hI : SysInv cfg s) {i : Nat} {c : Call} {id : UUID}
    (hc : s.calls[i]? = some c) (hp : c.pending? = some id) :
    ∃ t ∈ s.db.transactions, t.id = id := by
  have hok := hI.calls i c hc
  cases c with
  | createAccount => cases hp
  | request r p =>
      cases p with
      | audit e ret =>
          cases ret with
          | committed t entries =>
              obtain ⟨w, now, _, _, rfl, _, _, hh, _⟩ := hok
              cases hp
              exact ⟨_, hh, rfl⟩
          | _ => cases hp
      | _ => cases hp

/-- The row of a call that returns its own transaction tells of that transaction. -/
theorem success_row (hI : SysInv cfg s) {i : Nat} {r : Request} {e : AuditEntry} {t : Transaction}
    {entries : List Entry} (hc : s.calls[i]? = some (.request r (.audit e (.committed t entries))))
    (hf : AuditFits r e (.committed t entries)) (id : Nat) (now : Time) :
    SuccessOk s.db.toLedger (e.row id now) := by
  obtain ⟨w, rfl, rfl, rfl⟩ := hf
  obtain ⟨w', now', n, m, htxn, hlegs, hw, hh, hl, _⟩ := hI.calls i _ hc
  obtain ⟨hd, hcr, ha⟩ := Work.posting_of_legs hlegs
  have hkind : (headerRow w'.txn now').kind = r.kind := hw.kind
  obtain ⟨d, c, hl', hok⟩ := hI.ledger.legs _ hh
  rw [show (headerRow w'.txn now').id = w'.txn.id from rfl, hl] at hl'
  cases hl'
  refine ⟨_, hh, _, _, hl, hok, ?_, hkind.symm, ?_, ?_, ?_⟩
  · rw [htxn]
    rfl
  · exact congrArg some hd
  · exact congrArg some hcr
  · exact congrArg some (congrArg Money.stored ha)

/-- A call that has its SUCCESS row to write after a step had it before, or has just committed a
    header that was not there. -/
theorem pending_before (hI : SysInv cfg s) (h : step cfg s a = some s') {i : Nat} {c' : Call}
    {id : UUID} (hc' : s'.calls[i]? = some c') (hp : c'.pending? = some id) :
    (∃ c, s.calls[i]? = some c ∧ c.pending? = some id ∧ ∀ ch, a ≠ .call i ch) ∨
      (∃ ch, a = .call i ch) ∧ ∀ t ∈ s.db.transactions, t.id ≠ id := by
  cases c' with
  | createAccount => cases hp
  | request r p' =>
      rcases call_before hI h hc' with ⟨_, rfl⟩ | ⟨p, hc, ⟨rfl, hne⟩ | ⟨ch, rfl, hn⟩⟩
      · rcases start_cases r with hst | ⟨e, x, hst⟩ <;> (rw [hst] at hp; cases hp)
      · exact .inl ⟨_, hc, hp, hne⟩
      · refine .inr ⟨⟨ch, rfl⟩, ?_⟩
        cases hn with
        | committed w tx =>
            cases hp
            have hl : commitOf cfg s (.call i .ok) = some (i, .request r (w.stamp tx)) :=
              commitOf_own hI hc .ok
            intro t ht
            rw [← w.stamp_txID tx]
            exact apply_fresh (step_commit hI h hl) t ht
        | missed => cases r <;> cases hp
        | lookupFails => cases r <;> cases hp
        | lookupEntriesFails => cases r <;> cases hp
        | rolledBack w tx e =>
            unfold Request.afterTxErr at hp
            split at hp <;> cases hp
        | _ => cases hp

/-- A step that writes no row. -/
theorem auditInv_silent (hI : SysInv cfg s) (hA : AuditInv s) (h : step cfg s a = some s')
    (hl : s'.db.auditLog = s.db.auditLog) : AuditInv s' := by
  have hext := step_extends hI h
  have hnew : ∀ {i : Nat} {c' : Call} {id}, s'.calls[i]? = some c' → c'.pending? = some id →
      ∀ row ∈ s.db.auditLog, row.outcome = .success → row.transactionID ≠ some id := by
    intro i c' id hc' hp row hrow ho e
    rcases pending_before hI h hc' hp with ⟨c, hc, hp', _⟩ | ⟨_, hfresh⟩
    · exact hA.pending i c id hc hp' row hrow ho e
    · obtain ⟨t, ht, _, _, _, _, hid, _⟩ := hA.success row hrow ho
      rw [e] at hid
      exact hfresh t ht (Option.some.inj hid).symm
  refine ⟨?_, ?_, ?_, ?_, ?_⟩
  · rw [hl]
    exact fun row hrow ho => (hA.success row hrow ho).mono hext
  · rw [hl]
    exact hA.failure
  · rw [hl]
    exact hA.once
  · rw [hl]
    exact fun i c' id hc' hp => hnew hc' hp
  · intro i j c c' id hij hc hc' hp hp'
    rcases pending_before hI h hc hp with ⟨c₁, hc₁, hp₁, _⟩ | ⟨⟨ch, rfl⟩, hfresh⟩
    · rcases pending_before hI h hc' hp' with ⟨c₂, hc₂, hp₂, _⟩ | ⟨_, hfresh⟩
      · exact hA.distinct i j c₁ c₂ id hij hc₁ hc₂ hp₁ hp₂
      · obtain ⟨t, ht, hid⟩ := pending_committed hI hc₁ hp₁
        exact hfresh t ht hid
    · rcases pending_before hI h hc' hp' with ⟨c₂, hc₂, hp₂, _⟩ | ⟨⟨ch', e⟩, _⟩
      · obtain ⟨t, ht, hid⟩ := pending_committed hI hc₂ hp₂
        exact hfresh t ht hid
      · exact hij (Act.call.inj e).1

/-- A FAILURE row tells of a failure. -/
theorem failure_row {r : Request} {e : AuditEntry} {ret : Return} (hf : AuditFits r e ret) {n : Nat}
    {now : Time} (ho : (e.row n now).outcome = .failure) : FailureOk (e.row n now) := by
  cases ret with
  | existing => cases hf
  | failed err =>
      obtain ⟨_, _, _, rfl⟩ := hf
      exact ⟨rfl, Option.some_ne_none _⟩
  | committed t entries =>
      obtain ⟨_, _, _, rfl⟩ := hf
      cases ho

/-- The SUCCESS row of a call is the one it had pending. -/
theorem pending_row (hI : SysInv cfg s) {i : Nat} {r : Request} {e : AuditEntry} {ret : Return}
    (hc : s.calls[i]? = some (.request r (.audit e ret))) (hf : AuditFits r e ret) {n : Nat}
    {now : Time} (ho : (e.row n now).outcome = .success) :
    SuccessOk s.db.toLedger (e.row n now) ∧ ∃ id, (e.row n now).transactionID = some id ∧
      (Call.request r (.audit e ret)).pending? = some id := by
  cases ret with
  | existing => cases hf
  | failed err =>
      obtain ⟨_, _, _, rfl⟩ := hf
      cases ho
  | committed t entries =>
      refine ⟨success_row hI hc hf _ _, t.id, ?_, rfl⟩
      obtain ⟨w, rfl, _, rfl⟩ := hf
      rfl

/-- After its audit entry a call has nothing pending any more; the others are as before. -/
theorem pending_after (hI : SysInv cfg s) {i : Nat} {r : Request} {e : AuditEntry} {ret : Return}
    (hc : s.calls[i]? = some (.request r (.audit e ret)))
    (h : step cfg s (.call i .ok) = some s') {j : Nat} {c' : Call} {id : UUID}
    (hc' : s'.calls[j]? = some c') (hp : c'.pending? = some id) :
    j ≠ i ∧ ∃ c, s.calls[j]? = some c ∧ c.pending? = some id := by
  rcases pending_before hI h hc' hp with ⟨c, hcj, hpj, hne⟩ | ⟨⟨ch, e'⟩, _⟩
  · exact ⟨fun e' => hne .ok (e' ▸ rfl), c, hcj, hpj⟩
  · obtain ⟨rfl, rfl⟩ := Act.call.inj e'
    rcases step_call hI h hc with ⟨_, hne⟩ | ⟨ch, p', e', hp', hn⟩
    · exact absurd rfl (hne .ok)
    · rw [hc'] at hp'
      cases hp'
      cases hn <;> cases hp

/-- A step that writes the row of call `i`. -/
theorem auditInv_row (hI : SysInv cfg s) (hA : AuditInv s) {i : Nat} {r : Request}
    {e : AuditEntry} {ret : Return} (hc : s.calls[i]? = some (.request r (.audit e ret)))
    (hf : AuditFits r e ret) (h : step cfg s (.call i .ok) = some s') {row : AuditRow}
    (hrow : row = e.row (s.db.auditSeq + 1) s.clock)
    (hl : s'.db.auditLog = s.db.auditLog ++ [row]) : AuditInv s' := by
  subst hrow
  have hext := step_extends hI h
  refine ⟨?_, ?_, ?_, fun j c' id hc' hp => ?_, fun j k c c' id hjk hc₁ hc₂ hp hp' => ?_⟩
  · rw [hl]
    exact forall_mem_snoc (fun x hx ho => (hA.success x hx ho).mono hext)
      fun ho => (pending_row hI hc hf ho).1.mono hext
  · rw [hl]
    exact forall_mem_snoc hA.failure fun ho => failure_row hf ho
  · rw [hl, List.pairwise_append]
    refine ⟨hA.once, List.pairwise_singleton .., fun x hx y hy hox hoy e' => ?_⟩
    rw [List.mem_singleton.mp hy] at hoy e'
    obtain ⟨_, id, hid, hp⟩ := pending_row hI hc hf hoy
    exact hA.pending i _ id hc hp x hx hox (e'.trans hid)
  · obtain ⟨hji, c, hcj, hpj⟩ := pending_after hI hc h hc' hp
    rw [hl]
    refine forall_mem_snoc (hA.pending j c id hcj hpj) fun ho e' => ?_
    obtain ⟨_, id', hid', hp'⟩ := pending_row hI hc hf ho
    obtain rfl : id' = id := Option.some.inj (hid'.symm.trans e')
    exact hA.distinct j i c _ id' hji hcj hc hpj hp'
  · obtain ⟨_, c₁, hc₁, hp₁⟩ := pending_after hI hc h hc₁ hp
    obtain ⟨_, c₂, hc₂, hp₂⟩ := pending_after hI hc h hc₂ hp'
    exact hA.distinct j k c₁ c₂ id hjk hc₁ hc₂ hp₁ hp₂

end Invariant

/-- **In every reachable state** the audit log has its invariant. -/
theorem exec_auditInv {cfg : Config} {now clock : Time} {acts : List Act} {s : St}
    (h : exec cfg (St.start (Db.migrated now) clock) acts = some s) : AuditInv s := by
  have h₀ := inv_start cfg now clock
  have hempty : (St.start (Db.migrated now) clock).db.auditLog = [] := by
    rw [St.start_db, Db.migrated_eq]
  refine run_induction (motive := fun _ s => AuditInv s) ?_ ?_ h
  · refine ⟨?_, ?_, ?_, fun i c id hc => absurd (List.mem_of_getElem? hc) List.not_mem_nil,
      fun i j c c' id _ hc => absurd (List.mem_of_getElem? hc) List.not_mem_nil⟩
    · rw [hempty]
      exact fun _ hr => absurd hr List.not_mem_nil
    · rw [hempty]
      exact fun _ hr => absurd hr List.not_mem_nil
    · rw [hempty]
      exact List.Pairwise.nil
  · intro as m a m' hr hA hs
    have hI : SysInv cfg m := inv_exec h₀ hr
    have hl := step_audits hs
    cases ha : auditOf m a with
    | none =>
        rw [ha] at hl
        exact auditInv_silent hI hA hs (hl.trans (List.append_nil _))
    | some x =>
        rw [ha] at hl
        obtain ⟨r, e, ret, rfl, hc, _, hrow⟩ := auditOf_eq_some (i := x.1) ha
        exact auditInv_row hI hA hc (exec_entryOk hr hc).fits hs hrow hl

/-! ## 4. The rows of one call -/

/-- What a call has written to the audit log, by the point it has reached: nothing before it
    returns, then its one row, unless the row could not be stored or its INSERT failed. -/
def RowsOk (r : Request) (i : Nat) (acts : List Act) (rows : List AuditRow) : Phase → Prop
  | .audit e ret => EntryOk r e ret ∧ rows = []
  | .done ret =>
      (rows = [] ∧ ∃ t entries, ret = .existing t entries) ∨
        ∃ e, EntryOk r e ret ∧
          ((auditStorable e = true ∧ ∃ n now, rows = [e.row n now]) ∨
            (rows = [] ∧ (auditStorable e = true → ∃ text, .call i (.fail text) ∈ acts)))
  | _ => rows = []

section OneCall

variable {cfg : Config} {db : Db} {r : Request} {i : Nat} {acts : List Act} {rows : List AuditRow}
  {p p' : Phase} {ch : Choice}

theorem RowsOk.nil (hne : ∀ ret, p ≠ .done ret) (h : RowsOk r i acts rows p) : rows = [] := by
  cases p with
  | audit => exact h.2
  | done ret => exact absurd rfl (hne ret)
  | _ => exact h

theorem RowsOk.mono (h : RowsOk r i acts rows p) (as : List Act) :
    RowsOk r i (acts ++ as) rows p := by
  cases p with
  | done ret =>
      rcases h with h | ⟨e, he, h | ⟨hn, hf⟩⟩
      · exact .inl h
      · exact .inr ⟨e, he, .inl h⟩
      · refine .inr ⟨e, he, .inr ⟨hn, fun hs => ?_⟩⟩
        obtain ⟨text, ht⟩ := hf hs
        exact ⟨text, List.mem_append_left _ ht⟩
  | _ => exact h

/-- A call returns after its audit entry, with an existing transaction, or because it gets no id for
    its header. -/
theorem next_done (hn : Next cfg db r ch p p') {ret : Return} (h : p' = .done ret) :
    (∃ e, p = .audit e ret) ∨ (∃ t entries, ret = .existing t entries) ∨
      ∃ text err, ch = .fail text ∧ ret = .failed err := by
  cases hn with
  | missed => cases r <;> cases h
  | lookupFails => cases r <;> cases h
  | lookupEntriesFails => cases r <;> cases h
  | replayed => cases h; exact .inr (.inl ⟨_, _, rfl⟩)
  | refetchedEntries => cases h; exact .inr (.inl ⟨_, _, rfl⟩)
  | generateFails => cases h; exact .inr (.inr ⟨_, _, rfl, rfl⟩)
  | audited e => cases h; exact .inl ⟨e, rfl⟩
  | auditFails e => cases h; exact .inl ⟨e, rfl⟩
  | rolledBack =>
      unfold Request.afterTxErr at h
      split at h <;> cases h
  | _ => cases h

/-- One step of the call. -/
theorem rowsOk_next (hA : db.toLedger.AmountsInRange) (hp : PhaseOk cfg db r p)
    (hn : Next cfg db r ch p p') (now : Time) (h : RowsOk r i acts rows p) :
    RowsOk r i (acts ++ [.call i ch]) (rows ++ (p.audits db now ch).toList) p' := by
  obtain rfl : rows = [] := h.nil fun ret e => by subst e; cases hn
  rw [List.nil_append]
  have hquiet : (∀ e ret, p ≠ .audit e ret) → (p.audits db now ch).toList = [] := fun hne => by
    rw [Phase.audits_eq_none hne, Option.toList_none]
  cases hp' : p' with
  | audit e ret =>
      refine ⟨next_entryOk hA hp hn hp', hquiet ?_⟩
      rintro e' ret' rfl
      cases hn <;> cases hp'
  | done ret =>
      rcases next_done hn hp' with ⟨e, rfl⟩ | ⟨t, es, rfl⟩ | ⟨text, err, rfl, rfl⟩
      · refine .inr ⟨e, h.1, ?_⟩
        by_cases hs : auditStorable e = true
        · cases hn with
          | audited =>
              exact .inl ⟨hs, db.auditSeq + 1, now, by simp [Phase.audits, hs]⟩
          | auditFails _ _ text => exact .inr ⟨rfl, fun _ => ⟨text, by simp⟩⟩
        · refine .inr ⟨?_, fun h' => absurd h' hs⟩
          cases ch <;> simp [Phase.audits, hs]
      · refine .inl ⟨hquiet ?_, t, es, rfl⟩
        rintro e' ret' rfl
        cases hn <;> (cases hp'; cases h.1.fits)
      · refine .inr ⟨r.auditFailure none none r.amount? err, ⟨⟨_, _, _, rfl⟩, amountFits_amount r⟩,
          .inr ⟨?_, fun _ => ⟨text, by simp⟩⟩⟩
        cases p <;> rfl
  | _ =>
      refine hquiet ?_
      rintro e' ret' rfl
      cases hn <;> cases hp'

/-- **The rows of a call along a run**, from its arrival on. -/
theorem exec_rows {s₀ s : St} (h₀ : SysInv cfg s₀) (hA : s₀.db.toLedger.AmountsInRange)
    (hc : s₀.calls[i]? = some (.request r r.start)) (h : exec cfg s₀ acts = some s)
    (hc' : s.calls[i]? = some (.request r p)) : RowsOk r i acts (auditsOf cfg s₀ acts i) p := by
  obtain ⟨p', hp', hP⟩ := exec_track
    (P := fun as _ p => RowsOk r i as (auditsOf cfg s₀ as i) p) h₀ hc h
    (by
      rcases start_cases r with hst | ⟨e, x, hst⟩ <;> rw [hst]
      · exact rfl
      · exact ⟨start_entryOk hst, rfl⟩)
    (fun as m a m' p _ hr _ hs hne ih => by
      rw [auditsOf_other hr hs hne]
      exact ih.mono [a])
    (fun as m ch m' p p' _ hr hI hs hp hn ih => by
      rw [auditsOf_own hr hs hp]
      exact rowsOk_next (exec_amountsInRange h₀ hA hr) (hI.calls i _ hp) hn m.clock ih)
  rw [hc'] at hp'
  cases hp'
  exact hP

end OneCall

end BankingService
