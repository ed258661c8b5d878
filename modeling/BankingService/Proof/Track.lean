/-
  File:      BankingService/Proof/Track.lean
  Subject:   FOLLOWING ONE CALL THROUGH A RUN, whatever the other calls do in between.

  * `step_slot`, `step_call` -- seen from one call, a step of the system is a step of its own (of a
    service call, a branch of `Next`) or leaves the call where it is.
  * `exec_slot`, `exec_track` -- the induction over a run for a property of one call;
    `exec_decided` -- the same for a call with one decisive step.
  * `exec_keeps` -- what every commit keeps of the ledger, every run keeps; `exec_extends`,
    `exec_key_unused` -- what the run does to the tables the call reads.
  * `next_ends` -- a rejection is final; `step_auditLog` -- what a call writes to the audit log.
  * `own` -- the commits of one call in a history; `exec_own_iff` -- a call that reports none has
    made none, unless its acknowledgement was lost.
  * `LockingOk.length_two` -- a lock query that names both accounts locks both.
-/
import BankingService.Proof.System

namespace BankingService

open Lib

/-! ## 1. The tables over a run -/

section Tables

variable {cfg : Config} {s s' : St}

/-- **What every commit keeps, every run keeps.** -/
theorem exec_keeps {I : Ledger → Prop}
    (keep : ∀ L L' (c : Commit), LedgerInv L → I L → c.apply L = some L' → I L')
    (hI : SysInv cfg s) (h₀ : I s.db.toLedger) {acts : List Act} (h : exec cfg s acts = some s') :
    I s'.db.toLedger := by
  refine run_induction (motive := fun _ m => I m.db.toLedger) h₀ ?_ h
  intro as m a m' hr ih hs
  have hIm : SysInv cfg m := inv_exec hI hr
  cases hl : commitOf cfg m a with
  | none =>
      rw [step_silent hIm hs hl]
      exact ih
  | some e => exact keep _ _ e.2 hIm.ledger ih (step_commit hIm hs hl)

/-- A run extends the ledger. -/
theorem exec_extends (hI : SysInv cfg s) {acts : List Act} (h : exec cfg s acts = some s') :
    s.db.toLedger.Extends s'.db.toLedger :=
  exec_keeps (I := fun L => s.db.toLedger.Extends L)
    (fun _ _ _ _ he ha => he.trans (extends_apply ha)) hI (.refl _) h

/-- A step extends the ledger. -/
theorem step_extends (hI : SysInv cfg s) {a : Act} (h : step cfg s a = some s') :
    s.db.toLedger.Extends s'.db.toLedger := by
  have hr : exec cfg s [a] = some s' := by
    rw [exec, run_cons, h]
    rfl
  exact exec_extends hI hr

/-- What is committed in the course of a run is there at its end. -/
theorem exec_prefix_extends (hI : SysInv cfg s) {as acts : List Act} (hpre : as <+: acts) {m : St}
    (hr : exec cfg s as = some m) (h : exec cfg s acts = some s') :
    m.db.toLedger.Extends s'.db.toLedger := by
  obtain ⟨rest, rfl⟩ := hpre
  obtain ⟨m', hm', hrest⟩ := run_append_eq_some.mp h
  obtain rfl : m = m' := Option.some.inj (hr.symm.trans hm')
  exact exec_extends (inv_exec hI hr) hrest

/-- The amounts of the entries stay in range. -/
theorem exec_amountsInRange (hI : SysInv cfg s) (ha : s.db.toLedger.AmountsInRange)
    {acts : List Act} (h : exec cfg s acts = some s') : s'.db.toLedger.AmountsInRange :=
  exec_keeps (I := Ledger.AmountsInRange) (fun _ _ _ _ hr hc => amountsInRange_apply hr hc)
    hI ha h

/-- The headers stay, in their order, and new ones come after them. -/
theorem exec_transactions (hI : SysInv cfg s) {acts : List Act} (h : exec cfg s acts = some s') :
    s.db.transactions <+: s'.db.transactions :=
  exec_keeps (I := fun L => s.db.transactions <+: L.transactions)
    (fun _ _ _ _ hp hc => hp.trans (apply_transactions hc)) hI (List.prefix_refl _) h

theorem exec_account (hI : SysInv cfg s) {acts : List Act} (h : exec cfg s acts = some s')
    {id : UUID} (ha : ∃ a ∈ s.db.accounts, a.id = id) : ∃ a ∈ s'.db.accounts, a.id = id := by
  obtain ⟨a, ha, rfl⟩ := ha
  obtain ⟨b, hb, hid, _⟩ := (exec_extends hI h).account a ha
  exact ⟨b, hb, hid⟩

/-- A key that no header had before the run and no commit of the run has is on no header after. -/
theorem exec_key_unused (hI : SysInv cfg s) {acts : List Act} (h : exec cfg s acts = some s')
    {key : GoString} (hk : ∀ t ∈ s.db.transactions, t.idempotencyKey ≠ key)
    (hh : ∀ e ∈ history cfg s acts, e.2.key? ≠ some key) :
    ∀ t ∈ s'.db.transactions, t.idempotencyKey ≠ key := by
  intro t ht e
  have hm : key ∈ s'.db.transactions.map (·.idempotencyKey) := List.mem_map.mpr ⟨t, ht, e⟩
  rw [replay_keys (exec_refines hI h)] at hm
  rcases List.mem_append.mp hm with hm | hm
  · obtain ⟨t', ht', e'⟩ := List.mem_map.mp hm
    exact hk t' ht' e'
  · obtain ⟨c, hc, e'⟩ := List.mem_filterMap.mp hm
    exact hh c hc e'

end Tables

/-! ## 2. One call -/

section Call

variable {cfg : Config} {s s' : St} {i : Nat} {r : Request}

/-- **A step seen from one call**: the call takes a step of its own, or stays. -/
theorem step_slot {a : Act} (h : step cfg s a = some s') {c : Call} (hc : s.calls[i]? = some c) :
    (s'.calls[i]? = some c ∧ ∀ ch, a ≠ .call i ch) ∨
      ∃ ch db' c', a = .call i ch ∧ s'.calls[i]? = some c' ∧
        callStep cfg s i ch c = some (db', c') := by
  have hi : i < s.calls.length := (List.getElem?_eq_some_iff.mp hc).1
  rcases step_cases h with ⟨r', rfl, rfl⟩ | ⟨name, rfl, rfl⟩ | ⟨d, rfl, rfl⟩ |
    ⟨j, ch, c₁, db', c', rfl, hj, hs, rfl⟩
  · exact .inl ⟨(List.getElem?_append_left hi).trans hc, fun _ e => by cases e⟩
  · exact .inl ⟨(List.getElem?_append_left hi).trans hc, fun _ e => by cases e⟩
  · exact .inl ⟨hc, fun _ e => by cases e⟩
  · by_cases hji : j = i
    · subst hji
      rw [hc] at hj
      cases hj
      exact .inr ⟨ch, db', c', rfl, List.getElem?_set_self hi, hs⟩
    · exact .inl ⟨(List.getElem?_set_ne hji).trans hc, fun ch' e => hji (Act.call.inj e).1⟩

/-- **A step seen from a service call**: the call takes one of its branches, or stays. -/
theorem step_call (hI : SysInv cfg s) {a : Act} (h : step cfg s a = some s') {p : Phase}
    (hc : s.calls[i]? = some (.request r p)) :
    (s'.calls[i]? = some (.request r p) ∧ ∀ ch, a ≠ .call i ch) ∨
      ∃ ch p', a = .call i ch ∧ s'.calls[i]? = some (.request r p') ∧
        Next cfg s.db r ch p p' := by
  rcases step_slot h hc with hstay | ⟨ch, db', c', rfl, hc', hs⟩
  · exact .inl hstay
  · obtain ⟨⟨db₁, p'⟩, hp, e⟩ := Option.map_eq_some_iff.mp hs
    cases e
    exact .inr ⟨ch, p', rfl, hc', (requestStep_ok hI.ledger (hI.calls i _ hc) hp).2.1⟩

/-- **A service call seen from the state after a step**: it has just arrived, or it was there before
    and has stayed or taken a branch. -/
theorem call_before (hI : SysInv cfg s) {a : Act} (h : step cfg s a = some s') {p' : Phase}
    (hc : s'.calls[i]? = some (.request r p')) :
    (a = .arrive r ∧ p' = r.start) ∨
      ∃ p, s.calls[i]? = some (.request r p) ∧
        ((p' = p ∧ ∀ ch, a ≠ .call i ch) ∨ ∃ ch, a = .call i ch ∧ Next cfg s.db r ch p p') := by
  have old : ∀ r₁ p, s.calls[i]? = some (.request r₁ p) →
      ∃ p, s.calls[i]? = some (.request r p) ∧
        ((p' = p ∧ ∀ ch, a ≠ .call i ch) ∨ ∃ ch, a = .call i ch ∧ Next cfg s.db r ch p p') := by
    intro r₁ p hp
    rcases step_call hI h hp with ⟨hp', hne⟩ | ⟨ch, p₁, rfl, hp', hn⟩
    · rw [hc] at hp'
      cases hp'
      exact ⟨p', hp, .inl ⟨rfl, hne⟩⟩
    · rw [hc] at hp'
      cases hp'
      exact ⟨p, hp, .inr ⟨ch, rfl, hn⟩⟩
  rcases step_cases h with ⟨r', rfl, rfl⟩ | ⟨name, rfl, rfl⟩ | ⟨d, rfl, rfl⟩ |
    ⟨j, ch, c, db', c', rfl, hj, hs, rfl⟩
  · rcases getElem?_snoc hc with hc | ⟨_, e⟩
    · exact .inr (old r p' hc)
    · cases e
      exact .inl ⟨rfl, rfl⟩
  · rcases getElem?_snoc hc with hc | ⟨_, e⟩
    · exact .inr (old r p' hc)
    · cases e
  · exact .inr (old r p' hc)
  · by_cases hji : j = i
    · subst hji
      have hlt : j < s.calls.length := (List.getElem?_eq_some_iff.mp hj).1
      rw [List.getElem?_set_self hlt] at hc
      cases hc
      cases c with
      | request r₁ p => exact .inr (old r₁ p hj)
      | createAccount name p =>
          obtain ⟨_, _, e⟩ := Option.map_eq_some_iff.mp hs
          cases e
    · exact .inr (old r p' ((List.getElem?_set_ne hji).symm.trans hc))

/-- The commit a call's own step performs. -/
theorem commitOf_own (hI : SysInv cfg s) {p : Phase} (hc : s.calls[i]? = some (.request r p))
    (ch : Choice) :
    commitOf cfg s (.call i ch) = (p.commit? r ch).map fun k => (i, k) :=
  commitOf_call hI hc ch

/-- A commit belongs to the call that steps. -/
theorem commitOf_index {a : Act} {e : Nat × Commit} (h : commitOf cfg s a = some e) :
    ∃ ch, a = .call e.1 ch := by
  cases a with
  | call j ch =>
      refine ⟨ch, ?_⟩
      simp only [commitOf] at h
      split at h
      · split at h
        · cases h; rfl
        · cases h
      · split at h
        · cases h; rfl
        · cases h
      · cases h
  | _ => cases h

/-- A commit with a request is the COMMIT of a call with that request. -/
theorem commitOf_request {a : Act} {j : Nat} {st : Stamp}
    (h : commitOf cfg s a = some (j, .request r st)) :
    ∃ ch w tx, a = .call j ch ∧ s.calls[j]? = some (.request r (.inTx w tx .commit)) := by
  cases a with
  | call i ch =>
      simp only [commitOf] at h
      split at h
      · rename_i r' w tx hc
        split at h
        · cases h
          exact ⟨ch, w, tx, rfl, hc⟩
        · cases h
      · split at h
        · cases h
        · cases h
      · cases h
  | _ => cases h

/-- A key becomes used by the step that commits it. -/
theorem commitOf_key (hI : SysInv cfg s) {a : Act} (h : step cfg s a = some s') {K : GoString}
    (hold : ∀ t ∈ s.db.transactions, t.idempotencyKey ≠ K) {t : TransactionRow}
    (ht : t ∈ s'.db.transactions) (hk : t.idempotencyKey = K) :
    ∃ j r st, commitOf cfg s a = some (j, .request r st) ∧ r.key = K := by
  have hm : K ∈ s'.db.transactions.map (·.idempotencyKey) := List.mem_map.mpr ⟨t, ht, hk⟩
  have hn : K ∉ s.db.transactions.map (·.idempotencyKey) := fun hm => by
    obtain ⟨t', ht', e⟩ := List.mem_map.mp hm
    exact hold t' ht' e
  cases hc : commitOf cfg s a with
  | none =>
      rw [step_silent hI h hc] at hm
      exact absurd hm hn
  | some e =>
      obtain ⟨j, c⟩ := e
      rw [apply_keys (step_commit hI h hc)] at hm
      rcases List.mem_append.mp hm with hm | hm
      · exact absurd hm hn
      · cases c with
        | createAccount => exact absurd hm List.not_mem_nil
        | request r st => exact ⟨j, r, st, rfl, (List.mem_singleton.mp hm).symm⟩

/-- **Induction along a run for one call**: `P` holds of the call at the start, steps of others keep
    it, and so does every step of its own. -/
theorem exec_slot {s₀ : St} {c₀ : Call} (hc : s₀.calls[i]? = some c₀) {acts : List Act} {s : St}
    (h : exec cfg s₀ acts = some s) {P : List Act → St → Call → Prop} (start : P [] s₀ c₀)
    (other : ∀ as s a s' c, as ++ [a] <+: acts → exec cfg s₀ as = some s →
      step cfg s a = some s' → (∀ ch, a ≠ .call i ch) → P as s c → P (as ++ [a]) s' c)
    (own : ∀ as s ch s' c db' c', as ++ [.call i ch] <+: acts → exec cfg s₀ as = some s →
      step cfg s (.call i ch) = some s' → s.calls[i]? = some c →
      callStep cfg s i ch c = some (db', c') → P as s c → P (as ++ [.call i ch]) s' c') :
    ∃ c, s.calls[i]? = some c ∧ P acts s c := by
  refine run_induction (motive := fun as s => as <+: acts →
    ∃ c, s.calls[i]? = some c ∧ P as s c) (fun _ => ⟨c₀, hc, start⟩) ?_ h (List.prefix_refl acts)
  intro as m a m' hr ih hs hpre
  obtain ⟨c, hcm, hP⟩ := ih ((List.prefix_append as [a]).trans hpre)
  rcases step_slot hs hcm with ⟨hc', hne⟩ | ⟨ch, db', c', rfl, hc', hcall⟩
  · exact ⟨c, hc', other as m a m' c hpre hr hs hne hP⟩
  · exact ⟨c', hc', own as m ch m' c db' c' hpre hr hs hcm hcall hP⟩

/-- **Induction along a run for one service call**: its own steps are the branches of `Next`. -/
theorem exec_track {s₀ : St} {p₀ : Phase} (h₀ : SysInv cfg s₀)
    (hc : s₀.calls[i]? = some (.request r p₀)) {acts : List Act} {s : St}
    (h : exec cfg s₀ acts = some s) {P : List Act → St → Phase → Prop} (start : P [] s₀ p₀)
    (other : ∀ as s a s' p, as ++ [a] <+: acts → exec cfg s₀ as = some s → SysInv cfg s →
      step cfg s a = some s' → (∀ ch, a ≠ .call i ch) → P as s p → P (as ++ [a]) s' p)
    (own : ∀ as s ch s' p p', as ++ [.call i ch] <+: acts → exec cfg s₀ as = some s →
      SysInv cfg s → step cfg s (.call i ch) = some s' → s.calls[i]? = some (.request r p) →
      Next cfg s.db r ch p p' → P as s p → P (as ++ [.call i ch]) s' p') :
    ∃ p, s.calls[i]? = some (.request r p) ∧ P acts s p := by
  obtain ⟨c, hcs, p, rfl, hP⟩ := exec_slot
    (P := fun as s c => ∃ p, c = .request r p ∧ P as s p) hc h ⟨p₀, rfl, start⟩
    (fun as m a m' c hpre hr hs hne ⟨p, hp, hP⟩ =>
      ⟨p, hp, other as m a m' p hpre hr (inv_exec h₀ hr) hs hne hP⟩)
    (fun as m ch m' c db' c' hpre hr hs hcm hcall ⟨p, hp, hP⟩ => by
      subst hp
      have hI : SysInv cfg m := inv_exec h₀ hr
      obtain ⟨⟨db₁, p'⟩, hreq, e⟩ := Option.map_eq_some_iff.mp hcall
      cases e
      exact ⟨p', rfl, own as m ch m' p p' hpre hr hI hs hcm
        (requestStep_ok hI.ledger (hI.calls i _ hcm) hreq).2.1 hP⟩)
  exact ⟨p, hcs, hP⟩

/-- **A run with a decisive step of one call**: before it the call's phase is in `B`; from a phase
    in `D` the call decides, by the tables `db` it sees there, for the phases `V db`, and stays in
    them. -/
theorem exec_decided {s₀ : St} {p₀ : Phase} (h₀ : SysInv cfg s₀)
    (hc : s₀.calls[i]? = some (.request r p₀)) {acts : List Act} {s : St}
    (h : exec cfg s₀ acts = some s) {B D : Phase → Prop} {V : Db → Phase → Prop} (start : B p₀)
    (early : ∀ as s ch p p', as ++ [.call i ch] <+: acts → exec cfg s₀ as = some s → SysInv cfg s →
      s.calls[i]? = some (.request r p) → Next cfg s.db r ch p p' → B p →
      B p' ∨ D p ∧ V s.db p')
    (late : ∀ as s ch p p' db, as ++ [.call i ch] <+: acts → exec cfg s₀ as = some s →
      SysInv cfg s → s.calls[i]? = some (.request r p) → Next cfg s.db r ch p p' → V db p →
      V db p') :
    ∃ p, s.calls[i]? = some (.request r p) ∧
      (B p ∨ ∃ pre post m q, acts = pre ++ post ∧ exec cfg s₀ pre = some m ∧
        m.calls[i]? = some (.request r q) ∧ D q ∧ V m.db p) := by
  refine exec_track (P := fun as _ p => B p ∨ ∃ pre post m q, as = pre ++ post ∧
    exec cfg s₀ pre = some m ∧ m.calls[i]? = some (.request r q) ∧ D q ∧ V m.db p)
    h₀ hc h (.inl start) ?_ ?_
  · rintro as m a m' p - - - - - (hB | ⟨pre, post, n, q, rfl, hd⟩)
    · exact .inl hB
    · exact .inr ⟨pre, post ++ [a], n, q, List.append_assoc .., hd⟩
  · rintro as m ch m' p p' hpre hr hI - hp hn (hB | ⟨pre, post, n, q, rfl, hn', hq, hD, hV⟩)
    · rcases early as m ch p p' hpre hr hI hp hn hB with hB' | ⟨hD, hV⟩
      · exact .inl hB'
      · exact .inr ⟨as, [.call i ch], m, p, rfl, hr, hp, hD, hV⟩
    · exact .inr ⟨pre, post ++ [.call i ch], n, q, List.append_assoc .., hn', hq, hD,
        late _ m ch p p' n.db hpre hr hI hp hn hV⟩

/-- The call is on its way out with the error `e`, or has returned it. -/
def Ends (e : Err) : Phase → Prop
  | .inTx _ _ (.rollback e') => e' = e
  | .audit _ ret => ret = .failed e
  | .done ret => ret = .failed e
  | _ => False

/-- **A rejection is final**, unless it is the key conflict that fetches the transaction again. -/
theorem next_ends {db : Db} {ch : Choice} {p p' : Phase} {e : Err} (hn : Next cfg db r ch p p')
    (hne : e ≠ .sentinel .idempotencyConflict) (h : Ends e p) :
    Ends e p' ∧ p.commit? r ch = none := by
  cases hn with
  | rolledBack w tx e' =>
      obtain rfl : e' = e := h
      refine ⟨?_, rfl⟩
      rw [Request.afterTxErr, if_neg hne]
      exact rfl
  | audited => exact ⟨h, rfl⟩
  | auditFails => exact ⟨h, rfl⟩
  | @statementFails w tx stage text e' he =>
      cases stage with
      | rollback => cases he
      | _ => cases h
  | _ => cases h

/-- The header a call is working with. -/
def Phase.work? : Phase → Option Work
  | .beginTx w => some w
  | .inTx w _ _ => some w
  | .refetch w => some w
  | .refetchEntries w _ => some w
  | _ => none

/-- A call keeps its header, and gets it with the id it generates. -/
theorem next_work {db : Db} {ch : Choice} {p p' : Phase} (hn : Next cfg db r ch p p') {w : Work}
    (h : p'.work? = some w) : p.work? = some w ∨ ch = .uuid w.txn.id := by
  cases hn with
  | generated pst u =>
      cases h
      exact .inr (congrArg Choice.uuid (r.txn_fields u).1.symm)
  | missed => cases r <;> cases h
  | lookupFails => cases r <;> cases h
  | lookupEntriesFails => cases r <;> cases h
  | rolledBack w' tx e =>
      unfold Request.afterTxErr at h
      split at h
      · exact .inl h
      · cases h
  | _ => first | exact .inl h | cases h

/-- The id of a call's header is one the call has generated. -/
theorem exec_generated {s₀ : St} {p₀ : Phase} (h₀ : SysInv cfg s₀)
    (hc : s₀.calls[i]? = some (.request r p₀)) (hp : p₀.work? = none) {acts : List Act} {s : St}
    (h : exec cfg s₀ acts = some s) {p : Phase} (hc' : s.calls[i]? = some (.request r p)) {w : Work}
    (hw : p.work? = some w) : .call i (.uuid w.txn.id) ∈ acts := by
  obtain ⟨p', hp', hP⟩ := exec_track
    (P := fun as _ p => ∀ w, p.work? = some w → .call i (.uuid w.txn.id) ∈ as) h₀ hc h
    (fun w hw => by rw [hp] at hw; cases hw)
    (fun _ _ _ _ _ _ _ _ _ _ ih w hw => List.mem_append_left _ (ih w hw))
    (fun _ _ _ _ _ _ _ _ _ _ _ hn ih w hw => by
      rcases next_work hn hw with hw | rfl
      · exact List.mem_append_left _ (ih w hw)
      · exact List.mem_append_right _ (List.mem_singleton_self _))
  rw [hc'] at hp'
  cases hp'
  exact hP w hw

/-- The state in which a request has just arrived. -/
def St.arrived (s : St) (r : Request) : St :=
  { s with calls := s.calls ++ [.request r r.start] }

theorem arrived_call (s : St) (r : Request) :
    (s.arrived r).calls[s.calls.length]? = some (.request r r.start) :=
  List.getElem?_concat_length

theorem inv_arrived (hI : SysInv cfg s) (r : Request) : SysInv cfg (s.arrived r) :=
  inv_step hI (a := .arrive r) rfl

end Call

/-! ## 3. The audit log -/

/-- What a step of a call writes to the audit log. -/
theorem step_auditLog {cfg : Config} {s s' : St} {i : Nat} {r : Request} {p : Phase} {ch : Choice}
    (h : step cfg s (.call i ch) = some s') (hc : s.calls[i]? = some (.request r p)) :
    s'.db.auditLog = s.db.auditLog ++ (p.audits s.db s.clock ch).toList := by
  simp only [step, hc, callStep] at h
  obtain ⟨_, hcall, rfl⟩ := Option.map_eq_some_iff.mp h
  obtain ⟨⟨db', p'⟩, hreq, rfl⟩ := Option.map_eq_some_iff.mp hcall
  exact requestStep_auditLog hreq

/-! ## 4. The commits of one call -/

/-- The commits of call `i` in a history. -/
def own (h : List (Nat × Commit)) (i : Nat) : List (Nat × Commit) := h.filter fun e => e.1 = i

theorem own_append (h h' : List (Nat × Commit)) (i : Nat) :
    own (h ++ h') i = own h i ++ own h' i := List.filter_append ..

theorem own_eq_nil {h : List (Nat × Commit)} {i : Nat} (hn : own h i = []) :
    ∀ e ∈ h, e.1 ≠ i := by
  simpa [own] using hn

theorem own_other {i j : Nat} (hij : j ≠ i) (k : Option Commit) :
    own (k.map fun k => (i, k)).toList j = [] := by
  cases k <;> simp [own, Ne.symm hij]

theorem own_self (i : Nat) (k : Commit) : own [(i, k)] i = [(i, k)] := by
  simp [own]

/-- The history of a run that goes on by one action. -/
theorem history_snoc {cfg : Config} {s₀ s s' : St} {as : List Act} {a : Act}
    (hr : exec cfg s₀ as = some s) (hs : step cfg s a = some s') :
    history cfg s₀ (as ++ [a]) = history cfg s₀ as ++ (commitOf cfg s a).toList :=
  labels_snoc hr hs

/-- An action of another call is no commit of this one. -/
theorem own_commitOf_ne {cfg : Config} {s : St} {a : Act} {i : Nat} (h : ∀ ch, a ≠ .call i ch) :
    own (commitOf cfg s a).toList i = [] := by
  cases hc : commitOf cfg s a with
  | none => rfl
  | some e =>
      obtain ⟨ch, hch⟩ := commitOf_index hc
      have : e.1 ≠ i := fun e' => h ch (e' ▸ hch)
      simp [own, this]

/-- The transaction a call reports as its own. -/
def Phase.committed? : Phase → Option Transaction
  | .audit _ (.committed t _) => some t
  | .done (.committed t _) => some t
  | _ => none

/-- A call that is not on its way out has committed nothing. -/
theorem Phase.committed?_of {P : Phase → Prop} (ha : ∀ e ret, ¬P (.audit e ret))
    (hd : ∀ ret, ¬P (.done ret)) {p : Phase} (h : P p) : p.committed? = none := by
  cases p with
  | audit e ret => exact absurd h (ha e ret)
  | done ret => exact absurd h (hd ret)
  | _ => rfl

/-- Nor has one that ends with an error. -/
theorem Ends.committed? {e : Err} {p : Phase} (h : Ends e p) : p.committed? = none := by
  cases p with
  | audit => cases h; rfl
  | done => cases h; rfl
  | _ => rfl

theorem start_committed (r : Request) : r.start.committed? = none := by
  rcases start_cases r with h | ⟨e, s, h⟩ <;> rw [h] <;> rfl

theorem afterLookup_committed (r : Request) : r.afterLookup.committed? = none := by
  cases r <;> rfl

theorem afterTxErr_committed (r : Request) (w : Work) (e : Err) :
    (r.afterTxErr w e).committed? = none := by
  unfold Request.afterTxErr
  split <;> rfl

/-- The commit a step performs and what the call reports afterwards. -/
theorem next_committed {cfg : Config} {db : Db} {r : Request} {ch : Choice} {p p' : Phase} {i : Nat}
    (hn : Next cfg db r ch p p') (hack : (Act.call i ch).losesAck = false) :
    (p.commit? r ch = none ∧ p'.committed? = p.committed?) ∨
      ∃ (w : Work) (tx : Tx), p.commit? r ch = some (.request r (w.stamp tx)) ∧
        p.committed? = none ∧ p'.committed? = some w.txn := by
  cases hn with
  | missed => exact .inl ⟨rfl, afterLookup_committed r⟩
  | lookupFails => exact .inl ⟨rfl, afterLookup_committed r⟩
  | lookupEntriesFails => exact .inl ⟨rfl, afterLookup_committed r⟩
  | committed w tx => exact .inr ⟨w, tx, rfl, rfl, rfl⟩
  | ackLost => cases hack
  | statementFails h => exact .inl ⟨Phase.commit?_fail r _ _, rfl⟩
  | rolledBack => exact .inl ⟨rfl, afterTxErr_committed r _ _⟩
  | audited e ret => exact .inl ⟨rfl, by cases ret <;> rfl⟩
  | auditFails e ret => exact .inl ⟨rfl, by cases ret <;> rfl⟩
  | _ => exact .inl ⟨rfl, rfl⟩

/-- No fault hits the steps of a call the run is healthy for. -/
theorem healthy_of_mem {i : Nat} {ch : Choice} {as acts : List Act}
    (hh : ∀ a ∈ acts, a.healthyFor i = true) (hpre : as ++ [.call i ch] <+: acts) :
    ch.healthy = true := by
  have := hh _ (hpre.subset (List.mem_append_right _ (List.mem_singleton_self _)))
  simpa [Act.healthyFor] using this

/-- **A call that reports no commit has made none, unless its acknowledgement was lost.** -/
theorem exec_own_iff {cfg : Config} {s₀ s : St} {i : Nat} {r : Request} {p₀ p : Phase}
    (h₀ : SysInv cfg s₀) (hc : s₀.calls[i]? = some (.request r p₀)) {acts : List Act}
    (h : exec cfg s₀ acts = some s) (hc' : s.calls[i]? = some (.request r p))
    (hp : p.committed? = none) :
    own (history cfg s₀ acts) i = [] ↔ ∀ text, .call i (.lostAck text) ∉ acts := by
  obtain ⟨p', hp', hP⟩ := exec_track
    (P := fun as _ p => p.committed? = none →
      (own (history cfg s₀ as) i = [] ↔ ∀ text, .call i (.lostAck text) ∉ as)) h₀ hc h
    (fun _ => ⟨fun _ _ => List.not_mem_nil, fun _ => rfl⟩)
    (fun as m a m' p _ hr _ hs hne ih hp => by
      rw [history_snoc hr hs, own_append, own_commitOf_ne hne, List.append_nil, ih hp]
      simp only [List.mem_append, List.mem_singleton, not_or]
      exact ⟨fun h text => ⟨h text, (hne _).symm⟩, fun h text => (h text).1⟩)
    (fun as m ch m' p p' _ hr hI hs hc hn ih hp' => by
      rw [history_snoc hr hs, commitOf_own hI hc, own_append]
      cases ch with
      | lostAck text =>
          cases hn with
          | ackLost w tx =>
              have hk : (Phase.inTx w tx .commit).commit? r (.lostAck text) =
                some (.request r (w.stamp tx)) := rfl
              rw [hk, Option.map_some, Option.toList_some, own_self]
              exact ⟨fun h => absurd h (by simp), fun h => absurd (by simp) (h text)⟩
      | _ =>
          rcases next_committed (i := i) hn rfl with ⟨hk, he⟩ | ⟨w, tx, _, _, he⟩
          · rw [hk, Option.map_none, Option.toList_none, show own [] i = [] from rfl,
              List.append_nil, ih (he ▸ hp')]
            simp
          · rw [he] at hp'
            cases hp')
  rw [hc'] at hp'
  cases hp'
  exact hP hp

/-- A call that reports no commit has made none, as long as no fault hits it. -/
theorem exec_uncommitted {cfg : Config} {s₀ s : St} {i : Nat} {r : Request} {p₀ p : Phase}
    (h₀ : SysInv cfg s₀) (hc : s₀.calls[i]? = some (.request r p₀)) {acts : List Act}
    (h : exec cfg s₀ acts = some s) (hh : ∀ a ∈ acts, a.healthyFor i = true)
    (hc' : s.calls[i]? = some (.request r p)) (hp : p.committed? = none) :
    own (history cfg s₀ acts) i = [] := by
  refine (exec_own_iff h₀ hc h hc' hp).mpr fun text hin => ?_
  have := hh _ hin
  simp [Act.healthyFor, Choice.healthy] at this

/-- **The key of an uncommitted call stays unused** if no other call commits it. -/
theorem exec_key_free {cfg : Config} {s₀ s : St} {i : Nat} {r : Request} {p₀ p : Phase}
    (h₀ : SysInv cfg s₀) (hc : s₀.calls[i]? = some (.request r p₀)) {key : GoString}
    (hkey : ∀ t ∈ s₀.db.transactions, t.idempotencyKey ≠ key) {acts as : List Act}
    (hpre : as <+: acts) (h : exec cfg s₀ as = some s) (hh : ∀ a ∈ acts, a.healthyFor i = true)
    (huse : ∀ e ∈ history cfg s₀ acts, e.1 ≠ i → e.2.key? ≠ some key)
    (hc' : s.calls[i]? = some (.request r p)) (hp : p.committed? = none) :
    ∀ t ∈ s.db.transactions, t.idempotencyKey ≠ key := by
  have hown := exec_uncommitted h₀ hc h (fun a ha => hh a (hpre.subset ha)) hc' hp
  obtain ⟨rest, rfl⟩ := hpre
  refine exec_key_unused h₀ h hkey fun e he => huse e ?_ (own_eq_nil hown e he)
  rw [history, labels_append h]
  exact List.mem_append_left _ he

/-! ## 5. Locking both accounts -/

/-- Both accounts of the posting are locked or about to be. -/
def LockComplete (p : Posting) (todo : List UUID) (rows : List Account) : Prop :=
  p.first ∈ rows.map (·.id) ++ todo ∧ p.second ∈ rows.map (·.id) ++ todo

theorem lockComplete_start {cfg : Config} {L : Ledger} {p : Posting}
    (h₁ : ∃ a ∈ L.accounts, a.id = p.first) (h₂ : ∃ a ∈ L.accounts, a.id = p.second) :
    LockComplete p (lockAccountsForUpdate cfg L [p.first, p.second]) [] := by
  constructor
  · exact (lockAccountsForUpdate_mem cfg L _ _).mpr ⟨by simp, h₁⟩
  · exact (lockAccountsForUpdate_mem cfg L _ _).mpr ⟨by simp, h₂⟩

theorem LockComplete.next {p : Posting} {a : AccountRow} {todo : List UUID} {rows : List Account}
    (h : LockComplete p (a.id :: todo) rows) : LockComplete p todo (rows ++ [scanAccount a]) := by
  simpa [LockComplete] using h

/-- **Both accounts named, both locked**: the query returns exactly two rows. -/
theorem LockingOk.length_two {cfg : Config} {L : Ledger} {p : Posting} {tx : Tx}
    {rows : List Account} (h : LockingOk cfg L p tx [] rows) (hne : p.first ≠ p.second)
    (hc : LockComplete p [] rows) : rows.length = 2 := by
  unfold LockComplete at hc
  have hsorted := h.sorted
  have hids := h.ids
  rw [List.append_nil] at hc hsorted hids
  have hnd : (rows.map (·.id)).Nodup := hsorted.imp fun h => h.2
  have hperm : (rows.map (·.id)).Perm [p.first, p.second] := by
    refine (List.perm_ext_iff_of_nodup hnd (by simpa using hne)).mpr fun id => ?_
    refine ⟨fun hid => by simpa using hids id hid, fun hid => ?_⟩
    simp only [List.mem_cons, List.not_mem_nil, or_false] at hid
    rcases hid with rfl | rfl
    · exact hc.1
    · exact hc.2
  simpa using hperm.length_eq

end BankingService
