/-
  File:      BankingService/Proof/Sent.lean
  Subject:   RUNS WHOSE DEPOSITS ARRIVE AS THEY WERE SENT, that is below `10 ^ 131072`.

  * `exec_sendable` -- every call of such a run is sendable; `sent_induction` -- the induction over
    its steps;
  * **`exec_moves`** -- so what every exact move keeps of the ledger, the run keeps;
    `exec_exact` -- the ledger adds up;
  * `exec_refinesExact` -- the ledger is the replay of exact moves;
  * `exec_phases` -- the induction over all calls of such a run.
-/
import BankingService.Proof.Track

namespace BankingService

open Lib

/-- The request that arrives is sendable. -/
def Act.sendable : Act → Bool
  | .arrive r => r.sendable
  | _ => true

/-- Every call is sendable. -/
def St.Sendable (s : St) : Prop :=
  ∀ (i : Nat) r p, s.calls[i]? = some (.request r p) → r.sendable = true

theorem St.sendable_start (db : Db) (clock : Time) : (St.start db clock).Sendable :=
  fun _ _ _ hc => absurd (List.mem_of_getElem? hc) List.not_mem_nil

section Run

variable {cfg : Config} {s₀ s s' : St} {acts : List Act}

theorem St.Sendable.step (hI : SysInv cfg s) {a : Act} (ha : a.sendable = true)
    (h : step cfg s a = some s') (hs : s.Sendable) : s'.Sendable := by
  intro i r p hc
  rcases call_before hI h hc with ⟨rfl, _⟩ | ⟨p₀, hc₀, _⟩
  · exact ha
  · exact hs i r p₀ hc₀

theorem exec_sendable (h₀ : SysInv cfg s₀) (hs : s₀.Sendable)
    (hacts : ∀ a ∈ acts, a.sendable = true) (h : exec cfg s₀ acts = some s) : s.Sendable := by
  revert hacts
  refine run_induction (motive := fun as m => (∀ a ∈ as, a.sendable = true) → m.Sendable)
    (fun _ => hs) ?_ h
  intro as m a m' hr ih hstep hacts
  exact (ih fun b hb => hacts b (List.mem_append_left _ hb)).step (inv_exec h₀ hr)
    (hacts a (List.mem_append_right _ (List.mem_singleton_self _))) hstep

/-- The commit of a sendable call moves exactly its amount. -/
theorem step_move (hI : SysInv cfg s) (hs : s.Sendable) {a : Act} (h : step cfg s a = some s')
    {e : Nat × Commit} (hl : commitOf cfg s a = some e) :
    e.2.move s.db.toLedger = some s'.db.toLedger := by
  refine move_of_apply hI.ledger ?_ (step_commit hI h hl)
  obtain ⟨j, c⟩ := e
  cases c with
  | request r st =>
      obtain ⟨_, w, tx, _, hc⟩ := commitOf_request hl
      exact hs j r _ hc
  | createAccount => rfl

/-- **Induction over such a run**: at every step the system has its invariant, and every call is
    sendable. -/
theorem sent_induction {motive : List Act → St → Prop} (h₀ : SysInv cfg s₀) (hs : s₀.Sendable)
    (start : motive [] s₀)
    (next : ∀ as m a m', (∀ b ∈ as, b.sendable = true) → exec cfg s₀ as = some m → SysInv cfg m →
      m.Sendable → motive as m → step cfg m a = some m' → motive (as ++ [a]) m')
    (hacts : ∀ a ∈ acts, a.sendable = true) (h : exec cfg s₀ acts = some s) : motive acts s := by
  revert hacts
  refine run_induction (motive := fun as m => (∀ a ∈ as, a.sendable = true) → motive as m)
    (fun _ => start) ?_ h
  intro as m a m' hr ih hstep hacts
  have hpre : ∀ b ∈ as, b.sendable = true := fun b hb => hacts b (List.mem_append_left _ hb)
  exact next as m a m' hpre hr (inv_exec h₀ hr) (exec_sendable h₀ hs hpre hr) (ih hpre) hstep

/-- **What every exact move keeps, every such run keeps.** -/
theorem exec_moves {I : Ledger → Prop}
    (keep : ∀ L L' (c : Commit), LedgerInv L → I L → c.move L = some L' → I L')
    (h₀ : SysInv cfg s₀) (hs : s₀.Sendable) (hi : I s₀.db.toLedger)
    (hacts : ∀ a ∈ acts, a.sendable = true) (h : exec cfg s₀ acts = some s) :
    I s.db.toLedger := by
  refine sent_induction (motive := fun _ m => I m.db.toLedger) h₀ hs hi ?_ hacts h
  intro as m a m' _ _ hI hsend ih hstep
  cases hl : commitOf cfg m a with
  | none =>
      rw [step_silent hI hstep hl]
      exact ih
  | some e => exact keep _ _ e.2 hI.ledger ih (step_move hI hsend hstep hl)

/-- **The ledger adds up** after such a run. -/
theorem exec_exact (h₀ : SysInv cfg s₀) (hs : s₀.Sendable) (hE : LedgerExact s₀.db.toLedger)
    (hacts : ∀ a ∈ acts, a.sendable = true) (h : exec cfg s₀ acts = some s) :
    LedgerExact s.db.toLedger :=
  exec_moves (fun _ _ _ hL hE hc => exact_move hL hE hc) h₀ hs hE hacts h

/-- **The ledger is the replay of exact moves** after such a run. -/
theorem exec_refinesExact (h₀ : SysInv cfg s₀) (hs : s₀.Sendable)
    (hacts : ∀ a ∈ acts, a.sendable = true) (h : exec cfg s₀ acts = some s) :
    replayExact s₀.db.toLedger (history cfg s₀ acts) = some s.db.toLedger := by
  refine sent_induction (motive := fun as m =>
    replayExact s₀.db.toLedger (history cfg s₀ as) = some m.db.toLedger) h₀ hs rfl ?_ hacts h
  intro as m a m' _ hr hI hsend ih hstep
  rw [history_snoc hr hstep]
  cases hl : commitOf cfg m a with
  | none =>
      rw [Option.toList_none, List.append_nil, step_silent hI hstep hl]
      exact ih
  | some e =>
      refine run_append_eq_some.mpr ⟨_, ih, ?_⟩
      rw [Option.toList_some, run_cons]
      exact Option.bind_eq_some_iff.mpr ⟨_, step_move hI hsend hstep hl, rfl⟩

/-- **Induction over the calls of such a run**: what holds of a call at its start, and of its phase
    after every branch, holds of every call. -/
theorem exec_phases {Q : Request → Phase → Prop} (start : ∀ r : Request, Q r r.start)
    (next : ∀ {db : Db} {r : Request} {ch : Choice} {p p' : Phase}, LedgerInv db.toLedger →
      LedgerExact db.toLedger → PhaseOk cfg db r p → r.sendable = true → Next cfg db r ch p p' →
      Q r p')
    {db : Db} {clock : Time} (h₀ : SysInv cfg (St.start db clock)) (hE : LedgerExact db.toLedger)
    (hacts : ∀ a ∈ acts, a.sendable = true) (h : exec cfg (St.start db clock) acts = some s) :
    ∀ (i : Nat) r p, s.calls[i]? = some (.request r p) → Q r p := by
  have hs := St.sendable_start db clock
  refine sent_induction (motive := fun _ m =>
    ∀ (i : Nat) r p, m.calls[i]? = some (.request r p) → Q r p) h₀ hs
    (fun _ _ _ hc => absurd (List.mem_of_getElem? hc) List.not_mem_nil) ?_ hacts h
  intro as m a m' hpre hr hI hsend ih hstep i r p' hc
  rcases call_before hI hstep hc with ⟨_, rfl⟩ | ⟨p, hp, ⟨rfl, _⟩ | ⟨ch, _, hn⟩⟩
  · exact start r
  · exact ih i r p' hp
  · exact next hI.ledger (exec_exact h₀ hs hE hpre hr) (hI.calls i _ hp) (hsend i r p hp) hn

end Run

end BankingService
