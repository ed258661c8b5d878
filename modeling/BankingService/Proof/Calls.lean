/-
  File:      BankingService/Proof/Calls.lean
  Subject:   PROPERTIES OF A CALL AND THE LEDGER that a growing ledger keeps.

  * `step_calls` -- what a step of the machine has to show for such a property: that it holds of a
    call that arrives, and that a step of the call itself keeps it;
  * `exec_calls` -- then every call of every run has it;
  * `exec_created` -- an account that `CreateAccount` has returned is in the table.
-/
import BankingService.Proof.Tables

namespace BankingService

open Lib

section Calls

variable {cfg : Config} {s s' : St} {a : Act} {P : Ledger → Call → Prop}

/-- **A property of call `i` through one step of the machine.** -/
theorem step_calls (hI : SysInv cfg s) (h : step cfg s a = some s')
    (mono : ∀ {L L' c}, L.Extends L' → P L c → P L' c)
    (arrive : ∀ r, P s.db.toLedger (.request r r.start))
    (arriveCreate : ∀ name, P s.db.toLedger (.createAccount name .newID)) {i : Nat}
    (own : ∀ ch c db' c', a = .call i ch → s.calls[i]? = some c →
      callStep cfg s i ch c = some (db', c') → s.db.toLedger.Extends db'.toLedger →
      P s.db.toLedger c → P db'.toLedger c')
    (ih : ∀ c, s.calls[i]? = some c → P s.db.toLedger c) {c' : Call}
    (hc' : s'.calls[i]? = some c') : P s'.db.toLedger c' := by
  have hext := step_extends hI h
  rcases step_cases h with ⟨r, rfl, rfl⟩ | ⟨name, rfl, rfl⟩ | ⟨d, rfl, rfl⟩ |
    ⟨j, ch, c, db', c₁, rfl, hc, hcall, rfl⟩
  · rcases getElem?_snoc hc' with hc' | ⟨_, rfl⟩
    · exact ih c' hc'
    · exact arrive r
  · rcases getElem?_snoc hc' with hc' | ⟨_, rfl⟩
    · exact ih c' hc'
    · exact arriveCreate name
  · exact ih c' hc'
  · by_cases hij : j = i
    · subst hij
      rw [List.getElem?_set_self (List.getElem?_eq_some_iff.mp hc).1] at hc'
      cases hc'
      exact own ch c db' c' rfl hc hcall hext (ih c hc)
    · rw [List.getElem?_set_ne hij] at hc'
      exact mono hext (ih c' hc')

/-- **The same along a run.** -/
theorem exec_calls {s₀ : St} {acts : List Act} (h₀ : SysInv cfg s₀) (hcalls : s₀.calls = [])
    (h : exec cfg s₀ acts = some s) (mono : ∀ {L L' c}, L.Extends L' → P L c → P L' c)
    (arrive : ∀ L r, P L (.request r r.start))
    (arriveCreate : ∀ L name, P L (.createAccount name .newID))
    (own : ∀ s i ch c db' c', SysInv cfg s → s.calls[i]? = some c →
      callStep cfg s i ch c = some (db', c') → s.db.toLedger.Extends db'.toLedger →
      P s.db.toLedger c → P db'.toLedger c') {i : Nat} {c : Call}
    (hc : s.calls[i]? = some c) : P s.db.toLedger c := by
  refine run_induction (motive := fun _ s => ∀ c, s.calls[i]? = some c → P s.db.toLedger c)
    ?_ ?_ h c hc
  · intro c hc
    rw [hcalls] at hc
    cases hc
  · intro as m a m' hr ih hs c' hc'
    have hI := inv_exec h₀ hr
    exact step_calls (P := P) hI hs mono (arrive _) (arriveCreate _)
      (fun ch c db' c' _ hc hcall hext hP => own m i ch c db' c' hI hc hcall hext hP) ih hc'

end Calls

/-! ## Created accounts -/

/-- A returned account is in the table. -/
def Created (L : Ledger) : Call → Prop
  | .createAccount name (.done a) =>
    ∃ row ∈ L.accounts, row.id = a.id ∧ row.name = name ∧ row.isSystem = false
  | _ => True

theorem Created.mono {L L' : Ledger} (he : L.Extends L') {c : Call} (h : Created L c) :
    Created L' c := by
  cases c with
  | request => trivial
  | createAccount name p =>
      cases p with
      | done a =>
          obtain ⟨row, hrow, hid, hname, hsys⟩ := h
          obtain ⟨row', hrow', e₁, e₂, e₃⟩ := he.account row hrow
          exact ⟨row', hrow', e₁.trans hid, e₂.trans hname, e₃.trans hsys⟩
      | _ => trivial

/-- The INSERT that succeeds puts the row into the table. -/
theorem createStep_row {db db' : Db} {name : GoString} {p : CreatePhase} {ch : Choice} {a : Account}
    (h : createStep db name p ch = some (db', .done a)) :
    ∃ row ∈ db'.accounts, row.id = a.id ∧ row.name = name ∧ row.isSystem = false := by
  cases p with
  | newID => cases ch <;> cases h
  | insert id =>
      cases ch with
      | ok =>
          simp only [createStep] at h
          split at h
          · cases h
          · rename_i L hins
            cases h
            obtain ⟨_, rfl⟩ := insertAccount_spec hins
            exact ⟨_, List.mem_append_right _ (List.mem_singleton_self _), rfl, rfl, rfl⟩
      | fail => cases h
      | lostAck =>
          simp only [createStep] at h
          split at h <;> cases h
      | uuid => cases h
  | done => cases ch <;> cases h
  | failed => cases ch <;> cases h

/-- **An account that was returned is in the table**, in every state from then on. -/
theorem exec_created {cfg : Config} {s₀ s : St} {acts : List Act} (h₀ : SysInv cfg s₀)
    (hcalls : s₀.calls = []) (h : exec cfg s₀ acts = some s) {i : Nat} {name : GoString}
    {a : Account} (hc : s.calls[i]? = some (.createAccount name (.done a))) :
    ∃ row ∈ s.db.accounts, row.id = a.id ∧ row.name = name ∧ row.isSystem = false := by
  refine exec_calls (P := Created) h₀ hcalls h (fun he hP => hP.mono he) (fun _ _ => trivial)
    (fun _ _ => trivial) (fun m i ch c db' c' _ _ hcall _ _ => ?_) hc
  cases c with
  | request r p =>
      obtain ⟨_, _, e⟩ := Option.map_eq_some_iff.mp hcall
      cases e
      trivial
  | createAccount name p =>
      obtain ⟨⟨db₁, p'⟩, hp, e⟩ := Option.map_eq_some_iff.mp hcall
      cases e
      cases p' with
      | done a => exact createStep_row hp
      | _ => trivial

end BankingService
