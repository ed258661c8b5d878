/-
  File:      BankingService/Props/ListingOrder.lean
  Subject:   THE ORDER OF THE LISTING AND THE ORDER OF THE COMMITS: `created_at` is the time a
             transaction began, and it takes its locks later.

  * `LocksAfter` -- a row lock is granted to a transaction that began after (or not before) every
    transaction committed on that account.
  * `OrderInv` -- under that condition on every lock step the headers of an account are in the order
    of their times, and so will those be that are about to come (`orderInv_step`): nothing commits
    on an account while another call holds its lock.
  * `Event`, `Orderly` -- the BEGINs, locks and COMMITs of a run, in which no call is overtaken
    between its BEGIN and its lock. The clock does not go back, so the locks are then granted in
    order (`exec_locksAfter`).
  * `listing_order` -- what then holds of any two transactions on one account, and of the running
    balance in the order of the listing; `listing_out_of_order` -- without it, it does not.
-/
import BankingService.Proof.Locks
import BankingService.Proof.Sent

namespace BankingService

open Lib

/-! ## 1. Locks and times -/

/-- The transaction an action acquires a row lock for, and the account. -/
def lockOf (s : St) : Act → Option (Tx × UUID)
  | .call i ch =>
    match s.calls[i]? with
    | some (.request _ p) =>
      match p.tx?, p.locks? ch with
      | some tx, some id => some (tx, id)
      | _, _ => none
    | _ => none
  | _ => none

/-- A lock is granted to a transaction that is younger, in the sense of `old`, than what is
    committed on the account. -/
def LocksAfter (old : UUID → Time → Time → Prop) (s : St) (a : Act) : Prop :=
  ∀ x ∈ lockOf s a, ∀ t ∈ s.db.headersOf x.2, old x.2 t.createdAt x.1.now

/-- Not younger, on any account. -/
def notYounger (_ : UUID) (t t' : Time) : Prop := t ≤ t'

/-- Strictly older, on a user account. -/
def olderOnUser (id : UUID) (t t' : Time) : Prop := id = externalAccountID ∨ t < t'

/-- **The order of the times**: the headers of an account are in it, and whoever holds the lock of
    an account comes after them. -/
structure OrderInv (old : UUID → Time → Time → Prop) (s : St) : Prop where
  sorted : ∀ id, (s.db.headersOf id).Pairwise fun t t' => old id t.createdAt t'.createdAt
  held : ∀ i tx, s.tx? i = some tx → ∀ id, .account id ∈ tx.forUpdate →
    ∀ t ∈ s.db.headersOf id, old id t.createdAt tx.now

section Order

variable {old : UUID → Time → Time → Prop} {cfg : Config} {s s' : St} {a : Act}

/-- A step that commits no posting. -/
theorem orderInv_quiet (hO : OrderInv old s) (h : step cfg s a = some s')
    (hl : LocksAfter old s a) (hsame : ∀ id, s'.db.headersOf id = s.db.headersOf id) :
    OrderInv old s' := by
  refine ⟨fun id => hsame id ▸ hO.sorted id, fun i tx' ht id hid t htm => ?_⟩
  rw [hsame] at htm
  rcases step_tx h ht with ⟨hst, _⟩ | ⟨ch, r, p, rfl, hc, ⟨_, rfl⟩ | ⟨tx, htx, hnow, hrows⟩⟩
  · exact hO.held i tx' hst id hid t htm
  · exact absurd hid List.not_mem_nil
  · rw [hnow]
    rcases hrows _ hid with hid | ⟨id', hlock, e⟩
    · exact hO.held i tx ((St.tx?_of_call hc).trans ((Call.tx?_request r p).trans htx)) id hid t htm
    · cases e
      have hx : lockOf s (.call i ch) = some (tx, id) := by
        simp only [lockOf, hc, htx, hlock]
      exact hl _ hx t htm

/-- A step that commits a posting: its accounts are locked by its own call, so they are not by
    another. -/
theorem orderInv_posts (hI : SysInv cfg s) (hO : OrderInv old s) (h : step cfg s a = some s')
    {i : Nat} {r : Request} {st : Stamp} (hl : commitOf cfg s a = some (i, .request r st)) :
    OrderInv old s' := by
  obtain ⟨⟨ch, rfl⟩, ⟨_, _, hc', hover⟩, w, tx, t, hc, hnow, hheaders⟩ := step_posts hI h hl
  have htx : s.tx? i = some tx := St.tx?_of_call hc
  refine ⟨fun id => ?_, fun j tx' ht id hid t' ht' => ?_⟩
  · rcases hheaders id with he | ⟨_, hlock, he⟩
    · rw [he]
      exact hO.sorted id
    · rw [he, List.pairwise_append]
      refine ⟨hO.sorted id, List.pairwise_singleton .., fun t₁ h₁ t₂ h₂ => ?_⟩
      rw [List.mem_singleton.mp h₂, hnow]
      exact hO.held i tx htx id hlock t₁ h₁
  · rcases step_tx h ht with ⟨hst, hne⟩ | ⟨ch', _, _, e, _⟩
    · have hij : j ≠ i := fun e => hne ch (e ▸ rfl)
      rcases hheaders id with he | ⟨_, hlock, _⟩
      · rw [he] at ht'
        exact hO.held j tx' hst id hid t' ht'
      · exact absurd hid ((hI.apart i j tx tx' (Ne.symm hij) htx hst).rows _ hlock)
    · cases e
      rw [St.tx?_of_call hc', Call.tx?_request, Phase.tx?_of_isOver hover] at ht
      cases ht

/-- **Every step whose lock is granted in order keeps the order.** -/
theorem orderInv_step (hI : SysInv cfg s) (hO : OrderInv old s) (h : step cfg s a = some s')
    (hl : LocksAfter old s a) : OrderInv old s' := by
  cases hk : commitOf cfg s a with
  | none =>
      have hL := step_silent hI h hk
      exact orderInv_quiet hO h hl fun id => by rw [hL]
  | some e =>
      obtain ⟨i, c⟩ := e
      cases c with
      | request r st => exact orderInv_posts hI hO h hk
      | createAccount id' name =>
          obtain ⟨_, hL⟩ := apply_createAccount (step_commit hI h hk)
          refine orderInv_quiet hO h hl fun id => ?_
          rw [hL]
          rfl

/-- **The order along a run.** -/
theorem exec_orderInv {s₀ : St} (h₀ : SysInv cfg s₀) (hO : OrderInv old s₀) {acts : List Act}
    (h : exec cfg s₀ acts = some s) (hl : ∀ e ∈ trace cfg s₀ acts, LocksAfter old e.1 e.2) :
    OrderInv old s :=
  (run_inv_steps (I := fun s => SysInv cfg s ∧ OrderInv old s) (C := LocksAfter old)
    (fun _ _ _ hl hI hs => ⟨inv_step hI.1 hs, orderInv_step hI.1 hI.2 hs hl⟩) ⟨h₀, hO⟩ h hl).2

end Order

/-! ## 2. Events -/

/-- What a step has to do with times and locks: BEGIN with its `now()`, a row lock, and the COMMIT
    of a posting with its two accounts. -/
inductive Event where
  | begins (i : Nat) (now : Time)
  | locks (i : Nat) (id : UUID)
  | commits (i : Nat) (debitID creditID : UUID)
  deriving DecidableEq, Repr

def eventOf (cfg : Config) (s : St) : Act → Option Event
  | .call i ch =>
    match s.calls[i]? with
    | some (.request _ (.inTx w _ .commit)) =>
      (commitOf cfg s (.call i ch)).map fun _ =>
        .commits i w.posting.debitID w.posting.creditID
    | some (.request _ p) =>
      if p.begins ch then some (.begins i s.clock) else (p.locks? ch).map (.locks i)
    | _ => none
  | _ => none

/-- The events of a run, in order. -/
def events (cfg : Config) (s : St) (acts : List Act) : List Event :=
  labels (step cfg) (eventOf cfg) s acts

/-- Four events in which another call begins and commits on an account between the BEGIN of a call
    and its lock on that account. -/
def overtakes : List Event → Bool
  | [.begins i _, .begins j _, .commits j' debitID creditID, .locks i' id] =>
    decide (i = i' ∧ j = j' ∧ i ≠ j ∧ (id = debitID ∨ id = creditID))
  | _ => false

/-- No call is overtaken. -/
def Orderly (ev : List Event) : Prop := ∀ l ∈ ev.sublists, overtakes l = false

instance (ev : List Event) : Decidable (Orderly ev) :=
  inferInstanceAs (Decidable (∀ l ∈ ev.sublists, overtakes l = false))

def Event.begin? : Event → Option Time
  | .begins _ now => some now
  | _ => none

/-- The times of the BEGINs, in order. -/
def beginTimes (ev : List Event) : List Time := ev.filterMap Event.begin?

/-- **The events behind a state**: the BEGIN of each open transaction, and the BEGIN and the COMMIT
    of each header that was not there at the start. -/
structure EventInv (first : List TransactionRow) (s : St) (ev : List Event) : Prop where
  old : ∀ t ∈ first, t.createdAt ≤ s.clock
  since : ∀ t ∈ first, ∀ t' ∈ beginTimes ev, t.createdAt ≤ t'
  times : (beginTimes ev).Pairwise (· ≤ ·)
  past : ∀ t ∈ beginTimes ev, t ≤ s.clock
  begun : ∀ i tx, s.tx? i = some tx → .begins i tx.now ∈ ev
  ended : ∀ i debitID creditID, .commits i debitID creditID ∈ ev →
    ∃ r p, s.calls[i]? = some (.request r p) ∧ p.isOver = true
  headers : ∀ id, ∀ t ∈ s.db.headersOf id, t ∈ first ∨
    ∃ i debitID creditID, (id = debitID ∨ id = creditID) ∧
      List.Sublist [.begins i t.createdAt, .commits i debitID creditID] ev

section Events

variable {cfg : Config} {s s' : St} {a : Act} {first : List TransactionRow} {ev : List Event}

theorem eventOf_begins {i : Nat} {ch : Choice} {r : Request} {p : Phase}
    (hc : s.calls[i]? = some (.request r p)) (hb : p.begins ch = true) :
    eventOf cfg s (.call i ch) = some (.begins i s.clock) := by
  cases p with
  | beginTx w => simp only [eventOf, hc, hb, if_true]
  | _ => cases hb

theorem eventOf_locks {tx : Tx} {id : UUID} (h : lockOf s a = some (tx, id)) :
    ∃ i, s.tx? i = some tx ∧ eventOf cfg s a = some (.locks i id) := by
  cases a with
  | call i ch =>
      simp only [lockOf] at h
      split at h
      · rename_i r p hc
        split at h
        · rename_i tx' id' htx hlock
          cases h
          refine ⟨i, (St.tx?_of_call hc).trans ((Call.tx?_request r p).trans htx), ?_⟩
          cases p with
          | inTx w tx stage =>
              cases stage with
              | lockRow todo rows =>
                  simp only [eventOf, hc, Phase.begins, hlock, Option.map_some,
                    Bool.false_eq_true, if_false]
              | _ => cases ch <;> cases hlock
          | _ => cases htx
        · cases h
      · cases h
  | _ => cases h

/-- A time in the events of a step is the time of the step. -/
theorem eventOf_begin {t : Time} (h : t ∈ beginTimes (eventOf cfg s a).toList) : t = s.clock := by
  cases he : eventOf cfg s a with
  | none =>
      rw [he] at h
      cases h
  | some e =>
      rw [he] at h
      cases e with
      | begins i now =>
          have hnow : now = s.clock := by
            cases a with
            | call i ch =>
                simp only [eventOf] at he
                split at he
                · obtain ⟨_, _, e⟩ := Option.map_eq_some_iff.mp he
                  cases e
                · split at he
                  · cases he
                    rfl
                  · obtain ⟨_, _, e⟩ := Option.map_eq_some_iff.mp he
                    cases e
                · cases he
            | _ => cases he
          rw [← hnow]
          exact List.mem_singleton.mp h
      | _ => cases h

/-- A COMMIT among the events of a step. -/
theorem eventOf_commits {i : Nat} {debitID creditID : UUID}
    (h : eventOf cfg s a = some (.commits i debitID creditID)) :
    ∃ r st, commitOf cfg s a = some (i, .request r st) := by
  cases a with
  | call i ch =>
      simp only [eventOf] at h
      split at h
      · rename_i r w tx hc
        obtain ⟨⟨j, c⟩, hk, e⟩ := Option.map_eq_some_iff.mp h
        cases e
        simp only [commitOf, hc] at hk ⊢
        split at hk
        · exact ⟨_, _, rfl⟩
        · cases hk
      · split at h
        · cases h
        · obtain ⟨_, _, e⟩ := Option.map_eq_some_iff.mp h
          cases e
      · cases h
  | _ => cases h

theorem eventOf_of_commit {i : Nat} {r : Request} {st : Stamp} {w : Work} {tx : Tx} {ch : Choice}
    (hl : commitOf cfg s (.call i ch) = some (i, .request r st))
    (hc : s.calls[i]? = some (.request r (.inTx w tx .commit))) :
    eventOf cfg s (.call i ch) = some (.commits i w.posting.debitID w.posting.creditID) := by
  simp only [eventOf, hc, hl, Option.map_some]

/-- **One step** keeps the account of the events. -/
theorem eventInv_step (hI : SysInv cfg s) (hE : EventInv first s ev) (h : step cfg s a = some s') :
    EventInv first s' (ev ++ (eventOf cfg s a).toList) := by
  have hclock : s.clock ≤ s'.clock := by
    rcases step_cases h with ⟨r, rfl, rfl⟩ | ⟨name, rfl, rfl⟩ | ⟨d, rfl, rfl⟩ |
      ⟨j, ch, c, db', c', rfl, hj, hs, rfl⟩
    · exact Nat.le_refl _
    · exact Nat.le_refl _
    · exact Nat.le_add_right ..
    · exact Nat.le_refl _
  have hold : ∀ i : Nat, (∃ r p, s.calls[i]? = some (.request r p) ∧ p.isOver = true) →
      ∃ r p, s'.calls[i]? = some (.request r p) ∧ p.isOver = true := by
    rintro i ⟨r, p, hc, hover⟩
    rcases step_call hI h hc with ⟨hc', _⟩ | ⟨ch, p', _, hc', hn⟩
    · exact ⟨r, p, hc', hover⟩
    · exact ⟨r, p', hc', next_isOver hn hover⟩
  refine ⟨fun t ht => (hE.old t ht).trans hclock, fun t ht t' ht' => ?_, ?_, fun t ht => ?_,
    fun i tx' ht => ?_, fun i debitID creditID he => ?_, fun id t ht => ?_⟩
  · rw [beginTimes, List.filterMap_append] at ht'
    rcases List.mem_append.mp ht' with ht' | ht'
    · exact hE.since t ht t' ht'
    · rw [eventOf_begin ht']
      exact hE.old t ht
  · rw [beginTimes, List.filterMap_append, List.pairwise_append]
    refine ⟨hE.times, ?_, fun t ht t' ht' => ?_⟩
    · cases eventOf cfg s a with
      | none => exact List.Pairwise.nil
      | some e =>
          cases e with
          | begins => exact List.pairwise_singleton ..
          | _ => exact List.Pairwise.nil
    · rw [eventOf_begin ht']
      exact hE.past t ht
  · rw [beginTimes, List.filterMap_append] at ht
    rcases List.mem_append.mp ht with ht | ht
    · exact (hE.past t ht).trans hclock
    · rw [eventOf_begin ht]
      exact hclock
  · rcases step_tx h ht with ⟨hst, _⟩ | ⟨ch, r, p, rfl, hc, ⟨hb, rfl⟩ | ⟨tx, htx, hnow, _⟩⟩
    · exact List.mem_append_left _ (hE.begun i tx' hst)
    · rw [eventOf_begins hc hb]
      exact List.mem_append_right _ (List.mem_singleton_self _)
    · rw [hnow]
      exact List.mem_append_left _
        (hE.begun i tx ((St.tx?_of_call hc).trans ((Call.tx?_request r p).trans htx)))
  · rcases List.mem_append.mp he with he | he
    · exact hold i (hE.ended i debitID creditID he)
    · obtain ⟨r, st, hl⟩ := eventOf_commits (Option.mem_toList.mp he)
      exact (step_posts hI h hl).2.1
  · -- a header is new only if the step is the COMMIT of its posting
    have hquiet : t ∈ s.db.headersOf id → t ∈ first ∨
        ∃ i debitID creditID, (id = debitID ∨ id = creditID) ∧
          List.Sublist [.begins i t.createdAt, .commits i debitID creditID]
            (ev ++ (eventOf cfg s a).toList) := by
      intro ht
      refine (hE.headers id t ht).imp_right ?_
      rintro ⟨i, debitID, creditID, hid, hsub⟩
      exact ⟨i, debitID, creditID, hid, hsub.trans (List.sublist_append_left ..)⟩
    cases hk : commitOf cfg s a with
    | none =>
        rw [step_silent hI h hk] at ht
        exact hquiet ht
    | some e =>
        obtain ⟨i, c⟩ := e
        cases c with
        | createAccount id' name =>
            obtain ⟨_, hL⟩ := apply_createAccount (step_commit hI h hk)
            rw [hL] at ht
            exact hquiet ht
        | request r st =>
            obtain ⟨⟨ch, rfl⟩, _, w, tx, t', hc, hnow, hheaders⟩ := step_posts hI h hk
            rcases hheaders id with he | ⟨hid, _, he⟩
            · rw [he] at ht
              exact hquiet ht
            · rw [he] at ht
              rcases List.mem_append.mp ht with ht | ht
              · exact hquiet ht
              · rw [List.mem_singleton.mp ht, hnow, eventOf_of_commit hk hc]
                refine .inr ⟨i, _, _, hid, ?_⟩
                exact (List.singleton_sublist.mpr (hE.begun i tx (St.tx?_of_call hc))).append
                  (List.Sublist.refl [_])

theorem orderly_of_append {ev' : List Event} (h : Orderly (ev ++ ev')) : Orderly ev := fun l hl =>
  h l (List.mem_sublists.mpr ((List.mem_sublists.mp hl).trans (List.sublist_append_left ..)))

/-- An element of a list comes before or after another one. -/
theorem before_or_after {α : Type} {l : List α} {x y z : α} (h : List.Sublist [x, y] l)
    (hz : z ∈ l) : List.Sublist [z, x, y] l ∨ z = x ∨ List.Sublist [x, z] l := by
  obtain ⟨l₁, l₂, rfl, hx, hy⟩ := List.cons_sublist_iff.mp h
  obtain ⟨l₀, l₁, rfl⟩ := List.append_of_mem hx
  rcases List.mem_append.mp hz with hz | hz
  · rcases List.mem_append.mp hz with hz | hz
    · have hx' : List.Sublist [x] (x :: l₁) := List.singleton_sublist.mpr List.mem_cons_self
      exact .inl (((List.singleton_sublist.mpr hz).append hx').append hy)
    · rcases List.mem_cons.mp hz with rfl | hz
      · exact .inr (.inl rfl)
      · refine .inr (.inr (List.Sublist.trans ?_ (List.sublist_append_left ..)))
        exact ((List.singleton_sublist.mpr hz).cons_cons x).trans (List.sublist_append_right ..)
  · refine .inr (.inr ?_)
    exact (List.singleton_sublist.mpr hx).append (List.singleton_sublist.mpr hz)

/-- **The locks of a call that is not overtaken** are granted in the order of the BEGINs: `R` is how
    the times of two BEGINs compare, one after the other, and those of the start with them. -/
theorem locksAfter_of_orderly {R : Time → Time → Prop} (hE : EventInv first s ev)
    (ho : Orderly (ev ++ (eventOf cfg s a).toList)) (hR : (beginTimes ev).Pairwise R)
    (hfirst : ∀ t ∈ first, ∀ t' ∈ beginTimes ev, R t.createdAt t') :
    LocksAfter (fun _ => R) s a := by
  intro x hx t ht
  obtain ⟨tx, id⟩ := x
  obtain ⟨i, htx, he⟩ := @eventOf_locks cfg s a tx id hx
  have hbegun := hE.begun i tx htx
  have htime : tx.now ∈ beginTimes ev := List.mem_filterMap.mpr ⟨_, hbegun, rfl⟩
  rcases hE.headers id t ht with ht | ⟨j, debitID, creditID, hid, hsub⟩
  · exact hfirst t ht _ htime
  · -- a call that has committed holds no lock any more
    have hij : i ≠ j := by
      rintro rfl
      obtain ⟨r, p, hc, hover⟩ := hE.ended i debitID creditID (hsub.subset (by simp))
      rw [St.tx?_of_call hc, Call.tx?_request, Phase.tx?_of_isOver hover] at htx
      cases htx
    rcases before_or_after hsub hbegun with h | h | h
    · have hfour : overtakes [.begins i tx.now, .begins j t.createdAt,
          .commits j debitID creditID, .locks i id] = false := by
        refine ho _ (List.mem_sublists.mpr ?_)
        rw [he]
        exact h.append (List.Sublist.refl [_])
      exact absurd ⟨rfl, rfl, hij, hid⟩ (of_decide_eq_false hfour)
    · exact absurd (Event.begins.inj h).1 hij
    · have htimes : List.Sublist [t.createdAt, tx.now] (beginTimes ev) := h.filterMap Event.begin?
      exact List.pairwise_pair.mp (hR.sublist htimes)

theorem exec_eventInv {s₀ : St} (h₀ : SysInv cfg s₀) (hE : EventInv first s₀ []) {acts : List Act}
    (h : exec cfg s₀ acts = some s) : EventInv first s (events cfg s₀ acts) := by
  refine run_induction (motive := fun as s => EventInv first s (events cfg s₀ as)) hE ?_ h
  intro as s a s' hrun ih hs
  rw [events, labels_snoc hrun hs]
  exact eventInv_step (inv_exec h₀ hrun) ih hs

/-- **Along a run** in which no call is overtaken. -/
theorem exec_locksAfter {R : Time → Time → Prop} {s₀ : St} (h₀ : SysInv cfg s₀)
    (hE : EventInv first s₀ []) {acts : List Act} (h : exec cfg s₀ acts = some s)
    (ho : Orderly (events cfg s₀ acts)) (hR : (beginTimes (events cfg s₀ acts)).Pairwise R)
    (hfirst : ∀ t ∈ first, ∀ t' ∈ beginTimes (events cfg s₀ acts), R t.createdAt t') :
    ∀ e ∈ trace cfg s₀ acts, LocksAfter (fun _ => R) e.1 e.2 := by
  refine run_induction (motive := fun as _ => Orderly (events cfg s₀ as) →
    (beginTimes (events cfg s₀ as)).Pairwise R →
    (∀ t ∈ first, ∀ t' ∈ beginTimes (events cfg s₀ as), R t.createdAt t') →
    ∀ e ∈ trace cfg s₀ as, LocksAfter (fun _ => R) e.1 e.2) ?_ ?_ h ho hR hfirst
  · exact fun _ _ _ e he => absurd he List.not_mem_nil
  · intro as s a s' hrun ih hs ho hR hfirst e he
    rw [events, labels_snoc hrun hs] at ho hR hfirst
    rw [beginTimes, List.filterMap_append] at hR hfirst
    have hR' := (List.pairwise_append.mp hR).1
    have hfirst' := fun t ht t' ht' => hfirst t ht t' (List.mem_append_left _ ht')
    rw [trace, steps_snoc hrun hs] at he
    rcases List.mem_append.mp he with he | he
    · exact ih (orderly_of_append ho) hR' hfirst' e he
    · rw [List.mem_singleton.mp he]
      exact locksAfter_of_orderly (exec_eventInv h₀ hE hrun) ho hR' hfirst'

end Events

/-! ## 3. The start -/

theorem orderInv_start {old : UUID → Time → Time → Prop} {db : Db} {clock : Time}
    (h : ∀ id, (db.headersOf id).Pairwise fun t t' => old id t.createdAt t'.createdAt) :
    OrderInv old (St.start db clock) := by
  refine ⟨h, fun i tx ht => ?_⟩
  obtain ⟨r, w, stage, hc⟩ := St.call_of_tx? ht
  exact absurd (List.mem_of_getElem? hc) List.not_mem_nil

theorem migrated_createdAt (now : Time) :
    ∀ t ∈ (Db.migrated now).transactions, t.createdAt = now := by
  rw [Db.migrated_eq]
  intro t ht
  simp only [List.mem_cons, List.not_mem_nil, or_false] at ht
  rcases ht with rfl | rfl | rfl <;> rfl

theorem eventInv_start {db : Db} {clock : Time} (h : ∀ t ∈ db.transactions, t.createdAt ≤ clock) :
    EventInv db.transactions (St.start db clock) [] where
  old := h
  since _ _ _ ht' := absurd ht' List.not_mem_nil
  times := List.Pairwise.nil
  past _ ht := absurd ht List.not_mem_nil
  begun i tx ht := by
    obtain ⟨r, w, stage, hc⟩ := St.call_of_tx? ht
    exact absurd (List.mem_of_getElem? hc) List.not_mem_nil
  ended _ _ _ he := absurd he List.not_mem_nil
  headers _ _ ht := .inl (mem_headersOf.mp ht).1

/-- The seed deposits have one time. -/
theorem notYounger_migrated (now : Time) (id : UUID) :
    ((Db.migrated now).headersOf id).Pairwise fun t t' =>
      notYounger id t.createdAt t'.createdAt := by
  have hnow := migrated_createdAt now
  refine List.pairwise_of_forall_mem_list fun t ht t' ht' => ?_
  rw [hnow t (mem_headersOf.mp ht).1, hnow t' (mem_headersOf.mp ht').1]
  exact Nat.le_refl now

/-- No user account has two of them. -/
theorem olderOnUser_migrated (now : Time) (id : UUID) :
    ((Db.migrated now).headersOf id).Pairwise fun t t' =>
      olderOnUser id t.createdAt t'.createdAt := by
  by_cases hx : id = externalAccountID
  · exact List.pairwise_of_forall_mem_list fun _ _ _ _ => .inl hx
  · have h₁₂ : seedDepositID 1 ≠ seedDepositID 2 := by decide
    have h₁₃ : seedDepositID 1 ≠ seedDepositID 3 := by decide
    have h₂₃ : seedDepositID 2 ≠ seedDepositID 3 := by decide
    rw [Db.migrated_eq, Ledger.headersOf, List.pairwise_filter]
    have hab : aliceID = id → bobID ≠ id := fun h h' => absurd (h.trans h'.symm) (by decide)
    have hac : aliceID = id → charlieID ≠ id := fun h h' => absurd (h.trans h'.symm) (by decide)
    have hbc : bobID = id → charlieID ≠ id := fun h h' => absurd (h.trans h'.symm) (by decide)
    simp +contextual [Ne.symm hx, h₁₂, h₁₃, h₂₃, h₁₂.symm, h₁₃.symm, h₂₃.symm, hab, hac, hbc]

/-! ## 4. The listing -/

/-- A listing of all the headers of an account, oldest first, is the order of the commits if the
    times are. -/
theorem Newest.reverse_eq {limit : Nat} {all rows : List TransactionRow} (h : Newest limit all rows)
    (hlen : all.length ≤ limit) (hs : all.Pairwise fun t t' => t.createdAt < t'.createdAt) :
    rows.reverse = all := by
  obtain ⟨hlength, hnd, hsub, hsorted, _⟩ := h
  have hperm : rows.reverse.Perm all := by
    refine (List.reverse_perm rows).trans
      ((List.subperm_of_subset hnd hsub).perm_of_length_le ?_)
    rw [hlength, Nat.min_eq_right hlen]
  have htimes : (all.map (·.createdAt)).Nodup :=
    List.pairwise_map.mpr (hs.imp fun h => Nat.ne_of_lt h)
  have hanti : ∀ t t', t ∈ rows.reverse → t' ∈ all → t.createdAt ≤ t'.createdAt →
      t'.createdAt ≤ t.createdAt → t = t' := by
    intro t t' ht ht' hle hge
    exact row_unique htimes (hperm.subset ht) ht' (Nat.le_antisymm hle hge)
  exact hperm.eq_of_pairwise hanti (List.pairwise_reverse.mpr hsorted) (hs.imp Nat.le_of_lt)

/-- Of two transactions on one account the one among the first committed comes first. -/
theorem OrderInv.before {old : UUID → Time → Time → Prop} {s : St} (hO : OrderInv old s)
    {first : List TransactionRow} (hp : first <+: s.db.transactions) {t₁ t₂ : TransactionRow}
    (h₁ : t₁ ∈ first) (h₂ : t₂ ∉ first) {id : UUID} (hid₁ : t₁ ∈ s.db.headersOf id)
    (hid₂ : t₂ ∈ s.db.headersOf id) : old id t₁.createdAt t₂.createdAt := by
  obtain ⟨rest, hrest⟩ := hp
  have hsorted := hO.sorted id
  rw [Ledger.headersOf, ← hrest, List.filter_append] at hsorted hid₂
  have hin₂ := (List.mem_append.mp hid₂).resolve_left fun h => h₂ (List.mem_filter.mp h).1
  exact (List.pairwise_append.mp hsorted).2.2 t₁
    (List.mem_filter.mpr ⟨h₁, (List.mem_filter.mp hid₁).2⟩) t₂ hin₂

/-- **The order of the listing.** Take any run, from the migrated database and a clock that is not
    before the migrations, in which no call is overtaken: none begins and commits on an account
    between the BEGIN of another call and its lock on this account.

    Then the times follow the commits: of two transactions on one account, the one that is committed
    at a point of the run where the other is not (not having its locks yet, say) is not the younger
    one.

    If moreover the clock moves on from the migrations to the first BEGIN and from each BEGIN to the
    next, and no deposit wraps in the driver, then the listing of all transactions of a user
    account, read from its oldest line on, never passes through a negative running balance, however
    the server orders lines with one time. -/
theorem listing_order {cfg : Config} {now clock : Time} (hclock : now ≤ clock) {acts : List Act}
    {s : St} (h : exec cfg (St.start (Db.migrated now) clock) acts = some s)
    (ho : Orderly (events cfg (St.start (Db.migrated now) clock) acts)) :
    (∀ pre post m, acts = pre ++ post →
      exec cfg (St.start (Db.migrated now) clock) pre = some m →
      ∀ t₁ ∈ m.db.transactions, ∀ t₂ ∈ s.db.transactions, t₂ ∉ m.db.transactions →
        ∀ id, t₁ ∈ s.db.headersOf id → t₂ ∈ s.db.headersOf id → t₁.createdAt ≤ t₂.createdAt) ∧
    ((now :: beginTimes (events cfg (St.start (Db.migrated now) clock) acts)).Pairwise (· < ·) →
      (∀ a ∈ acts, a.sendable = true) → ∀ a ∈ s.db.accounts, a.isSystem = false → ∀ limit rows,
        (s.db.headersOf a.id).length ≤ limit → Newest limit (s.db.headersOf a.id) rows →
        ∀ k, 0 ≤ ((rows.reverse.take k).map (s.db.effect a.id)).sum) := by
  have h₀ := inv_start cfg now clock
  have hE := eventInv_start fun t ht => (migrated_createdAt now t ht).trans_le hclock
  refine ⟨fun pre post m hacts hpre t₁ h₁ t₂ _ h₂ id hid₁ hid₂ => ?_,
    fun hmoves hsend a ha hsys limit rows hlen hrows k => ?_⟩
  · have hEs := exec_eventInv h₀ hE h
    have hl := exec_locksAfter (R := (· ≤ ·)) h₀ hE h ho hEs.times hEs.since
    have hO := exec_orderInv h₀ (orderInv_start (notYounger_migrated now)) h hl
    subst hacts
    obtain ⟨m', hm', hpost⟩ := run_append_eq_some.mp h
    obtain rfl : m = m' := Option.some.inj (hpre.symm.trans hm')
    exact hO.before (exec_transactions (inv_exec h₀ hpre) hpost) h₁ h₂ hid₁ hid₂
  · obtain ⟨hfirst, hmoves⟩ := List.pairwise_cons.mp hmoves
    have hl := exec_locksAfter (R := (· < ·)) h₀ hE h ho hmoves fun t ht t' ht' => by
      rw [migrated_createdAt now t ht]
      exact hfirst t' ht'
    have hI := inv_exec h₀ h
    have hO := exec_orderInv h₀ (orderInv_start (olderOnUser_migrated now)) h
      fun e he x hx t ht => .inr (hl e he x hx t ht)
    have hS := exec_moves (I := StatementOk) (fun _ _ _ hL hs hc => statementOk_move hL hs hc) h₀
      (St.sendable_start _ _) (statementOk_migrated now) hsend h
    have hne : a.id ≠ externalAccountID := fun e => by
      rw [(hI.ledger.system a ha).mpr e] at hsys
      cases hsys
    have hstrict := (hO.sorted a.id).imp fun h => h.resolve_left hne
    rw [hrows.reverse_eq hlen hstrict, List.map_take]
    exact hS.nonneg a ha hne k

/-- Alice sends Bob 2500, and later the transfer is reversed. -/
def orderlyRun : List Act :=
  soloCall 0 (.transfer aliceID bobID (Money.fromInt 2500) (bytes "pay-1") (bytes "req-1"))
      100#128 ++ [.tick 5] ++
    soloCall 1 (.reverse 100#128 (bytes "undo-1") (bytes "req-2")) 101#128

theorem orderlyRun_isSome :
    (exec Config.migrated (St.start (Db.migrated 0) 1000) orderlyRun).isSome = true := by
  decide +kernel

def orderlyEnd : St :=
  (exec Config.migrated (St.start (Db.migrated 0) 1000) orderlyRun).get orderlyRun_isSome

theorem orderlyRun_exec :
    exec Config.migrated (St.start (Db.migrated 0) 1000) orderlyRun = some orderlyEnd :=
  (Option.some_get orderlyRun_isSome).symm

/-- The reversal begins later and is not overtaken, so no listing has a negative running
    balance. -/
theorem listing_order_orderly :
    events Config.migrated (St.start (Db.migrated 0) 1000) orderlyRun =
        [.begins 0 1000, .locks 0 aliceID, .locks 0 bobID, .commits 0 aliceID bobID,
          .begins 1 1005, .locks 1 aliceID, .locks 1 bobID, .commits 1 bobID aliceID] ∧
      ∀ a ∈ orderlyEnd.db.accounts, a.isSystem = false → ∀ limit rows,
        (orderlyEnd.db.headersOf a.id).length ≤ limit →
        Newest limit (orderlyEnd.db.headersOf a.id) rows →
        ∀ k, 0 ≤ ((rows.reverse.take k).map (orderlyEnd.db.effect a.id)).sum := by
  have hev : events Config.migrated (St.start (Db.migrated 0) 1000) orderlyRun =
      [.begins 0 1000, .locks 0 aliceID, .locks 0 bobID, .commits 0 aliceID bobID,
        .begins 1 1005, .locks 1 aliceID, .locks 1 bobID, .commits 1 bobID aliceID] := by
    decide +kernel
  have hclock : (0 : Time) ≤ 1000 := by decide
  have ho : Orderly (events Config.migrated (St.start (Db.migrated 0) 1000) orderlyRun) := by
    rw [hev]
    decide +kernel
  refine ⟨hev, (listing_order hclock orderlyRun_exec ho).2 ?_ (by decide +kernel)⟩
  rw [hev]
  decide +kernel

/-- Bob sends Charlie 15000. -/
def slowTransfer : Request :=
  .transfer bobID charlieID (Money.fromInt 15000) (bytes "slow-1") (bytes "req-1")

/-- Alice sends Bob 8000. -/
def quickTransfer : Request :=
  .transfer aliceID bobID (Money.fromInt 8000) (bytes "quick-1") (bytes "req-2")

/-- The slow transfer begins; ten microseconds later the quick one begins, locks and commits. -/
def overtaken : List Act :=
  [.arrive slowTransfer, .call 0 .ok, .call 0 (.uuid 100#128), .call 0 .ok, .tick 10] ++
    soloCall 1 quickTransfer 101#128

/-- Then the slow transfer takes its locks and commits. -/
def overtakenRun : List Act := overtaken ++ List.replicate 16 (.call 0 .ok)

theorem overtaken_isSome :
    (exec Config.migrated (St.start (Db.migrated 0) 1000) overtaken).isSome = true := by
  decide +kernel

theorem overtakenRun_isSome :
    (exec Config.migrated (St.start (Db.migrated 0) 1000) overtakenRun).isSome = true := by
  decide +kernel

def overtakenMid : St :=
  (exec Config.migrated (St.start (Db.migrated 0) 1000) overtaken).get overtaken_isSome

def overtakenEnd : St :=
  (exec Config.migrated (St.start (Db.migrated 0) 1000) overtakenRun).get overtakenRun_isSome

def quickRow : TransactionRow := ⟨101#128, .transfer, bytes "quick-1", none, 1010⟩

def slowRow : TransactionRow := ⟨100#128, .transfer, bytes "slow-1", none, 1000⟩

/-- **The listing out of order.** Both transfers are on Bob's account. The quick one is committed
    when the slow one has no lock yet, and has the later time; in the order of the times Bob sends
    15000 on a balance of 10000. -/
theorem listing_out_of_order :
    exec Config.migrated (St.start (Db.migrated 0) 1000) overtaken = some overtakenMid ∧
      exec Config.migrated (St.start (Db.migrated 0) 1000) overtakenRun = some overtakenEnd ∧
      (overtakenMid.tx? 0).map (·.forUpdate) = some [] ∧
      quickRow ∈ overtakenMid.db.transactions ∧ slowRow ∉ overtakenMid.db.transactions ∧
      quickRow ∈ overtakenEnd.db.headersOf bobID ∧ slowRow ∈ overtakenEnd.db.headersOf bobID ∧
      slowRow.createdAt < quickRow.createdAt ∧
      ∃ rows, Newest 50 (overtakenEnd.db.headersOf bobID) rows ∧
        ((rows.reverse.take 2).map (overtakenEnd.db.effect bobID)).sum = -50000000 := by
  have hmid : (overtakenMid.tx? 0).map (·.forUpdate) = some [] ∧
      quickRow ∈ overtakenMid.db.transactions ∧ slowRow ∉ overtakenMid.db.transactions := by
    decide +kernel
  have hlist : overtakenEnd.db.headersOf bobID =
      [⟨seedDepositID 2, .deposit, bytes "seed-deposit-bob-001", none, 0⟩, quickRow, slowRow] := by
    decide +kernel
  refine ⟨(Option.some_get overtaken_isSome).symm, (Option.some_get overtakenRun_isSome).symm,
    hmid.1, hmid.2.1, hmid.2.2, ?_⟩
  rw [hlist]
  exact ⟨by decide +kernel, by decide +kernel, by decide,
    [quickRow, slowRow, ⟨seedDepositID 2, .deposit, bytes "seed-deposit-bob-001", none, 0⟩],
    by decide +kernel, by decide +kernel⟩

end BankingService
