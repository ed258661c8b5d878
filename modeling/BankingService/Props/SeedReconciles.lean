/-
  File:      BankingService/Props/SeedReconciles.lean
  Subject:   MIGRATION 0003 AND RECONCILIATION: when the balances are still those of the entries.

  0003 up writes -30000 on EXTERNAL and 10000 on each account it creates; 0003 down writes 0 on
  EXTERNAL. Neither looks at what else has been booked. What the schema enforces holds in every
  reachable database (`reachable_schemaOk`), and there the balances sum to 0 as soon as each of them
  is the net of its entries (`reconciled_iff`); so only the accounts whose balance or whose entries
  the migration has touched matter.

  * `reconciled_up_iff`, `reconciled_down_iff` -- one migration.
  * `seed_reconciles_iff` -- the exact conditions, in every reachable database.
-/
import BankingService.Proof.Seeds

namespace BankingService

open Lib

/-! ## 1. Reconciled databases -/

/-- Every balance is the net of the account's entries, and the balances sum to 0. -/
def Reconciled (L : Ledger) : Prop :=
  (∀ a ∈ L.accounts, a.balance = L.credits a.id - L.debits a.id) ∧ L.total = 0

instance (L : Ledger) : Decidable (Reconciled L) := inferInstanceAs (Decidable (_ ∧ _))

/-- Where every transaction balances, the second equation follows from the first. -/
theorem reconciled_iff {L : Ledger} (hL : SchemaOk L) :
    Reconciled L ↔ ∀ a ∈ L.accounts, a.balance = net L.entries a.id := by
  simp only [Reconciled, credits_sub_debits, and_iff_left_iff_imp]
  intro h
  calc L.total = (L.accounts.map fun a => net L.entries a.id).sum := by
        rw [Ledger.total, List.map_congr_left h]
    _ = (L.entries.map EntryRow.signed).sum := sum_groups EntryRow.signed hL.accountIDs
        hL.entryAccount
    _ = 0 := sum_eq_zero_of_groups hL.balanced

/-! ## 2. Reachable databases -/

/-- The versions with and without the seed data. -/
inductive Version where
  | two
  | three
  deriving DecidableEq, Repr

/-- The databases that runs of the service and migration 0003 lead to, from 0001 and 0002 on. -/
inductive Reachable (cfg : Config) : Version → Db → Prop
  | start : Reachable cfg .two (migrate0002Up Db.empty)
  | run {v : Version} {db : Db} {clock : Time} {acts : List Act} {s : St} :
      Reachable cfg v db → exec cfg (St.start db clock) acts = some s → Reachable cfg v s.db
  | up {db db' : Db} {now : Time} :
      Reachable cfg .two db → migrate0003Up now db = .ok db' → Reachable cfg .three db'
  | down {db db' : Db} :
      Reachable cfg .three db → migrate0003Down db = .ok db' → Reachable cfg .two db'

theorem reachable_schemaOk {cfg : Config} (hcfg : cfg.constraints = true) {v : Version} {db : Db}
    (h : Reachable cfg v db) : SchemaOk db.toLedger := by
  induction h with
  | start => exact ⟨inv_version2.accountIDs, inv_version2.entryAccount, fun _ => rfl⟩
  | run _ hrun ih => exact exec_schemaOk hcfg ih hrun
  | up _ hup ih => exact schemaOk_up ih hup
  | down _ hdown ih => exact schemaOk_down ih hdown

/-! ## 3. Up -/

/-- What one of the six entries adds to an account. -/
def Leg.effect (id : UUID) (l : Leg) : Int :=
  if l.account = id then
    match l.direction with
    | .credit => seedAmount
    | .debit => -seedAmount
  else 0

theorem net_eq_effects {new : List EntryRow} (h : ∀ e ∈ new, e.amount = seedAmount) (id : UUID) :
    net new id = ((new.map EntryRow.toLeg).map (Leg.effect id)).sum := by
  induction new with
  | nil => rfl
  | cons e new ih =>
      rw [net_cons, ih fun e he => h e (List.mem_cons_of_mem _ he), List.map_cons, List.map_cons,
        List.sum_cons]
      refine congrArg (· + _) ?_
      simp only [Leg.effect, EntryRow.toLeg, EntryRow.signed, h e List.mem_cons_self]
      cases e.direction <;> rfl

section Effects

variable (p : Leg → Bool)

/-- On EXTERNAL the selected debits count. -/
theorem effects_external {l : List Seed} (h : ∀ s ∈ l, s.account ≠ externalAccountID) :
    (((l.flatMap fun s => [s.debit, s.credit]).filter p).map
      (Leg.effect externalAccountID)).sum =
      -seedAmount * (l.filter fun s => p s.debit).length := by
  induction l with
  | nil => rfl
  | cons s l ih =>
      have hdebit : Leg.effect externalAccountID s.debit = -seedAmount := rfl
      have hcredit : Leg.effect externalAccountID s.credit = 0 := if_neg (h s List.mem_cons_self)
      rw [List.flatMap_cons, List.filter_append, List.map_append, List.sum_append,
        ih fun s hs => h s (List.mem_cons_of_mem _ hs)]
      cases hd : p s.debit <;> cases hc : p s.credit <;> simp [hd, hc, hdebit, hcredit] <;> ring

/-- On any other account the selected credits count. -/
theorem effects_account {id : UUID} (h : externalAccountID ≠ id) (l : List Seed) :
    (((l.flatMap fun s => [s.debit, s.credit]).filter p).map (Leg.effect id)).sum =
      seedAmount * (l.filter fun s => decide (s.account = id) && p s.credit).length := by
  induction l with
  | nil => rfl
  | cons s l ih =>
      have hdebit : Leg.effect id s.debit = 0 := if_neg h
      have hcredit : Leg.effect id s.credit = if s.account = id then seedAmount else 0 := rfl
      rw [List.flatMap_cons, List.filter_append, List.map_append, List.sum_append, ih]
      by_cases ha : s.account = id <;> cases hd : p s.debit <;> cases hc : p s.credit <;>
        simp [ha, hd, hc, hdebit, hcredit] <;> ring

end Effects

/-- The balances that 0003 up writes are those of the entries: an account it does not create has its
    seed entry already, and EXTERNAL has the three debits if it is left alone, and nothing but
    them if it is not. -/
structure UpFits (L : Ledger) : Prop where
  demo : ∀ s ∈ seeds, (∃ a ∈ L.accounts, a.id = s.account) → s.credit ∈ L.entries.map EntryRow.toLeg
  external : ∀ a ∈ L.accounts, a.id = externalAccountID →
    if ∃ t ∈ L.transactions, t.idempotencyKey = aliceKey then
      ∀ s ∈ seeds, s.debit ∈ L.entries.map EntryRow.toLeg
    else a.balance = -seedAmount *
      (seeds.filter fun s => decide (s.debit ∈ L.entries.map EntryRow.toLeg)).length

theorem seedBalance_other {L : Ledger} {a : AccountRow} (h : a.id ≠ externalAccountID) :
    L.seedBalance a = a := by
  unfold Ledger.seedBalance
  rw [if_neg h, ite_self]

theorem seed_ne_external : ∀ s ∈ seeds, s.account ≠ externalAccountID := by decide

section Up

variable {now : Time} {db db' : Db} {new : List EntryRow} {a : AccountRow}

/-- The entries that 0003 up adds to EXTERNAL. -/
theorem UpDone.net_external (h : UpDone now db db' new) :
    net new externalAccountID = -seedAmount *
      (seeds.filter fun s => decide (s.debit ∉ db.entries.map EntryRow.toLeg)).length := by
  rw [net_eq_effects h.amounts, h.legs]
  exact effects_external _ seed_ne_external

/-- The entries that it adds to any other account. -/
theorem UpDone.net_account (h : UpDone now db db' new) {id : UUID} (hx : id ≠ externalAccountID) :
    net new id = seedAmount * (seeds.filter fun s => decide (s.account = id) &&
      decide (s.credit ∉ db.entries.map EntryRow.toLeg)).length := by
  rw [net_eq_effects h.amounts, h.legs]
  exact effects_account _ hx.symm seeds

/-- EXTERNAL after 0003 up. -/
theorem UpDone.external_iff (h : UpDone now db db' new) (hx : a.id = externalAccountID)
    (hR : a.balance = net db.entries a.id) :
    (db.seedBalance a).balance = net (db.entries ++ new) a.id ↔
      if ∃ t ∈ db.transactions, t.idempotencyKey = aliceKey then
        ∀ s ∈ seeds, s.debit ∈ db.entries.map EntryRow.toLeg
      else a.balance = -seedAmount *
        (seeds.filter fun s => decide (s.debit ∈ db.entries.map EntryRow.toLeg)).length := by
  have hkey : (db.transactionByKey? aliceKey).isSome = true ↔
      ∃ t ∈ db.transactions, t.idempotencyKey = aliceKey := by
    simp [Ledger.transactionByKey?]
  rw [net_append, ← hR, hx, h.net_external, Ledger.seedBalance]
  simp only [hkey]
  split
  · -- nothing is written, so nothing may be added
    have hnone :
        (seeds.filter fun s => decide (s.debit ∉ db.entries.map EntryRow.toLeg)).length = 0 ↔
          ∀ s ∈ seeds, s.debit ∈ db.entries.map EntryRow.toLeg := by
      rw [List.length_eq_zero_iff, List.filter_eq_nil_iff]
      simp only [decide_eq_true_eq, not_not]
    rw [← hnone, seedAmount]
    omega
  · -- the three debits are those that were there and those that are added
    have hcount := List.length_eq_length_filter_add (l := seeds)
      fun s => decide (s.debit ∈ db.entries.map EntryRow.toLeg)
    simp only [← decide_not] at hcount
    have hthree : seeds.length = 3 := rfl
    show -300000000 = _ ↔ _
    rw [seedAmount]
    omega

/-- Any other account that was there. -/
theorem UpDone.account_iff (h : UpDone now db db' new) (hx : a.id ≠ externalAccountID)
    (hR : a.balance = net db.entries a.id) :
    (db.seedBalance a).balance = net (db.entries ++ new) a.id ↔
      ∀ s ∈ seeds, s.account = a.id → s.credit ∈ db.entries.map EntryRow.toLeg := by
  have hnone : (seeds.filter fun s => decide (s.account = a.id) &&
      decide (s.credit ∉ db.entries.map EntryRow.toLeg)).length = 0 ↔
      ∀ s ∈ seeds, s.account = a.id → s.credit ∈ db.entries.map EntryRow.toLeg := by
    rw [List.length_eq_zero_iff, List.filter_eq_nil_iff]
    simp only [Bool.and_eq_true, decide_eq_true_eq, not_and, not_not]
  rw [seedBalance_other hx, net_append, ← hR, h.net_account hx, ← hnone, seedAmount]
  omega

/-- An account that 0003 up creates has its seed entry and no other: there was none before. -/
theorem UpDone.account_new (h : UpDone now db db' new) (hS : SchemaOk db.toLedger)
    (ha : a ∈ db.newAccounts seedAccounts) :
    (db.seedBalance a).balance = net (db.entries ++ new) a.id := by
  obtain ⟨hrow, hfresh⟩ := mem_newAccounts.mp ha
  have hnoEntry : ∀ e ∈ db.entries, e.accountID ≠ a.id := by
    intro e he hid
    obtain ⟨b, hb, hbid⟩ := hS.entryAccount e he
    exact hfresh (hid ▸ hbid ▸ List.mem_map_of_mem hb)
  have hrows : ∀ a ∈ seedAccounts, a.id ≠ externalAccountID ∧ a.balance = seedAmount ∧
      (seeds.filter fun s => decide (s.account = a.id)).length = 1 := by decide
  obtain ⟨hx, hbalance, hone⟩ := hrows a hrow
  have hadded : (seeds.filter fun s => decide (s.account = a.id) &&
      decide (s.credit ∉ db.entries.map EntryRow.toLeg)) =
      seeds.filter fun s => decide (s.account = a.id) := by
    refine List.filter_congr fun s _ => ?_
    by_cases hs : s.account = a.id
    · have hout : s.credit ∉ db.entries.map EntryRow.toLeg := by
        intro hin
        obtain ⟨e, he, hleg⟩ := List.mem_map.mp hin
        exact hnoEntry e he ((congrArg Leg.account hleg).trans hs)
      rw [decide_eq_true hout, Bool.and_true]
    · rw [decide_eq_false hs, Bool.false_and]
  rw [seedBalance_other hx, hbalance, net_append, net_none hnoEntry, h.net_account hx, hadded, hone,
    seedAmount]
  rfl

/-- **0003 up**: when its balances are those of the entries. -/
theorem reconciled_up_iff (hS : SchemaOk db.toLedger) (hR : Reconciled db.toLedger)
    (h : migrate0003Up now db = .ok db') : Reconciled db'.toLedger ↔ UpFits db.toLedger := by
  obtain ⟨new, hup⟩ := migrate0003Up_ok h
  rw [reconciled_iff hS] at hR
  have hafter : Reconciled db'.toLedger ↔
      ∀ a ∈ db.accounts, (db.seedBalance a).balance = net (db.entries ++ new) a.id := by
    rw [reconciled_iff (schemaOk_up hS h), hup.accounts, hup.entries, List.forall_mem_map,
      List.forall_mem_append]
    simp only [Ledger.seedBalance_id, and_iff_left_iff_imp]
    exact fun _ a ha => hup.account_new hS ha
  rw [hafter]
  constructor
  · intro hall
    refine ⟨fun s hs hex => ?_, fun a ha hx => ?_⟩
    · obtain ⟨a, ha, hid⟩ := hex
      have hx : a.id ≠ externalAccountID := hid ▸ seed_ne_external s hs
      exact (hup.account_iff hx (hR a ha)).mp (hall a ha) s hs hid.symm
    · exact (hup.external_iff hx (hR a ha)).mp (hall a ha)
  · intro hfits a ha
    by_cases hx : a.id = externalAccountID
    · exact (hup.external_iff hx (hR a ha)).mpr (hfits.external a ha hx)
    · exact (hup.account_iff hx (hR a ha)).mpr
        fun s hs hid => hfits.demo s hs ⟨a, ha, hid.symm⟩

end Up

/-! ## 4. Down -/

/-- What 0003 down leaves alone was not touched by the entries it deletes, and EXTERNAL has nothing
    but these. -/
structure DownFits (L : Ledger) : Prop where
  external : ∀ a ∈ L.accounts, a.id = externalAccountID →
    a.balance = net (L.entries.filter EntryRow.seeded) a.id
  others : ∀ a ∈ L.accounts, a.demo = false → a.id ≠ externalAccountID →
    net (L.entries.filter EntryRow.seeded) a.id = 0

/-- **0003 down**: when its balances are those of the entries. -/
theorem reconciled_down_iff {db db' : Db} (hS : SchemaOk db.toLedger) (hR : Reconciled db.toLedger)
    (h : migrate0003Down db = .ok db') : Reconciled db'.toLedger ↔ DownFits db.toLedger := by
  rw [reconciled_iff (schemaOk_down hS h)]
  rw [reconciled_iff hS] at hR
  obtain ⟨haccounts, hentries, _⟩ := migrate0003Down_ok h
  have hsplit : ∀ a ∈ db.accounts, a.balance = net (db.entries.filter EntryRow.seeded) a.id +
      net db'.entries a.id := by
    intro a ha
    rw [hR a ha, hentries]
    exact net_filter EntryRow.seeded db.entries a.id
  constructor
  · intro hafter
    have hkept : ∀ a ∈ db.accounts, a.demo = false →
        a.cleared.balance = net db'.entries a.id := by
      intro a ha hd
      have hin : a.cleared ∈ db'.accounts :=
        haccounts ▸ List.mem_map_of_mem (List.mem_filter.mpr ⟨ha, by rw [hd]; rfl⟩)
      rw [hafter _ hin, a.cleared_id]
    refine ⟨fun a ha hx => ?_, fun a ha hd hx => ?_⟩
    · have hd : a.demo = false := by
        rw [AccountRow.demo, hx]
        decide
      have hzero := hkept a ha hd
      rw [AccountRow.cleared, if_pos hx] at hzero
      rw [hsplit a ha, ← hzero, Int.add_zero]
    · have hsame := hkept a ha hd
      rw [AccountRow.cleared, if_neg hx, hsplit a ha] at hsame
      linarith
  · intro hfits b hb
    rw [haccounts] at hb
    obtain ⟨a, ha, rfl⟩ := List.mem_map.mp hb
    obtain ⟨ha, hd⟩ := List.mem_filter.mp ha
    have hbal := hsplit a ha
    rw [a.cleared_id, AccountRow.cleared]
    split
    · rename_i hx
      have := hfits.external a ha hx
      show 0 = _
      linarith
    · rename_i hx
      have := hfits.others a ha (by simpa using hd) hx
      linarith

/-! ## 5. Both directions -/

/-- **When migration 0003 keeps a reachable database reconciled.** -/
theorem seed_reconciles_iff {cfg : Config} (hcfg : cfg.constraints = true) {db db' : Db}
    (hR : Reconciled db.toLedger) :
    (∀ now, Reachable cfg .two db → migrate0003Up now db = .ok db' →
      (Reconciled db'.toLedger ↔ UpFits db.toLedger)) ∧
    (Reachable cfg .three db → migrate0003Down db = .ok db' →
      (Reconciled db'.toLedger ↔ DownFits db.toLedger)) :=
  ⟨fun _ hdb hup => reconciled_up_iff (reachable_schemaOk hcfg hdb) hR hup,
    fun hdb hdown => reconciled_down_iff (reachable_schemaOk hcfg hdb) hR hdown⟩

theorem doraOpens_isSome :
    (exec Config.migrated (St.start (migrate0002Up Db.empty) 1000) doraOpens).isSome = true := by
  decide +kernel

/-- Dora's account, with nothing booked on it. -/
def doraOpened : St :=
  (exec Config.migrated (St.start (migrate0002Up Db.empty) 1000) doraOpens).get doraOpens_isSome

/-- The same after 0003 up. -/
def doraOpenedUp : Db :=
  match migrate0003Up 2000 doraOpened.db with
  | .ok db => db
  | .error _ => doraOpened.db

/-- Next to Dora's account, up and down keep the equations. -/
theorem seed_reconciles_opened :
    (∃ a ∈ doraOpened.db.accounts, a.id = doraID) ∧
      migrate0003Up 2000 doraOpened.db = .ok doraOpenedUp ∧ Reconciled doraOpenedUp.toLedger ∧
      ∃ db', migrate0003Down doraOpenedUp = .ok db' ∧ (∃ a ∈ db'.accounts, a.id = doraID) ∧
        Reconciled db'.toLedger := by
  have hreach : Reachable Config.migrated .two doraOpened.db :=
    .run .start (Option.some_get doraOpens_isSome).symm
  have hup : migrate0003Up 2000 doraOpened.db = .ok doraOpenedUp := by decide +kernel
  have hR : Reconciled doraOpenedUp.toLedger :=
    ((@seed_reconciles_iff Config.migrated rfl _ _ (by decide +kernel)).1 2000 hreach hup).mpr
      ⟨by decide +kernel, by decide +kernel⟩
  obtain ⟨db', hdown, hdora⟩ : ∃ db', migrate0003Down doraOpenedUp = .ok db' ∧
      ∃ a ∈ db'.accounts, a.id = doraID :=
    ⟨⟨⟨[⟨externalAccountID, bytes "EXTERNAL", 0, true⟩, ⟨doraID, bytes "Dora", 0, false⟩], [], []⟩,
      [], 6, 0⟩, by decide +kernel, by decide⟩
  exact ⟨by decide +kernel, hup, hR, db', hdown, hdora,
    ((@seed_reconciles_iff Config.migrated rfl _ _ hR).2 (.up hreach hup) hdown).mpr
      ⟨by decide +kernel, by decide +kernel⟩⟩

theorem migrated_up : migrate0003Up 0 (migrate0002Up Db.empty) = .ok (Db.migrated 0) := by
  decide +kernel

theorem doraLater_isSome :
    (exec Config.migrated (St.start (Db.migrated 0) 1000) doraRun).isSome = true := by
  decide +kernel

/-- Dora's account and deposit at version 3. -/
def doraLater : St :=
  (exec Config.migrated (St.start (Db.migrated 0) 1000) doraRun).get doraLater_isSome

/-- Dora's ledger after 0003 down. -/
def doraUnseeded : Db :=
  match migrate0003Down doraLater.db with
  | .ok db => db
  | .error _ => doraLater.db

/-- **A deposit that the migrations forget.** Dora's 5000 are booked on EXTERNAL; 0003 up sets its
    balance to -30000 where the entries say -35000, and 0003 down to 0 where they say -5000. -/
theorem seed_forgets_deposit :
    (Reachable Config.migrated .two doraEnd.db ∧ Reconciled doraEnd.db.toLedger ∧
      migrate0003Up 2000 doraEnd.db = .ok doraSeeded ∧ ¬Reconciled doraSeeded.toLedger ∧
      (doraSeeded.account? externalAccountID).map (·.balance) = some (-300000000) ∧
      net doraSeeded.entries externalAccountID = -350000000) ∧
    Reachable Config.migrated .three doraLater.db ∧ Reconciled doraLater.db.toLedger ∧
      migrate0003Down doraLater.db = .ok doraUnseeded ∧ ¬Reconciled doraUnseeded.toLedger ∧
      (doraUnseeded.account? externalAccountID).map (·.balance) = some 0 ∧
      net doraUnseeded.entries externalAccountID = -50000000 := by
  have hup : Reconciled doraEnd.db.toLedger ∧ ¬Reconciled doraSeeded.toLedger ∧
      (doraSeeded.account? externalAccountID).map (·.balance) = some (-300000000) ∧
      net doraSeeded.entries externalAccountID = -350000000 := by
    decide +kernel
  have hdown : Reconciled doraLater.db.toLedger ∧
      migrate0003Down doraLater.db = .ok doraUnseeded ∧ ¬Reconciled doraUnseeded.toLedger ∧
      (doraUnseeded.account? externalAccountID).map (·.balance) = some 0 ∧
      net doraUnseeded.entries externalAccountID = -50000000 := by
    decide +kernel
  exact ⟨⟨.run .start doraRun_exec, hup.1, doraSeeded_up, hup.2⟩,
    .run (.up .start migrated_up) (Option.some_get doraLater_isSome).symm, hdown⟩

end BankingService
