/-
  File:      BankingService/Proof/Seeds.lean
  Subject:   MIGRATION 0003, up and down, on any database: which rows it adds, which it takes away.

  * `Seed`, `seedLegs` -- the three deposits and their six entries as a table; `migrate0003Up_eq`
    -- 0003 up as a fold over it.
  * `seedEntries_ok` -- the entries that are added are those that are not there yet; `UpDone`,
    `migrate0003Up_ok` -- what a successful 0003 up has done.
  * `Seeded` -- everything 0003 up looks for is there: then it does nothing (`seeded_noop`), and
    after one 0003 up it is there (`seeded_of_up`).
  * `migrate0003Down_ok` -- what a successful 0003 down has done; `schemaOk_up`, `schemaOk_down` --
    both keep what the schema enforces.
-/
import BankingService.Proof.Tables

namespace BankingService

open Lib

/-! ## 1. The seeds as a table -/

/-- A seed deposit: its header and the account it credits. -/
structure Seed where
  tx : UUID
  account : UUID
  deriving DecidableEq, Repr

def seeds : List Seed :=
  [⟨seedDepositID 1, aliceID⟩, ⟨seedDepositID 2, bobID⟩, ⟨seedDepositID 3, charlieID⟩]

/-- What 0003 up compares of an entry. -/
structure Leg where
  tx : UUID
  account : UUID
  direction : Direction
  deriving DecidableEq, Repr

def EntryRow.toLeg (e : EntryRow) : Leg := ⟨e.transactionID, e.accountID, e.direction⟩

def Seed.debit (s : Seed) : Leg := ⟨s.tx, externalAccountID, .debit⟩

def Seed.credit (s : Seed) : Leg := ⟨s.tx, s.account, .credit⟩

/-- The six entries, in the order of the statements. -/
def seedLegs : List Leg := seeds.flatMap fun s => [s.debit, s.credit]

theorem seedLegs_nodup : seedLegs.Nodup := by decide

def seedAccounts : List AccountRow :=
  [⟨aliceID, bytes "Alice", seedAmount, false⟩, ⟨bobID, bytes "Bob", seedAmount, false⟩,
    ⟨charlieID, bytes "Charlie", seedAmount, false⟩]

def aliceKey : GoString := bytes "seed-deposit-alice-001"

def seedDeposits (now : Time) : List TransactionRow :=
  [⟨seedDepositID 1, .deposit, aliceKey, none, now⟩,
    ⟨seedDepositID 2, .deposit, bytes "seed-deposit-bob-001", none, now⟩,
    ⟨seedDepositID 3, .deposit, bytes "seed-deposit-charlie-001", none, now⟩]

/-- The tables after the statements of 0003 up on `accounts` and `transactions`. -/
def seedTables (now : Time) (L : Ledger) : Ledger :=
  (seedDeposits now).foldl insertTransactionDoNothing
    (seedExternalBalance (seedAccounts.foldl insertAccountDoNothing L))

/-- The statements of 0003 up on `entries`. -/
def seedEntries (now : Time) (legs : List Leg) (db : Db) : Except PgError Db :=
  legs.foldlM (fun db l => seedEntry now l.tx l.account l.direction db) db

/-- **0003 up** as a fold. -/
theorem migrate0003Up_eq (now : Time) (db : Db) :
    migrate0003Up now db =
      (seedEntries now seedLegs { db with toLedger := seedTables now db.toLedger } >>=
        checkSeedEntries db) := by
  unfold seedEntries seedLegs seeds
  simp only [List.flatMap_cons, List.flatMap_nil, List.append_nil, List.cons_append,
    List.nil_append, List.foldlM_cons, List.foldlM_nil, bind_assoc, pure_bind]
  rfl

/-! ## 2. The entries -/

section Entries

variable {now : Time} {db db' : Db}

/-- One statement: the entry is there, or it is added and what it refers to exists. -/
theorem seedEntry_ok {l : Leg} (h : seedEntry now l.tx l.account l.direction db = .ok db') :
    (l ∈ db.entries.map EntryRow.toLeg ∧ db' = db) ∨
    (l ∉ db.entries.map EntryRow.toLeg ∧ (∃ t ∈ db.transactions, t.id = l.tx) ∧
      (∃ a ∈ db.accounts, a.id = l.account) ∧
      ∃ row : EntryRow, row.toLeg = l ∧ row.amount = seedAmount ∧
        db' = { db with entries := db.entries ++ [row], entriesSeq := db.entriesSeq + 1 }) := by
  have hany : (db.entries.any fun e => e.transactionID == l.tx && e.accountID == l.account &&
      e.direction == l.direction) = true ↔ l ∈ db.entries.map EntryRow.toLeg := by
    rw [List.any_eq_true, List.mem_map]
    constructor
    · intro h
      obtain ⟨e, he, hm⟩ := h
      simp only [Bool.and_eq_true, beq_iff_eq] at hm
      refine ⟨e, he, ?_⟩
      rw [EntryRow.toLeg, hm.1.1, hm.1.2, hm.2]
    · intro h
      obtain ⟨e, he, rfl⟩ := h
      exact ⟨e, he, by simp [EntryRow.toLeg]⟩
  unfold seedEntry at h
  split at h
  · rename_i hin
    cases h
    exact .inl ⟨hany.mp hin, rfl⟩
  · rename_i hout
    split at h
    · cases h
    · rename_i htx
      split at h
      · cases h
      · rename_i hacc
        cases h
        refine .inr ⟨mt hany.mpr hout, ?_, ?_, _, rfl, rfl, rfl⟩
        · obtain ⟨t, ht⟩ := Option.ne_none_iff_exists'.mp (mt Option.isNone_iff_eq_none.mpr htx)
          obtain ⟨hmem, hid⟩ := mem_of_find_key ht
          exact ⟨t, hmem, hid⟩
        · obtain ⟨a, ha⟩ := Option.ne_none_iff_exists'.mp (mt Option.isNone_iff_eq_none.mpr hacc)
          obtain ⟨hmem, hid⟩ := mem_of_find_key ha
          exact ⟨a, hmem, hid⟩

/-- **The entries that are added** are those that are not there yet, each with the seed amount. -/
theorem seedEntries_ok {legs : List Leg} (hn : legs.Nodup)
    (h : seedEntries now legs db = .ok db') :
    ∃ new : List EntryRow,
      db'.toLedger = { db.toLedger with entries := db.entries ++ new } ∧
      new.map EntryRow.toLeg =
        legs.filter (fun l => decide (l ∉ db.entries.map EntryRow.toLeg)) ∧
      (∀ e ∈ new, e.amount = seedAmount) ∧
      ∀ e ∈ new, (∃ t ∈ db.transactions, t.id = e.transactionID) ∧
        ∃ a ∈ db.accounts, a.id = e.accountID := by
  induction legs generalizing db with
  | nil =>
      cases h
      exact ⟨[], by rw [List.append_nil], rfl, fun _ he => absurd he List.not_mem_nil,
        fun _ he => absurd he List.not_mem_nil⟩
  | cons l legs ih =>
      obtain ⟨hl, hlegs⟩ := List.nodup_cons.mp hn
      obtain ⟨db₁, h₁, hrest⟩ := bind_eq_ok h
      obtain ⟨new, hL, hnew, hamount, hrefs⟩ := ih hlegs hrest
      rcases seedEntry_ok h₁ with ⟨hin, rfl⟩ | ⟨hout, htx, hacc, row, hrow, hra, rfl⟩
      · refine ⟨new, hL, ?_, hamount, hrefs⟩
        rw [hnew, List.filter_cons, if_neg (by simpa using hin)]
      · refine ⟨row :: new, ?_, ?_, List.forall_mem_cons.mpr ⟨hra, hamount⟩,
          List.forall_mem_cons.mpr ⟨?_, hrefs⟩⟩
        · rw [hL]
          simp
        · -- the row that was added is none of the remaining ones
          rw [List.map_cons, hnew, hrow, List.filter_cons, if_pos (by simpa using hout)]
          refine congrArg (l :: ·) (List.filter_congr fun l' hl' => ?_)
          have hne : l' ≠ l := fun e => hl (e ▸ hl')
          simp [hrow, hne]
        · rw [← hrow] at htx hacc
          exact ⟨htx, hacc⟩

/-- Where every entry is there, nothing happens. -/
theorem seedEntries_noop {legs : List Leg} (h : ∀ l ∈ legs, l ∈ db.entries.map EntryRow.toLeg) :
    seedEntries now legs db = .ok db := by
  induction legs with
  | nil => rfl
  | cons l legs ih =>
      have hfirst : seedEntry now l.tx l.account l.direction db = .ok db := by
        obtain ⟨e, he, hleg⟩ := List.mem_map.mp (h l List.mem_cons_self)
        refine if_pos (List.any_eq_true.mpr ⟨e, he, ?_⟩)
        rw [← hleg]
        simp [EntryRow.toLeg]
      rw [seedEntries, List.foldlM_cons, hfirst]
      exact ih fun l' hl' => h l' (List.mem_cons_of_mem _ hl')

end Entries

/-! ## 3. The accounts and the headers -/

section Tables

variable {L : Ledger}

theorem insertAccountDoNothing_present {row : AccountRow} (h : ∃ a ∈ L.accounts, a.id = row.id) :
    insertAccountDoNothing L row = L := by
  obtain ⟨a, ha, hid⟩ := h
  refine if_pos (List.find?_isSome.mpr ⟨a, ha, ?_⟩)
  simpa using hid

/-- The rows whose id is not in the table yet. -/
def Ledger.newAccounts (L : Ledger) (rows : List AccountRow) : List AccountRow :=
  rows.filter fun r => !(L.accounts.map (·.id)).contains r.id

theorem mem_newAccounts {rows : List AccountRow} {a : AccountRow} :
    a ∈ L.newAccounts rows ↔ a ∈ rows ∧ a.id ∉ L.accounts.map (·.id) := by
  rw [Ledger.newAccounts, List.mem_filter, Bool.not_eq_true', ← Bool.not_eq_true,
    List.contains_iff_mem]

/-- `INSERT … ON CONFLICT DO NOTHING` of several rows. -/
theorem insertAccounts_eq {rows : List AccountRow} (hn : (rows.map (·.id)).Nodup) :
    rows.foldl insertAccountDoNothing L =
      { L with accounts := L.accounts ++ L.newAccounts rows } := by
  unfold Ledger.newAccounts
  induction rows generalizing L with
  | nil => simp
  | cons row rows ih =>
      rw [List.map_cons, List.nodup_cons] at hn
      rw [List.foldl_cons, ih hn.2]
      by_cases hin : row.id ∈ L.accounts.map (·.id)
      · rw [insertAccountDoNothing_present (List.mem_map.mp hin), List.filter_cons,
          if_neg (by simpa using hin)]
      · have hins : insertAccountDoNothing L row = { L with accounts := L.accounts ++ [row] } := by
          refine if_neg fun hsome => hin ?_
          obtain ⟨a, ha, hid⟩ := List.find?_isSome.mp hsome
          exact List.mem_map.mpr ⟨a, ha, by simpa using hid⟩
        have hrest : (rows.filter fun r => !((L.accounts ++ [row]).map (·.id)).contains r.id) =
            rows.filter fun r => !(L.accounts.map (·.id)).contains r.id := by
          refine List.filter_congr fun r hr => ?_
          have hne : r.id ≠ row.id := fun e => hn.1 (e ▸ List.mem_map_of_mem hr)
          simp [hne]
        rw [hins, List.filter_cons, if_pos (by simpa using hin)]
        simp only [hrest, List.append_assoc, List.singleton_append]

theorem insertTransactionDoNothing_present {row : TransactionRow}
    (h : ∃ t ∈ L.transactions, t.id = row.id) : insertTransactionDoNothing L row = L := by
  obtain ⟨t, ht, hid⟩ := h
  refine if_pos (List.any_eq_true.mpr ⟨IndexKey.id row.id, List.mem_cons_self, ?_⟩)
  refine List.any_eq_true.mpr ⟨t, ht, ?_⟩
  simp [TransactionRow.indexKeys, hid]

/-- A header whose id is new is added, unless its key is there. -/
theorem insertTransactionDoNothing_key {row : TransactionRow}
    (h : ∀ t ∈ L.transactions, t.id ≠ row.id) (hrev : row.reversesTransactionID = none) :
    ∃ t ∈ (insertTransactionDoNothing L row).transactions,
      t.idempotencyKey = row.idempotencyKey := by
  unfold insertTransactionDoNothing
  split
  · rename_i hconflict
    obtain ⟨k, hk, hin⟩ := List.any_eq_true.mp hconflict
    obtain ⟨t, ht, hmem⟩ := List.any_eq_true.mp hin
    refine ⟨t, ht, ?_⟩
    have hid : ¬ row.id = t.id := fun e => h t ht e.symm
    rw [TransactionRow.indexKeys, hrev] at hk
    simp only [List.cons_append, List.nil_append, Option.map_none, Option.toList_none,
      List.mem_cons, List.not_mem_nil, or_false] at hk
    rcases hk with rfl | rfl
    · simp [TransactionRow.indexKeys, hid] at hmem
    · simpa [TransactionRow.indexKeys, eq_comm] using hmem
  · exact ⟨row, List.mem_append_right _ (List.mem_singleton_self _), rfl⟩

theorem insertTransactions_noop {rows : List TransactionRow}
    (h : ∀ row ∈ rows, ∃ t ∈ L.transactions, t.id = row.id) :
    rows.foldl insertTransactionDoNothing L = L := by
  induction rows with
  | nil => rfl
  | cons row rows ih =>
      rw [List.foldl_cons, insertTransactionDoNothing_present (h row List.mem_cons_self)]
      exact ih fun row' hrow' => h row' (List.mem_cons_of_mem _ hrow')

/-- The headers are inserted without touching the other tables. -/
theorem insertTransactions_tables (rows : List TransactionRow) :
    (rows.foldl insertTransactionDoNothing L).accounts = L.accounts ∧
      (rows.foldl insertTransactionDoNothing L).entries = L.entries ∧
      L.transactions <+: (rows.foldl insertTransactionDoNothing L).transactions := by
  induction rows generalizing L with
  | nil => exact ⟨rfl, rfl, List.prefix_refl _⟩
  | cons row rows ih =>
      have hone : (insertTransactionDoNothing L row).accounts = L.accounts ∧
          (insertTransactionDoNothing L row).entries = L.entries ∧
          L.transactions <+: (insertTransactionDoNothing L row).transactions := by
        unfold insertTransactionDoNothing
        split
        · exact ⟨rfl, rfl, List.prefix_refl _⟩
        · exact ⟨rfl, rfl, List.prefix_append _ _⟩
      obtain ⟨ha, he, ht⟩ := ih (L := insertTransactionDoNothing L row)
      exact ⟨ha.trans hone.1, he.trans hone.2.1, hone.2.2.trans ht⟩

/-- What the UPDATE of 0003 up does to a row of `accounts`. -/
def Ledger.seedBalance (L : Ledger) (a : AccountRow) : AccountRow :=
  if (L.transactionByKey? aliceKey).isSome then a
  else if a.id = externalAccountID then { a with balance := -300000000 } else a

theorem Ledger.seedBalance_id (L : Ledger) (a : AccountRow) : (L.seedBalance a).id = a.id := by
  unfold Ledger.seedBalance
  split
  · rfl
  · split <;> rfl

theorem seedExternalBalance_eq :
    seedExternalBalance L = { L with accounts := L.accounts.map L.seedBalance } := by
  unfold seedExternalBalance Ledger.seedBalance aliceKey
  split
  · rw [List.map_id']
  · rfl

/-- **The accounts of 0003 up**: the new ones are added, and EXTERNAL gets its balance. -/
theorem seedTables_eq (now : Time) (L : Ledger) :
    (seedTables now L).accounts = (L.accounts ++ L.newAccounts seedAccounts).map L.seedBalance ∧
      (seedTables now L).entries = L.entries ∧
      L.transactions <+: (seedTables now L).transactions := by
  obtain ⟨ha, he, ht⟩ := insertTransactions_tables
    (L := seedExternalBalance (seedAccounts.foldl insertAccountDoNothing L)) (seedDeposits now)
  rw [seedExternalBalance_eq, insertAccounts_eq (by decide)] at ha he ht
  rw [seedTables, seedExternalBalance_eq, insertAccounts_eq (by decide)]
  exact ⟨ha, he, ht⟩

end Tables

/-! ## 4. The whole batch -/

/-- What a successful 0003 up has done; `new` are the entries it has added. -/
structure UpDone (now : Time) (db db' : Db) (new : List EntryRow) : Prop where
  accounts : db'.accounts = (db.accounts ++ db.newAccounts seedAccounts).map db.seedBalance
  transactions : db'.transactions = (seedTables now db.toLedger).transactions
  entries : db'.entries = db.entries ++ new
  legs : new.map EntryRow.toLeg =
    seedLegs.filter fun l => decide (l ∉ db.entries.map EntryRow.toLeg)
  amounts : ∀ e ∈ new, e.amount = seedAmount
  transactionIDs : ∀ e ∈ new, ∃ t ∈ db'.transactions, t.id = e.transactionID
  accountIDs : ∀ e ∈ new, ∃ a ∈ db'.accounts, a.id = e.accountID
  balanced : ∀ e ∈ new, doubleEntrySum db'.entries e.transactionID = 0

/-- **0003 up, where it succeeds.** -/
theorem migrate0003Up_ok {now : Time} {db db' : Db} (h : migrate0003Up now db = .ok db') :
    ∃ new, UpDone now db db' new := by
  rw [migrate0003Up_eq] at h
  obtain ⟨db₁, hentries, hcheck⟩ := bind_eq_ok h
  obtain ⟨new, hL, hnew, hamount, hrefs⟩ := seedEntries_ok seedLegs_nodup hentries
  obtain ⟨haccounts, hsame, _⟩ := seedTables_eq now db.toLedger
  simp only [hsame] at hL hnew
  have ha : db₁.accounts = (seedTables now db.toLedger).accounts := by rw [hL]
  have ht : db₁.transactions = (seedTables now db.toLedger).transactions := by rw [hL]
  have he : db₁.entries = db.entries ++ new := by rw [hL]
  simp only [checkSeedEntries] at hcheck
  split at hcheck
  · cases hcheck
  · rename_i hnone
    cases hcheck
    simp only [← ha, ← ht] at hrefs
    refine ⟨new, ha.trans haccounts, ht, he, hnew, hamount, fun e hn => (hrefs e hn).1,
      fun e hn => (hrefs e hn).2, fun e hn => ?_⟩
    have hdrop : db'.entries.drop db.entries.length = new := by
      rw [he, List.drop_left]
    simpa using List.find?_eq_none.mp hnone e (hdrop ▸ hn)

/-- What 0003 up looks for is there. -/
structure Seeded (L : Ledger) : Prop where
  accounts : ∀ a ∈ seedAccounts, ∃ b ∈ L.accounts, b.id = a.id
  key : ∃ t ∈ L.transactions, t.idempotencyKey = aliceKey
  headers : ∀ s ∈ seeds, ∃ t ∈ L.transactions, t.id = s.tx
  legs : ∀ l ∈ seedLegs, l ∈ L.entries.map EntryRow.toLeg

theorem Seeded.mono {L L' : Ledger} (h : Seeded L) (hg : Grows L L') : Seeded L' := by
  refine ⟨fun a ha => hg.account (h.accounts a ha), ?_, fun s hs => ?_, fun l hl => ?_⟩
  · obtain ⟨t, ht, hk⟩ := h.key
    exact ⟨t, hg.transactions.subset ht, hk⟩
  · obtain ⟨t, ht, hid⟩ := h.headers s hs
    exact ⟨t, hg.transactions.subset ht, hid⟩
  · exact (hg.entries.map _).subset (h.legs l hl)

theorem seedTables_noop {L : Ledger} (h : Seeded L) (now : Time) : seedTables now L = L := by
  have hnone : L.newAccounts seedAccounts = [] := by
    refine List.filter_eq_nil_iff.mpr fun a ha => ?_
    simpa using h.accounts a ha
  have hbalance : seedExternalBalance L = L := by
    obtain ⟨t, ht, hk⟩ := h.key
    exact if_pos (List.find?_isSome.mpr ⟨t, ht, decide_eq_true hk⟩)
  have hheaders : ∀ row ∈ seedDeposits now, ∃ t ∈ L.transactions, t.id = row.id := by
    intro row hrow
    have hid : row.id ∈ seeds.map Seed.tx :=
      List.mem_map_of_mem (f := TransactionRow.id) hrow
    obtain ⟨s, hs, e⟩ := List.mem_map.mp hid
    exact e ▸ h.headers s hs
  rw [seedTables, insertAccounts_eq (by decide), hnone, List.append_nil, hbalance,
    insertTransactions_noop hheaders]

/-- **0003 up on a seeded database** changes nothing. -/
theorem seeded_noop {db : Db} (h : Seeded db.toLedger) (now : Time) :
    migrate0003Up now db = .ok db := by
  rw [migrate0003Up_eq, seedTables_noop h, seedEntries_noop h.legs]
  show checkSeedEntries db db = .ok db
  simp [checkSeedEntries]

/-- The key that 0003 up will look for. -/
theorem seedTables_key {L : Ledger} (h : ∀ t ∈ L.transactions, t.id ≠ seedDepositID 1)
    (now : Time) : ∃ t ∈ (seedTables now L).transactions, t.idempotencyKey = aliceKey := by
  rw [seedTables, seedExternalBalance_eq, insertAccounts_eq (by decide), seedDeposits,
    List.foldl_cons]
  generalize List.map _ _ = accounts
  have hfirst : ∃ t ∈ (insertTransactionDoNothing { L with accounts := accounts }
      ⟨seedDepositID 1, .deposit, aliceKey, none, now⟩).transactions,
      t.idempotencyKey = aliceKey := insertTransactionDoNothing_key h rfl
  obtain ⟨t, ht, hk⟩ := hfirst
  exact ⟨t, (insertTransactions_tables _).2.2.subset ht, hk⟩

/-- **After 0003 up the database is seeded**, if no header had the id of a seed deposit before: all
    six entries are added, and what they refer to exists. -/
theorem seeded_of_up {now : Time} {db db' : Db}
    (hentries : ∀ e ∈ db.entries, ∃ t ∈ db.transactions, t.id = e.transactionID)
    (hids : ∀ t ∈ db.transactions, t.id ∉ seeds.map Seed.tx)
    (h : migrate0003Up now db = .ok db') : Seeded db'.toLedger := by
  obtain ⟨new, hup⟩ := migrate0003Up_ok h
  have hlegs : ∀ l ∈ seedLegs, ∃ e ∈ new, e.toLeg = l := by
    intro l hl
    have hseed : l.tx ∈ seeds.map Seed.tx := by
      revert l
      decide
    have hout : l ∉ db.entries.map EntryRow.toLeg := by
      intro hin
      obtain ⟨e, he, rfl⟩ := List.mem_map.mp hin
      obtain ⟨t, ht, hid⟩ := hentries e he
      exact hids t ht (hid ▸ hseed)
    exact List.mem_map.mp (hup.legs ▸ List.mem_filter.mpr ⟨hl, decide_eq_true hout⟩)
  refine ⟨fun a ha => ?_, ?_, fun s hs => ?_, fun l hl => ?_⟩
  · obtain ⟨l, hl, hacc⟩ : ∃ l ∈ seedLegs, l.account = a.id := by
      revert a
      decide
    obtain ⟨e, he, rfl⟩ := hlegs l hl
    exact hacc ▸ hup.accountIDs e he
  · rw [hup.transactions]
    refine seedTables_key (fun t ht e => hids t ht ?_) now
    rw [e]
    decide
  · obtain ⟨e, he, hleg⟩ := hlegs s.debit
      (List.mem_flatMap.mpr ⟨s, hs, List.mem_cons_self⟩)
    have htx : e.transactionID = s.tx := congrArg Leg.tx hleg
    exact htx ▸ hup.transactionIDs e he
  · obtain ⟨e, he, hleg⟩ := hlegs l hl
    exact List.mem_map.mpr ⟨e, hup.entries ▸ List.mem_append_right _ he, hleg⟩

/-! ## 5. 0003 down, and what the schema enforces -/

/-- The entries that 0003 down deletes. -/
def EntryRow.seeded (e : EntryRow) : Bool := (seeds.map Seed.tx).contains e.transactionID

theorem EntryRow.seeded_iff {e : EntryRow} :
    e.seeded = true ↔ e.transactionID ∈ seeds.map Seed.tx := List.contains_iff_mem

/-- The accounts that 0003 down deletes. -/
def AccountRow.demo (a : AccountRow) : Bool := (seeds.map Seed.account).contains a.id

/-- The UPDATE of 0003 down. -/
def AccountRow.cleared (a : AccountRow) : AccountRow :=
  if a.id = externalAccountID then { a with balance := 0 } else a

theorem AccountRow.cleared_id (a : AccountRow) : a.cleared.id = a.id := by
  unfold AccountRow.cleared
  split <;> rfl

section Migrations

variable {now : Time} {db db' : Db}

/-- **What a successful 0003 down has done.** -/
theorem migrate0003Down_ok (h : migrate0003Down db = .ok db') :
    db'.accounts = (db.accounts.filter fun a => !a.demo).map AccountRow.cleared ∧
      db'.entries = db.entries.filter (fun e => !e.seeded) ∧
      ∀ e ∈ db'.entries, ∀ a ∈ db.accounts, a.demo = true → a.id ≠ e.accountID := by
  obtain ⟨L₁, hdelete, h⟩ := bind_eq_ok h
  obtain ⟨L₂, haccounts, h⟩ := bind_eq_ok h
  cases h
  rw [deleteTransactions_ok hdelete] at haccounts
  obtain ⟨hfree, rfl⟩ := deleteAccounts_iff.mp haccounts
  exact ⟨rfl, rfl, hfree⟩

theorem schemaOk_up (hL : SchemaOk db.toLedger) (h : migrate0003Up now db = .ok db') :
    SchemaOk db'.toLedger := by
  obtain ⟨new, hup⟩ := migrate0003Up_ok h
  have hids : db'.accounts.map (·.id) =
      db.accounts.map (·.id) ++ (db.newAccounts seedAccounts).map (·.id) := by
    rw [hup.accounts, List.map_map, ← List.map_append]
    exact List.map_congr_left fun a _ => db.seedBalance_id a
  refine ⟨?_, fun e he => ?_, fun t => ?_⟩
  · have hnew : ((db.newAccounts seedAccounts).map (·.id)).Nodup :=
      (by decide : (seedAccounts.map (·.id)).Nodup).sublist (List.filter_sublist.map _)
    rw [hids]
    refine List.nodup_append.mpr ⟨hL.accountIDs, hnew, fun x hx y hy e => ?_⟩
    obtain ⟨a, ha, rfl⟩ := List.mem_map.mp hy
    exact (mem_newAccounts.mp ha).2 (e ▸ hx)
  · rw [hup.entries] at he
    rcases List.mem_append.mp he with he | he
    · obtain ⟨a, ha, hid⟩ := hL.entryAccount e he
      have hin : a.id ∈ db'.accounts.map (·.id) :=
        hids ▸ List.mem_append_left _ (List.mem_map_of_mem ha)
      exact List.mem_map.mp (hid ▸ hin)
    · exact hup.accountIDs e he
  · have hsum := hup.balanced
    rw [hup.entries] at hsum ⊢
    exact doubleEntrySum_checked hL.balanced hsum t

theorem schemaOk_down (hL : SchemaOk db.toLedger) (h : migrate0003Down db = .ok db') :
    SchemaOk db'.toLedger := by
  obtain ⟨haccounts, hentries, hfree⟩ := migrate0003Down_ok h
  refine ⟨?_, fun e he => ?_, fun t => ?_⟩
  · have hids : db'.accounts.map (·.id) = (db.accounts.filter fun a => !a.demo).map (·.id) := by
      rw [haccounts, List.map_map]
      exact List.map_congr_left fun a _ => a.cleared_id
    rw [hids]
    exact hL.accountIDs.sublist (List.filter_sublist.map _)
  · obtain ⟨a, ha, hid⟩ := hL.entryAccount e (List.mem_filter.mp (hentries ▸ he)).1
    have hkept : (!a.demo) = true := by
      cases hd : a.demo with
      | true => exact absurd hid (hfree e he a ha hd)
      | false => rfl
    refine ⟨a.cleared, haccounts ▸ List.mem_map_of_mem (List.mem_filter.mpr ⟨ha, hkept⟩), ?_⟩
    rw [a.cleared_id, hid]
  · -- a transaction keeps all of its entries, or none
    rw [hentries]
    by_cases ht : t ∈ seeds.map Seed.tx
    · refine doubleEntrySum_none fun e he e' => ?_
      have hkept := (List.mem_filter.mp he).2
      rw [EntryRow.seeded_iff.mpr (e' ▸ ht)] at hkept
      cases hkept
    · have hnone : doubleEntrySum (db.entries.filter EntryRow.seeded) t = 0 := by
        refine doubleEntrySum_none fun e he e' => ht ?_
        exact e' ▸ EntryRow.seeded_iff.mp (List.mem_filter.mp he).2
      rw [← hL.balanced t, doubleEntrySum_split EntryRow.seeded db.entries t, hnone, Int.zero_add]

end Migrations

/-! ## 6. A run at version 2 -/

def doraID : UUID := 50#128

/-- Dora opens an account. -/
def doraOpens : List Act := [.arriveCreate (bytes "Dora"), .call 0 (.uuid doraID), .call 0 .ok]

/-- Dora opens an account and deposits 5000. -/
def doraRun : List Act :=
  doraOpens ++
    soloCall 1 (.deposit doraID (Money.fromInt 5000) (bytes "dep-1") (bytes "req-1")) 100#128

theorem doraRun_isSome :
    (exec Config.migrated (St.start (migrate0002Up Db.empty) 1000) doraRun).isSome = true := by
  decide +kernel

def doraEnd : St :=
  (exec Config.migrated (St.start (migrate0002Up Db.empty) 1000) doraRun).get doraRun_isSome

theorem doraRun_exec :
    exec Config.migrated (St.start (migrate0002Up Db.empty) 1000) doraRun = some doraEnd :=
  (Option.some_get doraRun_isSome).symm

/-- Dora's ledger after 0003 up. -/
def doraSeeded : Db :=
  match migrate0003Up 2000 doraEnd.db with
  | .ok db => db
  | .error _ => doraEnd.db

theorem doraSeeded_up : migrate0003Up 2000 doraEnd.db = .ok doraSeeded := by
  decide +kernel

end BankingService
