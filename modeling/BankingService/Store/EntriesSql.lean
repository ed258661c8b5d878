/-
  File:      BankingService/Store/EntriesSql.lean
  Subject:   ANY SQL ON `entries`: INSERT, UPDATE and DELETE under the schema of
             `migrations/0001_init.up.sql`, and the COMMIT that fires the deferred trigger.

  A WHERE clause is a predicate on rows, a SET clause the new row as a function of the old one, so
  every column can change. Each new version of a row passes the constraints of the table: the range
  of `NUMERIC(20,4)`, the CHECK on the amount, the two foreign keys and the primary key, which is
  checked row by row. `trig_check_double_entry` is AFTER INSERT OR UPDATE: an inserted or updated
  row queues one event, which carries `NEW.transaction_id`; a deleted row queues none.

  * `commitEntries` -- the queue at COMMIT;
  * `commitTx_checks` -- the COMMIT of `WithTx` is the one here, for its inserted rows.
-/
import BankingService.Lib.Run
import BankingService.Money.Text
import BankingService.Store.Migrations

namespace BankingService

/-! ## 1. Statements -/

/-- A statement on `entries`. -/
inductive EntriesSql where
  | insert (row : EntryRow)
  | update (sel : EntryRow → Bool) (set : EntryRow → EntryRow)
  | delete (sel : EntryRow → Bool)

/-- The private state of the transaction: the rows it sees, and the trigger events it has queued. -/
structure EntriesTx where
  entries : List EntryRow
  fired : List UUID

/-- The constraints on a new version of a row, the primary key apart. -/
def checkEntryRow (L : Ledger) (e : EntryRow) : Except PgError Unit :=
  if ¬InRange e.amount then .error numericOverflow
  else if ¬0 < e.amount then .error (checkViolation "entries" "entries_amount_check")
  else if !directionCheck e.direction.text then
    .error (checkViolation "entries" "entries_direction_check")
  else if (L.transaction? e.transactionID).isNone then
    .error (foreignKeyViolation "entries" "entries_transaction_id_fkey")
  else if (L.account? e.accountID).isNone then
    .error (foreignKeyViolation "entries" "entries_account_id_fkey")
  else .ok ()

/-- The primary key: no other row has the id. -/
def checkEntryID (others : List EntryRow) (e : EntryRow) : Except PgError Unit :=
  if others.any (·.id == e.id) then
    .error (uniqueViolation "entries_pkey" "id" (Decimal.intText e.id))
  else .ok ()

/-- An UPDATE, row by row. -/
def updateRows (L : Ledger) (sel : EntryRow → Bool) (set : EntryRow → EntryRow) :
    List EntryRow → List EntryRow → Except PgError (List EntryRow)
  | seen, [] => .ok seen
  | seen, e :: todo =>
    if sel e then
      match checkEntryRow L (set e) with
      | .error err => .error err
      | .ok () =>
        match checkEntryID (seen ++ todo) (set e) with
        | .error err => .error err
        | .ok () => updateRows L sel set (seen ++ [set e]) todo
    else updateRows L sel set (seen ++ [e]) todo

/-- One statement, with the events it queues. -/
def EntriesSql.exec (L : Ledger) (s : EntriesTx) : EntriesSql → Except PgError EntriesTx
  | .insert row =>
    match checkEntryRow L row with
    | .error err => .error err
    | .ok () =>
      match checkEntryID s.entries row with
      | .error err => .error err
      | .ok () => .ok ⟨s.entries ++ [row], s.fired ++ [row.transactionID]⟩
  | .update sel set =>
    match updateRows L sel set [] s.entries with
    | .error err => .error err
    | .ok entries =>
      .ok ⟨entries, s.fired ++ (s.entries.filter sel).map fun e => (set e).transactionID⟩
  | .delete sel => .ok ⟨s.entries.filter fun e => !sel e, s.fired⟩

/-- A statement inside the transaction: an error aborts it, and nothing can be committed. -/
def entriesStep (L : Ledger) (s : EntriesTx) (q : EntriesSql) : Option EntriesTx :=
  (q.exec L s).toOption

/-! ## 2. COMMIT -/

/-- COMMIT: `check_double_entry_balance` once per queued event. -/
def commitEntries (s : EntriesTx) : Except PgError (List EntryRow) :=
  match s.fired.find? fun t => doubleEntrySum s.entries t != 0 with
  | some t => .error (doubleEntryViolation t (doubleEntrySum s.entries t))
  | none => .ok s.entries

/-- The transaction at its BEGIN. -/
def EntriesTx.start (L : Ledger) : EntriesTx := ⟨L.entries, []⟩

/-- The statements of a transaction and its COMMIT: the committed rows, `none` when an error rolled
    it back. -/
def runEntries (L : Ledger) (qs : List EntriesSql) : Option (List EntryRow) :=
  (Lib.run (entriesStep L) (EntriesTx.start L) qs).bind fun s => (commitEntries s).toOption

/-- COMMIT succeeds exactly if every queued transaction is balanced, and changes no row. -/
theorem commitEntries_iff (s : EntriesTx) (entries : List EntryRow) :
    commitEntries s = .ok entries ↔
      entries = s.entries ∧ ∀ t ∈ s.fired, doubleEntrySum s.entries t = 0 := by
  unfold commitEntries
  cases hf : s.fired.find? fun t => doubleEntrySum s.entries t != 0 with
  | some t =>
      have hmem := List.mem_of_find?_eq_some hf
      have hne := List.find?_some hf
      constructor
      · intro h
        cases h
      · rintro ⟨_, h⟩
        simp [h t hmem] at hne
  | none =>
      have hall := List.find?_eq_none.mp hf
      constructor
      · intro h
        cases h
        exact ⟨rfl, fun t ht => by simpa using hall t ht⟩
      · rintro ⟨rfl, _⟩
        rfl

/-- The COMMIT of `WithTx` makes this check for the rows `InsertEntries` has inserted. -/
theorem commitTx_checks {cfg : Config} (hcfg : cfg.constraints = true) (db : Db) (tx : Tx) :
    (commitTx cfg db tx).toOption.isSome =
      (commitEntries ⟨db.entries ++ tx.entries,
        tx.entries.map (·.transactionID)⟩).toOption.isSome := by
  unfold commitTx commitEntries
  rw [List.find?_map]
  simp only [hcfg, Bool.true_and, Function.comp_def]
  cases tx.entries.find? fun e =>
      doubleEntrySum (db.entries ++ tx.entries) e.transactionID != 0 with
  | none => rfl
  | some e => rfl

/-! ## 3. What a statement does -/

section Effect

variable {L : Ledger}

/-- An UPDATE that succeeds replaces the rows it selects. -/
theorem updateRows_eq {sel : EntryRow → Bool} {set : EntryRow → EntryRow}
    {seen todo entries : List EntryRow} (h : updateRows L sel set seen todo = .ok entries) :
    entries = seen ++ todo.map fun e => if sel e then set e else e := by
  induction todo generalizing seen with
  | nil =>
      cases h
      exact (List.append_nil _).symm
  | cons e todo ih =>
      simp only [updateRows] at h
      split at h
      · rename_i hsel
        split at h
        · cases h
        · split at h
          · cases h
          · rw [ih h, List.append_assoc, List.map_cons, if_pos hsel]
            rfl
      · rename_i hsel
        rw [ih h, List.append_assoc, List.map_cons, if_neg hsel]
        rfl

/-- The rows a statement adds to the queue's transactions. -/
def EntriesSql.fires (s : EntriesTx) : EntriesSql → List UUID
  | .insert row => [row.transactionID]
  | .update sel set => (s.entries.filter sel).map fun e => (set e).transactionID
  | .delete _ => []

/-- The rows a transaction loses: deleted ones, and those an UPDATE moves to another transaction. -/
def EntriesSql.loses (s : EntriesTx) : EntriesSql → List EntryRow
  | .insert _ => []
  | .update sel set =>
    s.entries.filter fun e => sel e && (set e).transactionID != e.transactionID
  | .delete sel => s.entries.filter sel

/-- What a statement that succeeds leaves. -/
theorem entriesStep_cases {s s' : EntriesTx} {q : EntriesSql} (h : entriesStep L s q = some s') :
    s'.fired = s.fired ++ q.fires s ∧
      match q with
      | .insert row => s'.entries = s.entries ++ [row]
      | .update sel set => s'.entries = s.entries.map fun e => if sel e then set e else e
      | .delete sel => s'.entries = s.entries.filter fun e => !sel e := by
  unfold entriesStep at h
  cases q with
  | insert row =>
      simp only [EntriesSql.exec] at h
      split at h
      · cases h
      · split at h
        · cases h
        · cases h
          exact ⟨rfl, rfl⟩
  | update sel set =>
      simp only [EntriesSql.exec] at h
      split at h
      · cases h
      · rename_i hu
        cases h
        exact ⟨rfl, updateRows_eq hu⟩
  | delete sel =>
      cases h
      exact ⟨(List.append_nil _).symm, rfl⟩

end Effect

end BankingService
