/-
  File:      BankingService/Proof/Tables.lean
  Subject:   WHAT A STEP DOES TO THE TABLES, in any state whatever: no invariant of the calls is
             assumed, only what the schema enforces at each statement.

  The migrations may leave balances that no run of the service would have led to. What is said of
  runs that start there cannot rest on the ledger invariant; it rests on this file.

  * `Effect` -- the branches of `requestStep` as far as they touch the tables, the open transaction
    and the header of a call (`requestStep_effect`); `DbStep` -- a step of the system seen from the
    database (`step_db`), `step_touches` -- seen from a call.
  * `Grows` -- no step takes away an account, a header or an entry (`exec_grows`);
  * `AuditIDs` -- the ids of the audit log differ (`exec_auditIDs`);
  * `SchemaOk` -- account ids differ, entries are on accounts that exist, and with the trigger in
    place every transaction is balanced (`exec_schemaOk`);
  * `exec_headerIDs` -- the ids of the headers were generated by the calls.
-/
import BankingService.Proof.Locks

namespace BankingService

open Lib

/-! ## 1. One call -/

/-- **The effects of a step of a service call**, in any state. -/
inductive Effect (cfg : Config) (now : Time) (db : Db) : Choice → Phase → Db → Phase → Prop
  | quiet {ch : Choice} {p p' : Phase} (htx : p'.tx? = none)
      (hw : ∀ w, p'.work? = some w → p.work? = some w) : Effect cfg now db ch p db p'
  | generated {p : Phase} {w : Work} : Effect cfg now db (.uuid w.txn.id) p db (.beginTx w)
  | began {ch : Choice} {w : Work} :
      Effect cfg now db ch (.beginTx w) db (.inTx w (Tx.start now) .lock)
  | inside {ch : Choice} {w : Work} {tx tx' : Tx} {stage stage' : Stage}
      (he : tx'.entries = tx.entries)
      (hh : tx'.header = tx.header ∨ tx'.header = some (headerRow w.txn tx.now)) :
      Effect cfg now db ch (.inTx w tx stage) db (.inTx w tx' stage')
  | entry {ch : Choice} {w : Work} {tx tx' : Tx} {stage stage' : Stage} {row : EntryRow}
      (hrow : ∃ a ∈ db.accounts, a.id = row.accountID) (he : tx'.entries = tx.entries ++ [row])
      (hh : tx'.header = tx.header) :
      Effect cfg now db ch (.inTx w tx stage) { db with entriesSeq := db.entriesSeq + 1 }
        (.inTx w tx' stage')
  | commit {ch : Choice} {w : Work} {tx : Tx} {db' : Db} {p' : Phase}
      (h : commitTx cfg db tx = .ok db') (htx : p'.tx? = none)
      (hw : ∀ w', p'.work? = some w' → w' = w) :
      Effect cfg now db ch (.inTx w tx .commit) db' p'
  | audit {ch : Choice} {p p' : Phase} (e : AuditEntry) (htx : p'.tx? = none)
      (hw : p'.work? = none) : Effect cfg now db ch p (db.withAudit now e) p'

section OneCall

variable {cfg : Config} {db db' : Db} {r : Request} {w : Work} {tx tx' : Tx}

theorem afterLookup_work (r : Request) : r.afterLookup.work? = none := by cases r <;> rfl

theorem afterOriginal_work (r : Request) (t : Transaction) (entries : List Entry) :
    (r.afterOriginal t entries).work? = none := by
  unfold Request.afterOriginal
  split <;> rfl

theorem afterTxErr_work {e : Err} {w' : Work} (h : (r.afterTxErr w e).work? = some w') :
    w' = w := by
  unfold Request.afterTxErr at h
  split at h
  · exact (Option.some.inj h).symm
  · cases h

/-- An INSERT into `entries` that is accepted. -/
theorem insertEntry_keeps {e : Entry} (h : insertEntry cfg db tx e = .ok (db', tx')) :
    ∃ row : EntryRow, (∃ a ∈ db.accounts, a.id = row.accountID) ∧
      tx'.entries = tx.entries ++ [row] ∧ tx'.header = tx.header ∧
      db' = { db with entriesSeq := db.entriesSeq + 1 } := by
  unfold insertEntry at h
  split at h
  · cases h
  · split at h
    · cases h
    · split at h
      · cases h
      · split at h
        · cases h
        · split at h
          · cases h
          · rename_i hacc
            cases h
            refine ⟨_, ?_, rfl, rfl, rfl⟩
            obtain ⟨a, ha⟩ := Option.ne_none_iff_exists'.mp (mt Option.isNone_iff_eq_none.mpr hacc)
            obtain ⟨hmem, hid⟩ := mem_of_find_key ha
            exact ⟨a, hmem, hid⟩

theorem updateBalance_keeps {id : UUID} {m : Money}
    (h : updateBalance cfg db.toLedger tx id m = .ok tx') :
    tx'.entries = tx.entries ∧ tx'.header = tx.header := by
  unfold updateBalance at h
  split at h
  · cases h
  · split at h
    · cases h; exact ⟨rfl, rfl⟩
    · split at h
      · cases h
      · cases h; exact ⟨rfl, rfl⟩

theorem insertIndex_keeps {k : Option IndexKey} (h : insertIndex db.toLedger tx k = .ok tx') :
    tx'.entries = tx.entries ∧ tx'.header = tx.header := by
  cases k with
  | none => cases h; exact ⟨rfl, rfl⟩
  | some k =>
      simp only [insertIndex] at h
      split at h
      · cases h
      · cases h; exact ⟨rfl, rfl⟩

theorem insertHeader_keeps {t : Transaction} (h : insertHeader db.toLedger tx t = .ok tx') :
    tx'.entries = tx.entries ∧ tx'.header = some (headerRow t tx.now) := by
  unfold insertHeader at h
  split at h
  · cases h; exact ⟨rfl, rfl⟩
  · split at h
    · cases h; exact ⟨rfl, rfl⟩
    · cases h

/-- A statement inside the transaction. -/
theorem stageStep_effect (now : Time) (stage : Stage) :
    Effect cfg now db .ok (.inTx w tx stage) (stageStep cfg db r w tx stage).1
      (stageStep cfg db r w tx stage).2 := by
  cases stage with
  | lock => exact .inside rfl (.inl rfl)
  | lockRow todo rows =>
      cases todo with
      | nil =>
          simp only [stageStep]
          split <;> exact .inside rfl (.inl rfl)
      | cons id todo =>
          simp only [stageStep]
          split <;> exact .inside rfl (.inl rfl)
  | updateDebit =>
      simp only [stageStep]
      split
      · exact .inside rfl (.inl rfl)
      · rename_i hu
        exact .inside (updateBalance_keeps hu).1 (.inl (updateBalance_keeps hu).2)
  | updateCredit =>
      simp only [stageStep]
      split
      · exact .inside rfl (.inl rfl)
      · rename_i hu
        exact .inside (updateBalance_keeps hu).1 (.inl (updateBalance_keeps hu).2)
  | insertHeader =>
      simp only [stageStep]
      split <;> exact .inside rfl (.inl rfl)
  | insertIndex todo =>
      cases todo with
      | nil =>
          simp only [stageStep]
          split
          · exact .inside rfl (.inl rfl)
          · rename_i hi
            split <;> exact .inside (insertHeader_keeps hi).1 (.inr (insertHeader_keeps hi).2)
      | cons ix todo =>
          simp only [stageStep]
          split
          · exact .inside rfl (.inl rfl)
          · rename_i hi
            exact .inside (insertIndex_keeps hi).1 (.inl (insertIndex_keeps hi).2)
  | insertEntries todo =>
      cases todo with
      | nil => exact .inside rfl (.inl rfl)
      | cons e todo =>
          simp only [stageStep]
          split
          · exact .inside rfl (.inl rfl)
          · rename_i hi
            obtain ⟨row, hrow, he, hh, rfl⟩ := insertEntry_keeps hi
            exact .entry hrow he hh
  | commit =>
      simp only [stageStep]
      split
      · exact .inside rfl (.inl rfl)
      · rename_i hc
        exact .commit hc rfl fun w' h => by cases h
  | rollback e =>
      exact .quiet (afterTxErr_tx r w e) fun w' h => by rw [afterTxErr_work h]; rfl

/-- **Every step of a service call has one of these effects.** -/
theorem requestStep_effect {now : Time} {others : List Tx} {p p' : Phase} {ch : Choice}
    (h : requestStep cfg now others db r p ch = some (db', p')) :
    Effect cfg now db ch p db' p' := by
  have hlookup : ∀ {p : Phase} {ch : Choice}, Effect cfg now db ch p db r.afterLookup :=
    fun {_ _} => .quiet (afterLookup_tx r) fun w h => by rw [afterLookup_work] at h; cases h
  have hquiet : ∀ {p p' : Phase} {ch : Choice}, p'.tx? = none → p'.work? = none →
      Effect cfg now db ch p db p' := fun htx hw =>
    .quiet htx fun w h => by rw [hw] at h; cases h
  cases p with
  | lookup =>
      cases ch with
      | ok =>
          simp only [requestStep] at h
          split at h
          · cases h; exact hquiet rfl rfl
          · cases h; exact hlookup
      | fail text => cases h; exact hlookup
      | _ => cases h
  | lookupEntries t =>
      cases ch with
      | ok => cases h; exact hquiet rfl rfl
      | fail text => cases h; exact hlookup
      | _ => cases h
  | original id =>
      cases ch with
      | ok =>
          simp only [requestStep] at h
          split at h <;> (cases h; exact hquiet rfl rfl)
      | fail text => cases h; exact hquiet rfl rfl
      | _ => cases h
  | originalEntries t =>
      cases ch with
      | ok => cases h; exact hquiet (afterOriginal_tx ..) (afterOriginal_work ..)
      | fail text => cases h; exact hquiet rfl rfl
      | _ => cases h
  | newID pst =>
      cases ch with
      | uuid u =>
          cases h
          have hid : u = (Work.mk pst (r.txn u)).txn.id := (r.txn_fields u).1.symm
          nth_rewrite 1 [hid]
          exact .generated
      | fail text => cases h; exact hquiet rfl rfl
      | _ => cases h
  | beginTx w =>
      cases ch with
      | ok => cases h; exact .began
      | fail text => cases h; exact hquiet rfl rfl
      | _ => cases h
  | inTx w tx stage =>
      cases ch with
      | ok =>
          simp only [requestStep] at h
          split at h
          · cases h
          · have he := @stageStep_effect cfg db r w tx now stage
            rw [Option.some.inj h] at he
            exact he
      | fail text =>
          simp only [requestStep] at h
          obtain ⟨e, _, e'⟩ := Option.map_eq_some_iff.mp h
          cases e'
          exact .inside rfl (.inl rfl)
      | lostAck text =>
          cases stage with
          | commit =>
              simp only [requestStep] at h
              split at h
              · cases h
              · rename_i hc
                cases h
                exact .commit hc (afterTxErr_tx ..) fun _ => afterTxErr_work
          | _ => cases h
      | uuid u => cases stage <;> cases h
  | refetch w =>
      cases ch with
      | ok =>
          simp only [requestStep] at h
          split at h
          · cases h; exact .quiet rfl fun _ h => h
          · cases h; exact hquiet rfl rfl
      | fail text => cases h; exact hquiet rfl rfl
      | _ => cases h
  | refetchEntries w t =>
      cases ch with
      | ok => cases h; exact hquiet rfl rfl
      | fail text => cases h; exact hquiet rfl rfl
      | _ => cases h
  | audit e ret =>
      cases ch with
      | ok =>
          simp only [requestStep] at h
          split at h
          · cases h; exact hquiet rfl rfl
          · rename_i hw
            cases h
            rw [(writeAudit_ok hw).2]
            exact .audit e rfl rfl
      | fail text => cases h; exact hquiet rfl rfl
      | _ => cases h
  | done ret => cases ch <;> cases h

end OneCall

/-! ## 2. The system -/

/-- **A step seen from the database.** -/
inductive DbStep (cfg : Config) (s : St) : Db → Prop
  | same : DbStep cfg s s.db
  | sequence : DbStep cfg s { s.db with entriesSeq := s.db.entriesSeq + 1 }
  | account {id : UUID} {name : GoString} {L : Ledger}
      (h : insertAccount s.db.toLedger id name = .ok L) : DbStep cfg s { s.db with toLedger := L }
  | commit {i : Nat} {r : Request} {w : Work} {tx : Tx} {db' : Db}
      (hc : s.calls[i]? = some (.request r (.inTx w tx .commit)))
      (h : commitTx cfg s.db tx = .ok db') : DbStep cfg s db'
  | audit (e : AuditEntry) : DbStep cfg s (s.db.withAudit s.clock e)

/-- The header a call is working with. -/
def Call.work? : Call → Option Work
  | .request _ p => p.work?
  | .createAccount _ _ => none

section System

variable {cfg : Config} {s s' : St} {a : Act}

theorem createStep_db {db db' : Db} {name : GoString} {p p' : CreatePhase} {ch : Choice}
    (h : createStep db name p ch = some (db', p')) :
    db' = db ∨ ∃ id L, insertAccount db.toLedger id name = .ok L ∧
      db' = { db with toLedger := L } := by
  cases p with
  | insert id =>
      cases ch with
      | ok =>
          simp only [createStep] at h
          split at h
          · cases h; exact .inl rfl
          · rename_i L hL
            cases h; exact .inr ⟨id, L, hL, rfl⟩
      | lostAck text =>
          simp only [createStep] at h
          split at h
          · cases h
          · rename_i L hL
            cases h; exact .inr ⟨id, L, hL, rfl⟩
      | _ => cases h <;> exact .inl rfl
  | _ => cases ch <;> cases h <;> exact .inl rfl

theorem step_db (h : step cfg s a = some s') : DbStep cfg s s'.db := by
  rcases step_cases h with ⟨r, rfl, rfl⟩ | ⟨name, rfl, rfl⟩ | ⟨d, rfl, rfl⟩ |
    ⟨i, ch, c, db', c', rfl, hc, hs, rfl⟩
  · exact .same
  · exact .same
  · exact .same
  · cases c with
    | request r p =>
        obtain ⟨⟨db₁, p'⟩, hp, e⟩ := Option.map_eq_some_iff.mp hs
        cases e
        cases requestStep_effect hp with
        | quiet => exact .same
        | generated => exact .same
        | began => exact .same
        | inside => exact .same
        | entry => exact .sequence
        | commit hcommit => exact .commit hc hcommit
        | audit e => exact .audit e
    | createAccount name p =>
        obtain ⟨⟨db₁, p'⟩, hp, e⟩ := Option.map_eq_some_iff.mp hs
        cases e
        rcases createStep_db hp with rfl | ⟨id, L, hL, rfl⟩
        · exact .same
        · exact .account hL

/-- **A step seen from a call**: it stands where it stood, it has no transaction and no header yet,
    or the step is its own. -/
theorem step_touches (h : step cfg s a = some s') {j : Nat} {c' : Call}
    (hc' : s'.calls[j]? = some c') :
    s.calls[j]? = some c' ∨ (c'.tx? = none ∧ c'.work? = none) ∨
      ∃ ch r p p', a = .call j ch ∧ s.calls[j]? = some (.request r p) ∧ c' = .request r p' ∧
        Effect cfg s.clock s.db ch p s'.db p' := by
  rcases step_cases h with ⟨r, rfl, rfl⟩ | ⟨name, rfl, rfl⟩ | ⟨d, rfl, rfl⟩ |
    ⟨i, ch, c, db', c₁, rfl, hc, hs, rfl⟩
  · rcases getElem?_snoc hc' with hold | ⟨_, rfl⟩
    · exact .inl hold
    · refine .inr (.inl ⟨?_, ?_⟩)
      · rw [Call.tx?_request]
        exact (start_ok cfg s.db r).2
      · rcases start_cases r with hstart | ⟨e, sentinel, hstart⟩
        · exact congrArg Phase.work? hstart
        · exact congrArg Phase.work? hstart
  · rcases getElem?_snoc hc' with hold | ⟨_, rfl⟩
    · exact .inl hold
    · exact .inr (.inl ⟨rfl, rfl⟩)
  · exact .inl hc'
  · by_cases hij : i = j
    · subst hij
      rw [List.getElem?_set_self (List.getElem?_eq_some_iff.mp hc).1] at hc'
      cases hc'
      cases c with
      | request r p =>
          obtain ⟨⟨db₁, p'⟩, hp, e⟩ := Option.map_eq_some_iff.mp hs
          cases e
          exact .inr (.inr ⟨ch, r, p, p', rfl, hc, rfl, requestStep_effect hp⟩)
      | createAccount name p =>
          obtain ⟨⟨db₁, p'⟩, hp, e⟩ := Option.map_eq_some_iff.mp hs
          cases e
          exact .inr (.inl ⟨rfl, rfl⟩)
    · rw [List.getElem?_set_ne hij] at hc'
      exact .inl hc'

/-- A COMMIT that is accepted. -/
theorem commitTx_spec {db db' : Db} {tx : Tx} (h : commitTx cfg db tx = .ok db') :
    db' = { db with toLedger := tx.apply db.toLedger } ∧
      (cfg.constraints = true → ∀ e ∈ tx.entries,
        doubleEntrySum (db.entries ++ tx.entries) e.transactionID = 0) := by
  unfold commitTx at h
  split at h
  · cases h
  · rename_i hnone
    cases h
    refine ⟨rfl, fun hcfg e he => ?_⟩
    have := List.find?_eq_none.mp hnone e he
    simpa [hcfg] using this

/-- An INSERT into `accounts` that is accepted. -/
theorem insertAccount_spec {L L' : Ledger} {id : UUID} {name : GoString}
    (h : insertAccount L id name = .ok L') :
    (∀ a ∈ L.accounts, a.id ≠ id) ∧
      L' = { L with accounts := L.accounts ++ [⟨id, name, 0, false⟩] } := by
  unfold insertAccount at h
  split at h
  · cases h
  · split at h
    · cases h
    · rename_i hnone
      cases h
      exact ⟨find_key_none.mp (Option.not_isSome_iff_eq_none.mp hnone), rfl⟩

end System

/-! ## 3. Growth -/

/-- Nothing is taken away. -/
structure Grows (L L' : Ledger) : Prop where
  accounts : L.accounts.map (·.id) <+: L'.accounts.map (·.id)
  transactions : L.transactions <+: L'.transactions
  entries : L.entries <+: L'.entries

theorem Grows.refl (L : Ledger) : Grows L L :=
  ⟨List.prefix_refl _, List.prefix_refl _, List.prefix_refl _⟩

theorem Grows.trans {L₁ L₂ L₃ : Ledger} (h : Grows L₁ L₂) (h' : Grows L₂ L₃) : Grows L₁ L₃ :=
  ⟨h.accounts.trans h'.accounts, h.transactions.trans h'.transactions, h.entries.trans h'.entries⟩

theorem Grows.account {L L' : Ledger} (h : Grows L L') {id : UUID}
    (ha : ∃ a ∈ L.accounts, a.id = id) : ∃ a ∈ L'.accounts, a.id = id := by
  obtain ⟨a, ha, rfl⟩ := ha
  exact List.mem_map.mp (h.accounts.subset (List.mem_map_of_mem ha))

/-- A COMMIT rewrites balances only. -/
theorem map_id_apply (tx : Tx) (L : Ledger) :
    (tx.apply L).accounts.map (·.id) = L.accounts.map (·.id) := by
  rw [Tx.apply, List.map_map]
  refine List.map_congr_left fun a _ => ?_
  simp only [Function.comp_apply]
  split <;> rfl

theorem dbStep_grows {cfg : Config} {s : St} {db' : Db} (h : DbStep cfg s db') :
    Grows s.db.toLedger db'.toLedger := by
  cases h with
  | same => exact .refl _
  | sequence => exact .refl _
  | audit => exact .refl _
  | account h =>
      obtain ⟨_, rfl⟩ := insertAccount_spec h
      refine ⟨?_, List.prefix_refl _, List.prefix_refl _⟩
      rw [List.map_append]
      exact List.prefix_append _ _
  | commit _ h =>
      rw [(commitTx_spec h).1]
      exact ⟨(map_id_apply ..).symm ▸ List.prefix_refl _, List.prefix_append _ _,
        List.prefix_append _ _⟩

/-- **The tables only grow**, from any state. -/
theorem exec_grows {cfg : Config} {s₀ s : St} {acts : List Act} (h : exec cfg s₀ acts = some s) :
    Grows s₀.db.toLedger s.db.toLedger :=
  run_inv (I := fun m => Grows s₀.db.toLedger m.db.toLedger)
    (fun _ _ _ hi hs => hi.trans (dbStep_grows (step_db hs))) (.refl _) h

/-! ## 4. The audit log -/

/-- The ids of the audit log are values the sequence has given out, each once. -/
structure AuditIDs (db : Db) : Prop where
  nodup : (db.auditLog.map (·.id)).Nodup
  bound : ∀ r ∈ db.auditLog, r.id ≤ db.auditSeq

theorem dbStep_auditIDs {cfg : Config} {s : St} {db' : Db} (hI : AuditIDs s.db)
    (h : DbStep cfg s db') : AuditIDs db' := by
  cases h with
  | same => exact hI
  | sequence => exact ⟨hI.nodup, hI.bound⟩
  | account => exact ⟨hI.nodup, hI.bound⟩
  | commit _ h =>
      rw [(commitTx_spec h).1]
      exact ⟨hI.nodup, hI.bound⟩
  | audit e =>
      refine ⟨nodup_key_snoc hI.nodup fun r hr => ?_, forall_mem_snoc (fun r hr => ?_) ?_⟩
      · exact Nat.ne_of_lt (Nat.lt_succ_of_le (hI.bound r hr))
      · exact Nat.le_succ_of_le (hI.bound r hr)
      · exact Nat.le_refl _

/-- **The audit log has a primary key.** -/
theorem exec_auditIDs {cfg : Config} {db : Db} (h₀ : AuditIDs db) {clock : Time} {acts : List Act}
    {s : St} (h : exec cfg (St.start db clock) acts = some s) : AuditIDs s.db :=
  run_inv (I := fun m => AuditIDs m.db) (fun _ _ _ hi hs => dbStep_auditIDs hi (step_db hs)) h₀ h

/-! ## 5. What the schema enforces -/

/-- What the primary key of `accounts`, the foreign key of `entries` and the double-entry trigger
    enforce. -/
structure SchemaOk (L : Ledger) : Prop where
  accountIDs : (L.accounts.map (·.id)).Nodup
  entryAccount : ∀ e ∈ L.entries, ∃ a ∈ L.accounts, a.id = e.accountID
  balanced : ∀ t, doubleEntrySum L.entries t = 0

/-- The entries of open transactions are on accounts that exist, too. -/
structure TablesOk (s : St) : Prop where
  schema : SchemaOk s.db.toLedger
  pending : ∀ i tx, s.tx? i = some tx → ∀ e ∈ tx.entries, ∃ a ∈ s.db.accounts, a.id = e.accountID

section Schema

variable {cfg : Config} {s s' : St} {a : Act}

theorem schemaOk_account {L L' : Ledger} (hL : SchemaOk L) {id : UUID} {name : GoString}
    (h : insertAccount L id name = .ok L') : SchemaOk L' := by
  obtain ⟨hnew, rfl⟩ := insertAccount_spec h
  refine ⟨nodup_key_snoc hL.accountIDs hnew, fun e he => ?_, hL.balanced⟩
  obtain ⟨a, ha, hid⟩ := hL.entryAccount e he
  exact ⟨a, List.mem_append_left _ ha, hid⟩

theorem schemaOk_commit (hcfg : cfg.constraints = true) {db db' : Db} (hL : SchemaOk db.toLedger)
    {tx : Tx} (hp : ∀ e ∈ tx.entries, ∃ a ∈ db.accounts, a.id = e.accountID)
    (h : commitTx cfg db tx = .ok db') : SchemaOk db'.toLedger := by
  obtain ⟨rfl, hsum⟩ := commitTx_spec h
  have hids := map_id_apply tx db.toLedger
  refine ⟨hids.symm ▸ hL.accountIDs, fun e he => ?_, doubleEntrySum_checked hL.balanced (hsum hcfg)⟩
  have hin : ∃ a ∈ db.accounts, a.id = e.accountID := by
    rcases List.mem_append.mp he with he | he
    · exact hL.entryAccount e he
    · exact hp e he
  obtain ⟨a, ha, hid⟩ := hin
  rw [← hid]
  exact List.mem_map.mp (hids.symm ▸ List.mem_map_of_mem ha)

theorem dbStep_schemaOk (hcfg : cfg.constraints = true) (hI : TablesOk s) {db' : Db}
    (h : DbStep cfg s db') : SchemaOk db'.toLedger := by
  cases h with
  | same => exact hI.schema
  | sequence => exact hI.schema
  | audit => exact hI.schema
  | account h => exact schemaOk_account hI.schema h
  | commit hc h =>
      exact schemaOk_commit hcfg hI.schema (hI.pending _ _ (St.tx?_of_call hc)) h

/-- **One step keeps what the schema enforces.** -/
theorem tablesOk_step (hcfg : cfg.constraints = true) (hI : TablesOk s)
    (h : step cfg s a = some s') : TablesOk s' := by
  have hgrow := dbStep_grows (step_db h)
  refine ⟨dbStep_schemaOk hcfg hI (step_db h), fun i tx' ht e he => ?_⟩
  obtain ⟨r, w, stage, hc'⟩ := St.call_of_tx? ht
  rcases step_touches h hc' with hc | ⟨htx, _⟩ | ⟨ch, r', p, p', _, hc, e', heff⟩
  · exact hgrow.account (hI.pending i tx' (St.tx?_of_call hc) e he)
  · cases htx
  · cases e'
    generalize s'.db = db' at hgrow heff ⊢
    cases heff with
    | quiet htx => cases htx
    | commit _ htx => cases htx
    | audit _ htx => cases htx
    | began => cases he
    | inside hsame =>
        rw [hsame] at he
        exact hgrow.account (hI.pending i _ (St.tx?_of_call hc) e he)
    | entry hrow hsame =>
        rw [hsame] at he
        rcases List.mem_append.mp he with he | he
        · exact hgrow.account (hI.pending i _ (St.tx?_of_call hc) e he)
        · rw [List.mem_singleton.mp he]
          exact hgrow.account hrow

theorem tablesOk_start {db : Db} (h : SchemaOk db.toLedger) (clock : Time) :
    TablesOk (St.start db clock) := by
  refine ⟨h, fun i tx ht => ?_⟩
  obtain ⟨r, w, stage, hc⟩ := St.call_of_tx? ht
  exact absurd (List.mem_of_getElem? hc) List.not_mem_nil

/-- **A run of the service keeps what the schema enforces.** -/
theorem exec_schemaOk (hcfg : cfg.constraints = true) {db : Db} (h₀ : SchemaOk db.toLedger)
    {clock : Time} {acts : List Act} (h : exec cfg (St.start db clock) acts = some s) :
    SchemaOk s.db.toLedger :=
  (run_inv (fun _ _ _ => tablesOk_step hcfg) (tablesOk_start h₀ clock) h).schema

end Schema

/-! ## 6. Generated ids -/

/-- Every header, committed or not, has an id in `G`. -/
structure HeaderIDs (G : UUID → Prop) (s : St) : Prop where
  committed : ∀ t ∈ s.db.transactions, G t.id
  pending : ∀ i tx, s.tx? i = some tx → ∀ t ∈ tx.header, G t.id
  work : ∀ (i : Nat) (c : Call) (w : Work), s.calls[i]? = some c → c.work? = some w → G w.txn.id

/-- The ids an action generates are in `G`. -/
def Act.generates (G : UUID → Prop) (a : Act) : Prop := ∀ i u, a = .call i (.uuid u) → G u

section Generated

variable {cfg : Config} {s s' : St} {a : Act} {G : UUID → Prop}

theorem dbStep_headerIDs (hI : HeaderIDs G s) {db' : Db} (h : DbStep cfg s db') :
    ∀ t ∈ db'.transactions, G t.id := by
  cases h with
  | same => exact hI.committed
  | sequence => exact hI.committed
  | audit => exact hI.committed
  | account h =>
      obtain ⟨_, rfl⟩ := insertAccount_spec h
      exact hI.committed
  | commit hc h =>
      rw [(commitTx_spec h).1]
      intro t ht
      rcases List.mem_append.mp ht with ht | ht
      · exact hI.committed t ht
      · exact hI.pending _ _ (St.tx?_of_call hc) t (Option.mem_toList.mp ht)

theorem headerIDs_step (hI : HeaderIDs G s) (ha : a.generates G) (h : step cfg s a = some s') :
    HeaderIDs G s' := by
  refine ⟨dbStep_headerIDs hI (step_db h), fun i tx' ht t htm => ?_, fun i c w hc' hw => ?_⟩
  · obtain ⟨r, w, stage, hc'⟩ := St.call_of_tx? ht
    rcases step_touches h hc' with hc | ⟨htx, _⟩ | ⟨ch, r', p, p', _, hc, e', heff⟩
    · exact hI.pending i tx' (St.tx?_of_call hc) t htm
    · cases htx
    · cases e'
      generalize s'.db = db' at heff
      cases heff with
      | quiet htx => cases htx
      | commit _ htx => cases htx
      | audit _ htx => cases htx
      | began => cases htm
      | inside _ hh =>
          rcases hh with hh | hh
          · rw [hh] at htm
            exact hI.pending i _ (St.tx?_of_call hc) t htm
          · rw [hh] at htm
            cases htm
            exact hI.work i _ w hc rfl
      | entry _ _ hh =>
          rw [hh] at htm
          exact hI.pending i _ (St.tx?_of_call hc) t htm
  · rcases step_touches h hc' with hc | ⟨_, hnone⟩ | ⟨ch, r', p, p', rfl, hc, rfl, heff⟩
    · exact hI.work i c w hc hw
    · rw [hnone] at hw
      cases hw
    · generalize s'.db = db' at heff
      cases heff with
      | quiet _ hsame => exact hI.work i _ w hc (hsame w hw)
      | generated =>
          cases hw
          exact ha i _ rfl
      | began => exact hI.work i _ w hc hw
      | inside => exact hI.work i _ w hc hw
      | entry => exact hI.work i _ w hc hw
      | commit _ _ hsame => exact hI.work i _ w hc (hsame w hw ▸ rfl)
      | audit _ _ hnone =>
          rw [Call.work?, hnone] at hw
          cases hw

/-- **The ids of the headers of a run** are those it starts with and those its calls generate. -/
theorem exec_headerIDs {db : Db} (h₀ : ∀ t ∈ db.transactions, G t.id) {clock : Time}
    {acts : List Act} (ha : ∀ a ∈ acts, a.generates G)
    (h : exec cfg (St.start db clock) acts = some s) : ∀ t ∈ s.db.transactions, G t.id := by
  have hstart : HeaderIDs G (St.start db clock) := by
    refine ⟨h₀, fun i tx ht => ?_, fun i c w hc => ?_⟩
    · obtain ⟨r, w, stage, hc⟩ := St.call_of_tx? ht
      exact absurd (List.mem_of_getElem? hc) List.not_mem_nil
    · exact absurd (List.mem_of_getElem? hc) List.not_mem_nil
  exact (run_inv_steps (C := fun _ a => a.generates G)
    (fun _ _ _ hC hi hs => headerIDs_step hi hC hs) hstart h
    fun x hx => ha x.2 (mem_steps_act hx)).committed

end Generated

end BankingService
