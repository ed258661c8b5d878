/-
  File:      BankingService/Proof/Conflicts.lean
  Subject:   WHAT A UNIQUE VIOLATION OF THE HEADER INSERT BECOMES, index by index.

  `InsertTransaction` calls every 23505 a key conflict. `InsertReversalTransaction` goes by the
  name of the constraint, and for any other name by the detail text: there it looks for the name of
  the column.

  * `containsSubstr_iff` -- the scan finds exactly the substrings.
  * `containsSubstr_id`, `containsSubstr_reverses`, `containsSubstr_key` -- whether the detail of a
    violation names the column: never for an id, always for a reversal, and for a key exactly if
    the key itself does.
  * `indexed_id`, `indexed_key`, `indexed_reverses` -- when an index holds an entry.
  * `insertErr_id`, `insertErr_key`, `insertErr_reverses` -- what its violation becomes.
-/
import BankingService.Proof.Steps

namespace BankingService

/-! ## 1. The detail text -/

/-- **`containsSubstr` finds exactly the substrings.** -/
theorem containsSubstr_iff {s sub : GoString} : containsSubstr s sub = true ↔ sub <:+: s := by
  unfold containsSubstr
  split
  · rename_i h0
    rw [List.length_eq_zero_iff.mp h0]
    exact ⟨fun _ => List.nil_infix, fun _ => rfl⟩
  · rename_i h0
    rw [List.any_eq_true]
    constructor
    · rintro ⟨i, _, hi⟩
      rw [← beq_iff_eq.mp hi]
      exact (List.take_prefix _ _).isInfix.trans (List.drop_suffix _ _).isInfix
    · rintro ⟨a, b, rfl⟩
      refine ⟨a.length, List.mem_range.mpr ?_, ?_⟩
      · simp only [List.length_append]
        omega
      · rw [List.append_assoc, List.drop_left, List.take_left]
        exact beq_self_eq_true sub

/-- A substring without the byte `c` does not reach over it. -/
theorem infix_of_separated {sub l l' : GoString} {c : UInt8} (h : sub <:+: l ++ c :: l')
    (hc : c ∉ sub) : sub <:+: l ∨ sub <:+: l' := by
  obtain ⟨a, b, e⟩ := h
  rcases List.append_eq_append_iff.mp e with ⟨m, hl, _⟩ | ⟨m, hm, hb⟩
  · exact .inl ⟨a, m, hl.symm⟩
  · cases m with
    | nil =>
        rw [List.append_nil] at hm
        exact .inl ⟨a, [], by rw [List.append_nil, hm]⟩
    | cons d m =>
        obtain ⟨rfl, hl'⟩ := List.cons.inj hb
        rcases List.append_eq_append_iff.mp hm with ⟨n, _, hsub⟩ | ⟨n, _, hn⟩
        · exact absurd (hsub ▸ List.mem_append_right _ List.mem_cons_self) hc
        · cases n with
          | nil =>
              rw [List.nil_append] at hn
              exact absurd (hn ▸ List.mem_cons_self) hc
          | cons d n =>
              obtain ⟨_, hm'⟩ := List.cons.inj hn
              exact .inr ⟨n, b, by rw [hl', hm']; rfl⟩

theorem hexDigit_ne_underscore {n : Nat} (h : n < 16) : hexDigit n ≠ 95 := by
  have : ∀ n : Fin 16, hexDigit n.1 ≠ 95 := by decide
  exact this ⟨n, h⟩

/-- The text of a UUID has no underscore. -/
theorem underscore_not_mem_text (u : UUID) : 95 ∉ u.text := by
  have hex : ∀ i n : Nat, 95 ∉ (List.range n).map fun k =>
      hexDigit (u.toNat / 16 ^ (31 - (i + k)) % 16) := by
    intro i n h
    obtain ⟨k, _, e⟩ := List.mem_map.mp h
    exact hexDigit_ne_underscore (Nat.mod_lt _ (by decide)) e
  unfold UUID.text
  simp only [List.mem_append, List.mem_singleton, not_or]
  exact ⟨⟨⟨⟨⟨⟨⟨⟨hex 0 8, by decide⟩, hex 8 4⟩, by decide⟩, hex 12 4⟩, by decide⟩, hex 16 4⟩,
    by decide⟩, hex 20 12⟩

/-- The detail of a primary key violation does not name the column of the reversals. -/
theorem containsSubstr_id (u : UUID) :
    containsSubstr (IndexKey.id u).violation.detail (bytes "reverses_transaction_id") = false := by
  refine Bool.eq_false_iff.mpr fun h => ?_
  have hin := (containsSubstr_iff.mp h).subset (show (95 : UInt8) ∈ _ by decide)
  simp only [IndexKey.violation, uniqueViolation, List.mem_append] at hin
  rcases hin with (((h | h) | h) | h) | h
  · exact absurd h (by decide)
  · exact absurd h (by decide)
  · exact absurd h (by decide)
  · exact underscore_not_mem_text u h
  · exact absurd h (by decide)

/-- The detail of a reversal violation names its column. -/
theorem containsSubstr_reverses (u : UUID) :
    containsSubstr (IndexKey.reverses u).violation.detail (bytes "reverses_transaction_id") =
      true := by
  refine containsSubstr_iff.mpr
    ⟨bytes "Key (", bytes ")=(" ++ u.text ++ bytes ") already exists.", ?_⟩
  simp only [IndexKey.violation, uniqueViolation, List.append_assoc]

/-- The detail of a key violation names it exactly if the key does: the parentheses around the key
    keep it apart from the rest. -/
theorem containsSubstr_key (key : GoString) :
    containsSubstr (IndexKey.key key).violation.detail (bytes "reverses_transaction_id") = true ↔
      bytes "reverses_transaction_id" <:+: key := by
  have hdetail : (IndexKey.key key).violation.detail =
      bytes "Key (idempotency_key)=" ++ 40 :: (key ++ 41 :: bytes " already exists.") := by
    show bytes "Key (" ++ bytes "idempotency_key" ++ bytes ")=(" ++ key ++
      bytes ") already exists." = _
    rw [show bytes "Key (" ++ bytes "idempotency_key" ++ bytes ")=(" =
        bytes "Key (idempotency_key)=" ++ [40] by decide +kernel,
      show bytes ") already exists." = 41 :: bytes " already exists." by decide +kernel]
    simp only [List.append_assoc, List.cons_append, List.nil_append]
  rw [containsSubstr_iff, hdetail]
  constructor
  · intro h
    rcases infix_of_separated h (by decide +kernel) with h | h
    · exact absurd h (by decide +kernel)
    · rcases infix_of_separated h (by decide +kernel) with h | h
      · exact h
      · exact absurd h (by decide +kernel)
  · intro h
    exact (h.trans (List.prefix_append _ _).isInfix).trans
      (((List.suffix_cons _ _).trans (List.suffix_append _ _)).isInfix)

/-! ## 2. The three indexes -/

section Indexed

variable {L : Ledger}

theorem indexed_id {u : UUID} : L.indexed (.id u) = true ↔ ∃ t ∈ L.transactions, t.id = u := by
  simp [Ledger.indexed, TransactionRow.indexKeys, @eq_comm _ u]

theorem indexed_key {key : GoString} :
    L.indexed (.key key) = true ↔ ∃ t ∈ L.transactions, t.idempotencyKey = key := by
  simp [Ledger.indexed, TransactionRow.indexKeys, @eq_comm _ key]

theorem indexed_reverses {u : UUID} :
    L.indexed (.reverses u) = true ↔
      ∃ t ∈ L.transactions, t.reversesTransactionID = some u := by
  simp [Ledger.indexed, TransactionRow.indexKeys]

end Indexed

/-- The key is taken: a key conflict for every method. -/
theorem insertErr_key (r : Request) (s : GoString) :
    r.insertErr (.pg (IndexKey.key s).violation) = .sentinel .idempotencyConflict := by
  cases r <;> rfl

/-- The generated id is taken: a key conflict too. -/
theorem insertErr_id (r : Request) (u : UUID) :
    r.insertErr (.pg (IndexKey.id u).violation) = .sentinel .idempotencyConflict := by
  cases r with
  | transfer => rfl
  | deposit => rfl
  | reverse =>
      have hstate : (IndexKey.id u).violation.state = .uniqueViolation := rfl
      have hname : (IndexKey.id u).violation.constraintName = "transactions_pkey" := rfl
      simp only [Request.insertErr, insertReversalTransactionErr]
      rw [if_pos hstate, hname, if_neg (by decide), if_neg (by decide), containsSubstr_id]
      rfl

/-- The original is reversed already. -/
theorem insertErr_reverses (originalTxID u : UUID) (key q : GoString) :
    (Request.reverse originalTxID key q).insertErr (.pg (IndexKey.reverses u).violation) =
      .sentinel .alreadyReversed := rfl

end BankingService
