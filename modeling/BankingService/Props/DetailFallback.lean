/-
  File:      BankingService/Props/DetailFallback.lean
  Subject:   TWO WAYS TO TELL THE INDEX OF A UNIQUE VIOLATION: by the name of the constraint, and,
             where the name is empty, by the column named in the detail text.

  * `fallback_agrees_iff` -- `InsertReversalTransaction` returns the same sentinel either way, for a
    reversal always, for a key exactly if the key does not itself name the reversals' column.
-/
import BankingService.Proof.Conflicts

namespace BankingService

/-- The same error from a server that sends no constraint name. -/
def PgError.unnamed (e : PgError) : PgError := { e with constraintName := "" }

/-- Without a name the detail decides. -/
theorem insertReversalTransactionErr_unnamed (k : IndexKey) :
    insertReversalTransactionErr (.pg k.violation.unnamed) =
      .sentinel (if containsSubstr k.violation.detail (bytes "reverses_transaction_id") then
        .alreadyReversed else .idempotencyConflict) := by
  have hstate : k.violation.unnamed.state = .uniqueViolation := by cases k <;> rfl
  have hname : k.violation.unnamed.constraintName = "" := rfl
  have hdetail : k.violation.unnamed.detail = k.violation.detail := rfl
  simp only [insertReversalTransactionErr]
  rw [if_pos hstate, hname, if_neg (by decide), if_neg (by decide), hdetail]
  split <;> rfl

/-- **The two ways agree.** A violation of the reversals' index is ErrAlreadyReversed and one of the
    keys' index is ErrIdempotencyConflict when the constraint is named. Without the name both are
    what they were exactly if the key does not contain `reverses_transaction_id`. -/
theorem fallback_agrees_iff (key : GoString) (target : UUID) :
    insertReversalTransactionErr (.pg (IndexKey.reverses target).violation) =
        .sentinel .alreadyReversed ∧
      insertReversalTransactionErr (.pg (IndexKey.key key).violation) =
        .sentinel .idempotencyConflict ∧
      insertReversalTransactionErr (.pg (IndexKey.reverses target).violation.unnamed) =
        .sentinel .alreadyReversed ∧
      (insertReversalTransactionErr (.pg (IndexKey.key key).violation.unnamed) =
          insertReversalTransactionErr (.pg (IndexKey.key key).violation) ↔
        ¬bytes "reverses_transaction_id" <:+: key) := by
  have hkey : insertReversalTransactionErr (.pg (IndexKey.key key).violation) =
      .sentinel .idempotencyConflict := rfl
  refine ⟨rfl, hkey, ?_, ?_⟩
  · rw [insertReversalTransactionErr_unnamed, containsSubstr_reverses]
    rfl
  · rw [insertReversalTransactionErr_unnamed, hkey, ← containsSubstr_key]
    cases containsSubstr (IndexKey.key key).violation.detail (bytes "reverses_transaction_id") with
    | false => exact ⟨fun _ h => (by cases h), fun _ => rfl⟩
    | true => exact ⟨fun h => (by cases h), fun h => absurd rfl h⟩

/-- An ordinary key: the conflict is told either way. -/
theorem fallback_agrees_undo :
    insertReversalTransactionErr (.pg (IndexKey.key (bytes "undo-1")).violation.unnamed) =
      .sentinel .idempotencyConflict :=
  (fallback_agrees_iff (bytes "undo-1") 100#128).2.2.2.mpr (by decide +kernel)

/-- **A key that names the column**: with the constraint's name the conflict of the key is one, and
    without it the original counts as reversed. -/
theorem fallback_misled :
    insertReversalTransactionErr (.pg (IndexKey.key (bytes "reverses_transaction_id")).violation) =
        .sentinel .idempotencyConflict ∧
      insertReversalTransactionErr
          (.pg (IndexKey.key (bytes "reverses_transaction_id")).violation.unnamed) =
        .sentinel .alreadyReversed := by
  decide +kernel

end BankingService
