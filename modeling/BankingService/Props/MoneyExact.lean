/-
  File:      BankingService/Props/MoneyExact.lean
  Subject:   Arithmetic on amounts is exact, over the rationals they denote.

  A `Money` value carries its scale, so what holds of every value of the type holds of everything
  the constructors and `Add`, `Sub`, `Neg` build, the zero value with its nil coefficient included.

  * `unrounded_add`, `unrounded_sub`, `unrounded_neg` -- the inner `Round(4)` changes no result;
  * **`money_exact`** -- the operations are those of the rationals, the comparisons are their order.
-/
import BankingService.Money.Value

namespace BankingService.Money

/-! ## 1. The inner rounding -/

/-- A sum is a multiple of the last place before it is rounded. -/
theorem unrounded_add (a b : Money) : (a.add b).toRat = (a.d.add b.d).toRat := by
  rw [Decimal.add_toRat, toRat_eq_units, units_add]
  show _ = a.toRat + b.toRat
  rw [toRat_eq_units, toRat_eq_units]
  push_cast
  ring

theorem unrounded_sub (a b : Money) : (a.sub b).toRat = (a.d.sub b.d).toRat := by
  rw [Decimal.sub_toRat, toRat_eq_units, units_sub]
  show _ = a.toRat - b.toRat
  rw [toRat_eq_units, toRat_eq_units]
  push_cast
  ring

theorem unrounded_neg (a : Money) : a.neg.toRat = a.d.neg.toRat := by
  rw [Decimal.neg_toRat, toRat_eq_units, units_neg]
  show _ = -a.toRat
  rw [toRat_eq_units]
  push_cast
  ring

theorem toRat_add (a b : Money) : (a.add b).toRat = a.toRat + b.toRat := by
  rw [unrounded_add, Decimal.add_toRat]
  rfl

theorem toRat_sub (a b : Money) : (a.sub b).toRat = a.toRat - b.toRat := by
  rw [unrounded_sub, Decimal.sub_toRat]
  rfl

theorem toRat_neg (a : Money) : a.neg.toRat = -a.toRat := by
  rw [unrounded_neg, Decimal.neg_toRat]
  rfl

/-! ## 2. Representation -/

/-- What `NewFromDecimal` returns is given by its value alone: one exponent, a coefficient that is
    not nil. -/
theorem newFromDecimal_ext {d d' : Decimal}
    (hd : d.value.isSome) (hd' : d'.value.isSome)
    (h : (newFromDecimal d).units = (newFromDecimal d').units) :
    newFromDecimal d = newFromDecimal d' := by
  have hsome {x : Decimal} (hx : x.value.isSome) : (x.round 4).value = some (x.round 4).coef := by
    unfold Decimal.round
    split
    · obtain ⟨v, hv⟩ := Option.isSome_iff_exists.mp hx
      simp [Decimal.coef, hv]
    · rfl
  have hexp : (d.round 4).exp = (d'.round 4).exp := by
    rw [Decimal.round_exp, Decimal.round_exp]
  have hval : (d.round 4).value = (d'.round 4).value := by
    rw [hsome hd, hsome hd']
    exact congrArg some h
  have hdec : d.round 4 = d'.round 4 := by
    cases hr : d.round 4 with
    | mk v e =>
        cases hr' : d'.round 4 with
        | mk v' e' =>
            rw [hr, hr'] at hexp hval
            exact congr (congrArg Decimal.mk hval) hexp
  unfold newFromDecimal
  simp only [hdec]

theorem zero_units : zero.units = 0 := units_newFromDecimal (.inr rfl)

/-! ## 3. The laws -/

theorem add_comm (a b : Money) : a.add b = b.add a := by
  refine newFromDecimal_ext rfl rfl ?_
  show (a.add b).units = (b.add a).units
  rw [units_add, units_add, Int.add_comm]

theorem add_assoc (a b c : Money) : (a.add b).add c = a.add (b.add c) := by
  refine newFromDecimal_ext rfl rfl ?_
  show ((a.add b).add c).units = (a.add (b.add c)).units
  simp only [units_add]
  ring

/-- **Money arithmetic is exact**: every value is a multiple of `10 ^ -4`, `Add`, `Sub` and `Neg`
    are those of the rationals with or without the inner rounding, and the comparisons are the
    order. -/
theorem money_exact (a b c : Money) :
    (∃ k : ℤ, a.toRat = k * (1 / 10 ^ 4)) ∧
      ((a.add b).toRat = a.toRat + b.toRat ∧ (a.d.add b.d).toRat = a.toRat + b.toRat) ∧
      ((a.sub b).toRat = a.toRat - b.toRat ∧ (a.d.sub b.d).toRat = a.toRat - b.toRat) ∧
      (a.neg.toRat = -a.toRat ∧ a.d.neg.toRat = -a.toRat) ∧
      a.add b = b.add a ∧ (a.add b).add c = a.add (b.add c) ∧
      (a.add zero).equal a = true ∧ (zero.add a).equal a = true ∧
      ((a.add b).sub b).equal a = true ∧
      (a.lessThan b = true ↔ a.toRat < b.toRat) ∧ (a.equal b = true ↔ a.toRat = b.toRat) ∧
      (a.isPositive = true ↔ 0 < a.toRat) ∧ (a.isZero = true ↔ a.toRat = 0) := by
  have h0 : zero.toRat = 0 := by
    rw [toRat_eq_units, zero_units]
    norm_num
  refine ⟨⟨a.units, ?_⟩, ⟨toRat_add a b, Decimal.add_toRat ..⟩, ⟨toRat_sub a b,
    Decimal.sub_toRat ..⟩, ⟨toRat_neg a, Decimal.neg_toRat _⟩, add_comm a b, add_assoc a b c,
    ?_, ?_, ?_, ?_, ?_, ?_, ?_⟩
  · rw [toRat_eq_units]
    ring
  · rw [equal_iff, units_add, zero_units, Int.add_zero]
  · rw [equal_iff, units_add, zero_units, Int.zero_add]
  · rw [equal_iff, units_sub, units_add, Int.add_sub_cancel]
  · rw [lessThan_iff, toRat_lt_iff]
  · rw [equal_iff, toRat_eq_iff]
  · rw [isPositive_iff, ← h0, toRat_lt_iff, zero_units]
  · rw [isZero_iff, ← h0, toRat_eq_iff, zero_units]

end BankingService.Money
