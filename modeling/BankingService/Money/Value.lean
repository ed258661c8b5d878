/-
  File:      BankingService/Money/Value.lean
  Subject:   THE NUMBER A DECIMAL DENOTES: `value * 10 ^ exp` as a rational, and what the package's
             operations do to it.

  * `rescale_toRat`, `add_toRat`, `sub_toRat`, `neg_toRat` -- the operations are exact: the common
    exponent is the smaller one;
  * **`round_roundsAway`** -- `Round` is the nearest multiple of the last place, ties away from
    zero: truncating to one place more first loses nothing, because the digit kept decides;
  * `toRat_eq_units` -- a `Money` denotes its number of ten-thousandths.
-/
import BankingService.Lib.Rounding
import BankingService.Money.Money

namespace BankingService

open Lib

namespace Decimal

/-- The rational number a decimal denotes. -/
def toRat (d : Decimal) : ℚ := d.coef * 10 ^ d.exp

/-! ## 1. Rescaling -/

/-- `rescale` truncates a fraction `a / b` of units of the new last place; where no digit is lost
    the denominator is 1. -/
theorem rescale_quotient (d : Decimal) (e : Int) :
    ∃ (a : Int) (b : Nat), 0 < b ∧ (d.rescale e).coef = a.tdiv b ∧ d.toRat = a / b * 10 ^ e ∧
      (e ≤ d.exp → b = 1) := by
  have h10 : (10 : ℚ) ≠ 0 := by norm_num
  unfold rescale toRat
  by_cases h₁ : d.exp = e
  · exact ⟨d.coef, 1, Nat.one_pos, by simp [h₁], by simp [h₁], fun _ => rfl⟩
  · by_cases h₂ : d.exp < e
    · refine ⟨d.coef, 10 ^ (e - d.exp).natAbs, Nat.pow_pos (by norm_num), ?_, ?_, fun h => ?_⟩
      · simp [h₁, h₂]
      · obtain ⟨k, hk⟩ : ∃ k : Nat, e = d.exp + k := ⟨(e - d.exp).toNat, by omega⟩
        have hn : (e - d.exp).natAbs = k := by omega
        rw [hn, hk, zpow_add₀ h10, zpow_natCast]
        push_cast
        field_simp
      · omega
    · refine ⟨d.coef * 10 ^ (e - d.exp).natAbs, 1, Nat.one_pos, ?_, ?_, fun _ => rfl⟩
      · simp [h₁, h₂]
      · obtain ⟨k, hk⟩ : ∃ k : Nat, d.exp = e + k := ⟨(d.exp - e).toNat, by omega⟩
        have hn : (e - d.exp).natAbs = k := by omega
        rw [hn, hk, zpow_add₀ h10, zpow_natCast]
        push_cast
        ring

/-- To a smaller exponent `rescale` is exact. -/
theorem rescale_toRat {d : Decimal} {e : Int} (h : e ≤ d.exp) : (d.rescale e).toRat = d.toRat := by
  obtain ⟨a, b, _, hc, hd, hb⟩ := rescale_quotient d e
  unfold toRat
  rw [rescale_exp, hc, hb h, Nat.cast_one, Int.tdiv_one]
  rw [hb h, Nat.cast_one, div_one] at hd
  exact hd.symm

/-- Both operands keep their numbers and end at one exponent. -/
theorem rescalePair_toRat (d₁ d₂ : Decimal) :
    (rescalePair d₁ d₂).1.toRat = d₁.toRat ∧ (rescalePair d₁ d₂).2.toRat = d₂.toRat ∧
      (rescalePair d₁ d₂).2.exp = (rescalePair d₁ d₂).1.exp := by
  unfold rescalePair
  by_cases h₁ : d₁.exp < d₂.exp
  · simp [h₁, rescale_toRat h₁.le, rescale_exp]
  · by_cases h₂ : d₂.exp < d₁.exp
    · simp [h₁, h₂, rescale_toRat h₂.le, rescale_exp]
    · simp [h₁, h₂]
      omega

/-- **`Add` is exact.** -/
theorem add_toRat (d₁ d₂ : Decimal) : (d₁.add d₂).toRat = d₁.toRat + d₂.toRat := by
  obtain ⟨h₁, h₂, he⟩ := rescalePair_toRat d₁ d₂
  rw [← h₁, ← h₂]
  unfold add toRat
  rw [he, coef_some]
  push_cast
  ring

/-- **`Sub` is exact.** -/
theorem sub_toRat (d₁ d₂ : Decimal) : (d₁.sub d₂).toRat = d₁.toRat - d₂.toRat := by
  obtain ⟨h₁, h₂, he⟩ := rescalePair_toRat d₁ d₂
  rw [← h₁, ← h₂]
  unfold sub toRat
  rw [he, coef_some]
  push_cast
  ring

theorem neg_toRat (d : Decimal) : d.neg.toRat = -d.toRat := by
  unfold neg toRat
  rw [coef_some]
  push_cast
  ring

/-! ## 2. Rounding -/

/-- The division by ten of `Round`, after five was added away from zero. -/
def roundDigit (r : Int) : Int :=
  let v := if r < 0 then r - 5 else r + 5
  if v / 10 < 0 ∧ v % 10 ≠ 0 then v / 10 + 1 else v / 10

/-- The Euclidean division and the step back up make it symmetric. -/
theorem roundDigit_eq (r : Int) :
    roundDigit r = if r < 0 then -((-r + 5) / 10) else (r + 5) / 10 := by
  unfold roundDigit
  by_cases h : r < 0
  · simp only [h, if_true]
    split <;> omega
  · simp only [h, if_false]
    rw [if_neg (by omega)]

/-- Truncating `a / b` first does not change how it rounds to tens. -/
theorem roundDigit_tdiv (a : Int) {b : Nat} (hb : 0 < b) :
    roundDigit (a.tdiv b) =
      if a < 0 then -((-a + (5 * b : Nat)) / (2 * (5 * b : Nat)))
      else (a + (5 * b : Nat)) / (2 * (5 * b : Nat)) := by
  have hb' : (0 : Int) < b := by exact_mod_cast hb
  -- the floor division of a non-negative `n` by `b`, plus five, by ten
  have key (n : Int) : (n / b + 5) / 10 = (n + (5 * b : Nat)) / (2 * (5 * b : Nat)) := by
    have h₁ : n / b + 5 = (n + 5 * b) / b := (Int.add_mul_ediv_right n 5 hb'.ne').symm
    rw [h₁, Int.ediv_ediv_of_nonneg hb'.le]
    push_cast
    congr 1
    ring
  rw [roundDigit_eq]
  by_cases ha : a < 0
  · have hq : a.tdiv b = -(-a / b) := by
      rw [← Int.tdiv_eq_ediv_of_nonneg (by omega : 0 ≤ -a), Int.neg_tdiv, neg_neg]
    have hn : 0 ≤ -a / (b : Int) := Int.ediv_nonneg (by omega) hb'.le
    rw [if_pos ha, ← key (-a), hq]
    split <;> omega
  · have hq : a.tdiv b = a / b := Int.tdiv_eq_ediv_of_nonneg (by omega)
    have hn : 0 ≤ a / (b : Int) := Int.ediv_nonneg (by omega) hb'.le
    rw [if_neg ha, ← key a, hq, if_neg (by omega)]

/-- **`Round` gives the nearest multiple of the last place, ties away from zero.** -/
theorem round_roundsAway (d : Decimal) (places : Int) :
    RoundsAway (10 ^ (-places)) d.toRat (d.round places).toRat := by
  by_cases he : d.exp = -places
  · rw [round_of_exp he]
    unfold toRat
    rw [he]
    exact RoundsAway.self d.coef
  · obtain ⟨a, b, hb, hc, hd, _⟩ := rescale_quotient d (-places - 1)
    have hcoef : (d.round places).coef = roundDigit (a.tdiv b) := by
      unfold round
      rw [if_neg he, ← hc]
      rfl
    have hpos : (0 : ℚ) < 10 ^ (-places) := zpow_pos (by norm_num) _
    -- one unit of the extra place is a tenth of the last place
    have hx : d.toRat = a / (2 * (5 * b : Nat)) * 10 ^ (-places) := by
      have hb0 : (b : ℚ) ≠ 0 := by positivity
      rw [hd, zpow_sub_one₀ (by norm_num : (10 : ℚ) ≠ 0)]
      push_cast
      field_simp
      ring
    have hy : (d.round places).toRat = (roundDigit (a.tdiv b) : ℤ) * 10 ^ (-places) := by
      unfold toRat
      rw [hcoef, round_exp]
    rw [hy, hx, roundDigit_tdiv a hb]
    by_cases ha : a < 0
    · have h := (roundsAway_ediv hpos (show 0 ≤ -a by omega) (show 0 < 5 * b by omega)).neg
      rw [if_pos ha]
      convert h using 1
      · push_cast
        ring
      · push_cast
        ring
    · rw [if_neg ha]
      exact roundsAway_ediv hpos (by omega) (by omega)

end Decimal

namespace Money

/-! ## 3. `Money` -/

/-- The rational number an amount denotes. -/
def toRat (m : Money) : ℚ := m.d.toRat

theorem toRat_eq_units (m : Money) : m.toRat = m.units / 10 ^ 4 := by
  unfold toRat units Decimal.toRat
  rcases m.cases_scale with h | ⟨_, h0⟩
  · rw [h, zpow_neg, div_eq_mul_inv]
    rfl
  · simp [h0]

/-- Equal numbers are equal counts of ten-thousandths, and so for the order. -/
theorem toRat_lt_iff (a b : Money) : a.toRat < b.toRat ↔ a.units < b.units := by
  rw [toRat_eq_units, toRat_eq_units, div_lt_div_iff_of_pos_right (by norm_num)]
  exact Int.cast_lt

theorem toRat_eq_iff (a b : Money) : a.toRat = b.toRat ↔ a.units = b.units := by
  rw [toRat_eq_units, toRat_eq_units, div_left_inj' (by norm_num)]
  exact Int.cast_inj

end Money

end BankingService
