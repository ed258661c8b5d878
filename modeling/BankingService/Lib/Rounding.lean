/-
  File:      BankingService/Lib/Rounding.lean
  Subject:   ROUNDING TO A STEP: the nearest multiple of a step, the one further from zero where two
             are equally near.

  * `RoundsAway step x y` -- the relation, stated against every competitor;
  * `RoundsAway.self`, `RoundsAway.neg` -- multiples are kept, the relation is odd;
  * **`roundsAway_ediv`** -- adding half the divisor before a floor division rounds so.
-/
import Mathlib.Data.Rat.Floor
import Mathlib.Algebra.Order.Floor.Ring
import Mathlib.Tactic.Linarith
import Mathlib.Tactic.FieldSimp
import Mathlib.Tactic.Ring

namespace BankingService.Lib

/-- `y` is `x` rounded to the nearest multiple of `step`, ties away from zero. -/
structure RoundsAway (step x y : ℚ) : Prop where
  multiple : ∃ k : ℤ, y = k * step
  nearest : ∀ k : ℤ, |x - y| ≤ |x - k * step|
  away : ∀ k : ℤ, |x - k * step| = |x - y| → |k * step| ≤ |y|

namespace RoundsAway

variable {step x y : ℚ}

/-- A multiple of the step is kept. -/
theorem self (k : ℤ) : RoundsAway step (k * step) (k * step) where
  multiple := ⟨k, rfl⟩
  nearest j := by
    rw [sub_self, abs_zero]
    exact abs_nonneg _
  away j h := by
    rw [sub_self, abs_zero, abs_eq_zero, sub_eq_zero] at h
    rw [← h]

/-- The relation is odd. -/
theorem neg (h : RoundsAway step x y) : RoundsAway step (-x) (-y) := by
  have hflip (z : ℚ) : |-x - -z| = |x - z| := by
    rw [neg_sub_neg, abs_sub_comm]
  have hk (k : ℤ) : (k : ℚ) * step = -(((-k : ℤ) : ℚ) * step) := by
    push_cast
    ring
  constructor
  · obtain ⟨k, rfl⟩ := h.multiple
    exact ⟨-k, by push_cast; ring⟩
  · intro k
    rw [hk k, hflip, hflip]
    exact h.nearest (-k)
  · intro k hd
    rw [hk k, hflip, hflip] at hd
    rw [hk k, abs_neg, abs_neg]
    exact h.away (-k) hd

end RoundsAway

/-- From zero up: the floor of the quotient plus one half. -/
theorem roundsAway_floor {step x : ℚ} (hs : 0 < step) (hx : 0 ≤ x) :
    RoundsAway step x (⌊x / step + 1 / 2⌋ * step) := by
  -- `x` lies in the half-open interval of one step around the chosen multiple
  generalize hn : ⌊x / step + 1 / 2⌋ = n
  obtain ⟨hlo, hhi⟩ := Int.floor_eq_iff.mp hn
  have hxs : x / step * step = x := div_mul_cancel₀ x hs.ne'
  have hlo' : n * step - step / 2 ≤ x := by nlinarith
  have hhi' : x < n * step + step / 2 := by nlinarith
  have hnear : |x - n * step| ≤ step / 2 := abs_le.mpr ⟨by linarith, by linarith⟩
  have hbelow {k : ℤ} (h : k < n) : step / 2 ≤ x - k * step := by
    have hk : (k : ℚ) + 1 ≤ n := by exact_mod_cast h
    nlinarith
  have habove {k : ℤ} (h : n < k) : x - k * step < -(step / 2) := by
    have hk : (n : ℚ) + 1 ≤ k := by exact_mod_cast h
    nlinarith
  constructor
  · exact ⟨n, rfl⟩
  · intro k
    rcases lt_trichotomy k n with h | rfl | h
    · exact hnear.trans ((hbelow h).trans (le_abs_self _))
    · exact le_rfl
    · have hk := neg_le_abs (x - k * step)
      have hgt := habove h
      linarith
  · intro k hd
    rcases lt_trichotomy k n with h | rfl | h
    · -- the tie: both multiples are on the side of `x`, the smaller one is not below zero
      have hle := (le_abs_self _).trans (hd.le.trans hnear)
      have hk0 : (0 : ℤ) ≤ k := by
        have : (-1 : ℚ) < k := by nlinarith
        have : (-1 : ℤ) < k := by exact_mod_cast this
        omega
      have hkn : (k : ℚ) ≤ n := by exact_mod_cast h.le
      have hkq : (0 : ℚ) ≤ k := by exact_mod_cast hk0
      rw [abs_of_nonneg (by positivity), abs_of_nonneg (by nlinarith)]
      nlinarith
    · exact le_rfl
    · have hk := neg_le_abs (x - k * step)
      have hgt := habove h
      linarith

/-- The same with integers: `x` is `a / (2 * half)` steps, and half the divisor is added before the
    floor division. -/
theorem roundsAway_ediv {step : ℚ} (hs : 0 < step) {a : ℤ} {half : ℕ} (ha : 0 ≤ a)
    (hh : 0 < half) :
    RoundsAway step (a / (2 * half) * step) (((a + half) / (2 * half) : ℤ) * step) := by
  have haq : (0 : ℚ) ≤ a := by exact_mod_cast ha
  have hhq : (0 : ℚ) < half := by exact_mod_cast hh
  have hquot : (a / (2 * half) * step : ℚ) / step + 1 / 2 =
      ((a + half : ℤ) : ℚ) / ((2 * half : ℕ) : ℚ) := by
    push_cast
    field_simp
  have hfloor : ⌊(a / (2 * half) * step : ℚ) / step + 1 / 2⌋ = (a + half) / (2 * half) := by
    rw [hquot, Rat.floor_intCast_div_natCast]
    push_cast
    rfl
  rw [← hfloor]
  exact roundsAway_floor hs (by positivity)

end BankingService.Lib
