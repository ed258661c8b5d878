/-
  File:      BankingService/Money/Money.lean
  Subject:   `internal/money/money.go`: the `Money` wrapper and its arithmetic, and what a
             `NUMERIC(20,4)` column stores of it.

  Scale is enforced at the `Money` boundary: every constructor rounds to four places, so a
  `Money` is either the zero value `Money{}` or a decimal at exponent `-4`. That is a field of the
  structure here. `units` reads a value as its number of ten-thousandths, and every operation is
  exact on it (`units_add`, `units_sub`, `units_neg`, `lessThan_iff`, `isPositive_iff`).

  A column of type `NUMERIC(20,4)` is an `Int` of ten-thousandths: `numericScale` is what it makes
  of a decimal (rounded half away from zero to four places), `InRange` what it can hold, and
  `ofColumn` what the scan reads back. What arrives there of a `Money` is in `Store/Numeric.lean`.
-/
import BankingService.Money.Decimal

namespace BankingService

/-- The first value, in ten-thousandths, that `NUMERIC(20,4)` refuses: `10 ^ 16`. -/
def numericBound : Int := 10 ^ 20

/-- A column value is in range. -/
def InRange (n : Int) : Prop := -numericBound < n ∧ n < numericBound

instance (n : Int) : Decidable (InRange n) := inferInstanceAs (Decidable (_ ∧ _))

/-- `money.Money`: the zero value, or a decimal rounded to four places. -/
structure Money where
  d : Decimal
  scale : d.exp = -4 ∨ d = ⟨none, 0⟩
  deriving DecidableEq, Repr

namespace Money

/-- `NewFromDecimal`: round to four places. -/
def newFromDecimal (d : Decimal) : Money := ⟨d.round 4, .inl (Decimal.round_exp d 4)⟩

/-- The zero value `Money{}`. -/
def zeroValue : Money := ⟨⟨none, 0⟩, .inr rfl⟩

/-- `FromInt`. -/
def fromInt (n : Int) : Money := newFromDecimal ⟨some n, 0⟩

/-- `Zero`: `decimal.Zero` is `New(0, 1)`. -/
def zero : Money := newFromDecimal ⟨some 0, 1⟩

/-- `Money.Add`. -/
def add (m other : Money) : Money := newFromDecimal (m.d.add other.d)

/-- `Money.Sub`. -/
def sub (m other : Money) : Money := newFromDecimal (m.d.sub other.d)

/-- `Money.Neg`. -/
def neg (m : Money) : Money := newFromDecimal m.d.neg

/-- `Money.IsPositive`. -/
def isPositive (m : Money) : Bool := m.d.sign == 1

/-- `Money.IsZero`. -/
def isZero (m : Money) : Bool := m.d.sign == 0

/-- `Money.LessThan`. -/
def lessThan (m other : Money) : Bool := m.d.cmp other.d == .lt

/-- `Money.Equal`. -/
def equal (m other : Money) : Bool := m.d.cmp other.d == .eq

/-! ## 1. Ten-thousandths -/

/-- The value in ten-thousandths. -/
def units (m : Money) : Int := m.d.coef

/-- A `Money` as a decimal at exponent `-4`, or zero at exponent 0. -/
theorem cases_scale (m : Money) : m.d.exp = -4 ∨ (m.d.exp = 0 ∧ m.d.coef = 0) := by
  rcases m.scale with h | h
  · exact .inl h
  · exact .inr ⟨by rw [h], by rw [h]; rfl⟩

/-- Rounding a decimal that is at exponent `-4`, or zero, keeps its coefficient. -/
theorem units_newFromDecimal {d : Decimal} (h : d.exp = -4 ∨ d.coef = 0) :
    (newFromDecimal d).units = d.coef := by
  show (d.round 4).coef = d.coef
  rcases h with h | h
  · rw [Decimal.round_of_exp h]
  · rw [Decimal.round_coef_zero h, h]

/-- Two `Money` values at a common exponent: their coefficients are their units, and the common
    exponent is `-4` unless both are zero. -/
theorem rescalePair_units (a b : Money) :
    (a.d.rescalePair b.d).1.coef = a.units ∧ (a.d.rescalePair b.d).2.coef = b.units ∧
      ((a.d.rescalePair b.d).1.exp = -4 ∨ (a.units = 0 ∧ b.units = 0)) := by
  unfold Decimal.rescalePair units
  rcases a.cases_scale with ha | ⟨ha, ha0⟩
  · rcases b.cases_scale with hb | ⟨hb, hb0⟩
    · simp [ha, hb]
    · simp [ha, hb, hb0, Decimal.rescale_coef_zero hb0]
  · rcases b.cases_scale with hb | ⟨hb, hb0⟩
    · simp [ha, hb, ha0, Decimal.rescale_coef_zero ha0, Decimal.rescale_exp]
    · simp [ha, hb, ha0, hb0]

/-- **Addition is exact**: the inner `Round(4)` never changes the sum. -/
@[simp] theorem units_add (a b : Money) : (a.add b).units = a.units + b.units := by
  obtain ⟨h₁, h₂, h₃⟩ := rescalePair_units a b
  have hc : (a.d.add b.d).coef = a.units + b.units := by
    show (a.d.rescalePair b.d).1.coef + (a.d.rescalePair b.d).2.coef = _
    rw [h₁, h₂]
  rw [← hc]
  refine units_newFromDecimal (h₃.imp id fun h => ?_)
  rw [hc, h.1, h.2]
  rfl

/-- **Subtraction is exact.** -/
@[simp] theorem units_sub (a b : Money) : (a.sub b).units = a.units - b.units := by
  obtain ⟨h₁, h₂, h₃⟩ := rescalePair_units a b
  have hc : (a.d.sub b.d).coef = a.units - b.units := by
    show (a.d.rescalePair b.d).1.coef - (a.d.rescalePair b.d).2.coef = _
    rw [h₁, h₂]
  rw [← hc]
  refine units_newFromDecimal (h₃.imp id fun h => ?_)
  rw [hc, h.1, h.2]
  rfl

/-- **Negation is exact.** -/
@[simp] theorem units_neg (a : Money) : a.neg.units = -a.units := by
  refine units_newFromDecimal (a.cases_scale.imp id fun h => ?_)
  show -a.d.coef = 0
  rw [h.2]
  rfl

/-- `LessThan` is the order of the values, whatever the two exponents. -/
theorem lessThan_iff (a b : Money) : a.lessThan b = true ↔ a.units < b.units := by
  obtain ⟨h₁, h₂, _⟩ := rescalePair_units a b
  unfold lessThan Decimal.cmp
  by_cases he : a.d.exp = b.d.exp
  · rw [if_pos he, beq_iff_eq]
    exact compare_lt_iff_lt
  · rw [if_neg he, beq_iff_eq]
    simp only [h₁, h₂]
    exact compare_lt_iff_lt

/-- `Equal` is the equality of the values, whatever the two exponents. -/
theorem equal_iff (a b : Money) : a.equal b = true ↔ a.units = b.units := by
  obtain ⟨h₁, h₂, _⟩ := rescalePair_units a b
  unfold equal Decimal.cmp
  by_cases he : a.d.exp = b.d.exp
  · rw [if_pos he, beq_iff_eq]
    exact compare_eq_iff_eq
  · rw [if_neg he, beq_iff_eq]
    simp only [h₁, h₂]
    exact compare_eq_iff_eq

theorem isZero_iff (m : Money) : m.isZero = true ↔ m.units = 0 := by
  unfold isZero Decimal.sign units Decimal.coef
  cases m.d.value with
  | none => simp
  | some v => simp [Int.sign_eq_zero_iff_zero]

theorem isPositive_iff (m : Money) : m.isPositive = true ↔ 0 < m.units := by
  unfold isPositive Decimal.sign units Decimal.coef
  cases m.d.value with
  | none => simp
  | some v => simp [Int.sign_eq_one_iff_pos]

/-! ## 2. The column `NUMERIC(20,4)` -/

/-- The coercion of a decimal to scale 4: rounded half away from zero, in ten-thousandths. -/
def numericScale (d : Decimal) : Int :=
  if -4 ≤ d.exp then d.coef * 10 ^ (d.exp + 4).toNat
  else
    let k : Int := 10 ^ (-4 - d.exp).toNat
    if d.coef < 0 then -((-2 * d.coef + k) / (2 * k)) else (2 * d.coef + k) / (2 * k)

/-- What the scan of a column value gives: its text has four fractional digits. -/
def ofColumn (n : Int) : Money := newFromDecimal ⟨some n, -4⟩

@[simp] theorem units_ofColumn (n : Int) : (ofColumn n).units = n :=
  units_newFromDecimal (.inl rfl)

/-- The column's scale loses nothing of a `Money`. -/
theorem numericScale_eq (m : Money) : numericScale m.d = m.units := by
  unfold numericScale units
  rcases m.cases_scale with h | ⟨h, h0⟩
  · simp [h]
  · simp [h, h0]

end Money

end BankingService
