/-
  File:      BankingService/Money/Decimal.lean
  Subject:   The vendored `shopspring/decimal` as far as `internal/money` uses it: `rescale`,
             `RescalePair`, `Add`, `Sub`, `Neg`, `Cmp`, `Sign` and `Round`.

  A `Decimal` is `value * 10 ^ exp`. Its coefficient is a `*big.Int` that may be nil (the zero
  value `Decimal{}`), so the model keeps an `Option`; `coef` is the coefficient after
  `ensureInitialized`. Exponents are `int32` in Go and `Int` here: every exponent the package
  computes with lies between an operand's exponent and `-5`.

  Division: `big.Int.Quo` truncates (`Int.tdiv`), `big.Int.DivMod` is Euclidean (`/`, `%`).
-/
import Mathlib.Tactic.Ring
import Mathlib.Tactic.NormNum

namespace BankingService

/-- `decimal.Decimal`: the number `value * 10 ^ exp`, `none` being the nil coefficient. -/
structure Decimal where
  value : Option Int
  exp : Int
  deriving DecidableEq, Repr

namespace Decimal

/-- The coefficient after `ensureInitialized`. -/
def coef (d : Decimal) : Int := d.value.getD 0

/-- `Decimal.rescale`: the same number at another exponent, truncated where digits are lost. -/
def rescale (d : Decimal) (exp : Int) : Decimal :=
  if d.exp = exp then ⟨some d.coef, d.exp⟩
  else
    let expScale : Int := 10 ^ (exp - d.exp).natAbs
    if d.exp < exp then ⟨some (d.coef.tdiv expScale), exp⟩
    else ⟨some (d.coef * expScale), exp⟩

/-- `RescalePair`: both operands at the smaller exponent. -/
def rescalePair (d₁ d₂ : Decimal) : Decimal × Decimal :=
  if d₁.exp < d₂.exp then (d₁, d₂.rescale d₁.exp)
  else if d₂.exp < d₁.exp then (d₁.rescale d₂.exp, d₂)
  else (d₁, d₂)

/-- `Decimal.Add`. -/
def add (d₁ d₂ : Decimal) : Decimal :=
  let r := rescalePair d₁ d₂
  ⟨some (r.1.coef + r.2.coef), r.1.exp⟩

/-- `Decimal.Sub`. -/
def sub (d₁ d₂ : Decimal) : Decimal :=
  let r := rescalePair d₁ d₂
  ⟨some (r.1.coef - r.2.coef), r.1.exp⟩

/-- `Decimal.Neg`. -/
def neg (d : Decimal) : Decimal := ⟨some (-d.coef), d.exp⟩

/-- `Decimal.Cmp`. -/
def cmp (d₁ d₂ : Decimal) : Ordering :=
  if d₁.exp = d₂.exp then compare d₁.coef d₂.coef
  else
    let r := rescalePair d₁ d₂
    compare r.1.coef r.2.coef

/-- `Decimal.Sign`: 0 for the nil coefficient. -/
def sign (d : Decimal) : Int :=
  match d.value with
  | none => 0
  | some v => v.sign

/-- `Decimal.Round`: truncate to one place more, add half a unit away from zero, divide by ten
    with the Euclidean `DivMod` and step back up when that floored a negative quotient. -/
def round (d : Decimal) (places : Int) : Decimal :=
  if d.exp = -places then d
  else
    let ret := d.rescale (-places - 1)
    let v := if ret.coef < 0 then ret.coef - 5 else ret.coef + 5
    let q := v / 10
    let m := v % 10
    ⟨some (if q < 0 ∧ m ≠ 0 then q + 1 else q), ret.exp + 1⟩

@[simp] theorem coef_some (v e : Int) : coef ⟨some v, e⟩ = v := rfl

/-- Away from the target exponent `rescale` ends at the target exponent, as at it. -/
theorem rescale_exp (d : Decimal) (e : Int) : (d.rescale e).exp = e := by
  unfold rescale
  by_cases h : d.exp = e
  · rw [if_pos h]
    exact h
  · rw [if_neg h]
    by_cases h' : d.exp < e
    · simp [h']
    · simp [h']

/-- Zero stays zero at every exponent. -/
theorem rescale_coef_zero {d : Decimal} (h : d.coef = 0) (e : Int) : (d.rescale e).coef = 0 := by
  unfold rescale
  by_cases h₁ : d.exp = e
  · simp [h₁, h]
  · by_cases h₂ : d.exp < e
    · simp [h₁, h₂, h]
    · simp [h₁, h₂, h]

/-- **`Round` always lands on the requested scale.** -/
theorem round_exp (d : Decimal) (places : Int) : (d.round places).exp = -places := by
  unfold round
  by_cases h : d.exp = -places
  · rw [if_pos h]
    exact h
  · rw [if_neg h]
    show (d.rescale (-places - 1)).exp + 1 = -places
    rw [rescale_exp]
    ring

/-- At the requested scale `Round` is the identity. -/
theorem round_of_exp {d : Decimal} {places : Int} (h : d.exp = -places) : d.round places = d :=
  if_pos h

theorem round_coef_zero {d : Decimal} (h : d.coef = 0) (places : Int) :
    (d.round places).coef = 0 := by
  unfold round
  by_cases he : d.exp = -places
  · rw [if_pos he]
    exact h
  · have hc := rescale_coef_zero h (-places - 1)
    rw [if_neg he]
    simp only [hc]
    rfl

end Decimal

end BankingService
