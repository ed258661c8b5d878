/-
  File:      BankingService/Spec/Literal.lean
  Subject:   DECIMAL LITERALS: the grammar of an amount's text and the number it denotes.

  A `Literal` is the text already taken apart: a sign, the digits before the point, the point with
  the digits behind it, an exponent. It carries that it has a digit, so every value of the type has
  a text (`text`) and a number (`value`), and nothing here knows how a parser reads it.
-/
import Mathlib.Algebra.Field.Rat
import Mathlib.Tactic.FieldSimp
import BankingService.Go.Strings

namespace BankingService

open Lib

/-- `e` or `E`, an optional sign, digits. -/
structure Exponent where
  upper : Bool
  sign : Sign
  digits : GoString
  wf : Digits digits

namespace Exponent

def text (x : Exponent) : GoString :=
  (if x.upper then 69 else 101) :: (x.sign.text ++ x.digits)

def value (x : Exponent) : Int := x.sign.apply (digitsVal x.digits)

end Exponent

/-- A decimal literal; `fracDigits` is `none` without a point. -/
structure Literal where
  sign : Sign
  intDigits : GoString
  fracDigits : Option GoString
  exponent : Option Exponent
  wf : Digits (intDigits ++ fracDigits.getD [])

/-- The point and what stands behind it. -/
def pointText : Option GoString → GoString
  | none => []
  | some frac => 46 :: frac

/-- The exponent's text, empty without one. -/
def expText : Option Exponent → GoString
  | none => []
  | some x => x.text

/-- The exponent's value, 0 without one. -/
def expValue : Option Exponent → Int
  | none => 0
  | some x => x.value

namespace Literal

/-- The digits behind the point. -/
def frac (l : Literal) : GoString := l.fracDigits.getD []

def text (l : Literal) : GoString :=
  l.sign.text ++ l.intDigits ++ pointText l.fracDigits ++ expText l.exponent

/-- The number a literal denotes. -/
def value (l : Literal) : ℚ :=
  l.sign.apply 1 * (digitsVal l.intDigits + digitsVal l.frac / 10 ^ l.frac.length) *
    10 ^ expValue l.exponent

/-- The exponent, and the exponent less the number of fractional digits, fit in 32 bits. -/
def Fits (l : Literal) : Prop :=
  FitsInt 32 (expValue l.exponent) ∧ FitsInt 32 (expValue l.exponent - l.frac.length)

/-- The value as one integer, scaled by the last place. -/
theorem value_eq (l : Literal) :
    l.value = l.sign.apply (digitsVal (l.intDigits ++ l.frac)) *
      10 ^ (expValue l.exponent - l.frac.length) := by
  have hs (n : Nat) : ((l.sign.apply n : ℤ) : ℚ) = l.sign.apply 1 * n := by
    cases l.sign <;> simp [Sign.apply]
  have h10 : (10 : ℚ) ≠ 0 := by norm_num
  unfold value
  rw [hs (digitsVal _), digitsVal_append, zpow_sub₀ h10, zpow_natCast]
  push_cast
  field_simp

end Literal

/-- A sign behind the point: `.`, a sign, digits, an exponent. It is no decimal literal. -/
structure MisplacedSign where
  sign : Sign
  digits : GoString
  exponent : Option Exponent
  signed : sign ≠ .absent
  wf : Digits digits

namespace MisplacedSign

def text (b : MisplacedSign) : GoString :=
  46 :: (b.sign.text ++ b.digits) ++ expText b.exponent

/-- The exponent, and the exponent less the number of bytes behind the point, fit in 32 bits. -/
def Fits (b : MisplacedSign) : Prop :=
  FitsInt 32 (expValue b.exponent) ∧ FitsInt 32 (expValue b.exponent - (b.digits.length + 1))

end MisplacedSign

/-- A literal never has a sign behind its point. -/
theorem Literal.text_ne_misplaced (l : Literal) (b : MisplacedSign) : l.text ≠ b.text := by
  intro h
  -- both texts from the point on: a literal's next byte is a digit or the exponent's mark
  obtain ⟨c, hc, hcut⟩ : ∃ c, (c = 43 ∨ c = 45) ∧
      ∃ rest, b.text = 46 :: c :: rest := by
    cases hsg : b.sign with
    | absent => exact absurd hsg b.signed
    | plus => exact ⟨43, .inl rfl, b.digits ++ expText b.exponent, by
        simp [MisplacedSign.text, hsg, Sign.text]⟩
    | minus => exact ⟨45, .inr rfl, b.digits ++ expText b.exponent, by
        simp [MisplacedSign.text, hsg, Sign.text]⟩
  obtain ⟨rest, hcut⟩ := hcut
  have hdig {d : UInt8} (hd : isDigit d = true) : d ≠ 46 ∧ d ≠ 43 ∧ d ≠ 45 := by
    refine ⟨?_, ?_, ?_⟩ <;> (rintro rfl; exact absurd hd (by decide))
  rw [hcut] at h
  obtain ⟨sg, ip, fp, x, wf⟩ := l
  simp only [Literal.text] at h
  cases sg with
  | plus => cases h
  | minus => cases h
  | absent =>
      cases ip with
      | cons d ip =>
          have hd := wf.2 d (by simp)
          simp only [Sign.text, List.nil_append, List.cons_append, List.cons.injEq] at h
          exact (hdig hd).1 h.1
      | nil =>
          cases fp with
          | none => exact absurd rfl wf.1
          | some f =>
              cases f with
              | nil => exact absurd rfl wf.1
              | cons d f =>
                  have hd := hdig (wf.2 d (by simp))
                  simp only [Sign.text, pointText, List.nil_append, List.cons_append,
                    List.cons.injEq] at h
                  rcases hc with rfl | rfl
                  · exact hd.2.1 h.2.1
                  · exact hd.2.2 h.2.1

end BankingService
