/-
  File:      BankingService/Money/Text.lean
  Subject:   The text forms of an amount: `decimal.NewFromString` and `Decimal.string` of the
             vendored package, and `FromString`, `String`, `MarshalJSON`, `UnmarshalJSON` of
             `money.go`.

  A parser returns the error's text, as `fmt.Errorf` builds it from the bytes it was given.
-/
import Mathlib.Data.List.DropRight
import BankingService.Go.Strings
import BankingService.Money.Money

namespace BankingService

open Lib

namespace Decimal

/-! ## 1. Printing -/

/-- `big.Int.String`. -/
def intText (n : Int) : GoString := if n < 0 then 45 :: natText n.natAbs else natText n.natAbs

/-- The digits before and after the point of a coefficient `str` with `places` decimal places. -/
def splitPoint (str : GoString) (places : Nat) : GoString × GoString :=
  if places < str.length then
    (str.take (str.length - places), str.drop (str.length - places))
  else ([48], List.replicate (places - str.length) 48 ++ str)

/-- The loop over the trailing zeros. -/
def trimZeros (s : GoString) : GoString := s.rdropWhile (· == 48)

/-- `Decimal.string`. -/
def string (d : Decimal) (trimTrailingZeros : Bool) : GoString :=
  if 0 ≤ d.exp then intText (d.rescale 0).coef
  else
    let (intPart, fractionalPart) := splitPoint (natText d.coef.natAbs) d.exp.natAbs
    let fractionalPart := if trimTrailingZeros then trimZeros fractionalPart else fractionalPart
    let number := if fractionalPart = [] then intPart else intPart ++ 46 :: fractionalPart
    if d.coef < 0 then 45 :: number else number

/-! ## 2. Parsing -/

/-- `fmt.Errorf("can't convert %s to decimal" + why, value)`. -/
def cannotConvert (value : GoString) (why : String) : GoString :=
  bytes "can't convert " ++ value ++ bytes " to decimal" ++ bytes why

/-- The byte that starts the exponent. -/
def isExpMark (c : UInt8) : Bool := c == 69 || c == 101

/-- The coefficient: `strconv.ParseInt` up to 18 bytes, `big.Int.SetString` beyond. -/
def parseCoef (intString : GoString) : Option Int :=
  if intString.length ≤ 18 then (parseInt intString 64).toOption else setString intString

/-- The end of `NewFromString`: the coefficient, then the range of the exponent. -/
def withCoef (originalInput value intString : GoString) (exp : Int) : Except GoString Decimal :=
  match parseCoef intString with
  | none => .error (cannotConvert value "")
  | some dValue =>
    if FitsInt 32 exp then .ok ⟨some dValue, exp⟩
    else .error (cannotConvert originalInput ": fractional part too long")

/-- `NewFromString` behind the exponent: `value` is the text in front of it. -/
def fromMantissa (originalInput value : GoString) (exp : Int) : Except GoString Decimal :=
  if 1 < value.count 46 then .error (cannotConvert value ": too many .s")
  else
    match value.findIdx? (· == 46) with
    | none => withCoef originalInput value value exp
    | some pIndex =>
      withCoef originalInput value (value.take pIndex ++ value.drop (pIndex + 1))
        (exp - (value.drop (pIndex + 1)).length)

/-- `NewFromString`. -/
def newFromString (value : GoString) : Except GoString Decimal :=
  match value.findIdx? isExpMark with
  | none => fromMantissa value value 0
  | some eIndex =>
    match parseInt (value.drop (eIndex + 1)) 32 with
    | .error .errRange => .error (cannotConvert value ": fractional part too long")
    | .error .errSyntax => .error (cannotConvert value ": exponent is not numeric")
    | .ok exp => fromMantissa value (value.take eIndex) exp

end Decimal

namespace Money

/-! ## 3. `money.go` -/

/-- `FromString`. -/
def fromString (s : GoString) : Except GoString Money :=
  match Decimal.newFromString s with
  | .error e => .error (bytes "money.FromString: " ++ e)
  | .ok d => .ok (newFromDecimal d)

/-- `Money.String`: `StringFixed(4)`. -/
def string (m : Money) : GoString := (m.d.round 4).string false

/-- `Money.MarshalJSON`. -/
def marshalJSON (m : Money) : GoString := 34 :: (m.string ++ [34])

/-- The quotes `UnmarshalJSON` strips. -/
def stripQuotes (b : GoString) : GoString :=
  if 2 ≤ b.length ∧ b.head? = some 34 ∧ b.getLast? = some 34 then (b.drop 1).dropLast else b

/-- `Money.UnmarshalJSON`. -/
def unmarshalJSON (b : GoString) : Except GoString Money := fromString (stripQuotes b)

/-- `Decimal.Value`: the trimmed text, which the driver is given for a parameter. -/
def sqlValue (m : Money) : GoString := m.d.string true

/-- A text before and after its first point. -/
def cutPoint (s : GoString) : GoString × GoString :=
  match s.findIdx? (· == 46) with
  | none => (s, [])
  | some i => (s.take i, s.drop (i + 1))

/-- Postgres's `numeric_in` on a text without an exponent: a sign, digits, a point, digits. -/
def numericIn (s : GoString) : Option Decimal :=
  let (sg, number) := cutSign s
  let (intPart, fractionalPart) := cutPoint number
  let digits := intPart ++ fractionalPart
  if digits = [] ∨ digits.any (fun c => !isDigit c) then none
  else some ⟨some (sg.apply (digitsVal digits)), -fractionalPart.length⟩

/-- What a `NUMERIC(20,4)` column stores for a number written as text, `none` for an error. -/
def columnOfText (s : GoString) : Option Int :=
  (numericIn s).bind fun d =>
    let n := numericScale d
    if InRange n then some n else none

example : (fromInt (-25)).string = bytes "-25.0000" := by decide +kernel

end Money

end BankingService
