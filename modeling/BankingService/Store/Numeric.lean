/-
  File:      BankingService/Store/Numeric.lean
  Subject:   AN AMOUNT AS A PARAMETER: what of a `Money` arrives in a `NUMERIC(20,4)` column.

  The parameter is a `driver.Valuer`. pgx takes the text of its `Value` (`Money.sqlValue`), reads it
  as a `pgtype.Numeric` (`parseNumericString`) and sends this in the binary format
  (`encodeNumericBinary`): the number of the digits in base 10000, the weight of the first one, the
  sign, the decimal places and the digits, each a word of 16 bits. Neither the number of digits nor
  the weight is checked, so from `10 ^ 131072` on they wrap around. The server reads the words
  (`numericRecv`) and coerces the number to the column.

  A message is the list of its words. The branches of `encodeNumericBinary` for NaN and the
  infinities are left out: no decimal has their text.
-/
import BankingService.Lib.Numeral
import BankingService.Money.Text
import BankingService.Store.Schema

namespace BankingService

open Lib

/-! ## 1. The driver: `pgtype/numeric.go` -/

abbrev Word := BitVec 16

/-- `int32(n)`. -/
def int32 (n : Int) : Int := (BitVec.ofInt 32 n).toInt

/-- `nbase`. -/
def nbase : Nat := 10000

/-- The loop over the trailing zeros, on the reversed text, with their number: a zero that stands
    alone, or behind the sign, stays. -/
def stripZeros : GoString → Nat → GoString × Nat
  | c :: d :: s, exp =>
      if c = 48 ∧ d ≠ 45 then stripZeros (d :: s) (exp + 1) else (c :: d :: s, exp)
  | s, exp => (s, exp)

/-- `parseNumericString`: the coefficient and the exponent. -/
def parseNumericString (str : GoString) : Option (Int × Int) :=
  match str.findIdx? (· == 46) with
  | none =>
    let (str, exp) := stripZeros str.reverse 0
    (setString str.reverse).map fun n => (n, int32 exp)
  | some idx =>
    (setString (str.take idx ++ str.drop (idx + 1))).map fun n =>
      (n, int32 (-((str.length : Int) - idx - 1)))

/-- The exponent brought down to a multiple of 4, and the coefficient with it. -/
def alignExp (absInt : Nat) (exp : Int) : Nat × Int :=
  let r := exp.tmod 4
  if r = 1 ∨ r = -3 then (absInt * 10, exp - 1)
  else if r = 2 ∨ r = -2 then (absInt * 100, exp - 2)
  else if r = 3 ∨ r = -1 then (absInt * 1000, exp - 3)
  else (absInt, exp)

/-- The two loops that take digits off a number, lowest first, until it is `stop`. -/
def nbaseDigits (stop : Nat) : Nat → Nat → List Nat
  | 0, _ => []
  | fuel + 1, n => if n = stop then [] else n % nbase :: nbaseDigits stop fuel (n / nbase)

/-- The digits before the point and behind it, lowest first. The divisor that is added behind the
    point keeps its leading zeros. -/
def splitDigits (absInt : Nat) (exp : Int) : List Nat × List Nat :=
  if exp < 0 then
    let divisor := 10 ^ (-exp).toNat
    let wholePart := absInt / divisor
    let fracPart := absInt % divisor + divisor
    (nbaseDigits 0 wholePart wholePart, nbaseDigits 1 fracPart fracPart)
  else (nbaseDigits 0 absInt absInt, [])

/-- The weight of the first digit, in `int16`. -/
def encodeWeight (wholeDigits fracDigits : List Nat) (exp : Int) : Word :=
  if 0 < wholeDigits.length then
    let weight : Word := BitVec.ofNat 16 (wholeDigits.length - 1)
    if 0 < exp then weight + BitVec.ofInt 16 (exp.tdiv 4) else weight
  else BitVec.ofInt 16 (exp.tdiv 4) - 1 + BitVec.ofNat 16 fracDigits.length

/-- `encodeNumericBinary` of `int * 10 ^ nExp`. -/
def encodeNumericBinary (int nExp : Int) : List Word :=
  let sign : Word := if int < 0 then 16384 else 0
  let (absInt, exp) := alignExp int.natAbs nExp
  let (wholeDigits, fracDigits) := splitDigits absInt exp
  let dscale : Word := if nExp < 0 then BitVec.ofInt 16 (-nExp) else 0
  [BitVec.ofNat 16 (wholeDigits.length + fracDigits.length),
    encodeWeight wholeDigits fracDigits exp, sign, dscale] ++
    wholeDigits.reverse.map (BitVec.ofNat 16) ++ fracDigits.reverse.map (BitVec.ofNat 16)

/-! ## 2. The server -/

def invalidBinary (message : String) : PgError := ⟨.invalidBinaryRepresentation, "", [], message⟩

def insufficientData : PgError :=
  ⟨.protocolViolation, "", [], "insufficient data left in message"⟩

/-- `digits * 10 ^ exp` without its fractional part. -/
def truncated (digits : Nat) (exp : Int) : Nat :=
  if 0 ≤ exp then digits * 10 ^ exp.toNat else digits / 10 ^ (-exp).toNat

/-- `numeric_recv`: the number, cut off behind its decimal places, and the words left over. -/
def numericRecv : List Word → Except PgError (Decimal × List Word)
  | ndigits :: weight :: sign :: dscale :: rest =>
    let digits := (rest.take ndigits.toNat).map BitVec.toNat
    if sign ≠ 0 ∧ sign ≠ 16384 then
      .error (invalidBinary "invalid sign in external \"numeric\" value")
    else if 0x3FFF < dscale.toNat then
      .error (invalidBinary "invalid scale in external \"numeric\" value")
    else if digits.any fun d => decide (nbase ≤ d) then
      .error (invalidBinary "invalid digit in external \"numeric\" value")
    else if digits.length < ndigits.toNat then .error insufficientData
    else
      let number : Int :=
        truncated (value nbase digits) (4 * (weight.toInt - ndigits.toNat + 1) + dscale.toNat)
      .ok (⟨some (if sign = 0 then number else -number), -dscale.toNat⟩, rest.drop ndigits.toNat)
  | _ => .error insufficientData

/-- The server on the binary parameter `param` for a `NUMERIC(20,4)` column: the words have to be
    used up, and the number has to fit the column. -/
def bindNumeric (param : Nat) (msg : List Word) : Except PgError Int :=
  match numericRecv msg with
  | .error e => .error e
  | .ok (d, rest) =>
    if rest ≠ [] then
      .error (invalidBinary ("incorrect binary data format in bind parameter " ++ toString param))
    else if InRange (Money.numericScale d) then .ok (Money.numericScale d)
    else .error numericOverflow

/-- The states of the errors a binary parameter can raise. -/
theorem numericRecv_error {msg : List Word} {e : PgError} (h : numericRecv msg = .error e) :
    e.state = .invalidBinaryRepresentation ∨ e.state = .protocolViolation := by
  unfold numericRecv at h
  split at h
  · simp only at h
    split at h
    · cases h
      exact .inl rfl
    · split at h
      · cases h
        exact .inl rfl
      · split at h
        · cases h
          exact .inl rfl
        · split at h
          · cases h
            exact .inr rfl
          · cases h
  · cases h
    exact .inr rfl

theorem bindNumeric_error {param : Nat} {msg : List Word} {e : PgError}
    (h : bindNumeric param msg = .error e) :
    e.state = .invalidBinaryRepresentation ∨ e.state = .protocolViolation ∨
      e.state = .numericValueOutOfRange := by
  unfold bindNumeric at h
  split at h
  · rename_i hr
    cases h
    rcases numericRecv_error hr with he | he
    · exact .inl he
    · exact .inr (.inl he)
  · split at h
    · cases h
      exact .inl rfl
    · split at h
      · cases h
      · cases h
        exact .inr (.inr rfl)

namespace Money

/-- The `Numeric` that pgx reads from the text of a decimal. The text is always a number
    (`parseNumericString_sqlValue`), so the default is not used. -/
def numeric (m : Money) : Int × Int := (parseNumericString m.sqlValue).getD (0, 0)

/-- **What a `NUMERIC(20,4)` column stores for a `Money`** that is parameter `param` of a statement,
    or the error the server raises. -/
def toColumn (m : Money) (param : Nat) : Except PgError Int :=
  bindNumeric param (encodeNumericBinary m.numeric.1 m.numeric.2)

/-- The server takes the amount. -/
def storable (m : Money) : Bool := (m.toColumn 1).toOption.isSome

/-- What the column then holds, 0 where the server refuses. -/
def stored (m : Money) : Int := ((m.toColumn 1).toOption).getD 0

/-- From `10 ^ 131072` on the weight of the first digit does not fit its word; the bound is in
    ten-thousandths. -/
def sendBound : Nat := 10 ^ 131076

/-- The amount is sent as it is. -/
def sendable (m : Money) : Bool := decide (m.units.natAbs < sendBound)

theorem sendable_iff {m : Money} : m.sendable = true ↔ m.units.natAbs < sendBound :=
  decide_eq_true_iff

section Stored

variable (m : Money)

/-- The server takes an amount or refuses it, whichever parameter it is. -/
theorem toColumn_cases (param : Nat) :
    (m.storable = true ∧ m.toColumn param = .ok m.stored) ∨
      (m.storable = false ∧ m.stored = 0 ∧ ∃ e, m.toColumn param = .error e) := by
  unfold storable stored toColumn bindNumeric
  split
  · exact .inr ⟨rfl, rfl, _, rfl⟩
  · split
    · exact .inr ⟨rfl, rfl, _, rfl⟩
    · split
      · exact .inl ⟨rfl, rfl⟩
      · exact .inr ⟨rfl, rfl, _, rfl⟩

theorem toColumn_ok_iff {param : Nat} {n : Int} :
    m.toColumn param = .ok n ↔ m.storable = true ∧ m.stored = n := by
  rcases m.toColumn_cases param with ⟨hs, h⟩ | ⟨hs, _, e, h⟩
  · rw [h, hs]
    exact ⟨fun h => ⟨rfl, Except.ok.inj h⟩, fun h => congrArg _ h.2⟩
  · rw [h, hs]
    simp

theorem toColumn_ok {param : Nat} (h : m.storable = true) : m.toColumn param = .ok m.stored :=
  m.toColumn_ok_iff.mpr ⟨h, rfl⟩

theorem toColumn_error_iff {param : Nat} :
    (∃ e, m.toColumn param = .error e) ↔ m.storable = false := by
  rcases m.toColumn_cases param with ⟨hs, h⟩ | ⟨hs, _, e, h⟩
  · rw [h, hs]
    simp
  · exact ⟨fun _ => hs, fun _ => ⟨e, h⟩⟩

/-- **What is stored fits the column.** -/
theorem stored_inRange : InRange m.stored := by
  have hzero : InRange 0 := by decide
  unfold stored toColumn bindNumeric
  split
  · exact hzero
  · split
    · exact hzero
    · split
      · assumption
      · exact hzero

end Stored

example : (fromInt (-25)).toColumn 1 = .ok (-250000) := by decide +kernel

end Money

end BankingService
