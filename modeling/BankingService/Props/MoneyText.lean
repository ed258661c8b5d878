/-
  File:      BankingService/Props/MoneyText.lean
  Subject:   The text forms of an amount: they round-trip, and which texts are amounts.

  * `string_form`, `newFromString_string` -- what is printed, and that it is read back exactly;
  * `columnOfText_sqlValue` -- the trimmed text of a parameter is stored exactly;
  * **`money_codecs`** -- printing and parsing, JSON, and the column are inverse to each other;
  * **`fromString_exact_iff`** -- parsing accepts exactly the decimal literals and rounds half away
    from zero, except that it also takes a sign behind the point.
-/
import BankingService.Proof.Numeric

namespace BankingService.Money

open Lib

/-! ## 1. What is printed -/

theorem round_coef (m : Money) : (m.d.round 4).coef = m.units :=
  units_newFromDecimal (m.cases_scale.imp id And.right)

theorem printed_frac_ne_nil (m : Money) : m.printed.2 ≠ [] := by
  intro h
  have hlen : m.printed.2.length = 4 := Decimal.splitPoint_length ..
  rw [h] at hlen
  cases hlen

/-- `String`: the sign, the digits, the point and four digits. -/
theorem string_form (m : Money) :
    m.string = (Sign.ofInt m.units).text ++ m.printed.1 ++ 46 :: m.printed.2 := by
  have hexp : (m.d.round 4).exp = -4 := Decimal.round_exp m.d 4
  unfold string
  rw [Decimal.string_eq (by rw [hexp]; norm_num), round_coef, hexp]
  exact congrArg _ (congrArg pointText (if_neg m.printed_frac_ne_nil))

/-- The printed text as a literal. -/
def literal (m : Money) : Literal where
  sign := Sign.ofInt m.units
  intDigits := m.printed.1
  fracDigits := some m.printed.2
  exponent := none
  wf := by
    have hint : Digits m.printed.1 := Decimal.splitPoint_int ..
    refine ⟨List.append_ne_nil_of_left_ne_nil hint.1 _, fun c hc => ?_⟩
    rcases List.mem_append.mp hc with hc | hc
    · exact hint.2 c hc
    · exact Decimal.splitPoint_frac _ _ hc

theorem literal_text (m : Money) : m.literal.text = m.string := by
  rw [string_form]
  exact List.append_nil _

/-- **What is printed is read back exactly**: the same coefficient at exponent `-4`. -/
theorem newFromString_string (m : Money) :
    Decimal.newFromString m.string = .ok ⟨some m.units, -4⟩ := by
  have hlen : m.literal.frac.length = 4 := Decimal.splitPoint_length ..
  have hval : digitsVal (m.literal.intDigits ++ m.literal.frac) = m.units.natAbs :=
    Decimal.splitPoint_val ..
  have hfits : m.literal.Fits := by
    unfold Literal.Fits
    rw [hlen]
    show FitsInt 32 0 ∧ FitsInt 32 (0 - 4)
    decide
  rw [← literal_text, Decimal.newFromString_literal _ hfits, hval, hlen]
  show Except.ok (Decimal.mk (some ((Sign.ofInt m.units).apply m.units.natAbs)) _) = _
  rw [Sign.ofInt_apply]
  rfl

theorem fromString_string (m : Money) : fromString m.string = .ok (ofColumn m.units) := by
  unfold fromString
  rw [newFromString_string]
  rfl

/-- Quotes around a text are stripped. -/
theorem stripQuotes_quoted (s : GoString) : stripQuotes (34 :: (s ++ [34])) = s := by
  have hlast : (34 :: (s ++ [34])).getLast? = some 34 := by
    rw [← List.cons_append, List.getLast?_concat]
  unfold stripQuotes
  rw [if_pos ⟨by simp, rfl, hlast⟩]
  simp

/-- A text that starts with no quote is taken as it is. -/
theorem stripQuotes_bare {s : GoString} (h : s.head? ≠ some 34) : stripQuotes s = s :=
  if_neg fun hq => h hq.2.1

/-- `String` depends on the value alone. -/
theorem string_inj (m m' : Money) : m.string = m'.string ↔ m.equal m' = true := by
  rw [equal_iff]
  constructor
  · intro h
    have he := newFromString_string m
    rw [h, newFromString_string m'] at he
    injection he with he
    injection he with he
    injection he with he
    exact he.symm
  · intro h
    rw [string_form, string_form]
    unfold printed
    rw [h]

/-! ## 2. The column -/

theorem cutPoint_text {a : GoString} (ha : Digits a) (f : Option GoString) :
    cutPoint (a ++ pointText f) = (a, f.getD []) := by
  have hpoint : ∀ c ∈ a, (c == 46) = false := by
    intro c hc
    rw [beq_eq_false_iff_ne]
    rintro rfl
    cases ha.2 46 hc
  unfold cutPoint
  cases f with
  | none =>
      simp only [pointText, List.append_nil, List.findIdx?_eq_none_iff.mpr hpoint]
      rfl
  | some b =>
      simp only [pointText, findIdx?_cut hpoint (beq_self_eq_true (46 : UInt8)), take_cut, drop_cut]
      rfl

/-- `numeric_in` on digits around a point. -/
theorem numericIn_text (sg : Sign) {a : GoString} {f : Option GoString} (ha : Digits a)
    (hf : ∀ c ∈ f.getD [], isDigit c = true) :
    numericIn (sg.text ++ a ++ pointText f) =
      some ⟨some (sg.apply (digitsVal (a ++ f.getD []))), -(f.getD []).length⟩ := by
  have hcut : cutSign (sg.text ++ (a ++ pointText f)) = (sg, a ++ pointText f) := by
    obtain ⟨c, s, rfl⟩ := List.exists_cons_of_ne_nil ha.1
    exact cutSign_cons sg (ha.2 c (List.mem_cons_self ..)) _
  have hok : ¬(a ++ f.getD [] = [] ∨ (a ++ f.getD []).any (fun c => !isDigit c) = true) := by
    simp only [not_or, List.any_eq_true, Bool.not_eq_true', not_exists, not_and,
      Bool.not_eq_false]
    refine ⟨List.append_ne_nil_of_left_ne_nil ha.1 _, fun c hc => ?_⟩
    exact (List.mem_append.mp hc).elim (ha.2 c) (hf c)
  unfold numericIn
  simp only [List.append_assoc, hcut, cutPoint_text ha f]
  exact if_neg hok

/-- **The trimmed text is stored exactly**, or refused by the range alone. -/
theorem columnOfText_sqlValue (m : Money) :
    columnOfText m.sqlValue = if InRange m.units then some m.units else none := by
  obtain ⟨a, f, ha, hf, hlen, _, htext, hval⟩ := m.sqlValue_form
  have hscale : numericScale ⟨some ((Sign.ofInt m.units).apply (digitsVal (a ++ f.getD []))),
      -(f.getD []).length⟩ = m.units := by
    unfold numericScale
    have hmul (sg : Sign) (x y : Nat) : sg.apply x * (y : Int) = sg.apply (x * y) := by
      cases sg <;> simp [Sign.apply]
    rw [if_pos (show (-4 : Int) ≤ -((f.getD []).length : Int) by omega), Decimal.coef_some,
      show (-((f.getD []).length : Int) + 4).toNat = 4 - (f.getD []).length by omega]
    have hpow (k : Nat) : (10 : Int) ^ k = ((10 ^ k : Nat) : Int) := by
      push_cast
      rfl
    rw [hpow, hmul, hval, Sign.ofInt_apply]
  unfold columnOfText
  rw [htext, numericIn_text _ ha hf]
  simp only [Option.bind_some, hscale]

/-- Reading a column value, at whatever exponent the driver hands it over. -/
theorem units_of_toRat {d : Decimal} {n : Int} (h : d.toRat = n / 10 ^ 4) :
    (newFromDecimal d).units = n := by
  have hr := d.round_roundsAway 4
  have hstep : ((10 : ℚ) ^ (-4 : ℤ)) = 1 / 10 ^ 4 := by norm_num
  have hzero := hr.nearest n
  rw [hstep, h, mul_one_div, sub_self, abs_zero, abs_nonpos_iff, sub_eq_zero] at hzero
  have hm : (newFromDecimal d).toRat = n / 10 ^ 4 := hzero.symm
  rw [toRat_eq_units, div_left_inj' (by norm_num)] at hm
  exact_mod_cast hm

theorem inRange_of_abs {m : Money} (h : |m.toRat| < 10 ^ 16) : InRange m.units := by
  rw [toRat_eq_units, abs_lt] at h
  obtain ⟨hlo, hhi⟩ := h
  have hlo' : (-(10 ^ 20 : ℤ) : ℚ) < m.units := by
    push_cast
    linarith
  have hhi' : (m.units : ℚ) < ((10 ^ 20 : ℤ) : ℚ) := by
    push_cast
    linarith
  exact ⟨by exact_mod_cast hlo', by exact_mod_cast hhi'⟩

/-! ## 3. Round trips -/

/-- **The codecs round-trip**: for all amounts `m` and `m'`. -/
theorem money_codecs (m m' : Money) :
    (∃ r, fromString m.string = .ok r ∧ r.equal m = true) ∧
      (∃ r, unmarshalJSON m.marshalJSON = .ok r ∧ r.equal m = true) ∧
      (∃ (sg : Sign) (a f : GoString), m.string = sg.text ++ a ++ 46 :: f ∧ sg ≠ .plus ∧
        Digits a ∧ (a.head? = some 48 → a = [48]) ∧ f.length = 4 ∧ (∀ c ∈ f, isDigit c = true) ∧
        (m.isZero = true → sg = .absent)) ∧
      (m.string = m'.string ↔ m.equal m' = true) ∧
      (|m.toRat| < 10 ^ 16 → ∃ n : Int, columnOfText m.sqlValue = some n ∧
        (∀ param, m.toColumn param = .ok n) ∧
        ∀ d : Decimal, d.toRat = n / 10 ^ 4 → (newFromDecimal d).equal m = true) := by
  have hequal : (ofColumn m.units).equal m = true := by
    rw [equal_iff, units_ofColumn]
  refine ⟨⟨_, fromString_string m, hequal⟩, ⟨_, ?_, hequal⟩, ?_, string_inj m m', fun h => ?_⟩
  · unfold unmarshalJSON marshalJSON
    rw [stripQuotes_quoted, fromString_string]
  · refine ⟨Sign.ofInt m.units, m.printed.1, m.printed.2, m.string_form, ?_,
      Decimal.splitPoint_int .., Decimal.splitPoint_head _ _, Decimal.splitPoint_length ..,
      fun c hc => Decimal.splitPoint_frac _ _ hc, fun hz => ?_⟩
    · unfold Sign.ofInt
      split <;> decide
    · rw [(isZero_iff m).mp hz]
      rfl
  · have hr := inRange_of_abs h
    refine ⟨m.units, ?_, fun param => toColumn_inRange param hr, fun d hd => ?_⟩
    · rw [columnOfText_sqlValue, if_pos hr]
    · rw [equal_iff, units_of_toRat hd]

/-! ## 4. Which texts are amounts -/

/-- A literal is read as its exact value, rounded. -/
theorem fromString_literal (l : Literal) (h : l.Fits) :
    ∃ m, fromString l.text = .ok m ∧ RoundsAway (1 / 10 ^ 4) l.value m.toRat := by
  have hp := Decimal.newFromString_literal l h
  refine ⟨_, by unfold fromString; rw [hp], ?_⟩
  have hr := Decimal.round_roundsAway
    ⟨some (l.sign.apply (digitsVal (l.intDigits ++ l.frac))), expValue l.exponent - l.frac.length⟩ 4
  have hstep : ((10 : ℚ) ^ (-4 : ℤ)) = 1 / 10 ^ 4 := by norm_num
  rw [hstep] at hr
  rw [Literal.value_eq]
  exact hr

/-- Success of `FromString` is success of `NewFromString`. -/
theorem fromString_ok {s : GoString} {m : Money} (h : fromString s = .ok m) :
    ∃ d, Decimal.newFromString s = .ok d := by
  unfold fromString at h
  split at h
  · cases h
  · rename_i d hd
    exact ⟨d, hd⟩

/-- **Parsing accepts exactly the decimal literals and rounds half away from zero, and JSON reads
    the same with and without quotes, except for a sign behind the point.** -/
theorem fromString_exact_iff (s : GoString) :
    (((∃ m, fromString s = .ok m) ↔ ∃ l : Literal, l.text = s ∧ l.Fits) ∧
      (∀ l : Literal, l.text = s → l.Fits →
        ∃ m, fromString s = .ok m ∧ RoundsAway (1 / 10 ^ 4) l.value m.toRat) ∧
      (s.head? ≠ some 34 → unmarshalJSON s = unmarshalJSON (34 :: (s ++ [34])))) ↔
      ¬∃ b : MisplacedSign, b.text = s ∧ b.Fits := by
  constructor
  · rintro ⟨haccept, _, _⟩ ⟨b, rfl, hb⟩
    have hm : ∃ m, fromString b.text = .ok m :=
      ⟨_, by unfold fromString; rw [Decimal.newFromString_misplaced b hb]⟩
    obtain ⟨l, hl, _⟩ := haccept.mp hm
    exact l.text_ne_misplaced b hl
  · intro hb
    refine ⟨⟨fun ⟨m, hm⟩ => ?_, ?_⟩, ?_, fun hq => ?_⟩
    · obtain ⟨d, hd⟩ := fromString_ok hm
      exact (Decimal.newFromString_cases hd).resolve_right hb
    · rintro ⟨l, rfl, hl⟩
      obtain ⟨m, hm, _⟩ := fromString_literal l hl
      exact ⟨m, hm⟩
    · rintro l rfl hl
      exact fromString_literal l hl
    · unfold unmarshalJSON
      rw [stripQuotes_quoted, stripQuotes_bare hq]

/-- Half a ten-thousandth below zero: read, and rounded away from zero. -/
theorem fromString_exact_tie :
    (fromString (bytes "-0.00005")).toOption.map units = some (-1) ∧
      ∀ l : Literal, l.text = bytes "-0.00005" → l.Fits →
        ∃ m, fromString (bytes "-0.00005") = .ok m ∧ RoundsAway (1 / 10 ^ 4) l.value m.toRat := by
  have hno : ¬∃ b : MisplacedSign, b.text = bytes "-0.00005" ∧ b.Fits := by
    rintro ⟨b, hb, _⟩
    have hhead : (46 : UInt8) = 45 := Option.some.inj (congrArg List.head? hb)
    exact absurd hhead (by decide)
  exact ⟨by decide +kernel, ((fromString_exact_iff (bytes "-0.00005")).mpr hno).2.1⟩

/-- **The sign behind the point**: `.-5` is no decimal literal, and is read as -0.05. -/
theorem fromString_sign_after_point :
    (fromString (bytes ".-5")).toOption.map units = some (-500) ∧
      ¬∃ l : Literal, l.text = bytes ".-5" ∧ l.Fits := by
  refine ⟨by decide +kernel, ?_⟩
  rintro ⟨l, hl, _⟩
  have hd : Digits (bytes "5") := ⟨by decide +kernel, by decide +kernel⟩
  exact l.text_ne_misplaced ⟨.minus, bytes "5", none, by decide +kernel, hd⟩ hl

end BankingService.Money
