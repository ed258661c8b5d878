/-
  File:      BankingService/Proof/MoneyText.lean
  Subject:   What `NewFromString` accepts, and what `Decimal.string` writes.

  The parser cuts at the exponent's mark, deletes the point and hands the rest to an integer parser,
  so it accepts a text exactly if the bytes around the point join to a signed digit string
  (`newFromString_iff`). Such a text is a decimal literal, or it has its sign behind the point.

  * **`newFromString_literal`** -- every literal that fits is read as the number it denotes;
  * **`newFromString_cases`** -- what is read is a literal, or has a misplaced sign;
  * `splitPoint_spec`, `string_eq` -- the printed digits are those of the coefficient.
-/
import BankingService.Money.Text
import BankingService.Money.Value
import BankingService.Spec.Literal

namespace BankingService.Decimal

open Lib

/-! ## 1. What the parser accepts -/

/-- The two integer parsers agree: up to 18 bytes nothing overflows 64 bits. -/
theorem parseCoef_iff (s : GoString) (n : Int) : parseCoef s = some n ↔ SignedDigits s n := by
  unfold parseCoef
  by_cases hlen : s.length ≤ 18
  · rw [if_pos hlen]
    constructor
    · intro h
      cases hp : parseInt s 64 with
      | error e =>
          rw [hp] at h
          cases h
      | ok m =>
          rw [hp] at h
          cases h
          exact ((parseInt_iff s (by norm_num) _).mp hp).1
    · intro h
      have hlt : n.natAbs < 10 ^ 18 :=
        h.natAbs_lt.trans_le (Nat.pow_le_pow_right (by norm_num) hlen)
      have hfits : FitsInt 64 n := by
        unfold FitsInt
        norm_num at hlt ⊢
        omega
      rw [(parseInt_iff s (by norm_num) n).mpr ⟨h, hfits⟩]
      rfl
  · rw [if_neg hlen]
    exact setString_iff s n

theorem withCoef_iff (o v s : GoString) (exp : Int) (d : Decimal) :
    withCoef o v s exp = .ok d ↔ ∃ n, SignedDigits s n ∧ FitsInt 32 exp ∧ d = ⟨some n, exp⟩ := by
  unfold withCoef
  constructor
  · intro h
    cases hp : parseCoef s with
    | none =>
        rw [hp] at h
        cases h
    | some n =>
        simp only [hp] at h
        split at h
        · rename_i hf
          cases h
          exact ⟨n, (parseCoef_iff s n).mp hp, hf, rfl⟩
        · cases h
  · rintro ⟨n, hs, hf, rfl⟩
    rw [(parseCoef_iff s n).mpr hs]
    exact if_pos hf

/-- A sign or a digit is no point and starts no exponent. -/
theorem plain_byte {s : GoString} {n : Int} (h : SignedDigits s n) {c : UInt8} (hc : c ∈ s) :
    c ≠ 46 ∧ isExpMark c = false := by
  rcases h.mem hc with rfl | rfl | hd
  · decide
  · decide
  · have hr := (isDigit_iff c).mp hd
    simp only [isExpMark, Bool.or_eq_false_iff, beq_eq_false_iff_ne]
    refine ⟨?_, ?_, ?_⟩ <;> (rintro rfl; revert hr; decide)

/-- The mantissa: the bytes around the point join to a signed digit string. -/
theorem fromMantissa_iff (o v : GoString) (exp : Int) (d : Decimal) :
    fromMantissa o v exp = .ok d ↔
      ∃ (a : GoString) (f : Option GoString) (n : Int), v = a ++ pointText f ∧
        SignedDigits (a ++ f.getD []) n ∧ FitsInt 32 (exp - (f.getD []).length) ∧
        d = ⟨some n, exp - (f.getD []).length⟩ := by
  constructor
  · intro h
    unfold fromMantissa at h
    split at h
    · cases h
    · rcases cut_first (· == 46) v with hv | ⟨a, c, b, rfl, ha, hc⟩
      · rw [List.findIdx?_eq_none_iff.mpr hv] at h
        obtain ⟨n, hs, hf, rfl⟩ := (withCoef_iff ..).mp h
        exact ⟨v, none, n, (List.append_nil v).symm, by simpa using hs, by simpa using hf, by simp⟩
      · have hc' : c = 46 := beq_iff_eq.mp hc
        subst hc'
        rw [findIdx?_cut ha hc] at h
        simp only [take_cut, drop_cut] at h
        obtain ⟨n, hs, hf, rfl⟩ := (withCoef_iff ..).mp h
        exact ⟨a, some b, n, rfl, hs, hf, rfl⟩
  · rintro ⟨a, f, n, rfl, hs, hf, rfl⟩
    have ha : ∀ c ∈ a, c ≠ 46 := fun c hc => (plain_byte hs (List.mem_append_left _ hc)).1
    have ha0 : a.count 46 = 0 := List.count_eq_zero.mpr fun h => ha 46 h rfl
    unfold fromMantissa
    cases f with
    | none =>
        have hnone : a.findIdx? (· == 46) = none :=
          List.findIdx?_eq_none_iff.mpr fun c hc => beq_eq_false_iff_ne.mpr (ha c hc)
        simp only [pointText, List.append_nil, ha0, hnone]
        rw [if_neg (by norm_num)]
        exact (withCoef_iff ..).mpr ⟨n, by simpa using hs, by simpa using hf, by simp⟩
    | some b =>
        have hb0 : b.count 46 = 0 := List.count_eq_zero.mpr fun h =>
          (plain_byte hs (List.mem_append_right a h)).1 rfl
        have hcut := findIdx?_cut (fun c hc => beq_eq_false_iff_ne.mpr (ha c hc))
          (beq_self_eq_true (46 : UInt8)) b
        simp only [pointText, List.count_append, List.count_cons_self, ha0, hb0, hcut, take_cut,
          drop_cut]
        rw [if_neg (by norm_num)]
        exact (withCoef_iff ..).mpr ⟨n, hs, hf, rfl⟩

/-- **What `NewFromString` accepts.** -/
theorem newFromString_iff (s : GoString) (d : Decimal) :
    newFromString s = .ok d ↔
      ∃ (a : GoString) (f : Option GoString) (x : Option Exponent) (n : Int),
        s = a ++ pointText f ++ expText x ∧ SignedDigits (a ++ f.getD []) n ∧
        FitsInt 32 (expValue x) ∧ FitsInt 32 (expValue x - (f.getD []).length) ∧
        d = ⟨some n, expValue x - (f.getD []).length⟩ := by
  constructor
  · intro h
    unfold newFromString at h
    rcases cut_first isExpMark s with hs | ⟨pre, c, post, rfl, hpre, hc⟩
    · rw [List.findIdx?_eq_none_iff.mpr hs] at h
      obtain ⟨a, f, n, rfl, hn, hf, rfl⟩ := (fromMantissa_iff ..).mp h
      exact ⟨a, f, none, n, (List.append_nil _).symm, hn, by decide, hf, rfl⟩
    · rw [findIdx?_cut hpre hc] at h
      simp only [take_cut, drop_cut] at h
      cases he : parseInt post 32 with
      | error e =>
          rw [he] at h
          cases e <;> cases h
      | ok e =>
          rw [he] at h
          obtain ⟨a, f, n, rfl, hn, hf, rfl⟩ := (fromMantissa_iff ..).mp h
          obtain ⟨⟨sg, ds, rfl, hd, rfl⟩, hfe⟩ := (parseInt_iff post (by norm_num) e).mp he
          have hmark : c = if c == 69 then 69 else 101 := by
            rcases Bool.or_eq_true_iff.mp hc with h69 | h101
            · simp [beq_iff_eq.mp h69]
            · simp [beq_iff_eq.mp h101]
          refine ⟨a, f, some ⟨c == 69, sg, ds, hd⟩, n, ?_, hn, hfe, hf, rfl⟩
          simp only [expText, Exponent.text]
          rw [← hmark]
  · rintro ⟨a, f, x, n, rfl, hn, hfe, hf, rfl⟩
    have hplain : ∀ c ∈ a ++ pointText f, isExpMark c = false := by
      intro c hc
      rcases List.mem_append.mp hc with hc | hc
      · exact (plain_byte hn (List.mem_append_left _ hc)).2
      · cases f with
        | none => cases hc
        | some b =>
            rcases List.mem_cons.mp hc with rfl | hc
            · decide
            · exact (plain_byte hn (List.mem_append_right a hc)).2
    unfold newFromString
    cases x with
    | none =>
        simp only [expText, List.append_nil, List.findIdx?_eq_none_iff.mpr hplain]
        exact (fromMantissa_iff ..).mpr ⟨a, f, n, rfl, hn, hf, rfl⟩
    | some x =>
        have hmark : isExpMark (if x.upper then 69 else 101) = true := by
          cases x.upper <;> rfl
        have he : parseInt (x.sign.text ++ x.digits) 32 = .ok x.value :=
          (parseInt_iff _ (by norm_num) _).mpr ⟨⟨x.sign, x.digits, rfl, x.wf, rfl⟩, hfe⟩
        simp only [expText, Exponent.text, findIdx?_cut hplain hmark, take_cut, drop_cut, he]
        exact (fromMantissa_iff ..).mpr ⟨a, f, n, rfl, hn, hf, rfl⟩

/-! ## 2. Literals -/

/-- **A literal that fits is read as the number it denotes.** -/
theorem newFromString_literal (l : Literal) (h : l.Fits) :
    newFromString l.text =
      .ok ⟨some (l.sign.apply (digitsVal (l.intDigits ++ l.frac))),
        expValue l.exponent - l.frac.length⟩ :=
  (newFromString_iff ..).mpr ⟨l.sign.text ++ l.intDigits, l.fracDigits, l.exponent, _, rfl,
    ⟨l.sign, l.intDigits ++ l.frac, List.append_assoc .., l.wf, rfl⟩, h.1, h.2, rfl⟩

/-- A text with its sign behind the point is read, too. -/
theorem newFromString_misplaced (b : MisplacedSign) (h : b.Fits) :
    newFromString b.text =
      .ok ⟨some (b.sign.apply (digitsVal b.digits)),
        expValue b.exponent - (b.digits.length + 1)⟩ := by
  have hlen : ((b.sign.text ++ b.digits).length : Int) = b.digits.length + 1 := by
    rw [List.length_append, Sign.length_text b.signed]
    omega
  refine (newFromString_iff ..).mpr ⟨[], some (b.sign.text ++ b.digits), b.exponent, _, rfl,
    ⟨b.sign, b.digits, rfl, b.wf, rfl⟩, h.1, ?_, ?_⟩
  · rw [Option.getD_some, hlen]
    exact h.2
  · rw [Option.getD_some, hlen]

/-- **What is read is a literal, or has its sign behind the point.** -/
theorem newFromString_cases {s : GoString} {d : Decimal} (h : newFromString s = .ok d) :
    (∃ l : Literal, l.text = s ∧ l.Fits) ∨ ∃ b : MisplacedSign, b.text = s ∧ b.Fits := by
  obtain ⟨a, f, x, n, rfl, hn, hfe, hf, _⟩ := (newFromString_iff ..).mp h
  rcases hn.split with ⟨sg, ds, rfl, hd, _⟩ | ⟨sg, ds, hsg, rfl, hft, hd⟩
  · exact .inl ⟨⟨sg, ds, f, x, hd⟩, rfl, hfe, hf⟩
  · cases f with
    | none =>
        cases sg with
        | absent => exact absurd rfl hsg
        | plus => cases hft
        | minus => cases hft
    | some b =>
        have hb : b = sg.text ++ ds := hft
        subst hb
        have hlen : ((sg.text ++ ds).length : Int) = ds.length + 1 := by
          rw [List.length_append, Sign.length_text hsg]
          omega
        rw [Option.getD_some, hlen] at hf
        exact .inr ⟨⟨sg, ds, x, hsg, hd⟩, rfl, hfe, hf⟩

/-! ## 3. Printing -/

section Print

variable (n places : Nat)

/-- The digits around the point, joined, are the printed number. -/
theorem splitPoint_val :
    digitsVal ((splitPoint (natText n) places).1 ++ (splitPoint (natText n) places).2) = n := by
  unfold splitPoint
  split
  · rw [List.take_append_drop, digitsVal_natText]
  · show digitsVal ([48] ++ (List.replicate _ 48 ++ natText n)) = n
    rw [digitsVal_append, digitsVal_zeros, digitsVal_natText]
    simp [digitsVal_cons]

theorem splitPoint_length : (splitPoint (natText n) places).2.length = places := by
  unfold splitPoint
  split
  · rw [List.length_drop]
    omega
  · rw [List.length_append, List.length_replicate]
    omega

theorem splitPoint_int : Digits (splitPoint (natText n) places).1 := by
  unfold splitPoint
  split
  · refine ⟨?_, fun c hc => isDigit_natText (List.mem_of_mem_take hc)⟩
    rw [Ne, List.take_eq_nil_iff, not_or]
    exact ⟨by omega, natText_ne_nil n⟩
  · exact ⟨List.cons_ne_nil _ _, fun c hc => by rw [List.mem_singleton.mp hc]; rfl⟩

theorem splitPoint_frac {c : UInt8} (hc : c ∈ (splitPoint (natText n) places).2) :
    isDigit c = true := by
  unfold splitPoint at hc
  split at hc
  · exact isDigit_natText (List.mem_of_mem_drop hc)
  · rcases List.mem_append.mp hc with hc | hc
    · rw [List.eq_of_mem_replicate hc]
      rfl
    · exact isDigit_natText hc

/-- No superfluous zero in front. -/
theorem splitPoint_head (h : (splitPoint (natText n) places).1.head? = some 48) :
    (splitPoint (natText n) places).1 = [48] := by
  unfold splitPoint at h ⊢
  split
  · rename_i hlen
    rw [if_pos hlen, List.head?_take, if_neg (by omega)] at h
    -- only the number 0 starts with a zero, and its text is one digit long
    have h0 := natText_head h
    subst h0
    have hone : natText 0 = [48] := rfl
    rw [hone] at hlen ⊢
    obtain rfl : places = 0 := by
      simp at hlen
      omega
    rfl
  · rfl

end Print

/-- What the trailing zeros were. -/
theorem trimZeros_append (s : GoString) : ∃ k, s = trimZeros s ++ List.replicate k 48 := by
  refine ⟨(s.rtakeWhile (· == 48)).length, ?_⟩
  have hz : s.rtakeWhile (· == 48) = List.replicate (s.rtakeWhile (· == 48)).length 48 :=
    List.eq_replicate_of_mem fun c hc => by simpa using List.mem_rtakeWhile_imp hc
  rw [← hz]
  exact List.rdropWhile_append_rtakeWhile.symm

/-- A decimal with places behind the point is printed as a literal without exponent. -/
theorem string_eq {d : Decimal} (h : d.exp < 0) (trim : Bool) :
    d.string trim =
      let parts := splitPoint (natText d.coef.natAbs) d.exp.natAbs
      let frac := if trim then trimZeros parts.2 else parts.2
      (Sign.ofInt d.coef).text ++ parts.1 ++ pointText (if frac = [] then none else some frac) := by
  unfold string Sign.ofInt
  rw [if_neg (by omega)]
  simp only
  generalize splitPoint (natText d.coef.natAbs) d.exp.natAbs = parts
  generalize (if trim then trimZeros parts.2 else parts.2) = frac
  by_cases hf : frac = [] <;> by_cases hc : d.coef < 0 <;> simp [hf, hc, Sign.text, pointText]

end BankingService.Decimal

namespace BankingService.Money

open Lib

/-! ## 4. The text of an amount -/

/-- The digits before and after the point. -/
def printed (m : Money) : GoString × GoString :=
  Decimal.splitPoint (natText m.units.natAbs) 4

/-- The trimmed text: its digits, with the trimmed zeros put back, are the value. -/
theorem sqlValue_form (m : Money) : ∃ (a : GoString) (f : Option GoString), Digits a ∧
    (∀ c ∈ f.getD [], isDigit c = true) ∧ (f.getD []).length ≤ 4 ∧
    (∀ b, f = some b → b ≠ [] ∧ b.getLast? ≠ some 48) ∧
    m.sqlValue = (Sign.ofInt m.units).text ++ a ++ pointText f ∧
    digitsVal (a ++ f.getD []) * 10 ^ (4 - (f.getD []).length) = m.units.natAbs := by
  rcases m.cases_scale with he | ⟨he, h0⟩
  · obtain ⟨k, hk⟩ := Decimal.trimZeros_append m.printed.2
    have hlen : (Decimal.trimZeros m.printed.2).length + k = 4 := by
      have h4 : m.printed.2.length = 4 := Decimal.splitPoint_length ..
      rw [hk, List.length_append, List.length_replicate] at h4
      exact h4
    have hgetD : ∀ t : GoString, (if t = [] then none else some t).getD [] = t := by
      intro t
      by_cases ht : t = []
      · rw [if_pos ht, ht]
        rfl
      · rw [if_neg ht]
        rfl
    refine ⟨m.printed.1, if Decimal.trimZeros m.printed.2 = [] then none
      else some (Decimal.trimZeros m.printed.2), Decimal.splitPoint_int .., ?_, ?_, ?_, ?_, ?_⟩
    · intro c hc
      rw [hgetD] at hc
      refine Decimal.splitPoint_frac m.units.natAbs 4 ?_
      show c ∈ m.printed.2
      rw [hk]
      exact List.mem_append_left _ hc
    · rw [hgetD]
      omega
    · intro b hb
      split at hb
      · cases hb
      · rename_i ht
        cases hb
        refine ⟨ht, fun hlast => ?_⟩
        rw [List.getLast?_eq_some_getLast ht] at hlast
        refine List.rdropWhile_last_not (· == 48) m.printed.2 ht ?_
        exact beq_iff_eq.mpr (Option.some.inj hlast)
    · unfold sqlValue
      rw [Decimal.string_eq (by rw [he]; norm_num), he]
      rfl
    · rw [hgetD, show 4 - (Decimal.trimZeros m.printed.2).length = k by omega,
        ← digitsVal_append_zeros, List.append_assoc, ← hk]
      exact Decimal.splitPoint_val ..
  · have hu : m.units = 0 := h0
    refine ⟨[48], none, ⟨List.cons_ne_nil _ _, fun c hc => ?_⟩, fun c hc => ?_, by simp,
      (fun b hb => by cases hb), ?_, ?_⟩
    · rw [List.mem_singleton.mp hc]
      rfl
    · cases hc
    · unfold sqlValue Decimal.string
      rw [if_pos he.ge, Decimal.rescale_coef_zero h0, hu]
      rfl
    · rw [hu]
      rfl

end BankingService.Money
