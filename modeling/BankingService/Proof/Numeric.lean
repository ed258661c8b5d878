/-
  File:      BankingService/Proof/Numeric.lean
  Subject:   WHAT ARRIVES OF AN AMOUNT: the words pgx sends and what the server makes of them.

  * `numeric_form` -- what `parseNumericString` reads from the text of an amount;
  * `encode_whole`, `encode_frac` -- the message, and `bindNumeric_message` -- its reading;
  * **`toColumn_exact`** -- below `10 ^ 131072` an amount is stored exactly, or refused by the range
    of the column alone;
  * `toColumn_whole` -- any whole amount: the weight of its first digit is taken modulo `2 ^ 16`,
    and with `2 ^ 16` digits it is refused; `toColumn_wrapped` -- what is left of it when the weight
    wraps, and `toColumn_tenTo`, `toColumn_sub_tenTo`, `toColumn_add_tenTo` for powers of ten;
  * `stored_nonneg`, `stored_inRange` -- what holds of every amount.
-/
import BankingService.Proof.MoneyText
import BankingService.Store.Numeric

namespace BankingService

open Lib

/-! ## 1. The text -/

section Text

/-- The loop over the trailing zeros of an integer's text takes them all, up to the last digit. -/
theorem stripZeros_eq {sg : Sign} (hsg : sg ≠ .plus) {a : GoString} (ha : Digits a) (k : Nat) :
    ∃ b z, a = b ++ List.replicate z 48 ∧ Digits b ∧ (b = [48] ∨ b.getLast? ≠ some 48) ∧
      stripZeros (sg.text ++ a).reverse k = ((sg.text ++ b).reverse, k + z) := by
  induction a using List.reverseRecOn generalizing k with
  | nil => exact absurd rfl ha.1
  | append_singleton a d ih =>
      by_cases ha' : a = []
      · -- one digit: what stands in front of it is the sign, or nothing
        subst ha'
        refine ⟨[d], 0, by simp, ha, ?_, ?_⟩
        · by_cases hd : d = 48
          · exact .inl (by rw [hd])
          · exact .inr (by simpa using hd)
        · cases sg with
          | absent => rfl
          | plus => exact absurd rfl hsg
          | minus => exact if_neg fun h => h.2 rfl
      · have hdig : Digits a := ⟨ha', fun c hc => ha.2 c (List.mem_append_left _ hc)⟩
        by_cases hd : d = 48
        · obtain ⟨b, z, rfl, hb, hlast, hstrip⟩ := ih hdig (k + 1)
          refine ⟨b, z + 1, ?_, hb, hlast, ?_⟩
          · rw [hd, List.replicate_succ', List.append_assoc]
          · obtain ⟨x, c, hx⟩ := (List.eq_nil_or_concat (b ++ List.replicate z 48)).resolve_left ha'
            rw [List.concat_eq_append] at hx
            rw [hx] at hstrip ⊢
            have hc : c ≠ 45 := by
              rintro rfl
              have := hdig.2 45 (by rw [hx]; simp)
              cases this
            rw [show k + (z + 1) = k + 1 + z by omega, ← hstrip, hd, ← List.append_assoc,
              ← List.append_assoc, List.reverse_append, List.reverse_append]
            exact if_pos ⟨rfl, hc⟩
        · refine ⟨a ++ [d], 0, by simp, ha, .inr (by simpa using hd), ?_⟩
          obtain ⟨x, c, rfl⟩ := (List.eq_nil_or_concat a).resolve_left ha'
          rw [List.concat_eq_append, ← List.append_assoc, ← List.append_assoc,
            List.reverse_append, List.reverse_append]
          exact if_neg fun h => hd h.1

theorem ofInt_ne_plus (n : Int) : Sign.ofInt n ≠ .plus := by
  unfold Sign.ofInt
  split <;> exact fun h => by cases h

theorem setString_text (sg : Sign) {a : GoString} (ha : Digits a) :
    setString (sg.text ++ a) = some (sg.apply (digitsVal a)) :=
  (setString_iff _ _).mpr ⟨sg, a, rfl, ha, rfl⟩

/-- A digit string that does not end in a zero. -/
theorem not_dvd_digitsVal {b : GoString} (hb : Digits b) (hlast : b.getLast? ≠ some 48) :
    ¬10 ∣ digitsVal b := by
  obtain ⟨x, d, rfl⟩ := (List.eq_nil_or_concat b).resolve_left hb.1
  rw [List.concat_eq_append] at hb hlast ⊢
  have hd := (isDigit_iff d).mp (hb.2 d (by simp))
  have hne : d.toNat ≠ 48 := fun h => hlast (by
    rw [List.getLast?_concat]
    exact congrArg some (UInt8.toNat_inj.mp h))
  rw [digitsVal_append, digitsVal_cons]
  simp only [List.length_nil, List.length_singleton, pow_zero, pow_one, digitsVal_nil]
  omega

/-- **What pgx reads from the text of an amount**: with decimal places, or a whole number without
    its trailing zeros. -/
theorem numeric_form (m : Money) :
    (∃ c places : Nat, 0 < places ∧ places ≤ 4 ∧ c * 10 ^ (4 - places) = m.units.natAbs ∧ ¬10 ∣ c ∧
      parseNumericString m.sqlValue = some ((Sign.ofInt m.units).apply c, -(places : Int))) ∨
    ∃ c z : Nat, c * 10 ^ z * 10 ^ 4 = m.units.natAbs ∧ (c = 0 ∨ ¬10 ∣ c) ∧
      parseNumericString m.sqlValue = some ((Sign.ofInt m.units).apply c, int32 z) := by
  obtain ⟨a, f, ha, hf, hlen, hne, htext, hval⟩ := m.sqlValue_form
  have hpoint : ∀ c ∈ (Sign.ofInt m.units).text ++ a, (c == 46) = false := by
    intro c hc
    rw [beq_eq_false_iff_ne]
    rintro rfl
    rcases List.mem_append.mp hc with hc | hc
    · rcases Sign.mem_text hc with h | h <;> cases h
    · cases ha.2 46 hc
  rw [htext]
  cases f with
  | some b =>
      obtain ⟨hb, hlast⟩ := hne b rfl
      have hdig : Digits (a ++ b) := ⟨List.append_ne_nil_of_left_ne_nil ha.1 _, fun c hc =>
        (List.mem_append.mp hc).elim (ha.2 c) (hf c)⟩
      have hdvd : ¬10 ∣ digitsVal (a ++ b) := by
        refine not_dvd_digitsVal hdig ?_
        rwa [List.getLast?_append_of_ne_nil _ hb]
      refine .inl ⟨digitsVal (a ++ b), b.length, List.length_pos_iff.mpr hb, hlen, hval, hdvd, ?_⟩
      have hexp : int32 (-(b.length : Int)) = -b.length := by
        have : b.length ≤ 4 := hlen
        unfold int32
        interval_cases b.length <;> rfl
      unfold parseNumericString
      simp only [pointText, findIdx?_cut hpoint (beq_self_eq_true (46 : UInt8)), take_cut, drop_cut]
      rw [show (Sign.ofInt m.units).text ++ a ++ b = (Sign.ofInt m.units).text ++ (a ++ b) from
        List.append_assoc .., setString_text _ hdig, Option.map_some, ← hexp]
      refine congrArg (fun exp => some (_, int32 exp)) ?_
      simp only [List.length_append, List.length_cons]
      omega
  | none =>
      obtain ⟨b, z, rfl, hb, hlast, hstrip⟩ := stripZeros_eq (ofInt_ne_plus m.units) ha 0
      refine .inr ⟨digitsVal b, z, ?_, ?_, ?_⟩
      · simpa [digitsVal_append_zeros] using hval
      · rcases hlast with rfl | hlast
        · exact .inl rfl
        · exact .inr (not_dvd_digitsVal hb hlast)
      · unfold parseNumericString
        simp only [pointText, List.append_nil, List.findIdx?_eq_none_iff.mpr hpoint, hstrip,
          List.reverse_reverse, setString_text _ hb, Option.map_some, Nat.zero_add]

end Text

/-! ## 2. The digits -/

section Digits

theorem nbaseDigits_zero {fuel n : Nat} (h : n ≤ fuel) :
    nbaseDigits 0 fuel n = Nat.digits nbase n := by
  induction fuel generalizing n with
  | zero =>
      obtain rfl : n = 0 := Nat.le_zero.mp h
      rfl
  | succ fuel ih =>
      rw [nbaseDigits]
      by_cases hn : n = 0
      · rw [if_pos hn, hn, Nat.digits_zero]
      · have hlt : n / nbase < n := Nat.div_lt_self (Nat.pos_of_ne_zero hn) (by decide)
        rw [if_neg hn, ih (by omega), Nat.digits_def' (by decide) (Nat.pos_of_ne_zero hn)]

/-- Behind the point there is one digit. -/
theorem nbaseDigits_one {r : Nat} (h : r < nbase) :
    nbaseDigits 1 (r + nbase) (r + nbase) = [r] := by
  have hfuel : r + nbase = r + (nbase - 2) + 1 + 1 := by
    unfold nbase
    omega
  have hne : r + nbase ≠ 1 := by
    unfold nbase
    omega
  have hdiv : (r + nbase) / nbase = 1 := by
    rw [Nat.add_div_right r (by decide), Nat.div_eq_of_lt h]
  have hmod : (r + nbase) % nbase = r := by rw [Nat.add_mod_right, Nat.mod_eq_of_lt h]
  calc nbaseDigits 1 (r + nbase) (r + nbase)
      = nbaseDigits 1 (r + (nbase - 2) + 1 + 1) (r + nbase) := by rw [← hfuel]
    _ = r :: nbaseDigits 1 (r + (nbase - 2) + 1) 1 := by
        rw [nbaseDigits, if_neg hne, hdiv, hmod]
    _ = [r] := by rw [nbaseDigits, if_pos rfl]

/-- Read from the other end, a list of digits is what `Nat.ofDigits` reads. -/
theorem value_reverse (b : Nat) (l : List Nat) : value b l.reverse = Nat.ofDigits b l := by
  induction l with
  | nil => rfl
  | cons d l ih => rw [List.reverse_cons, value_snoc, ih, Nat.ofDigits_cons, Nat.add_comm]

theorem value_digits (n : Nat) : value nbase (Nat.digits nbase n).reverse = n := by
  rw [value_reverse, Nat.ofDigits_digits]

theorem digit_lt {n d : Nat} (h : d ∈ (Nat.digits nbase n).reverse) : d < nbase :=
  Nat.digits_lt_base (by decide) (List.mem_reverse.mp h)

theorem length_digits_le {n k : Nat} : (Nat.digits nbase n).length ≤ k ↔ n < nbase ^ k :=
  Nat.digits_length_le_iff (by decide) n

end Digits

/-! ## 3. The message -/

section Message

/-- The sign of a message. -/
def signWord (n : Int) : Word := if n < 0 then 16384 else 0

/-- The words of the number with the digits `ds`, the highest first, at a weight. -/
def message (n : Int) (ds : List Nat) (weight : Int) (places : Nat) : List Word :=
  [BitVec.ofNat 16 ds.length, BitVec.ofInt 16 weight, signWord n, BitVec.ofNat 16 places] ++
    ds.map (BitVec.ofNat 16)

theorem alignExp_whole (absInt z : Nat) :
    alignExp absInt z = (absInt * 10 ^ (z % 4), 4 * ((z / 4 : Nat) : Int)) := by
  have hmod : (z : Int).tmod 4 = ((z % 4 : Nat) : Int) := by
    rw [Int.tmod_eq_emod_of_nonneg (Int.natCast_nonneg z)]
    rfl
  have hdiv : z = 4 * (z / 4) + z % 4 := (Nat.div_add_mod z 4).symm
  have hlt : z % 4 < 4 := Nat.mod_lt z (by decide)
  unfold alignExp
  rw [hmod]
  generalize z % 4 = r at *
  interval_cases r <;> simp <;> omega

theorem encodeWeight_whole (ds : List Nat) (q : Nat) :
    encodeWeight ds [] (4 * (q : Int)) = BitVec.ofInt 16 ((ds.length : Int) - 1 + q) := by
  have hq : (4 * (q : Int)).tdiv 4 = q := Int.mul_tdiv_cancel_left _ (by decide)
  unfold encodeWeight
  rw [hq]
  split
  · rename_i hlen
    have hnat : BitVec.ofNat 16 (ds.length - 1) = BitVec.ofInt 16 ((ds.length : Int) - 1) := by
      rw [← BitVec.ofInt_natCast]
      congr 1
      omega
    split
    · rw [BitVec.ofInt_add, ← hnat]
    · obtain rfl : q = 0 := by omega
      rw [hnat]
      simp
  · obtain rfl : ds = [] := List.length_eq_zero_iff.mp (by omega)
    have hone : BitVec.ofInt 16 (((0 : Nat) : Int) - 1) = (-1 : Word) := by decide
    rw [BitVec.ofInt_add, List.length_nil, hone, BitVec.add_zero, BitVec.sub_eq_add_neg,
      BitVec.add_comm]

/-- **A whole number** `n * 10 ^ z`. -/
theorem encode_whole (n : Int) (z : Nat) :
    encodeNumericBinary n z =
      message n (Nat.digits nbase (n.natAbs * 10 ^ (z % 4))).reverse
        ((Nat.digits nbase (n.natAbs * 10 ^ (z % 4))).length - 1 + (z / 4 : Nat)) 0 := by
  unfold encodeNumericBinary splitDigits
  rw [alignExp_whole]
  simp only [if_neg (show ¬4 * ((z / 4 : Nat) : Int) < 0 by omega), nbaseDigits_zero le_rfl,
    if_neg (show ¬(z : Int) < 0 by omega), encodeWeight_whole]
  simp [message, signWord]

/-- **A number with decimal places.** Its digits are those before the point and one behind it. -/
theorem encode_frac (n : Int) {places : Nat} (h₀ : 0 < places) (h₄ : places ≤ 4) :
    ∃ ds, encodeNumericBinary n (-places) = message n ds (ds.length - 2) places ∧
      (∀ d ∈ ds, d < nbase) ∧ value nbase ds = n.natAbs * 10 ^ (4 - places) ∧
      ds.length = (Nat.digits nbase (n.natAbs * 10 ^ (4 - places) / nbase)).length + 1 := by
  have halign : alignExp n.natAbs (-(places : Int)) = (n.natAbs * 10 ^ (4 - places), -4) := by
    unfold alignExp
    interval_cases places <;> simp
  have hscale : (if -(places : Int) < 0 then BitVec.ofInt 16 (- -(places : Int)) else 0) =
      BitVec.ofNat 16 places := by
    rw [if_pos (by omega), Int.neg_neg, BitVec.ofInt_natCast]
  generalize hV : n.natAbs * 10 ^ (4 - places) = V at halign ⊢
  have hdivisor : 10 ^ (- -4 : Int).toNat = nbase := rfl
  have hmod : V % nbase < nbase := Nat.mod_lt _ (by decide)
  have hsplit : splitDigits V (-4) = (Nat.digits nbase (V / nbase), [V % nbase]) := by
    unfold splitDigits
    simp only [if_pos (show (-4 : Int) < 0 by decide), hdivisor, nbaseDigits_zero le_rfl,
      nbaseDigits_one hmod]
  refine ⟨(Nat.digits nbase (V / nbase)).reverse ++ [V % nbase], ?_, ?_, ?_, by simp⟩
  · have hweight : encodeWeight (Nat.digits nbase (V / nbase)) [V % nbase] (-4) =
        BitVec.ofInt 16
          ((((Nat.digits nbase (V / nbase)).reverse ++ [V % nbase]).length : Int) - 2) := by
      unfold encodeWeight
      rw [List.length_append, List.length_reverse, List.length_singleton]
      split
      · rw [if_neg (by decide), ← BitVec.ofInt_natCast]
        congr 1
        omega
      · rw [show (Nat.digits nbase (V / nbase)).length = 0 by omega]
        decide
    unfold encodeNumericBinary
    rw [halign]
    simp only [hsplit, hweight, hscale]
    simp [message, signWord]
  · intro d hd
    rcases List.mem_append.mp hd with hd | hd
    · exact digit_lt hd
    · rw [List.mem_singleton.mp hd]
      exact hmod
  · rw [value_snoc, value_digits, Nat.div_add_mod]

theorem map_toNat_ofNat {ds : List Nat} (h : ∀ d ∈ ds, d < nbase) :
    (ds.map (BitVec.ofNat 16)).map BitVec.toNat = ds := by
  rw [List.map_map]
  refine (List.map_congr_left fun d hd => ?_).trans (List.map_id ds)
  have := h d hd
  unfold nbase at this
  rw [Function.comp_apply, BitVec.toNat_ofNat, Nat.mod_eq_of_lt (by omega)]
  rfl

/-- The server reads as many digits as it has counted, and leaves the others. -/
theorem numericRecv_message (n : Int) {ds : List Nat} (h : ∀ d ∈ ds, d < nbase) (weight : Int)
    {places : Nat} (h₄ : places ≤ 4) :
    let count := ds.length % 2 ^ 16
    let number : Int := truncated (value nbase (ds.take count))
      (4 * (weight.bmod (2 ^ 16) - count + 1) + places)
    numericRecv (message n ds weight places) =
      .ok (⟨some (if n < 0 then -number else number), -places⟩,
        (ds.drop count).map (BitVec.ofNat 16)) := by
  intro count number
  have hcount : (BitVec.ofNat 16 ds.length).toNat = count := BitVec.toNat_ofNat ..
  have hplaces : (BitVec.ofNat 16 places).toNat = places := by
    rw [BitVec.toNat_ofNat, Nat.mod_eq_of_lt (by omega)]
  have hle : count ≤ ds.length := Nat.mod_le ..
  have hdigits : ((ds.map (BitVec.ofNat 16)).take count).map BitVec.toNat = ds.take count := by
    rw [← List.map_take]
    exact map_toNat_ofNat fun d hd => h d (List.mem_of_mem_take hd)
  have hsmall : ((ds.take count).any fun d => decide (nbase ≤ d)) = false := by
    refine List.any_eq_false.mpr fun d hd => ?_
    have := h d (List.mem_of_mem_take hd)
    simp only [decide_eq_true_eq]
    omega
  have hsign : ¬(signWord n ≠ 0 ∧ signWord n ≠ 16384) := by
    unfold signWord
    split <;> simp
  have hneg : signWord n = 0 ↔ ¬n < 0 := by
    unfold signWord
    split <;> simp_all
  unfold message
  simp only [List.cons_append, List.nil_append, numericRecv, hcount, hplaces, hdigits, hsmall,
    if_neg hsign, if_neg (show ¬0x3FFF < places by omega), List.length_take,
    if_neg (show ¬min count ds.length < count by omega), BitVec.toInt_ofInt, List.map_drop]
  by_cases hn : n < 0
  · simp only [if_pos hn, if_neg (fun e => hneg.mp e hn : ¬signWord n = 0)]
    rfl
  · simp only [if_neg hn, if_pos (hneg.mpr hn)]
    rfl

/-- **What the server makes of a message**: with `2 ^ 16` digits or more it counts fewer of them
    than there are; otherwise the first of them has the weight modulo `2 ^ 16`. -/
theorem bindNumeric_message (param : Nat) (n : Int) {ds : List Nat} (h : ∀ d ∈ ds, d < nbase)
    (weight : Int) {places : Nat} (h₄ : places ≤ 4) :
    bindNumeric param (message n ds weight places) =
      if ds.length < 2 ^ 16 then
        let number : Int := truncated (value nbase ds)
          (4 * (weight.bmod (2 ^ 16) - ds.length + 1) + places) * 10 ^ (4 - places)
        if InRange (if n < 0 then -number else number) then
          .ok (if n < 0 then -number else number)
        else .error numericOverflow
      else .error (invalidBinary ("incorrect binary data format in bind parameter " ++
        toString param)) := by
  unfold bindNumeric
  rw [numericRecv_message n h weight h₄]
  by_cases hlen : ds.length < 2 ^ 16
  · have hscale : ∀ number : Int, Money.numericScale ⟨some number, -places⟩ =
        number * 10 ^ (4 - places) := by
      intro number
      unfold Money.numericScale
      rw [if_pos (show (-4 : Int) ≤ -(places : Int) by omega), Decimal.coef_some,
        show (-(places : Int) + 4).toNat = 4 - places by omega]
    simp only [if_pos hlen, Nat.mod_eq_of_lt hlen, List.drop_length, List.take_length,
      List.map_nil, ne_eq, not_true_eq_false, if_false, hscale]
    by_cases hn : n < 0
    · simp only [if_pos hn, Int.neg_mul]
    · simp only [if_neg hn]
  · have hrest : (ds.drop (ds.length % 2 ^ 16)).map (BitVec.ofNat 16) ≠ [] := by
      rw [Ne, List.map_eq_nil_iff, List.drop_eq_nil_iff]
      have := Nat.mod_lt ds.length (show 0 < 2 ^ 16 by decide)
      omega
    simp only [if_neg hlen, if_pos hrest]

end Message

namespace Money

/-! ## 4. Every amount -/

/-- pgx can read the text of an amount, so the default of `numeric` is not used. -/
theorem parseNumericString_sqlValue (m : Money) :
    parseNumericString m.sqlValue = some m.numeric := by
  unfold numeric
  rcases numeric_form m with ⟨_, _, _, _, _, _, h⟩ | ⟨_, _, _, _, h⟩
  · rw [h]
    rfl
  · rw [h]
    rfl

/-- Without a sign the server reads a number that is not negative. -/
theorem numericRecv_nonneg {ndigits weight dscale : Word} {digits rest : List Word} {d : Decimal}
    (h : numericRecv (ndigits :: weight :: 0 :: dscale :: digits) = .ok (d, rest)) :
    0 ≤ d.coef := by
  simp only [numericRecv, ne_eq, not_true_eq_false, false_and, if_false, if_true] at h
  split at h
  · cases h
  · split at h
    · cases h
    · split at h
      · cases h
      · cases h
        exact Int.natCast_nonneg _

theorem encode_nonneg {int : Int} (h : 0 ≤ int) (exp : Int) : ∃ ndigits weight dscale digits,
    encodeNumericBinary int exp = ndigits :: weight :: 0 :: dscale :: digits := by
  unfold encodeNumericBinary
  rw [if_neg (show ¬int < 0 by omega)]
  exact ⟨_, _, _, _, rfl⟩

theorem numericScale_nonneg {d : Decimal} (h : 0 ≤ d.coef) : 0 ≤ numericScale d := by
  unfold numericScale
  split
  · exact Int.mul_nonneg h (by positivity)
  · simp only [if_neg (show ¬d.coef < 0 by omega)]
    exact Int.ediv_nonneg (by positivity) (by positivity)

/-- **The sign arrives**: what is stored of an amount that is not negative is not. -/
theorem stored_nonneg (m : Money) (h : 0 ≤ m.units) : 0 ≤ m.stored := by
  have hsign : 0 ≤ m.numeric.1 := by
    have habs : Sign.ofInt m.units = .absent := if_neg (by omega)
    have hnum := m.parseNumericString_sqlValue
    rcases numeric_form m with ⟨c, _, _, _, _, _, hp⟩ | ⟨c, _, _, _, hp⟩
    · rw [hp, habs] at hnum
      rw [← Option.some.inj hnum]
      exact Int.natCast_nonneg c
    · rw [hp, habs] at hnum
      rw [← Option.some.inj hnum]
      exact Int.natCast_nonneg c
  unfold stored toColumn bindNumeric
  split
  · exact le_rfl
  · rename_i d rest hrecv
    split
    · exact le_rfl
    · split
      · obtain ⟨_, _, _, _, he⟩ := encode_nonneg hsign m.numeric.2
        rw [he] at hrecv
        exact numericScale_nonneg (numericRecv_nonneg hrecv)
      · exact le_rfl

/-! ## 5. Exact amounts -/

section Exact

theorem bmod_word {x : Int} (h : -1 ≤ x) (h' : x ≤ 32767) : x.bmod (2 ^ 16) = x := by
  rw [Int.bmod_def]
  omega

theorem signed_abs (n : Int) : (if n < 0 then -(n.natAbs : Int) else n.natAbs) = n := by
  split <;> omega

theorem sqlValue_zero {m : Money} (h : m.units = 0) : m.sqlValue = [48] := by
  have hcoef : m.d.coef = 0 := h
  rcases m.cases_scale with he | ⟨he, _⟩
  · unfold sqlValue
    rw [Decimal.string_eq (by rw [he]; decide), hcoef, he]
    decide
  · unfold sqlValue Decimal.string
    rw [if_pos he.ge, Decimal.rescale_coef_zero hcoef]
    decide

/-- The text of an amount, and so all that becomes of it, depends on its value alone. -/
theorem sqlValue_congr {m m' : Money} (h : m.units = m'.units) : m.sqlValue = m'.sqlValue := by
  by_cases h0 : m.units = 0
  · rw [sqlValue_zero h0, sqlValue_zero (h ▸ h0)]
  · have hexp : ∀ m : Money, m.units ≠ 0 → m.d.exp = -4 := fun m hm =>
      m.cases_scale.resolve_right fun h' => hm h'.2
    have h₁ := hexp m h0
    have h₂ := hexp m' (h ▸ h0)
    have hcoef : m.d.coef = m'.d.coef := h
    unfold sqlValue
    rw [Decimal.string_eq (by rw [h₁]; decide), Decimal.string_eq (by rw [h₂]; decide), h₁, h₂,
      hcoef]

theorem toColumn_congr {m m' : Money} (h : m.units = m'.units) (param : Nat) :
    m.toColumn param = m'.toColumn param := by
  unfold toColumn numeric
  rw [sqlValue_congr h]

theorem toColumn_zero {m : Money} (h : m.units = 0) (param : Nat) : m.toColumn param = .ok 0 := by
  have hnum : m.numeric = (0, 0) := by
    unfold numeric
    rw [sqlValue_zero h]
    decide
  unfold toColumn
  rw [hnum, show encodeNumericBinary 0 0 = message 0 [] (-1) 0 by decide,
    bindNumeric_message param 0 (fun d hd => absurd hd List.not_mem_nil) _ (by decide)]
  rfl

/-- The exponent of a number that is not too long. -/
theorem int32_of_lt {z : Nat} (h : z < 2 ^ 31) : int32 z = z := by
  unfold int32
  rw [BitVec.ofInt_natCast, BitVec.toInt_eq_toNat_cond, BitVec.toNat_ofNat]
  omega

/-- A number without its trailing zeros is unique. -/
theorem pow_unique {c c' z z' : Nat} (h : c * 10 ^ z = c' * 10 ^ z') (hc : ¬10 ∣ c)
    (hc' : ¬10 ∣ c') : c = c' ∧ z = z' := by
  have key : ∀ {c c' z z' : Nat}, c * 10 ^ z = c' * 10 ^ z' → ¬10 ∣ c → ¬z < z' := by
    intro c c' z z' h hc hlt
    obtain ⟨k, rfl⟩ := Nat.exists_eq_add_of_lt hlt
    have hpos : 0 < 10 ^ z := Nat.pow_pos (by decide)
    refine hc ⟨c' * 10 ^ k, Nat.eq_of_mul_eq_mul_right hpos ?_⟩
    rw [h]
    ring
  obtain rfl : z = z' := by
    have := key h hc
    have := key h.symm hc'
    omega
  exact ⟨Nat.eq_of_mul_eq_mul_right (Nat.pow_pos (by decide)) h, rfl⟩

variable {m : Money} (param : Nat)

theorem natAbs_apply_units (c : Nat) : ((Sign.ofInt m.units).apply c).natAbs = c :=
  Sign.natAbs_apply ..

/-- With the sign of the amount, or without a value at all. -/
theorem apply_lt_iff {c : Nat} (hc : c ≠ 0) : (Sign.ofInt m.units).apply c < 0 ↔ m.units < 0 := by
  unfold Sign.ofInt
  split
  · simp only [Sign.apply]
    omega
  · simp only [Sign.apply]
    omega

/-- **A whole amount** `c * 10 ^ z`, of any size: with `2 ^ 16` digits in base 10000 or more it is
    refused, otherwise its first digit has the weight modulo `2 ^ 16`. -/
theorem toColumn_whole {c z : Nat} (hu : m.units.natAbs = c * 10 ^ z * 10 ^ 4) (hc : ¬10 ∣ c)
    (hz : z < 2 ^ 31) :
    m.toColumn param =
      if (Nat.digits nbase (c * 10 ^ (z % 4))).length < 2 ^ 16 then
        let count : Nat := (Nat.digits nbase (c * 10 ^ (z % 4))).length
        let weight : Int := ((count : Int) - 1 + (z / 4 : Nat)).bmod (2 ^ 16)
        let number : Int := truncated (c * 10 ^ (z % 4)) (4 * (weight - count + 1)) * 10 ^ 4
        if InRange (if m.units < 0 then -number else number) then
          .ok (if m.units < 0 then -number else number)
        else .error numericOverflow
      else .error (invalidBinary ("incorrect binary data format in bind parameter " ++
        toString param)) := by
  have hc0 : c ≠ 0 := fun h => hc (h ▸ Nat.dvd_zero 10)
  have hnum : m.numeric = ((Sign.ofInt m.units).apply c, (z : Int)) := by
    have hp := m.parseNumericString_sqlValue
    rcases numeric_form m with ⟨c', places, h₀, h₄, hval, hdvd, _⟩ | ⟨c', z', hval, hdvd, h⟩
    · -- a whole amount has no decimal places
      have hplaces : c * 10 ^ (z + places) = c' := by
        refine Nat.eq_of_mul_eq_mul_right (Nat.pow_pos (n := 4 - places) (by decide : 0 < 10)) ?_
        rw [hval, hu, mul_assoc, mul_assoc, ← pow_add, ← pow_add]
        congr 2
        omega
      obtain ⟨k, rfl⟩ := Nat.exists_eq_add_of_lt h₀
      exact absurd ⟨c * 10 ^ (z + k), by rw [← hplaces]; ring⟩ hdvd
    · have hval' : c' * 10 ^ z' = c * 10 ^ z :=
        Nat.eq_of_mul_eq_mul_right (by decide) (hval.trans hu)
      have hc' : ¬10 ∣ c' := hdvd.resolve_left fun h => by
        rw [h, Nat.zero_mul] at hval'
        exact hc0 ((Nat.mul_eq_zero.mp hval'.symm).resolve_right (by positivity))
      obtain ⟨rfl, rfl⟩ := pow_unique hval' hc' hc
      rw [h, int32_of_lt hz] at hp
      exact (Option.some.inj hp).symm
  unfold toColumn
  rw [hnum, encode_whole, natAbs_apply_units, bindNumeric_message param _ (fun d hd => digit_lt hd)
    _ (Nat.zero_le 4), List.length_reverse, value_digits]
  simp only [apply_lt_iff hc0, Nat.cast_zero, Int.add_zero, Nat.sub_zero]

/-- The digits and what stands behind them, of a number below a power of the base. -/
theorem length_add_le {V q k : Nat} (hV : V ≠ 0) (h : V * nbase ^ q < nbase ^ k) :
    (Nat.digits nbase V).length + q ≤ k := by
  have hpos : 0 < (Nat.digits nbase V).length :=
    List.length_pos_iff.mpr (Nat.digits_ne_nil_iff_ne_zero.mpr hV)
  have hlen : nbase ^ ((Nat.digits nbase V).length - 1) ≤ V :=
    Nat.le_of_not_lt fun hlt => by
      have hle := length_digits_le.mpr hlt
      omega
  have hpow : nbase ^ ((Nat.digits nbase V).length - 1 + q) < nbase ^ k := by
    rw [pow_add]
    exact (Nat.mul_le_mul_right _ hlen).trans_lt h
  have := (Nat.pow_lt_pow_iff_right (show 1 < nbase by decide)).mp hpow
  omega

theorem truncated_nonneg (V q : Nat) : truncated V (4 * (q : Int)) = V * nbase ^ q := by
  have hq : (4 * (q : Int)).toNat = 4 * q := by omega
  unfold truncated
  rw [if_pos (by omega), hq, pow_mul]
  rfl

section Bound

variable {k : Nat} (hk : k ≤ 32768) (hlt : m.units.natAbs < nbase ^ k * 10 ^ 4)
include hk hlt

/-- An amount with decimal places. -/
theorem toColumn_frac_exact {c places : Nat} (h₀ : 0 < places) (h₄ : places ≤ 4)
    (hval : c * 10 ^ (4 - places) = m.units.natAbs) (hdvd : ¬10 ∣ c)
    (hp : parseNumericString m.sqlValue = some ((Sign.ofInt m.units).apply c, -(places : Int))) :
    m.toColumn param = if InRange m.units then .ok m.units else .error numericOverflow := by
  have hc0 : c ≠ 0 := fun h => hdvd (h ▸ Nat.dvd_zero 10)
  have hnum : m.numeric = ((Sign.ofInt m.units).apply c, -(places : Int)) :=
    Option.some.inj (m.parseNumericString_sqlValue.symm.trans hp)
  obtain ⟨ds, hmsg, hds, hvalue, hlen⟩ := encode_frac ((Sign.ofInt m.units).apply c) h₀ h₄
  rw [natAbs_apply_units] at hvalue hlen
  have hcount : ds.length ≤ 32769 := by
    have hdiv : c * 10 ^ (4 - places) / nbase < nbase ^ k :=
      Nat.div_lt_of_lt_mul (by rw [hval, Nat.mul_comm]; exact hlt)
    have := length_digits_le.mpr hdiv
    omega
  have hexp : 4 * (((ds.length : Int) - 2).bmod (2 ^ 16) - ds.length + 1) + places =
      -((4 - places : Nat) : Int) := by
    rw [bmod_word (by omega) (by omega)]
    omega
  have htrunc : truncated (value nbase ds) (-((4 - places : Nat) : Int)) = c := by
    unfold truncated
    rw [hvalue]
    by_cases hfour : places = 4
    · subst hfour
      simp
    · rw [if_neg (by omega), Int.neg_neg, Int.toNat_natCast, Nat.mul_div_cancel _ (by positivity)]
  have hnumber : (c : Int) * 10 ^ (4 - places) = m.units.natAbs := by
    rw [← hval]
    push_cast
    rfl
  unfold toColumn
  rw [hnum, hmsg, bindNumeric_message param _ hds _ h₄, if_pos (by omega)]
  simp only [hexp, htrunc, hnumber, apply_lt_iff hc0, signed_abs]

/-- A whole amount. -/
theorem toColumn_whole_exact {c z : Nat} (hval : c * 10 ^ z * 10 ^ 4 = m.units.natAbs)
    (hdvd : ¬10 ∣ c) :
    m.toColumn param = if InRange m.units then .ok m.units else .error numericOverflow := by
  have hc0 : c ≠ 0 := fun h => hdvd (h ▸ Nat.dvd_zero 10)
  have hsplit : c * 10 ^ (z % 4) * nbase ^ (z / 4) = c * 10 ^ z := by
    unfold nbase
    rw [show (10000 : Nat) = 10 ^ 4 from rfl, ← pow_mul, mul_assoc, ← pow_add]
    congr 2
    omega
  have hV : c * 10 ^ (z % 4) ≠ 0 := by positivity
  have hcount : (Nat.digits nbase (c * 10 ^ (z % 4))).length + z / 4 ≤ k := by
    refine length_add_le hV ?_
    rw [hsplit]
    rw [← hval] at hlt
    exact Nat.lt_of_mul_lt_mul_right hlt
  have hpos : 0 < (Nat.digits nbase (c * 10 ^ (z % 4))).length :=
    List.length_pos_iff.mpr (Nat.digits_ne_nil_iff_ne_zero.mpr hV)
  have hexp : 4 * ((((Nat.digits nbase (c * 10 ^ (z % 4))).length : Int) - 1 +
      (z / 4 : Nat)).bmod (2 ^ 16) - (Nat.digits nbase (c * 10 ^ (z % 4))).length + 1) =
      4 * ((z / 4 : Nat) : Int) := by
    rw [bmod_word (by omega) (by omega)]
    omega
  have hnumber : ((c * 10 ^ (z % 4) * nbase ^ (z / 4) : Nat) : Int) * 10 ^ 4 =
      m.units.natAbs := by
    rw [hsplit, ← hval]
    push_cast
    rfl
  rw [toColumn_whole param hval.symm hdvd (by omega), if_pos (by omega)]
  simp only [hexp, truncated_nonneg, hnumber, signed_abs]

end Bound

/-- **Below `10 ^ 131072` an amount is stored exactly**, or refused by the range of the column. -/
theorem toColumn_exact (h : m.sendable = true) :
    m.toColumn param = if InRange m.units then .ok m.units else .error numericOverflow := by
  have hlt : m.units.natAbs < nbase ^ 32768 * 10 ^ 4 := by
    have hbound : sendBound = 10 ^ (4 * 32768 + 4) := congrArg (10 ^ ·) (by norm_num)
    have hbase : nbase = 10 ^ 4 := rfl
    rw [pow_add, pow_mul] at hbound
    rw [hbase, ← hbound]
    exact sendable_iff.mp h
  by_cases hzero : m.units = 0
  · rw [toColumn_zero hzero, hzero]
    rfl
  · rcases numeric_form m with ⟨c, places, h₀, h₄, hval, hdvd, hp⟩ | ⟨c, z, hval, hdvd, _⟩
    · exact toColumn_frac_exact param le_rfl hlt h₀ h₄ hval hdvd hp
    · refine toColumn_whole_exact param le_rfl hlt hval (hdvd.resolve_left fun h => hzero ?_)
      rw [h] at hval
      omega

theorem storable_iff (h : m.sendable = true) : m.storable = true ↔ InRange m.units := by
  unfold storable
  rw [toColumn_exact 1 h]
  split
  · exact iff_of_true rfl ‹_›
  · exact iff_of_false Bool.false_ne_true ‹_›

/-- An amount that arrives exactly, or not at all. -/
theorem stored_eq (h : m.sendable = true) (hs : m.storable = true) : m.stored = m.units := by
  unfold stored
  rw [toColumn_exact 1 h, if_pos ((storable_iff h).mp hs)]
  rfl

/-- An amount up to twice the range of the column is small enough to be sent. -/
theorem sendable_of_lt (h : m.units.natAbs < 2 * numericBound.toNat) : m.sendable = true := by
  have hbound : 2 * numericBound.toNat ≤ sendBound := by
    have hsmall : 2 * numericBound.toNat ≤ 10 ^ 21 := by decide
    have hpow : 10 ^ 21 ≤ sendBound := by
      unfold sendBound
      gcongr <;> decide
    exact hsmall.trans hpow
  exact sendable_iff.mpr (h.trans_le hbound)

theorem sendable_of_inRange (h : InRange m.units) : m.sendable = true := by
  refine sendable_of_lt ?_
  obtain ⟨hlo, hhi⟩ := h
  omega

theorem toColumn_inRange (param : Nat) (h : InRange m.units) : m.toColumn param = .ok m.units := by
  rw [toColumn_exact param (sendable_of_inRange h), if_pos h]

theorem storable_of_inRange (h : InRange m.units) : m.storable = true ∧ m.stored = m.units := by
  have hsend := sendable_of_inRange h
  have hs := (storable_iff hsend).mpr h
  exact ⟨hs, stored_eq hsend hs⟩

/-! ## 6. From `10 ^ 131072` on -/

theorem length_digits_eq {n j : Nat} (h : nbase ^ j ≤ n) (h' : n < nbase ^ (j + 1)) :
    (Nat.digits nbase n).length = j + 1 := by
  refine le_antisymm (length_digits_le.mpr h') (Nat.lt_of_not_le fun hle => ?_)
  exact absurd (length_digits_le.mp hle) (not_lt.mpr h)

theorem nbase_pow (k : Nat) : nbase ^ k = 10 ^ (4 * k) := by
  rw [pow_mul]
  rfl

theorem truncated_neg (V k : Nat) : truncated V (-(4 * (k : Int))) = V / nbase ^ k := by
  unfold truncated
  rw [nbase_pow]
  split
  · obtain rfl : k = 0 := by omega
    simp
  · rw [Int.neg_neg, show (4 * (k : Int)).toNat = 4 * k by omega]

/-- **The weight wraps around.** The number `V` of `j + 1` digits in base 10000, with `q` zero
    digits behind it, arrives with the weight `j + q` modulo `2 ^ 16`. If that is `-k`, the column
    stores what is left of `V` when its first digit has that weight. -/
theorem toColumn_wrapped {V j q k : Nat} (hu : m.units.natAbs = V * nbase ^ q * 10 ^ 4)
    (hV : ¬10 ∣ V) (hlo : nbase ^ j ≤ V) (hhi : V < nbase ^ (j + 1)) (hj : j + 1 < 2 ^ 16)
    (hq : 4 * q < 2 ^ 31) (hw : ((j + q : Nat) : Int).bmod (2 ^ 16) = -k) :
    m.toColumn param = .ok (if m.units < 0 then -((V / nbase ^ (j + k) : Nat) * 10 ^ 4)
      else (V / nbase ^ (j + k) : Nat) * 10 ^ 4) := by
  have hmod : V * 10 ^ (4 * q % 4) = V := by simp
  have hweight : ((j + 1 : Nat) : Int) - 1 + (4 * q / 4 : Nat) = ((j + q : Nat) : Int) := by omega
  have hexp : 4 * (-(k : Int) - ((j + 1 : Nat) : Int) + 1) = -(4 * ((j + k : Nat) : Int)) := by
    omega
  -- at most the first digit is left
  have hle : V / nbase ^ (j + k) < nbase := by
    refine Nat.div_lt_of_lt_mul (hhi.trans_le ?_)
    rw [← pow_succ]
    exact Nat.pow_le_pow_right (by decide) (by omega)
  rw [toColumn_whole param (nbase_pow q ▸ hu) hV hq, hmod, length_digits_eq hlo hhi, if_pos hj]
  simp only [hweight, hw, hexp, truncated_neg]
  generalize V / nbase ^ (j + k) = d at hle ⊢
  refine if_pos ?_
  unfold nbase at hle
  unfold InRange numericBound
  split <;> omega

/-- What is left of a number that starts with a 1: a whole 1, or nothing. -/
theorem toColumn_leading {j q b k : Nat}
    (hu : m.units.natAbs = (nbase ^ j + b) * nbase ^ q * 10 ^ 4)
    (hV : ¬10 ∣ nbase ^ j + b) (hb : b < nbase ^ j) (hj : j + 1 < 2 ^ 16) (hq : 4 * q < 2 ^ 31)
    (hw : ((j + q : Nat) : Int).bmod (2 ^ 16) = -k) :
    m.toColumn param =
      .ok (if k = 0 then (if m.units < 0 then -10 ^ 4 else 10 ^ 4) else 0) := by
  have hdouble : 2 * nbase ^ j ≤ nbase ^ (j + 1) := by
    rw [pow_succ, Nat.mul_comm]
    exact Nat.mul_le_mul_left _ (by decide)
  have hlead : (nbase ^ j + b) / nbase ^ (j + k) = if k = 0 then 1 else 0 := by
    split
    · rename_i h0
      rw [h0, Nat.add_zero, Nat.add_div_left _ (Nat.pow_pos (by decide)), Nat.div_eq_of_lt hb]
    · rename_i h0
      refine Nat.div_eq_of_lt (lt_of_lt_of_le (by omega : _ < nbase ^ (j + 1)) ?_)
      exact Nat.pow_le_pow_right (by decide) (by omega)
  rw [toColumn_wrapped param hu hV (Nat.le_add_right _ _) (by omega) hj hq hw, hlead]
  by_cases h0 : k = 0 <;> simp [h0]

/-- `10 ^ k`, as `NewFromString` reads it from its text with an exponent. -/
def tenTo (k : Nat) : Money := newFromDecimal ⟨some 1, k⟩

theorem units_tenTo (k : Nat) : (tenTo k).units = (10 ^ (k + 4) : Nat) := by
  show ((⟨some 1, (k : Int)⟩ : Decimal).round 4).coef = _
  have hne : (k : Int) ≠ -4 := by omega
  have hne' : (k : Int) ≠ -4 - 1 := by omega
  have hlt : ¬(k : Int) < -4 - 1 := by omega
  have habs : (-4 - 1 - (k : Int)).natAbs = k + 4 + 1 := by omega
  have hpos : (0 : Int) < 10 ^ (k + 4) := by positivity
  simp only [Decimal.round, Decimal.rescale, if_neg hne, if_neg hne', if_neg hlt, habs,
    Decimal.coef_some, one_mul]
  rw [pow_succ]
  push_cast
  generalize (10 : Int) ^ (k + 4) = n at hpos ⊢
  have hq : (if n * 10 < 0 then n * 10 - 5 else n * 10 + 5) / 10 = n := by
    rw [if_neg (by omega)]
    omega
  rw [hq, if_neg (by omega)]

theorem fromString_tenTo {s : GoString} {k : Nat} (h : Decimal.newFromString s = .ok ⟨some 1, k⟩) :
    fromString s = .ok (tenTo k) := by
  rw [fromString, h]
  rfl

/-- It is out of range from `10 ^ 16` on. -/
theorem numericBound_le_tenTo {k : Nat} (h : 16 ≤ k) : numericBound ≤ (tenTo k).units := by
  have hpow : (10 : Nat) ^ 20 ≤ 10 ^ (k + 4) := Nat.pow_le_pow_right (by decide) (by omega)
  rw [units_tenTo]
  exact Int.ofNat_le.mpr hpow

section TenTo

variable {j q b k : Nat} (hj : j + 1 < 2 ^ 16) (hq : 4 * q < 2 ^ 31)
  (hw : ((j + q : Nat) : Int).bmod (2 ^ 16) = -k)

/-- `10 ^ (4 * (j + q))` and a digit `b` with `q` zero digits behind it. -/
theorem tenTo_add_digit (j q b : Nat) :
    10 ^ (4 * (j + q) + 4) + b * nbase ^ q * 10 ^ 4 = (nbase ^ j + b) * nbase ^ q * 10 ^ 4 := by
  rw [Nat.mul_add, pow_add, pow_add, ← nbase_pow, ← nbase_pow]
  ring

theorem not_dvd_add_digit (hpos : 0 < j) (hb : ¬10 ∣ b) : ¬10 ∣ nbase ^ j + b := by
  have hdvd : 10 ∣ nbase ^ j := Dvd.dvd.trans (by decide : 10 ∣ nbase) (dvd_pow_self _ hpos.ne')
  rwa [Nat.dvd_add_right hdvd]

include hj hq hw in
/-- **A debt of `b` from which `10 ^ (4 * (j + q))` is taken.** -/
theorem toColumn_sub_tenTo (hpos : 0 < j) (hb : ¬10 ∣ b) (hlt : b < nbase) :
    ((ofColumn (-(b * nbase ^ q * 10 ^ 4 : Nat))).sub (tenTo (4 * (j + q)))).toColumn param =
      .ok (if k = 0 then -10 ^ 4 else 0) := by
  have hadd := tenTo_add_digit j q b
  have hbig : 0 < 10 ^ (4 * (j + q) + 4) := by positivity
  have hunits : ((ofColumn (-(b * nbase ^ q * 10 ^ 4 : Nat))).sub (tenTo (4 * (j + q)))).units =
      -((nbase ^ j + b) * nbase ^ q * 10 ^ 4 : Nat) := by
    rw [units_sub, units_ofColumn, units_tenTo]
    omega
  have hneg :
      ((ofColumn (-(b * nbase ^ q * 10 ^ 4 : Nat))).sub (tenTo (4 * (j + q)))).units < 0 := by
    rw [hunits]
    omega
  rw [toColumn_leading param (by rw [hunits, Int.natAbs_neg, Int.natAbs_natCast])
    (not_dvd_add_digit hpos hb) (hlt.trans_le (Nat.le_self_pow hpos.ne' _)) hj hq hw]
  simp only [if_pos hneg]

include hj hq hw in
/-- **A balance of `b` to which it is added.** -/
theorem toColumn_add_tenTo (hpos : 0 < j) (hb : ¬10 ∣ b) (hlt : b < nbase) :
    ((ofColumn (b * nbase ^ q * 10 ^ 4 : Nat)).add (tenTo (4 * (j + q)))).toColumn param =
      .ok (if k = 0 then 10 ^ 4 else 0) := by
  have hadd := tenTo_add_digit j q b
  have hunits : ((ofColumn (b * nbase ^ q * 10 ^ 4 : Nat)).add (tenTo (4 * (j + q)))).units =
      ((nbase ^ j + b) * nbase ^ q * 10 ^ 4 : Nat) := by
    rw [units_add, units_ofColumn, units_tenTo]
    omega
  have hnonneg :
      ¬((ofColumn (b * nbase ^ q * 10 ^ 4 : Nat)).add (tenTo (4 * (j + q)))).units < 0 := by
    rw [hunits]
    omega
  rw [toColumn_leading param (by rw [hunits, Int.natAbs_natCast])
    (not_dvd_add_digit hpos hb) (hlt.trans_le (Nat.le_self_pow hpos.ne' _)) hj hq hw]
  simp only [if_neg hnonneg]

/-- **The amount itself**, or a balance of 0 to which it is added. -/
theorem toColumn_tenTo (hunits : m.units = (tenTo (4 * q)).units) (hq : 4 * q < 2 ^ 31)
    (hw : (q : Int).bmod (2 ^ 16) = -k) :
    m.toColumn param = .ok (if k = 0 then 10 ^ 4 else 0) := by
  rw [units_tenTo, pow_add, ← nbase_pow] at hunits
  have hnonneg : ¬m.units < 0 := by
    rw [hunits]
    omega
  have hu : m.units.natAbs = (nbase ^ 0 + 0) * nbase ^ q * 10 ^ 4 := by
    rw [hunits, Int.natAbs_natCast, pow_zero, Nat.add_zero, Nat.one_mul]
  have hw : ((0 + q : Nat) : Int).bmod (2 ^ 16) = -k := by rw [Nat.zero_add, hw]
  rw [toColumn_leading param hu (by decide) (by decide) (by norm_num) hq hw]
  simp only [if_neg hnonneg]

end TenTo

end Exact

end Money

end BankingService
