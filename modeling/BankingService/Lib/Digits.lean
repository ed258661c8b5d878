/-
  File:      BankingService/Lib/Digits.lean
  Subject:   DECIMAL TEXT: digit strings over bytes, their value, the canonical text of a natural
             number, and signed digit strings.

  * `digitsVal` -- the value of a digit string, leading zeros allowed;
  * `natText` -- the text of a natural number without a leading zero;
  * **`digitsVal_natText`** -- reading back what was written;
  * `SignedDigits` -- an optional sign and at least one digit, with the integer it denotes.
-/
import Mathlib.Data.Nat.Digits.Lemmas
import Mathlib.Tactic.Ring

namespace BankingService.Lib

/-! ## 1. Digits -/

/-- An ASCII decimal digit. -/
def isDigit (b : UInt8) : Bool := 48 ≤ b.toNat && b.toNat ≤ 57

theorem isDigit_iff (b : UInt8) : isDigit b = true ↔ 48 ≤ b.toNat ∧ b.toNat ≤ 57 := by
  simp [isDigit]

/-- One more digit at the end. -/
def snocDigit (n : Nat) (b : UInt8) : Nat := 10 * n + (b.toNat - 48)

/-- The value of a digit string, most significant digit first. -/
def digitsVal (s : List UInt8) : Nat := s.foldl snocDigit 0

/-- Reading on from a value shifts it by the number of digits read. -/
theorem foldl_snocDigit (s : List UInt8) (n : Nat) :
    s.foldl snocDigit n = n * 10 ^ s.length + digitsVal s := by
  induction s generalizing n with
  | nil => simp [digitsVal]
  | cons b s ih =>
      have h₀ : digitsVal (b :: s) = snocDigit 0 b * 10 ^ s.length + digitsVal s := ih _
      rw [List.foldl_cons, ih, h₀, List.length_cons]
      unfold snocDigit
      ring

@[simp] theorem digitsVal_nil : digitsVal [] = 0 := rfl

theorem digitsVal_cons (b : UInt8) (s : List UInt8) :
    digitsVal (b :: s) = (b.toNat - 48) * 10 ^ s.length + digitsVal s := by
  show s.foldl snocDigit (snocDigit 0 b) = _
  rw [foldl_snocDigit]
  simp [snocDigit]

theorem digitsVal_append (s t : List UInt8) :
    digitsVal (s ++ t) = digitsVal s * 10 ^ t.length + digitsVal t := by
  show (s ++ t).foldl snocDigit 0 = _
  rw [List.foldl_append, foldl_snocDigit]
  rfl

/-- Zeros in front do not count. -/
theorem digitsVal_zeros (k : Nat) (s : List UInt8) :
    digitsVal (List.replicate k 48 ++ s) = digitsVal s := by
  induction k with
  | zero => rfl
  | succ k ih =>
      rw [List.replicate_succ, List.cons_append, digitsVal_cons, ih]
      simp

/-- Zeros at the end count as powers of ten. -/
theorem digitsVal_append_zeros (s : List UInt8) (k : Nat) :
    digitsVal (s ++ List.replicate k 48) = digitsVal s * 10 ^ k := by
  have hz : digitsVal (List.replicate k 48) = 0 := by
    have h := digitsVal_zeros k []
    rwa [List.append_nil] at h
  rw [digitsVal_append, hz, List.length_replicate, Nat.add_zero]

/-- A digit string of length `k` is below `10 ^ k`. -/
theorem digitsVal_lt {s : List UInt8} (h : ∀ b ∈ s, isDigit b = true) :
    digitsVal s < 10 ^ s.length := by
  induction s with
  | nil => simp
  | cons b s ih =>
      have hb := (isDigit_iff b).mp (h b (List.mem_cons_self ..))
      have hs := ih fun c hc => h c (List.mem_cons_of_mem _ hc)
      rw [digitsVal_cons, List.length_cons, Nat.pow_succ]
      have hd : (b.toNat - 48) * 10 ^ s.length ≤ 9 * 10 ^ s.length :=
        Nat.mul_le_mul_right _ (by omega)
      omega

/-! ## 2. The text of a natural number -/

/-- The decimal text of a natural number. -/
def natText (n : Nat) : List UInt8 := (Nat.toDigits 10 n).map (·.toUInt8)

theorem digitChar_toUInt8 {d : Nat} (h : d < 10) : d.digitChar.toUInt8.toNat = 48 + d := by
  interval_cases d <;> rfl

/-- The last digit taken off the end. -/
theorem natText_eq (n : Nat) :
    natText n = (if n < 10 then [] else natText (n / 10)) ++ [(n % 10).digitChar.toUInt8] := by
  unfold natText
  rw [Nat.toDigits_eq_if (by norm_num)]
  by_cases h : n < 10
  · rw [if_pos h, if_pos h, Nat.mod_eq_of_lt h]
    rfl
  · rw [if_neg h, if_neg h, List.map_append]
    rfl

theorem natText_ne_nil (n : Nat) : natText n ≠ [] := by
  rw [natText_eq]
  simp

/-- **Reading back what was written.** -/
theorem digitsVal_natText (n : Nat) : digitsVal (natText n) = n := by
  induction n using Nat.strong_induction_on with
  | _ n ih =>
      have hd := digitChar_toUInt8 (Nat.mod_lt n (show 0 < 10 by norm_num))
      rw [natText_eq, digitsVal_append, digitsVal_cons]
      by_cases h : n < 10
      · rw [if_pos h, hd]
        simp [Nat.mod_eq_of_lt h]
      · rw [if_neg h, ih (n / 10) (by omega), hd]
        simp
        omega

theorem isDigit_natText {n : Nat} {b : UInt8} (h : b ∈ natText n) : isDigit b = true := by
  induction n using Nat.strong_induction_on with
  | _ n ih =>
      rw [natText_eq, List.mem_append, List.mem_singleton] at h
      rcases h with h | rfl
      · by_cases hn : n < 10
        · rw [if_pos hn] at h
          cases h
        · rw [if_neg hn] at h
          exact ih (n / 10) (by omega) h
      · have hd := digitChar_toUInt8 (Nat.mod_lt n (show 0 < 10 by norm_num))
        rw [isDigit_iff, hd]
        omega

/-- No superfluous leading zero: only the text of 0 starts with the digit 0. -/
theorem natText_head {n : Nat} (h : (natText n).head? = some 48) : n = 0 := by
  induction n using Nat.strong_induction_on with
  | _ n ih =>
      have hd := digitChar_toUInt8 (Nat.mod_lt n (show 0 < 10 by norm_num))
      rw [natText_eq] at h
      by_cases hn : n < 10
      · rw [if_pos hn, List.nil_append, List.head?_cons, Option.some.injEq] at h
        rw [h, Nat.mod_eq_of_lt hn] at hd
        have h48 : (48 : UInt8).toNat = 48 := rfl
        omega
      · rw [if_neg hn, List.head?_append_of_ne_nil _ (natText_ne_nil _)] at h
        have := ih (n / 10) (by omega) h
        omega

/-! ## 3. Signed digit strings -/

/-- The sign written in front of a number. -/
inductive Sign where
  | absent
  | plus
  | minus
  deriving DecidableEq, Repr

namespace Sign

def text : Sign → List UInt8
  | absent => []
  | plus => [43]
  | minus => [45]

/-- The signed number. -/
def apply : Sign → Nat → Int
  | absent, n => n
  | plus, n => n
  | minus, n => -n

theorem natAbs_apply (sg : Sign) (n : Nat) : (sg.apply n).natAbs = n := by
  cases sg <;> simp [apply]

theorem length_text {sg : Sign} (h : sg ≠ absent) : sg.text.length = 1 := by
  cases sg with
  | absent => exact absurd rfl h
  | plus => rfl
  | minus => rfl

theorem mem_text {sg : Sign} {b : UInt8} (h : b ∈ sg.text) : b = 43 ∨ b = 45 := by
  cases sg with
  | absent => cases h
  | plus => exact .inl (List.mem_singleton.mp h)
  | minus => exact .inr (List.mem_singleton.mp h)

/-- The sign an integer is printed with. -/
def ofInt (n : Int) : Sign := if n < 0 then minus else absent

theorem ofInt_apply (n : Int) : (ofInt n).apply n.natAbs = n := by
  unfold ofInt
  by_cases h : n < 0
  · rw [if_pos h]
    show -(n.natAbs : Int) = n
    omega
  · rw [if_neg h]
    show (n.natAbs : Int) = n
    omega

end Sign

/-- At least one digit, and nothing but digits. -/
def Digits (s : List UInt8) : Prop := s ≠ [] ∧ ∀ b ∈ s, isDigit b = true

/-- An optional sign and digits, denoting `n`. -/
def SignedDigits (s : List UInt8) (n : Int) : Prop :=
  ∃ (sg : Sign) (ds : List UInt8), s = sg.text ++ ds ∧ Digits ds ∧ n = sg.apply (digitsVal ds)

/-- A signed digit string is shorter than the power of ten that bounds it. -/
theorem SignedDigits.natAbs_lt {s : List UInt8} {n : Int} (h : SignedDigits s n) :
    n.natAbs < 10 ^ s.length := by
  obtain ⟨sg, ds, rfl, hd, rfl⟩ := h
  rw [Sign.natAbs_apply, List.length_append]
  exact (digitsVal_lt hd.2).trans_le (Nat.pow_le_pow_right (by norm_num) (by omega))

/-- Its bytes are signs and digits. -/
theorem SignedDigits.mem {s : List UInt8} {n : Int} (h : SignedDigits s n) {c : UInt8}
    (hc : c ∈ s) : c = 43 ∨ c = 45 ∨ isDigit c = true := by
  obtain ⟨sg, ds, rfl, hd, _⟩ := h
  rcases List.mem_append.mp hc with hc | hc
  · exact (Sign.mem_text hc).imp id .inl
  · exact .inr (.inr (hd.2 c hc))

/-- A signed digit string cut in two: the sign stands in front of the first part, or the first part
    is empty and the sign in front of the second. -/
theorem SignedDigits.split {s t : List UInt8} {n : Int} (h : SignedDigits (s ++ t) n) :
    (∃ sg ds, s = Sign.text sg ++ ds ∧ Digits (ds ++ t) ∧ n = sg.apply (digitsVal (ds ++ t))) ∨
      ∃ sg ds, sg ≠ .absent ∧ s = [] ∧ t = Sign.text sg ++ ds ∧ Digits ds := by
  obtain ⟨sg, ds, he, hd, hn⟩ := h
  by_cases hsg : sg = .absent
  · subst hsg
    have he' : s ++ t = ds := he
    subst he'
    exact .inl ⟨.absent, s, rfl, hd, hn⟩
  · obtain ⟨c, hc⟩ := List.length_eq_one_iff.mp (Sign.length_text hsg)
    cases s with
    | nil => exact .inr ⟨sg, ds, hsg, rfl, he, hd⟩
    | cons a s =>
        rw [hc, List.cons_append, List.singleton_append, List.cons.injEq] at he
        obtain ⟨rfl, rfl⟩ := he
        exact .inl ⟨sg, s, by rw [hc]; rfl, hd, hn⟩

end BankingService.Lib
