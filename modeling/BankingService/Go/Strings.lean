/-
  File:      BankingService/Go/Strings.lean
  Subject:   Go strings, and the integer parsers of the standard library the money code rests on:
             `strconv.ParseInt` in base 10 and `big.Int.SetString` in base 10.

  A Go `string` is a list of bytes (`GoString`), valid UTF-8 or not. `parseUint` is the loop of
  `strconv`: it stops at the first byte that is no digit or at the first overflow, whichever comes
  first, and the error says which it was.

  * **`setString_iff`** -- `SetString` accepts exactly the signed digit strings;
  * **`parseInt_iff`** -- `ParseInt` accepts exactly those whose value fits the bit size.
-/
import BankingService.Lib.Digits

namespace BankingService

open Lib

/-! ## 1. Strings -/

/-- A Go string: bytes, not necessarily UTF-8. -/
abbrev GoString := List UInt8

/-- The bytes of an ASCII literal. -/
def bytes (s : String) : GoString := s.toList.map (·.toUInt8)

/-- A byte string is free of a kind of byte, or is cut at the first of them. -/
theorem cut_first (p : UInt8 → Bool) (s : GoString) :
    (∀ c ∈ s, p c = false) ∨
      ∃ pre c post, s = pre ++ c :: post ∧ (∀ c ∈ pre, p c = false) ∧ p c = true := by
  induction s with
  | nil => exact .inl fun _ h => absurd h List.not_mem_nil
  | cons c s ih =>
      by_cases hc : p c = true
      · exact .inr ⟨[], c, s, rfl, fun _ h => absurd h List.not_mem_nil, hc⟩
      · rw [Bool.not_eq_true] at hc
        rcases ih with h | ⟨pre, d, post, rfl, hpre, hd⟩
        · exact .inl (List.forall_mem_cons.mpr ⟨hc, h⟩)
        · exact .inr ⟨c :: pre, d, post, rfl, List.forall_mem_cons.mpr ⟨hc, hpre⟩, hd⟩

/-- Searching finds the first of them. -/
theorem findIdx?_cut {p : UInt8 → Bool} {pre : GoString} (h : ∀ c ∈ pre, p c = false) {c : UInt8}
    (hc : p c = true) (post : GoString) : (pre ++ c :: post).findIdx? p = some pre.length := by
  have hnone : pre.findIdx? p = none := List.findIdx?_eq_none_iff.mpr h
  rw [List.findIdx?_append, hnone, List.findIdx?_cons, hc]
  simp

theorem take_cut (pre : GoString) (c : UInt8) (post : GoString) :
    (pre ++ c :: post).take pre.length = pre := List.take_left

theorem drop_cut (pre : GoString) (c : UInt8) (post : GoString) :
    (pre ++ c :: post).drop (pre.length + 1) = post := by
  rw [← List.drop_drop, List.drop_left, List.drop_one, List.tail_cons]

/-! ## 2. `strconv.ParseInt` and `big.Int.SetString` -/

/-- The two errors of `strconv`, `ErrSyntax` and `ErrRange`. -/
inductive NumError where
  | errSyntax
  | errRange
  deriving DecidableEq, Repr

/-- The loop of `strconv.ParseUint`: digits one by one, the value bounded by `maxVal`. -/
def parseUintLoop (maxVal : Nat) : GoString → Nat → Except NumError Nat
  | [], n => .ok n
  | c :: s, n =>
    if !isDigit c then .error .errSyntax
    else if maxVal < snocDigit n c then .error .errRange
    else parseUintLoop maxVal s (snocDigit n c)

/-- `strconv.ParseUint(s, 10, bitSize)`. -/
def parseUint (s : GoString) (bitSize : Nat) : Except NumError Nat :=
  if s = [] then .error .errSyntax else parseUintLoop (2 ^ bitSize - 1) s 0

/-- The sign the integer parsers read off the front. -/
def cutSign : GoString → Sign × GoString
  | 43 :: s => (.plus, s)
  | 45 :: s => (.minus, s)
  | s => (.absent, s)

/-- `strconv.ParseInt(s, 10, bitSize)`. -/
def parseInt (s : GoString) (bitSize : Nat) : Except NumError Int :=
  let (sg, ds) := cutSign s
  match parseUint ds bitSize with
  | .error e => .error e
  | .ok un =>
    if sg ≠ .minus ∧ 2 ^ (bitSize - 1) ≤ un then .error .errRange
    else if sg = .minus ∧ 2 ^ (bitSize - 1) < un then .error .errRange
    else .ok (sg.apply un)

/-- `big.Int.SetString(s, 10)`. -/
def setString (s : GoString) : Option Int :=
  let (sg, ds) := cutSign s
  if ds = [] ∨ ds.any (fun c => !isDigit c) then none else some (sg.apply (digitsVal ds))

/-! ## 3. What they accept -/

/-- The sign and the rest make up the string. -/
theorem cutSign_eq (s : GoString) : s = (cutSign s).1.text ++ (cutSign s).2 := by
  unfold cutSign
  split <;> rfl

/-- A digit is no sign. -/
theorem cutSign_cons (sg : Sign) {c : UInt8} (hc : isDigit c = true) (s : GoString) :
    cutSign (sg.text ++ c :: s) = (sg, c :: s) := by
  cases sg with
  | plus => rfl
  | minus => rfl
  | absent =>
      show cutSign (c :: s) = _
      unfold cutSign
      split
      · rename_i e
        cases e
        cases hc
      · rename_i e
        cases e
        cases hc
      · rfl

theorem cutSign_text (sg : Sign) {ds : GoString} (h : Digits ds) :
    cutSign (sg.text ++ ds) = (sg, ds) := by
  cases ds with
  | nil => exact absurd rfl h.1
  | cons c s => exact cutSign_cons sg (h.2 c (List.mem_cons_self ..)) s

/-- **`SetString` accepts exactly the signed digit strings**, with their value. -/
theorem setString_iff (s : GoString) (n : Int) : setString s = some n ↔ SignedDigits s n := by
  constructor
  · intro h
    refine ⟨(cutSign s).1, (cutSign s).2, cutSign_eq s, ?_⟩
    simp only [setString] at h
    split at h
    · cases h
    · rename_i hd
      simp only [not_or, List.any_eq_true, Bool.not_eq_true', not_exists, not_and,
        Bool.not_eq_false] at hd
      exact ⟨hd, (Option.some.inj h).symm⟩
  · rintro ⟨sg, ds, rfl, hd, rfl⟩
    have hany : ¬(ds = [] ∨ ds.any (fun c => !isDigit c) = true) := by
      simp only [not_or, List.any_eq_true, Bool.not_eq_true', not_exists, not_and,
        Bool.not_eq_false]
      exact hd
    simp only [setString, cutSign_text sg hd]
    exact if_neg hany

/-- The loop only grows the value. -/
theorem le_foldl_snocDigit (s : GoString) (n : Nat) : n ≤ s.foldl snocDigit n := by
  rw [foldl_snocDigit]
  have := Nat.le_mul_of_pos_right n (Nat.pow_pos (n := s.length) (show 0 < 10 by norm_num))
  omega

/-- The loop ends well exactly on digits whose value is within the bound. -/
theorem parseUintLoop_iff {maxVal : Nat} (s : GoString) {n : Nat} (hn : n ≤ maxVal) (m : Nat) :
    parseUintLoop maxVal s n = .ok m ↔
      (∀ c ∈ s, isDigit c = true) ∧ m = s.foldl snocDigit n ∧ m ≤ maxVal := by
  induction s generalizing n with
  | nil =>
      simp only [parseUintLoop, List.foldl_nil, Except.ok.injEq]
      constructor
      · rintro rfl
        exact ⟨fun _ h => absurd h List.not_mem_nil, rfl, hn⟩
      · rintro ⟨_, rfl, _⟩
        rfl
  | cons c s ih =>
      simp only [parseUintLoop, List.forall_mem_cons, List.foldl_cons]
      by_cases hc : isDigit c = true
      · by_cases hm : maxVal < snocDigit n c
        · rw [if_neg (by simp [hc]), if_pos hm]
          have hle := le_foldl_snocDigit s (snocDigit n c)
          constructor
          · intro h
            cases h
          · rintro ⟨_, rfl, h⟩
            omega
        · rw [if_neg (by simp [hc]), if_neg hm, ih (Nat.le_of_not_lt hm)]
          simp [hc]
      · rw [if_pos (by simp [hc])]
        constructor
        · intro h
          cases h
        · rintro ⟨⟨h, _⟩, _⟩
          exact absurd h hc

theorem parseUint_iff (s : GoString) (bitSize m : Nat) :
    parseUint s bitSize = .ok m ↔ Digits s ∧ m = digitsVal s ∧ m < 2 ^ bitSize := by
  have hp : 0 < 2 ^ bitSize := Nat.pow_pos (by norm_num)
  unfold parseUint
  by_cases hs : s = []
  · rw [if_pos hs]
    constructor
    · intro h
      cases h
    · rintro ⟨h, _⟩
      exact absurd hs h.1
  · rw [if_neg hs, parseUintLoop_iff s (Nat.zero_le _)]
    constructor
    · rintro ⟨hd, hm, hle⟩
      exact ⟨⟨hs, hd⟩, hm, by omega⟩
    · rintro ⟨hd, hm, hlt⟩
      exact ⟨hd.2, hm, by omega⟩

/-- The value fits a signed integer of `bitSize` bits. -/
def FitsInt (bitSize : Nat) (n : Int) : Prop := -2 ^ (bitSize - 1) ≤ n ∧ n < 2 ^ (bitSize - 1)

instance (bitSize : Nat) (n : Int) : Decidable (FitsInt bitSize n) :=
  inferInstanceAs (Decidable (_ ∧ _))

/-- The range checks after `ParseUint`: the bound on the magnitude depends on the sign. -/
theorem fitsInt_apply (sg : Sign) (bitSize un : Nat) :
    FitsInt bitSize (sg.apply un) ↔
      ¬(sg ≠ .minus ∧ 2 ^ (bitSize - 1) ≤ un) ∧ ¬(sg = .minus ∧ 2 ^ (bitSize - 1) < un) := by
  have hc : ((2 ^ (bitSize - 1) : Nat) : Int) = 2 ^ (bitSize - 1) := by push_cast; rfl
  have hp : 0 < 2 ^ (bitSize - 1) := Nat.pow_pos (by norm_num)
  unfold FitsInt
  rw [← hc]
  cases sg <;> simp [Sign.apply] <;> omega

/-- **`ParseInt` accepts exactly the signed digit strings whose value fits.** -/
theorem parseInt_iff (s : GoString) {bitSize : Nat} (hb : 0 < bitSize) (n : Int) :
    parseInt s bitSize = .ok n ↔ SignedDigits s n ∧ FitsInt bitSize n := by
  have hpow : (2 : Nat) ^ bitSize = 2 * 2 ^ (bitSize - 1) := by
    obtain ⟨k, rfl⟩ : ∃ k, bitSize = k + 1 := ⟨bitSize - 1, by omega⟩
    rw [Nat.pow_succ, Nat.add_sub_cancel, Nat.mul_comm]
  constructor
  · intro h
    simp only [parseInt] at h
    cases hu : parseUint (cutSign s).2 bitSize with
    | error e =>
        rw [hu] at h
        cases h
    | ok un =>
        obtain ⟨hd, rfl, _⟩ := (parseUint_iff _ _ _).mp hu
        simp only [hu] at h
        split at h
        · cases h
        · split at h
          · cases h
          · rename_i h₁ h₂
            cases h
            exact ⟨⟨_, _, cutSign_eq s, hd, rfl⟩, (fitsInt_apply _ _ _).mpr ⟨h₁, h₂⟩⟩
  · rintro ⟨⟨sg, ds, rfl, hd, rfl⟩, hf⟩
    obtain ⟨h₁, h₂⟩ := (fitsInt_apply _ _ _).mp hf
    have hlt : digitsVal ds < 2 ^ bitSize := by
      have hp : 0 < 2 ^ (bitSize - 1) := Nat.pow_pos (by norm_num)
      by_cases hsg : sg = .minus
      · have := not_and.mp h₂ hsg
        omega
      · have := not_and.mp h₁ hsg
        omega
    have hu := (parseUint_iff ds bitSize _).mpr ⟨hd, rfl, hlt⟩
    simp only [parseInt, cutSign_text sg hd, hu]
    rw [if_neg h₁, if_neg h₂]

end BankingService
