/-
  File:      BankingService/Lib/Numeral.lean
  Subject:   NUMERALS OF A FIXED WIDTH in any base, most significant digit first, and their
             lexicographic order.

  * `value_numeral`, `numeral_value` -- the numbers below `b ^ w` and the digit lists of length `w`
    are the same thing;
  * **`lt_iff_value_lt`** -- and the lexicographic order of the lists is the order of the numbers;
  * `append_lt_append_iff`, `map_lt_map_iff` -- how the order goes through a concatenation and
    through an alphabet for the digits.
-/
import Mathlib.Data.List.Induction
import Mathlib.Tactic.Ring

namespace BankingService.Lib

/-! ## 1. Numbers and digits -/

section Digits

variable {b : Nat}

/-- The `w` lowest digits of a number. -/
def numeral (b : Nat) : Nat → Nat → List Nat
  | 0, _ => []
  | w + 1, n => numeral b w (n / b) ++ [n % b]

/-- The number a list of digits denotes. -/
def value (b : Nat) (l : List Nat) : Nat := l.foldl (fun n d => b * n + d) 0

theorem length_numeral (b w n : Nat) : (numeral b w n).length = w := by
  induction w generalizing n with
  | zero => rfl
  | succ w ih => rw [numeral, List.length_append, ih, List.length_singleton]

theorem mem_numeral (hb : 0 < b) {w n d : Nat} (h : d ∈ numeral b w n) : d < b := by
  induction w generalizing n with
  | zero => cases h
  | succ w ih =>
      rcases List.mem_append.mp h with h | h
      · exact ih h
      · rw [List.mem_singleton.mp h]
        exact Nat.mod_lt n hb

/-- The digits one by one. -/
theorem numeral_eq_map (b w n : Nat) :
    numeral b w n = (List.range w).map fun k => n / b ^ (w - 1 - k) % b := by
  induction w generalizing n with
  | zero => rfl
  | succ w ih =>
      rw [numeral, ih, List.range_succ, List.map_append]
      have hlast : [n % b] = [w].map fun k => n / b ^ (w + 1 - 1 - k) % b := by simp
      rw [hlast]
      refine congrArg (· ++ _) (List.map_congr_left fun k hk => ?_)
      have hk := List.mem_range.mp hk
      rw [Nat.div_div_eq_div_mul, ← Nat.pow_succ', show (w - 1 - k).succ = w + 1 - 1 - k by omega]

theorem value_snoc (l : List Nat) (d : Nat) : value b (l ++ [d]) = b * value b l + d := by
  rw [value, List.foldl_append]
  rfl

theorem foldl_value (l : List Nat) (n : Nat) :
    l.foldl (fun n d => b * n + d) n = n * b ^ l.length + value b l := by
  induction l using List.reverseRecOn with
  | nil => simp [value]
  | append_singleton l d ih =>
      rw [List.foldl_append, value_snoc, ih, List.length_append]
      simp only [List.foldl_cons, List.foldl_nil, List.length_singleton]
      ring

theorem value_cons (d : Nat) (l : List Nat) : value b (d :: l) = d * b ^ l.length + value b l := by
  rw [value, List.foldl_cons, foldl_value, Nat.mul_zero, Nat.zero_add]

theorem value_lt {l : List Nat} (h : ∀ d ∈ l, d < b) : value b l < b ^ l.length := by
  induction l with
  | nil => exact Nat.one_pos
  | cons d l ih =>
      have hd : (d + 1) * b ^ l.length ≤ b * b ^ l.length :=
        Nat.mul_le_mul_right _ (h d (List.mem_cons_self ..))
      have hl := ih fun x hx => h x (List.mem_cons_of_mem d hx)
      rw [value_cons, List.length_cons, Nat.pow_succ']
      rw [Nat.add_mul, Nat.one_mul] at hd
      omega

/-- **Reading back what was written.** -/
theorem value_numeral (b w n : Nat) : value b (numeral b w n) = n % b ^ w := by
  induction w generalizing n with
  | zero => rw [Nat.pow_zero, Nat.mod_one]; rfl
  | succ w ih => rw [numeral, value_snoc, ih, Nat.pow_succ', Nat.mod_mul, Nat.add_comm]

/-- **Writing back what was read.** -/
theorem numeral_value {l : List Nat} (h : ∀ d ∈ l, d < b) :
    numeral b l.length (value b l) = l := by
  induction l using List.reverseRecOn with
  | nil => rfl
  | append_singleton l d ih =>
      have hd : d < b := h d (List.mem_append_right _ (List.mem_singleton_self d))
      have hdiv : (b * value b l + d) / b = value b l := by
        rw [Nat.mul_add_div (Nat.zero_lt_of_lt hd), Nat.div_eq_of_lt hd, Nat.add_zero]
      rw [List.length_append, List.length_singleton, numeral, value_snoc, hdiv,
        Nat.mul_add_mod, Nat.mod_eq_of_lt hd, ih fun x hx => h x (List.mem_append_left _ hx)]

end Digits

/-! ## 2. Lexicographic order -/

section Order

variable {α β : Type*} [LT α] [LT β]

/-- Two lists that begin with parts of one length. -/
theorem append_lt_append_iff {l l' : List α} (h : l.length = l'.length) (x y : List α) :
    l ++ x < l' ++ y ↔ l < l' ∨ l = l' ∧ x < y := by
  induction l generalizing l' with
  | nil =>
      obtain rfl : l' = [] := List.length_eq_zero_iff.mp h.symm
      simp
  | cons a l ih =>
      cases l' with
      | nil => cases h
      | cons a' l' =>
          rw [List.cons_append, List.cons_append, List.cons_lt_cons_iff, List.cons_lt_cons_iff,
            ih (Nat.succ.inj h), List.cons.injEq]
          constructor
          · rintro (hlt | ⟨rfl, hlt | ⟨rfl, hlt⟩⟩)
            · exact .inl (.inl hlt)
            · exact .inl (.inr ⟨rfl, hlt⟩)
            · exact .inr ⟨⟨rfl, rfl⟩, hlt⟩
          · rintro ((hlt | ⟨rfl, hlt⟩) | ⟨⟨rfl, rfl⟩, hlt⟩)
            · exact .inl hlt
            · exact .inr ⟨rfl, .inl hlt⟩
            · exact .inr ⟨rfl, .inr ⟨rfl, hlt⟩⟩

/-- An alphabet that respects the order. -/
theorem map_lt_map_iff {f : α → β} {l l' : List α}
    (h : ∀ a ∈ l, ∀ a' ∈ l', (f a < f a' ↔ a < a') ∧ (f a = f a' ↔ a = a')) :
    l.map f < l'.map f ↔ l < l' := by
  induction l generalizing l' with
  | nil => cases l' <;> simp
  | cons a l ih =>
      cases l' with
      | nil => simp
      | cons a' l' =>
          obtain ⟨hlt, heq⟩ := h a (List.mem_cons_self ..) a' (List.mem_cons_self ..)
          rw [List.map_cons, List.map_cons, List.cons_lt_cons_iff, List.cons_lt_cons_iff, hlt, heq,
            ih fun x hx y hy => h x (List.mem_cons_of_mem a hx) y (List.mem_cons_of_mem a' hy)]

/-- **The order of digit lists is the order of the numbers.** -/
theorem lt_iff_value_lt {b : Nat} {l l' : List Nat} (hlen : l.length = l'.length)
    (h : ∀ d ∈ l, d < b) (h' : ∀ d ∈ l', d < b) : l < l' ↔ value b l < value b l' := by
  induction l generalizing l' with
  | nil =>
      obtain rfl : l' = [] := List.length_eq_zero_iff.mp hlen.symm
      simp
  | cons d l ih =>
      cases l' with
      | nil => cases hlen
      | cons d' l' =>
          have hlen := Nat.succ.inj hlen
          have hl := fun x hx => h x (List.mem_cons_of_mem d hx)
          have hl' := fun x hx => h' x (List.mem_cons_of_mem d' hx)
          have hlt := value_lt hl
          have hlt' := value_lt hl'
          rw [List.cons_lt_cons_iff, ih hlen hl hl', value_cons, value_cons, hlen] at *
          -- the first digits decide, unless they are the same
          rcases Nat.lt_trichotomy d d' with hd | rfl | hd
          · have hstep : (d + 1) * b ^ l'.length ≤ d' * b ^ l'.length :=
              Nat.mul_le_mul_right _ hd
            rw [Nat.add_mul, Nat.one_mul] at hstep
            exact iff_of_true (.inl hd) (by omega)
          · simp
          · have hstep : (d' + 1) * b ^ l'.length ≤ d * b ^ l'.length :=
              Nat.mul_le_mul_right _ hd
            rw [Nat.add_mul, Nat.one_mul] at hstep
            refine iff_of_false ?_ (by omega)
            rintro (hlt | ⟨rfl, _⟩) <;> omega

end Order

end BankingService.Lib
