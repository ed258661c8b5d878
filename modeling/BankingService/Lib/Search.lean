/-
  File:      BankingService/Lib/Search.lean
  Subject:   BINARY SEARCH for the first index of a range at which a predicate holds, and the search
             for an element of an ascending list by it.

  * `search` -- the loop over a half-open interval, halved until it is empty;
  * **`search_eq`** -- if the predicate is false up to some index and true from there on, that
    index is the result;
  * `searchGe_of_getElem?` -- in a strictly ascending list the search for an element finds its
    position.
-/
import Mathlib.Data.List.Basic
import Mathlib.Order.Lattice

namespace BankingService.Lib

/-- The loop: the answer lies in `[i, j]`. -/
def searchLoop (f : Nat → Bool) : Nat → Nat → Nat → Nat
  | 0, i, _ => i
  | fuel + 1, i, j =>
    if i < j then
      let h := (i + j) / 2
      if f h then searchLoop f fuel i h else searchLoop f fuel (h + 1) j
    else i

/-- The first index below `n` at which `f` holds, `n` if there is none. -/
def search (n : Nat) (f : Nat → Bool) : Nat := searchLoop f n 0 n

theorem searchLoop_eq {f : Nat → Bool} {m : Nat} (below : ∀ k < m, f k = false)
    {fuel i j : Nat} (hfuel : j - i ≤ fuel) (hi : i ≤ m) (hj : m ≤ j)
    (above : ∀ k, m ≤ k → k < j → f k = true) : searchLoop f fuel i j = m := by
  induction fuel generalizing i j with
  | zero =>
      simp only [searchLoop]
      omega
  | succ fuel ih =>
      simp only [searchLoop]
      by_cases hij : i < j
      · rw [if_pos hij]
        by_cases hm : (i + j) / 2 < m
        · rw [below _ hm]
          exact ih (by omega) (by omega) hj above
        · rw [above _ (by omega) (by omega)]
          exact ih (by omega) hi (by omega) fun k hk hk' => above k hk (by omega)
      · rw [if_neg hij]
        omega

/-- **The search finds the point where the predicate turns true.** -/
theorem search_eq {f : Nat → Bool} {n m : Nat} (hm : m ≤ n) (below : ∀ k < m, f k = false)
    (above : ∀ k, m ≤ k → k < n → f k = true) : search n f = m :=
  searchLoop_eq below (Nat.le_of_eq (Nat.sub_zero n)) (Nat.zero_le m) hm above

section List

variable {α : Type} [LinearOrder α]

/-- The first position of a list whose element is at least `x`. -/
def searchGe (l : List α) (x : α) : Nat :=
  search l.length fun i => (l[i]?).any fun y => decide (x ≤ y)

/-- An element of an ascending list is found at its position. -/
theorem searchGe_of_getElem? {l : List α} (hl : l.Pairwise (· < ·)) {k : Nat} {x : α}
    (hk : l[k]? = some x) : searchGe l x = k := by
  obtain ⟨hlt, rfl⟩ := List.getElem?_eq_some_iff.mp hk
  refine search_eq (Nat.le_of_lt hlt) (fun i hi => ?_) fun i hi hi' => ?_
  · have hx : l[i] < l[k] := List.pairwise_iff_getElem.mp hl i k (Nat.lt_trans hi hlt) hlt hi
    rw [List.getElem?_eq_getElem (Nat.lt_trans hi hlt), Option.any_some]
    exact decide_eq_false (not_le.mpr hx)
  · rw [List.getElem?_eq_getElem hi', Option.any_some]
    refine decide_eq_true ?_
    rcases Nat.eq_or_lt_of_le hi with rfl | hlt'
    · exact le_rfl
    · exact (List.pairwise_iff_getElem.mp hl k i hlt hi' hlt').le

end List

end BankingService.Lib
