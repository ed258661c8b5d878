/-
  File:      BankingService/Lib/Table.lean
  Subject:   TABLES AS LISTS OF ROWS WITH A KEY: lookups, updates of some rows in place, and sums of
             a column.

  A table is a list `l : List α` with a key `key : α → κ` that no two rows share
  (`(l.map key).Nodup`).

  * `find_key`, `mem_of_find_key`, `find_key_none` -- the row a lookup by key finds;
    `row_unique`, `filter_key` -- rows with one key are one row; `eq_of_filterMap_nodup` -- the
    same for a column that may be empty.
  * `length_filter_le_one` -- rows that exclude each other.
  * `nodup_key_snoc`, `forall_mem_snoc`, `getElem?_snoc` -- keys, rows and slots after a row is
    appended.
  * `sum_ite_key` -- a column that is `v` in the row with key `k` and 0 elsewhere sums to `v`.
  * `sum_groups` -- a column summed group by group; `sum_eq_zero_of_groups` -- it is 0 if every
    group is.
  * `sum_set_lt` -- a smaller entry in one row lowers the sum.
  * `add_le_sum` -- two rows together are at most the sum when no other row is negative.
-/
import Mathlib.Algebra.BigOperators.Group.List.Basic
import Mathlib.Algebra.Order.BigOperators.Group.List
import Mathlib.Data.List.Dedup
import Mathlib.Tactic.Linarith

namespace BankingService.Lib

variable {α κ : Type} [DecidableEq κ] {key : α → κ}

/-! ## 1. Lookups -/

/-- In a keyed table the lookup of a row's key finds that row. -/
theorem find_key {l : List α} (hn : (l.map key).Nodup) {a : α} (ha : a ∈ l) :
    l.find? (fun b => decide (key b = key a)) = some a := by
  induction l with
  | nil => exact absurd ha List.not_mem_nil
  | cons b l ih =>
      rw [List.map_cons, List.nodup_cons] at hn
      rcases List.mem_cons.mp ha with rfl | hm
      · simp
      · have hb : key b ≠ key a := fun e => hn.1 (e ▸ List.mem_map_of_mem hm)
        rw [List.find?_cons_of_neg (by simpa using hb)]
        exact ih hn.2 hm

theorem mem_of_find_key {l : List α} {k : κ} {a : α}
    (h : l.find? (fun b => decide (key b = k)) = some a) : a ∈ l ∧ key a = k :=
  ⟨List.mem_of_find?_eq_some h, by simpa using List.find?_some h⟩

theorem find_key_none {l : List α} {k : κ} :
    l.find? (fun b => decide (key b = k)) = none ↔ ∀ b ∈ l, key b ≠ k := by
  simp

/-- Two rows of a keyed table with the same key are the same row. -/
theorem row_unique {l : List α} (hn : (l.map key).Nodup) {a b : α} (ha : a ∈ l) (hb : b ∈ l)
    (h : key a = key b) : a = b := by
  have e := find_key hn ha
  rw [h, find_key hn hb] at e
  exact (Option.some.inj e).symm

/-- The rows with the key of a row are that row alone. -/
theorem filter_key {l : List α} (hn : (l.map key).Nodup) {a : α} (ha : a ∈ l) :
    l.filter (fun b => decide (key b = key a)) = [a] := by
  induction l with
  | nil => exact absurd ha List.not_mem_nil
  | cons b l ih =>
      rw [List.map_cons, List.nodup_cons] at hn
      rcases List.mem_cons.mp ha with rfl | hm
      · have hnil : l.filter (fun b => decide (key b = key a)) = [] :=
          List.filter_eq_nil_iff.mpr fun c hc => by
            have : key c ≠ key a := fun e => hn.1 (e ▸ List.mem_map_of_mem hc)
            simpa using this
        simp [hnil]
      · have hb : key b ≠ key a := fun e => hn.1 (e ▸ List.mem_map_of_mem hm)
        rw [List.filter_cons_of_neg (by simpa using hb)]
        exact ih hn.2 hm

omit [DecidableEq κ] in
/-- Two rows with the same entry in a column that holds no entry twice are the same row. -/
theorem eq_of_filterMap_nodup {f : α → Option κ} {l : List α} (hn : (l.filterMap f).Nodup) {a b : α}
    (ha : a ∈ l) (hb : b ∈ l) {k : κ} (hfa : f a = some k) (hfb : f b = some k) : a = b := by
  induction l with
  | nil => exact absurd ha List.not_mem_nil
  | cons x l ih =>
      rw [List.filterMap_cons] at hn
      have hin : ∀ y ∈ l, f y = some k → f x ≠ some k := fun y hy hyk hxk => by
        rw [hxk] at hn
        exact (List.nodup_cons.mp hn).1 (List.mem_filterMap.mpr ⟨y, hy, hyk⟩)
      rcases List.mem_cons.mp ha with rfl | h <;> rcases List.mem_cons.mp hb with rfl | h'
      · rfl
      · exact absurd hfa (hin b h' hfb)
      · exact absurd hfb (hin a h hfa)
      · refine ih ?_ h h'
        cases hx : f x with
        | none => rw [hx] at hn; exact hn
        | some y => rw [hx] at hn; exact (List.nodup_cons.mp hn).2

omit [DecidableEq κ] in
/-- A row with a new key leaves the table keyed. -/
theorem nodup_key_snoc {l : List α} (hn : (l.map key).Nodup) {a : α}
    (h : ∀ b ∈ l, key b ≠ key a) : ((l ++ [a]).map key).Nodup := by
  rw [List.map_append, List.map_singleton, ← List.concat_eq_append]
  refine List.Nodup.concat (fun hm => ?_) hn
  obtain ⟨b, hb, e⟩ := List.mem_map.mp hm
  exact h b hb e

/-- What holds of every row and of the new one holds of every row of the longer table. -/
theorem forall_mem_snoc {P : α → Prop} {l : List α} {a : α} (hl : ∀ b ∈ l, P b) (ha : P a) :
    ∀ b ∈ l ++ [a], P b := by
  intro b hb
  rcases List.mem_append.mp hb with hb | hb
  · exact hl b hb
  · rw [List.mem_singleton.mp hb]
    exact ha

omit [DecidableEq κ] in
/-- A slot of a list with one more row at the end is an old slot or the last one. -/
theorem getElem?_snoc {l : List α} {a b : α} {i : Nat} (h : (l ++ [a])[i]? = some b) :
    l[i]? = some b ∨ l.length = i ∧ b = a := by
  rcases lt_or_ge i l.length with hi | hi
  · rw [List.getElem?_append_left hi] at h
    exact .inl h
  · have hlen := (List.getElem?_eq_some_iff.mp h).1
    rw [List.length_append, List.length_singleton] at hlen
    rw [List.getElem?_append_right hi] at h
    exact .inr ⟨by omega, List.mem_singleton.mp (List.mem_of_getElem? h)⟩

/-- Of a list whose members exclude each other under `P`, at most one has `P`. -/
theorem length_filter_le_one {P : α → Bool} {R : α → α → Prop} {l : List α}
    (h : l.Pairwise R) (hR : ∀ a b, P a = true → P b = true → ¬R a b) :
    (l.filter P).length ≤ 1 := by
  have hp := h.filter P
  have hmem : ∀ a ∈ l.filter P, P a = true := fun a ha => (List.mem_filter.mp ha).2
  match hl : l.filter P with
  | [] => exact Nat.zero_le 1
  | [a] => exact le_rfl
  | a :: b :: rest =>
      rw [hl] at hp hmem
      have hab := List.rel_of_pairwise_cons hp List.mem_cons_self
      exact absurd hab (hR a b (hmem a (by simp)) (hmem b (by simp)))

/-! ## 2. Sums of a column -/

/-- A column that is `v` in the row with key `k` and 0 elsewhere sums to `v`. -/
theorem sum_ite_key {l : List α} (hn : (l.map key).Nodup) {a : α} (ha : a ∈ l) (v : Int) :
    (l.map fun b => if key b = key a then v else 0).sum = v := by
  induction l with
  | nil => exact absurd ha List.not_mem_nil
  | cons b l ih =>
      rw [List.map_cons, List.nodup_cons] at hn
      rw [List.map_cons, List.sum_cons]
      by_cases hb : key b = key a
      · have h0 : (l.map fun b => if key b = key a then v else 0) = l.map fun _ => 0 := by
          refine List.map_congr_left fun c hc => if_neg fun e => hn.1 ?_
          rw [hb, ← e]
          exact List.mem_map_of_mem hc
        rw [if_pos hb, h0]
        simp
      · have hm : a ∈ l := by
          rcases List.mem_cons.mp ha with rfl | hm
          · exact absurd rfl hb
          · exact hm
        rw [if_neg hb, ih hn.2 hm, zero_add]

/-- **A column summed group by group.** The groups are named by the keys of another table. -/
theorem sum_groups {β : Type} {group : β → κ} (val : β → Int) {rows : List α} {l : List β}
    (hn : (rows.map key).Nodup) (h : ∀ b ∈ l, ∃ r ∈ rows, key r = group b) :
    (rows.map fun r => ((l.filter fun b => decide (group b = key r)).map val).sum).sum =
      (l.map val).sum := by
  induction l with
  | nil => simp
  | cons b l ih =>
      obtain ⟨r₀, hr₀, hkey⟩ := h b List.mem_cons_self
      have hsplit : ∀ r, (((b :: l).filter fun b => decide (group b = key r)).map val).sum =
          (if key r = key r₀ then val b else 0) +
            ((l.filter fun b => decide (group b = key r)).map val).sum := by
        intro r
        rw [hkey]
        by_cases hr : group b = key r
        · simp [hr]
        · simp [hr, Ne.symm hr]
      simp only [hsplit]
      rw [List.sum_map_add, sum_ite_key hn hr₀, ih fun b hb => h b (List.mem_cons_of_mem _ hb)]
      rfl

/-- A column whose groups all sum to 0. -/
theorem sum_eq_zero_of_groups {β : Type} {group : β → κ} {val : β → Int} {l : List β}
    (h : ∀ k, ((l.filter fun b => decide (group b = k)).map val).sum = 0) :
    (l.map val).sum = 0 := by
  have hkeys : ((l.map group).dedup.map id).Nodup := by
    rw [List.map_id]
    exact List.nodup_dedup _
  have hcover : ∀ b ∈ l, ∃ k ∈ (l.map group).dedup, id k = group b := fun b hb =>
    ⟨group b, List.mem_dedup.mpr (List.mem_map_of_mem hb), rfl⟩
  rw [← sum_groups val hkeys hcover]
  simp [h]

omit [DecidableEq κ] in
/-- A row replaced by one with a smaller entry lowers the sum. -/
theorem sum_set_lt {l : List α} {i : Nat} {a b : α} (h : l[i]? = some a) {f : α → Nat}
    (hlt : f b < f a) : ((l.set i b).map f).sum < (l.map f).sum := by
  induction l generalizing i with
  | nil => cases h
  | cons c l ih =>
      cases i with
      | zero =>
          cases h
          simpa using hlt
      | succ i => simpa using ih h

/-- Two different rows together are at most the sum when every other row is non-negative. -/
theorem add_le_sum {l : List α} (f : α → Int) {a b : α} (ha : a ∈ l) (hb : b ∈ l) (hab : a ≠ b)
    (hf : ∀ c ∈ l, c ≠ a → c ≠ b → 0 ≤ f c) (hn : l.Nodup) : f a + f b ≤ (l.map f).sum := by
  classical
  have hb' : b ∈ l.erase a := (List.mem_erase_of_ne hab.symm).mpr hb
  have hp : (a :: b :: (l.erase a).erase b).Perm l :=
    ((List.perm_cons_erase hb').symm.cons a).trans (List.perm_cons_erase ha).symm
  have hne : (a :: b :: (l.erase a).erase b).Nodup := hp.nodup_iff.mpr hn
  rw [← (hp.map f).sum_eq, List.map_cons, List.map_cons, List.sum_cons, List.sum_cons]
  have hr : 0 ≤ (((l.erase a).erase b).map f).sum := by
    refine List.sum_nonneg fun x hx => ?_
    obtain ⟨c, hc, rfl⟩ := List.mem_map.mp hx
    have hcl : c ∈ l := hp.subset (List.mem_cons_of_mem _ (List.mem_cons_of_mem _ hc))
    simp only [List.nodup_cons, List.mem_cons, not_or] at hne
    exact hf c hcl (fun e => hne.1.2 (e ▸ hc)) (fun e => hne.2.1 (e ▸ hc))
  linarith

end BankingService.Lib
