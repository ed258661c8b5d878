/-
  File:      BankingService/Lib/OrderBy.lean
  Subject:   `ORDER BY`, `LIMIT` and `OFFSET` over any rows and any total preorder on them.

  A query may give its rows in any order the listed keys allow: `Ordered le all rows` says that
  `rows` is such an order of the table `all`, `Limited` that it is the beginning of one. Where two
  rows tie, the server chooses.

  * `ordered_unique_iff` -- the server has no choice exactly if no two rows tie;
  * `prefix_stable_iff` -- nor has it, exactly then, for any limit: a longer result only goes on
    where a shorter one stopped;
  * `limited_iff` -- `Limited` in terms of the rows themselves (`FirstRows`, decidable);
  * `page` -- the rows of a list from an offset on; consecutive pages make up the list
    (`flatMap_page`), and different offsets into a list without repetition give different pages
    (`page_offset`);
  * `rank` -- the position of a row (`getElem?_rank`), which only grows with the table
    (`rank_mono`), so that a page has every row from its offset on or is full
    (`mem_page_or_later`).
-/
import Mathlib.Data.List.Sort
import Mathlib.Data.List.Nodup
import Mathlib.Logic.Equiv.Basic

namespace BankingService.Lib

/-! ## 1. Orders of a table -/

section Order

variable {α : Type*} {le : α → α → Prop}

/-- `rows` is a result of `SELECT .. FROM all ORDER BY le`. -/
def Ordered (le : α → α → Prop) (all rows : List α) : Prop := rows.Perm all ∧ rows.Pairwise le

/-- `rows` is a result of `SELECT .. FROM all ORDER BY le LIMIT limit`. -/
def Limited (le : α → α → Prop) (limit : Nat) (all rows : List α) : Prop :=
  ∃ sorted, Ordered le all sorted ∧ rows = sorted.take limit

/-- The same without the rows that were cut off: the rows are sorted, and every row of the table is
    among them or may come after them all. -/
def FirstRows (le : α → α → Prop) (limit : Nat) (all rows : List α) : Prop :=
  rows.length = min limit all.length ∧ rows.Nodup ∧ (∀ a ∈ rows, a ∈ all) ∧ rows.Pairwise le ∧
    ∀ a ∈ all, a ∈ rows ∨ ∀ b ∈ rows, le b a

instance [DecidableEq α] [DecidableRel le] (limit : Nat) (all rows : List α) :
    Decidable (FirstRows le limit all rows) :=
  inferInstanceAs (Decidable (_ ∧ _ ∧ _ ∧ _ ∧ _))

/-- No two rows tie. -/
def Untied (le : α → α → Prop) (all : List α) : Prop :=
  ∀ a ∈ all, ∀ b ∈ all, le a b → le b a → a = b

theorem Ordered.unique {all rows rows' : List α} (hu : Untied le all) (h : Ordered le all rows)
    (h' : Ordered le all rows') : rows = rows' := by
  have hanti : ∀ a b, a ∈ rows → b ∈ rows' → le a b → le b a → a = b := by
    intro a b ha hb
    exact hu a (h.1.subset ha) b (h'.1.subset hb)
  exact (h.1.trans h'.1.symm).eq_of_pairwise hanti h.2 h'.2

variable [Std.Total le] [IsTrans α le]

theorem ordered_insertionSort [DecidableRel le] (all : List α) :
    Ordered le all (all.insertionSort le) :=
  ⟨List.perm_insertionSort le all, List.pairwise_insertionSort le all⟩

theorem exists_ordered (le : α → α → Prop) [Std.Total le] [IsTrans α le] (all : List α) :
    ∃ rows, Ordered le all rows := by
  classical
  exact ⟨_, ordered_insertionSort all⟩

omit [Std.Total le] [IsTrans α le] in
theorem mem_swap [DecidableEq α] {all : List α} {a b : α} (ha : a ∈ all) (hb : b ∈ all) (x : α) :
    Equiv.swap a b x ∈ all ↔ x ∈ all := by
  rw [Equiv.swap_apply_def]
  split
  · rename_i hx
    simp only [hx, ha, hb]
  · split
    · rename_i hx
      simp only [hx, ha, hb]
    · exact Iff.rfl

/-- Two rows that tie can change places. -/
theorem Ordered.swap [DecidableEq α] {all rows : List α} (hn : all.Nodup)
    (h : Ordered le all rows) {a b : α} (ha : a ∈ all) (hb : b ∈ all) (hab : le a b)
    (hba : le b a) : Ordered le all (rows.map (Equiv.swap a b)) := by
  have htie : ∀ x, le x (Equiv.swap a b x) ∧ le (Equiv.swap a b x) x := by
    intro x
    rw [Equiv.swap_apply_def]
    split
    · rename_i hx
      exact hx ▸ ⟨hab, hba⟩
    · split
      · rename_i hx
        exact hx ▸ ⟨hba, hab⟩
      · exact ⟨refl_of le x, refl_of le x⟩
  constructor
  · have hnd : (rows.map (Equiv.swap a b)).Nodup :=
      (h.1.nodup_iff.mpr hn).map (Equiv.swap a b).injective
    refine (List.perm_ext_iff_of_nodup hnd hn).mpr fun x => ?_
    constructor
    · intro hx
      obtain ⟨y, hy, rfl⟩ := List.mem_map.mp hx
      exact (mem_swap ha hb y).mpr (h.1.subset hy)
    · intro hx
      refine List.mem_map.mpr ⟨Equiv.swap a b x, ?_, Equiv.swap_apply_self a b x⟩
      exact h.1.symm.subset ((mem_swap ha hb x).mpr hx)
  · refine List.pairwise_map.mpr (h.2.imp fun {x y} hxy => ?_)
    exact trans_of le (htie x).2 (trans_of le hxy (htie y).1)

/-- **The order is determined exactly if no two rows tie.** -/
theorem ordered_unique_iff {all : List α} (hn : all.Nodup) :
    (∀ rows rows', Ordered le all rows → Ordered le all rows' → rows = rows') ↔ Untied le all := by
  classical
  refine ⟨fun h a ha b hb hab hba => ?_, fun hu rows rows' h h' => h.unique hu h'⟩
  obtain ⟨rows, hrows⟩ := exists_ordered le all
  have hsame := h _ _ hrows (hrows.swap hn ha hb hab hba)
  -- an order that the exchange leaves as it is has `a` where it has `b`
  have hfix : ∀ x ∈ rows, Equiv.swap a b x = x := by
    intro x hx
    exact List.map_inj_left.mp (hsame.symm.trans (List.map_id rows).symm) x hx
  have := hfix a (hrows.1.symm.subset ha)
  rw [Equiv.swap_apply_left] at this
  exact this.symm

/-! ## 2. The beginning of an order -/

/-- Rows that are shown through an injective function show their prefixes. -/
theorem map_prefix_map_iff {β : Type*} {f : α → β} (hf : Function.Injective f) {l l' : List α} :
    l.map f <+: l'.map f ↔ l <+: l' := by
  constructor
  · intro h
    have heq : l.map f = (l'.take l.length).map f := by
      have hlen : (l.map f).length = l.length := List.length_map f
      rw [List.map_take, ← hlen]
      exact List.prefix_iff_eq_take.mp h
    rw [hf.list_map heq]
    exact List.take_prefix ..
  · intro h
    exact h.map f

/-- **A longer result goes on where a shorter one stopped, for every limit, exactly if no two rows
    tie.** -/
theorem prefix_stable_iff {all : List α} (hn : all.Nodup) :
    (∀ k, 1 ≤ k → ∀ rows rows', Limited le k all rows → Limited le (k + 1) all rows' →
      rows <+: rows') ↔ Untied le all := by
  constructor
  · intro h
    refine (ordered_unique_iff hn).mp fun rows rows' hr hr' => ?_
    -- a limit that cuts nothing off
    have hp := h (all.length + 1) (Nat.le_add_left ..) _ _ ⟨rows, hr, rfl⟩ ⟨rows', hr', rfl⟩
    have hl := hr.1.length_eq
    have hl' := hr'.1.length_eq
    rw [List.take_of_length_le (by omega), List.take_of_length_le (by omega)] at hp
    exact hp.eq_of_length (hl.trans hl'.symm)
  · intro hu k _ rows rows' hr hr'
    obtain ⟨sorted, hs, rfl⟩ := hr
    obtain ⟨sorted', hs', rfl⟩ := hr'
    rw [hs.unique hu hs']
    exact List.take_prefix_take_left (Nat.le_succ k)

/-- The same for what an injective function shows of the rows. -/
theorem prefix_stable_map_iff {β : Type*} {f : α → β} (hf : Function.Injective f) {all : List α}
    (hn : all.Nodup) :
    (∀ k, 1 ≤ k → ∀ out out', (∃ rows, Limited le k all rows ∧ out = rows.map f) →
      (∃ rows, Limited le (k + 1) all rows ∧ out' = rows.map f) → out <+: out') ↔
      Untied le all := by
  rw [← prefix_stable_iff hn]
  constructor
  · intro hp k hk rows rows' hr hr'
    exact (map_prefix_map_iff hf).mp (hp k hk _ _ ⟨rows, hr, rfl⟩ ⟨rows', hr', rfl⟩)
  · intro hp k hk out out' ho ho'
    obtain ⟨rows, hr, rfl⟩ := ho
    obtain ⟨rows', hr', rfl⟩ := ho'
    exact (hp k hk rows rows' hr hr').map f

theorem limited_iff {limit : Nat} {all rows : List α} (hn : all.Nodup) :
    Limited le limit all rows ↔ FirstRows le limit all rows := by
  constructor
  · intro h
    obtain ⟨sorted, ⟨hp, hs⟩, rfl⟩ := h
    refine ⟨?_, (hp.nodup_iff.mpr hn).sublist (List.take_sublist ..),
      fun a ha => hp.subset (List.mem_of_mem_take ha), hs.sublist (List.take_sublist ..),
      fun a ha => ?_⟩
    · rw [List.length_take, hp.length_eq]
    · have hin := hp.symm.subset ha
      rw [← List.take_append_drop limit sorted] at hs hin
      rcases List.mem_append.mp hin with hin | hin
      · exact .inl hin
      · exact .inr fun b hb => (List.pairwise_append.mp hs).2.2 b hb a hin
  · intro h
    obtain ⟨hlen, hnd, hsub, hs, hlast⟩ := h
    classical
    obtain ⟨rest, hrest, hsorted⟩ := exists_ordered le (all.filter fun a => decide (a ∉ rows))
    have hcut : ∀ a ∈ rest, a ∈ all ∧ a ∉ rows := by
      intro a ha
      simpa using List.mem_filter.mp (hrest.subset ha)
    have hperm : (rows ++ rest).Perm all := by
      have hnd' : (rows ++ rest).Nodup := by
        refine List.nodup_append.mpr ⟨hnd, hrest.nodup_iff.mpr (hn.filter _), ?_⟩
        intro a ha b hb e
        exact (hcut b hb).2 (e ▸ ha)
      refine (List.perm_ext_iff_of_nodup hnd' hn).mpr fun a => ?_
      constructor
      · intro ha
        rcases List.mem_append.mp ha with ha | ha
        · exact hsub a ha
        · exact (hcut a ha).1
      · intro ha
        by_cases har : a ∈ rows
        · exact List.mem_append_left _ har
        · exact List.mem_append_right _
            (hrest.symm.subset (List.mem_filter.mpr ⟨ha, decide_eq_true har⟩))
    refine ⟨rows ++ rest, ⟨hperm, ?_⟩, ?_⟩
    · refine List.pairwise_append.mpr ⟨hs, hsorted, fun b hb a ha => ?_⟩
      exact (hlast a (hcut a ha).1).resolve_left (hcut a ha).2 b hb
    · have htotal := hperm.length_eq
      rw [List.length_append] at htotal
      rcases Nat.le_total limit all.length with hle | hle
      · rw [List.take_append_of_le_length (by omega), List.take_of_length_le (by omega)]
      · have hnil : rest = [] := List.eq_nil_of_length_eq_zero (by omega)
        rw [hnil, List.append_nil, List.take_of_length_le (by omega)]

end Order

/-! ## 3. Keys -/

section Key

variable {α κ : Type*} [LinearOrder κ]

/-- `ORDER BY key DESC`. -/
def DescBy (key : α → κ) (a b : α) : Prop := key b ≤ key a

instance (key : α → κ) : DecidableRel (DescBy key) := fun _ _ => inferInstanceAs (Decidable (_ ≤ _))

instance (key : α → κ) : Std.Total (DescBy key) := ⟨fun a b => le_total (key b) (key a)⟩

instance (key : α → κ) : IsTrans α (DescBy key) := ⟨fun _ _ _ h h' => le_trans h' h⟩

/-- No two rows tie exactly if their keys differ. -/
theorem untied_descBy_iff {key : α → κ} {all : List α} (hn : all.Nodup) :
    Untied (DescBy key) all ↔ (all.map key).Nodup := by
  rw [List.nodup_map_iff_inj_on hn]
  constructor
  · intro h a ha b hb e
    exact h a ha b hb e.ge e.le
  · intro h a ha b hb hab hba
    exact h a ha b hb (le_antisymm hba hab)

end Key

/-! ## 4. Pages -/

section Page

variable {α : Type*}

/-- `LIMIT limit OFFSET offset`. -/
def page (l : List α) (offset limit : Nat) : List α := (l.drop offset).take limit

/-- The next page goes on where the first rows end. -/
theorem take_append_page (l : List α) (offset limit : Nat) :
    l.take offset ++ page l offset limit = l.take (offset + limit) :=
  (List.take_add ..).symm

/-- **Consecutive pages make up the list.** -/
theorem flatMap_page (l : List α) (limit count : Nat) :
    (List.range count).flatMap (fun j => page l (j * limit) limit) = l.take (count * limit) := by
  induction count with
  | zero => rw [Nat.zero_mul]; rfl
  | succ count ih =>
      rw [List.range_succ, List.flatMap_append, ih, List.flatMap_singleton, take_append_page,
        Nat.succ_mul]

/-- A limit that gives the same page leaves out nothing that the other one gives. -/
theorem page_limit {l : List α} {offset limit limit' : Nat} (hle : limit < limit') :
    page l offset limit = page l offset limit' ↔ l.length ≤ offset + limit := by
  rw [page, page, List.take_eq_take_iff, List.length_drop]
  omega

/-- **The first page is no later one**, but in an empty list. -/
theorem page_offset {l : List α} (hn : l.Nodup) {offset limit limit' : Nat} (ho : 0 < offset)
    (hl : 0 < limit) : page l 0 limit = page l offset limit' ↔ l = [] := by
  constructor
  · intro h
    cases l with
    | nil => rfl
    | cons a l =>
        obtain ⟨limit, rfl⟩ : ∃ n, limit = n + 1 := ⟨limit - 1, by omega⟩
        obtain ⟨offset, rfl⟩ : ∃ n, offset = n + 1 := ⟨offset - 1, by omega⟩
        have ha : a ∈ page (a :: l) (offset + 1) limit' := by
          rw [← h]
          exact List.mem_cons_self ..
        rw [page, List.drop_succ_cons] at ha
        exact absurd (List.mem_of_mem_drop (List.mem_of_mem_take ha)) (List.nodup_cons.mp hn).1
  · intro h
    rw [h, page, page, List.drop_nil, List.drop_nil, List.take_nil, List.take_nil]

end Page

/-! ## 5. Ranks in a growing table -/

section Rank

variable {α : Type*} [DecidableEq α] {le : α → α → Prop} [DecidableRel le]

/-- The number of rows of a table that come before a row. -/
def rank (le : α → α → Prop) [DecidableRel le] (all : List α) (a : α) : Nat :=
  (all.filter fun b => decide (b ≠ a ∧ le b a)).length

/-- A table that gains rows moves a row down, never up. -/
theorem rank_mono {all all' : List α} (hn : all.Nodup) (hsub : ∀ b ∈ all, b ∈ all') (a : α) :
    rank le all a ≤ rank le all' a := by
  refine (List.subperm_of_subset (hn.filter _) fun b hb => ?_).length_le
  obtain ⟨hb, hbefore⟩ := List.mem_filter.mp hb
  exact List.mem_filter.mpr ⟨hsub b hb, hbefore⟩

/-- **The rank is the position**, where no two rows tie. -/
theorem getElem?_rank {all rows : List α} (hn : all.Nodup) (hu : Untied le all)
    (h : Ordered le all rows) {a : α} (ha : a ∈ all) : rows[rank le all a]? = some a := by
  obtain ⟨before, after, rfl⟩ := List.append_of_mem (h.1.symm.subset ha)
  obtain ⟨_, hnd, hdisj⟩ := List.nodup_append.mp (h.1.nodup_iff.mpr hn)
  obtain ⟨_, hs, hle⟩ := List.pairwise_append.mp h.2
  have hbefore : before.filter (fun b => decide (b ≠ a ∧ le b a)) = before := by
    refine List.filter_eq_self.mpr fun b hb => decide_eq_true ⟨?_, ?_⟩
    · exact hdisj b hb a List.mem_cons_self
    · exact hle b hb a List.mem_cons_self
  -- what comes after `a` and could also come before it would tie with it
  have hafter : (a :: after).filter (fun b => decide (b ≠ a ∧ le b a)) = [] := by
    refine List.filter_eq_nil_iff.mpr fun b hb hdec => ?_
    obtain ⟨hne, hba⟩ := of_decide_eq_true hdec
    have hmem : b ∈ after := (List.mem_cons.mp hb).resolve_left hne
    have hball : b ∈ all := h.1.subset (List.mem_append_right _ hb)
    exact hne (hu b hball a ha hba ((List.pairwise_cons.mp hs).1 b hmem))
  have hrank : rank le all a = before.length := by
    rw [rank, ← (h.1.filter _).length_eq, List.filter_append, hbefore, hafter, List.append_nil]
  rw [hrank, List.getElem?_append_right (Nat.le_refl _), Nat.sub_self]
  rfl

/-- **A page from an offset on** has the row, or the row comes later and the page is full, unless
    the row comes before the offset. -/
theorem mem_page_or_later {all rows : List α} (hn : all.Nodup) (hu : Untied le all)
    (h : Ordered le all rows) {a : α} (ha : a ∈ all) {offset : Nat} (ho : offset ≤ rank le all a)
    (limit : Nat) :
    a ∈ page rows offset limit ∨
      (offset + limit ≤ rank le all a ∧ (page rows offset limit).length = limit) := by
  have hget := getElem?_rank hn hu h ha
  rcases Nat.lt_or_ge (rank le all a) (offset + limit) with hlt | hge
  · refine .inl (List.mem_iff_getElem?.mpr ⟨rank le all a - offset, ?_⟩)
    rw [page, List.getElem?_take_of_lt (by omega), List.getElem?_drop, Nat.add_sub_cancel' ho]
    exact hget
  · refine .inr ⟨hge, ?_⟩
    have hlen := (List.getElem?_eq_some_iff.mp hget).1
    rw [page, List.length_take, List.length_drop]
    omega

end Rank

end BankingService.Lib
