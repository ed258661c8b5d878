/-
  File:      BankingService/Props/Pagination.lean
  Subject:   LIMIT AND OFFSET OF `GET /api/transactions`: the page that is asked for, and the page
             that is returned.

  * `atoi_of_fits`, `atoi_of_large` -- a decimal number is read if it fits an `int`;
  * `parseLimit_digits`, `parseOffset_digits` -- one that does not becomes the default: 50 rows, or
    the beginning of the list;
  * `getTransactions_page` -- the page that is returned; `pages_iff` -- when it is the one asked
    for, and then consecutive pages give every transaction once.
-/
import BankingService.Proof.Reads

namespace BankingService

open Lib

/-! ## 1. Decimal numbers -/

section Digits

variable {s : GoString} {n : Nat}

theorem atoi_of_fits (hs : Digits s) (hv : digitsVal s = n) (hn : n < 2 ^ 63) :
    atoi s = .ok (n : Int) := by
  refine (parseInt_iff s (by decide) _).mpr ⟨⟨.absent, s, rfl, hs, ?_⟩, ?_⟩
  · rw [hv]
    rfl
  · unfold FitsInt
    omega

theorem atoi_of_large (hs : Digits s) (hv : digitsVal s = n) (hn : 2 ^ 63 ≤ n) :
    ∃ e, atoi s = .error e := by
  cases h : atoi s with
  | error e => exact ⟨e, rfl⟩
  | ok k =>
      obtain ⟨⟨sg, ds, e, hd, rfl⟩, hfits⟩ := (parseInt_iff s (by decide) k).mp h
      -- digits do not begin with a sign
      have hcut := cutSign_text sg hd
      rw [← e, show cutSign s = (.absent, s) from cutSign_text .absent hs] at hcut
      obtain ⟨rfl, rfl⟩ := Prod.mk.inj hcut
      rw [hv] at hfits
      have hlt : (n : Int) < 2 ^ 63 := hfits.2
      omega

theorem parseLimit_digits (hs : Digits s) (hv : digitsVal s = n) (hn : 1 ≤ n) :
    parseLimit s 50 200 = ((if n < 2 ^ 63 then min n 200 else 50 : Nat) : Int) := by
  unfold parseLimit
  rw [if_neg hs.1]
  split
  · rename_i e he
    have hlarge : ¬n < 2 ^ 63 := by
      intro hlt
      rw [atoi_of_fits hs hv hlt] at he
      cases he
    rw [if_neg hlarge]
    rfl
  · rename_i k hk
    have hlt : n < 2 ^ 63 := by
      by_contra hlarge
      obtain ⟨e, he⟩ := atoi_of_large hs hv (Nat.le_of_not_lt hlarge)
      rw [he] at hk
      cases hk
    rw [atoi_of_fits hs hv hlt] at hk
    cases hk
    rw [if_pos hlt, if_neg (by omega)]
    split <;> omega

theorem parseOffset_digits (hs : Digits s) (hv : digitsVal s = n) :
    parseOffset s = ((if n < 2 ^ 63 then n else 0 : Nat) : Int) := by
  unfold parseOffset
  rw [if_neg hs.1]
  by_cases hlt : n < 2 ^ 63
  · simp only [atoi_of_fits hs hv hlt, if_pos hlt]
    split <;> omega
  · obtain ⟨e, he⟩ := atoi_of_large hs hv (Nat.le_of_not_lt hlt)
    simp only [he, if_neg hlt]
    rfl

end Digits

/-! ## 2. The page that is returned -/

theorem parseKind_text (kind : TransactionKind) : parseKind (bytes kind.text) = some kind := by
  cases kind <;> decide +kernel

theorem listAllTransactions_kindParam (limit offset : GoString) (kind : Option TransactionKind) :
    listAllTransactions ⟨limit, offset, kindParam kind⟩ =
      .ok ⟨parseLimit limit 50 200, parseOffset offset, kind⟩ := by
  cases kind with
  | none => rfl
  | some kind =>
      have hne : kindParam (some kind) ≠ [] := by
        cases kind <;> decide +kernel
      have hk : parseKind (kindParam (some kind)) = some kind := parseKind_text kind
      simp only [listAllTransactions, if_neg hne, hk]

/-- The headers of a kind, or of all kinds. -/
def Ledger.ofKind (L : Ledger) (kind : Option TransactionKind) : List TransactionRow :=
  L.transactions.filter fun t => kind.all fun k => decide (t.kind = k)

section Page

variable {L : Ledger} {kind : Option TransactionKind} {all : List TransactionRow} {n m : Nat}
  {limit offset : GoString}

/-- The only order of the query is the sorted one. -/
theorem sort_ofKind (hpk : (L.transactions.map (·.id)).Nodup)
    (hall : Ordered newestFirst (L.ofKind kind) all) :
    (L.ofKind kind).insertionSort newestFirst = all := by
  have hids : ((L.ofKind kind).map (·.id)).Nodup := hpk.sublist (List.filter_sublist.map _)
  exact (ordered_insertionSort _).unique (newestFirst_untied hids) hall

/-- **The page that is returned** for a limit `n` and an offset `m`. -/
theorem getTransactions_page (hpk : (L.transactions.map (·.id)).Nodup)
    (hall : Ordered newestFirst (L.ofKind kind) all) (hl : Digits limit) (hln : digitsVal limit = n)
    (hn : 1 ≤ n) (ho : Digits offset) (hom : digitsVal offset = m) :
    getTransactions L ⟨limit, offset, kindParam kind⟩ =
      .ok ((page all (if m < 2 ^ 63 then m else 0) (if n < 2 ^ 63 then min n 200 else 50)).map
        L.transactionOf) := by
  have hrows : listTransactions L ⟨parseLimit limit 50 200, parseOffset offset, kind⟩ =
      .ok (page all (if m < 2 ^ 63 then m else 0) (if n < 2 ^ 63 then min n 200 else 50)) := by
    rw [parseLimit_digits hl hln hn, parseOffset_digits ho hom, listTransactions,
      if_neg (Int.not_lt.mpr (Int.natCast_nonneg _)),
      if_neg (Int.not_lt.mpr (Int.natCast_nonneg _)), ← sort_ofKind hpk hall]
    rfl
  rw [getTransactions, listAllTransactions_kindParam]
  simp only [hrows]

/-- The page that is returned is the one that was asked for. -/
theorem page_right_iff (hn : all.Nodup) (hn₁ : 1 ≤ n) :
    page all (if m < 2 ^ 63 then m else 0) (if n < 2 ^ 63 then min n 200 else 50) =
        page all m (min n 200) ↔
      all = [] ∨ m < 2 ^ 63 ∧ (n < 2 ^ 63 ∨ all.length ≤ m + 50) := by
  by_cases hm : m < 2 ^ 63
  · rw [if_pos hm]
    by_cases hlt : n < 2 ^ 63
    · rw [if_pos hlt]
      exact ⟨fun _ => .inr ⟨hm, .inl hlt⟩, fun _ => rfl⟩
    · have hcap : min n 200 = 200 := by omega
      rw [if_neg hlt, hcap, page_limit (by decide)]
      constructor
      · intro h
        exact .inr ⟨hm, .inr h⟩
      · intro h
        rcases h with h | ⟨_, h | h⟩
        · rw [h]
          exact Nat.zero_le _
        · exact absurd h hlt
        · exact h
  · rw [if_neg hm]
    have hpos : 0 < if n < 2 ^ 63 then min n 200 else 50 := by
      split <;> omega
    rw [page_offset hn (by omega) hpos]
    simp only [hm, false_and, or_false]

end Page

/-! ## 3. The page that was asked for -/

/-- **Limit and offset of the listing.** Let `all` be the transactions of a kind (or of all kinds)
    by `created_at` and then `id`, newest first, and let `limit` and `offset` be decimal numbers.

    The list of a response is the page that was asked for, `min n 200` rows from `m` on, exactly if
    there is nothing to list, or if the offset fits an `int` and so does the limit, or the default
    limit reaches the end of the list.

    With a limit that fits an `int`, consecutive pages give every transaction once, as long as their
    offsets fit an `int`. -/
theorem pages_iff (L : Ledger) (hpk : (L.transactions.map (·.id)).Nodup)
    (kind : Option TransactionKind) (all : List TransactionRow)
    (hall : Ordered newestFirst (L.ofKind kind) all) (n m : Nat) (hn : 1 ≤ n)
    (limit offset : GoString) (hl : Digits limit ∧ digitsVal limit = n)
    (ho : Digits offset ∧ digitsVal offset = m) :
    ((∀ txns, Responds L ⟨limit, offset, kindParam kind⟩ (.ok txns) ↔
        txns = (page all m (min n 200)).map L.transactionOf) ↔
      all = [] ∨ m < 2 ^ 63 ∧ (n < 2 ^ 63 ∨ all.length ≤ m + 50)) ∧
    (n < 2 ^ 63 → ∀ count, all.length ≤ count * min n 200 →
      (∀ j < count, j * min n 200 < 2 ^ 63) → ∀ pages : Nat → List Transaction,
      (∀ j < count,
        Responds L ⟨limit, natText (j * min n 200), kindParam kind⟩ (.ok (pages j))) →
      (List.range count).flatMap pages = all.map L.transactionOf) := by
  have hnodup : all.Nodup :=
    hall.1.nodup_iff.mpr (List.Nodup.of_map _ (hpk.sublist (List.filter_sublist.map _)))
  constructor
  · have hget := getTransactions_page hpk hall hl.1 hl.2 hn ho.1 ho.2
    rw [← page_right_iff hnodup hn]
    constructor
    · intro h
      have hresp := (responds_ok_iff ..).mpr hget
      exact L.transactionOf_injective.list_map ((h _).mp hresp)
    · intro h txns
      rw [responds_ok_iff, hget, h, ListResponse.ok.injEq, eq_comm]
  · intro hfits count hcount hoffsets pages hpages
    have hpage : ∀ j ∈ List.range count,
        pages j = (page all (j * min n 200) (min n 200)).map L.transactionOf := by
      intro j hj
      have hj := List.mem_range.mp hj
      have hdig : Digits (natText (j * min n 200)) :=
        ⟨natText_ne_nil _, fun _ => isDigit_natText⟩
      have hget := getTransactions_page hpk hall hl.1 hl.2 hn hdig (digitsVal_natText _)
      rw [(responds_ok_iff ..).mp (hpages j hj), if_pos (hoffsets j hj), if_pos hfits] at hget
      exact ListResponse.ok.inj hget
    rw [List.flatMap_congr hpage, ← List.map_flatMap, flatMap_page, List.take_of_length_le hcount]

/-- The newest two of the three seed deposits. -/
theorem pages_iff_first :
    (∀ txns, Responds (Db.migrated 0).toLedger ⟨bytes "2", bytes "0", kindParam (some .deposit)⟩
        (.ok txns) ↔
      txns = (page (((Db.migrated 0).ofKind (some .deposit)).insertionSort newestFirst) 0
        (min 2 200)).map (Db.migrated 0).transactionOf) ∧
    (((Db.migrated 0).ofKind (some .deposit)).insertionSort newestFirst).map (·.id) =
      [seedDepositID 3, seedDepositID 2, seedDepositID 1] :=
  ⟨(pages_iff (Db.migrated 0).toLedger (by decide +kernel) (some .deposit) _
      (ordered_insertionSort _) 2 0 (by decide) (bytes "2") (bytes "0")
      ⟨⟨by decide, by decide +kernel⟩, by decide +kernel⟩
      ⟨⟨by decide, by decide +kernel⟩, by decide +kernel⟩).1.mpr
    (.inr ⟨by decide, .inl (by decide)⟩), by decide +kernel⟩

/-- **An offset past every row.** The page from 2⁶³ on is empty, and the response is the whole
    list. -/
theorem offset_lost :
    digitsVal (bytes "9223372036854775808") = 2 ^ 63 ∧
      page (((Db.migrated 0).ofKind none).insertionSort newestFirst) (2 ^ 63) 50 = [] ∧
      Responds (Db.migrated 0).toLedger ⟨bytes "50", bytes "9223372036854775808", kindParam none⟩
        (.ok ((((Db.migrated 0).ofKind none).insertionSort newestFirst).map
          (Db.migrated 0).transactionOf)) ∧
      (((Db.migrated 0).ofKind none).insertionSort newestFirst).length = 3 := by
  have hlen : (((Db.migrated 0).ofKind none).insertionSort newestFirst).length = 3 := by
    decide +kernel
  refine ⟨by decide +kernel, ?_, (responds_ok_iff ..).mpr (by decide +kernel), hlen⟩
  rw [page, List.drop_of_length_le (by omega), List.take_nil]

end BankingService
