/-
  File:      BankingService/Uuid/Text.lean
  Subject:   UUIDS AS TEXT: `String` and `Parse` of `github.com/google/uuid`.

  The canonical text is the 32 hexadecimal digits of the number with four dashes. `Parse` goes by
  the length of its argument and is the reader of the path segments and of the id fields of a body.

  * **`parse_iff`** -- exactly the strings `Parse` accepts, and the UUID it gives for each: the
    canonical text, in any case, alone, after `urn:uuid:` or between any two bytes, or the digits
    without the dashes; so `Parse` inverts `String`;
  * **`lock_order`** -- the order of the canonical texts, in which `LockAccountsForUpdate` sorts its
    ids and the server locks their rows, is the order of the numbers.
-/
import BankingService.Http.Handlers
import BankingService.Lib.Numeral
import BankingService.Lib.OrderBy
import BankingService.Proof.System

namespace BankingService

open Lib

/-! ## 1. Digits -/

/-- The 32 digits of a UUID. -/
def UUID.digits (u : UUID) : GoString := (numeral 16 32 u.toNat).map hexDigit

/-- ASCII letters in lower case. -/
def lower (s : GoString) : GoString := s.map lowerByte

theorem UUID.length_digits (u : UUID) : u.digits.length = 32 := by
  rw [UUID.digits, List.length_map, length_numeral]

theorem UUID.digits_eq (u : UUID) :
    u.digits = (List.range 32).map fun k => hexDigit (u.toNat / 16 ^ (31 - k) % 16) := by
  rw [UUID.digits, numeral_eq_map, List.map_map]
  rfl

/-- A digit is read in either case. -/
theorem hexValue_iff (b : UInt8) (d : Nat) :
    hexValue b = some d ↔ d < 16 ∧ lowerByte b = hexDigit d := by
  have hall : ∀ n : Fin 256, hexValue (UInt8.ofNat n) =
      (List.range 16).find? fun d => lowerByte (UInt8.ofNat n) = hexDigit d := by decide +kernel
  have hinj : ∀ d < 16, ∀ d' < 16, hexDigit d = hexDigit d' → d = d' := by decide
  have hb := hall ⟨b.toNat, b.toNat_lt⟩
  rw [UInt8.ofNat_toNat] at hb
  rw [hb]
  constructor
  · intro h
    exact ⟨List.mem_range.mp (List.mem_of_find?_eq_some h),
      by simpa using List.find?_some h⟩
  · rintro ⟨hd, e⟩
    cases hf : (List.range 16).find? fun d => lowerByte b = hexDigit d with
    | none => exact absurd e (by simpa using List.find?_eq_none.mp hf d (List.mem_range.mpr hd))
    | some d' =>
        have hd' := List.mem_range.mp (List.mem_of_find?_eq_some hf)
        have e' : lowerByte b = hexDigit d' := by simpa using List.find?_some hf
        rw [hinj d' hd' d hd (e'.symm.trans e)]

theorem hexNumber_snoc (s : GoString) (b : UInt8) :
    hexNumber (s ++ [b]) =
      (hexNumber s).bind fun n => (hexValue b).map fun d => 16 * n + d := by
  rw [hexNumber, List.foldl_append]
  rfl

/-- **Reading hexadecimal digits.** -/
theorem hexNumber_iff {s : GoString} {n : Nat} :
    hexNumber s = some n ↔
      ∃ ds, (∀ d ∈ ds, d < 16) ∧ lower s = ds.map hexDigit ∧ value 16 ds = n := by
  induction s using List.reverseRecOn generalizing n with
  | nil =>
      constructor
      · intro h
        exact ⟨[], fun _ hd => absurd hd List.not_mem_nil, rfl, Option.some.inj h⟩
      · rintro ⟨ds, _, hds, rfl⟩
        rw [List.map_eq_nil_iff.mp hds.symm]
        rfl
  | append_singleton s b ih =>
      rw [hexNumber_snoc, Option.bind_eq_some_iff]
      constructor
      · rintro ⟨m, hm, h⟩
        obtain ⟨d, hd, rfl⟩ := Option.map_eq_some_iff.mp h
        obtain ⟨ds, hds, hs, rfl⟩ := ih.mp hm
        obtain ⟨hlt, hb⟩ := (hexValue_iff b d).mp hd
        refine ⟨ds ++ [d], fun x hx => ?_, ?_, value_snoc ds d⟩
        · rcases List.mem_append.mp hx with hx | hx
          · exact hds x hx
          · rwa [List.mem_singleton.mp hx]
        · rw [lower, List.map_append, List.map_append, ← hs, List.map_singleton,
            List.map_singleton, hb]
          rfl
      · rintro ⟨ds, hds, hs, rfl⟩
        -- the list of digits ends with the one for `b`
        rw [lower, List.map_append] at hs
        obtain ⟨l, l', rfl, hl, hl'⟩ := List.append_eq_map_iff.mp hs
        obtain ⟨d, rfl, hd⟩ := List.map_eq_singleton_iff.mp hl'
        refine ⟨value 16 l, ih.mpr ⟨l, fun x hx => hds x (List.mem_append_left _ hx), hl.symm, rfl⟩,
          ?_⟩
        have hb := (hexValue_iff b d).mpr
          ⟨hds d (List.mem_append_right _ (List.mem_singleton_self d)), hd.symm⟩
        rw [hb, Option.map_some, value_snoc]

/-- **32 digits are one UUID.** -/
theorem hexNumber_digits {s : GoString} (h : s.length = 32) {u : UUID} :
    (hexNumber s).map (BitVec.ofNat 128) = some u ↔ lower s = u.digits := by
  have hpow : 16 ^ 32 = 2 ^ 128 := by norm_num
  rw [Option.map_eq_some_iff]
  constructor
  · rintro ⟨n, hn, rfl⟩
    obtain ⟨ds, hds, hs, rfl⟩ := hexNumber_iff.mp hn
    have hlen : ds.length = 32 := by
      rw [← List.length_map hexDigit, ← hs, lower, List.length_map, h]
    have hlt := value_lt hds
    have hread := numeral_value hds
    rw [hlen] at hlt hread
    rw [hpow] at hlt
    rw [hs, UUID.digits, BitVec.toNat_ofNat, Nat.mod_eq_of_lt hlt, hread]
  · intro hs
    refine ⟨u.toNat, hexNumber_iff.mpr ⟨numeral 16 32 u.toNat, ?_, hs, ?_⟩, by simp⟩
    · exact fun d hd => mem_numeral (by decide) hd
    · rw [value_numeral, hpow, Nat.mod_eq_of_lt u.isLt]

/-! ## 2. Dashes -/

/-- 32 bytes in the groups of the canonical form. -/
@[ext] structure Groups where
  a : GoString
  b : GoString
  c : GoString
  d : GoString
  e : GoString
  sizes : a.length = 8 ∧ b.length = 4 ∧ c.length = 4 ∧ d.length = 4 ∧ e.length = 12

namespace Groups

def plain (g : Groups) : GoString := g.a ++ (g.b ++ (g.c ++ (g.d ++ g.e)))

/-- The groups with a byte between each two. -/
def apart (g : Groups) (x y z w : UInt8) : GoString :=
  g.a ++ x :: (g.b ++ y :: (g.c ++ z :: (g.d ++ w :: g.e)))

def lower (g : Groups) : Groups where
  a := BankingService.lower g.a
  b := BankingService.lower g.b
  c := BankingService.lower g.c
  d := BankingService.lower g.d
  e := BankingService.lower g.e
  sizes := by simpa [BankingService.lower] using g.sizes

theorem lower_plain (g : Groups) : BankingService.lower g.plain = g.lower.plain := by
  simp [plain, lower, BankingService.lower]

theorem lower_apart (g : Groups) (x y z w : UInt8) :
    BankingService.lower (g.apart x y z w) =
      g.lower.apart (lowerByte x) (lowerByte y) (lowerByte z) (lowerByte w) := by
  simp [apart, lower, BankingService.lower]

/-- Any 36 bytes. -/
theorem exists_apart {s : GoString} (h : s.length = 36) :
    ∃ (g : Groups) (x y z w : UInt8), s = g.apart x y z w := by
  refine ⟨⟨s.take 8, (s.drop 9).take 4, (s.drop 14).take 4, (s.drop 19).take 4, s.drop 24,
    by simp [h]⟩, s[8], s[13], s[18], s[23], ?_⟩
  simp only [apart]
  rw [List.getElem_cons_drop, show s.drop 23 = (s.drop 19).drop 4 by rw [List.drop_drop],
    List.take_append_drop, List.getElem_cons_drop,
    show s.drop 18 = (s.drop 14).drop 4 by rw [List.drop_drop], List.take_append_drop,
    List.getElem_cons_drop, show s.drop 13 = (s.drop 9).drop 4 by rw [List.drop_drop],
    List.take_append_drop, List.getElem_cons_drop, List.take_append_drop]

variable {g g' : Groups} {x y z w x' y' z' w' : UInt8}

theorem apart_inj :
    g.apart x y z w = g'.apart x' y' z' w' ↔ g = g' ∧ x = x' ∧ y = y' ∧ z = z' ∧ w = w' := by
  constructor
  · intro h
    obtain ⟨ha, hb, hc, hd, _⟩ := g.sizes
    obtain ⟨ha', hb', hc', hd', _⟩ := g'.sizes
    obtain ⟨e₁, h₁⟩ := List.append_inj h (ha.trans ha'.symm)
    obtain ⟨hx, h₁⟩ := List.cons.inj h₁
    obtain ⟨e₂, h₂⟩ := List.append_inj h₁ (hb.trans hb'.symm)
    obtain ⟨hy, h₂⟩ := List.cons.inj h₂
    obtain ⟨e₃, h₃⟩ := List.append_inj h₂ (hc.trans hc'.symm)
    obtain ⟨hz, h₃⟩ := List.cons.inj h₃
    obtain ⟨e₄, h₄⟩ := List.append_inj h₃ (hd.trans hd'.symm)
    obtain ⟨hw, e₅⟩ := List.cons.inj h₄
    exact ⟨Groups.ext e₁ e₂ e₃ e₄ e₅, hx, hy, hz, hw⟩
  · rintro ⟨rfl, rfl, rfl, rfl, rfl⟩
    rfl

theorem plain_inj : g.plain = g'.plain ↔ g = g' := by
  constructor
  · intro h
    obtain ⟨ha, hb, hc, hd, _⟩ := g.sizes
    obtain ⟨ha', hb', hc', hd', _⟩ := g'.sizes
    obtain ⟨e₁, h₁⟩ := List.append_inj h (ha.trans ha'.symm)
    obtain ⟨e₂, h₂⟩ := List.append_inj h₁ (hb.trans hb'.symm)
    obtain ⟨e₃, h₃⟩ := List.append_inj h₂ (hc.trans hc'.symm)
    obtain ⟨e₄, e₅⟩ := List.append_inj h₃ (hd.trans hd'.symm)
    exact Groups.ext e₁ e₂ e₃ e₄ e₅
  · rintro rfl
    rfl

theorem parseDashed_apart (g : Groups) (x y z w : UInt8) (r : GoString) :
    parseDashed (g.apart x y z w ++ r) =
      if x = 45 ∧ y = 45 ∧ z = 45 ∧ w = 45 then (hexNumber g.plain).map (BitVec.ofNat 128)
      else none := by
  obtain ⟨ha, hb, hc, hd, he⟩ := g.sizes
  unfold parseDashed
  simp [apart, plain, List.drop_append, List.getElem?_append, List.drop_eq_nil_of_le, ha, hb, hc,
    hd, he]

end Groups

/-- The groups of a UUID's digits. -/
theorem UUID.exists_groups (u : UUID) :
    ∃ g : Groups, u.digits = g.plain ∧ u.text = g.apart 45 45 45 45 := by
  have hex : ∀ i n, ((List.range n).map fun k =>
      hexDigit (u.toNat / 16 ^ (31 - (i + k)) % 16)).length = n := fun i n => by simp
  refine ⟨⟨_, _, _, _, _, hex 0 8, hex 8 4, hex 12 4, hex 16 4, hex 20 12⟩, ?_, ?_⟩
  · rw [UUID.digits_eq]
    rfl
  · simp only [UUID.text, Groups.apart, List.append_assoc, List.cons_append,
      List.nil_append]

theorem lowerByte_dash (b : UInt8) : lowerByte b = 45 ↔ b = 45 := by
  have hall : ∀ n : Fin 256, lowerByte (UInt8.ofNat n) = 45 ↔ UInt8.ofNat n = 45 := by
    decide +kernel
  have hb := hall ⟨b.toNat, b.toNat_lt⟩
  rwa [UInt8.ofNat_toNat] at hb

/-- **36 bytes with dashes are one UUID**; what follows does not matter. -/
theorem parseDashed_iff {s : GoString} (h : s.length = 36) (r : GoString) {u : UUID} :
    parseDashed (s ++ r) = some u ↔ lower s = u.text := by
  obtain ⟨g, x, y, z, w, rfl⟩ := Groups.exists_apart h
  obtain ⟨g', hdigits, htext⟩ := u.exists_groups
  have hlen : g.plain.length = 32 := by
    obtain ⟨ha, hb, hc, hd, he⟩ := g.sizes
    simp [Groups.plain, ha, hb, hc, hd, he]
  rw [Groups.parseDashed_apart, htext, Groups.lower_apart, Groups.apart_inj, lowerByte_dash,
    lowerByte_dash, lowerByte_dash, lowerByte_dash]
  have hnum := @hexNumber_digits _ hlen u
  rw [hdigits, Groups.lower_plain, Groups.plain_inj] at hnum
  split
  · rename_i hdash
    rw [hnum]
    exact ⟨fun e => ⟨e, hdash⟩, fun e => e.1⟩
  · rename_i hdash
    exact iff_of_false (by simp) fun e => hdash e.2

/-! ## 3. `Parse` -/

theorem UUID.length_text (u : UUID) : u.text.length = 36 := by
  obtain ⟨g, _, htext⟩ := u.exists_groups
  obtain ⟨ha, hb, hc, hd, he⟩ := g.sizes
  simp [htext, Groups.apart, ha, hb, hc, hd, he]

theorem length_lower (s : GoString) : (lower s).length = s.length := List.length_map lowerByte

theorem lower_append (s t : GoString) : lower (s ++ t) = lower s ++ lower t := List.map_append

/-- `String` writes its letters in lower case. -/
theorem UUID.lower_text (u : UUID) : lower u.text = u.text := by
  have hhex : ∀ n < 16, lowerByte (hexDigit n) = hexDigit n := by decide
  have hdigit : ∀ n, lowerByte (hexDigit (n % 16)) = hexDigit (n % 16) := fun n =>
    hhex _ (Nat.mod_lt _ (by decide))
  have hdash : lowerByte 45 = 45 := by decide
  simp [lower, UUID.text, Function.comp_def, hdigit, hdash]

section Parse

variable {s : GoString} {u : UUID}

theorem parse_dashed (h : s.length = 36) : UUID.parse s = some u ↔ lower s = u.text := by
  have hiff := @parseDashed_iff s h [] u
  rw [List.append_nil] at hiff
  rw [UUID.parse, if_pos h, hiff]

theorem parse_urn (h : s.length = 45) :
    UUID.parse s = some u ↔ lower s = bytes "urn:uuid:" ++ u.text := by
  have hrest : (s.drop 9).length = 36 := by rw [List.length_drop, h]
  have hiff := @parseDashed_iff _ hrest [] u
  rw [List.append_nil] at hiff
  have hsplit : lower s = (s.take 9).map lowerByte ++ lower (s.drop 9) := by
    rw [← lower, ← lower_append, List.take_append_drop]
  have hlen : ((s.take 9).map lowerByte).length = (bytes "urn:uuid:").length := by
    rw [List.length_map, List.length_take, h]
    decide
  rw [UUID.parse, if_neg (by omega), if_pos h, hsplit]
  split
  · rename_i hpre
    rw [hiff, hpre, List.append_right_inj]
  · rename_i hpre
    exact iff_of_false (by simp) fun e => hpre (List.append_inj e hlen).1

theorem parse_braced (h : s.length = 38) :
    UUID.parse s = some u ↔ ∃ a t b, s = a :: (t ++ [b]) ∧ lower t = u.text := by
  obtain ⟨a, rest, rfl⟩ := List.exists_cons_of_length_eq_add_one h
  obtain ⟨t, b, rfl⟩ : ∃ t b, rest = t ++ [b] :=
    ⟨_, _, (List.dropLast_append_getLast (List.ne_nil_of_length_pos (by simp at h; omega))).symm⟩
  have hlen : t.length = 36 := by simpa using h
  rw [UUID.parse, if_neg (by omega), if_neg (by omega), if_pos h]
  show parseDashed (t ++ [b]) = some u ↔ _
  rw [parseDashed_iff hlen]
  constructor
  · exact fun e => ⟨a, t, b, rfl, e⟩
  · rintro ⟨a', t', b', e, hlow⟩
    obtain ⟨_, e⟩ := List.cons.inj e
    rwa [(List.append_inj' e rfl).1]

theorem parse_plain (h : s.length = 32) : UUID.parse s = some u ↔ lower s = u.digits := by
  rw [UUID.parse, if_neg (by omega), if_neg (by omega), if_neg (by omega), if_pos h,
    hexNumber_digits h]

end Parse

/-- **The strings `Parse` accepts.** In any case: the canonical text, alone or after `urn:uuid:`, or
    between two bytes that can be any, not only braces; or the digits without the dashes. And for
    each of them it gives the UUID it is the text of, so that it inverts `String`. -/
theorem parse_iff (s : GoString) (u : UUID) :
    (UUID.parse s = some u ↔
      lower s = u.text ∨ lower s = bytes "urn:uuid:" ++ u.text ∨
      (∃ a t b, s = a :: (t ++ [b]) ∧ lower t = u.text) ∨ lower s = u.digits) ∧
    UUID.parse u.text = some u := by
  -- each form has a length of its own
  have length_of : ∀ {t : GoString}, lower s = t → s.length = t.length := fun e => by
    rw [← e, length_lower]
  have hdashed : lower s = u.text → s.length = 36 := fun e => (length_of e).trans u.length_text
  have hurn : lower s = bytes "urn:uuid:" ++ u.text → s.length = 45 := fun e => by
    rw [length_of e, List.length_append, u.length_text]
    decide
  have hbraced : (∃ a t b, s = a :: (t ++ [b]) ∧ lower t = u.text) → s.length = 38 := by
    rintro ⟨a, t, b, rfl, e⟩
    rw [List.length_cons, List.length_append, ← length_lower t, e, u.length_text,
      List.length_singleton]
  have hplain : lower s = u.digits → s.length = 32 := fun e => (length_of e).trans u.length_digits
  refine ⟨⟨?_, ?_⟩, (parse_dashed u.length_text).mpr u.lower_text⟩
  · intro h
    by_cases h36 : s.length = 36
    · exact .inl ((parse_dashed h36).mp h)
    by_cases h45 : s.length = 45
    · exact .inr (.inl ((parse_urn h45).mp h))
    by_cases h38 : s.length = 38
    · exact .inr (.inr (.inl ((parse_braced h38).mp h)))
    by_cases h32 : s.length = 32
    · exact .inr (.inr (.inr ((parse_plain h32).mp h)))
    · rw [UUID.parse, if_neg h36, if_neg h45, if_neg h38, if_neg h32] at h
      cases h
  · rintro (h | h | h | h)
    · exact (parse_dashed (hdashed h)).mpr h
    · exact (parse_urn (hurn h)).mpr h
    · exact (parse_braced (hbraced h)).mpr h
    · exact (parse_plain (hplain h)).mpr h

/-! ## 4. The order of the texts -/

theorem UUID.digits_lt_iff (u v : UUID) : u.digits < v.digits ↔ u < v := by
  have hmem : ∀ (u : UUID), ∀ d ∈ numeral 16 32 u.toNat, d < 16 := fun u d hd =>
    mem_numeral (by decide) hd
  have hval : ∀ u : UUID, value 16 (numeral 16 32 u.toNat) = u.toNat := fun u => by
    rw [value_numeral, show 16 ^ 32 = 2 ^ 128 by norm_num, Nat.mod_eq_of_lt u.isLt]
  have halphabet : ∀ d < 16, ∀ d' < 16,
      (hexDigit d < hexDigit d' ↔ d < d') ∧ (hexDigit d = hexDigit d' ↔ d = d') := by decide
  rw [UUID.digits, UUID.digits,
    map_lt_map_iff fun d hd d' hd' => halphabet d (hmem u d hd) d' (hmem v d' hd'),
    lt_iff_value_lt (by rw [length_numeral, length_numeral]) (hmem u) (hmem v), hval, hval,
    BitVec.lt_def]

/-- Bytes between the groups do not change the order. -/
theorem Groups.apart_lt_iff (g g' : Groups) (x y z w : UInt8) :
    g.apart x y z w < g'.apart x y z w ↔ g.plain < g'.plain := by
  obtain ⟨ha, hb, hc, hd, _⟩ := g.sizes
  obtain ⟨ha', hb', hc', hd', _⟩ := g'.sizes
  have hcons : ∀ (x : UInt8) (l l' : GoString), x :: l < x :: l' ↔ l < l' := fun x l l' => by
    rw [List.cons_lt_cons_iff]
    simp [UInt8.lt_irrefl]
  simp only [apart, plain]
  rw [append_lt_append_iff (ha.trans ha'.symm), append_lt_append_iff (ha.trans ha'.symm), hcons,
    append_lt_append_iff (hb.trans hb'.symm), append_lt_append_iff (hb.trans hb'.symm), hcons,
    append_lt_append_iff (hc.trans hc'.symm), append_lt_append_iff (hc.trans hc'.symm), hcons,
    append_lt_append_iff (hd.trans hd'.symm), append_lt_append_iff (hd.trans hd'.symm), hcons]

theorem UUID.text_lt_iff (u v : UUID) : u.text < v.text ↔ u < v := by
  obtain ⟨g, hg, ht⟩ := u.exists_groups
  obtain ⟨g', hg', ht'⟩ := v.exists_groups
  rw [ht, ht', Groups.apart_lt_iff, ← hg, ← hg', UUID.digits_lt_iff]

theorem UUID.text_le_iff (u v : UUID) : u.text ≤ v.text ↔ u ≤ v := by
  rw [← List.not_lt, UUID.text_lt_iff, BitVec.not_lt]

instance : Std.Total fun u v : UUID => u ≤ v := ⟨BitVec.le_total⟩

instance : IsTrans UUID fun u v => u ≤ v := ⟨fun _ _ _ => BitVec.le_trans⟩

theorem untied_le (ids : List UUID) : Untied (fun u v : UUID => u ≤ v) ids :=
  fun _ _ _ _ => BitVec.le_antisymm

/-- Sorting by the canonical strings is sorting the numbers. -/
theorem sortIDs_eq (ids : List UUID) : sortIDs ids = ids.insertionSort (· ≤ ·) := by
  have htotal : Std.Total fun u v : UUID => u.text ≤ v.text := ⟨fun u v => by
    rw [UUID.text_le_iff, UUID.text_le_iff]
    exact BitVec.le_total u v⟩
  have htrans : IsTrans UUID fun u v => u.text ≤ v.text := ⟨fun u v w => by
    rw [UUID.text_le_iff, UUID.text_le_iff, UUID.text_le_iff]
    exact BitVec.le_trans⟩
  have hsort : Ordered (fun u v : UUID => u.text ≤ v.text) ids (sortIDs ids) :=
    ordered_insertionSort ids
  exact Ordered.unique (untied_le ids)
    ⟨hsort.1, hsort.2.imp fun h => (UUID.text_le_iff _ _).mp h⟩ (ordered_insertionSort ids)

/-- **The lock order.** In every reachable state, where the collation compares bytes, the lock query
    takes the rows of the ids that exist in the order `LockAccountsForUpdate` has sorted its ids in,
    and this is the order of the numbers; so ids of `NewV7` are locked in the order they were
    made. -/
theorem lock_order {cfg : Config} (hbytes : ∀ u v, cfg.textLe u v = decide (u.text ≤ v.text))
    {now clock : Time} {acts : List Act} {s : St}
    (h : exec cfg (St.start (Db.migrated now) clock) acts = some s) {ids : List UUID}
    (hids : ids.Nodup) :
    lockAccountsForUpdate cfg s.db.toLedger ids =
        (sortIDs ids).filter (fun id => (s.db.account? id).isSome) ∧
      sortIDs ids = ids.insertionSort (· ≤ ·) := by
  refine ⟨?_, sortIDs_eq ids⟩
  have hsorted := lockAccountsForUpdate_sorted cfg (inv_exec (inv_start cfg now clock) h).ledger ids
  have hperm : (sortIDs ids).Perm ids := List.perm_insertionSort _ ids
  have hnodup : ((sortIDs ids).filter fun id => (s.db.account? id).isSome).Nodup :=
    (hperm.nodup_iff.mpr hids).filter _
  -- both are orders of the same ids
  have hsame : ((sortIDs ids).filter fun id => (s.db.account? id).isSome).Perm
      (lockAccountsForUpdate cfg s.db.toLedger ids) := by
    refine (List.perm_ext_iff_of_nodup hnodup (hsorted.imp And.right)).mpr fun id => ?_
    rw [lockAccountsForUpdate_mem, List.mem_filter, hperm.mem_iff, Ledger.account?,
      List.find?_isSome]
    simp
  refine Ordered.unique (untied_le _) ⟨List.Perm.refl _, hsorted.imp fun hle => ?_⟩ ⟨hsame, ?_⟩
  · rw [hbytes, decide_eq_true_eq, UUID.text_le_iff] at hle
    exact hle.1
  · have hnum : Ordered (fun u v : UUID => u ≤ v) ids (ids.insertionSort (· ≤ ·)) :=
      ordered_insertionSort ids
    rw [sortIDs_eq]
    exact hnum.2.filter _

/-- The collation of the migrated configuration compares bytes. -/
theorem migrated_textLe (u v : UUID) : Config.migrated.textLe u v = decide (u.text ≤ v.text) := by
  show decide (u.toNat ≤ v.toNat) = _
  exact decide_eq_decide.mpr (UUID.text_le_iff u v).symm

theorem lock_order_send :
    lockAccountsForUpdate Config.migrated sendEnd.db.toLedger [bobID, 7#128, aliceID] =
      [aliceID, bobID] := by
  rw [(lock_order migrated_textLe sendRun_exec (by decide)).1,
    (lock_order migrated_textLe sendRun_exec (by decide)).2]
  decide +kernel

end BankingService
