/-
  File:      BankingService/Uuid/Version7.lean
  Subject:   `uuid.NewV7` of `github.com/google/uuid`, which makes the ids of accounts and
             transactions and the missing request ids.

  The package keeps one number, `lastV7time`, under a mutex: 48 bits of milliseconds and 12 bits of
  a fraction. Where the clock has not moved on, or has gone back, it is counted up instead. A UUID
  is its 128 bits as a number; `UUID.pack` puts the fields where `makeV7` and `NewRandom` write
  their bytes. An `int64` of nanoseconds is an `Int`: none of the operations here overflows.

  * `getV7Time_spec` -- the time returned is later than every time returned before;
  * **`newV7_ascend`** -- so the ids of one process ascend, whatever its clock does.
-/
import BankingService.Ledger.Types

namespace BankingService

/-! ## 1. The fields of a UUID -/

namespace UUID

/-- 48 bits of time, 4 of version, 12 more, and the lower 64. -/
def pack (time version seq low : Nat) : UUID :=
  BitVec.ofNat 128 (time % 2 ^ 48 * 2 ^ 80 + version % 2 ^ 4 * 2 ^ 76 + seq % 2 ^ 12 * 2 ^ 64 +
    low % 2 ^ 64)

def version (u : UUID) : Nat := u.toNat / 2 ^ 76 % 2 ^ 4

def variant (u : UUID) : Nat := u.toNat / 2 ^ 62 % 2 ^ 2

/-- The time of a version 7 UUID with its fraction, as `lastV7time` stores it. -/
def stamp (u : UUID) : Nat := u.toNat / 2 ^ 80 * 2 ^ 12 + u.toNat / 2 ^ 64 % 2 ^ 12

section Pack

variable (time v seq low : Nat)

theorem toNat_pack :
    (pack time v seq low).toNat =
      time % 2 ^ 48 * 2 ^ 80 + v % 2 ^ 4 * 2 ^ 76 + seq % 2 ^ 12 * 2 ^ 64 + low % 2 ^ 64 := by
  rw [pack, BitVec.toNat_ofNat]
  exact Nat.mod_eq_of_lt (by omega)

theorem version_pack : (pack time v seq low).version = v % 2 ^ 4 := by
  rw [version, toNat_pack]
  omega

theorem variant_pack : (pack time v seq low).variant = low % 2 ^ 64 / 2 ^ 62 := by
  rw [variant, toNat_pack]
  omega

theorem stamp_pack : (pack time v seq low).stamp = time % 2 ^ 48 * 2 ^ 12 + seq % 2 ^ 12 := by
  rw [stamp, toNat_pack]
  omega

end Pack

/-- Two UUIDs of one version are in the order of their times. -/
theorem lt_of_stamp {u u' : UUID} (hv : u.version = u'.version) (h : u.stamp < u'.stamp) :
    u < u' := by
  rw [BitVec.lt_def]
  simp only [stamp, version] at *
  omega

end UUID

/-! ## 2. `NewV7` -/

def nanoPerMilli : Int := 1000000

/-- The two results of `getV7Time`. -/
structure V7Time where
  milli : Int
  seq : Int
  deriving DecidableEq, Repr

/-- `getV7Time`, given the clock's reading and `lastV7time`; its result and the new `lastV7time`.
    `/` and `%` by a power of two are the source's shift and mask. -/
def getV7Time (nano lastV7time : Int) : V7Time × Int :=
  let milli := nano.tdiv nanoPerMilli
  let seq := (nano - milli * nanoPerMilli) / 2 ^ 8
  let now := milli * 2 ^ 12 + seq
  if now ≤ lastV7time then
    (⟨(lastV7time + 1) / 2 ^ 12, (lastV7time + 1) % 2 ^ 12⟩, lastV7time + 1)
  else (⟨milli, seq⟩, now)

/-- `NewRandom`: random bits with the version 4 and the variant 10. -/
def newRandom (bits : BitVec 128) : UUID :=
  UUID.pack (bits.toNat / 2 ^ 80) 4 (bits.toNat / 2 ^ 64) (2 * 2 ^ 62 + bits.toNat % 2 ^ 62)

/-- `makeV7`: the upper 64 bits are written, the lower 64 stay. -/
def makeV7 (u : UUID) (t : V7Time) : UUID :=
  UUID.pack (t.milli % 2 ^ 48).toNat 7 (t.seq % 2 ^ 12).toNat u.toNat

/-- `NewV7`, with the random bits and the clock's reading; the id and the new `lastV7time`. -/
def newV7 (bits : BitVec 128) (nano lastV7time : Int) : UUID × Int :=
  (makeV7 (newRandom bits) (getV7Time nano lastV7time).1, (getV7Time nano lastV7time).2)

/-- Truncated division of a reading before 1970. -/
theorem tdiv_neg {nano : Int} (h : nano < 0) :
    nano.tdiv nanoPerMilli ≤ 0 ∧ nano - nano.tdiv nanoPerMilli * nanoPerMilli ≤ 0 := by
  have hq : (-nano).tdiv nanoPerMilli = -nano / nanoPerMilli :=
    Int.tdiv_eq_ediv_of_nonneg (by omega)
  rw [Int.neg_tdiv] at hq
  unfold nanoPerMilli at *
  omega

/-- **The time is later than the last one**, and it is the pair that is returned. -/
theorem getV7Time_spec (nano : Int) {last : Int} (h : 0 ≤ last) :
    last < (getV7Time nano last).2 ∧
      (getV7Time nano last).2 =
        (getV7Time nano last).1.milli * 2 ^ 12 + (getV7Time nano last).1.seq ∧
      0 ≤ (getV7Time nano last).1.milli ∧ 0 ≤ (getV7Time nano last).1.seq ∧
      (getV7Time nano last).1.seq < 2 ^ 12 := by
  simp only [getV7Time]
  split
  · refine ⟨?_, ?_, ?_, ?_, ?_⟩ <;> dsimp only <;> omega
  · rename_i hlt
    -- a reading before 1970 is never later than the last time
    have hnano : 0 ≤ nano := by
      by_contra hneg
      have := tdiv_neg (not_le.mp hneg)
      omega
    rw [Int.tdiv_eq_ediv_of_nonneg hnano] at hlt ⊢
    simp only [nanoPerMilli] at hlt ⊢
    refine ⟨?_, trivial, ?_, ?_, ?_⟩ <;> omega

section NewV7

variable (bits : BitVec 128) (nano : Int) {last : Int}

theorem newV7_version : (newV7 bits nano last).1.version = 7 :=
  UUID.version_pack ..

theorem newV7_variant : (newV7 bits nano last).1.variant = 2 := by
  simp only [newV7, makeV7, newRandom, UUID.variant_pack, UUID.toNat_pack]
  omega

/-- The id carries the time it was made at. -/
theorem newV7_stamp (h : 0 ≤ last) (hend : (newV7 bits nano last).2 < 2 ^ 60) :
    ((newV7 bits nano last).1.stamp : Int) = (newV7 bits nano last).2 := by
  obtain ⟨_, heq, hm, hs, hs'⟩ := getV7Time_spec nano h
  simp only [newV7, makeV7, UUID.stamp_pack] at *
  omega

theorem newV7_last (h : 0 ≤ last) : last < (newV7 bits nano last).2 :=
  (getV7Time_spec nano h).1

/-- The time is later than every millisecond the clock has left behind. -/
theorem newV7_after (last : Int) {nano t : Int} (h : 0 ≤ t) (ht : (t + 1) * nanoPerMilli ≤ nano) :
    t * 2 ^ 12 < (newV7 bits nano last).2 := by
  have hnano : 0 ≤ nano := by
    unfold nanoPerMilli at ht
    omega
  simp only [newV7, getV7Time]
  rw [Int.tdiv_eq_ediv_of_nonneg hnano]
  unfold nanoPerMilli at *
  split <;> dsimp only <;> omega

end NewV7

/-! ## 3. The ids of a process -/

/-- The ids of a number of calls of `NewV7`, each with its random bits and its reading of the clock,
    and `lastV7time` after them. -/
def newV7s : List (BitVec 128 × Int) → Int → List UUID × Int
  | [], last => ([], last)
  | (bits, nano) :: calls, last =>
    let (u, last) := newV7 bits nano last
    let (us, last) := newV7s calls last
    (u :: us, last)

theorem newV7s_cons (bits : BitVec 128) (nano : Int) (calls : List (BitVec 128 × Int)) (last : Int) :
    newV7s ((bits, nano) :: calls) last =
      ((newV7 bits nano last).1 :: (newV7s calls (newV7 bits nano last).2).1,
        (newV7s calls (newV7 bits nano last).2).2) := rfl

theorem newV7s_last (calls : List (BitVec 128 × Int)) {last : Int} (h : 0 ≤ last) :
    last ≤ (newV7s calls last).2 := by
  induction calls generalizing last with
  | nil => exact le_refl _
  | cons call calls ih =>
      have hlt := newV7_last call.1 call.2 h
      exact hlt.le.trans (ih (h.trans hlt.le))

/-- **The ids of a process ascend.** However the clock jumps and whatever the random bits are, each
    id is greater than all before it; all are version 7 UUIDs, later than the start. The times fit
    their 60 bits until the year 10889. -/
theorem newV7_ascend (calls : List (BitVec 128 × Int)) {last : Int} (h : 0 ≤ last)
    (hend : (newV7s calls last).2 < 2 ^ 60) :
    (newV7s calls last).1.Pairwise (· < ·) ∧
      ∀ u ∈ (newV7s calls last).1, u.version = 7 ∧ u.variant = 2 ∧ last < u.stamp := by
  induction calls generalizing last with
  | nil => exact ⟨List.Pairwise.nil, fun _ hu => absurd hu List.not_mem_nil⟩
  | cons call calls ih =>
      obtain ⟨bits, nano⟩ := call
      rw [newV7s_cons] at hend ⊢
      have hlt := newV7_last bits nano h
      have hlast := newV7s_last calls (h.trans hlt.le)
      obtain ⟨hasc, hall⟩ := ih (h.trans hlt.le) hend
      have hstamp := newV7_stamp bits nano h (hlast.trans_lt hend)
      refine ⟨List.pairwise_cons.mpr ⟨fun u hu => ?_, hasc⟩, fun u hu => ?_⟩
      · obtain ⟨hv, _, hs⟩ := hall u hu
        exact UUID.lt_of_stamp ((newV7_version bits nano).trans hv.symm) (by omega)
      · rcases List.mem_cons.mp hu with rfl | hu
        · exact ⟨newV7_version bits nano, newV7_variant bits nano, by omega⟩
        · obtain ⟨hv, hr, hs⟩ := hall u hu
          exact ⟨hv, hr, by omega⟩

/-- Three calls: the clock stands still, then goes back by a second. -/
def backCalls : List (BitVec 128 × Int) :=
  [(0#128, 1700000000000000000), (5#128, 1700000000000000000), (3#128, 1699999999000000000)]

theorem newV7_ascend_back : (newV7s backCalls 0).1.Pairwise (· < ·) :=
  (newV7_ascend backCalls (le_refl 0) (by decide +kernel)).1

end BankingService
