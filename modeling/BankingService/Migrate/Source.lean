/-
  File:      BankingService/Migrate/Source.lean
  Subject:   The migration files as golang-migrate's `file` source sees them: `source.Parse`,
             `source.Migrations` (`Append`, `First`, `Next`, `Up`, `Down`), the directory scan of
             `iofs`, and `Migrate.readUp`, the list of migrations `Up` will run.

  `Migrations` carries the fact that its index is the sorted list of the versions it holds: `Append`
  rebuilds it. `Next` finds a version by binary search (`sort.Search`).

  A version is a `uint` of 64 bits, a position of `readUp` an `int`: `int(version)` is negative from
  `2 ^ 63` on, where `suint` panics, and `2 ^ 64 - 1` is `-1`, the nil version.

  * `next_append` -- `Next` is the successor in the index;
  * **`readUp_sends`** -- on every directory with versions below `2 ^ 63`, `readUp` from the nil
    version sends every version of the directory in ascending order, and from a version it knows,
    every later one; with a larger version it does not come to an end.
-/
import Mathlib.Data.List.Sort
import BankingService.Go.Strings
import BankingService.Lib.Search

namespace BankingService

open Lib

/-! ## 1. File names -/

inductive MigrationDirection where
  | down
  | up
  deriving DecidableEq, Repr

/-- `source.Migration`. -/
structure Migration where
  version : Nat
  identifier : GoString
  direction : MigrationDirection
  raw : GoString
  deriving DecidableEq, Repr

/-- `\.(down|up)\.` at the front. -/
def cutDirection (s : GoString) : Option MigrationDirection :=
  if (bytes ".down.").isPrefixOf s then some .down
  else if (bytes ".up.").isPrefixOf s then some .up
  else none

/-- `source.Parse`: the expression `^([0-9]+)_(.*)\.(down|up)\.(.*)$`, whose second group is as long
    as it can be and whose dots match no newline, and then `strconv.ParseUint`. -/
def Migration.parse (raw : GoString) : Option Migration :=
  match raw.span isDigit with
  | (digits, 95 :: rest) =>
    if digits = [] ∨ rest.contains 10 then none
    else
      match (List.range (rest.length + 1)).reverse.findSome? fun n =>
          (cutDirection (rest.drop n)).map fun d => (rest.take n, d) with
      | none => none
      | some (identifier, direction) =>
        match parseUint digits 64 with
        | .error _ => none
        | .ok version => some ⟨version, identifier, direction, raw⟩
  | _ => none

/-! ## 2. The index -/

/-- `buildIndex`: the versions, each once, ascending. -/
def buildIndex (ms : List Migration) : List Nat :=
  ((ms.map (·.version)).dedup).insertionSort (· ≤ ·)

/-- `source.Migrations`. -/
structure Migrations where
  migrations : List Migration
  index : List Nat
  index_eq : index = buildIndex migrations

namespace Migrations

/-- `NewMigrations`. -/
def empty : Migrations := ⟨[], [], rfl⟩

/-- `Append`; `none` is its `false`, for a version and direction it has already. -/
def append (i : Migrations) (m : Migration) : Option Migrations :=
  if i.migrations.any fun m' => m'.version == m.version && m'.direction == m.direction then none
  else some ⟨i.migrations ++ [m], buildIndex (i.migrations ++ [m]), rfl⟩

/-- `findPos`; `none` is its `-1`. -/
def findPos (i : Migrations) (version : Nat) : Option Nat :=
  let ix := searchGe i.index version
  if i.index[ix]? = some version then some ix else none

def first (i : Migrations) : Option Nat := i.index[0]?

def next (i : Migrations) (version : Nat) : Option Nat :=
  (i.findPos version).bind fun pos => i.index[pos + 1]?

/-- `Up` and `Down`: the file of a version in a direction. -/
def file (i : Migrations) (version : Nat) (d : MigrationDirection) : Option Migration :=
  i.migrations.find? fun m => m.version == version && m.direction == d

def up (i : Migrations) (version : Nat) : Option Migration := i.file version .up

def down (i : Migrations) (version : Nat) : Option Migration := i.file version .down

/-- `PartialDriver.Init` over the names of the files: a name that does not parse is skipped, a
    duplicate is an error. -/
def load (names : List GoString) : Option Migrations :=
  names.foldlM (fun ms name =>
    match Migration.parse name with
    | none => some ms
    | some m => ms.append m) empty

end Migrations

/-! ## 3. `readUp` -/

/-- `int(version)` of a `uint`, both 64 bits wide. -/
def goInt (version : Nat) : Int := (BitVec.ofNat 64 version).toInt

/-- The errors of `Up`. -/
inductive UpErr where
  | noChange
  | dirty (version : Int)
  | notExist
  | noMigrationFound (version : Nat)
  | database (text : String)
  deriving DecidableEq, Repr

/-- What `readUp` sends over its channel: a migration, with its file if it has one, or an error. -/
inductive Item where
  | migration (version : Nat) (body : Option Migration)
  | err (e : UpErr)
  deriving DecidableEq, Repr

namespace Migrations

/-- `newMigration` for an upward step. -/
def newMigration (i : Migrations) (version : Nat) : Item := .migration version (i.up version)

/-- `versionExists`. -/
def versionExists (i : Migrations) (version : Nat) : Bool :=
  (i.up version).isSome || (i.down version).isSome

/-- The loop of `readUp` without a limit: `v` is `from`, `count` is what it has sent. `none` where
    the channel is never closed, because `suint` panics or the loop goes on for ever. -/
def readUpFrom (i : Migrations) : Nat → Int → Nat → Option (List Item)
  | 0, _, _ => none
  | fuel + 1, v, count =>
    if v = -1 then
      match i.first with
      | none => some [.err .notExist]
      | some first =>
        (readUpFrom i fuel (goInt first) (count + 1)).map fun items => i.newMigration first :: items
    else if v < 0 then none
    else
      match i.next v.toNat with
      | none => some (if count = 0 then [.err .noChange] else [])
      | some next =>
        (readUpFrom i fuel (goInt next) (count + 1)).map fun items => i.newMigration next :: items

/-- `readUp(from, -1, ret)`: `from` is the version in the database, `-1` if there is none. A loop
    that ends sends a version at most once, so the length of the index is fuel enough. -/
def readUp (i : Migrations) (v : Int) : Option (List Item) :=
  if 0 ≤ v ∧ i.versionExists v.toNat = false then some [.err (.noMigrationFound v.toNat)]
  else i.readUpFrom (i.index.length + 2) v 0

end Migrations

/-! ## 4. What `readUp` sends -/

theorem mem_buildIndex {ms : List Migration} {v : Nat} :
    v ∈ buildIndex ms ↔ ∃ m ∈ ms, m.version = v := by
  simp [buildIndex]

theorem buildIndex_sorted (ms : List Migration) : (buildIndex ms).Pairwise (· < ·) := by
  have hle : (buildIndex ms).Pairwise (· ≤ ·) := List.pairwise_insertionSort _ _
  have hnd : (buildIndex ms).Nodup :=
    ((List.perm_insertionSort _ _).nodup_iff).mpr (List.nodup_dedup _)
  exact hle.imp₂ (fun _ _ h h' => lt_of_le_of_ne h h') hnd

namespace Migrations

variable {i : Migrations} {v w : Nat}

theorem index_sorted (i : Migrations) : i.index.Pairwise (· < ·) :=
  i.index_eq ▸ buildIndex_sorted i.migrations

theorem mem_index : v ∈ i.index ↔ ∃ m ∈ i.migrations, m.version = v := by
  rw [i.index_eq]
  exact mem_buildIndex

theorem versionExists_iff : i.versionExists v = true ↔ v ∈ i.index := by
  rw [mem_index]
  simp only [versionExists, up, down, file, Bool.or_eq_true, List.find?_isSome,
    Bool.and_eq_true, beq_iff_eq]
  constructor
  · rintro (⟨m, hm, h, _⟩ | ⟨m, hm, h, _⟩) <;> exact ⟨m, hm, h⟩
  · rintro ⟨m, hm, h⟩
    cases hd : m.direction with
    | up => exact .inl ⟨m, hm, h, hd⟩
    | down => exact .inr ⟨m, hm, h, hd⟩

/-- A version is found at its place in the index. -/
theorem findPos_eq {k : Nat} (h : i.index[k]? = some v) : i.findPos v = some k := by
  simp only [findPos, searchGe_of_getElem? i.index_sorted h, if_pos h]

theorem goInt_of_lt (h : v < 2 ^ 63) : goInt v = v := by
  rw [goInt, BitVec.toInt_eq_toNat_cond, BitVec.toNat_ofNat]
  omega

/-- From `2 ^ 63` on a version is a negative position. -/
theorem goInt_neg (h : 2 ^ 63 ≤ v) (h' : v < 2 ^ 64) : goInt v < 0 := by
  rw [goInt, BitVec.toInt_eq_toNat_cond, BitVec.toNat_ofNat]
  omega

/-- `Next` is the successor in the index. -/
theorem next_append {xs ys : List Nat} (h : i.index = xs ++ v :: ys) : i.next v = ys.head? := by
  have hk : i.index[xs.length]? = some v := by simp [h]
  rw [next, findPos_eq hk, Option.bind_some, h, List.getElem?_append_right (by omega)]
  simp [List.head?_eq_getElem?]

/-- The loop at a version of the index: it sends the later ones. -/
theorem readUpFrom_eq {xs ys : List Nat} (h : i.index = xs ++ v :: ys)
    (hb : ∀ w ∈ i.index, w < 2 ^ 63) {fuel count : Nat} (hfuel : ys.length < fuel) :
    i.readUpFrom fuel v count =
      some (if count = 0 ∧ ys = [] then [.err .noChange] else ys.map i.newMigration) := by
  induction fuel generalizing v xs ys count with
  | zero => omega
  | succ fuel ih =>
      rw [readUpFrom, if_neg (by omega), if_neg (by omega), Int.toNat_natCast, next_append h]
      cases ys with
      | nil => by_cases hc : count = 0 <;> simp [hc]
      | cons w ys =>
          have h' : i.index = (xs ++ [v]) ++ w :: ys := by simp [h]
          have hw : goInt w = w := goInt_of_lt (hb w (by simp [h]))
          simp only [List.head?_cons, hw]
          rw [ih h' (by simpa using hfuel)]
          simp

/-- The versions after `v`. -/
def above (i : Migrations) (v : Nat) : List Nat := i.index.filter fun w => decide (v < w)

theorem above_append {xs ys : List Nat} (h : i.index = xs ++ v :: ys) : i.above v = ys := by
  have hs := i.index_sorted
  rw [h, List.pairwise_append, List.pairwise_cons] at hs
  obtain ⟨_, ⟨hys, _⟩, hxs⟩ := hs
  have hx : xs.filter (fun w => decide (v < w)) = [] :=
    List.filter_eq_nil_iff.mpr fun w hw => by simpa using (hxs w hw v List.mem_cons_self).le
  have hy : ys.filter (fun w => decide (v < w)) = ys :=
    List.filter_eq_self.mpr fun w hw => decide_eq_true (hys w hw)
  simp [above, h, hx, hy]

/-- From a version of the index: every later one, `ErrNoChange` if there is none. -/
theorem readUp_of_mem (hb : ∀ w ∈ i.index, w < 2 ^ 63) (h : v ∈ i.index) :
    i.readUp v =
      some (if i.above v = [] then [.err .noChange] else (i.above v).map i.newMigration) := by
  obtain ⟨xs, ys, hxy⟩ := List.append_of_mem h
  have hlen : ys.length < i.index.length + 2 := by
    rw [hxy, List.length_append, List.length_cons]
    omega
  have hex : i.versionExists v = true := versionExists_iff.mpr h
  rw [readUp, if_neg (by simp [hex]), readUpFrom_eq hxy hb hlen, above_append hxy]
  simp

/-- From the nil version: every version. -/
theorem readUp_of_nil (hb : ∀ w ∈ i.index, w < 2 ^ 63) (h : i.index ≠ []) :
    i.readUp (-1) = some (i.index.map i.newMigration) := by
  obtain ⟨v, ys, hxy⟩ := List.exists_cons_of_ne_nil h
  have hlen : ys.length < i.index.length + 1 := by
    rw [hxy, List.length_cons]
    omega
  have hfirst : i.first = some v := by simp [first, hxy]
  have hv : goInt v = v := goInt_of_lt (hb v (by simp [hxy]))
  rw [readUp, if_neg (by omega), readUpFrom, if_pos rfl, hfirst]
  simp only [hv]
  rw [readUpFrom_eq (show i.index = [] ++ v :: ys from hxy) hb hlen, if_neg (by simp), hxy]
  rfl

/-- A position from which the loop does not come to an end, where the index has a version from
    `2 ^ 63` on: a negative one, or a smaller version. -/
def Endless (i : Migrations) (v : Int) : Prop := v < 0 ∨ ∃ w ∈ i.index, v = w ∧ w < 2 ^ 63

theorem endless_goInt (hb : ∀ w ∈ i.index, w < 2 ^ 64) (h : v ∈ i.index) :
    i.Endless (goInt v) := by
  rcases lt_or_ge v (2 ^ 63) with hv | hv
  · exact .inr ⟨v, h, goInt_of_lt hv, hv⟩
  · exact .inl (goInt_neg hv (hb v h))

/-- **With a version from `2 ^ 63` on the channel is never closed**: the loop comes to it, and from
    there to a panic or to the first version again. -/
theorem readUpFrom_none (hb : ∀ w ∈ i.index, w < 2 ^ 64) (hbig : ∃ w ∈ i.index, 2 ^ 63 ≤ w)
    (fuel : Nat) {p : Int} (hp : i.Endless p) (count : Nat) : i.readUpFrom fuel p count = none := by
  obtain ⟨big, hmem, hbig⟩ := hbig
  induction fuel generalizing p count with
  | zero => rfl
  | succ fuel ih =>
      rw [readUpFrom]
      by_cases hnil : p = -1
      · obtain ⟨first, ys, hxy⟩ := List.exists_cons_of_ne_nil (List.ne_nil_of_mem hmem)
        have hfirst : i.first = some first := by simp [Migrations.first, hxy]
        have hmem : first ∈ i.index := by simp [hxy]
        rw [if_pos hnil, hfirst]
        simp only [ih (endless_goInt hb hmem), Option.map_none]
      · rw [if_neg hnil]
        rcases hp with hneg | ⟨w, hw, rfl, hlt⟩
        · rw [if_pos hneg]
        · obtain ⟨xs, ys, hxy⟩ := List.append_of_mem hw
          have habove : big ∈ ys := by
            rw [← above_append hxy]
            exact List.mem_filter.mpr ⟨hmem, decide_eq_true (by omega)⟩
          obtain ⟨next, zs, rfl⟩ := List.exists_cons_of_ne_nil (List.ne_nil_of_mem habove)
          have hnext : next ∈ i.index := by simp [hxy]
          rw [if_neg (by omega), Int.toNat_natCast, next_append hxy]
          simp only [List.head?_cons, ih (endless_goInt hb hnext), Option.map_none]

/-- The scan keeps every file whose name parses. -/
theorem load_migrations {names : List GoString} (h : load names = some i) :
    i.migrations = names.filterMap Migration.parse := by
  have scan : ∀ (names : List GoString) (j : Migrations),
      names.foldlM (fun ms name =>
        match Migration.parse name with
        | none => some ms
        | some m => ms.append m) j = some i →
      i.migrations = j.migrations ++ names.filterMap Migration.parse := by
    intro names
    induction names with
    | nil =>
        intro j h
        cases h
        simp
    | cons name names ih =>
        intro j h
        rw [List.foldlM_cons, Option.bind_eq_bind, Option.bind_eq_some_iff] at h
        obtain ⟨j', hj, h⟩ := h
        rw [ih j' h]
        cases hp : Migration.parse name with
        | none =>
            simp only [hp] at hj
            cases hj
            simp [hp]
        | some m =>
            simp only [hp, append] at hj
            split at hj
            · cases hj
            · cases hj
              simp [hp]
  exact scan names empty h

theorem parse_version_lt {name : GoString} {m : Migration} (h : Migration.parse name = some m) :
    m.version < 2 ^ 64 := by
  unfold Migration.parse at h
  split at h
  · split at h
    · cases h
    · split at h
      · cases h
      · split at h
        · cases h
        · rename_i hp
          cases h
          exact ((parseUint_iff _ _ _).mp hp).2.2
  · cases h

/-- The versions of a directory are those of its files, and fit a `uint`. -/
theorem load_index {names : List GoString} (h : load names = some i) :
    (∀ v, v ∈ i.index ↔ ∃ name ∈ names, ∃ m, Migration.parse name = some m ∧ m.version = v) ∧
      ∀ v ∈ i.index, v < 2 ^ 64 := by
  have hmem : ∀ v, v ∈ i.index ↔
      ∃ name ∈ names, ∃ m, Migration.parse name = some m ∧ m.version = v := by
    intro v
    rw [mem_index, load_migrations h]
    simp only [List.mem_filterMap]
    constructor
    · rintro ⟨m, ⟨name, hname, hp⟩, hv⟩
      exact ⟨name, hname, m, hp, hv⟩
    · rintro ⟨name, hname, m, hp, hv⟩
      exact ⟨m, ⟨name, hname, hp⟩, hv⟩
  refine ⟨hmem, fun v hv => ?_⟩
  obtain ⟨name, _, m, hp, rfl⟩ := (hmem v).mp hv
  exact parse_version_lt hp

/-- **What `Up` will run**, for every directory of migration files: where all versions are below
    `2 ^ 63`, from the nil version the versions of the files, each once and in ascending order; from
    a version of the files the later ones, or `ErrNoChange`; from any other version an error and
    nothing else. Where one is not, the reading from the nil version does not come to an end. -/
theorem readUp_sends {names : List GoString} (h : load names = some i) :
    i.index.Pairwise (· < ·) ∧
      (∀ v, v ∈ i.index ↔ ∃ name ∈ names, ∃ m, Migration.parse name = some m ∧ m.version = v) ∧
      ((∀ v ∈ i.index, v < 2 ^ 63) →
        (i.index ≠ [] → i.readUp (-1) = some (i.index.map i.newMigration)) ∧
        ∀ v : Nat, i.readUp v = some
          (if v ∈ i.index then
            if i.above v = [] then [.err .noChange] else (i.above v).map i.newMigration
          else [.err (.noMigrationFound v)])) ∧
      ((∃ v ∈ i.index, 2 ^ 63 ≤ v) → i.readUp (-1) = none) := by
  obtain ⟨hmem, hfits⟩ := load_index h
  refine ⟨i.index_sorted, hmem, fun hb => ⟨readUp_of_nil hb, fun v => ?_⟩, fun hbig => ?_⟩
  · by_cases hv : v ∈ i.index
    · rw [if_pos hv, readUp_of_mem hb hv]
    · have hex : i.versionExists v = false :=
        Bool.eq_false_iff.mpr fun h => hv (versionExists_iff.mp h)
      rw [if_neg hv, readUp, Int.toNat_natCast, if_pos ⟨Int.natCast_nonneg v, hex⟩]
  · rw [readUp, if_neg (by omega)]
    exact readUpFrom_none hfits hbig _ (.inl (by decide)) 0

end Migrations

/-! ## 5. The directory of the repository -/

/-- `migrations/`. -/
def migrationFiles : List GoString :=
  [bytes "0001_init.down.sql", bytes "0001_init.up.sql",
    bytes "0002_seed_system_account.down.sql", bytes "0002_seed_system_account.up.sql",
    bytes "0003_seed_demo_accounts.down.sql", bytes "0003_seed_demo_accounts.up.sql"]

theorem migrationFiles_load : (Migrations.load migrationFiles).isSome = true := by decide +kernel

/-- The source `main` opens, `file://migrations`. -/
def bankMigrations : Migrations := (Migrations.load migrationFiles).get migrationFiles_load

theorem bankMigrations_load : Migrations.load migrationFiles = some bankMigrations :=
  (Option.some_get migrationFiles_load).symm

/-- The file of the up migration after version `n`. -/
def upFile : Nat → Migration
  | 0 => ⟨1, bytes "init", .up, bytes "0001_init.up.sql"⟩
  | 1 => ⟨2, bytes "seed_system_account", .up, bytes "0002_seed_system_account.up.sql"⟩
  | _ => ⟨3, bytes "seed_demo_accounts", .up, bytes "0003_seed_demo_accounts.up.sql"⟩

theorem bankMigrations_migrations :
    bankMigrations.migrations =
      [⟨1, bytes "init", .down, bytes "0001_init.down.sql"⟩, upFile 0,
        ⟨2, bytes "seed_system_account", .down, bytes "0002_seed_system_account.down.sql"⟩,
        upFile 1, ⟨3, bytes "seed_demo_accounts", .down, bytes "0003_seed_demo_accounts.down.sql"⟩,
        upFile 2] := by
  rw [Migrations.load_migrations bankMigrations_load]
  decide +kernel

theorem bankMigrations_index : bankMigrations.index = [1, 2, 3] := by
  rw [bankMigrations.index_eq, bankMigrations_migrations]
  decide

/-- The migration after version `n`. -/
theorem bankMigrations_newMigration {n : Nat} (h : n < 3) :
    bankMigrations.newMigration (n + 1) = .migration (n + 1) (some (upFile n)) := by
  rw [Migrations.newMigration, Migrations.up, Migrations.file, bankMigrations_migrations]
  have : n = 0 ∨ n = 1 ∨ n = 2 := by omega
  rcases this with rfl | rfl | rfl <;> rfl

theorem bankMigrations_fits : ∀ v ∈ bankMigrations.index, v < 2 ^ 63 := by
  rw [bankMigrations_index]
  decide

theorem readUp_sends_bank :
    bankMigrations.readUp (-1) = some ([1, 2, 3].map bankMigrations.newMigration) ∧
      bankMigrations.readUp (3 : Nat) = some [.err .noChange] := by
  obtain ⟨_, _, hsmall, _⟩ := Migrations.readUp_sends bankMigrations_load
  obtain ⟨hnil, hfrom⟩ := hsmall bankMigrations_fits
  have habove : bankMigrations.above 3 = [] := by
    rw [Migrations.above, bankMigrations_index]
    rfl
  refine ⟨?_, ?_⟩
  · rw [hnil (by rw [bankMigrations_index]; simp), bankMigrations_index]
  · rw [hfrom 3, if_pos (by rw [bankMigrations_index]; simp), if_pos habove]

end BankingService
