import Meridian.Discovery.SnapshotOptions
import Meridian.Lib.Largest
import Meridian.Storage.DirCache
import Mathlib.Algebra.Group.Nat.Defs

/-!
# The snapshots that are offered

The model of `IsSnapshotId`, `SnapshotIdValue`, `FindSnapshotVolume`, `CollectSnapshotIds` and
`AddBtrfsSnapshotSubEntries` of `discovery/btrfs_snapshots.c`. Allocations succeed; the title of an
entry is left out.
-/

namespace Meridian.Discovery

open Text Storage Lib.Largest

/-- What the search for snapshots sees of a volume. -/
structure SnapshotVolume where
  rootOpen : Bool
  btrfs : Bool
  fileExists : Str → Bool
  /-- The entries of the snapshot directory, in the order in which the driver gives them. -/
  snapshotDir : List FileInfo

def snapshotDirName : Str := "@.snapshots".toList

def findSnapshotVolume (volumes : List (Option SnapshotVolume)) : Option SnapshotVolume :=
  (volumes.filterMap id).find? fun volume =>
    volume.rootOpen && volume.btrfs && volume.fileExists snapshotDirName

/-! ### Reading and printing an id -/

def isSnapshotId (name : Str) : Bool := !name.isEmpty && name.all Char.isDigit

def maxUint64 : Nat := 2 ^ 64 - 1

def snapshotIdLoop (value : Nat) : Str → Nat
  | [] => value
  | c :: rest =>
    if maxUint64 / 10 < value then maxUint64
    else if maxUint64 - (c.toNat - '0'.toNat) < value * 10 then maxUint64
    else snapshotIdLoop (value * 10 + (c.toNat - '0'.toNat)) rest

def snapshotIdValue (name : Str) : Nat := snapshotIdLoop 0 name

/-- The text of `%ld`, which takes the 64 bits as a signed number. -/
def printLong (id : Nat) : Str :=
  if id < 2 ^ 63 then Nat.toDigits 10 id else '-' :: Nat.toDigits 10 (2 ^ 64 - id)

def subvolPath (number : Str) : Str := "@.snapshots/".toList ++ number ++ "/snapshot".toList

/-! ### Collecting the ids -/

def maxSnapshotEntries : Nat := 10

/-- The loop that moves the ids from place `i` on one place back, down from place `j`. -/
def shiftIds (ids : List Nat) (i : Nat) : Nat → List Nat
  | 0 => ids
  | j + 1 => if i < j + 1 then shiftIds (ids.set (j + 1) (ids.getD j 0)) i j else ids

/-- The insertion of one id; the length of the list is `Count`. -/
def insertId (ids : List Nat) (id : Nat) : List Nat :=
  let i := ids.findIdx fun other => decide (id > other)
  if i < maxSnapshotEntries then
    if ids.length < maxSnapshotEntries then (shiftIds (ids ++ [0]) i ids.length).set i id
    else (shiftIds ids i (maxSnapshotEntries - 1)).set i id
  else ids

def probePath (name : Str) : Str := snapshotDirName ++ '\\' :: (name ++ "\\snapshot".toList)

/-- The tests that an entry of the directory has to pass. -/
def isSnapshot (volume : SnapshotVolume) (info : FileInfo) : Bool :=
  Filter.accepts ⟨1, none⟩ info && isSnapshotId info.fileName && volume.fileExists (probePath info.fileName)

def collectSnapshotIds (volume : SnapshotVolume) : List Nat :=
  volume.snapshotDir.foldl (fun ids info =>
    if isSnapshot volume info then insertId ids (snapshotIdValue info.fileName) else ids) []

/-- An entry for a snapshot; the path is not stored, it stands in the options. -/
structure SnapshotEntry where
  subvol : Str
  loadOptions : Str
  deriving DecidableEq, Repr

def addBtrfsSnapshotSubEntries (volumes : List (Option SnapshotVolume)) (baseOptions : Option Str) :
    List SnapshotEntry :=
  match findSnapshotVolume volumes with
  | none => []
  | some volume => (collectSnapshotIds volume).map fun id =>
    { subvol := subvolPath (printLong id)
      loadOptions := snapshotLoadOptions baseOptions (subvolPath (printLong id)) }

/-! ### What is to be offered -/

def snapshotNames (volume : SnapshotVolume) : List Str :=
  (volume.snapshotDir.filter (isSnapshot volume)).map FileInfo.fileName

/-- The names of the snapshots on the volume that is searched. -/
def offeredFrom (volumes : List (Option SnapshotVolume)) : List Str :=
  match findSnapshotVolume volumes with
  | none => []
  | some volume => snapshotNames volume

/-- The number that the name spells. -/
def snapshotNumber (name : Str) : Nat := Nat.ofDigitChars 10 name 0

/-- The chosen names are those of the snapshots with the largest numbers, the newest one first. -/
structure NewestFirst (names chosen : List Str) : Prop where
  exist : ∀ name ∈ chosen, name ∈ names
  descending : (chosen.map snapshotNumber).Pairwise (· > ·)
  short : chosen.length ≤ maxSnapshotEntries
  newest : ∀ name ∈ names, name ∈ chosen ∨
    (chosen.length = maxSnapshotEntries ∧ ∀ kept ∈ chosen, snapshotNumber name ≤ snapshotNumber kept)

def OffersNewest (names subvols : List Str) : Prop :=
  ∃ chosen, NewestFirst names chosen ∧ subvols = chosen.map subvolPath

/-- What the names have to be like: each of the ten newest snapshots has a number of 63 bits, a
directory is named by the number without leading zeros, and no other name spells the number, unless
it is the tenth and so the last one that is offered. -/
def ReadBack (names : List Str) : Prop :=
  ∀ name ∈ names, rank (names.map snapshotNumber) (snapshotNumber name) < maxSnapshotEntries →
    snapshotNumber name < 2 ^ 63 ∧ Nat.toDigits 10 (snapshotNumber name) ∈ names ∧
      ((names.map snapshotNumber).count (snapshotNumber name) = 1 ∨
        rank (names.map snapshotNumber) (snapshotNumber name) + 1 = maxSnapshotEntries)

/-! ### Reading an id -/

theorem le_ofDigitChars (name : Str) (value : Nat) : value ≤ Nat.ofDigitChars 10 name value := by
  induction name generalizing value with
  | nil => exact Nat.le_refl value
  | cons c rest ih =>
    rw [Nat.ofDigitChars_cons]
    exact Nat.le_trans (by omega) (ih _)

theorem snapshotIdLoop_eq (name : Str) (value : Nat) (bound : value ≤ maxUint64) :
    snapshotIdLoop value name = min maxUint64 (Nat.ofDigitChars 10 name value) := by
  induction name generalizing value with
  | nil => rw [snapshotIdLoop, Nat.ofDigitChars_nil, Nat.min_eq_right bound]
  | cons c rest ih =>
    have grows := le_ofDigitChars rest (10 * value + (c.toNat - '0'.toNat))
    have small : c.toNat < 2 ^ 32 := c.val.toNat_lt
    rw [snapshotIdLoop, Nat.ofDigitChars_cons]
    unfold maxUint64 at *
    split
    · omega
    · split
      · omega
      · rw [Nat.mul_comm value 10]
        exact ih _ (by omega)

theorem snapshotIdValue_eq (name : Str) : snapshotIdValue name = min maxUint64 (snapshotNumber name) :=
  snapshotIdLoop_eq name 0 (Nat.zero_le maxUint64)

theorem isSnapshotId_toDigits (id : Nat) : isSnapshotId (Nat.toDigits 10 id) = true := by
  rw [isSnapshotId, Bool.and_eq_true, List.all_eq_true]
  refine ⟨by simp, ?_⟩
  intro c mem
  exact Nat.isDigit_of_mem_toDigits (by omega) (Nat.le_refl 10) mem

theorem printLong_digits {id : Nat} (digits : isSnapshotId (printLong id) = true) : id < 2 ^ 63 := by
  by_contra large
  rw [printLong, if_neg large, isSnapshotId, List.all_cons] at digits
  simp at digits

theorem printLong_of_lt {id : Nat} (small : id < 2 ^ 63) : printLong id = Nat.toDigits 10 id := by
  rw [printLong, if_pos small]

theorem subvolPath_inj {number other : Str} : subvolPath number = subvolPath other ↔ number = other := by
  constructor
  · exact fun same => List.append_cancel_left (List.append_cancel_right same)
  · exact congrArg subvolPath

/-! ### The ids that are collected -/

theorem length_shiftIds (ids : List Nat) (i j : Nat) : (shiftIds ids i j).length = ids.length := by
  induction j generalizing ids with
  | zero => rfl
  | succ j ih =>
    rw [shiftIds]
    split
    · rw [ih, List.length_set]
    · rfl

theorem shiftIds_get (ids : List Nat) (i j k : Nat) (bound : j < ids.length) :
    (shiftIds ids i j)[k]? = if i < k ∧ k ≤ j then ids[k - 1]? else ids[k]? := by
  induction j generalizing ids with
  | zero =>
    rw [shiftIds, if_neg (by omega)]
  | succ j ih =>
    rw [shiftIds]
    by_cases later : i < j + 1
    · rw [if_pos later, ih _ (by rw [List.length_set]; omega)]
      have moved : ids.getD j 0 = ids[j] := by
        rw [List.getD_eq_getElem?_getD, List.getElem?_eq_getElem (by omega), Option.getD_some]
      rw [moved, List.getElem?_set, List.getElem?_set]
      split
      · rw [if_neg (by omega), if_pos (by omega)]
      · by_cases here : j + 1 = k
        · subst here
          rw [if_pos rfl, if_pos (by omega), Nat.add_sub_cancel, List.getElem?_eq_getElem (by omega)]
        · rw [if_neg here, if_neg (by omega)]
    · rw [if_neg later, if_neg (by omega)]

theorem placed_get (ids : List Nat) (id i j k : Nat) (bound : j < ids.length) (place : i ≤ j) :
    ((shiftIds ids i j).set i id)[k]? =
      if k = i then some id else if i < k ∧ k ≤ j then ids[k - 1]? else ids[k]? := by
  rw [List.getElem?_set, length_shiftIds, shiftIds_get ids i j k bound]
  by_cases here : k = i
  · rw [if_pos here.symm, if_pos here, if_pos (by omega)]
  · rw [if_neg (Ne.symm here), if_neg here]

theorem insertId_eq {ids : List Nat} (short : ids.length ≤ maxSnapshotEntries) (id : Nat) :
    insertId ids id = keep maxSnapshotEntries ids id := by
  rw [keep, orderedInsert_eq_insertIdx, insertId]
  set i := ids.findIdx fun other => decide (id > other) with iEq
  have place : i ≤ ids.length := List.findIdx_le_length
  apply List.ext_getElem?
  intro k
  rw [List.getElem?_take, List.getElem?_insertIdx]
  unfold maxSnapshotEntries at *
  split
  · split
    · rw [placed_get (ids ++ [0]) id i ids.length k (by simp) place]
      grind
    · rw [placed_get ids id i 9 k (by omega) (by omega)]
      grind
  · grind

theorem collectSnapshotIds_eq (volume : SnapshotVolume) : collectSnapshotIds volume =
    ((snapshotNames volume).map snapshotIdValue).foldl (keep maxSnapshotEntries) [] := by
  have loop : ∀ (infos : List FileInfo) (ids : List Nat), ids.length ≤ maxSnapshotEntries →
      infos.foldl (fun ids info =>
        if isSnapshot volume info then insertId ids (snapshotIdValue info.fileName) else ids) ids =
      (((infos.filter (isSnapshot volume)).map FileInfo.fileName).map snapshotIdValue).foldl
        (keep maxSnapshotEntries) ids := by
    intro infos
    induction infos with
    | nil => exact fun ids short => rfl
    | cons info infos ih =>
      intro ids short
      rw [List.foldl_cons]
      by_cases taken : isSnapshot volume info = true
      · rw [if_pos taken, List.filter_cons_of_pos taken, List.map_cons, List.map_cons, List.foldl_cons,
          insertId_eq short]
        exact ih _ (List.length_take_le _ _)
      · rw [if_neg taken, List.filter_cons_of_neg taken]
        exact ih ids short
  exact loop volume.snapshotDir [] (Nat.zero_le _)

/-- The ids that are printed into the entries. -/
def collectedIds (volumes : List (Option SnapshotVolume)) : List Nat :=
  match findSnapshotVolume volumes with
  | none => []
  | some volume => collectSnapshotIds volume

theorem collectedIds_isTop (volumes : List (Option SnapshotVolume)) :
    IsTop maxSnapshotEntries ((offeredFrom volumes).map snapshotIdValue) (collectedIds volumes) := by
  rw [collectedIds, offeredFrom]
  cases findSnapshotVolume volumes with
  | none => exact isTop_nil
  | some volume =>
    dsimp only
    rw [collectSnapshotIds_eq]
    exact isTop_foldl _ _

theorem subvols_eq (volumes : List (Option SnapshotVolume)) (baseOptions : Option Str) :
    (addBtrfsSnapshotSubEntries volumes baseOptions).map SnapshotEntry.subvol =
      (collectedIds volumes).map fun id => subvolPath (printLong id) := by
  rw [addBtrfsSnapshotSubEntries, collectedIds]
  cases findSnapshotVolume volumes with
  | none => rfl
  | some volume => exact List.map_map

theorem isSnapshotId_of_mem {volumes : List (Option SnapshotVolume)} {name : Str}
    (mem : name ∈ offeredFrom volumes) : isSnapshotId name = true := by
  rw [offeredFrom] at mem
  cases found : findSnapshotVolume volumes with
  | none => rw [found] at mem; cases mem
  | some volume =>
    rw [found] at mem
    obtain ⟨info, taken, rfl⟩ := List.mem_map.mp mem
    have passed := (List.mem_filter.mp taken).2
    rw [isSnapshot, Bool.and_eq_true, Bool.and_eq_true] at passed
    exact passed.1.2

/-! ### Printing the ids -/

section
variable {names : List Str} {ids : List Nat}

theorem ReadBack.small (back : ReadBack names) {name : Str} (mem : name ∈ names) :
    snapshotNumber name < 2 ^ 63 := by
  have top := isTop_foldl maxSnapshotEntries (names.map snapshotNumber)
  obtain ⟨number, kept, above⟩ := top.exists_ge (by decide) (List.mem_map_of_mem mem)
  obtain ⟨listed, low⟩ := top.mem_iff.mp kept
  obtain ⟨other, otherMem, rfl⟩ := List.mem_map.mp listed
  exact Nat.lt_of_le_of_lt above (back other otherMem low).1

theorem OffersNewest.small (spelled : ∀ name ∈ names, isSnapshotId name = true)
    (top : IsTop maxSnapshotEntries (names.map snapshotIdValue) ids)
    (offers : OffersNewest names (ids.map fun id => subvolPath (printLong id))) {name : Str}
    (mem : name ∈ names) : snapshotNumber name < 2 ^ 63 := by
  obtain ⟨chosen, newest, same⟩ := offers
  obtain ⟨id, kept, above⟩ := top.exists_ge (by decide) (List.mem_map_of_mem mem)
  have path : subvolPath (printLong id) ∈ chosen.map subvolPath := same ▸ List.mem_map_of_mem kept
  obtain ⟨other, otherMem, eq⟩ := List.mem_map.mp path
  have digits := spelled other (newest.exist other otherMem)
  rw [subvolPath_inj.mp eq] at digits
  have value : snapshotIdValue name < 2 ^ 63 := Nat.lt_of_le_of_lt above (printLong_digits digits)
  rw [snapshotIdValue_eq] at value
  unfold maxUint64 at value
  omega

theorem snapshotNumber_toDigits (number : Nat) : snapshotNumber (Nat.toDigits 10 number) = number :=
  Nat.ofDigitChars_ten_toDigits

theorem map_snapshotNumber_toDigits (ids : List Nat) :
    (ids.map (Nat.toDigits 10)).map snapshotNumber = ids := by
  rw [List.map_map]
  exact List.map_id'' snapshotNumber_toDigits ids

/-- A name that is not chosen though its number is kept stands beside another with the number. -/
theorem two_names {name : Str} (mem : name ∈ names) (other : Nat.toDigits 10 (snapshotNumber name) ∈ names)
    (differs : Nat.toDigits 10 (snapshotNumber name) ≠ name) :
    1 < (names.map snapshotNumber).count (snapshotNumber name) := by
  have cut := (List.perm_cons_erase mem).map snapshotNumber
  have still : Nat.toDigits 10 (snapshotNumber name) ∈ names.erase name :=
    (List.mem_erase_of_ne differs).mpr other
  have again : snapshotNumber name ∈ (names.erase name).map snapshotNumber :=
    List.mem_map.mpr ⟨_, still, snapshotNumber_toDigits _⟩
  rw [cut.count_eq, List.map_cons, List.count_cons_self]
  have counted := List.count_pos_iff.mpr again
  omega

theorem newestFirst_iff (top : IsTop maxSnapshotEntries (names.map snapshotNumber) ids)
    (small : ∀ name ∈ names, snapshotNumber name < 2 ^ 63) :
    NewestFirst names (ids.map (Nat.toDigits 10)) ↔ ReadBack names := by
  constructor
  · intro newest name mem low
    have kept : snapshotNumber name ∈ ids := top.mem_iff.mpr ⟨List.mem_map_of_mem mem, low⟩
    have strict := newest.descending
    rw [map_snapshotNumber_toDigits] at strict
    exact ⟨small name mem, newest.exist _ (List.mem_map_of_mem kept), top.strict_iff.mp strict _ kept⟩
  · intro back
    have listed : ∀ id ∈ ids, Nat.toDigits 10 id ∈ names ∧
        ((names.map snapshotNumber).count id = 1 ∨
          rank (names.map snapshotNumber) id + 1 = maxSnapshotEntries) := by
      intro id kept
      obtain ⟨mem, low⟩ := top.mem_iff.mp kept
      obtain ⟨name, nameMem, rfl⟩ := List.mem_map.mp mem
      exact (back name nameMem low).2
    have strict : ids.Pairwise (· > ·) := top.strict_iff.mpr fun id kept => (listed id kept).2
    have once : ∀ id, ids.count id ≤ 1 := List.nodup_iff_count_le_one.mp (strict.imp fun larger => ne_of_gt larger)
    refine ⟨?_, ?_, ?_, ?_⟩
    · intro name mem
      obtain ⟨id, kept, rfl⟩ := List.mem_map.mp mem
      exact (listed id kept).1
    · rw [map_snapshotNumber_toDigits]
      exact strict
    · rw [List.length_map]
      exact top.short
    · intro name mem
      have covered : snapshotNumber name ∉ ids ∨
            ids.count (snapshotNumber name) < (names.map snapshotNumber).count (snapshotNumber name) →
          (ids.map (Nat.toDigits 10)).length = maxSnapshotEntries ∧
            ∀ kept ∈ ids.map (Nat.toDigits 10), snapshotNumber name ≤ snapshotNumber kept := by
        intro out
        obtain ⟨whole, least⟩ := top.covers (List.mem_map_of_mem mem) out
        refine ⟨by rw [List.length_map, whole], ?_⟩
        intro kept keptMem
        obtain ⟨id, idMem, rfl⟩ := List.mem_map.mp keptMem
        rw [snapshotNumber_toDigits]
        exact least id idMem
      by_cases kept : snapshotNumber name ∈ ids
      · by_cases same : Nat.toDigits 10 (snapshotNumber name) = name
        · exact Or.inl (same ▸ List.mem_map_of_mem kept)
        · have twice := two_names mem (listed _ kept).1 same
          exact Or.inr (covered (Or.inr (Nat.lt_of_le_of_lt (once _) twice)))
      · exact Or.inr (covered (Or.inl kept))

theorem offersNewest_iff (spelled : ∀ name ∈ names, isSnapshotId name = true)
    (top : IsTop maxSnapshotEntries (names.map snapshotIdValue) ids) :
    OffersNewest names (ids.map fun id => subvolPath (printLong id)) ↔ ReadBack names := by
  by_cases small : ∀ name ∈ names, snapshotNumber name < 2 ^ 63
  · have values : names.map snapshotIdValue = names.map snapshotNumber := by
      refine List.map_congr_left fun name mem => ?_
      have below := small name mem
      rw [snapshotIdValue_eq]
      unfold maxUint64
      omega
    rw [values] at top
    have printed : ids.map (fun id => subvolPath (printLong id)) =
        (ids.map (Nat.toDigits 10)).map subvolPath := by
      rw [List.map_map]
      refine List.map_congr_left fun id kept => ?_
      obtain ⟨name, mem, rfl⟩ := List.mem_map.mp (top.mem kept)
      rw [printLong_of_lt (small name mem), Function.comp_apply]
    rw [← newestFirst_iff top small, printed]
    constructor
    · rintro ⟨chosen, newest, same⟩
      have eq : ids.map (Nat.toDigits 10) = chosen :=
        List.map_injective_iff.mpr (fun _ _ => subvolPath_inj.mp) same
      exact eq ▸ newest
    · exact fun newest => ⟨_, newest, rfl⟩
  · constructor
    · exact fun offers => absurd (fun name mem => offers.small spelled top mem) small
    · exact fun back => absurd (fun name mem => back.small mem) small

end

/-! ### Main result -/

/-- The newest snapshots are offered, each under a path that exists, exactly when the names read back. -/
theorem addBtrfsSnapshotSubEntries_newest_iff (volumes : List (Option SnapshotVolume))
    (baseOptions : Option Str) :
    OffersNewest (offeredFrom volumes)
        ((addBtrfsSnapshotSubEntries volumes baseOptions).map SnapshotEntry.subvol) ↔
      ReadBack (offeredFrom volumes) := by
  rw [subvols_eq]
  exact offersNewest_iff (fun _ => isSnapshotId_of_mem) (collectedIds_isTop volumes)

/-- A volume whose only snapshot is in a directory with leading zeros. -/
def paddedVolume : SnapshotVolume where
  rootOpen := true
  btrfs := true
  fileExists := fun path =>
    ["@.snapshots".toList, "@.snapshots\\007".toList, "@.snapshots\\007\\snapshot".toList].contains path
  snapshotDir := [⟨"007".toList, true, 0⟩]

/-- The entry is for the directory `7`, which is not there. -/
theorem addBtrfsSnapshotSubEntries_newest_padded :
    ¬OffersNewest (offeredFrom [some paddedVolume])
      ((addBtrfsSnapshotSubEntries [some paddedVolume] none).map SnapshotEntry.subvol) := by
  have names : offeredFrom [some paddedVolume] = ["007".toList] := by decide +kernel
  have subvols : (addBtrfsSnapshotSubEntries [some paddedVolume] none).map SnapshotEntry.subvol =
      [subvolPath "7".toList] := by decide +kernel
  rw [names, subvols]
  rintro ⟨chosen, newest, same⟩
  cases chosen with
  | nil => cases same
  | cons name rest =>
    have listed := List.mem_singleton.mp (newest.exist name List.mem_cons_self)
    have path : "7".toList = name := subvolPath_inj.mp (List.cons.inj same).1
    rw [listed] at path
    exact absurd path (by decide)

end Meridian.Discovery
