import Meridian.Storage.GptTables
import Mathlib.Data.List.Find

/-!
# Partitions that are found

`ReadGptData` and `FindPartWithGuid` together: when a valid table is read and each of its partitions found, and
every other disk refused.
-/

namespace Meridian.Storage

open Lib.Result

/-- The tables that were read, each with all its entries. -/
structure Tables where
  list : List GptData
  whole : ∀ gptData ∈ list, gptData.entries.length = gptEntrySize * entryCount gptData.header

variable {crc : List UInt8 → UInt32} {memory : GptMemory} {io : BlockIo} {gptData : GptData} {tables : Tables}

def tableEntries (gptData : GptData) : List (List UInt8) :=
  (List.range (entryCount gptData.header)).map (entryAt gptData.entries)

/-- The search finds the first entry with the GUID. -/
theorem findPartWithGuid_eq (guid : List UInt8) (list : List GptData)
    (whole : ∀ gptData ∈ list, gptData.entries.length = gptEntrySize * entryCount gptData.header) :
    findPartWithGuid true guid list =
      .ok ((list.flatMap tableEntries).find? fun entry => partitionGuid entry = guid) := by
  induction list with
  | nil => rfl
  | cons gptData rest ih =>
    have here := whole gptData List.mem_cons_self
    have found := findEntry_eq guid here (entryCount gptData.header) 0 (Nat.zero_add _).le
    rw [← List.range_eq_range', ← tableEntries] at found
    rw [findPartWithGuid, found, ok_bind, List.flatMap_cons, List.find?_append,
      ih fun other mem => whole other (List.mem_cons_of_mem _ mem)]
    cases (tableEntries gptData).find? fun entry => partitionGuid entry = guid with
    | some entry => rfl
    | none => rfl

/-- A table is put behind the others, or they are left as they are. -/
theorem addPartitionTable_cases (crc : List UInt8 → UInt32) (memory : GptMemory) (io : BlockIo)
    (gPartitions : List GptData) (keeps : KeepsData memory io) :
    (¬ (memory.granted = true ∧ Accepts crc io) ∧
        addPartitionTable crc memory (some io) gPartitions = .ok gPartitions) ∨
      ((memory.granted = true ∧ Accepts crc io) ∧
        ∃ gptData, TableOf io gptData ∧
          addPartitionTable crc memory (some io) gPartitions = .ok (gPartitions ++ [gptData])) := by
  rw [addPartitionTable]
  obtain ⟨clears, -⟩ | ⟨-, refused, status, error, runs⟩ | ⟨-, accepted, gptData, table, runs⟩ :=
    readGptData_cases crc memory io none
  · exact absurd keeps clears
  · rw [runs, ok_bind]
    refine Or.inl ⟨refused, ?_⟩
    cases status with
    | success => exact absurd rfl error
    | _ => rfl
  · rw [runs, ok_bind]
    exact Or.inr ⟨accepted, gptData, table, rfl⟩

/-- The tables behind another one that was read. -/
def Tables.add (tables : Tables) (table : TableOf io gptData) : Tables where
  list := tables.list ++ [gptData]
  whole := by
    intro other mem
    rw [List.mem_append, List.mem_singleton] at mem
    obtain before | rfl := mem
    · exact tables.whole other before
    · exact table.whole

/-! ### The first entry with a GUID -/

theorem diskEntry_length (accepted : Accepts crc io) {i : Nat} (inside : i < entryCount (headerBlock io)) :
    (diskEntry io i).length = gptEntrySize := by
  have entries := accepted.entries.inside
  rw [diskEntry, List.length_take, List.length_drop, accepted.header.entrySize]
  simp only [RequestInside, gptEntrySize] at entries ⊢
  omega

theorem typeGuid_ended {entry : List UInt8} (whole : entry.length = gptEntrySize) :
    typeGuid (ended entry) = typeGuid entry := by
  rw [typeGuid, ended, List.take_append_of_le_length, List.take_take, typeGuid]
  · rfl
  · rw [List.length_take, whole]
    decide

theorem partitionGuid_ended {entry : List UInt8} (whole : entry.length = gptEntrySize) :
    partitionGuid (ended entry) = partitionGuid entry := by
  have long : 126 = (entry.take 126).length := by
    rw [List.length_take, whole]
    rfl
  rw [partitionGuid, ended, List.drop_append_of_le_length (by omega), List.take_append_of_le_length,
    List.drop_take, List.take_take, partitionGuid]
  · rfl
  · rw [List.length_drop]
    omega

theorem ended_eq_iff (entry : List UInt8) : ended entry = entry ↔ entry.drop 126 = [0, 0] := by
  rw [ended]
  constructor
  · intro same
    conv_rhs at same => rw [← List.take_append_drop 126 entry]
    exact (List.append_cancel_left same).symm
  · intro last
    rw [← last]
    exact List.take_append_drop 126 entry

/-- The first of the entries before a partition's that has its GUID. -/
def earlier (tables : Tables) (io : BlockIo) (i : Nat) : Option (List UInt8) :=
  (tables.list.flatMap tableEntries ++ (List.range i).map (diskEntry io)).find? fun entry =>
    partitionGuid entry = partitionGuid (diskEntry io i)

/-- An entry that hides the partition's is the same, and the name ends where nothing hides it. -/
def Visible (tables : Tables) (io : BlockIo) (i : Nat) : Prop :=
  match earlier tables io i with
  | some entry => entry = diskEntry io i
  | none => (diskEntry io i).drop 126 = [0, 0]

/-- The entries of a table, at one of them. -/
theorem tableEntries_split (table : TableOf io gptData) {i : Nat} (inside : i < entryCount (headerBlock io)) :
    ∃ behind, tableEntries gptData =
      (List.range i).map (fun j => ended (diskEntry io j)) ++ ended (diskEntry io i) :: behind := by
  obtain ⟨left, count⟩ := Nat.exists_eq_add_of_lt inside
  have each : tableEntries gptData =
      (List.range (entryCount (headerBlock io))).map fun j => ended (diskEntry io j) := by
    rw [tableEntries, table.header]
    exact List.map_congr_left fun j mem => table.entries j (List.mem_range.mp mem)
  rw [each, count, Nat.add_assoc, List.range_add, List.map_append, List.range_succ_eq_map, List.map_cons,
    List.map_cons]
  exact ⟨_, rfl⟩

/-- The first entry of the disk before a partition's that has its GUID. -/
def earlierIndex (io : BlockIo) (i : Nat) : Option Nat :=
  (List.range i).find? fun j => partitionGuid (diskEntry io j) = partitionGuid (diskEntry io i)

theorem earlier_eq (tables : Tables) (io : BlockIo) (i : Nat) :
    earlier tables io i =
      ((tables.list.flatMap tableEntries).find? fun entry =>
          partitionGuid entry = partitionGuid (diskEntry io i)).or
        ((earlierIndex io i).map (diskEntry io)) := by
  rw [earlier, List.find?_append, List.find?_map]
  rfl

theorem findPartWithGuid_add (accepted : Accepts crc io) (table : TableOf io gptData) {i : Nat}
    (inside : i < entryCount (headerBlock io)) :
    findPartWithGuid true (partitionGuid (diskEntry io i)) (tables.add table).list =
      .ok (((tables.list.flatMap tableEntries).find? fun entry =>
          partitionGuid entry = partitionGuid (diskEntry io i)).or
        (((earlierIndex io i).map fun j => ended (diskEntry io j)).or (some (ended (diskEntry io i))))) := by
  obtain ⟨behind, split⟩ := tableEntries_split table inside
  have guid (j : Nat) (below : j ≤ i) : partitionGuid (ended (diskEntry io j)) = partitionGuid (diskEntry io j) :=
    partitionGuid_ended (diskEntry_length accepted (Nat.lt_of_le_of_lt below inside))
  rw [findPartWithGuid_eq _ _ (tables.add table).whole, Tables.add, List.flatMap_append, List.flatMap_singleton,
    split, List.find?_append, List.find?_append, List.find?_map,
    List.find?_cons_of_pos (by exact decide_eq_true (guid i (Nat.le_refl i)))]
  congr 4
  refine List.find?_congr fun j mem => ?_
  rw [Function.comp_apply, guid j (List.mem_range.mp mem).le]

theorem findPartWithGuid_iff (tables : Tables) (accepted : Accepts crc io) (unique : UniqueGuids io)
    (table : TableOf io gptData) {i : Nat} (used : Used io i) :
    findPartWithGuid true (partitionGuid (diskEntry io i)) (tables.add table).list = .ok (some (diskEntry io i)) ↔
      Visible tables io i := by
  rw [findPartWithGuid_add accepted table used.1, Visible, earlier_eq, Except.ok.injEq]
  cases (tables.list.flatMap tableEntries).find? fun entry =>
      partitionGuid entry = partitionGuid (diskEntry io i) with
  | some entry =>
    rw [Option.some_or, Option.some_or]
    exact Option.some_inj
  | none =>
    rw [Option.none_or, Option.none_or]
    cases found : earlierIndex io i with
    | some j =>
      rw [earlierIndex, List.find?_range_eq_some] at found
      obtain ⟨same, mem, -⟩ := found
      have below := List.mem_range.mp mem
      have inside := below.trans used.1
      -- an entry with the partition's type would be a partition with its GUID
      have other (alike : typeGuid (diskEntry io j) = typeGuid (diskEntry io i)) : False :=
        below.ne (unique j i ⟨inside, alike ▸ used.2⟩ used (of_decide_eq_true same))
      rw [Option.map_some, Option.map_some, Option.some_or, Option.some_inj]
      constructor
      · intro hides
        refine (other ?_).elim
        rw [← hides, typeGuid_ended (diskEntry_length accepted inside)]
      · intro hides
        exact (other (congrArg typeGuid hides)).elim
    | none =>
      rw [Option.map_none, Option.map_none, Option.none_or, Option.some_inj]
      exact ended_eq_iff _

/-! ### Every disk -/

/-- The shape that the reads and the size of an entry are written for. -/
structure Plain (io : BlockIo) : Prop where
  blockSize : io.blockSize = 512
  entrySize : entrySize (headerBlock io) = gptEntrySize
  wholeBlocks : io.blockSize ∣ entryCount (headerBlock io) * gptEntrySize

/-- What is not looked at. -/
structure Unchecked (io : BlockIo) : Prop where
  size : 92 ≤ headerSize (headerBlock io) ∧ headerSize (headerBlock io) ≤ io.blockSize
  lba : headerLba (headerBlock io) = 1
  unique : UniqueGuids io

theorem HoldsGpt.accepts_iff (holds : HoldsGpt crc io) : Accepts crc io ↔ Plain io := by
  constructor
  · intro accepted
    exact ⟨accepted.blockSize, accepted.header.entrySize, accepted.entries.wholeBlocks⟩
  · intro plain
    have small : min (headerSize (headerBlock io)) sizeofGptHeader = headerSize (headerBlock io) :=
      Nat.min_eq_left (holds.size.2.trans plain.blockSize.le)
    have inside := holds.inside
    have entries := holds.entries
    rw [plain.entrySize] at inside entries
    refine ⟨holds.media, holds.wholeDisk, plain.blockSize, holds.blocks,
      ⟨holds.mbr, holds.signature, holds.revision, plain.entrySize, ?_⟩, plain.wholeBlocks, inside, entries⟩
    rw [small]
    exact holds.checksum

theorem Accepts.holdsGpt_iff (accepted : Accepts crc io) : HoldsGpt crc io ↔ Unchecked io := by
  constructor
  · intro holds
    exact ⟨holds.size, holds.lba, holds.unique⟩
  · intro unchecked
    have small : min (headerSize (headerBlock io)) sizeofGptHeader = headerSize (headerBlock io) :=
      Nat.min_eq_left (unchecked.size.2.trans accepted.blockSize.le)
    have checksum := accepted.header.checksum
    rw [small] at checksum
    have size := accepted.header.entrySize
    exact {
      media := accepted.media
      wholeDisk := accepted.wholeDisk
      blocks := accepted.blocks
      mbr := accepted.header.mbr
      signature := accepted.header.signature
      revision := accepted.header.revision
      size := unchecked.size
      checksum := checksum
      lba := unchecked.lba
      entrySize := ⟨0, size⟩
      inside := by
        rw [size]
        exact accepted.entries.inside
      entries := by
        rw [size]
        exact accepted.entries.checksum
      unique := unchecked.unique }

/-- A valid table is read and each of its partitions found behind it, every other disk is an error that leaves
the caller's data as it was, and no access goes outside the memory that was allocated. -/
def ReadsGpt (crc : List UInt8 → UInt32) (memory : GptMemory) (tables : Tables) (data : Option GptData)
    (io : BlockIo) : Prop :=
  ∃ status after, readGptData crc memory (some io) data = .ok (status, after) ∧
    (HoldsGpt crc io → memory.granted = true → status = .success ∧
      ∃ list, addPartitionTable crc memory (some io) tables.list = .ok list ∧
        ∀ i, Used io i →
          findPartWithGuid true (partitionGuid (diskEntry io i)) list = .ok (some (diskEntry io i))) ∧
    (¬ (HoldsGpt crc io ∧ memory.granted = true) → status ≠ .success ∧ after = data)

/-- Where the reading of tables is right. -/
structure GptRight (crc : List UInt8 → UInt32) (memory : GptMemory) (tables : Tables) (io : BlockIo) : Prop where
  keepsData : KeepsData memory io
  plain : memory.granted = true → HoldsGpt crc io → Plain io
  visible : memory.granted = true → HoldsGpt crc io → ∀ i, Used io i → Visible tables io i
  checked : memory.granted = true → Accepts crc io → Unchecked io

theorem readGptData_iff (crc : List UInt8 → UInt32) (memory : GptMemory) (tables : Tables)
    (data : Option GptData) (io : BlockIo) :
    ReadsGpt crc memory tables data io ↔ GptRight crc memory tables io := by
  rw [ReadsGpt]
  obtain ⟨clears, runs⟩ | ⟨keeps, refused, status, error, runs⟩ |
      ⟨keeps, ⟨granted, accepted⟩, gptData, table, runs⟩ := readGptData_cases crc memory io data
  · constructor
    · rintro ⟨status, after, impossible, -⟩
      rw [runs] at impossible
      cases impossible
    · intro right
      exact absurd right.keepsData clears
  · constructor
    · rintro ⟨status', after, runs', valid, -⟩
      rw [runs] at runs'
      cases runs'
      have invalid (granted : memory.granted = true) (holds : HoldsGpt crc io) : False :=
        error (valid holds granted).1
      exact ⟨keeps, fun granted holds => (invalid granted holds).elim,
        fun granted holds => (invalid granted holds).elim,
        fun granted accepted => (refused ⟨granted, accepted⟩).elim⟩
    · intro right
      refine ⟨status, data, runs, fun holds granted => ?_, fun _ => ⟨error, rfl⟩⟩
      exact absurd ⟨granted, holds.accepts_iff.mpr (right.plain granted holds)⟩ refused
  · obtain ⟨refused, -⟩ | ⟨-, gptData', table', adds⟩ := addPartitionTable_cases crc memory io tables.list keeps
    · exact absurd ⟨granted, accepted⟩ refused
    constructor
    · rintro ⟨status', after, runs', valid, invalid⟩
      rw [runs] at runs'
      cases runs'
      have holds : HoldsGpt crc io := by
        by_contra other
        exact (invalid fun both => other both.1).1 rfl
      obtain ⟨-, list, adds', found⟩ := valid holds granted
      rw [adds] at adds'
      cases adds'
      refine ⟨keeps, fun _ _ => holds.accepts_iff.mp accepted, fun _ _ i used => ?_,
        fun _ _ => accepted.holdsGpt_iff.mp holds⟩
      exact (findPartWithGuid_iff tables accepted holds.unique table' used).mp (found i used)
    · intro right
      have holds := accepted.holdsGpt_iff.mpr (right.checked granted accepted)
      refine ⟨.success, some gptData, runs, fun _ _ => ⟨rfl, _, adds, fun i used => ?_⟩, fun other => ?_⟩
      · have visible := right.visible granted holds i used
        exact (findPartWithGuid_iff tables accepted holds.unique table' used).mpr visible
      · exact absurd ⟨holds, granted⟩ other

/-- A disk with these bytes. -/
def diskOf (blockSize : Nat) (sector_le : 512 ≤ blockSize) (content : List UInt8) : BlockIo where
  blockSize := blockSize
  sector_le := sector_le
  content := content
  mediaPresent := true
  logicalPartition := false
  readBlocks lba size :=
    if blockSize ∣ size ∧ (size = 0 ∨ lba * blockSize + size ≤ content.length) then
      .ok ((content.drop (lba * blockSize)).take size)
    else .error 0x8000000000000002
  readBlocks_eq_ok lba size bytes := by
    rw [RequestInside]
    split
    case isTrue inside =>
      rw [and_iff_right inside.1, and_iff_right inside.2, Except.ok.injEq, eq_comm]
    case isFalse outside =>
      constructor
      · intro impossible
        cases impossible
      · rintro ⟨whole, inside, -⟩
        exact absurd ⟨whole, inside⟩ outside

/-- The third request for memory fails, and the first buffer is used after it was given back. -/
theorem readGptData_cleared :
    ¬ ∃ crc, ReadsGpt crc { data := true, header := true, protectiveMbr := false, entries := true } ⟨[], nofun⟩
      none (diskOf 512 (Nat.le_refl 512) []) := by
  rintro ⟨crc, status, after, impossible, -⟩
  cases impossible

end Meridian.Storage
