import Meridian.Storage.Gpt
import Mathlib.Data.List.Basic
import Mathlib.Order.Nat

/-!
# The tables that are read

What `ReadGptData` keeps of a valid table, and what `FindPartWithGuid` finds in it, for every disk.
-/

namespace Meridian.Storage

open Lib.Codec Lib.Result

variable {crc : List UInt8 → UInt32} {memory : GptMemory} {io : BlockIo} {data : Option GptData}
  {entries guid : List UInt8} {count : Nat}

/-! ### The entries of a table -/

def entryAt (entries : List UInt8) (i : Nat) : List UInt8 :=
  (entries.drop (gptEntrySize * i)).take gptEntrySize

/-- The entry with a zero as the last character of its name. -/
def ended (entry : List UInt8) : List UInt8 := entry.take 126 ++ [0, 0]

theorem entryAt_length (whole : entries.length = gptEntrySize * count) {i : Nat} (inside : i < count) :
    (entryAt entries i).length = gptEntrySize := by
  rw [entryAt, List.length_take, List.length_drop, whole]
  simp only [gptEntrySize]
  omega

theorem set_set_eq_ended {entry : List UInt8} (whole : entry.length = gptEntrySize) :
    (entry.set 126 0).set 127 0 = ended entry := by
  have split : entry.length = 126 + 2 := whole
  obtain ⟨a, b, last⟩ := List.length_eq_two.mp (show (entry.drop 126).length = 2 by rw [List.length_drop]; omega)
  have short : (entry.take 126).length = 126 := by
    rw [List.length_take]
    omega
  rw [ended]
  conv_lhs => rw [← List.take_append_drop 126 entry, last]
  rw [List.set_append_right _ _ short.le, List.set_append_right _ _ (by omega), short]
  rfl

theorem entryAt_set (entries : List UInt8) (i : Nat) {k : Nat} (inside : k < gptEntrySize) (value : UInt8)
    (j : Nat) : entryAt (entries.set (gptEntrySize * i + k) value) j =
      if j = i then (entryAt entries j).set k value else entryAt entries j := by
  unfold entryAt
  simp only [gptEntrySize] at inside ⊢
  rw [List.drop_set]
  obtain below | rfl | above := Nat.lt_trichotomy j i
  · rw [if_neg (by omega), if_neg below.ne, List.take_set_of_le (by omega)]
  · rw [if_neg (by omega), if_pos rfl, List.take_set, Nat.add_sub_cancel_left]
  · rw [if_pos (by omega), if_neg above.ne']

/-- One round changes the last character of its own entry. -/
theorem endName_entryAt (whole : entries.length = gptEntrySize * count) {i : Nat} (inside : i < count) :
    ∃ after, endName entries i = .ok after ∧ after.length = gptEntrySize * count ∧
      ∀ j, entryAt after j = if j = i then ended (entryAt entries i) else entryAt entries j := by
  refine ⟨_, if_pos ?_, ?_, fun j => ?_⟩
  · rw [whole, ← Nat.mul_succ]
    exact Nat.mul_le_mul_left _ inside
  · rw [List.length_set, List.length_set, whole]
  · rw [entryAt_set _ i (by decide), entryAt_set _ i (by decide)]
    split
    case isTrue same =>
      rw [same]
      exact set_set_eq_ended (entryAt_length whole inside)
    case isFalse => rfl

theorem endNames_entryAt (whole : entries.length = gptEntrySize * count) {rounds : Nat} (inside : rounds ≤ count) :
    ∃ after, endNames entries rounds = .ok after ∧ after.length = gptEntrySize * count ∧
      ∀ j, entryAt after j = if j < rounds then ended (entryAt entries j) else entryAt entries j := by
  induction rounds with
  | zero => exact ⟨entries, rfl, whole, fun j => (if_neg (Nat.not_lt_zero j)).symm⟩
  | succ i ih =>
    obtain ⟨before, runs, length, each⟩ := ih (Nat.le_of_succ_le inside)
    obtain ⟨after, ends, length', each'⟩ := endName_entryAt length inside
    refine ⟨after, ?_, length', fun j => ?_⟩
    · rw [endNames, runs, ok_bind]
      exact ends
    · rw [each', each, each, if_neg (Nat.lt_irrefl i)]
      obtain below | rfl | above := Nat.lt_trichotomy j i
      · rw [if_neg below.ne, if_pos below, if_pos (Nat.lt_succ_of_lt below)]
      · rw [if_pos rfl, if_pos (Nat.lt_succ_self j)]
      · rw [if_neg above.ne', if_neg (Nat.not_lt_of_le above.le), if_neg (by omega)]

/-- The search of one table. -/
theorem findEntry_eq (guid : List UInt8) (whole : entries.length = gptEntrySize * count) (left i : Nat)
    (inside : i + left ≤ count) :
    findEntry guid entries i left =
      .ok (((List.range' i left).map (entryAt entries)).find? fun entry => partitionGuid entry = guid) := by
  induction left generalizing i with
  | zero => rfl
  | succ left ih =>
    have fits : gptEntrySize * i + gptEntrySize ≤ entries.length := by
      rw [whole, ← Nat.mul_succ]
      exact Nat.mul_le_mul_left _ (by omega)
    rw [findEntry, if_pos fits, List.range'_succ, List.map_cons]
    by_cases same : partitionGuid (entryAt entries i) = guid
    · rw [List.find?_cons_of_pos (by exact decide_eq_true same)]
      exact if_pos same
    · rw [List.find?_cons_of_neg (by simpa using same), ← ih (i + 1) (by omega)]
      exact if_neg same

/-! ### One disk -/

/-- The signature of the first block, and a partition that covers the disk. -/
def ProtectiveMbr (mbr : List UInt8) : Prop :=
  mbrSignature mbr = mbrBootSignature ∧
    (mbrPartitionType mbr 0 = mbrTypeGptProtective ∨ mbrPartitionType mbr 1 = mbrTypeGptProtective ∨
      mbrPartitionType mbr 2 = mbrTypeGptProtective ∨ mbrPartitionType mbr 3 = mbrTypeGptProtective)

def headerBlock (io : BlockIo) : List UInt8 := (io.content.drop io.blockSize).take io.blockSize

/-- The bytes where the header places the entries. -/
def entryBytes (io : BlockIo) (header : List UInt8) (size : Nat) : List UInt8 :=
  (io.content.drop (entryLba header * io.blockSize)).take size

def diskEntry (io : BlockIo) (i : Nat) : List UInt8 :=
  (io.content.drop (entryLba (headerBlock io) * io.blockSize + entrySize (headerBlock io) * i)).take gptEntrySize

/-- A partition of the disk. -/
def Used (io : BlockIo) (i : Nat) : Prop :=
  i < entryCount (headerBlock io) ∧ typeGuid (diskEntry io i) ≠ List.replicate 16 0

def UniqueGuids (io : BlockIo) : Prop :=
  ∀ i j, Used io i → Used io j → partitionGuid (diskEntry io i) = partitionGuid (diskEntry io j) → i = j

/-- A valid table, with blocks and entries of any size. -/
structure HoldsGpt (crc : List UInt8 → UInt32) (io : BlockIo) : Prop where
  media : io.mediaPresent = true
  wholeDisk : io.logicalPartition = false
  blocks : 2 * io.blockSize ≤ io.content.length
  mbr : ProtectiveMbr (io.content.take sizeofMbrRecord)
  signature : gptSignature (headerBlock io) = gptHeaderSignature
  revision : specRevision (headerBlock io) = gptRevision10
  size : 92 ≤ headerSize (headerBlock io) ∧ headerSize (headerBlock io) ≤ io.blockSize
  checksum : (crc ((withoutCrc (headerBlock io)).take (headerSize (headerBlock io)))).toNat =
    headerCrc32 (headerBlock io)
  lba : headerLba (headerBlock io) = 1
  entrySize : ∃ n, entrySize (headerBlock io) = gptEntrySize * 2 ^ n
  inside : RequestInside io.blockSize io.content.length (entryLba (headerBlock io))
    (entryCount (headerBlock io) * Storage.entrySize (headerBlock io))
  entries : (crc (entryBytes io (headerBlock io)
    (entryCount (headerBlock io) * Storage.entrySize (headerBlock io)))).toNat = entryCrc32 (headerBlock io)
  unique : UniqueGuids io

/-- What the code looks at before it takes a header. -/
structure HeaderAccepted (crc : List UInt8 → UInt32) (mbr header : List UInt8) : Prop where
  mbr : ProtectiveMbr mbr
  signature : gptSignature header = gptHeaderSignature
  revision : specRevision header = gptRevision10
  entrySize : entrySize header = gptEntrySize
  checksum : (crc ((withoutCrc header).take (min (headerSize header) sizeofGptHeader))).toNat = headerCrc32 header

/-- What it looks at before it takes the entries. -/
structure EntriesAccepted (crc : List UInt8 → UInt32) (io : BlockIo) (header : List UInt8) : Prop where
  wholeBlocks : io.blockSize ∣ entryCount header * gptEntrySize
  inside : RequestInside io.blockSize io.content.length (entryLba header) (entryCount header * gptEntrySize)
  checksum : (crc (entryBytes io header (entryCount header * gptEntrySize))).toNat = entryCrc32 header

/-- What it looks at on a disk. -/
structure Accepts (crc : List UInt8 → UInt32) (io : BlockIo) : Prop where
  media : io.mediaPresent = true
  wholeDisk : io.logicalPartition = false
  blockSize : io.blockSize = 512
  blocks : 2 * io.blockSize ≤ io.content.length
  header : HeaderAccepted crc (io.content.take sizeofMbrRecord) (headerBlock io)
  entries : EntriesAccepted crc io (headerBlock io)

theorem BlockIo.read_cases (io : BlockIo) (lba size : Nat) :
    ((io.blockSize ∣ size ∧ RequestInside io.blockSize io.content.length lba size) ∧
        io.readBlocks lba size = .ok ((io.content.drop (lba * io.blockSize)).take size)) ∨
      (¬ (io.blockSize ∣ size ∧ RequestInside io.blockSize io.content.length lba size) ∧
        ∃ status, io.readBlocks lba size = .error status) := by
  cases read : io.readBlocks lba size with
  | ok bytes =>
    obtain ⟨whole, inside, rfl⟩ := (io.readBlocks_eq_ok _ _ _).mp read
    exact Or.inl ⟨⟨whole, inside⟩, rfl⟩
  | error status =>
    refine Or.inr ⟨?_, status, rfl⟩
    rintro ⟨whole, inside⟩
    have reads := (io.readBlocks_eq_ok _ _ _).mpr ⟨whole, inside, rfl⟩
    rw [read] at reads
    cases reads

/-- A record of 512 bytes is read from a disk with blocks of this size only. -/
theorem BlockIo.dvd_sector_iff (io : BlockIo) : io.blockSize ∣ 512 ↔ io.blockSize = 512 := by
  have sector := io.sector_le
  constructor
  · intro divides
    have small := Nat.le_of_dvd (by decide) divides
    omega
  · intro same
    exact ⟨1, by omega⟩

theorem withoutCrc_length {header : List UInt8} (whole : header.length = sizeofGptHeader) :
    (withoutCrc header).length = sizeofGptHeader := by
  rw [withoutCrc, List.length_append, List.length_append, List.length_take, List.length_drop, whole]
  rfl

theorem gptHeaderValid_eq (crc : List UInt8 → UInt32) (mbr : List UInt8) {header : List UInt8}
    (whole : header.length = sizeofGptHeader) :
    ∃ valid, gptHeaderValid crc mbr header = .ok valid ∧ (valid = true ↔ HeaderAccepted crc mbr header) := by
  unfold gptHeaderValid
  split
  case isTrue all =>
    obtain ⟨signed, types, signature, revision, size⟩ := all
    have least : (if headerSize header < sizeofGptHeader then headerSize header else sizeofGptHeader) =
        min (headerSize header) sizeofGptHeader := by
      split <;> omega
    have inside : min (headerSize header) sizeofGptHeader ≤ (withoutCrc header).length := by
      rw [withoutCrc_length whole]
      exact Nat.min_le_right _ _
    have computes : calculateCrc32 crc (withoutCrc header)
        (if headerSize header < sizeofGptHeader then headerSize header else sizeofGptHeader) =
          .ok (crc ((withoutCrc header).take (min (headerSize header) sizeofGptHeader))).toNat := by
      rw [least]
      exact if_pos inside
    dsimp only
    rw [computes]
    refine ⟨_, rfl, ?_⟩
    rw [decide_eq_true_iff]
    exact ⟨fun same => ⟨⟨signed, types⟩, signature, revision, size, same⟩, fun accepted => accepted.checksum⟩
  case isFalse some =>
    refine ⟨false, rfl, ?_⟩
    constructor
    · intro impossible
      cases impossible
    · intro accepted
      exact absurd ⟨accepted.mbr.1, accepted.mbr.2, accepted.signature, accepted.revision, accepted.entrySize⟩ some

/-- The read of the entries: it is refused, or keeps them all with their names ended. -/
theorem readGptEntries_cases (crc : List UInt8 → UInt32) (memory : GptMemory) (io : BlockIo)
    (mbr header : List UInt8) (data : Option GptData) :
    (¬ (memory.entries = true ∧ EntriesAccepted crc io header) ∧
        ∃ status, status ≠ .success ∧ readGptEntries crc memory io mbr header data = .ok (status, data)) ∨
      ((memory.entries = true ∧ EntriesAccepted crc io header) ∧
        ∃ entries, entries.length = gptEntrySize * entryCount header ∧
          (∀ i < entryCount header, entryAt entries i =
            ended ((io.content.drop (entryLba header * io.blockSize + gptEntrySize * i)).take gptEntrySize)) ∧
          readGptEntries crc memory io mbr header data =
            .ok (.success, some { protectiveMbr := mbr, header, entries })) := by
  unfold readGptEntries
  dsimp only
  cases memory.entries with
  | false => exact Or.inl ⟨(fun both => nomatch both.1), .outOfResources, (by decide), rfl⟩
  | true =>
    rw [Bool.not_true, if_neg Bool.false_ne_true, readInto, if_pos (Nat.le_refl _), ok_bind]
    obtain ⟨⟨wholeBlocks, inside⟩, read⟩ | ⟨refused, status, read⟩ :=
      io.read_cases (entryLba header) (entryCount header * gptEntrySize)
    · rw [read]
      dsimp only
      rw [← entryBytes]
      have length : (entryBytes io header (entryCount header * gptEntrySize)).length =
          entryCount header * gptEntrySize := by
        rw [entryBytes, List.length_take, List.length_drop]
        rw [RequestInside] at inside
        omega
      have whole : (entryBytes io header (entryCount header * gptEntrySize)).length =
          gptEntrySize * entryCount header := length.trans (Nat.mul_comm _ _)
      rw [calculateCrc32, if_pos length.ge, ok_bind, List.take_of_length_le length.le]
      by_cases checksum : (crc (entryBytes io header (entryCount header * gptEntrySize))).toNat = entryCrc32 header
      · obtain ⟨entries, ends, length', each⟩ := endNames_entryAt whole (Nat.le_refl (entryCount header))
        rw [if_neg (not_not_intro checksum), ends]
        refine Or.inr ⟨⟨rfl, wholeBlocks, inside, checksum⟩, entries, length', fun i below => ?_, rfl⟩
        rw [each, if_pos below, entryAt, entryBytes, List.drop_take, List.drop_drop, List.take_take]
        congr 2
        simp only [gptEntrySize]
        omega
      · rw [if_pos checksum]
        exact Or.inl ⟨(fun both => checksum both.2.checksum), .crcError, (by decide), rfl⟩
    · rw [read]
      exact Or.inl ⟨(fun both => refused ⟨both.2.wholeBlocks, both.2.inside⟩), .blockIo status, nofun, rfl⟩

/-! ### The table of a disk -/

/-- What is kept of a disk that is accepted. -/
structure TableOf (io : BlockIo) (gptData : GptData) : Prop where
  header : gptData.header = headerBlock io
  whole : gptData.entries.length = gptEntrySize * entryCount gptData.header
  entries : ∀ i < entryCount (headerBlock io), entryAt gptData.entries i = ended (diskEntry io i)

theorem readRecords_cases (crc : List UInt8 → UInt32) (memory : GptMemory) (data : Option GptData)
    (media : io.mediaPresent = true) (wholeDisk : io.logicalPartition = false) :
    (¬ (memory.entries = true ∧ Accepts crc io) ∧
        ∃ status, status ≠ .success ∧ readRecords crc memory io data = .ok (status, data)) ∨
      ((memory.entries = true ∧ Accepts crc io) ∧
        ∃ gptData, TableOf io gptData ∧ readRecords crc memory io data = .ok (.success, some gptData)) := by
  unfold readRecords
  rw [readInto, if_pos (Nat.le_refl _), ok_bind]
  obtain ⟨⟨sector, -⟩, read⟩ | ⟨refused, status, read⟩ := io.read_cases 0 sizeofMbrRecord
  · have blockSize := io.dvd_sector_iff.mp sector
    rw [read, readInto, if_pos (Nat.le_refl _), Nat.zero_mul, List.drop_zero]
    dsimp only
    rw [ok_bind]
    obtain ⟨⟨-, inside⟩, read⟩ | ⟨refused, status, read⟩ := io.read_cases 1 sizeofGptHeader
    · have blocks : 2 * io.blockSize ≤ io.content.length := by
        rw [RequestInside, sizeofGptHeader] at inside
        omega
      have whole : (headerBlock io).length = sizeofGptHeader := by
        rw [headerBlock, List.length_take, List.length_drop, sizeofGptHeader]
        omega
      have same : (io.content.drop (1 * io.blockSize)).take sizeofGptHeader = headerBlock io := by
        rw [Nat.one_mul, headerBlock, sizeofGptHeader, ← blockSize]
      obtain ⟨valid, validates, valid_iff⟩ :=
        gptHeaderValid_eq crc (io.content.take sizeofMbrRecord) whole
      rw [read, same]
      dsimp only
      rw [validates, ok_bind]
      cases valid with
      | false =>
        refine Or.inl ⟨fun both => ?_, .unsupported, by decide, rfl⟩
        have impossible := valid_iff.mpr both.2.header
        cases impossible
      | true =>
        have header := valid_iff.mp rfl
        rw [if_pos rfl]
        obtain ⟨refused, error⟩ | ⟨⟨granted, accepted⟩, entries, length, each, runs⟩ :=
          readGptEntries_cases crc memory io (io.content.take sizeofMbrRecord) (headerBlock io) data
        · exact Or.inl ⟨fun both => refused ⟨both.1, both.2.entries⟩, error⟩
        · have accepts : Accepts crc io := ⟨media, wholeDisk, blockSize, blocks, header, accepted⟩
          refine Or.inr ⟨⟨granted, accepts⟩, _, ⟨rfl, length, ?_⟩, runs⟩
          intro i below
          rw [each i below, diskEntry, header.entrySize]
    · rw [read]
      refine Or.inl ⟨fun both => refused ⟨sector, Or.inr ?_⟩, .blockIo status, nofun, rfl⟩
      have blocks := both.2.blocks
      rw [sizeofGptHeader]
      omega
  · rw [read]
    refine Or.inl ⟨fun both => refused ⟨?_, Or.inr ?_⟩, .blockIo status, nofun, rfl⟩
    · exact io.dvd_sector_iff.mpr both.2.blockSize
    · have blocks := both.2.blocks
      have blockSize := both.2.blockSize
      rw [sizeofMbrRecord]
      omega

def GptMemory.granted (memory : GptMemory) : Bool :=
  memory.data && memory.header && memory.protectiveMbr && memory.entries

theorem GptMemory.granted_iff (memory : GptMemory) :
    memory.granted = true ↔ allocateGptData memory = .live ∧ memory.entries = true := by
  unfold granted allocateGptData
  cases memory.data <;> cases memory.header <;> cases memory.protectiveMbr <;> simp

/-- The data is not cleared before it is used. -/
def KeepsData (memory : GptMemory) (io : BlockIo) : Prop :=
  io.mediaPresent = true → io.logicalPartition = false → allocateGptData memory ≠ .cleared

/-- The read of a table: it uses cleared data, or reports an error and keeps the caller's, or has the table. -/
theorem readGptData_cases (crc : List UInt8 → UInt32) (memory : GptMemory) (io : BlockIo)
    (data : Option GptData) :
    (¬ KeepsData memory io ∧ readGptData crc memory (some io) data = .error .useAfterFree) ∨
      (KeepsData memory io ∧ ¬ (memory.granted = true ∧ Accepts crc io) ∧
        ∃ status, status ≠ .success ∧ readGptData crc memory (some io) data = .ok (status, data)) ∨
      (KeepsData memory io ∧ (memory.granted = true ∧ Accepts crc io) ∧
        ∃ gptData, TableOf io gptData ∧
          readGptData crc memory (some io) data = .ok (.success, some gptData)) := by
  rw [memory.granted_iff]
  unfold readGptData KeepsData
  dsimp only
  cases media : io.mediaPresent with
  | false =>
    refine Or.inr (Or.inl ⟨nofun, fun both => ?_, .noMedia, by decide, rfl⟩)
    rw [both.2.media] at media
    cases media
  | true =>
    cases wholeDisk : io.logicalPartition with
    | true =>
      refine Or.inr (Or.inl ⟨fun _ => nofun, fun both => ?_, .noMedia, by decide, rfl⟩)
      rw [both.2.wholeDisk] at wholeDisk
      cases wholeDisk
    | false =>
      rw [imp_iff_right rfl, imp_iff_right rfl, Bool.not_true, Bool.or_false, if_neg Bool.false_ne_true]
      cases allocateGptData memory with
      | null =>
        exact Or.inr (Or.inl ⟨nofun, (fun both => nomatch both.1.1), .outOfResources, by decide, rfl⟩)
      | cleared => exact Or.inl ⟨fun other => other rfl, rfl⟩
      | live =>
        have keeps : Allocated.live ≠ .cleared := by decide
        refine Or.inr ?_
        rw [and_iff_right keeps, and_iff_right keeps, and_iff_right rfl]
        exact readRecords_cases crc memory data media wholeDisk

end Meridian.Storage
