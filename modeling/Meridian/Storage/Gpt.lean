import Meridian.Lib.Codec
import Meridian.Lib.Result

/-!
# Partition tables

The model of `storage/gpt.c`, which is called with no `NULL`. The blocks of a disk and the checksum of
`CalculateCrc32` are arguments, and the firmware answers the requests for memory. A use of memory that was
given back, and an access outside a buffer, stop the run.
-/

namespace Meridian.Storage

open Lib.Codec Lib.Result

inductive GptFault where
  | useAfterFree | outOfBounds
  deriving DecidableEq, Repr

/-- The status of `ReadGptData`; the last is one that `ReadBlocks` failed with. -/
inductive GptStatus where
  | success | notReady | noMedia | outOfResources | unsupported | crcError
  | blockIo (status : UInt64)
  deriving DecidableEq, Repr

/-- The request has no block that is not on a disk of this many bytes. -/
def RequestInside (blockSize length lba size : Nat) : Prop := size = 0 ∨ lba * blockSize + size ≤ length

/-- A disk behind the protocol, which reads whole blocks. -/
structure BlockIo where
  blockSize : Nat
  sector_le : 512 ≤ blockSize
  content : List UInt8
  mediaPresent : Bool
  logicalPartition : Bool
  readBlocks : Nat → Nat → Except UInt64 (List UInt8)
  readBlocks_eq_ok : ∀ lba size bytes, readBlocks lba size = .ok bytes ↔
    blockSize ∣ size ∧ RequestInside blockSize content.length lba size ∧
      bytes = (content.drop (lba * blockSize)).take size

/-- The answers to the requests for memory. -/
structure GptMemory where
  data : Bool
  header : Bool
  protectiveMbr : Bool
  entries : Bool

/-- The value of some bytes of a record. -/
def field (record : List UInt8) (pos n : Nat) : Nat := ofLe ((record.drop pos).take n)

def sizeofMbrRecord : Nat := 512
def sizeofGptHeader : Nat := 512
def gptEntrySize : Nat := 128
def mbrBootSignature : Nat := 0xaa55
def mbrTypeGptProtective : Nat := 0xee
def gptHeaderSignature : Nat := 0x5452415020494645
def gptRevision10 : Nat := 0x00010000

/-! ### The records -/

def mbrSignature (mbr : List UInt8) : Nat := field mbr 510 2
def mbrPartitionType (mbr : List UInt8) (i : Nat) : Nat := field mbr (446 + 16 * i + 4) 1

def gptSignature (header : List UInt8) : Nat := field header 0 8
def specRevision (header : List UInt8) : Nat := field header 8 4
def headerSize (header : List UInt8) : Nat := field header 12 4
def headerCrc32 (header : List UInt8) : Nat := field header 16 4
def headerLba (header : List UInt8) : Nat := field header 24 8
def entryLba (header : List UInt8) : Nat := field header 72 8
def entryCount (header : List UInt8) : Nat := field header 80 4
def entrySize (header : List UInt8) : Nat := field header 84 4
def entryCrc32 (header : List UInt8) : Nat := field header 88 4

def typeGuid (entry : List UInt8) : List UInt8 := entry.take 16
def partitionGuid (entry : List UInt8) : List UInt8 := (entry.drop 16).take 16

/-- The header with zero bytes in its `header_crc32`. -/
def withoutCrc (header : List UInt8) : List UInt8 := header.take 16 ++ [0, 0, 0, 0] ++ header.drop 20

/-- What `ReadGptData` keeps of a disk. -/
structure GptData where
  protectiveMbr : List UInt8
  header : List UInt8
  entries : List UInt8
  deriving DecidableEq, Repr

/-! ### Reading a table -/

inductive Allocated where
  | null | cleared | live
  deriving DecidableEq, Repr

/-- Without the last buffer the data is cleared, and is returned all the same. -/
def allocateGptData (memory : GptMemory) : Allocated :=
  if !memory.data then .null
  else if !memory.header then .null
  else if !memory.protectiveMbr then .cleared
  else .live

/-- A read into a buffer. -/
def readInto (io : BlockIo) (buffer lba size : Nat) : Except GptFault (Except UInt64 (List UInt8)) :=
  if size ≤ buffer then .ok (io.readBlocks lba size) else .error .outOfBounds

def calculateCrc32 (crc : List UInt8 → UInt32) (buffer : List UInt8) (size : Nat) : Except GptFault Nat :=
  if size ≤ buffer.length then .ok (crc (buffer.take size)).toNat else .error .outOfBounds

def gptHeaderValid (crc : List UInt8 → UInt32) (mbr header : List UInt8) : Except GptFault Bool :=
  if mbrSignature mbr = mbrBootSignature ∧
      (mbrPartitionType mbr 0 = mbrTypeGptProtective ∨ mbrPartitionType mbr 1 = mbrTypeGptProtective ∨
        mbrPartitionType mbr 2 = mbrTypeGptProtective ∨ mbrPartitionType mbr 3 = mbrTypeGptProtective) ∧
      gptSignature header = gptHeaderSignature ∧ specRevision header = gptRevision10 ∧
      entrySize header = gptEntrySize then do
    let size := if headerSize header < sizeofGptHeader then headerSize header else sizeofGptHeader
    let crcValue ← calculateCrc32 crc (withoutCrc header) size
    pure (crcValue = headerCrc32 header)
  else pure false

/-- `Entries[i].name[35] = '\0'`. -/
def endName (entries : List UInt8) (i : Nat) : Except GptFault (List UInt8) :=
  if gptEntrySize * i + gptEntrySize ≤ entries.length then
    .ok ((entries.set (gptEntrySize * i + 126) 0).set (gptEntrySize * i + 127) 0)
  else .error .outOfBounds

/-- The loop, after so many rounds. -/
def endNames (entries : List UInt8) : Nat → Except GptFault (List UInt8)
  | 0 => .ok entries
  | i + 1 => do
    let entries ← endNames entries i
    endName entries i

/-- The entries behind a header that is valid. -/
def readGptEntries (crc : List UInt8 → UInt32) (memory : GptMemory) (io : BlockIo) (mbr header : List UInt8)
    (data : Option GptData) : Except GptFault (GptStatus × Option GptData) :=
  let bufferSize := entryCount header * gptEntrySize
  if !memory.entries then .ok (.outOfResources, data)
  else do
    match ← readInto io bufferSize (entryLba header) bufferSize with
    | .error status => pure (.blockIo status, data)
    | .ok entries =>
      let crcValue ← calculateCrc32 crc entries bufferSize
      if crcValue ≠ entryCrc32 header then pure (.crcError, data)
      else
        let entries ← endNames entries (entryCount header)
        pure (.success, some { protectiveMbr := mbr, header, entries })

/-- What is read into the buffers that were allocated. -/
def readRecords (crc : List UInt8 → UInt32) (memory : GptMemory) (io : BlockIo) (data : Option GptData) :
    Except GptFault (GptStatus × Option GptData) := do
  match ← readInto io sizeofMbrRecord 0 sizeofMbrRecord with
  | .error status => pure (.blockIo status, data)
  | .ok mbr =>
    match ← readInto io sizeofGptHeader 1 sizeofGptHeader with
    | .error status => pure (.blockIo status, data)
    | .ok header =>
      if ← gptHeaderValid crc mbr header then readGptEntries crc memory io mbr header data
      else pure (.unsupported, data)

/-- The status, and the data behind the caller's pointer. -/
def readGptData (crc : List UInt8 → UInt32) (memory : GptMemory) (blockIo : Option BlockIo)
    (data : Option GptData) : Except GptFault (GptStatus × Option GptData) :=
  match blockIo with
  | none => .ok (.notReady, data)
  | some io =>
    if !io.mediaPresent || io.logicalPartition then .ok (.noMedia, data)
    else
      match allocateGptData memory with
      | .null => .ok (.outOfResources, data)
      | .cleared => .error .useAfterFree
      | .live => readRecords crc memory io data

/-- `AddPartitionTable`, with the tables that `gPartitions` leads to. -/
def addPartitionTable (crc : List UInt8 → UInt32) (memory : GptMemory) (blockIo : Option BlockIo)
    (gPartitions : List GptData) : Except GptFault (List GptData) := do
  match ← readGptData crc memory blockIo none with
  | (.success, some gptData) => pure (gPartitions ++ [gptData])
  | _ => pure gPartitions

/-! ### Finding a partition -/

/-- The entries of a table from one on, as many as are left. -/
def findEntry (guid entries : List UInt8) (i : Nat) : Nat → Except GptFault (Option (List UInt8))
  | 0 => .ok none
  | left + 1 =>
    if gptEntrySize * i + gptEntrySize ≤ entries.length then
      let entry := (entries.drop (gptEntrySize * i)).take gptEntrySize
      if partitionGuid entry = guid then .ok (some entry) else findEntry guid entries (i + 1) left
    else .error .outOfBounds

/-- `FindPartWithGuid`, for a GUID that is there. -/
def findPartWithGuid (memory : Bool) (guid : List UInt8) : List GptData → Except GptFault (Option (List UInt8))
  | [] => .ok none
  | gptData :: rest => do
    match ← findEntry guid gptData.entries 0 (entryCount gptData.header) with
    | some entry => pure (if memory then some entry else none)
    | none => findPartWithGuid memory guid rest

end Meridian.Storage
