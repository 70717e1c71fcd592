import Meridian.Bcachefs.Node

/-!
# Mounting

The model of `fsw_bcachefs_volume_mount` of `filesystems/fsw_bcachefs.c`. A walk over a section reads
the section alone, so that a read behind its end is out of bounds.
-/

namespace Meridian.Bcachefs

open Fsw

def superSector : Nat := 8
def superReadSectors : Nat := 128
def sbFieldOffset : Nat := 752
def sbFieldClean : Nat := 6
def jsetEntryBtreeRoot : Nat := 1
def btreeExtents : Nat := 0
def btreeInodes : Nat := 1
def btreeDirents : Nat := 2
def btreeReflink : Nat := 7
def btreeIdNr : Nat := 28

def bcachefsMagic : List UInt8 :=
  [0xc6, 0x85, 0x73, 0xf6, 0x66, 0xce, 0x90, 0xa9, 0xd9, 0x6a, 0x60, 0xcf, 0x80, 0x3d, 0xf7, 0xef]

abbrev Roots := List (Option BtreeRoot)

/-- The root that a journal-set entry names. -/
def readRoot (sb : List UInt8) (epos next entryU64s btreeId level : Nat) (roots : Roots) :
    FswM Roots := do
  let (key, keyBytes) ← bcachefsUnpackKey sb (u32 (epos + 8)) bcachefsCurrentFormat next
  if key.u64s ≠ entryU64s ∨ key.u64s * 8 < keyBytes ∨ key.u64s * 8 - keyBytes > maxValueBytes then
    fail .volumeCorrupted
  else do
    let value ← bytesAt (sb.take next) (u32 (epos + 8) + keyBytes) (key.u64s * 8 - keyBytes)
    let ptr ← bcachefsParseBtreePtr { key, value }
    pure (roots.set btreeId (some { level, ptr }))

def readEntry (sb : List UInt8) (epos next entryU64s btreeId level type : Nat) (roots : Roots) :
    FswM Roots :=
  if type = jsetEntryBtreeRoot ∧ btreeId < btreeIdNr then
    readRoot sb epos next entryU64s btreeId level roots
  else .ok roots

/-- The loop over the entries of the clean section. -/
def cleanLoop (sb : List UInt8) (fieldEnd : Nat) : Nat → Nat → Roots → FswM Roots
  | 0, epos, roots => if u32 (epos + 8) ≤ fieldEnd then .error .outOfFuel else .ok roots
  | fuel + 1, epos, roots =>
    if u32 (epos + 8) ≤ fieldEnd then do
      let entryU64s ← le (sb.take fieldEnd) epos 2
      let btreeId ← le (sb.take fieldEnd) (u32 (epos + 2)) 1
      let level ← le (sb.take fieldEnd) (u32 (epos + 3)) 1
      let type ← le (sb.take fieldEnd) (u32 (epos + 4)) 1
      let next := u32 (epos + 8 + entryU64s * 8)
      if entryU64s = 0 then .ok roots
      else if next > fieldEnd then fail .volumeCorrupted
      else do
        let roots ← readEntry sb epos next entryU64s btreeId level type roots
        cleanLoop sb fieldEnd fuel next roots
    else .ok roots

def readField (sb : List UInt8) (pos fieldEnd fieldType : Nat) (roots : Roots) : FswM Roots :=
  if fieldType = sbFieldClean then
    cleanLoop sb fieldEnd ((fieldEnd - pos) / 8) (u32 (pos + 24)) roots
  else .ok roots

/-- The loop over the superblock's sections. -/
def fieldLoop (sb : List UInt8) (sbBytes : Nat) : Nat → Nat → Roots → FswM Roots
  | 0, pos, roots => if u32 (pos + 8) ≤ sbBytes then .error .outOfFuel else .ok roots
  | fuel + 1, pos, roots =>
    if u32 (pos + 8) ≤ sbBytes then do
      let fieldU64s ← le (sb.take sbBytes) pos 4
      let fieldType ← le (sb.take sbBytes) (u32 (pos + 4)) 4
      if fieldU64s = 0 then .ok roots
      else
        let fieldEnd := u32 (pos + u32 (fieldU64s * 8))
        if fieldEnd > sbBytes ∨ fieldEnd ≤ pos then fail .volumeCorrupted
        else do
          let roots ← readField sb pos fieldEnd fieldType roots
          fieldLoop sb sbBytes fuel fieldEnd roots
    else .ok roots

/-- The volume and its label. -/
def fswBcachefsVolumeMount (blocks : Blocks) : FswM (Volume × List UInt8) := do
  let sb ← bcachefsReadSectors blocks superSector superReadSectors
  let magic ← bytesAt sb 24 16
  if magic ≠ bcachefsMagic then fail .unsupported
  else do
    let sbU64s ← le sb 124 4
    let sbBytes := u32 (sbU64s * 8)
    if sbBytes < sbFieldOffset ∨ sbBytes > superReadSectors * sectorSize then fail .volumeCorrupted
    else do
      let flags0 ← le sb 144 8
      let flags1 ← le sb 152 8
      let flags3 ← le sb 168 8
      let nrDevices ← le sb 123 1
      if (flags0 >>> 1) &&& 1 = 0 ∨ nrDevices ≠ 1 ∨ (flags3 >>> 63) &&& 1 ≠ 0 then
        fail .unsupported
      else if (flags1 >>> 10) &&& 0xf ≠ 0 ∨ flags3 &&& 0xffff ≠ 0 then fail .unsupported
      else do
        let blockSizeSectors ← le sb 120 2
        let blockBytes := blockSizeSectors * sectorSize
        let btreeNodeSectors := (flags0 >>> 12) &&& 0xffff
        if blockSizeSectors = 0 ∨ btreeNodeSectors = 0 ∨ btreeNodeSectors > maxNodeSectors then
          fail .unsupported
        else do
          let roots ← fieldLoop sb sbBytes ((sbBytes - sbFieldOffset) / 8) sbFieldOffset
            (List.replicate btreeIdNr none)
          let label ← bytesAt sb 72 32
          if (roots[btreeExtents]?.join).isNone ∨ (roots[btreeInodes]?.join).isNone ∨
              (roots[btreeDirents]?.join).isNone then fail .unsupported
          else
            pure ({ blockSizeSectors, blockBytes, btreeNodeSectors, roots },
              label.takeWhile (· ≠ 0))

end Meridian.Bcachefs
