import Meridian.Btrfs.Chunks
import Meridian.Btrfs.Trees

/-!
# Volumes that describe themselves

`fsw_btrfs_read_logical` finds the chunk of an address in the bootstrap mapping, or in the chunk tree, which it
searches with reads of its own. The reads a search makes are one deeper than the search, and a search that is too
deep fails.
-/

namespace Meridian.Btrfs

open Lib.Attempt
open Lib.Word (u64)

variable {shift : Nat}

/-! ### Chunk items -/

def keySize : Nat := 17
def chunkItemSize : Nat := 48
def chunkStripeSize : Nat := 32

def ChunkStripe.ofBytes (bytes : List UInt8) : ChunkStripe where
  deviceId := number bytes 0 8
  offset := number bytes 8 8

/-- The stripes that are inside of what is loaded, with so many left. -/
def loadStripes (bytes : List UInt8) : Nat → List ChunkStripe
  | 0 => []
  | left + 1 =>
    if bytes.length < chunkStripeSize then []
    else ChunkStripe.ofBytes bytes :: loadStripes (bytes.drop chunkStripeSize) left

/-- The chunk of an item, with the offset of its key. -/
def Chunk.ofBytes (rawOff : Nat) (bytes : List UInt8) : BtrfsM Chunk :=
  if bytes.length < chunkItemSize then .error .outOfBounds
  else .ok {
    rawOff := rawOff
    size := number bytes 0 8
    stripeLength := number bytes 16 8
    type := number bytes 24 8
    nstripes := number bytes 44 2
    nsubstripes := number bytes 46 2
    stripes := loadStripes (bytes.drop chunkItemSize) (number bytes 44 2) }

def objectIdChunk : Nat := 0x100
def itemTypeChunk : Nat := 0xe4

/-- The loop over the bootstrap mapping, from its rest on. -/
def bootstrapChunk (addr : Nat) (mapping : List UInt8) : BtrfsM (Option Chunk) :=
  if mapping.length ≤ keySize then .ok none
  else if (Key.ofBytes mapping).type ≠ itemTypeChunk then .ok none
  else
    match Chunk.ofBytes (Key.ofBytes mapping).offset (mapping.drop keySize) with
    | .error stop => .error stop
    | .ok chunk =>
      if addr ≥ chunk.rawOff ∧ addr < u64 (chunk.rawOff + chunk.size) then .ok (some chunk)
      else bootstrapChunk addr (mapping.drop (keySize + chunkItemSize + chunkStripeSize * chunk.nstripes))
termination_by mapping.length
decreasing_by
  rw [List.length_drop]
  refine Nat.sub_lt (lt_of_le_of_lt (Nat.zero_le _) (Nat.lt_of_not_le ‹¬ mapping.length ≤ keySize›)) ?_
  rw [keySize, chunkItemSize]
  omega

/-! ### The volume -/

/-- What the mount keeps of the superblock. -/
structure VolumeInfo where
  bootstrapMapping : List UInt8
  chunkTree : Nat
  rootTree : Nat

section
variable {σ : Type} (info : VolumeInfo) (height : Nat) (read : Nat → Nat → Nat → VolumeM σ (List UInt8))

/-- The chunk of an address, by reads of a depth. -/
def findChunk (rdepth addr : Nat) : VolumeM σ Chunk := do
  let boot ← liftExcept (bootstrapChunk addr info.bootstrapMapping)
  match boot with
  | some chunk => return chunk
  | none =>
    let b ← lowerBound (read (rdepth + 1)) height ⟨objectIdChunk, itemTypeChunk, addr⟩ info.chunkTree rdepth
    if b.keyOut.offset > addr ∨ b.keyOut.type ≠ itemTypeChunk then throw (.status .volumeCorrupted)
    else
      let bytes ← read rdepth b.addr b.size
      liftExcept (Chunk.ofBytes b.keyOut.offset bytes)

end

/-- `fsw_btrfs_read_logical`, with so many reads inside of reads, over trees up to a height. -/
def readVolume (info : VolumeInfo) (height : Nat) : Nat → Nat → Nat → Nat →
    VolumeM (BtrfsVolume shift) (List UInt8)
  | 0, _, _, _ => throw .outOfFuel
  | fuel + 1, rdepth, addr, size => fun vol =>
    readLogical (fun vol addr => findChunk info height (readVolume info height fuel) rdepth addr vol) vol addr size

end Meridian.Btrfs
