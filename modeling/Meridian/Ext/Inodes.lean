import Meridian.Fsw.Shandle

/-!
# Where the blocks of a file are

The model of `fsw_ext2_get_extent` of `filesystems/fsw_ext2.c` and of `fsw_ext4_get_by_extent`,
`fsw_ext4_get_by_blkaddr` and `fsw_ext4_get_extent` of `filesystems/fsw_ext4.c`. The physical and the logical blocks of
a volume are of one size. `blockGet` is `fsw_block_get`; an entry of a node is read as a whole.
-/

namespace Meridian.Ext

open Meridian.Fsw

/-- What is read of `struct fsw_ext4_volume`, and of `struct fsw_ext2_volume`, about blocks. -/
structure Geometry where
  blocksize : UInt32
  indBcnt : Nat
  dindBcnt : Nat

/-- What is read of a dnode and its inode. `block` are the bytes from `i_block` on. -/
structure Dnode where
  size : Nat
  flags : Nat
  block : List UInt8

def ndirBlocks : Nat := 12
def indBlock : Nat := ndirBlocks
def dindBlock : Nat := indBlock + 1
def tindBlock : Nat := dindBlock + 1

/-- The value that `get_extent` returns, and the extent that it leaves. -/
abbrev Answer := Option FswStatus × FswExtent

def Dnode.fileBcnt (dno : Dnode) (geometry : Geometry) : Nat :=
  u32 ((dno.size + geometry.blocksize.toNat - 1) / geometry.blocksize.toNat)

def hole (extent : FswExtent) (logCount : UInt32) : Answer :=
  (some .ioError, { extent with type := .invalid, logCount })

def found (extent : FswExtent) (physStart : Nat) (logCount : UInt32) : Answer :=
  (none, { extent with type := .physblock, physStart, logCount })

section
variable (geometry : Geometry) (blockGet : Nat → Except FswStatus (List UInt8)) (dno : Dnode)

/-! ### By block addresses -/

/-- `path`, its first index apart. -/
def pathTo (bno : Nat) : Nat × List Nat :=
  if bno < ndirBlocks then (bno, [])
  else
    let bno := bno - ndirBlocks
    if bno < geometry.indBcnt then (indBlock, [bno])
    else
      let bno := bno - geometry.indBcnt
      if bno < geometry.dindBcnt then (dindBlock, [bno / geometry.indBcnt, bno % geometry.indBcnt])
      else
        let bno := bno - geometry.dindBcnt
        (tindBlock,
          [bno / geometry.dindBcnt, bno / geometry.indBcnt % geometry.indBcnt, bno % geometry.indBcnt])

/-- Where the loop over a path ends: the buffer with its number of addresses, the index in it and the address. -/
structure Place where
  buffer : List UInt8
  bufBcnt : Nat
  index : Nat
  bno : Nat
  deriving DecidableEq, Repr

def address (buffer : List UInt8) (index : Nat) : FswM Nat := le buffer (4 * index) 4

/-- The loop over the path: it ends with the path, or at an address that is zero. -/
def walkPath (buffer : List UInt8) (bufBcnt index : Nat) : List Nat → FswM (Except FswStatus Place)
  | [] => do
    let bno ← address buffer index
    return .ok ⟨buffer, bufBcnt, index, bno⟩
  | next :: rest => do
    let bno ← address buffer index
    if bno = 0 then return .ok ⟨buffer, bufBcnt, index, bno⟩
    else
      match blockGet bno with
      | .error status => return .error status
      | .ok buffer => walkPath buffer geometry.indBcnt next rest

/-- The loop that counts the blocks of an extent, over so many addresses behind the first one. -/
def countRun (buffer : List UInt8) (index logStart fileBcnt : Nat) (goesOn : Nat → Nat → Bool) :
    Nat → Nat → FswM Nat
  | 0, logCount => return logCount
  | left + 1, logCount =>
    if logStart + logCount < fileBcnt then do
      let next ← address buffer (index + logCount)
      let last ← address buffer (index + logCount - 1)
      if goesOn last next then countRun buffer index logStart fileBcnt goesOn left (logCount + 1)
      else return logCount
    else return logCount

/-- The extent of a block by its path, where `goesOn` says, for a hole and for a block, if it goes on at the next
address. -/
def getByPath (extent : FswExtent) (goesOn : Bool → Nat → Nat → Bool) : FswM Answer := do
  let (first, path) := pathTo geometry (u32 extent.logStart)
  let walked ← walkPath geometry blockGet dno.block ndirBlocks first path
  match walked with
  | .error status => return (some status, extent)
  | .ok place =>
    let logCount ← countRun place.buffer place.index extent.logStart (dno.fileBcnt geometry)
      (goesOn (place.bno = 0)) (place.bufBcnt - (place.index + 1)) 1
    if place.bno = 0 then return hole extent (.ofNat logCount)
    else return found extent place.bno (.ofNat logCount)

/-- `fsw_ext2_get_extent`. -/
def fswExt2GetExtent (extent : FswExtent) : FswM Answer :=
  getByPath geometry blockGet dno { extent with type := .physblock, logCount := 1 }
    fun _ last next => next = u32 (last + 1)

/-- `fsw_ext4_get_by_blkaddr`. -/
def fswExt4GetByBlkaddr (extent : FswExtent) : FswM Answer :=
  getByPath geometry blockGet dno { extent with logCount := 1 }
    fun sparse last next => if sparse then next = 0 else next = u32 (last + 1)

/-! ### By extents -/

/-- `struct ext4_extent_header`. -/
structure ExtentHeader where
  magic : Nat
  entries : Nat
  depth : Nat
  deriving DecidableEq, Repr

def ExtentHeader.read (buffer : List UInt8) : FswM ExtentHeader := do
  let magic ← le buffer 0 2
  let entries ← le buffer 2 2
  let depth ← le buffer 6 2
  return ⟨magic, entries, depth⟩

/-- `struct ext4_extent`. -/
structure Extent where
  block : Nat
  len : Nat
  start : Nat
  deriving DecidableEq, Repr

/-- `struct ext4_extent_idx`. -/
structure ExtentIdx where
  block : Nat
  leaf : Nat
  deriving DecidableEq, Repr

def headerSize : Nat := 12
def entrySize : Nat := 12
def extentMagic : Nat := 0xf30a

def Extent.read (buffer : List UInt8) (i : Nat) : FswM Extent := do
  let pos := headerSize + i * entrySize
  let block ← le buffer pos 4
  let len ← le buffer (pos + 4) 2
  let startHi ← le buffer (pos + 6) 2
  let startLo ← le buffer (pos + 8) 4
  return ⟨block, len, startHi * 2 ^ 32 + startLo⟩

def ExtentIdx.read (buffer : List UInt8) (i : Nat) : FswM ExtentIdx := do
  let pos := headerSize + i * entrySize
  let block ← le buffer pos 4
  let leafLo ← le buffer (pos + 4) 4
  let leafHi ← le buffer (pos + 8) 2
  return ⟨block, leafHi * 2 ^ 32 + leafLo⟩

/-- The loop over the extents of a leaf from the `i`-th on, with so many left. -/
def leafLoop (fileBcnt bno : Nat) (extent : FswExtent) (buffer : List UInt8) (i : Nat) : Nat → FswM Answer
  | 0 => return hole extent (.ofNat fileBcnt - .ofNat bno)
  | left + 1 => do
    let ext ← Extent.read buffer i
    if bno ≥ ext.block ∧ bno < u32 (ext.block + ext.len) then
      return found extent (u64 (ext.start + (bno - ext.block))) (.ofNat ext.len - .ofNat (bno - ext.block))
    else if ext.block > bno then return hole extent (.ofNat (ext.block - bno))
    else leafLoop fileBcnt bno extent buffer (i + 1) left

/-- The loop over the entries of an inner node: the last one that is not behind the block. -/
def indexLoop (bno : Nat) (buffer : List UInt8) (i : Nat) (best : Option ExtentIdx) : Nat → FswM (Option ExtentIdx)
  | 0 => return best
  | left + 1 => do
    let idx ← ExtentIdx.read buffer i
    if bno < idx.block then return best else indexLoop bno buffer (i + 1) (some idx) left

/-- The loop down the tree. The address of a node is cut to 32 bits. -/
def getByExtentLoop (fileBcnt bno : Nat) (extent : FswExtent) : Nat → List UInt8 → FswM Answer
  | 0, _ => .error .outOfFuel
  | fuel + 1, buffer => do
    let header ← ExtentHeader.read buffer
    if header.magic ≠ extentMagic then return (some .volumeCorrupted, extent)
    else if header.depth = 0 then leafLoop fileBcnt bno extent buffer 0 header.entries
    else
      let best ← indexLoop bno buffer 0 none header.entries
      match best with
      | none =>
        let first ← ExtentIdx.read buffer 0
        return hole extent (.ofNat first.block - .ofNat bno)
      | some idx =>
        match blockGet (u32 idx.leaf) with
        | .error status => return (some status, extent)
        | .ok buffer => getByExtentLoop fileBcnt bno extent fuel buffer

def inlineDataFl : Nat := 0x20000000

/-- `fsw_ext4_get_by_extent`. -/
def fswExt4GetByExtent (fuel : Nat) (extent : FswExtent) : FswM Answer :=
  if dno.flags &&& inlineDataFl ≠ 0 then .ok (some .unsupported, extent)
  else getByExtentLoop blockGet (dno.fileBcnt geometry) (u32 extent.logStart) extent fuel dno.block

def inodeExtents : Nat := 19

/-- `fsw_ext4_get_extent`. -/
def fswExt4GetExtent (fuel : Nat) (extent : FswExtent) : FswM Answer :=
  let extent := { extent with logCount := 1 }
  if dno.flags &&& 1 <<< inodeExtents ≠ 0 then fswExt4GetByExtent geometry blockGet dno fuel extent
  else fswExt4GetByBlkaddr geometry blockGet dno extent

end

end Meridian.Ext
