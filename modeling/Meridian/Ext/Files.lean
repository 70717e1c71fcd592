import Meridian.Ext.ExtentTrees
import Meridian.Fsw.FileProtocol

/-!
# Files of an ext volume

A file whose blocks are found by addresses or by extents is a file in blocks of the disk, so that its bytes are read
through the file protocol of the firmware as by a cursor.
-/

namespace Meridian.Ext

open Lib.SearchTree.Tree (items)
open Lib.Result
open Meridian.Fsw
open Meridian.Fsw.FileProtocol (Answers Call answers opened)

/-- What is got for a block, from the extent of a handle. A run that is out of bounds counts as a failed one. -/
def answerFor (run : FswExtent → FswM Answer) (before : FswExtent) (logBno : Nat) : Answer :=
  match run { before with logStart := logBno } with
  | .ok answer => answer
  | .error _ => (some .volumeCorrupted, { before with logStart := logBno })

/-- A file whose blocks are located by its file system, from any extent of a handle. -/
structure DiskFile where
  disk : Disk
  power : ∃ k, disk.blocksize.toNat = 2 ^ k
  dno : Dnode
  size_lt : dno.size < 2 ^ 64
  blocks : Nat → Option Nat
  small : ∀ k bno, blocks k = some bno → bno < 2 ^ 64
  fails : FswStatus → Prop
  blockGet : Nat → Except FswStatus (List UInt8)
  reads : ∀ k < blockCount dno.size disk.blocksize.toNat, ∀ bno, blocks k = some bno →
    Gets disk fails blockGet bno
  getExtent : FswExtent → FswM Answer
  located : ∀ k < blockCount dno.size disk.blocksize.toNat, ∀ extent : FswExtent, extent.logStart = k →
    ∃ answer, getExtent extent = .ok answer ∧
      Located disk.blocksize.toNat fails blocks (blockCount dno.size disk.blocksize.toNat) k answer

/-- It is a file in blocks of the disk. -/
def DiskFile.blockFile (file : DiskFile) (before : FswExtent) : BlockFile where
  blocksize := file.disk.blocksize
  power := file.power
  size := file.dno.size
  size_lt := file.size_lt
  disk := file.disk.block
  whole := file.disk.whole
  blocks := file.blocks
  small := file.small
  fails := file.fails
  blockGet := file.blockGet
  reads k below bno block := by
    have gets := file.reads k below bno block
    rw [Gets] at gets
    generalize file.blockGet bno = got at gets
    cases gets with
    | ok same => exact .inl (congrArg Except.ok same)
    | error may => exact .inr ⟨_, may, rfl⟩
  getExtent := answerFor file.getExtent before
  located k below := by
    obtain ⟨answer, ran, located⟩ := file.located k below { before with logStart := k } rfl
    rw [answerFor, ran]
    exact located

/-! ### By addresses -/

/-- A file by addresses, which has as many blocks at most as an inode has addresses for. -/
structure AddressFile where
  disk : Disk
  power : ∃ k, disk.blocksize.toNat = 2 ^ k
  size : disk.blocksize.toNat ≤ 65536
  dno : Dnode
  size_lt : dno.size < 2 ^ 64
  reach : blockCount dno.size disk.blocksize.toNat ≤ disk.reach
  word : blockCount dno.size disk.blocksize.toNat ≤ 2 ^ 32
  fails : FswStatus → Prop
  blockGet : Nat → Except FswStatus (List UInt8)
  mapped : dno.Mapped disk fails blockGet
  reads : ∀ k < blockCount dno.size disk.blocksize.toNat, ∀ bno, dno.blocks disk k = some bno →
    Gets disk fails blockGet bno
  small : ∀ bno, dno.Address disk bno → bno < 2 ^ 32 - 1

theorem AddressFile.blocks_small (file : AddressFile) (k bno : Nat) (block : file.dno.blocks file.disk k = some bno) :
    bno < 2 ^ 64 := by
  rw [Dnode.blocks] at block
  split at block
  · cases block
  · obtain rfl := Option.some.inj block
    have := file.small _ (blockAt_address file.dno file.disk k)
    omega

/-- A file of an ext2 volume. -/
def AddressFile.ext2 (file : AddressFile) (other : ∀ bno, file.dno.Address file.disk bno → bno ≠ 1) : DiskFile where
  disk := file.disk
  power := file.power
  dno := file.dno
  size_lt := file.size_lt
  blocks := file.dno.blocks file.disk
  small := file.blocks_small
  fails := file.fails
  blockGet := file.blockGet
  reads := file.reads
  getExtent := fswExt2GetExtent file.disk.geometry file.blockGet file.dno
  located _ below _ start := fswExt2GetExtent_located file.mapped (Nat.lt_of_lt_of_le below file.reach)
    (Nat.lt_of_lt_of_le below file.word) start file.size (fun bno address => ⟨file.small bno address,
      other bno address⟩) _

/-- A file of an ext4 volume without extents. -/
def AddressFile.ext4 (file : AddressFile) (flag : file.dno.flags &&& 1 <<< inodeExtents = 0)
    (plain : ¬ file.fails .ioError) (fuel : Nat) : DiskFile where
  disk := file.disk
  power := file.power
  dno := file.dno
  size_lt := file.size_lt
  blocks := file.dno.blocks file.disk
  small := file.blocks_small
  fails := file.fails
  blockGet := file.blockGet
  reads := file.reads
  getExtent := fswExt4GetExtent file.disk.geometry file.blockGet file.dno fuel
  located k below extent start := by
    rw [fswExt4GetExtent, if_neg (not_not.mpr flag)]
    exact fswExt4GetByBlkaddr_located file.mapped (Nat.lt_of_lt_of_le below file.reach)
      (Nat.lt_of_lt_of_le below file.word) start file.size file.small plain _

/-! ### By extents -/

/-- A file by extents, none of whose blocks is in a gap. -/
structure ExtentFile where
  disk : Disk
  power : ∃ k, disk.blocksize.toNat = 2 ^ k
  dno : Dnode
  byExtents : dno.flags &&& 1 <<< inodeExtents ≠ 0
  outside : dno.flags &&& inlineDataFl = 0
  short : blockCount dno.size disk.blocksize.toNat * disk.blocksize.toNat < 2 ^ 32
  depth : Nat
  tree : ExtentTree depth
  fails : FswStatus → Prop
  plain : ¬ fails .ioError
  blockGet : Nat → Except FswStatus (List UInt8)
  holds : Holds disk fails blockGet (blockCount dno.size disk.blocksize.toNat) depth dno.block tree
  noGap : ∀ bno < blockCount dno.size disk.blocksize.toNat, ¬ Gap bno tree
  reads : ∀ k < blockCount dno.size disk.blocksize.toNat, ∀ bno, extentBlocks (items depth tree) k = some bno →
    Gets disk fails blockGet bno

theorem ExtentFile.size_lt (file : ExtentFile) : file.dno.size < 2 ^ 64 := by
  have positive := file.disk.blocksize_pos
  have whole : file.dno.size ≤ blockCount file.dno.size file.disk.blocksize.toNat * file.disk.blocksize.toNat :=
    Nat.not_lt.mp fun past => Nat.lt_irrefl _ ((lt_blockCount positive _).mpr past)
  exact Nat.lt_of_le_of_lt whole (Nat.lt_trans file.short (by decide))

theorem ExtentFile.blocks_small (file : ExtentFile) (k bno : Nat)
    (block : extentBlocks (items file.depth file.tree) k = some bno) : bno < 2 ^ 64 := by
  rw [extentBlocks, Option.map_eq_some_iff] at block
  obtain ⟨e, found, rfl⟩ := block
  obtain ⟨mem, after, before⟩ := Lib.Runs.runAt_mem found
  obtain ⟨-, -, -, far⟩ := file.holds.sized e mem
  omega

def ExtentFile.ext4 (file : ExtentFile) {fuel : Nat} (enough : file.depth < fuel) : DiskFile where
  disk := file.disk
  power := file.power
  dno := file.dno
  size_lt := file.size_lt
  blocks := extentBlocks (items file.depth file.tree)
  small := file.blocks_small
  fails := file.fails
  blockGet := file.blockGet
  reads := file.reads
  getExtent := fswExt4GetExtent file.disk.geometry file.blockGet file.dno fuel
  located k below extent start := by
    rw [fswExt4GetExtent, if_pos file.byExtents]
    obtain ⟨answer, ran, is⟩ := @getByExtent_tells file.disk file.fails file.blockGet k
      { extent with logCount := 1 } file.dno file.depth fuel file.tree file.holds file.outside enough file.short
      below start
    refine ⟨answer, ran, ?_⟩
    rcases is with ⟨status, may, rfl⟩ | tells
    · refine (if_neg ?_).mpr may
      rintro ⟨rfl, -⟩
      exact file.plain may
    · exact (tells.located_iff file.holds.apart (fun e mem => file.holds.extent_sized mem) below start
        file.disk.blocksize_pos file.short).mpr (file.noGap k below)

/-! ### Reading them -/

/-- A file of an ext volume. -/
inductive ExtFile
  | ext2 (file : AddressFile) (other : ∀ bno, file.dno.Address file.disk bno → bno ≠ 1)
  | ext4 (file : AddressFile) (flag : file.dno.flags &&& 1 <<< inodeExtents = 0) (plain : ¬ file.fails .ioError)
      (fuel : Nat)
  | extents (file : ExtentFile) {fuel : Nat} (enough : file.depth < fuel)

def ExtFile.diskFile : ExtFile → DiskFile
  | .ext2 file other => file.ext2 other
  | .ext4 file flag plain fuel => file.ext4 flag plain fuel
  | .extents file enough => file.ext4 enough

/-- A hole and two blocks behind it. -/
def sampleFile : ExtentFile where
  disk := sampleDisk
  power := smallDisk_power sampleBlock sampleBlock_length
  dno :=
    { size := 192
      flags := 1 <<< inodeExtents
      block := sampleNode 60 1 0 [1, 0, 0, 0, 2, 0, 0, 0, 5, 0, 0, 0] }
  byExtents := by decide
  outside := by decide
  short := by decide
  depth := 0
  tree := [⟨1, 2, 5⟩]
  fails _ := False
  plain := id
  blockGet := sampleGet
  holds := by
    refine ⟨⟨rfl, fun i lt => ?_⟩, List.pairwise_singleton _ _, List.pairwise_singleton _ _, by decide⟩
    obtain rfl : i = 0 := Nat.lt_one_iff.mp lt
    rfl
  noGap _ _ := not_gap_leaf
  reads _ _ _ _ := .ok rfl

end Meridian.Ext
