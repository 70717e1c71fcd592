import Meridian.Bcachefs.Directory

/-!
# Inodes and extents

The model of `fsw_bcachefs_dnode_fill` and `fsw_bcachefs_get_extent` of `filesystems/fsw_bcachefs.c`,
with `bcachefs_parse_extent_ptr`, `bcachefs_map_extent_value` and `bcachefs_map_reflink`.
-/

namespace Meridian.Bcachefs

open Fsw

def keyTypeInode : Nat := 8
def keyTypeInodeV2 : Nat := 23
def keyTypeInodeV3 : Nat := 29

/-- What `fsw_bcachefs_dnode_fill` sets: `mode`, `sectors`, `g.size` and `g.type`. -/
structure Inode where
  mode : Nat
  sectors : Nat
  size : Nat
  type : DnodeType
  deriving DecidableEq, Repr

/-- The mode, the sectors and the size of an inode's value. -/
def inodeFields (lookup : LookupResult) : FswM (Nat × Nat × Nat) :=
  if lookup.key.type = keyTypeInodeV3 then
    if lookup.value.length < 48 then fail .volumeCorrupted
    else do
      let flags ← le lookup.value 16 8
      let sectors ← le lookup.value 24 8
      let size ← le lookup.value 32 8
      pure ((flags >>> 36) &&& 0xffff, sectors, size)
  else if lookup.key.type = keyTypeInodeV2 then
    if lookup.value.length < 26 then fail .volumeCorrupted
    else do
      let _flags ← le lookup.value 16 8
      let mode ← le lookup.value 24 2
      pure (mode, 0, 0)
  else if lookup.key.type = keyTypeInode then
    if lookup.value.length < 14 then fail .volumeCorrupted
    else do
      let mode ← le lookup.value 12 2
      pure (mode, 0, 0)
  else fail .volumeCorrupted

def modeType (mode : Nat) : DnodeType :=
  match mode &&& 0o170000 with
  | 0o040000 => .dir
  | 0o100000 => .file
  | 0o120000 => .symlink
  | _ => .special

variable (blocks : Blocks) (vol : Volume)

/-- `fsw_bcachefs_dnode_fill`; `none` is a dnode that is left as it is. -/
def fswBcachefsDnodeFill (dnodeId : Nat) (type : DnodeType) (size : Nat) : FswM (Option Inode) :=
  if type ≠ .unknown ∧ size ≠ 0 then pure none
  else do
    let lookup ← bcachefsBtreeLookup blocks vol btreeInodes { inode := 0, offset := dnodeId, snapshot := 0 }
    if lookup.key.p.inode ≠ 0 ∨ lookup.key.p.offset ≠ dnodeId then fail .notFound
    else do
      let (mode, sectors, size) ← inodeFields lookup
      pure (some { mode, sectors, size, type := modeType mode })

/-! ### Extents -/

/-- The loop of `bcachefs_parse_extent_ptr` over the entries from a position on. -/
def extentLoop (value : List UInt8) : Nat → Nat → FswM Nat
  | 0, pos => if u32 (pos + 8) ≤ value.length then .error .outOfFuel else fail .notFound
  | fuel + 1, pos =>
    if u32 (pos + 8) ≤ value.length then do
      let raw ← le value pos 8
      if raw &&& 1 ≠ 0 then
        if (raw >>> 1) &&& 1 ≠ 0 ∨ (raw >>> 3) &&& 1 ≠ 0 ∨ (raw >>> 48) &&& 0xff ≠ 0 then fail .unsupported
        else pure ((raw >>> 4) &&& 0x0fffffffffff)
      else if raw &&& 2 ≠ 0 then
        if (raw >>> 28) &&& 0xf ≠ 0 then fail .unsupported
        else extentLoop value fuel (u32 (pos + 8))
      else if raw &&& 4 ≠ 0 then
        if (raw >>> 44) &&& 0xf ≠ 0 then fail .unsupported
        else extentLoop value fuel (u32 (pos + 16))
      else if raw &&& 8 ≠ 0 then
        if (raw >>> 60) &&& 0xf ≠ 0 then fail .unsupported
        else extentLoop value fuel (u32 (pos + 24))
      else fail .unsupported
    else fail .notFound

def bcachefsParseExtentPtr (value : List UInt8) : FswM Nat := extentLoop value (value.length / 8) 0

/-- The sector that is the start of the key, which is stored with its end. -/
def Key.start (key : Key) : Nat := u64 (key.p.offset + (2 ^ 64 - key.size))

/-- `bcachefs_map_extent_value`: the sector on the device, and how many follow it. -/
def bcachefsMapExtentValue (lookup : LookupResult) (logicalSector : Nat) : FswM (Nat × Nat) :=
  if lookup.key.size = 0 ∨ logicalSector ≥ lookup.key.p.offset then fail .notFound
  else if logicalSector < lookup.key.start then fail .notFound
  else do
    let ptrOffset ← bcachefsParseExtentPtr lookup.value
    pure (u64 (ptrOffset + (logicalSector - lookup.key.start)), u32 (lookup.key.p.offset - logicalSector))

def bcachefsMapReflink (lookup : LookupResult) (logicalSector : Nat) : FswM (Nat × Nat) :=
  if lookup.value.length < 16 ∨ lookup.key.size = 0 ∨ logicalSector ≥ lookup.key.p.offset then
    fail .volumeCorrupted
  else if logicalSector < lookup.key.start then fail .notFound
  else do
    let idxFlags ← le lookup.value 0 8
    if (idxFlags >>> 56) &&& 1 ≠ 0 then fail .unsupported
    else do
      let reflinkSector := u64 ((idxFlags &&& 0x00ffffffffffffff) + (logicalSector - lookup.key.start))
      let indirect ← bcachefsBtreeLookup blocks vol btreeReflink
        { inode := 0, offset := u64 (reflinkSector + 1), snapshot := 0 }
      if indirect.key.type ≠ keyTypeReflinkV then fail .unsupported
      else if indirect.value.length < 8 then fail .volumeCorrupted
      else if reflinkSector < indirect.key.start ∨ reflinkSector ≥ indirect.key.p.offset then fail .notFound
      else do
        let ptrOffset ← bcachefsParseExtentPtr (indirect.value.drop 8)
        let directCount := u32 (lookup.key.p.offset - logicalSector)
        let indirectCount := u32 (indirect.key.p.offset - reflinkSector)
        pure (u64 (ptrOffset + (reflinkSector - indirect.key.start)), min directCount indirectCount)

/-- `fsw_bcachefs_get_extent`: `phys_start` and `log_count`. -/
def fswBcachefsGetExtent (dnodeId : Nat) (type : DnodeType) (logStart : Nat) : FswM (Nat × Nat) :=
  if type ≠ .file then fail .unsupported
  else do
    let lookup ← bcachefsBtreeLookup blocks vol btreeExtents
      { inode := dnodeId, offset := u64 (logStart + 1), snapshot := 0 }
    if lookup.key.p.inode ≠ dnodeId then fail .notFound
    else if lookup.key.type = keyTypeExtent then bcachefsMapExtentValue lookup logStart
    else if lookup.key.type = keyTypeReflinkP then bcachefsMapReflink blocks vol lookup logStart
    else fail .unsupported

end Meridian.Bcachefs
