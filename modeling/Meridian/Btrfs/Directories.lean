import Meridian.Btrfs.Crc32c
import Meridian.Btrfs.Trees

/-!
# Directories

The model of `fsw_btrfs_lookup_dir_item`, `fsw_btrfs_get_root_tree`, `fsw_btrfs_get_sub_dnode`,
`fsw_btrfs_dir_lookup` and `fsw_btrfs_dir_read` of `filesystems/fsw_btrfs.c`, over reads of logical addresses that
have a depth. A dnode that is made stands for itself; making it succeeds. Names are in UTF-8.
-/

namespace Meridian.Btrfs

open Lib.Attempt
open Fsw (FswStatus)

/-! ### Structures on the disk -/

/-- `struct btrfs_dir_item`, with the name behind it. -/
structure DirItem where
  key : Key
  m : Nat
  n : Nat
  type : Nat
  name : List UInt8
  deriving DecidableEq, Repr

def dirItemSize : Nat := 30

def DirItem.ofBytes (bytes : List UInt8) : DirItem where
  key := Key.ofBytes bytes
  m := number bytes 25 2
  n := number bytes 27 2
  type := number bytes 29 1
  name := (bytes.drop dirItemSize).take (number bytes 27 2)

/-- How far it is to the next one. -/
def DirItem.size (entry : DirItem) : Nat := dirItemSize + entry.n + entry.m

def objectIdTopRoot : Nat := 5
def itemTypeInodeItem : Nat := 0x01
def itemTypeDirItem : Nat := 0x54
def itemTypeRootItem : Nat := 0x84

theorem drop_dirItem_lt {rest : List UInt8} (some : rest ≠ []) (entry : DirItem) :
    (rest.drop entry.size).length < rest.length := by
  have pos := List.length_pos_iff.mpr some
  rw [List.length_drop, DirItem.size, dirItemSize]
  omega

/-! ### Dnodes -/

inductive DnodeType where
  | file | dir | symlink | special
  deriving DecidableEq, Repr

/-- What a dnode is made of: `tree_id`, `dnode_id`, the type and the name. -/
structure Child where
  treeId : Nat
  dnodeId : Nat
  type : DnodeType
  name : List UInt8
  deriving DecidableEq, Repr

/-- The directory that is looked at. -/
structure DirNode where
  treeId : Nat
  dnodeId : Nat
  isRoot : Bool
  deriving DecidableEq, Repr

/-- `is_master`, `root_tree` and `top_tree` of the volume, and the height of its trees. -/
structure Mounted where
  isMaster : Bool
  rootTree : Nat
  topTree : Nat
  height : Nat

def DnodeType.ofDirItemType (type : Nat) : DnodeType :=
  if type = 2 then .dir else if type = 1 then .file else if type = 7 then .symlink else .special

section
variable {σ : Type} (read : Nat → Nat → Nat → VolumeM σ (List UInt8)) (vol : Mounted)

def rootItemSize : Nat := 192

/-- `fsw_btrfs_get_root_tree`. -/
def getRootTree (key : Key) : VolumeM σ Nat := do
  let b ← lowerBound (read 1) vol.height key vol.rootTree 0
  if key.type ≠ b.keyOut.type ∨ key.objectId ≠ b.keyOut.objectId then throw (.status .notFound)
  else
    let bytes ← read 0 b.addr rootItemSize
    return number bytes 176 8

/-- `fsw_btrfs_get_sub_dnode`. -/
def getSubDnode (treeId : Nat) (entry : DirItem) (name : List UInt8) : VolumeM σ Child := do
  if entry.key.type = itemTypeRootItem then
    let tree ← getRootTree read vol entry.key
    return ⟨tree, 0x100, .dir, name⟩
  else if entry.key.type = itemTypeInodeItem then
    return ⟨treeId, entry.key.objectId, DnodeType.ofDirItemType entry.type, name⟩
  else throw (.status .volumeCorrupted)

/-! ### Looking up a name -/

/-- The key offset of a name. -/
def nameHash (name : List UInt8) : Nat := (~~~ getCrc32c 1 name).toNat

/-- The loop over the entries of an item, from the rest of its bytes on. -/
def findName (name rest : List UInt8) : Option DirItem :=
  if rest = [] then none
  else
    let entry := DirItem.ofBytes rest
    if entry.n = 0 ∨ entry.size > rest.length then none
    else if entry.n = name.length ∧ entry.name = name then some entry
    else findName name (rest.drop entry.size)
termination_by rest.length
decreasing_by exact drop_dirItem_lt ‹_› _

/-- `fsw_btrfs_lookup_dir_item`. -/
def lookupDirItem (treeId objectId : Nat) (name : List UInt8) : VolumeM σ DirItem := do
  let key : Key := ⟨objectId, itemTypeDirItem, nameHash name⟩
  let b ← lowerBound (read 1) vol.height key treeId 0
  if b.size = 0 then throw (.status .notFound)
  else if keyCmp key b.keyOut ≠ 0 then throw (.status .notFound)
  else
    let bytes ← read 0 b.addr b.size
    match findName name bytes with
    | some entry => return entry
    | none => throw (.status .notFound)

/-- What a lookup comes to: the directory itself, or a dnode that is made. -/
inductive LookedUp where
  | itself
  | child (child : Child)
  deriving DecidableEq, Repr

/-- `fsw_btrfs_dir_lookup`. The name `...` stands for the top of the volume. -/
def dirLookup (dno : DirNode) (name : List UInt8) : VolumeM σ LookedUp := do
  if ¬ vol.isMaster then throw (.status .notFound)
  else if name = [0x2e, 0x2e, 0x2e] ∧ dno.isRoot then
    if dno.treeId = vol.topTree then return .itself else return .child ⟨vol.topTree, 0x100, .dir, name⟩
  else
    let entry ← lookupDirItem read vol dno.treeId dno.dnodeId name
    let child ← getSubDnode read vol dno.treeId entry name
    return .child child

/-! ### Reading a directory -/

def Stop.isStatus : Stop → Bool
  | .status _ => true
  | _ => false

/-- The loop over the entries of an item, from the rest of its bytes on: the first one that a dnode is made of.
Behind the bytes the memory is not set. -/
def firstChild (dno : DirNode) (pos : Nat) (rest : List UInt8) : VolumeM σ (Option Child) :=
  if rest = [] then return none
  else
    let entry := DirItem.ofBytes rest
    if rest.length < dirItemSize then throw .outOfBounds
    else if pos ≠ 0 ∧ pos = entry.key.offset then firstChild dno pos (rest.drop entry.size)
    else if rest.length < dirItemSize + entry.n then throw .outOfBounds
    else do
      let child ← catching Stop.isStatus (getSubDnode read vol dno.treeId entry entry.name)
      match child with
      | some child => return some child
      | none => firstChild dno pos (rest.drop entry.size)
termination_by rest.length
decreasing_by all_goals exact drop_dirItem_lt ‹_› _

def DirNode.has (dno : DirNode) (key : Key) : Bool := key.objectId = dno.dnodeId ∧ key.type = itemTypeDirItem

/-- The loop over the items of a directory, up to so many: a child, and the position behind it. -/
def dirLoop (dno : DirNode) (pos : Nat) : Nat → Bound → VolumeM σ (Child × Nat)
  | 0, _ => throw .outOfFuel
  | fuel + 1, b => do
    if ¬ dno.has b.keyOut then throw (.status .notFound)
    else
      let bytes ← read 0 b.addr b.size
      let found ← firstChild read vol dno pos bytes
      match found with
      | some child => return (child, b.keyOut.offset)
      | none =>
        let next ← nextLeaf (read 0) vol.height b.desc
        match next with
        | some b => dirLoop dno pos fuel b
        | none => throw (.status .notFound)

/-- The next item, if there is one. -/
def nextItem (b : Bound) : VolumeM σ Bound := do
  let next ← nextLeaf (read 0) vol.height b.desc
  match next with
  | some b => return b
  | none => throw (.status .notFound)

/-- `fsw_btrfs_dir_read` at a position, in a directory of up to so many items. -/
def dirRead (fuel : Nat) (dno : DirNode) (pos : Nat) : VolumeM σ (Child × Nat) := do
  if ¬ vol.isMaster then throw (.status .notFound)
  else if pos = 2 ^ 64 - 1 then throw (.status .notFound)
  else
    let b ← lowerBound (read 1) vol.height ⟨dno.dnodeId, itemTypeDirItem, pos⟩ dno.treeId 0
    if b.size = 0 then throw (.status .notFound)
    else
      let b ← (if dno.has b.keyOut then pure b else nextItem read vol b)
      let b ← (if dno.has b.keyOut ∧ b.keyOut.offset ≤ pos then nextItem read vol b else pure b)
      dirLoop read vol dno pos fuel b

/-- A directory that is read from a position on, with up to so many children. -/
def listDir (fuel : Nat) (dno : DirNode) : Nat → Nat → VolumeM σ (List Child)
  | 0, _ => throw .outOfFuel
  | k + 1, pos => do
    let found ← catching (fun stop => stop = .status .notFound) (dirRead read vol fuel dno pos)
    match found with
    | none => return []
    | some (child, pos) =>
      let later ← listDir fuel dno k pos
      return child :: later

end

end Meridian.Btrfs
