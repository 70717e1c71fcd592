import Meridian.Btrfs.Stripes
import Meridian.Lib.Attempt
import Meridian.Lib.Word

/-!
# Searching a tree

The model of `fsw_btrfs_key_cmp`, `fsw_btrfs_lower_bound`, `fsw_btrfs_next_leaf` and `fsw_btrfs_save_ref` of
`filesystems/fsw_btrfs.c`, over a read of logical addresses. The descriptor is kept also where the code has none,
with the deepest node first. Sizes of items are below `2 ^ 31`. Allocations succeed.
-/

namespace Meridian.Btrfs

open Lib.Attempt Lib.Codec
open Lib.Word (u32 u64)

/-! ### Structures on the disk -/

/-- `struct btrfs_key`. -/
structure Key where
  objectId : Nat
  type : Nat
  offset : Nat
  deriving DecidableEq, Repr

def Key.zero : Key := ⟨0, 0, 0⟩

/-- `fsw_btrfs_key_cmp`. -/
def keyCmp (a b : Key) : Int :=
  if a.objectId < b.objectId then -1
  else if a.objectId > b.objectId then 1
  else if a.type < b.type then -1
  else if a.type > b.type then 1
  else if a.offset < b.offset then -1
  else if a.offset > b.offset then 1
  else 0

/-- The number in some bytes of a structure. -/
def number (bytes : List UInt8) (pos n : Nat) : Nat := ofLe ((bytes.drop pos).take n)

def Key.ofBytes (bytes : List UInt8) : Key where
  objectId := number bytes 0 8
  type := number bytes 8 1
  offset := number bytes 9 8

/-- `struct btrfs_header`. -/
structure Header where
  nitems : Nat
  level : Nat
  deriving DecidableEq, Repr

def headerSize : Nat := 101

def Header.ofBytes (bytes : List UInt8) : Header where
  nitems := number bytes 96 4
  level := number bytes 100 1

/-- `struct btrfs_internal_node`. -/
structure InternalNode where
  key : Key
  addr : Nat
  deriving DecidableEq, Repr

def internalNodeSize : Nat := 33

def InternalNode.ofBytes (bytes : List UInt8) : InternalNode where
  key := Key.ofBytes bytes
  addr := number bytes 17 8

/-- `struct btrfs_leaf_node`. -/
structure LeafNode where
  key : Key
  offset : Nat
  size : Nat
  deriving DecidableEq, Repr

def leafNodeSize : Nat := 25

def LeafNode.ofBytes (bytes : List UInt8) : LeafNode where
  key := Key.ofBytes bytes
  offset := number bytes 17 4
  size := number bytes 21 4

/-! ### Reading nodes -/

variable {σ : Type}

/-- Reads of a volume. -/
abbrev VolumeM (σ : Type) := AttemptM σ Stop

section
variable (read : Nat → Nat → VolumeM σ (List UInt8))

def readHeader (addr : Nat) : VolumeM σ Header := do
  let bytes ← read addr headerSize
  return Header.ofBytes bytes

/-- The entry of an inner node, where `addr` is behind its header. -/
def readInternal (addr i : Nat) : VolumeM σ InternalNode := do
  let bytes ← read (u64 (addr + i * internalNodeSize)) internalNodeSize
  return InternalNode.ofBytes bytes

def readLeaf (addr i : Nat) : VolumeM σ LeafNode := do
  let bytes ← read (u64 (addr + i * leafNodeSize)) leafNodeSize
  return LeafNode.ofBytes bytes

/-! ### The search -/

/-- The loop over the entries of a node from `i` on, with so many left: the entry with the key, or the last one
before it, with its number. -/
def scan {α : Type} (readAt : Nat → VolumeM σ α) (keyOf : α → Key) (key : Key) (i : Nat)
    (last : Option (Nat × α)) : Nat → VolumeM σ (Option (Nat × α))
  | 0 => return last
  | left + 1 => do
    let entry ← readAt i
    if keyCmp (keyOf entry) key = 0 then return some (i, entry)
    else if keyCmp (keyOf entry) key > 0 then return last
    else scan readAt keyOf key (i + 1) (some (i, entry)) left

/-- What `fsw_btrfs_save_ref` appends to `struct fsw_btrfs_leaf_descriptor`. -/
structure Ref where
  addr : Nat
  iter : Nat
  maxiter : Nat
  leaf : Bool
  deriving DecidableEq, Repr

/-- What a search leaves: the key, the address and the size of an item, and the descriptor. -/
structure Bound where
  keyOut : Key
  addr : Nat
  size : Nat
  desc : List Ref
  deriving DecidableEq, Repr

def unsignedMax : Nat := 2 ^ 32 - 1

/-- The search from a node on. -/
def lowerBoundFrom (key : Key) : Nat → Nat → List Ref → VolumeM σ Bound
  | 0, _, _ => throw .outOfFuel
  | fuel + 1, addr, desc => do
    let head ← readHeader read addr
    let entries := u64 (addr + headerSize)
    if head.level ≠ 0 then
      let found ← scan (readInternal read entries) InternalNode.key key 0 none head.nitems
      match found with
      | some (i, node) => lowerBoundFrom key fuel node.addr (⟨addr, i, head.nitems, false⟩ :: desc)
      | none => return ⟨Key.zero, 0, 0, ⟨addr, unsignedMax, head.nitems, false⟩ :: desc⟩
    else
      let found ← scan (readLeaf read entries) LeafNode.key key 0 none head.nitems
      match found with
      | some (i, leaf) =>
        return ⟨leaf.key, u64 (entries + leaf.offset), leaf.size, ⟨addr, i, head.nitems, true⟩ :: desc⟩
      | none => return ⟨Key.zero, 0, 0, ⟨addr, unsignedMax, head.nitems, true⟩ :: desc⟩

/-- `fsw_btrfs_lower_bound`. -/
def lowerBound (fuel : Nat) (key : Key) (root rdepth : Nat) : VolumeM σ Bound :=
  if rdepth > 10 then throw (.status .volumeCorrupted) else lowerBoundFrom read key fuel root []

/-! ### The next item -/

/-- The loop up the descriptor. -/
def advance : List Ref → List Ref
  | [] => []
  | ref :: desc =>
    let next := { ref with iter := u32 (ref.iter + 1) }
    if next.iter < next.maxiter then next :: desc else advance desc

/-- The loop down to a leaf, from the deepest node of the descriptor on. -/
def descend : Nat → Ref → List Ref → VolumeM σ (Ref × List Ref)
  | 0, _, _ => throw .outOfFuel
  | fuel + 1, ref, desc =>
    if ref.leaf then return (ref, desc)
    else do
      let node ← readInternal read (u64 (ref.addr + headerSize)) ref.iter
      let head ← readHeader read node.addr
      descend fuel ⟨node.addr, 0, head.nitems, head.level = 0⟩ (ref :: desc)

/-- `fsw_btrfs_next_leaf`, over the descriptor. -/
def nextLeaf (fuel : Nat) (desc : List Ref) : VolumeM σ (Option Bound) :=
  match advance desc with
  | [] => return none
  | ref :: desc => do
    let (ref, desc) ← descend read fuel ref desc
    let leaf ← readLeaf read (u64 (ref.addr + headerSize)) ref.iter
    return some ⟨leaf.key, u64 (ref.addr + headerSize + leaf.offset), leaf.size, ref :: desc⟩

/-- So many steps with `fsw_btrfs_next_leaf`. -/
def nextLeaves (fuel : Nat) : Nat → Bound → VolumeM σ (Option Bound)
  | 0, b => return some b
  | k + 1, b => do
    let next ← nextLeaf read fuel b.desc
    match next with
    | none => return none
    | some b => nextLeaves fuel k b

end

/-- A search, and so many steps behind what it finds, where reads have a depth. -/
def cursor (read : Nat → Nat → Nat → VolumeM σ (List UInt8)) (fuel : Nat) (key : Key) (root k : Nat) :
    VolumeM σ (Option Bound) := do
  let b ← lowerBound (read 1) fuel key root 0
  nextLeaves (read 0) fuel k b

end Meridian.Btrfs
