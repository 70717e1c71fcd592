import Meridian.Bcachefs.Mount

/-!
# Directories

The model of `bcachefs_next_dirent`, `bcachefs_dirent_to_dnode`, `fsw_bcachefs_dir_lookup` and
`fsw_bcachefs_dir_read` of `filesystems/fsw_bcachefs.c`, with `fsw_dnode_create` of `fsw_core.c`. A
name is kept in the entry's encoding, and `fsw_streq` with the name looked up is a parameter.
-/

namespace Meridian.Bcachefs

open Fsw

inductive DnodeType where
  | unknown | file | dir | symlink | special
  deriving DecidableEq, Repr

/-- `fsw_dnode`, of the volume's only tree. -/
structure Dnode where
  dnodeId : Nat
  type : DnodeType
  name : List UInt8
  deriving DecidableEq, Repr

/-- A node that the volume has open already is taken again, under the name it has. -/
def fswDnodeCreate (dnodes : List Dnode) (dnodeId : Nat) (type : DnodeType) (name : List UInt8) :
    Dnode :=
  match dnodes.find? fun dno => dno.dnodeId = dnodeId with
  | some dno => dno
  | none => { dnodeId, type, name }

def bcachefsDirentType (dtype : Nat) : DnodeType :=
  match dtype &&& 0x1f with
  | 4 => .dir
  | 8 => .file
  | 10 => .symlink
  | _ => .unknown

/-- The length of a name without the zeros at its end. Its bytes are indexed in 32 bits. -/
def nameLength (value : List UInt8) : Nat → FswM Nat
  | 0 => .ok 0
  | n + 1 => do
    let last ← le value (u32 (9 + n)) 1
    if last = 0 then nameLength value n else .ok (n + 1)

def direntName (lookup : LookupResult) : FswM (List UInt8) := do
  let nameLen ← nameLength lookup.value (u32 (lookup.value.length + (2 ^ 32 - 9)))
  bytesAt lookup.value 9 nameLen

def bcachefsDirentToDnode (dnodes : List Dnode) (lookup : LookupResult) : FswM Dnode :=
  if lookup.key.type ≠ keyTypeDirent ∨ lookup.value.length < 10 then fail .volumeCorrupted
  else do
    let ino ← le lookup.value 0 8
    let name ← direntName lookup
    if name.length = 0 then fail .volumeCorrupted
    else do
      let dtype ← le lookup.value 8 1
      pure (fswDnodeCreate dnodes ino (bcachefsDirentType dtype) name)

variable (blocks : Blocks) (vol : Volume)

def bcachefsNextDirent (dirIno startOffset : Nat) : FswM LookupResult := do
  let lookup ← bcachefsBtreeLookup blocks vol btreeDirents
    { inode := dirIno, offset := startOffset, snapshot := 0 }
  if lookup.key.p.inode ≠ dirIno ∨ lookup.key.type ≠ keyTypeDirent then fail .notFound
  else pure lookup

def maxOffset : Nat := 0xffffffffffffffff

/-- The loop over the entries, from an offset on. -/
def dirLookupLoop (dnodes : List Dnode) (dirIno : Nat) (streq : List UInt8 → Bool) :
    Nat → Nat → FswM Dnode
  | 0, _ => .error .outOfFuel
  | fuel + 1, offset => do
    let lookup ← bcachefsNextDirent blocks vol dirIno offset
    let name ← direntName lookup
    if streq name then bcachefsDirentToDnode dnodes lookup
    else if lookup.key.p.offset = maxOffset then fail .notFound
    else dirLookupLoop dnodes dirIno streq fuel (lookup.key.p.offset + 1)

def fswBcachefsDirLookup (dnodes : List Dnode) (dirIno : Nat) (streq : List UInt8 → Bool) :
    FswM Dnode :=
  dirLookupLoop blocks vol dnodes dirIno streq (2 ^ 64) 0

/-- A read at a position of the handle, and the position after it. -/
def fswBcachefsDirRead (dnodes : List Dnode) (dirIno pos : Nat) : FswM Dnode × Nat :=
  match bcachefsNextDirent blocks vol dirIno pos with
  | .error fault => (.error fault, pos)
  | .ok lookup =>
    if lookup.key.p.offset = maxOffset then (fail .notFound, pos)
    else (bcachefsDirentToDnode dnodes lookup, lookup.key.p.offset + 1)

end Meridian.Bcachefs
