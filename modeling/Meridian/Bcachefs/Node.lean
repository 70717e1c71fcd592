import Meridian.Bcachefs.Key

/-!
# B-tree nodes

The model of `bcachefs_read_sectors`, `bcachefs_parse_btree_ptr`, `bcachefs_node_lower_bound` and
`bcachefs_btree_lookup` of `filesystems/fsw_bcachefs.c`. Allocations succeed. The walk over a node is
stated for any use of its keys, and its loops have as much fuel as the walk has units left.
-/

namespace Meridian.Bcachefs

open Fsw

def maxValueBytes : Nat := 2048
def maxNodeSectors : Nat := 2048

/-- `bcachefs_btree_ptr`. -/
structure BtreePtr where
  offset : Nat
  sectorsWritten : Nat
  deriving DecidableEq, Repr

/-- `bcachefs_btree_root`, when it is alive. -/
structure BtreeRoot where
  level : Nat
  ptr : BtreePtr
  deriving DecidableEq, Repr

/-- `fsw_bcachefs_volume`. -/
structure Volume where
  blockSizeSectors : Nat
  blockBytes : Nat
  btreeNodeSectors : Nat
  roots : List (Option BtreeRoot)
  deriving DecidableEq, Repr

/-- `bcachefs_lookup_result`. -/
structure LookupResult where
  key : Key
  value : List UInt8
  deriving DecidableEq, Repr

def bcachefsRoundUp (v block : Nat) : Nat :=
  u32 (v + block + (2 ^ 32 - 1)) &&& (2 ^ 32 - 1 - u32 (block + (2 ^ 32 - 1)))

def bcachefsReadSectors (blocks : Blocks) (sector sectors : Nat) : FswM (List UInt8) :=
  if sectors = 0 ∨ sectors > maxNodeSectors then fail .volumeCorrupted
  else (List.range sectors).foldlM (fun buffer i =>
    match blocks (u64 (sector + i)) with
    | .ok block => .ok (buffer ++ block.bytes)
    | .error status => fail status) []

/-- The sectors written and the pointer word of a B-tree pointer. -/
def btreePtrWords (result : LookupResult) : FswM (Nat × Nat) :=
  if result.key.type = keyTypeBtreePtrV2 then
    if result.value.length < 48 then fail .volumeCorrupted
    else do
      let sectorsWritten ← le result.value 16 2
      let raw ← le result.value 40 8
      pure (sectorsWritten, raw)
  else if result.key.type = keyTypeBtreePtr then
    if result.value.length < 8 then fail .volumeCorrupted
    else do
      let raw ← le result.value 0 8
      pure (0, raw)
  else fail .volumeCorrupted

def bcachefsParseBtreePtr (result : LookupResult) : FswM BtreePtr := do
  let (sectorsWritten, raw) ← btreePtrWords result
  if raw &&& 1 = 0 ∨ (raw >>> 48) &&& 0xff ≠ 0 then fail .unsupported
  else pure { offset := (raw >>> 4) &&& 0x0fffffffffff, sectorsWritten }

/-! ### The walk over a node -/

variable {σ : Type}

/-- The loop over the keys of a bset. -/
def keyLoop (step : σ → Key → List UInt8 → FswM σ) (node : List UInt8) (format : BkeyFormat)
    (fin : Nat) : Nat → Nat → σ → FswM σ
  | 0, p, s => if p < fin then .error .outOfFuel else .ok s
  | fuel + 1, p, s =>
    if p < fin then do
      let (key, keyBytes) ← bcachefsUnpackKey node p format fin
      if key.u64s * 8 < keyBytes then fail .volumeCorrupted
      else do
        let value ← bytesAt (node.take fin) (p + keyBytes) (key.u64s * 8 - keyBytes)
        let s ← step s key value
        keyLoop step node format fin fuel (p + key.u64s * 8) s
    else .ok s

/-- Where a bset's header and its keys lie, unless the walk stops there. -/
def bsetHeader (node : List UInt8) (bytes seq written : Nat) : FswM (Option (Nat × Nat)) :=
  let hbase := u32 (written * sectorSize)
  if written = 0 then pure (some (136, 160))
  else if u32 (hbase + 40) > bytes then pure none
  else do
    let other ← le node (u32 (hbase + 16)) 8
    pure (if other ≠ seq then none else some (u32 (hbase + 16), u32 (hbase + 40)))

def bsetAt (node : List UInt8) (bytes seq written : Nat) : FswM (Option (Nat × Nat)) := do
  match ← bsetHeader node bytes seq written with
  | some (bset, data) => pure (if u32 (bset + 24) > bytes then none else some (bset, data))
  | none => pure none

/-- The loop over the bsets of a node. -/
def bsetLoop (step : σ → Key → List UInt8 → FswM σ) (node : List UInt8) (format : BkeyFormat)
    (blockBytes sectors bytes seq : Nat) : Nat → Nat → σ → FswM σ
  | 0, written, s => if written < sectors then .error .outOfFuel else .ok s
  | fuel + 1, written, s =>
    if written < sectors then do
      match ← bsetAt node bytes seq written with
      | none => .ok s
      | some (bset, data) => do
        let u64s ← le node (u32 (bset + 22)) 2
        if u32 (data + u64s * 8) > bytes then fail .volumeCorrupted
        else do
          let s ← keyLoop step node format (data + u64s * 8) u64s data s
          let hbase := u32 (written * sectorSize)
          let bsetBytes := u32 (u32 (data + (2 ^ 32 - hbase)) + u64s * 8)
          let bsetSectors := bcachefsRoundUp bsetBytes blockBytes / sectorSize
          if bsetSectors = 0 then .ok s
          else
            bsetLoop step node format blockBytes sectors bytes seq fuel (u32 (written + bsetSectors)) s
    else .ok s

def walkNode (step : σ → Key → List UInt8 → FswM σ) (blocks : Blocks) (vol : Volume)
    (ptr : BtreePtr) (s : σ) : FswM σ :=
  let sectors := if ptr.sectorsWritten ≠ 0 then ptr.sectorsWritten else vol.btreeNodeSectors
  if sectors = 0 ∨ sectors > vol.btreeNodeSectors then fail .volumeCorrupted
  else do
    let node ← bcachefsReadSectors blocks ptr.offset sectors
    let bytes := u32 (sectors * sectorSize)
    if bytes < 160 then fail .volumeCorrupted
    else do
      let format ← bcachefsReadFormat node 80
      if format.keyU64s = 0 ∨ format.keyU64s > 8 then fail .volumeCorrupted
      else do
        let seq ← le node 136 8
        bsetLoop step node format vol.blockBytes sectors bytes seq sectors 0 s

/-! ### Searching -/

/-- `best` and `best_valid`, once `found`. -/
structure Best where
  result : LookupResult
  valid : Bool
  deriving DecidableEq, Repr

def bcachefsCopyLookup (key : Key) (value : List UInt8) : FswM LookupResult :=
  if value.length > maxValueBytes then fail .unsupported else .ok { key, value }

/-- What the search does with a key. -/
def lowerBoundStep (search : Pos) (best : Option Best) (key : Key) (value : List UInt8) :
    FswM (Option Best) :=
  if bcachefsPosCmp key.p search ≥ 0 then
    let replace := match best with
      | none => true
      | some best =>
        bcachefsPosCmp key.p best.result.key.p < 0 || bcachefsPosCmp key.p best.result.key.p = 0
    if replace then
      if !bcachefsKeyIsDeleted key then do
        let result ← bcachefsCopyLookup key value
        pure (some { result, valid := true })
      else pure (some { result := { key, value := [] }, valid := false })
    else pure best
  else pure best

def bcachefsNodeLowerBound (blocks : Blocks) (vol : Volume) (ptr : BtreePtr) (search : Pos) :
    FswM LookupResult := do
  match ← walkNode (lowerBoundStep search) blocks vol ptr none with
  | some { result, valid := true } => pure result
  | _ => fail .notFound

/-- The descent from a node of the given level. -/
def descend (blocks : Blocks) (vol : Volume) (search : Pos) : Nat → BtreePtr → FswM LookupResult
  | 0, ptr => bcachefsNodeLowerBound blocks vol ptr search
  | level + 1, ptr => do
    let out ← bcachefsNodeLowerBound blocks vol ptr search
    let child ← bcachefsParseBtreePtr out
    descend blocks vol search level child

def bcachefsBtreeLookup (blocks : Blocks) (vol : Volume) (btreeId : Nat) (search : Pos) :
    FswM LookupResult :=
  match vol.roots[btreeId]?.join with
  | none => fail .notFound
  | some root => descend blocks vol search root.level root.ptr

end Meridian.Bcachefs
