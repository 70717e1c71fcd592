import Meridian.Fsw.Bytes
import Meridian.Lib.Run
import Mathlib.Logic.Function.Basic

/-!
# The block cache

The model of `fsw_block_get` and `fsw_block_release` of `filesystems/fsw_core.c`. A buffer is known by
its address; `read_block` has a fixed content for each number and delivers it unless it fails.
-/

namespace Meridian.Fsw.Bcache

open Lib.Run

def fswInvalidBno : UInt64 := 0xFFFFFFFFFFFFFFFF
def maxCacheLevel : UInt32 := 5

abbrev Addr := Nat

structure FswBlockcache where
  refcount : UInt32
  cacheLevel : UInt32
  physBno : UInt64
  data : Option Addr
  deriving DecidableEq, Repr

/-- What the cache uses of `struct fsw_volume`, with the contents of the buffers. -/
structure Volume where
  bcache : List FswBlockcache
  pool : Addr → List UInt8

/-- What the pool and the device do during one call. -/
structure Host where
  /-- There is memory for a larger table. -/
  table : Bool
  buffer : Option Addr
  readError : Option FswStatus
  /-- What a failed read leaves in the buffer. -/
  residue : List UInt8

variable (disk : UInt64 → List UInt8) (host : Host)

def Volume.setSlot (vol : Volume) (i : Nat) (slot : FswBlockcache) : Volume :=
  { vol with bcache := vol.bcache.set i slot }

def Volume.write (vol : Volume) (buffer : Addr) (content : List UInt8) : Volume :=
  { vol with pool := Function.update vol.pool buffer content }

/-! ### Getting a block -/

def emptySlot : FswBlockcache :=
  { refcount := 0, cacheLevel := 0, physBno := fswInvalidBno, data := none }

/-- The slot to be filled, when there is no need to grow: an empty one, or else one without references
of the lowest level. -/
def freeSlot (bcache : List FswBlockcache) : Option Nat :=
  match bcache.findIdx? (·.physBno = fswInvalidBno) with
  | some i => some i
  | none =>
    (List.range (maxCacheLevel.toNat + 1)).findSome? fun discardLevel =>
      bcache.findIdx? fun slot => slot.refcount = 0 ∧ slot.cacheLevel.toNat ≤ discardLevel

def newBcacheSize (size : Nat) : Nat := if size < 16 then 16 else u32 (2 * size)

/-- The steps of `fsw_block_get` for the slot that it has chosen. -/
def fillSlot (vol : Volume) (i : Nat) (physBno : UInt64) (cacheLevel : UInt32) :
    FswM (Option Addr) × Volume :=
  match vol.bcache[i]? with
  | none => (.error .outOfBounds, vol)
  | some slot =>
    match slot.data.or host.buffer with
    | none => (fail .outOfMemory, vol.setSlot i { slot with physBno := fswInvalidBno })
    | some buffer =>
      match host.readError with
      | some status =>
        (fail status,
          (vol.setSlot i { slot with physBno := fswInvalidBno, data := some buffer }).write buffer host.residue)
      | none =>
        (.ok (some buffer),
          (vol.setSlot i { refcount := 1, cacheLevel, physBno, data := some buffer }).write buffer (disk physBno))

/-- `fsw_block_get`. The copy into a smaller table is out of bounds. -/
def fswBlockGet (vol : Volume) (physBno : UInt64) (cacheLevel : UInt32) : FswM (Option Addr) × Volume :=
  let cacheLevel := if cacheLevel > maxCacheLevel then maxCacheLevel else cacheLevel
  let size := vol.bcache.length
  match vol.bcache.findIdx? (·.physBno = physBno) with
  | some i =>
    (.ok (vol.bcache[i]?.bind (·.data)),
      { vol with bcache := vol.bcache.modify i fun slot =>
          { slot with
            cacheLevel := if slot.cacheLevel < cacheLevel then cacheLevel else slot.cacheLevel
            refcount := slot.refcount + 1 } })
  | none =>
    match freeSlot vol.bcache with
    | some i => fillSlot disk host vol i physBno cacheLevel
    | none =>
      if !host.table then (fail .outOfMemory, vol)
      else if newBcacheSize size < size then (.error .outOfBounds, vol)
      else
        let bcache := vol.bcache ++ List.replicate (newBcacheSize size - size) emptySlot
        fillSlot disk host { vol with bcache } size physBno cacheLevel

/-! ### Releasing a block -/

def fswBlockRelease (vol : Volume) (physBno : UInt64) : Volume :=
  { vol with bcache := vol.bcache.map fun slot =>
      if slot.refcount > 0 ∧ slot.physBno = physBno then { slot with refcount := slot.refcount - 1 }
      else slot }

/-! ### Sequences of calls -/

inductive Call where
  | get (physBno : UInt64) (cacheLevel : UInt32) (host : Host)
  | release (physBno : UInt64) (buffer : Option Addr)

/-- The volume, and the references that were got and not yet released, which are not stored by the
program. -/
structure Used where
  vol : Volume
  references : List (UInt64 × Option Addr)

/-- The references after a get. -/
def gotten (references : List (UInt64 × Option Addr)) (physBno : UInt64) :
    FswM (Option Addr) → List (UInt64 × Option Addr)
  | .ok buffer => (physBno, buffer) :: references
  | .error _ => references

def Used.step (st : Used) : Call → Used
  | .get physBno cacheLevel host =>
    let outcome := fswBlockGet disk host st.vol physBno cacheLevel
    { vol := outcome.2, references := gotten st.references physBno outcome.1 }
  | .release physBno buffer =>
    { vol := fswBlockRelease st.vol physBno, references := st.references.erase (physBno, buffer) }

end Meridian.Fsw.Bcache
