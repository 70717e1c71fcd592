import Meridian.Btrfs.Stripes
import Meridian.Lib.Word

/-!
# Reading logical addresses

The model of `fsw_btrfs_read_logical` of `filesystems/fsw_btrfs.c` with `fsw_btrfs_find_device`,
`fsw_btrfs_do_rescan_once` and `fsw_btrfs_get_recover_cache`: how an address of a chunk is mapped to the stripes
of its devices, and how the stripes are read. The chunk of an address, what the devices deliver and what a scan
for devices finds are arguments. Sectors have `2 ^ shift` bytes. Allocations succeed.
-/

namespace Meridian.Btrfs

open Fsw (FswStatus)
open Lib.Word (u32 u64 sub64)

/-! ### Chunks -/

/-- `struct btrfs_chunk_stripe`. -/
structure ChunkStripe where
  deviceId : Nat
  offset : Nat
  deriving DecidableEq, Repr

/-- `struct btrfs_chunk_item` with the offset of its key, and the stripes that are loaded behind it. -/
structure Chunk where
  rawOff : Nat
  size : Nat
  stripeLength : Nat
  type : Nat
  nstripes : Nat
  nsubstripes : Nat
  stripes : List ChunkStripe
  deriving DecidableEq, Repr

def raid5Tag : Nat := 0x100000

/-- Where an address is: the stripe, the stripe of the second parity, the offset in the stripe, and how many bytes
there are behind it. -/
structure Mapped where
  stripen : Nat
  stripeq : Nat := 0
  stripeOffset : Nat
  csize : Nat
  redundancy : Nat := 1
  deriving DecidableEq, Repr

/-- `DivU64x32Remainder`. -/
def divRem (dividend divisor : Nat) : BtrfsM (Nat × Nat) :=
  if u32 divisor = 0 then .error .divideByZero else .ok (dividend / u32 divisor, dividend % u32 divisor)

def corrupted {α : Type} : BtrfsM α := .error (.status .volumeCorrupted)

def mapSingle (chunk : Chunk) (off : Nat) : BtrfsM Mapped := do
  let (stripeLength, _) ← divRem chunk.size chunk.nstripes
  if stripeLength ≥ 2 ^ 32 then corrupted
  else
    let (quotient, stripeOffset) ← divRem off stripeLength
    let stripen := u32 quotient
    .ok { stripen := stripen
          stripeOffset := stripeOffset
          csize := sub64 (u64 (u32 (stripen + 1) * stripeLength)) off }

def mapMirror (chunk : Chunk) (off redundancy : Nat) : BtrfsM Mapped :=
  .ok { stripen := 0, stripeOffset := u32 off, csize := sub64 chunk.size off, redundancy := redundancy }

/-- The stripes are taken in turn, in groups of `nsubstripes` with the same bytes. -/
def mapStriped (chunk : Chunk) (off groups nsubstripes : Nat) : BtrfsM Mapped :=
  if chunk.stripeLength > 2 ^ 30 then corrupted
  else do
    let (middle, low) ← divRem off chunk.stripeLength
    let (high, stripen) ← divRem middle groups
    .ok { stripen := u32 (stripen * nsubstripes)
          stripeOffset := u32 (low + chunk.stripeLength * high)
          csize := sub64 chunk.stripeLength low
          redundancy := nsubstripes }

def mapParity (chunk : Chunk) (off nparities : Nat) : BtrfsM Mapped :=
  if chunk.stripeLength > 2 ^ 30 ∨ chunk.nstripes > 255 then corrupted
  else do
    let (middle, low) ← divRem off chunk.stripeLength
    let (high, stripen) ← divRem middle (2 ^ 32 + chunk.nstripes - nparities)
    let (_, stripen) ← divRem (high + stripen) chunk.nstripes
    let stripeq ← if nparities = 1 then .ok raid5Tag
      else (divRem (high + chunk.nstripes - 1) chunk.nstripes).map Prod.snd
    .ok { stripen := stripen
          stripeq := stripeq
          stripeOffset := u32 (low + chunk.stripeLength * high)
          csize := sub64 chunk.stripeLength low
          redundancy := raid5Tag }

/-- The type of a chunk without the bits that say what it holds. -/
def Chunk.typeCheck (chunk : Chunk) : Nat := chunk.type / 8 * 8

def mapChunk (chunk : Chunk) (off : Nat) : BtrfsM Mapped :=
  if chunk.size ≤ off then corrupted
  else if chunk.typeCheck = 0x00 then mapSingle chunk off
  else if chunk.typeCheck = 0x400 then mapMirror chunk off 4
  else if chunk.typeCheck = 0x200 then mapMirror chunk off 3
  else if chunk.typeCheck = 0x20 ∨ chunk.typeCheck = 0x10 then mapMirror chunk off 2
  else if chunk.typeCheck = 0x08 then mapStriped chunk off chunk.nstripes 1
  else if chunk.typeCheck = 0x40 then
    if chunk.nsubstripes = 0 then .error .divideByZero
    else mapStriped chunk off (chunk.nstripes / chunk.nsubstripes) chunk.nsubstripes
  else if chunk.typeCheck = 0x80 then mapParity chunk off 1
  else if chunk.typeCheck = 0x100 then mapParity chunk off 2
  else .error (.status .unsupported)

/-! ### Devices -/

variable {shift : Nat}

/-- The devices that are attached, and what `fsw_block_get` delivers of their sectors. -/
structure Devices (shift : Nat) where
  attached : Nat → Bool
  blockGet : Nat → Nat → Except FswStatus (Sector (2 ^ shift))

/-- `struct fsw_btrfs_recover_cache`. -/
structure RecoverCache (shift : Nat) where
  deviceId : Nat := 0
  offset : Nat := 0
  buffer : Sector (2 ^ shift) := fun _ => 0
  valid : Bool := false

structure BtrfsVolume (shift : Nat) where
  devices : Devices shift
  /-- Until the scan for devices: whether it finds any, and the devices behind it. -/
  rescan : Option (Bool × Devices shift)
  rcache : Fin 17 → RecoverCache shift

/-- `fsw_btrfs_do_rescan_once`. -/
def BtrfsVolume.doRescanOnce (vol : BtrfsVolume shift) : Bool × BtrfsVolume shift :=
  match vol.rescan with
  | none => (false, vol)
  | some (found, devices) => (found, { vol with devices := devices, rescan := none })

/-- `fsw_btrfs_find_device`, and again if there is a scan that finds devices. -/
def BtrfsVolume.findDevice (vol : BtrfsVolume shift) (id : Nat) : Option Nat × BtrfsVolume shift :=
  if vol.devices.attached id then (some id, vol)
  else
    let scan := vol.doRescanOnce
    (if scan.1 && scan.2.devices.attached id then some id else none, scan.2)

/-- The bytes of a block from `off` on. -/
def slice (block : Sector (2 ^ shift)) (off count : Nat) : List UInt8 := ((List.ofFn block).drop off).take count

/-- How many of `n` bytes there are in a sector from `off` on. -/
def usedBytes (shift off n : Nat) : Nat := if 2 ^ shift - off > n then n else 2 ^ shift - off

theorem usedBytes_pos {off : Fin (2 ^ shift)} {n : Nat} (more : n ≠ 0) : 0 < usedBytes shift off n := by
  have inside := off.isLt
  rw [usedBytes]
  split <;> omega

/-- The loop over the sectors of one device. -/
def readSectors (get : Nat → Except FswStatus (Sector (2 ^ shift))) (paddr : Nat) (off : Fin (2 ^ shift))
    (n : Nat) : Except FswStatus (List UInt8) :=
  if n = 0 then .ok []
  else
    match get paddr with
    | .error status => .error status
    | .ok block =>
      let s := usedBytes shift off n
      (readSectors get (paddr + 1) ⟨0, Nat.two_pow_pos shift⟩ (n - s)).map (slice block off s ++ ·)
termination_by n
decreasing_by exact Nat.sub_lt (Nat.pos_of_ne_zero ‹_›) (usedBytes_pos ‹_›)

/-- How the loop over the copies ends: with the bytes, with a status and whether the copy is the last one, with no
device left, or behind the stripes. -/
inductive CopyRun where
  | read (bytes : List UInt8)
  | failed (status : FswStatus) (isLast : Bool)
  | noDevice
  | outOfBounds

/-- The loop over the copies, with so many left. A status ends it. -/
def copyLoop (devices : Devices shift) (chunk : Chunk) (stripeOffset csize stripen : Nat) : Nat → CopyRun
  | 0 => .noDevice
  | left + 1 =>
    match chunk.stripes[stripen]? with
    | none => .outOfBounds
    | some stripe =>
      let paddr := u64 (stripe.offset + stripeOffset)
      if devices.attached stripe.deviceId then
        match readSectors (devices.blockGet stripe.deviceId) (paddr / 2 ^ shift)
            ⟨paddr % 2 ^ shift, Nat.mod_lt _ (Nat.two_pow_pos shift)⟩ csize with
        | .ok bytes => .read bytes
        | .error status => .failed status (left = 0)
      else copyLoop devices chunk stripeOffset csize (stripen + 1) left

/-- What follows if there is no scan that finds devices. -/
def CopyRun.result : CopyRun → BtrfsM (List UInt8)
  | .read bytes => .ok bytes
  | .failed status _ => .error (.status status)
  | .noDevice => corrupted
  | .outOfBounds => .error .outOfBounds

/-- The loop came to its end without the bytes. -/
def CopyRun.atEnd : CopyRun → Bool
  | .failed _ isLast => isLast
  | .noDevice => true
  | _ => false

def directRead (vol : BtrfsVolume shift) (chunk : Chunk) (m : Mapped) (csize : Nat) :
    BtrfsM (List UInt8) × BtrfsVolume shift :=
  let first := copyLoop vol.devices chunk m.stripeOffset csize m.stripen m.redundancy
  if first.atEnd then
    let scan := vol.doRescanOnce
    if scan.1 then
      ((copyLoop scan.2.devices chunk m.stripeOffset csize m.stripen m.redundancy).result, scan.2)
    else (first.result, scan.2)
  else (first.result, vol)

/-! ### Stripes with parities -/

/-- `struct btrfs_stripe_table`, without the block. -/
structure StripeSlot where
  dev : Option Nat
  off : Nat

/-- The table, and the number that the stripe to read has in it. -/
structure SlotTable where
  slots : List StripeSlot
  posN : Nat

def SlotTable.behind (table : SlotTable) (slot : StripeSlot) : SlotTable :=
  { table with slots := slot :: table.slots }

/-- The loop that sets up the table from `i` on, with so many stripes left. -/
def setupSlots (chunk : Chunk) (stripen : Nat) (vol : BtrfsVolume shift) (posN i stripeI : Nat) :
    Nat → SlotTable × BtrfsVolume shift
  | 0 => (⟨[], posN⟩, vol)
  | left + 1 =>
    let next := if stripeI = chunk.nstripes - 1 then 0 else stripeI + 1
    if stripeI = stripen then
      let later := setupSlots chunk stripen vol i (i + 1) next left
      (later.1.behind ⟨none, 0⟩, later.2)
    else
      match chunk.stripes[stripeI]? with
      | none => (⟨[], posN⟩, vol)
      | some stripe =>
        let found := vol.findDevice stripe.deviceId
        let later := setupSlots chunk stripen found.2 posN (i + 1) next left
        (later.1.behind ⟨found.1, stripe.offset / 2 ^ shift⟩, later.2)

/-- The variables of the loop over the sectors: the volume, and the table once it is set up. -/
structure ParityState (shift : Nat) where
  vol : BtrfsVolume shift
  stripeData : Option SlotTable := none

/-- What the loop has for all sectors: the chunk, the stripe, the first stripe of the table, and the device. -/
structure ParityRun where
  chunk : Chunk
  stripen : Nat
  firstStripe : Nat
  isRaid5 : Bool
  dev : Option Nat

def ParityRun.dstripes (run : ParityRun) : Nat := run.chunk.nstripes - (if run.isRaid5 then 1 else 2)

/-- `fsw_btrfs_get_recover_cache`: the place of a sector. -/
def recoverHash (deviceId offset : Nat) : Fin 17 :=
  ⟨((deviceId >>> 32) ||| deviceId ||| (offset >>> 32) ||| offset) % 17, Nat.mod_lt _ (by decide)⟩

def getRecoverCache (vol : BtrfsVolume shift) (deviceId offset : Nat) : RecoverCache shift :=
  let rc := vol.rcache (recoverHash deviceId offset)
  if rc.deviceId ≠ deviceId ∨ rc.offset ≠ offset then
    { rc with valid := false, deviceId := deviceId, offset := offset }
  else rc

def BtrfsVolume.setCache (vol : BtrfsVolume shift) (rc : RecoverCache shift) : BtrfsVolume shift :=
  { vol with rcache := Function.update vol.rcache (recoverHash rc.deviceId rc.offset) rc }

/-- What is read of the stripe with this number in the row. -/
def slotGet (vol : BtrfsVolume shift) (slots : List StripeSlot) (sector k : Nat) :
    Except FswStatus (Sector (2 ^ shift)) :=
  match slots[k]? with
  | some ⟨some dev, off⟩ => vol.devices.blockGet dev (u64 (off + sector))
  | _ => .error .ioError

/-- The table that is there, or that is set up now. -/
def ParityState.table (st : ParityState shift) (run : ParityRun) (vol : BtrfsVolume shift) :
    SlotTable × BtrfsVolume shift :=
  match st.stripeData with
  | some table => (table, vol)
  | none => setupSlots run.chunk run.stripen vol run.stripen 0 run.firstStripe run.chunk.nstripes

/-- The block of a sector that is recovered, and kept. -/
def recoverSector (run : ParityRun) (st : ParityState shift) (rc : RecoverCache shift) (sector : Nat) :
    BtrfsM (Sector (2 ^ shift)) × ParityState shift :=
  let setup := st.table run (st.vol.setCache rc)
  let table := setup.1
  if st.stripeData.isNone ∧ (table.slots.filter fun slot => slot.dev.isSome).length < run.dstripes then
    (corrupted, { vol := setup.2 })
  else
    match recoverBlock (slotGet setup.2 table.slots sector) run.chunk.nstripes table.posN run.dstripes
        run.isRaid5 with
    | .error stop => (.error stop, { vol := setup.2, stripeData := some table })
    | .ok block =>
      (.ok block, { vol := setup.2.setCache { rc with buffer := block, valid := true }, stripeData := some table })

/-- The block of a sector of the stripe: from its device, from the cache, or recovered. -/
def paritySector (run : ParityRun) (st : ParityState shift) (stripe : ChunkStripe) (sector : Nat) :
    BtrfsM (Sector (2 ^ shift)) × ParityState shift :=
  let paddrN := u64 (stripe.offset / 2 ^ shift + sector)
  let read := run.dev.map fun dev => st.vol.devices.blockGet dev paddrN
  match read with
  | some (.ok block) => (.ok block, st)
  | _ =>
    let rc := getRecoverCache st.vol stripe.deviceId paddrN
    if rc.valid then (.ok rc.buffer, { st with vol := st.vol.setCache rc })
    else recoverSector run st rc sector

/-- The loop over the sectors. -/
def parityLoop (run : ParityRun) (stripe : ChunkStripe) (st : ParityState shift) (sector : Nat)
    (off : Fin (2 ^ shift)) (n : Nat) : BtrfsM (List UInt8) × BtrfsVolume shift :=
  if n = 0 then (.ok [], st.vol)
  else
    let used := usedBytes shift off n
    let found := paritySector run st stripe sector
    match found.1 with
    | .error stop => (.error stop, found.2.vol)
    | .ok block =>
      let later := parityLoop run stripe found.2 (sector + 1) ⟨0, Nat.two_pow_pos shift⟩ (n - used)
      (later.1.map (slice block off used ++ ·), later.2)
termination_by n
decreasing_by exact Nat.sub_lt (Nat.pos_of_ne_zero ‹_›) (usedBytes_pos ‹_›)

/-- The table starts with the first stripe, or with the one behind the second parity. -/
def parityRun (chunk : Chunk) (m : Mapped) (dev : Option Nat) : ParityRun where
  chunk := chunk
  stripen := m.stripen
  firstStripe := if m.stripeq = raid5Tag then 0 else (m.stripeq + 1) % chunk.nstripes
  isRaid5 := m.stripeq = raid5Tag
  dev := dev

def parityRead (vol : BtrfsVolume shift) (chunk : Chunk) (m : Mapped) (csize : Nat) :
    BtrfsM (List UInt8) × BtrfsVolume shift :=
  if chunk.stripes.any fun stripe => stripe.offset % 2 ^ shift ≠ 0 then (corrupted, vol)
  else if chunk.stripes.length < chunk.nstripes then (.error .outOfBounds, vol)
  else
    match chunk.stripes[m.stripen]? with
    | none => (.error .outOfBounds, vol)
    | some stripe =>
      let dev := vol.findDevice stripe.deviceId
      parityLoop (parityRun chunk m dev.1) stripe { vol := dev.2 } (m.stripeOffset / 2 ^ shift)
        ⟨m.stripeOffset % 2 ^ shift, Nat.mod_lt _ (Nat.two_pow_pos shift)⟩ csize

/-! ### Addresses -/

/-- The part of a read that is inside a unit. -/
def partRead (vol : BtrfsVolume shift) (chunk : Chunk) (m : Mapped) (csize : Nat) :
    BtrfsM (List UInt8) × BtrfsVolume shift :=
  if m.redundancy < raid5Tag then directRead vol chunk m csize else parityRead vol chunk m csize

/-- How much of a read is inside a unit. -/
def partSize (csize size : Nat) : Nat := if csize > size then size else csize

theorem partSize_spec {csize size : Nat} (some : csize ≠ 0) (more : size ≠ 0) :
    partSize csize size ≤ csize ∧ partSize csize size ≤ size ∧ 0 < partSize csize size := by
  rw [partSize]
  split <;> omega

/-- `fsw_btrfs_read_logical`, over the chunks that `lookup` finds, which reads the volume itself. -/
def readLogical (lookup : BtrfsVolume shift → Nat → BtrfsM Chunk × BtrfsVolume shift) (vol : BtrfsVolume shift)
    (addr size : Nat) : BtrfsM (List UInt8) × BtrfsVolume shift :=
  if size = 0 then (.ok [], vol)
  else
    let found := lookup vol addr
    match found.1 with
    | .error stop => (.error stop, found.2)
    | .ok chunk =>
      match mapChunk chunk (sub64 addr chunk.rawOff) with
      | .error stop => (.error stop, found.2)
      | .ok m =>
        if m.csize = 0 then (corrupted, found.2)
        else
          let csize := partSize m.csize size
          let part := partRead found.2 chunk m csize
          match part.1 with
          | .error stop => (.error stop, part.2)
          | .ok bytes =>
            let later := readLogical lookup part.2 (u64 (addr + csize)) (size - csize)
            (later.1.map (bytes ++ ·), later.2)
termination_by size
decreasing_by
  obtain ⟨-, le, some⟩ := partSize_spec ‹m.csize ≠ 0› ‹size ≠ 0›
  omega

end Meridian.Btrfs
