import Meridian.Fsw.FileProtocol
import Meridian.Lib.Run
import Mathlib.Logic.Function.Basic

/-!
# The read-ahead of the host

The model of `fsw_efi_read_block` and `fsw_efi_clear_cache` of `filesystems/fsw_efi.c`, and of when
`fsw_efi_driver_binding_start`, `fsw_efi_driver_binding_stop` and `fsw_efi_FileSystem_OpenVolume` allocate and
free a volume and clear the caches. A volume is known by its address. A cache knows its volume by the address too,
so a read is right along every run in which no volume starts at an address that a cache still has.
-/

namespace Meridian.Fsw.ReadCache

open Lib.Run
open Meridian.Fsw.FileProtocol (EfiStatus)

abbrev Addr := Nat

def cacheSize : Nat := 131072

/-- `struct cache_data`. -/
structure CacheData where
  cache : Option (List UInt8)
  cacheStart : Nat
  cacheValid : Bool
  volume : Option Addr

/-- `Caches` and `LastRead`. -/
structure Caches where
  slot : Fin 2 → CacheData
  lastRead : Option (Fin 2)

/-- A disk, as far as it goes. -/
structure Device where
  byte : Nat → UInt8
  size : Nat
  size_lt : size < 2 ^ 64

/-- What the pool and the disk do during one call. -/
structure Host where
  pool : Bool
  readAhead : Option EfiStatus
  readOne : Option EfiStatus
  /-- What a new buffer holds, and what a failed read leaves in it. -/
  residue : List UInt8

/-! ### The operations -/

def fswEfiClearCache : Caches := { slot := fun _ => ⟨none, 0, false, none⟩, lastRead := none }

/-- The block is in the cache. -/
def CacheData.Has (c : CacheData) (volume : Addr) (startRead blocksize : Nat) : Prop :=
  c.volume = some volume ∧ c.cacheValid ∧ startRead ≥ c.cacheStart ∧
    u64 (startRead + blocksize) ≤ u64 (c.cacheStart + cacheSize)

instance (c : CacheData) (volume : Addr) (startRead blocksize : Nat) :
    Decidable (c.Has volume startRead blocksize) := by
  unfold CacheData.Has
  infer_instance

def Caches.set (c : Caches) (i : Fin 2) (data : CacheData) : Caches :=
  { c with slot := Function.update c.slot i data }

/-- The cache that is filled when none has the block, and the caches then. -/
def fillCache (device : Device) (host : Host) (volume : Addr) (startRead : Nat) (c : Caches) : Fin 2 × Caches :=
  let last := c.lastRead.getD (Fin.last 1)
  -- `1 - LastRead`
  let i := last.rev
  let cache := (c.slot i).cache.or (if host.pool then some host.residue else none)
  let c := { c with lastRead := some last }
  match cache, host.readAhead with
  | some _, none =>
    (i, { c.set i ⟨some (part device.byte startRead cacheSize), startRead, true, some volume⟩ with
      lastRead := some i })
  | some _, some _ => (i, c.set i { c.slot i with cache := some host.residue, cacheValid := false })
  | none, _ => (i, c.set i { c.slot i with cache, cacheValid := false })

/-- The block alone, from the disk. -/
def readSingle (device : Device) (host : Host) (startRead blocksize : Nat) : FswM (EfiStatus × List UInt8) :=
  match host.readOne with
  | none => .ok (.success, part device.byte startRead blocksize)
  | some status => .ok (status, [])

/-- The block from a cache, or else from the disk. -/
def copyBlock (device : Device) (host : Host) (startRead blocksize : Nat) (c : CacheData) :
    FswM (EfiStatus × List UInt8) :=
  match c.cache with
  | some cache =>
    if blocksize > 0 ∧ c.cacheValid then do
      let bytes ← bytesAt cache (startRead - c.cacheStart) blocksize
      return (.success, bytes)
    else readSingle device host startRead blocksize
  | none => readSingle device host startRead blocksize

/-- `fsw_efi_read_block`, for a buffer that there is. -/
def fswEfiReadBlock (device : Device) (host : Host) (volume : Addr) (physBno blocksize : Nat) (c : Caches) :
    FswM (EfiStatus × List UInt8) × Caches :=
  let startRead := u64 (physBno * blocksize)
  let c := if c.lastRead = none then fswEfiClearCache else c
  match (List.finRange 2).find? fun i => (c.slot i).Has volume startRead blocksize with
  | some i => (copyBlock device host startRead blocksize (c.slot i), c)
  | none =>
    let (i, c) := fillCache device host volume startRead c
    (copyBlock device host startRead blocksize (c.slot i), c)

/-! ### Volumes that come and go -/

inductive Event where
  /-- A volume is allocated, to be mounted. -/
  | start (volume : Addr) (device : Device)
  /-- It is not mounted, and freed. -/
  | startFails (volume : Addr)
  | stop (volume : Addr)
  | openVolume
  | read (volume : Addr) (physBno blocksize : Nat) (host : Host)

/-- The caches, and the volumes that there are, with their disks. -/
structure Driver where
  caches : Caches
  volumes : Addr → Option Device

def Driver.step (st : Driver) : Event → Driver
  | .start volume device => { st with volumes := Function.update st.volumes volume (some device) }
  | .startFails volume => { st with volumes := Function.update st.volumes volume none }
  | .stop volume => { caches := fswEfiClearCache, volumes := Function.update st.volumes volume none }
  | .openVolume => { st with caches := fswEfiClearCache }
  | .read volume physBno blocksize host =>
    match st.volumes volume with
    | none => st
    | some device => { st with caches := (fswEfiReadBlock device host volume physBno blocksize st.caches).2 }

/-- What the driver starts with. -/
def Driver.loaded : Driver := { caches := fswEfiClearCache, volumes := fun _ => none }

/-! ### Coherence -/

/-- A cache has bytes of the disk. -/
def CacheData.Of (c : CacheData) (device : Device) : Prop :=
  c.cacheStart + cacheSize ≤ device.size ∧ c.cache = some (part device.byte c.cacheStart cacheSize)

/-- A cache has bytes of the disk of its volume, where that is still there. -/
def Caches.Coherent (c : Caches) (volumes : Addr → Option Device) : Prop :=
  ∀ i volume device, (c.slot i).cacheValid = true → (c.slot i).volume = some volume →
    volumes volume = some device → (c.slot i).Of device

def Driver.Coherent (st : Driver) : Prop := st.caches.Coherent st.volumes

/-- No cache has bytes of a volume at the address. -/
def Driver.Unknown (st : Driver) (volume : Addr) : Prop :=
  ∀ i, (st.caches.slot i).cacheValid = true → (st.caches.slot i).volume ≠ some volume

/-- The disk is read only as far as it goes. -/
structure Host.Honest (host : Host) (device : Device) (physBno blocksize : Nat) : Prop where
  ahead : host.readAhead = none → physBno * blocksize + cacheSize ≤ device.size
  failed : host.readOne ≠ some .success

/-- A volume starts where no cache has bytes of one, and blocks that are read have offsets of 64 bits and are not
larger than a cache. -/
def Driver.Okay (st : Driver) : Event → Prop
  | .start volume _ => st.Unknown volume
  | .read volume physBno blocksize host => blocksize ≤ cacheSize ∧ physBno * blocksize + blocksize < 2 ^ 64 ∧
      ∃ device, st.volumes volume = some device ∧ host.Honest device physBno blocksize
  | _ => True

/-- A read gives the block as it is on the disk, or the status with which the disk is not read. -/
def Right (device : Device) (host : Host) (startRead blocksize : Nat)
    (run : FswM (EfiStatus × List UInt8)) : Prop :=
  run = .ok (.success, part device.byte startRead blocksize) ∨
    ∃ status, status ≠ .success ∧ host.readOne = some status ∧ run = .ok (status, [])

/-- A read is right for the volume that there is at the address. -/
def Driver.ReadsRight (st : Driver) (volume : Addr) (physBno blocksize : Nat) (host : Host) : Prop :=
  ∃ device, st.volumes volume = some device ∧
    Right device host (physBno * blocksize) blocksize
      (fswEfiReadBlock device host volume physBno blocksize st.caches).1

/-! ### One read -/

section
variable {c : Caches} {volumes : Addr → Option Device} {device : Device} {host : Host}
  {volume : Addr} {physBno blocksize startRead : Nat}

theorem clear_coherent : fswEfiClearCache.Coherent volumes := by
  intro i volume device valid
  cases valid

/-- The bytes of a block are a part of those of a cache. -/
theorem bytesAt_part {content : Nat → UInt8} {first n pos : Nat} (some' : 0 < n) (after : first ≤ pos)
    {length : Nat} (before : pos + n ≤ first + length) :
    bytesAt (part content first length) (pos - first) n = .ok (part content pos n) := by
  refine (bytesAt_eq_part _ _ _ some').mpr fun k below => ?_
  rw [part, List.getElem?_map, List.getElem?_range' (by omega), Nat.one_mul, ← Nat.add_assoc,
    Nat.add_sub_cancel' after]
  rfl

theorem readSingle_right (failed : host.readOne ≠ some .success) :
    Right device host startRead blocksize (readSingle device host startRead blocksize) := by
  rw [readSingle]
  cases outcome : host.readOne with
  | none => exact .inl rfl
  | some status => exact .inr ⟨status, fun same => failed (same ▸ outcome), outcome, rfl⟩

/-- A block is copied from a cache that has it, and else read from the disk. -/
theorem copyBlock_right {data : CacheData} (failed : host.readOne ≠ some .success)
    (held : data.cacheValid = true → data.Of device ∧ data.cacheStart ≤ startRead ∧
      startRead + blocksize ≤ data.cacheStart + cacheSize) :
    Right device host startRead blocksize (copyBlock device host startRead blocksize data) := by
  rw [copyBlock]
  split
  · rename_i cache holds
    split
    · rename_i valid
      obtain ⟨⟨_, same⟩, after, before⟩ := held valid.2
      obtain rfl := Option.some.inj (holds.symm.trans same)
      rw [bytesAt_part valid.1 after before]
      exact .inl rfl
    · exact readSingle_right failed
  · exact readSingle_right failed

/-- A cache that a read from the disk has filled. -/
structure CacheData.FilledFor (data : CacheData) (device : Device) (volume : Addr) (startRead : Nat) : Prop where
  of : data.Of device
  volume : data.volume = some volume
  start : data.cacheStart = startRead

theorem set_slot (c : Caches) (i : Fin 2) (data : CacheData) : (c.set i data).slot i = data := by
  change Function.update c.slot i data i = data
  rw [Function.update_self]

theorem set_other (c : Caches) {i j : Fin 2} (ne : j ≠ i) (data : CacheData) :
    (c.set i data).slot j = c.slot j := by
  change Function.update c.slot i data j = c.slot j
  rw [Function.update_of_ne ne]

/-- The cache that is filled has the block, or it is not valid; the other one stays. -/
theorem fillCache_fills (c : Caches) (ahead : host.readAhead = none → startRead + cacheSize ≤ device.size)
    {i : Fin 2} {c' : Caches} (filled : fillCache device host volume startRead c = (i, c')) :
    ((c'.slot i).cacheValid = true → (c'.slot i).FilledFor device volume startRead) ∧
      ∀ j ≠ i, c'.slot j = c.slot j := by
  rw [fillCache] at filled
  dsimp only at filled
  split at filled
  · rename_i outcome
    cases filled
    refine ⟨fun _ => ?_, fun j ne => set_other _ ne _⟩
    dsimp only
    rw [set_slot]
    exact ⟨⟨ahead outcome, rfl⟩, rfl, rfl⟩
  · cases filled
    refine ⟨fun valid => ?_, fun j ne => set_other _ ne _⟩
    rw [set_slot] at valid
    cases valid
  · cases filled
    refine ⟨fun valid => ?_, fun j ne => set_other _ ne _⟩
    rw [set_slot] at valid
    cases valid

/-- A read of a block is right, and the caches stay coherent. -/
theorem fswEfiReadBlock_right (coherent : c.Coherent volumes) (live : volumes volume = some device)
    (fits : blocksize ≤ cacheSize) (small : physBno * blocksize + blocksize < 2 ^ 64)
    (honest : host.Honest device physBno blocksize) :
    Right device host (physBno * blocksize) blocksize
        (fswEfiReadBlock device host volume physBno blocksize c).1 ∧
      (fswEfiReadBlock device host volume physBno blocksize c).2.Coherent volumes := by
  have word : u64 (physBno * blocksize) = physBno * blocksize := Nat.mod_eq_of_lt (by omega)
  have ends : u64 (physBno * blocksize + blocksize) = physBno * blocksize + blocksize := Nat.mod_eq_of_lt small
  rw [fswEfiReadBlock]
  dsimp only
  rw [word]
  have cleared : (if c.lastRead = none then fswEfiClearCache else c).Coherent volumes := by
    split
    · exact clear_coherent
    · exact coherent
  generalize (if c.lastRead = none then fswEfiClearCache else c) = c at cleared ⊢
  split
  · rename_i i found
    have has := List.find?_some found
    rw [decide_eq_true_iff] at has
    obtain ⟨same, valid, after, before⟩ := has
    have of := cleared i volume device valid same live
    have last : u64 ((c.slot i).cacheStart + cacheSize) = (c.slot i).cacheStart + cacheSize :=
      Nat.mod_eq_of_lt (Nat.lt_of_le_of_lt of.1 device.size_lt)
    rw [ends, last] at before
    exact ⟨copyBlock_right honest.failed fun _ => ⟨of, after, before⟩, cleared⟩
  · cases filled : fillCache device host volume (physBno * blocksize) c with
    | mk i c' =>
      obtain ⟨fills, others⟩ := fillCache_fills c honest.ahead filled
      refine ⟨copyBlock_right honest.failed fun valid => ?_, ?_⟩
      · obtain ⟨of, -, start⟩ := fills valid
        exact ⟨of, start.le, by rw [start]; omega⟩
      · intro j volume' device' valid same live'
        by_cases here : j = i
        · subst here
          obtain ⟨of, mine, -⟩ := fills valid
          obtain rfl := Option.some.inj (mine.symm.trans same)
          obtain rfl := Option.some.inj (live.symm.trans live')
          exact of
        · dsimp only at valid same
          rw [others j here] at valid same
          exact others j here ▸ cleared j volume' device' valid same live'

end

/-! ### Runs of the driver -/

section
variable {st : Driver} {volume : Addr} {physBno blocksize : Nat} {host : Host}

theorem Driver.Coherent.loaded : Driver.loaded.Coherent := clear_coherent

theorem Driver.Coherent.freed (coherent : st.Coherent) (volume : Addr) :
    st.caches.Coherent (Function.update st.volumes volume none) := by
  intro i volume' device valid same live
  by_cases here : volume' = volume
  · rw [here, Function.update_self] at live
    cases live
  · rw [Function.update_of_ne here] at live
    exact coherent i volume' device valid same live

/-- A step keeps the caches coherent, if a volume starts only where no cache has bytes of one. -/
theorem Driver.Coherent.step (coherent : st.Coherent) {event : Event} (okay : st.Okay event) :
    (st.step event).Coherent := by
  cases event with
  | start volume device =>
    intro i volume' device' valid same live
    by_cases here : volume' = volume
    · exact absurd (here ▸ same) (okay i valid)
    · change Function.update st.volumes volume (some device) volume' = some device' at live
      rw [Function.update_of_ne here] at live
      exact coherent i volume' device' valid same live
  | startFails volume => exact coherent.freed volume
  | stop volume => exact clear_coherent
  | openVolume => exact clear_coherent
  | read volume physBno blocksize host =>
    obtain ⟨fits, small, device, live, honest⟩ := okay
    have right := fswEfiReadBlock_right coherent live fits small honest
    unfold Driver.Coherent Driver.step
    dsimp only
    rw [live]
    exact right.2

theorem Driver.Coherent.readsRight (coherent : st.Coherent)
    (okay : st.Okay (.read volume physBno blocksize host)) : st.ReadsRight volume physBno blocksize host := by
  obtain ⟨fits, small, device, live, honest⟩ := okay
  exact ⟨device, live, (fswEfiReadBlock_right coherent live fits small honest).1⟩

end

/-- What is read during a step is right. -/
def Driver.Right (st : Driver) : Event → Prop
  | .read volume physBno blocksize host => st.ReadsRight volume physBno blocksize host
  | _ => True

def sampleDevice : Device := { byte := UInt8.ofNat, size := 2 ^ 20, size_lt := by decide }

def sampleHost : Host := { pool := true, readAhead := none, readOne := some .deviceError, residue := [] }

/-- The run of a volume that is not mounted, and of another one that is then allocated at its address. -/
def restart (volume : Addr) (old new : Device) (physBno blocksize : Nat) (host : Host) : List Event :=
  [.start volume old, .read volume physBno blocksize host, .startFails volume, .start volume new]

/-- The first read fills the first cache. -/
theorem first_read (volume : Addr) (device : Device) {host : Host} (blocksize : Nat) (pool : host.pool = true)
    (ahead : host.readAhead = none) :
    (fswEfiReadBlock device host volume 0 blocksize fswEfiClearCache).2 =
      { fswEfiClearCache.set 0 ⟨some (part device.byte 0 cacheSize), 0, true, some volume⟩ with
        lastRead := some 0 } := by
  have start : u64 (0 * blocksize) = 0 := by
    rw [Nat.zero_mul]
    rfl
  have absent : (List.finRange 2).find? (fun i =>
      (fswEfiClearCache.slot i).Has volume 0 blocksize) = none := by
    rw [List.find?_eq_none]
    intro i _ has
    rw [decide_eq_true_iff] at has
    exact absurd has.1 (Option.some_ne_none volume).symm
  rw [fswEfiReadBlock, start, ite_self]
  dsimp only
  rw [absent]
  dsimp only
  rw [fillCache, pool, ahead]
  rfl

/-- A block that the first cache has is copied from there. -/
theorem read_first {c : Caches} (device : Device) (host : Host) {volume : Addr} {physBno blocksize : Nat}
    (used : c.lastRead ≠ none) (has : (c.slot 0).Has volume (u64 (physBno * blocksize)) blocksize) :
    (fswEfiReadBlock device host volume physBno blocksize c).1 =
      copyBlock device host (u64 (physBno * blocksize)) blocksize (c.slot 0) := by
  have found : (List.finRange 2).find? (fun i =>
      (c.slot i).Has volume (u64 (physBno * blocksize)) blocksize) = some 0 :=
    List.find?_cons_of_pos (decide_eq_true has)
  rw [fswEfiReadBlock, if_neg used]
  dsimp only
  rw [found]

/-- A volume at the address of one that was not mounted is read from the disk of that one. -/
theorem restart_stale (volume : Addr) (old new : Device) (host host' : Host) {blocksize n : Nat}
    (some' : 0 < blocksize) (pool : host.pool = true) (ahead : host.readAhead = none)
    (fits : n * blocksize + blocksize ≤ cacheSize) :
    (fswEfiReadBlock new host' volume n blocksize
      ((restart volume old new 0 blocksize host).foldl Driver.step Driver.loaded).caches).1 =
        .ok (.success, part old.byte (n * blocksize) blocksize) := by
  have small : cacheSize < 2 ^ 64 := by decide
  have whole : u64 cacheSize = cacheSize := Nat.mod_eq_of_lt small
  have word : u64 (n * blocksize) = n * blocksize := Nat.mod_eq_of_lt (by omega)
  have ends : u64 (n * blocksize + blocksize) = n * blocksize + blocksize := Nat.mod_eq_of_lt (by omega)
  have left : ((restart volume old new 0 blocksize host).foldl Driver.step Driver.loaded).caches =
      (fswEfiReadBlock old host volume 0 blocksize fswEfiClearCache).2 := by
    have live : Function.update (fun _ => none) volume (some old) volume = some old := Function.update_self _ _ _
    simp only [restart, List.foldl_cons, List.foldl_nil, Driver.step, Driver.loaded]
    rw [live]
  rw [left, first_read volume old blocksize pool ahead]
  generalize filled : fswEfiClearCache.set 0 ⟨some (part old.byte 0 cacheSize), 0, true, some volume⟩ = c
  have first : c.slot 0 = ⟨some (part old.byte 0 cacheSize), 0, true, some volume⟩ := by
    rw [← filled, set_slot]
  have has : (c.slot 0).Has volume (u64 (n * blocksize)) blocksize := by
    rw [first, word]
    refine ⟨rfl, rfl, Nat.zero_le _, ?_⟩
    rw [ends, Nat.zero_add, whole]
    exact fits
  refine Eq.trans
    (@read_first { c with lastRead := some 0 } new host' volume n blocksize (Option.some_ne_none 0) has) ?_
  dsimp only
  rw [first, copyBlock, word]
  dsimp only
  rw [if_pos ⟨some', rfl⟩, bytesAt_part some' (Nat.zero_le _) (by omega)]
  rfl

end Meridian.Fsw.ReadCache
