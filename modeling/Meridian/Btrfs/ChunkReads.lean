import Mathlib.Data.List.Forall2
import Meridian.Btrfs.Layout

/-!
# What is read of a chunk

Where the devices deliver what their sectors hold, the bytes that `fsw_btrfs_read_logical` reads are those that the
chunks hold, whichever copy they come from and whether they are read, recovered or kept from before.
-/

namespace Meridian.Btrfs

open Fsw (FswStatus)
open Lib.Word (u64 u64_of_lt)
open Finset (range)

variable {shift : Nat}

/-! ### The bytes of devices -/

/-- What the sectors of the devices hold. -/
abbrev Disks (shift : Nat) := Nat → Nat → Sector (2 ^ shift)

def byteOf (disks : Disks shift) (id paddr : Nat) : UInt8 :=
  disks id (paddr / 2 ^ shift) ⟨paddr % 2 ^ shift, Nat.mod_lt _ (Nat.two_pow_pos shift)⟩

def bytesOf (disks : Disks shift) (id paddr n : Nat) : List UInt8 :=
  (List.range n).map fun i => byteOf disks id (paddr + i)

section
variable {disks : Disks shift} {id : Nat}

theorem byteOf_sector (sector : Nat) (j : Fin (2 ^ shift)) :
    byteOf disks id (sector * 2 ^ shift + j) = disks id sector j := by
  have quotient : (sector * 2 ^ shift + j) / 2 ^ shift = sector := by
    rw [Nat.add_comm, Nat.add_mul_div_right _ _ (Nat.two_pow_pos shift), Nat.div_eq_of_lt j.isLt, Nat.zero_add]
  have remainder : (sector * 2 ^ shift + j) % 2 ^ shift = j := by
    rw [Nat.add_comm, Nat.add_mul_mod_self_right, Nat.mod_eq_of_lt j.isLt]
  simp only [byteOf, quotient, remainder]

theorem bytesOf_append (paddr a b : Nat) :
    bytesOf disks id paddr a ++ bytesOf disks id (paddr + a) b = bytesOf disks id paddr (a + b) := by
  rw [bytesOf, bytesOf, bytesOf, List.range_add, List.map_append, List.map_map]
  refine congrArg _ (List.map_congr_left fun i _ => ?_)
  rw [Function.comp_apply, Nat.add_assoc]

theorem slice_eq (sector : Nat) (off : Fin (2 ^ shift)) {n : Nat} (le : off + n ≤ 2 ^ shift) :
    slice (disks id sector) off n = bytesOf disks id (sector * 2 ^ shift + off) n := by
  refine List.ext_getElem ?_ fun i lt lt' => ?_
  · rw [slice, bytesOf, List.length_take, List.length_drop, List.length_ofFn, List.length_map, List.length_range]
    omega
  · rw [bytesOf, List.length_map, List.length_range] at lt'
    have byte := @byteOf_sector shift disks id sector ⟨off + i, by omega⟩
    rw [← Nat.add_assoc] at byte
    simp only [slice, bytesOf, List.getElem_take, List.getElem_drop, List.getElem_ofFn, List.getElem_map,
      List.getElem_range, byte]

/-- The bytes of a sector, and those behind it. -/
theorem slice_append (sector : Nat) (off : Fin (2 ^ shift)) (n : Nat) :
    slice (disks id sector) off (usedBytes shift off n) ++
        bytesOf disks id ((sector + 1) * 2 ^ shift) (n - usedBytes shift off n) =
      bytesOf disks id (sector * 2 ^ shift + off) n := by
  have inside := off.isLt
  by_cases ends : 2 ^ shift - off > n
  · have used : usedBytes shift off n = n := if_pos ends
    rw [used, slice_eq sector off (by omega), Nat.sub_self]
    exact List.append_nil _
  · have used : usedBytes shift off n = 2 ^ shift - off := if_neg ends
    have next : (sector + 1) * 2 ^ shift = sector * 2 ^ shift + off + (2 ^ shift - off) := by
      rw [Nat.add_mul, Nat.one_mul]
      omega
    rw [used, slice_eq sector off (by omega), next, bytesOf_append]
    exact congrArg _ (by omega)

end

/-! ### Volumes -/

/-- The devices deliver nothing but what their sectors hold. -/
def Delivers (disks : Disks shift) (devices : Devices shift) : Prop :=
  ∀ id sector block, devices.blockGet id sector = .ok block → block = disks id sector

/-- Something is so of the devices, and of those that a scan finds. -/
structure BtrfsVolume.Always (P : Devices shift → Prop) (vol : BtrfsVolume shift) : Prop where
  now : P vol.devices
  later : ∀ found devices, vol.rescan = some (found, devices) → P devices

/-- What is kept of recovered sectors is what their devices hold. -/
def CacheHolds (disks : Disks shift) (vol : BtrfsVolume shift) : Prop :=
  ∀ i, (vol.rcache i).valid → (vol.rcache i).buffer = disks (vol.rcache i).deviceId (vol.rcache i).offset

/-- The invariant of a volume: the devices deliver what they hold, and `P` is so of them. -/
structure BtrfsVolume.Sound (disks : Disks shift) (P : Devices shift → Prop) (vol : BtrfsVolume shift) : Prop where
  devices : vol.Always fun devices => Delivers disks devices ∧ P devices
  rcache : CacheHolds disks vol

section
variable {disks : Disks shift} {P : Devices shift → Prop} {vol : BtrfsVolume shift}

theorem sound_rescan (sound : vol.Sound disks P) : vol.doRescanOnce.2.Sound disks P := by
  rw [BtrfsVolume.doRescanOnce]
  cases scan : vol.rescan with
  | none => exact sound
  | some result =>
    obtain ⟨found, devices⟩ := result
    exact ⟨⟨sound.devices.later found devices scan, fun _ _ none => absurd none (Option.some_ne_none _).symm⟩,
      sound.rcache⟩

theorem sound_findDevice (sound : vol.Sound disks P) (id : Nat) : (vol.findDevice id).2.Sound disks P := by
  rw [BtrfsVolume.findDevice]
  split
  · exact sound
  · exact sound_rescan sound

/-- The device that is found is the one with the number. -/
theorem findDevice_eq {id dev : Nat} (found : (vol.findDevice id).1 = some dev) : dev = id := by
  rw [BtrfsVolume.findDevice] at found
  split at found
  · exact (Option.some.inj found).symm
  · dsimp only at found
    split at found
    · exact (Option.some.inj found).symm
    · cases found

theorem sound_setCache (sound : vol.Sound disks P) {rc : RecoverCache shift}
    (holds : rc.valid → rc.buffer = disks rc.deviceId rc.offset) : (vol.setCache rc).Sound disks P := by
  refine ⟨⟨sound.devices.now, sound.devices.later⟩, fun i => ?_⟩
  dsimp only [BtrfsVolume.setCache]
  by_cases here : i = recoverHash rc.deviceId rc.offset
  · rw [here, Function.update_self]
    exact holds
  · rw [Function.update_of_ne here]
    exact sound.rcache i

theorem getRecoverCache_key (deviceId offset : Nat) :
    (getRecoverCache vol deviceId offset).deviceId = deviceId ∧
      (getRecoverCache vol deviceId offset).offset = offset := by
  rw [getRecoverCache]
  split
  · exact ⟨rfl, rfl⟩
  · rename_i same
    exact ⟨not_ne_iff.mp fun ne => same (Or.inl ne), not_ne_iff.mp fun ne => same (Or.inr ne)⟩

/-- What is kept under a number of a sector is that sector, or not valid. -/
theorem getRecoverCache_holds (sound : vol.Sound disks P) (deviceId offset : Nat)
    (valid : (getRecoverCache vol deviceId offset).valid = true) :
    (getRecoverCache vol deviceId offset).buffer = disks deviceId offset := by
  have key := @getRecoverCache_key shift vol deviceId offset
  rw [getRecoverCache] at valid key ⊢
  split at valid
  · cases valid
  · rename_i same
    rw [if_neg same] at key ⊢
    rw [sound.rcache _ valid, key.1, key.2]

/-! ### Copies -/

/-- The loop over the sectors reads the bytes of the device. -/
theorem readSectors_ok {get : Nat → Except FswStatus (Sector (2 ^ shift))} {id : Nat}
    (delivers : ∀ sector block, get sector = .ok block → block = disks id sector) {sector : Nat}
    {off : Fin (2 ^ shift)} {n : Nat} {bytes : List UInt8} (read : readSectors get sector off n = .ok bytes) :
    bytes = bytesOf disks id (sector * 2 ^ shift + off) n := by
  induction n using Nat.strong_induction_on generalizing sector off bytes with
  | _ n ih =>
    rw [readSectors] at read
    split at read
    · rename_i zero
      rw [← Except.ok.inj read, zero]
      rfl
    · rename_i more
      split at read
      · cases read
      · rename_i block here
        dsimp only at read
        cases later : readSectors get (sector + 1) ⟨0, Nat.two_pow_pos shift⟩ (n - usedBytes shift off n) with
        | error status =>
          rw [later] at read
          cases read
        | ok rest =>
          have fewer := Nat.sub_lt (Nat.pos_of_ne_zero more) (@usedBytes_pos shift off n more)
          rw [later] at read
          rw [← Except.ok.inj read, ih _ fewer later, delivers sector block here]
          exact slice_append sector off n

/-- The loop over the copies ends with the bytes of one of them. -/
theorem copyLoop_read {devices : Devices shift} (delivers : Delivers disks devices) {chunk : Chunk}
    {stripeOffset csize stripen left : Nat}
    (ends : ∀ stripe ∈ chunk.stripes, stripe.offset + stripeOffset < 2 ^ 64) {bytes : List UInt8}
    (read : copyLoop devices chunk stripeOffset csize stripen left = .read bytes) :
    ∃ c < left, ∃ stripe, chunk.stripes[stripen + c]? = some stripe ∧
      bytes = bytesOf disks stripe.deviceId (stripe.offset + stripeOffset) csize := by
  induction left generalizing stripen with
  | zero => cases read
  | succ left ih =>
    rw [copyLoop] at read
    cases here : chunk.stripes[stripen]? with
    | none =>
      rw [here] at read
      cases read
    | some stripe =>
      rw [here] at read
      dsimp only at read
      split at read
      · split at read
        · rename_i bytes' found
          cases read
          refine ⟨0, Nat.succ_pos left, stripe, here, ?_⟩
          rw [readSectors_ok (delivers stripe.deviceId) found, Nat.div_add_mod',
            u64_of_lt (ends stripe (List.mem_of_getElem? here))]
        · cases read
      · obtain ⟨c, lt, stripe', found, eq⟩ := ih read
        refine ⟨c + 1, by omega, stripe', ?_, eq⟩
        rwa [← Nat.add_assoc, Nat.add_right_comm]

theorem directRead_ok (sound : vol.Sound disks P) {chunk : Chunk} {m : Mapped} {csize : Nat}
    (ends : ∀ stripe ∈ chunk.stripes, stripe.offset + m.stripeOffset < 2 ^ 64) :
    (directRead vol chunk m csize).2.Sound disks P ∧
      ∀ bytes, (directRead vol chunk m csize).1 = .ok bytes →
        ∃ c < m.redundancy, ∃ stripe, chunk.stripes[m.stripen + c]? = some stripe ∧
          bytes = bytesOf disks stripe.deviceId (stripe.offset + m.stripeOffset) csize := by
  have ok {devices : Devices shift} (delivers : Delivers disks devices) (bytes : List UInt8)
      (read : (copyLoop devices chunk m.stripeOffset csize m.stripen m.redundancy).result = .ok bytes) :
      ∃ c < m.redundancy, ∃ stripe, chunk.stripes[m.stripen + c]? = some stripe ∧
        bytes = bytesOf disks stripe.deviceId (stripe.offset + m.stripeOffset) csize := by
    refine copyLoop_read delivers ends ?_
    cases run : copyLoop devices chunk m.stripeOffset csize m.stripen m.redundancy <;>
      rw [run] at read <;> cases read
    rfl
  rw [directRead]
  dsimp only
  split
  · split
    · exact ⟨sound_rescan sound, ok (sound_rescan sound).devices.now.1⟩
    · exact ⟨sound_rescan sound, ok sound.devices.now.1⟩
  · exact ⟨sound, ok sound.devices.now.1⟩

end

end Meridian.Btrfs
