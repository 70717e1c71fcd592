import Meridian.Btrfs.ParityReads

/-!
# What is read of the logical addresses

A volume has one byte for each logical address, and the chunks lay these bytes over the devices, with copies or
with parities. Whatever is read of an address is the byte that the volume has there.
-/

namespace Meridian.Btrfs

open Lib.Word (u64 u64_of_lt sub64_of_le)
open Finset (range)

variable {shift : Nat} {disks : Disks shift} {P : Devices shift → Prop}

/-! ### Chunks that hold their bytes -/

/-- The parities of the rows of sectors: with one, the stripes of a row add up to nothing; with two, the rows are
turned, and end with both parities. -/
def Profile.Rows (disks : Disks shift) (chunk : Chunk) : Profile → Prop
  | .parity nparities => 2 ^ shift ∣ chunk.stripeLength ∧ ∀ off < chunk.size, ∀ sector,
      let row := (Profile.layout chunk (.parity nparities)).row (off / chunk.stripeLength)
      chunk.stripeLength * row ≤ sector * 2 ^ shift → sector * 2 ^ shift < chunk.stripeLength * (row + 1) →
      if nparities = 1 then ∀ j, ∑ k ∈ range chunk.nstripes, rowByte (chunkRow disks chunk 0 sector) j k = 0
      else Raid6Row (chunkRow disks chunk (row % chunk.nstripes) sector) chunk.nstripes
  | _ => True

/-- A chunk whose stripes hold the bytes of the volume. -/
structure Chunk.Holds (chunk : Chunk) (disks : Disks shift) (content : Nat → UInt8) (p : Profile) : Prop where
  wellFormed : chunk.WellFormed p
  copies : ∀ off < chunk.size, ∀ c < (p.layout chunk).copies, ∀ stripe,
    chunk.stripes[(p.layout chunk).first off + c]? = some stripe →
      byteOf disks stripe.deviceId (stripe.offset + (p.layout chunk).inStripe off) = content (chunk.rawOff + off)
  rows : p.Rows disks chunk

theorem profile_parity {chunk : Chunk} {nparities : Nat} (profile : chunk.profile = some (.parity nparities)) :
    nparities = 1 ∨ nparities = 2 := by
  rw [Chunk.profile] at profile
  split_ifs at profile <;> cases profile
  · exact Or.inl rfl
  · exact Or.inr rfl

section
variable {chunk : Chunk} {content : Nat → UInt8} {p : Profile} (holds : chunk.Holds disks content p) {off : Nat}
  (lt : off < chunk.size)
include holds lt

/-- A part of a unit is on each of its copies. -/
theorem bytesOf_unit {csize : Nat} (le : csize ≤ (p.layout chunk).left off) {c : Nat}
    (copy : c < (p.layout chunk).copies) {stripe : ChunkStripe}
    (here : chunk.stripes[(p.layout chunk).first off + c]? = some stripe) :
    bytesOf disks stripe.deviceId (stripe.offset + (p.layout chunk).inStripe off) csize =
      (List.range csize).map fun i => content (chunk.rawOff + off + i) := by
  refine List.map_congr_left fun i mem => ?_
  have inside : i < (p.layout chunk).left off := lt_of_lt_of_le (List.mem_range.mp mem) le
  have before := holds.wellFormed.left_le lt
  rw [Nat.add_assoc, ← Layout.inStripe_add inside, Nat.add_assoc]
  refine holds.copies (off + i) (by omega) c copy stripe ?_
  rwa [Layout.first_add inside]

theorem paddr_lt {stripe : ChunkStripe} (mem : stripe ∈ chunk.stripes) :
    stripe.offset + (p.layout chunk).inStripe off < 2 ^ 64 := by
  have ends := holds.wellFormed.ends stripe mem
  have short := holds.wellFormed.inStripe_lt lt
  have left := Layout.left_pos off holds.wellFormed.unit_pos
  omega

end

/-! ### Rows with parities -/

/-- In a row that is turned, each stripe has one number. -/
theorem numbered_turned {chunk : Chunk} (row : Nat) {d : Nat} (lt : d < chunk.nstripes) :
    Numbered chunk (row % chunk.nstripes) ((row + d) % chunk.nstripes) d := by
  refine ⟨lt, fun k inside => ⟨fun same => ?_, ?_⟩⟩
  · rw [Nat.mod_add_mod] at same
    exact Nat.ModEq.eq_of_lt_of_lt (Nat.ModEq.add_left_cancel' row same) inside lt
  · rintro rfl
    rw [Nat.mod_add_mod]

theorem numbered_plain {chunk : Chunk} {stripen : Nat} (lt : stripen < chunk.nstripes) :
    Numbered chunk 0 stripen stripen := by
  refine ⟨lt, fun k inside => ?_⟩
  rw [Nat.zero_add, Nat.mod_eq_of_lt inside]

/-- The sectors of the row of a unit. -/
def rowSectors (shift unit row : Nat) : Set Nat :=
  {sector | unit * row ≤ sector * 2 ^ shift ∧ sector * 2 ^ shift < unit * (row + 1)}

theorem rowSectors_of_lt {unit row so n : Nat} (aligned : 2 ^ shift ∣ unit) (le : unit * row ≤ so)
    (ends : so + n ≤ unit * (row + 1)) {i : Nat} (lt : i * 2 ^ shift < so % 2 ^ shift + n) :
    so / 2 ^ shift + i ∈ rowSectors shift unit row := by
  have division := Nat.div_add_mod' so (2 ^ shift)
  obtain ⟨count, start⟩ := aligned.mul_right row
  rw [rowSectors, Set.mem_ofPred_eq, Nat.add_mul]
  refine ⟨?_, by omega⟩
  rw [start] at le ⊢
  have rows : count ≤ so / 2 ^ shift := (Nat.le_div_iff_mul_le (Nat.two_pow_pos shift)).mpr (by rwa [Nat.mul_comm])
  calc 2 ^ shift * count ≤ 2 ^ shift * (so / 2 ^ shift) := Nat.mul_le_mul_left _ rows
    _ ≤ so / 2 ^ shift * 2 ^ shift + i * 2 ^ shift := by rw [Nat.mul_comm]; exact Nat.le_add_right _ _

section
variable {chunk : Chunk} {content : Nat → UInt8} {off : Nat} {stripe : ChunkStripe} {dev : Option Nat}

theorem sector_lt {p : Profile} (holds : chunk.Holds disks content p) (lt : off < chunk.size) {sector : Nat}
    (mem : sector ∈ rowSectors shift (p.layout chunk).unit ((p.layout chunk).row (off / (p.layout chunk).unit)))
    {stripe : ChunkStripe} (stripeMem : stripe ∈ chunk.stripes) : stripe.offset / 2 ^ shift + sector < 2 ^ 64 := by
  have ends := holds.wellFormed.ends stripe stripeMem
  have short := holds.wellFormed.short _ (holds.wellFormed.unit_lt lt)
  have below := lt_of_lt_of_le mem.2 short
  have less : sector ≤ sector * 2 ^ shift := Nat.le_mul_of_pos_right _ (Nat.two_pow_pos shift)
  have quotient := Nat.div_le_self stripe.offset (2 ^ shift)
  omega

theorem raid5_run : parityRun chunk ((Profile.parity 1).mapped chunk off) dev =
    ⟨chunk, ((Profile.parity 1).layout chunk).first off, 0, true, dev⟩ := by
  have tag : ((Profile.parity 1).mapped chunk off).stripeq = raid5Tag := by
    rw [Profile.mapped, Profile.stripeq, if_pos rfl]
  rw [parityRun, if_pos tag, decide_eq_true tag]
  rfl

theorem raid5_fits (holds : chunk.Holds disks content (.parity 1)) (lt : off < chunk.size)
    (here : chunk.stripes[((Profile.parity 1).layout chunk).first off]? = some stripe)
    (found : ∀ id, dev = some id → id = stripe.deviceId) :
    (parityRun chunk ((Profile.parity 1).mapped chunk off) dev).Fits disks stripe
      (((Profile.parity 1).layout chunk).first off)
      (rowSectors shift chunk.stripeLength
        (((Profile.parity 1).layout chunk).row (off / chunk.stripeLength))) := by
  have inside := holds.wellFormed.first_le lt
  refine ⟨holds.wellFormed.loaded, here, ?_, ?_, found,
    fun sector mem stripe stripeMem => sector_lt holds lt mem stripeMem, ?_⟩
  · exact lt_of_lt_of_le (Nat.zero_lt_succ _) inside
  · exact numbered_plain inside
  · intro sector mem get reads block recovered
    have parity := holds.rows.2 off lt sector mem.1 mem.2
    rw [if_pos rfl] at parity
    rcases recoverBlock_raid5 reads inside parity with ⟨_, same⟩ | ⟨_, status, failed⟩
    · have same' := same.symm.trans recovered
      split at same'
      · cases same'
      · exact (Except.ok.inj same').symm
    · exact absurd (failed.symm.trans recovered) (by rintro ⟨⟩)

/-- The table of a row with two parities starts with the first stripe of its data. -/
theorem raid6_run (few : chunk.nstripes ≤ 255) (more : 2 < chunk.nstripes) :
    parityRun chunk ((Profile.parity 2).mapped chunk off) dev =
      ⟨chunk, ((Profile.parity 2).layout chunk).first off,
        ((Profile.parity 2).layout chunk).row (off / chunk.stripeLength) % chunk.nstripes, false, dev⟩ := by
  have second := Nat.mod_lt (((Profile.parity 2).layout chunk).row (off / chunk.stripeLength) + chunk.nstripes - 1)
    (by omega : 0 < chunk.nstripes)
  have other : ((Profile.parity 2).mapped chunk off).stripeq ≠ raid5Tag := by
    rw [Profile.mapped, Profile.stripeq, if_neg (by decide)]
    exact Nat.ne_of_lt (lt_trans second (lt_of_le_of_lt few (by decide)))
  have next : (((Profile.parity 2).mapped chunk off).stripeq + 1) % chunk.nstripes =
      ((Profile.parity 2).layout chunk).row (off / chunk.stripeLength) % chunk.nstripes := by
    rw [Profile.mapped, Profile.stripeq, if_neg (by decide), Nat.mod_add_mod, Nat.sub_add_cancel (by omega),
      Nat.add_mod_right]
  rw [parityRun, if_neg other, next, decide_eq_false other]
  rfl

theorem raid6_fits (holds : chunk.Holds disks content (.parity 2)) (lt : off < chunk.size)
    (here : chunk.stripes[((Profile.parity 2).layout chunk).first off]? = some stripe)
    (found : ∀ id, dev = some id → id = stripe.deviceId) :
    (parityRun chunk ((Profile.parity 2).mapped chunk off) dev).Fits disks stripe
      (off / chunk.stripeLength % (chunk.nstripes - 2))
      (rowSectors shift chunk.stripeLength
        (((Profile.parity 2).layout chunk).row (off / chunk.stripeLength))) := by
  obtain ⟨_, few, more⟩ := holds.wellFormed.allowed
  have data : off / chunk.stripeLength % (chunk.nstripes - 2) < chunk.nstripes - 2 := Nat.mod_lt _ (by omega)
  rw [raid6_run few more]
  refine ⟨holds.wellFormed.loaded, here, Nat.mod_lt _ (by omega), ?_, found,
    fun sector mem stripe stripeMem => sector_lt holds lt mem stripeMem, ?_⟩
  · exact numbered_turned _ (lt_of_lt_of_le data (Nat.sub_le _ _))
  · intro sector mem get reads block recovered
    have parities := holds.rows.2 off lt sector mem.1 mem.2
    rw [if_neg (by decide)] at parities
    rcases recoverBlock_raid6 parities data few reads with ⟨_, same⟩ | ⟨_, status, failed⟩
    · exact (Except.ok.inj (same.symm.trans recovered)).symm
    · exact absurd (failed.symm.trans recovered) (by rintro ⟨⟩)

/-- The sectors of a part of a unit. -/
theorem unit_sectors {nparities : Nat} (holds : chunk.Holds disks content (.parity nparities)) {csize : Nat}
    (le : csize ≤ ((Profile.parity nparities).layout chunk).left off) (i : Nat)
    (lt : i * 2 ^ shift < ((Profile.parity nparities).layout chunk).inStripe off % 2 ^ shift + csize) :
    ((Profile.parity nparities).layout chunk).inStripe off / 2 ^ shift + i ∈
      rowSectors shift chunk.stripeLength
        (((Profile.parity nparities).layout chunk).row (off / chunk.stripeLength)) := by
  have ends := @Layout.inStripe_add_left ((Profile.parity nparities).layout chunk) off holds.wellFormed.unit_pos
  exact rowSectors_of_lt holds.rows.1 (Nat.le_add_left _ _)
    (le_trans (Nat.add_le_add_left le _) (le_of_eq ends)) lt

/-- A part of a unit of a row with parities. -/
theorem parityRead_ok {nparities : Nat} (holds : chunk.Holds disks content (.parity nparities))
    (lt : off < chunk.size) {vol : BtrfsVolume shift} (sound : vol.Sound disks P) {csize : Nat}
    (le : csize ≤ ((Profile.parity nparities).layout chunk).left off) :
    (parityRead vol chunk ((Profile.parity nparities).mapped chunk off) csize).2.Sound disks P ∧
      ∀ bytes, (parityRead vol chunk ((Profile.parity nparities).mapped chunk off) csize).1 = .ok bytes →
        bytes = (List.range csize).map fun i => content (chunk.rawOff + off + i) := by
  obtain ⟨_, few, more⟩ := holds.wellFormed.allowed
  rw [parityRead]
  split
  · exact ⟨sound, fun _ error => absurd error (by rintro ⟨⟩)⟩
  rename_i whole
  rw [if_neg (Nat.not_lt.mpr (ge_of_eq holds.wellFormed.loaded))]
  dsimp only [Profile.mapped]
  cases here : chunk.stripes[((Profile.parity nparities).layout chunk).first off]? with
  | none => exact ⟨sound, fun _ error => absurd error (by rintro ⟨⟩)⟩
  | some stripe =>
    dsimp only
    have found : ∀ id, (vol.findDevice stripe.deviceId).1 = some id → id = stripe.deviceId :=
      fun _ => findDevice_eq
    have sound' := sound_findDevice sound stripe.deviceId
    have one : 0 < ((Profile.parity nparities).layout chunk).copies := Nat.zero_lt_one
    have unit := bytesOf_unit holds lt le one here
    have start : (stripe.offset / 2 ^ shift + ((Profile.parity nparities).layout chunk).inStripe off / 2 ^ shift) *
        2 ^ shift + ((Profile.parity nparities).layout chunk).inStripe off % 2 ^ shift =
          stripe.offset + ((Profile.parity nparities).layout chunk).inStripe off := by
      have sectors : stripe.offset % 2 ^ shift = 0 := by
        by_contra part
        exact whole (List.any_eq_true.mpr ⟨stripe, List.mem_of_getElem? here, decide_eq_true part⟩)
      have division := Nat.div_add_mod' stripe.offset (2 ^ shift)
      rw [Nat.add_mul, Nat.add_assoc, Nat.div_add_mod']
      omega
    rw [← unit, ← start]
    have fresh (run : ParityRun) (target : Nat) :
        ParityState.Fits { vol := (vol.findDevice stripe.deviceId).2 } disks P run target :=
      ⟨sound', fun _ none => absurd none (Option.some_ne_none _).symm,
        fun _ none => absurd none (Option.some_ne_none _).symm⟩
    rcases profile_parity holds.wellFormed.profile with rfl | rfl
    · exact parityLoop_ok (raid5_fits holds lt here found) (fresh _ _) (unit_sectors holds le)
    · exact parityLoop_ok (raid6_fits holds lt here found) (fresh _ _) (unit_sectors holds le)

/-- A part of a unit, whatever the profile. -/
theorem partRead_ok {p : Profile} (holds : chunk.Holds disks content p) (lt : off < chunk.size)
    {vol : BtrfsVolume shift} (sound : vol.Sound disks P) {csize : Nat} (le : csize ≤ (p.layout chunk).left off) :
    (partRead vol chunk (p.mapped chunk off) csize).2.Sound disks P ∧
      ∀ bytes, (partRead vol chunk (p.mapped chunk off) csize).1 = .ok bytes →
        bytes = (List.range csize).map fun i => content (chunk.rawOff + off + i) := by
  have direct (copies : (p.layout chunk).copies = p.redundancy) :
      (directRead vol chunk (p.mapped chunk off) csize).2.Sound disks P ∧
        ∀ bytes, (directRead vol chunk (p.mapped chunk off) csize).1 = .ok bytes →
          bytes = (List.range csize).map fun i => content (chunk.rawOff + off + i) := by
    obtain ⟨sound', read⟩ := @directRead_ok _ _ P _ sound chunk (p.mapped chunk off) csize
      fun stripe mem => paddr_lt holds lt mem
    refine ⟨sound', fun bytes same => ?_⟩
    obtain ⟨c, copy, stripe, here, rfl⟩ := read bytes same
    exact bytesOf_unit holds lt le (lt_of_lt_of_eq copy copies.symm) here
  have few (copies : (p.layout chunk).copies = p.redundancy) : (p.mapped chunk off).redundancy < raid5Tag := by
    have inside := holds.wellFormed.first_le lt
    have few := holds.wellFormed.few
    exact lt_of_le_of_lt (le_trans (le_of_eq copies.symm) (Nat.le_of_add_left_le inside))
      (lt_trans few (by decide))
  rw [partRead]
  cases p with
  | single =>
    rw [if_pos (few rfl)]
    exact direct rfl
  | mirror copies =>
    rw [if_pos (few rfl)]
    exact direct rfl
  | striped copies =>
    rw [if_pos (few rfl)]
    exact direct rfl
  | parity nparities =>
    have all : ¬ ((Profile.parity nparities).mapped chunk off).redundancy < raid5Tag := Nat.lt_irrefl raid5Tag
    rw [if_neg all]
    exact parityRead_ok holds lt sound le

end

/-! ### Addresses -/

/-- The chunks that are found for some addresses hold their bytes, and what is read to find them leaves the volume
sound. -/
structure FindsChunks (lookup : BtrfsVolume shift → Nat → BtrfsM Chunk × BtrfsVolume shift) (disks : Disks shift)
    (P : Devices shift → Prop) (content : Nat → UInt8) (mapped : Nat → Prop) : Prop where
  sound : ∀ vol, vol.Sound disks P → ∀ addr < 2 ^ 64, mapped addr → (lookup vol addr).2.Sound disks P
  holds : ∀ vol, vol.Sound disks P → ∀ addr < 2 ^ 64, mapped addr → ∀ chunk, (lookup vol addr).1 = .ok chunk →
    chunk.rawOff ≤ addr ∧ ∃ p, chunk.Holds disks content p

/-- The bytes of the volume from an address on. -/
def bytesAt (content : Nat → UInt8) (addr n : Nat) : List UInt8 :=
  (List.range n).map fun i => content (u64 (addr + i))

theorem bytesAt_append (content : Nat → UInt8) (addr a b : Nat) :
    bytesAt content addr a ++ bytesAt content (u64 (addr + a)) b = bytesAt content addr (a + b) := by
  rw [bytesAt, bytesAt, bytesAt, List.range_add, List.map_append, List.map_map]
  refine congrArg _ (List.map_congr_left fun i _ => ?_)
  rw [Function.comp_apply, ← Nat.add_assoc, u64, u64, u64, Nat.mod_add_mod]

/-- The first address of a read, and those behind a part of it. -/
theorem mapped_first {mapped : Nat → Prop} {addr size : Nat} (word : addr < 2 ^ 64) (more : size ≠ 0)
    (inside : ∀ i < size, mapped (u64 (addr + i))) : mapped addr := by
  have first := inside 0 (Nat.pos_of_ne_zero more)
  rwa [Nat.add_zero, u64_of_lt word] at first

theorem mapped_behind {mapped : Nat → Prop} {addr size csize : Nat}
    (inside : ∀ i < size, mapped (u64 (addr + i))) (i : Nat) (lt : i < size - csize) :
    mapped (u64 (u64 (addr + csize) + i)) := by
  have here := inside (csize + i) (by omega)
  rwa [← Nat.add_assoc, u64, ← Nat.mod_add_mod] at here

theorem readLogical_ok {lookup : BtrfsVolume shift → Nat → BtrfsM Chunk × BtrfsVolume shift}
    {content : Nat → UInt8} {mapped : Nat → Prop} (finds : FindsChunks lookup disks P content mapped)
    {vol : BtrfsVolume shift} (sound : vol.Sound disks P) {addr size : Nat} (word : addr < 2 ^ 64)
    (inside : ∀ i < size, mapped (u64 (addr + i))) :
    (readLogical lookup vol addr size).2.Sound disks P ∧
      ∀ bytes, (readLogical lookup vol addr size).1 = .ok bytes → bytes = bytesAt content addr size := by
  induction size using Nat.strong_induction_on generalizing vol addr with
  | _ size ih =>
    rw [readLogical]
    split
    · rename_i zero
      refine ⟨sound, fun bytes same => ?_⟩
      rw [← Except.ok.inj same, zero]
      rfl
    rename_i more
    have first := mapped_first word more inside
    have sound' := finds.sound vol sound addr word first
    dsimp only
    cases found : (lookup vol addr).1 with
    | error stop => exact ⟨sound', fun _ error => absurd error (by rintro ⟨⟩)⟩
    | ok chunk =>
      obtain ⟨le, p, holds⟩ := finds.holds vol sound addr word first chunk found
      dsimp only
      rw [sub64_of_le le word]
      by_cases lt : addr - chunk.rawOff < chunk.size
      · rw [mapChunk_eq holds.wellFormed lt]
        have some : 0 < (p.mapped chunk (addr - chunk.rawOff)).csize := Layout.left_pos _ holds.wellFormed.unit_pos
        obtain ⟨inUnit, inSize, advance⟩ := partSize_spec (Nat.ne_of_gt some) more
        obtain ⟨sound'', part⟩ := partRead_ok holds lt sound' inUnit
        dsimp only
        rw [if_neg (Nat.ne_of_gt some)]
        generalize partSize (p.mapped chunk (addr - chunk.rawOff)).csize size = csize at *
        cases here : (partRead (lookup vol addr).2 chunk (p.mapped chunk (addr - chunk.rawOff)) csize).1 with
        | error stop => exact ⟨sound'', fun _ error => absurd error (by rintro ⟨⟩)⟩
        | ok bytes =>
          obtain ⟨kept, rest⟩ :=
            @ih (size - csize) (by omega) _ sound'' (u64 (addr + csize)) (Lib.Word.u64_lt _) (mapped_behind inside)
          refine ⟨kept, fun all same => ?_⟩
          dsimp only at same
          cases later : (readLogical lookup
              (partRead (lookup vol addr).2 chunk (p.mapped chunk (addr - chunk.rawOff)) csize).2
              (u64 (addr + csize)) (size - csize)).1 with
          | error stop =>
            rw [later] at same
            cases same
          | ok bytes' =>
            have here' : bytes = bytesAt content addr csize := by
              rw [part bytes here, Nat.add_sub_cancel' le]
              refine List.map_congr_left fun i mem => ?_
              have inside := List.mem_range.mp mem
              have ends := holds.wellFormed.left_le lt
              have whole := holds.wellFormed.size_le
              have inUnit' : csize ≤ (p.layout chunk).left (addr - chunk.rawOff) := inUnit
              rw [u64_of_lt (by omega)]
            rw [later] at same
            have whole : csize + (size - csize) = size := by omega
            have both := bytesAt_append content addr csize (size - csize)
            rw [whole] at both
            rw [← Except.ok.inj same, here', rest bytes' later]
            exact both
      · rw [mapChunk, if_pos (Nat.not_lt.mp lt)]
        exact ⟨sound', fun _ error => absurd error (by rintro ⟨⟩)⟩

end Meridian.Btrfs
