import Meridian.Btrfs.ChunkReads

/-!
# What is read of a row with parities

The table of the other stripes is set up once for a unit, in the order of its row. Each sector of the unit then
comes from its device, from what is kept of sectors that were recovered, or from the other stripes.
-/

namespace Meridian.Btrfs

open Fsw (FswStatus)
open Lib.Word (u64 u64_of_lt)
open Finset (range)

variable {shift : Nat} {disks : Disks shift} {P : Devices shift → Prop}

/-! ### The table -/

/-- What stands in the table under a number: nothing for the stripe to read, else the stripe of the row. -/
def SlotHolds (shift : Nat) (chunk : Chunk) (firstStripe target k : Nat) (slot : StripeSlot) : Prop :=
  (k = target → slot.dev = none) ∧
    (k ≠ target → ∃ stripe, chunk.stripes[(firstStripe + k) % chunk.nstripes]? = some stripe ∧
      slot.off = stripe.offset / 2 ^ shift ∧ ∀ dev, slot.dev = some dev → dev = stripe.deviceId)

/-- The stripe to read has one number in the row. -/
def Numbered (chunk : Chunk) (firstStripe stripen target : Nat) : Prop :=
  target < chunk.nstripes ∧
    ∀ k < chunk.nstripes, (firstStripe + k) % chunk.nstripes = stripen ↔ k = target

theorem next_stripe_eq {n i : Nat} (pos : 0 < n) :
    (if i % n = n - 1 then 0 else i % n + 1) = (i + 1) % n := by
  have small := Nat.mod_lt i pos
  rw [Nat.add_mod]
  split
  · rename_i last
    by_cases one : n = 1
    · rw [one, Nat.mod_one]
    · rw [last, Nat.mod_eq_of_lt (by omega : 1 < n), Nat.sub_add_cancel pos, Nat.mod_self]
  · by_cases one : n = 1
    · omega
    · rw [Nat.mod_eq_of_lt (by omega : 1 < n), Nat.mod_eq_of_lt (by omega : i % n + 1 < n)]

theorem setupSlots_ok {chunk : Chunk} {firstStripe stripen target : Nat}
    (loaded : chunk.stripes.length = chunk.nstripes) (numbered : Numbered chunk firstStripe stripen target)
    {vol : BtrfsVolume shift} (sound : vol.Sound disks P) {posN i left : Nat} (count : i + left = chunk.nstripes) :
    (setupSlots chunk stripen vol posN i ((firstStripe + i) % chunk.nstripes) left).2.Sound disks P ∧
      (setupSlots chunk stripen vol posN i ((firstStripe + i) % chunk.nstripes) left).1.posN =
        (if i ≤ target then target else posN) ∧
      List.Forall₂ (SlotHolds shift chunk firstStripe target) (List.range' i left)
        (setupSlots chunk stripen vol posN i ((firstStripe + i) % chunk.nstripes) left).1.slots := by
  obtain ⟨targetLt, unique⟩ := numbered
  induction left generalizing vol posN i with
  | zero => exact ⟨sound, (if_neg (by omega)).symm, List.Forall₂.nil⟩
  | succ left ih =>
    have pos : 0 < chunk.nstripes := by omega
    rw [setupSlots, next_stripe_eq pos]
    split
    · rename_i here
      have target_eq : i = target := (unique i (by omega)).mp here
      obtain ⟨later, posN', slots⟩ := @ih vol sound i (i + 1) (by omega)
      refine ⟨later, ?_, List.Forall₂.cons ⟨fun _ => rfl, fun ne => absurd target_eq ne⟩ slots⟩
      rw [if_pos (by omega)]
      refine posN'.trans ?_
      rw [if_neg (by omega), target_eq]
    · rename_i other
      have apart : i ≠ target := fun same => other ((unique i (by omega)).mpr same)
      have inside : (firstStripe + i) % chunk.nstripes < chunk.stripes.length := by
        rw [loaded]
        exact Nat.mod_lt _ pos
      have some := List.getElem?_eq_getElem inside
      generalize chunk.stripes[(firstStripe + i) % chunk.nstripes] = stripe at some
      rw [some]
      dsimp only
      obtain ⟨later, posN', slots⟩ := @ih _ (sound_findDevice sound stripe.deviceId) posN (i + 1) (by omega)
      refine ⟨later, ?_, List.Forall₂.cons ⟨fun same => absurd same apart, fun _ => ⟨stripe, some, rfl, ?_⟩⟩ slots⟩
      · refine posN'.trans ?_
        split <;> split <;> first | rfl | omega
      · exact fun dev found => findDevice_eq found

theorem slot_of {R : Nat → StripeSlot → Prop} {n : Nat} {slots : List StripeSlot}
    (all : List.Forall₂ R (List.range' 0 n) slots) {k : Nat} (lt : k < n) :
    ∃ slot, slots[k]? = some slot ∧ R k slot := by
  obtain ⟨length, each⟩ := List.forall₂_iff_get.mp all
  have lt' : k < (List.range' 0 n).length := by rwa [List.length_range']
  have lt'' : k < slots.length := length ▸ lt'
  refine ⟨slots[k], List.getElem?_eq_getElem lt'', ?_⟩
  have here := each k lt' lt''
  rwa [List.get_eq_getElem, List.getElem_range', Nat.zero_add, Nat.one_mul] at here

/-! ### Sectors -/

/-- The blocks of a row of sectors. -/
def chunkRow (disks : Disks shift) (chunk : Chunk) (firstStripe sector k : Nat) : Sector (2 ^ shift) :=
  chunk.stripes[(firstStripe + k) % chunk.nstripes]?.elim (fun _ => 0) fun stripe =>
    disks stripe.deviceId (stripe.offset / 2 ^ shift + sector)

theorem slotGet_reads {chunk : Chunk} {firstStripe target sector : Nat} {vol : BtrfsVolume shift}
    (delivers : Delivers disks vol.devices) {slots : List StripeSlot}
    (all : List.Forall₂ (SlotHolds shift chunk firstStripe target) (List.range' 0 chunk.nstripes) slots)
    (ends : ∀ stripe ∈ chunk.stripes, stripe.offset / 2 ^ shift + sector < 2 ^ 64) :
    ReadsRow (slotGet vol slots sector) (chunkRow disks chunk firstStripe sector) chunk.nstripes target := by
  intro k lt other block read
  obtain ⟨⟨dev, off⟩, here, _, holds⟩ := slot_of all lt
  obtain ⟨stripe, found, off_eq, device⟩ := holds other
  dsimp only at off_eq device
  rw [slotGet, here] at read
  cases dev with
  | none => cases read
  | some dev =>
    rw [chunkRow, found, Option.elim_some]
    dsimp only at read
    rw [off_eq, u64_of_lt (ends stripe (List.mem_of_getElem? found)), device dev rfl] at read
    exact delivers _ _ block read

/-- What is so of the loop over the sectors of a unit: the stripe, its number in the row, and that a block that is
recovered from the row is the one that is to be read. -/
structure ParityRun.Fits (run : ParityRun) (disks : Disks shift) (stripe : ChunkStripe) (target : Nat)
    (sectors : Set Nat) : Prop where
  loaded : run.chunk.stripes.length = run.chunk.nstripes
  here : run.chunk.stripes[run.stripen]? = some stripe
  first : run.firstStripe < run.chunk.nstripes
  numbered : Numbered run.chunk run.firstStripe run.stripen target
  dev : ∀ dev, run.dev = some dev → dev = stripe.deviceId
  ends : ∀ sector ∈ sectors, ∀ stripe ∈ run.chunk.stripes, stripe.offset / 2 ^ shift + sector < 2 ^ 64
  recovers : ∀ sector ∈ sectors, ∀ get,
    ReadsRow get (chunkRow disks run.chunk run.firstStripe sector) run.chunk.nstripes target →
    ∀ block, recoverBlock get run.chunk.nstripes target run.dstripes run.isRaid5 = .ok block →
      block = chunkRow disks run.chunk run.firstStripe sector target

/-- The invariant of the loop: the volume is sound, and the table, once it is set up, is that of the row. -/
structure ParityState.Fits (st : ParityState shift) (disks : Disks shift) (P : Devices shift → Prop)
    (run : ParityRun) (target : Nat) : Prop where
  vol : st.vol.Sound disks P
  posN : ∀ table, st.stripeData = some table → table.posN = target
  slots : ∀ table, st.stripeData = some table →
    List.Forall₂ (SlotHolds shift run.chunk run.firstStripe target) (List.range' 0 run.chunk.nstripes) table.slots

section
variable {run : ParityRun} {stripe : ChunkStripe} {target sector : Nat} {sectors : Set Nat}
  (fits : run.Fits disks stripe target sectors)
include fits

theorem chunkRow_target : chunkRow disks run.chunk run.firstStripe sector target =
    disks stripe.deviceId (stripe.offset / 2 ^ shift + sector) := by
  obtain ⟨lt, unique⟩ := fits.numbered
  rw [chunkRow, (unique target lt).mpr rfl, fits.here, Option.elim_some]

theorem table_ok {st : ParityState shift} (inv : st.Fits disks P run target) {vol : BtrfsVolume shift}
    (sound : vol.Sound disks P) :
    ParityState.Fits { vol := (st.table run vol).2, stripeData := some (st.table run vol).1 } disks P run
      target := by
  rw [ParityState.table]
  cases data : st.stripeData with
  | some table =>
    refine ⟨sound, fun table' here => ?_, fun table' here => ?_⟩ <;> obtain rfl := Option.some.inj here
    · exact inv.posN table data
    · exact inv.slots table data
  | none =>
    obtain ⟨kept, posN, slots⟩ := @setupSlots_ok _ _ _ _ run.firstStripe run.stripen target fits.loaded
      fits.numbered vol sound run.stripen 0 run.chunk.nstripes (Nat.zero_add _)
    rw [Nat.add_zero, Nat.mod_eq_of_lt fits.first] at kept posN slots
    refine ⟨kept, fun table here => ?_, fun table here => ?_⟩ <;> obtain rfl := Option.some.inj here
    · rw [posN, if_pos (Nat.zero_le target)]
    · exact slots

/-- A sector that is recovered is the one of the device, and so is what is kept of it. -/
theorem recoverSector_ok (mem : sector ∈ sectors) {st : ParityState shift} (inv : st.Fits disks P run target)
    {rc : RecoverCache shift} (invalid : rc.valid = false) (deviceId : rc.deviceId = stripe.deviceId)
    (offset : rc.offset = stripe.offset / 2 ^ shift + sector) :
    (recoverSector run st rc sector).2.Fits disks P run target ∧
      ∀ block, (recoverSector run st rc sector).1 = .ok block →
        block = disks stripe.deviceId (stripe.offset / 2 ^ shift + sector) := by
  rw [recoverSector]
  have kept : (st.vol.setCache rc).Sound disks P :=
    sound_setCache inv.vol fun valid => absurd valid (by rw [invalid]; exact Bool.false_ne_true)
  have table := table_ok fits inv kept
  generalize st.table run (st.vol.setCache rc) = setup at table ⊢
  split
  · exact ⟨⟨table.vol, fun _ none => absurd none (Option.some_ne_none _).symm,
      fun _ none => absurd none (Option.some_ne_none _).symm⟩, fun _ error => absurd error (by rintro ⟨⟩)⟩
  · have posN : setup.1.posN = target := table.posN setup.1 rfl
    have slots := table.slots setup.1 rfl
    have reads := slotGet_reads table.vol.devices.now.1 slots (fits.ends sector mem)
    rw [posN]
    cases recovered : recoverBlock (slotGet setup.2 setup.1.slots sector) run.chunk.nstripes target run.dstripes
        run.isRaid5 with
    | error stop => exact ⟨table, fun _ error => absurd error (by rintro ⟨⟩)⟩
    | ok block =>
      have right := fits.recovers sector mem _ reads block recovered
      rw [chunkRow_target fits] at right
      refine ⟨⟨sound_setCache table.vol fun _ => ?_, table.posN, table.slots⟩, fun block' same => ?_⟩
      · dsimp only
        rw [right, deviceId, offset]
      · rw [← Except.ok.inj same, right]

/-- Where a sector of the stripe comes from makes no difference. -/
theorem paritySector_ok (mem : sector ∈ sectors) {st : ParityState shift} (inv : st.Fits disks P run target) :
    (paritySector run st stripe sector).2.Fits disks P run target ∧
      ∀ block, (paritySector run st stripe sector).1 = .ok block →
        block = disks stripe.deviceId (stripe.offset / 2 ^ shift + sector) := by
  have key := @getRecoverCache_key _ st.vol stripe.deviceId (stripe.offset / 2 ^ shift + sector)
  have word := u64_of_lt (fits.ends sector mem stripe (List.mem_of_getElem? fits.here))
  rw [paritySector]
  dsimp only
  rw [word]
  split
  · rename_i block read
    refine ⟨inv, fun block' same => ?_⟩
    obtain ⟨dev, here, delivered⟩ := Option.map_eq_some_iff.mp read
    rw [fits.dev dev here] at delivered
    rw [← Except.ok.inj same]
    exact inv.vol.devices.now.1 _ _ block delivered
  · split
    · rename_i valid
      have holds := getRecoverCache_holds inv.vol stripe.deviceId (stripe.offset / 2 ^ shift + sector) valid
      refine ⟨⟨sound_setCache inv.vol fun _ => ?_, inv.posN, inv.slots⟩, fun block same => ?_⟩
      · rw [holds, key.1, key.2]
      · rw [← Except.ok.inj same, holds]
    · rename_i invalid
      exact recoverSector_ok fits mem inv (Bool.eq_false_iff.mpr invalid) key.1 key.2

end

/-- The sectors behind the first one. -/
theorem sectors_behind {sectors : Set Nat} {sector n : Nat} {off : Fin (2 ^ shift)}
    (inside : ∀ i, i * 2 ^ shift < off + n → sector + i ∈ sectors) (i : Nat)
    (lt : i * 2 ^ shift < 0 + (n - usedBytes shift off n)) : sector + 1 + i ∈ sectors := by
  rw [Nat.add_right_comm, Nat.add_assoc]
  refine inside (i + 1) ?_
  rw [Nat.add_mul, Nat.one_mul]
  rw [usedBytes] at lt
  have := off.isLt
  split at lt <;> omega

theorem parityLoop_ok {run : ParityRun} {stripe : ChunkStripe} {target : Nat} {sectors : Set Nat}
    (fits : run.Fits disks stripe target sectors) {st : ParityState shift} (inv : st.Fits disks P run target)
    {sector n : Nat} {off : Fin (2 ^ shift)}
    (inside : ∀ i, i * 2 ^ shift < off + n → sector + i ∈ sectors) :
    (parityLoop run stripe st sector off n).2.Sound disks P ∧
      ∀ bytes, (parityLoop run stripe st sector off n).1 = .ok bytes →
        bytes = bytesOf disks stripe.deviceId ((stripe.offset / 2 ^ shift + sector) * 2 ^ shift + off) n := by
  induction n using Nat.strong_induction_on generalizing st sector off with
  | _ n ih =>
    rw [parityLoop]
    split
    · rename_i zero
      refine ⟨inv.vol, fun bytes same => ?_⟩
      rw [← Except.ok.inj same, zero]
      rfl
    · rename_i more
      have here := inside 0 (by omega)
      rw [Nat.add_zero] at here
      obtain ⟨inv', block_eq⟩ := paritySector_ok fits here inv
      dsimp only
      cases found : (paritySector run st stripe sector).1 with
      | error stop => exact ⟨inv'.vol, fun _ error => absurd error (by rintro ⟨⟩)⟩
      | ok block =>
        have fewer := Nat.sub_lt (Nat.pos_of_ne_zero more) (@usedBytes_pos shift off n more)
        obtain ⟨later, bytes_eq⟩ :=
          @ih _ fewer _ inv' (sector + 1) ⟨0, Nat.two_pow_pos shift⟩ (sectors_behind inside)
        refine ⟨later, fun bytes same => ?_⟩
        dsimp only at same
        cases rest : (parityLoop run stripe (paritySector run st stripe sector).2 (sector + 1)
            ⟨0, Nat.two_pow_pos shift⟩ (n - usedBytes shift off n)).1 with
        | error stop =>
          rw [rest] at same
          cases same
        | ok rest' =>
          rw [rest] at same
          rw [← Except.ok.inj same, bytes_eq rest' rest, block_eq block found]
          exact slice_append (stripe.offset / 2 ^ shift + sector) off n

end Meridian.Btrfs
