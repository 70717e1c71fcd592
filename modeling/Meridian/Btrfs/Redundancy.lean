import Mathlib.Data.Finset.Card
import Meridian.Btrfs.LogicalReads

/-!
# Reading with devices missing

Copies make up for devices that are missing, as long as one behind them is there. With one parity, a stripe is made
up for that is not the last one; with two parities, any two stripes are.
-/

namespace Meridian.Btrfs

open Fsw (FswStatus)
open Lib.Word (u64 u64_of_lt sub64_of_le)
open Finset (range)

variable {shift : Nat} {disks : Disks shift} {fine gone : Nat → Prop}

/-- Devices that are fine are attached and deliver all of their sectors, and those that are gone are not attached.
Of others nothing is known. -/
structure Serves (fine gone : Nat → Prop) (devices : Devices shift) : Prop where
  fine : ∀ id, fine id → devices.attached id ∧ ∀ sector, ∃ block, devices.blockGet id sector = .ok block
  gone : ∀ id, gone id → ¬ devices.attached id

/-! ### Copies -/

/-- Behind copies on devices that are gone there is one on a device that is fine. -/
def Chunk.Reaches (chunk : Chunk) (fine gone : Nat → Prop) (first copies : Nat) : Prop :=
  ∃ c < copies, (∃ stripe, chunk.stripes[first + c]? = some stripe ∧ fine stripe.deviceId) ∧
    ∀ c' < c, ∃ stripe, chunk.stripes[first + c']? = some stripe ∧ gone stripe.deviceId

theorem readSectors_succeeds {get : Nat → Except FswStatus (Sector (2 ^ shift))}
    (reads : ∀ sector, ∃ block, get sector = .ok block) (sector : Nat) (off : Fin (2 ^ shift)) (n : Nat) :
    ∃ bytes, readSectors get sector off n = .ok bytes := by
  induction n using Nat.strong_induction_on generalizing sector off with
  | _ n ih =>
    rw [readSectors]
    split
    · exact ⟨[], rfl⟩
    · rename_i more
      obtain ⟨block, here⟩ := reads sector
      obtain ⟨rest, later⟩ := ih _ (Nat.sub_lt (Nat.pos_of_ne_zero more) (@usedBytes_pos shift off n more))
        (sector + 1) ⟨0, Nat.two_pow_pos shift⟩
      rw [here]
      dsimp only
      rw [later]
      exact ⟨_, rfl⟩

theorem copyLoop_succeeds {devices : Devices shift} (serves : Serves fine gone devices) {chunk : Chunk}
    {stripeOffset csize stripen left : Nat} (reaches : chunk.Reaches fine gone stripen left) :
    ∃ bytes, copyLoop devices chunk stripeOffset csize stripen left = .read bytes := by
  induction left generalizing stripen with
  | zero =>
    obtain ⟨c, lt, _⟩ := reaches
    exact absurd lt (Nat.not_lt_zero c)
  | succ left ih =>
    obtain ⟨c, lt, ⟨stripe, here, there⟩, before⟩ := reaches
    rw [copyLoop]
    cases c with
    | zero =>
      obtain ⟨attached, reads⟩ := serves.fine _ there
      rw [Nat.add_zero] at here
      rw [here]
      dsimp only
      obtain ⟨bytes, same⟩ := readSectors_succeeds reads (u64 (stripe.offset + stripeOffset) / 2 ^ shift)
        ⟨u64 (stripe.offset + stripeOffset) % 2 ^ shift, Nat.mod_lt _ (Nat.two_pow_pos shift)⟩ csize
      rw [if_pos attached, same]
      exact ⟨bytes, rfl⟩
    | succ c =>
      obtain ⟨missing, first, away⟩ := before 0 (Nat.succ_pos c)
      rw [Nat.add_zero] at first
      rw [first]
      dsimp only
      rw [if_neg (serves.gone _ away)]
      refine ih ⟨c, Nat.lt_of_succ_lt_succ lt, ⟨stripe, ?_, there⟩, fun c' lt' => ?_⟩
      · rwa [Nat.add_right_comm]
      · obtain ⟨other, found, off⟩ := before (c' + 1) (Nat.succ_lt_succ lt')
        exact ⟨other, by rwa [Nat.add_right_comm], off⟩

theorem directRead_succeeds {vol : BtrfsVolume shift} (sound : vol.Sound disks (Serves fine gone)) {chunk : Chunk}
    {m : Mapped} {csize : Nat} (reaches : chunk.Reaches fine gone m.stripen m.redundancy) :
    ∃ bytes, (directRead vol chunk m csize).1 = .ok bytes := by
  obtain ⟨bytes, same⟩ := @copyLoop_succeeds _ _ _ _ sound.devices.now.2 chunk m.stripeOffset csize _ _ reaches
  rw [directRead, same]
  exact ⟨bytes, rfl⟩

/-! ### The table of a row -/

/-- Devices that are fine stand in the table, but for the stripe to read and those that are lost. -/
def SlotServes (fine : Nat → Prop) (target : Nat) (lost : Finset Nat) (k : Nat) (slot : StripeSlot) : Prop :=
  k ≠ target → k ∉ lost → ∃ dev, slot.dev = some dev ∧ fine dev

/-- The stripes of a row but for one and those that are lost are on devices that are fine. -/
def RowServes (chunk : Chunk) (fine : Nat → Prop) (firstStripe target : Nat) (lost : Finset Nat) : Prop :=
  ∀ k < chunk.nstripes, k ≠ target → k ∉ lost → ∀ stripe,
    chunk.stripes[(firstStripe + k) % chunk.nstripes]? = some stripe → fine stripe.deviceId

theorem findDevice_fine {vol : BtrfsVolume shift} (sound : vol.Sound disks (Serves fine gone)) {id : Nat}
    (there : fine id) : (vol.findDevice id).1 = some id := by
  rw [BtrfsVolume.findDevice, if_pos (sound.devices.now.2.fine id there).1]

theorem setupSlots_serves {chunk : Chunk} {firstStripe stripen target : Nat} {lost : Finset Nat}
    (loaded : chunk.stripes.length = chunk.nstripes) (numbered : Numbered chunk firstStripe stripen target)
    (row : RowServes chunk fine firstStripe target lost) {vol : BtrfsVolume shift}
    (sound : vol.Sound disks (Serves fine gone)) {posN i left : Nat} (count : i + left = chunk.nstripes) :
    List.Forall₂ (SlotServes fine target lost) (List.range' i left)
      (setupSlots chunk stripen vol posN i ((firstStripe + i) % chunk.nstripes) left).1.slots := by
  induction left generalizing vol posN i with
  | zero => exact List.Forall₂.nil
  | succ left ih =>
    have pos : 0 < chunk.nstripes := by omega
    rw [setupSlots, next_stripe_eq pos]
    split
    · rename_i here
      have same : i = target := (numbered.2 i (by omega)).mp here
      exact List.Forall₂.cons (fun other => absurd same other) (ih sound (by omega))
    · have inside : (firstStripe + i) % chunk.nstripes < chunk.stripes.length := by
        rw [loaded]
        exact Nat.mod_lt _ pos
      have found := List.getElem?_eq_getElem inside
      generalize chunk.stripes[(firstStripe + i) % chunk.nstripes] = stripe at found
      rw [found]
      dsimp only
      refine List.Forall₂.cons (fun other kept => ⟨stripe.deviceId, ?_, row i (by omega) other kept stripe found⟩)
        (ih (sound_findDevice sound stripe.deviceId) (by omega))
      exact findDevice_fine sound (row i (by omega) other kept stripe found)

theorem countP_le_of_forall₂ {α β : Type} {R : α → β → Prop} {p : α → Bool} {q : β → Bool} {l : List α}
    {m : List β} (all : List.Forall₂ R l m) (imp : ∀ a b, R a b → p a → q b) : l.countP p ≤ m.countP q := by
  induction all with
  | nil => exact Nat.le_refl 0
  | @cons a b l m here later ih =>
    rw [List.countP_cons, List.countP_cons]
    refine Nat.add_le_add ih ?_
    by_cases holds : p a
    · rw [if_pos holds, if_pos (imp a b here holds)]
    · rw [if_neg holds]
      exact Nat.zero_le _

/-- Devices that are fine are there for all stripes but the one to read and those that are lost. -/
theorem slots_count {target n : Nat} {lost : Finset Nat} {slots : List StripeSlot}
    (all : List.Forall₂ (SlotServes fine target lost) (List.range' 0 n) slots) :
    n ≤ (slots.filter fun slot => slot.dev.isSome).length + lost.card + 1 := by
  have count := countP_le_of_forall₂ (p := fun k => k ≠ target ∧ k ∉ lost) (q := fun slot => slot.dev.isSome) all
    fun k slot serves apart => by
      obtain ⟨dev, here, _⟩ := serves (of_decide_eq_true apart).1 (of_decide_eq_true apart).2
      rw [here]
      rfl
  have others : n ≤ (List.range' 0 n).countP (fun k => k ≠ target ∧ k ∉ lost) + (insert target lost).card := by
    have whole : (range n).card ≤ ((range n).filter fun k => k ≠ target ∧ k ∉ lost).card +
        (insert target lost).card := by
      refine le_trans (Finset.card_le_card fun k mem => ?_) (Finset.card_union_le _ _)
      by_cases apart : k ≠ target ∧ k ∉ lost
      · exact Finset.mem_union_left _ (Finset.mem_filter.mpr ⟨mem, apart⟩)
      · refine Finset.mem_union_right _ (Finset.mem_insert.mpr ?_)
        by_cases same : k = target
        · exact Or.inl same
        · exact Or.inr (by_contra fun out => apart ⟨same, out⟩)
    rw [Finset.card_range] at whole
    refine le_trans whole (Nat.add_le_add_right (le_of_eq ?_) _)
    rw [List.countP_eq_length_filter, ← List.range_eq_range']
    rfl
  have insert_le := Finset.card_insert_le target lost
  rw [← List.countP_eq_length_filter]
  omega

/-! ### Sectors -/

/-- The other stripes of a row make up for a sector of the stripe to read. -/
structure ParityRun.Makes (run : ParityRun) (disks : Disks shift) (fine : Nat → Prop) (target sector : Nat)
    (lost : Finset Nat) : Prop where
  serves : RowServes run.chunk fine run.firstStripe target lost
  enough : run.dstripes + lost.card < run.chunk.nstripes
  recovers : ∀ get, ReadsRow get (chunkRow disks run.chunk run.firstStripe sector) run.chunk.nstripes target →
    (∀ k < run.chunk.nstripes, k ∉ lost → ¬ Lost get target k) →
    ∃ block, recoverBlock get run.chunk.nstripes target run.dstripes run.isRaid5 = .ok block

/-- All sectors come from the device of the stripe, or are made up for. -/
def ParityRun.Covered (run : ParityRun) (disks : Disks shift) (fine : Nat → Prop) (stripe : ChunkStripe)
    (target : Nat) (lost : Finset Nat) (sectors : Set Nat) : Prop :=
  ∀ sector ∈ sectors,
    (run.dev = some stripe.deviceId ∧ fine stripe.deviceId) ∨ run.Makes disks fine target sector lost

/-- The table that is set up has the devices that are fine. -/
def ParityState.Serves (st : ParityState shift) (run : ParityRun) (fine : Nat → Prop) (target : Nat)
    (lost : Finset Nat) : Prop :=
  ∀ table, st.stripeData = some table →
    List.Forall₂ (SlotServes fine target lost) (List.range' 0 run.chunk.nstripes) table.slots

section
variable {run : ParityRun} {stripe : ChunkStripe} {target sector : Nat} {sectors : Set Nat} {lost : Finset Nat}
  (fits : run.Fits disks stripe target sectors)
include fits

theorem table_serves (serves : RowServes run.chunk fine run.firstStripe target lost) {st : ParityState shift}
    (has : st.Serves run fine target lost) {vol : BtrfsVolume shift}
    (sound : vol.Sound disks (Btrfs.Serves fine gone)) :
    List.Forall₂ (SlotServes fine target lost) (List.range' 0 run.chunk.nstripes) (st.table run vol).1.slots := by
  rw [ParityState.table]
  cases data : st.stripeData with
  | some table => exact has table data
  | none =>
    have slots := @setupSlots_serves _ _ _ _ _ run.firstStripe run.stripen target lost fits.loaded fits.numbered
      serves vol sound run.stripen 0 run.chunk.nstripes (Nat.zero_add _)
    rwa [Nat.add_zero, Nat.mod_eq_of_lt fits.first] at slots

omit fits in
/-- A stripe that stands in the table with a device that is fine is read. -/
theorem slotGet_serves {vol : BtrfsVolume shift} (sound : vol.Sound disks (Btrfs.Serves fine gone))
    {slots : List StripeSlot}
    (all : List.Forall₂ (SlotServes fine target lost) (List.range' 0 run.chunk.nstripes) slots) {k : Nat}
    (lt : k < run.chunk.nstripes) (kept : k ∉ lost) : ¬ Lost (slotGet vol slots sector) target k := by
  rintro ⟨other, status, failed⟩
  obtain ⟨⟨dev, off⟩, here, holds⟩ := slot_of all lt
  obtain ⟨id, rfl, there⟩ := holds other kept
  obtain ⟨block, read⟩ := (sound.devices.now.2.fine id there).2 (u64 (off + sector))
  rw [slotGet, here] at failed
  exact absurd (read.symm.trans failed) (by rintro ⟨⟩)

theorem recoverSector_succeeds (mem : sector ∈ sectors) (makes : run.Makes disks fine target sector lost)
    {st : ParityState shift} (inv : st.Fits disks (Btrfs.Serves fine gone) run target)
    (has : st.Serves run fine target lost) {rc : RecoverCache shift} (invalid : rc.valid = false) :
    (∃ block, (recoverSector run st rc sector).1 = .ok block) ∧
      (recoverSector run st rc sector).2.Serves run fine target lost := by
  have kept : (st.vol.setCache rc).Sound disks (Btrfs.Serves fine gone) :=
    sound_setCache inv.vol fun valid => absurd valid (by rw [invalid]; exact Bool.false_ne_true)
  have table := table_ok fits inv kept
  have serves := table_serves fits makes.serves has kept
  have count := slots_count serves
  have enough := makes.enough
  rw [recoverSector]
  generalize st.table run (st.vol.setCache rc) = setup at table serves count ⊢
  have posN : setup.1.posN = target := table.posN setup.1 rfl
  have reads := slotGet_reads table.vol.devices.now.1 (table.slots setup.1 rfl) (fits.ends sector mem)
  obtain ⟨block, recovered⟩ := makes.recovers _ reads fun k lt => slotGet_serves table.vol serves lt
  rw [if_neg (by rintro ⟨_, few⟩; omega), posN, recovered]
  refine ⟨⟨block, rfl⟩, ?_⟩
  rintro _ ⟨⟩
  exact serves

theorem paritySector_succeeds (mem : sector ∈ sectors)
    (covered : run.Covered disks fine stripe target lost sectors) {st : ParityState shift}
    (inv : st.Fits disks (Btrfs.Serves fine gone) run target) (has : st.Serves run fine target lost) :
    (∃ block, (paritySector run st stripe sector).1 = .ok block) ∧
      (paritySector run st stripe sector).2.Serves run fine target lost := by
  rw [paritySector]
  dsimp only
  split
  · exact ⟨⟨_, rfl⟩, has⟩
  · rename_i unread
    split
    · exact ⟨⟨_, rfl⟩, has⟩
    · rename_i invalid
      rcases covered sector mem with ⟨dev, there⟩ | makes
      · obtain ⟨block, read⟩ :=
          (inv.vol.devices.now.2.fine _ there).2 (u64 (stripe.offset / 2 ^ shift + sector))
        rw [dev, Option.map_some, read] at unread
        exact absurd rfl (unread block)
      · exact recoverSector_succeeds fits mem makes inv has (Bool.eq_false_iff.mpr invalid)

theorem parityLoop_succeeds (covered : run.Covered disks fine stripe target lost sectors) {st : ParityState shift}
    (inv : st.Fits disks (Btrfs.Serves fine gone) run target) (has : st.Serves run fine target lost) {n : Nat}
    {off : Fin (2 ^ shift)}
    (inside : ∀ i, i * 2 ^ shift < off + n → sector + i ∈ sectors) :
    ∃ bytes, (parityLoop run stripe st sector off n).1 = .ok bytes := by
  induction n using Nat.strong_induction_on generalizing st sector off with
  | _ n ih =>
    rw [parityLoop]
    split
    · exact ⟨[], rfl⟩
    · rename_i more
      have here := inside 0 (by omega)
      rw [Nat.add_zero] at here
      obtain ⟨⟨block, found⟩, has'⟩ := paritySector_succeeds fits here covered inv has
      have fewer := Nat.sub_lt (Nat.pos_of_ne_zero more) (@usedBytes_pos shift off n more)
      obtain ⟨rest, later⟩ := @ih _ fewer (sector + 1) _ (paritySector_ok fits here inv).1 has'
        ⟨0, Nat.two_pow_pos shift⟩ (sectors_behind inside)
      dsimp only
      rw [found]
      dsimp only
      rw [later]
      exact ⟨_, rfl⟩

end

/-! ### Chunks -/

/-- The devices that are there make up for what is missing of a chunk: each unit has a copy that is reached, or no
more stripes are lost than there are parities, and with one parity not the last one. -/
def Profile.Tolerates (shift : Nat) (chunk : Chunk) (fine gone : Nat → Prop) : Profile → Prop
  | .parity nparities => (∀ stripe ∈ chunk.stripes, stripe.offset % 2 ^ shift = 0) ∧ ∃ lost : Finset Nat,
      lost.card ≤ nparities ∧ (nparities = 1 → chunk.nstripes - 1 ∉ lost) ∧
        ∀ i stripe, chunk.stripes[i]? = some stripe → i ∉ lost → fine stripe.deviceId
  | p => ∀ off < chunk.size, chunk.Reaches fine gone ((p.layout chunk).first off) (p.layout chunk).copies

/-- The numbers in a row of the stripes that are lost, but for the one to read. -/
def rowLost (chunk : Chunk) (lost : Finset Nat) (firstStripe target : Nat) : Finset Nat :=
  (range chunk.nstripes).filter fun k => k ≠ target ∧ (firstStripe + k) % chunk.nstripes ∈ lost

theorem rowLost_serves {chunk : Chunk} {lost : Finset Nat}
    (others : ∀ i stripe, chunk.stripes[i]? = some stripe → i ∉ lost → fine stripe.deviceId)
    (firstStripe target : Nat) : RowServes chunk fine firstStripe target (rowLost chunk lost firstStripe target) :=
  fun _ lt apart kept stripe here =>
    others _ stripe here fun mem => kept (Finset.mem_filter.mpr ⟨Finset.mem_range.mpr lt, apart, mem⟩)

/-- If the stripe to read is lost, the row has lost one stripe less besides it. -/
theorem card_rowLost {chunk : Chunk} {lost : Finset Nat} {firstStripe target stripen : Nat}
    (numbered : Numbered chunk firstStripe stripen target) (mem : stripen ∈ lost) :
    (rowLost chunk lost firstStripe target).card + 1 ≤ lost.card := by
  rw [← Finset.card_erase_add_one mem]
  refine Nat.add_le_add_right
    (Finset.card_le_card_of_injOn (fun k => (firstStripe + k) % chunk.nstripes) ?_ ?_) 1
  · intro _ here
    obtain ⟨inside, apart, out⟩ := Finset.mem_filter.mp here
    refine Finset.mem_erase.mpr ⟨fun same => apart ?_, out⟩
    exact (numbered.2 _ (Finset.mem_range.mp inside)).mp same
  · intro _ here _ here' same
    have lt := Finset.mem_range.mp (Finset.mem_filter.mp here).1
    have lt' := Finset.mem_range.mp (Finset.mem_filter.mp here').1
    exact Nat.ModEq.eq_of_lt_of_lt (Nat.ModEq.add_left_cancel' firstStripe same) lt lt'

theorem recovers_raid5 {size n target : Nat} {get : Nat → Except FswStatus (Sector size)} {row : Nat → Sector size}
    (reads : ReadsRow get row n target) (inside : target < n) (last : target ≠ n - 1)
    (parity : ∀ j, ∑ k ∈ range n, rowByte row j k = 0) {lost : Finset Nat} (few : lost.card + 1 ≤ 1)
    (others : ∀ k < n, k ∉ lost → ¬ Lost get target k) :
    ∃ block, recoverBlock get n target (n - 1) true = .ok block := by
  obtain rfl := Finset.card_eq_zero.mp (Nat.le_zero.mp (Nat.le_of_succ_le_succ few))
  rcases recoverBlock_raid5 reads inside parity with ⟨_, same⟩ | ⟨some, _⟩
  · rw [if_neg (by omega)] at same
    exact ⟨_, same⟩
  · exact absurd (fun k _ lt => others k (by omega) (Finset.notMem_empty k)) some

theorem recovers_raid6 {size n target : Nat} {get : Nat → Except FswStatus (Sector size)} {row : Nat → Sector size}
    (reads : ReadsRow get row n target) (parities : Raid6Row row n) (inside : target < n - 2) (short : n ≤ 255)
    {lost : Finset Nat} (few : lost.card + 1 ≤ 2) (others : ∀ k < n, k ∉ lost → ¬ Lost get target k) :
    ∃ block, recoverBlock get n target (n - 2) false = .ok block := by
  rcases recoverBlock_raid6 parities inside short reads with ⟨_, same⟩ | ⟨unrecoverable, _⟩
  · exact ⟨_, same⟩
  · refine absurd ?_ unrecoverable
    by_cases none : NoneLost get target 0 (n - 1)
    · exact Or.inl none
    · rw [NoneLost] at none
      push Not at none
      obtain ⟨b, _, lt, missing⟩ := none
      have mem : b ∈ lost := by_contra fun out => others b (by omega) out missing
      refine Or.inr ⟨b, by omega, missing, fun k inside apart => others k inside fun mem' => apart ?_⟩
      exact Finset.card_le_one.mp (Nat.le_of_succ_le_succ few) k mem' b mem

section
variable {chunk : Chunk} {content : Nat → UInt8} {off : Nat} {stripe : ChunkStripe}

/-- The other stripes of a row make up for one that is lost. -/
theorem raid5_covered (holds : chunk.Holds disks content (.parity 1)) (lt : off < chunk.size) {lost : Finset Nat}
    (few : lost.card ≤ 1) (last : chunk.nstripes - 1 ∉ lost)
    (others : ∀ i stripe, chunk.stripes[i]? = some stripe → i ∉ lost → fine stripe.deviceId)
    {dev : Option Nat} (there : ((Profile.parity 1).layout chunk).first off ∉ lost →
      dev = some stripe.deviceId ∧ fine stripe.deviceId) :
    (parityRun chunk ((Profile.parity 1).mapped chunk off) dev).Covered disks fine stripe
      (((Profile.parity 1).layout chunk).first off)
      (rowLost chunk lost 0 (((Profile.parity 1).layout chunk).first off))
      (rowSectors shift chunk.stripeLength
        (((Profile.parity 1).layout chunk).row (off / chunk.stripeLength))) := by
  intro sector here
  by_cases mem : ((Profile.parity 1).layout chunk).first off ∉ lost
  · exact Or.inl (there mem)
  rw [not_not] at mem
  obtain ⟨_, _, more⟩ := holds.wellFormed.allowed
  have first := holds.wellFormed.first_le lt
  have fewer := le_trans (card_rowLost (numbered_plain first) mem) few
  have parity := holds.rows.2 off lt sector here.1 here.2
  rw [if_pos rfl] at parity
  rw [raid5_run]
  refine Or.inr ⟨rowLost_serves others _ _, ?_, fun get reads => recovers_raid5 reads first ?_ parity fewer⟩
  · rw [ParityRun.dstripes, if_pos rfl]
    dsimp only
    omega
  · intro same
    exact last (same ▸ mem)

/-- The other stripes of a row and its parities make up for two that are lost. -/
theorem raid6_covered (holds : chunk.Holds disks content (.parity 2)) (lt : off < chunk.size) {lost : Finset Nat}
    (few : lost.card ≤ 2)
    (others : ∀ i stripe, chunk.stripes[i]? = some stripe → i ∉ lost → fine stripe.deviceId)
    {dev : Option Nat} (there : ((Profile.parity 2).layout chunk).first off ∉ lost →
      dev = some stripe.deviceId ∧ fine stripe.deviceId) :
    (parityRun chunk ((Profile.parity 2).mapped chunk off) dev).Covered disks fine stripe
      (off / chunk.stripeLength % (chunk.nstripes - 2))
      (rowLost chunk lost (((Profile.parity 2).layout chunk).row (off / chunk.stripeLength) % chunk.nstripes)
        (off / chunk.stripeLength % (chunk.nstripes - 2)))
      (rowSectors shift chunk.stripeLength
        (((Profile.parity 2).layout chunk).row (off / chunk.stripeLength))) := by
  intro sector here
  by_cases mem : ((Profile.parity 2).layout chunk).first off ∉ lost
  · exact Or.inl (there mem)
  rw [not_not] at mem
  obtain ⟨_, short, more⟩ := holds.wellFormed.allowed
  have data : off / chunk.stripeLength % (chunk.nstripes - 2) < chunk.nstripes - 2 := Nat.mod_lt _ (by omega)
  have numbered := @numbered_turned chunk (((Profile.parity 2).layout chunk).row (off / chunk.stripeLength)) _
    (lt_of_lt_of_le data (Nat.sub_le _ _))
  have fewer := le_trans (card_rowLost numbered mem) few
  have parities := holds.rows.2 off lt sector here.1 here.2
  rw [if_neg (by decide)] at parities
  rw [raid6_run short more]
  refine Or.inr ⟨rowLost_serves others _ _, ?_, fun get reads => recovers_raid6 reads parities data short fewer⟩
  rw [ParityRun.dstripes, if_neg Bool.false_ne_true]
  dsimp only
  omega

theorem parityRead_succeeds {nparities : Nat} (holds : chunk.Holds disks content (.parity nparities))
    (tolerates : (Profile.parity nparities).Tolerates shift chunk fine gone) (lt : off < chunk.size)
    {vol : BtrfsVolume shift} (sound : vol.Sound disks (Serves fine gone)) {csize : Nat}
    (le : csize ≤ ((Profile.parity nparities).layout chunk).left off) :
    ∃ bytes, (parityRead vol chunk ((Profile.parity nparities).mapped chunk off) csize).1 = .ok bytes := by
  obtain ⟨aligned, lost, card, last, others⟩ := tolerates
  have whole : ¬ (chunk.stripes.any fun stripe => stripe.offset % 2 ^ shift ≠ 0) := by
    rw [List.any_eq_true]
    rintro ⟨stripe, mem, part⟩
    exact of_decide_eq_true part (aligned stripe mem)
  rw [parityRead, if_neg whole, if_neg (Nat.not_lt.mpr (ge_of_eq holds.wellFormed.loaded))]
  have inside : ((Profile.parity nparities).layout chunk).first off < chunk.stripes.length := by
    rw [holds.wellFormed.loaded]
    exact holds.wellFormed.first_le lt
  have here := List.getElem?_eq_getElem inside
  generalize chunk.stripes[((Profile.parity nparities).layout chunk).first off] = stripe at here
  dsimp only [Profile.mapped]
  rw [here]
  dsimp only
  have found : ∀ id, (vol.findDevice stripe.deviceId).1 = some id → id = stripe.deviceId := fun _ => findDevice_eq
  have sound' := sound_findDevice sound stripe.deviceId
  have there (out : ((Profile.parity nparities).layout chunk).first off ∉ lost) :
      (vol.findDevice stripe.deviceId).1 = some stripe.deviceId ∧ fine stripe.deviceId :=
    ⟨findDevice_fine sound (others _ stripe here out), others _ stripe here out⟩
  have none {α : Type} {p : Prop} (table : α) (same : Option.none = some table) : p :=
    absurd same (Option.some_ne_none _).symm
  rcases profile_parity holds.wellFormed.profile with rfl | rfl
  · exact parityLoop_succeeds (raid5_fits holds lt here found)
      (raid5_covered holds lt card (last rfl) others there) ⟨sound', fun _ => none _, fun _ => none _⟩
      (fun _ => none _) (unit_sectors holds le)
  · exact parityLoop_succeeds (raid6_fits holds lt here found) (raid6_covered holds lt card others there)
      ⟨sound', fun _ => none _, fun _ => none _⟩ (fun _ => none _) (unit_sectors holds le)

theorem partRead_succeeds {p : Profile} (holds : chunk.Holds disks content p)
    (tolerates : p.Tolerates shift chunk fine gone) (lt : off < chunk.size) {vol : BtrfsVolume shift}
    (sound : vol.Sound disks (Serves fine gone)) {csize : Nat} (le : csize ≤ (p.layout chunk).left off) :
    ∃ bytes, (partRead vol chunk (p.mapped chunk off) csize).1 = .ok bytes := by
  have few (copies : (p.layout chunk).copies = p.redundancy) : (p.mapped chunk off).redundancy < raid5Tag := by
    have inside := holds.wellFormed.first_le lt
    have few := holds.wellFormed.few
    exact lt_of_le_of_lt (le_trans (le_of_eq copies.symm) (Nat.le_of_add_left_le inside))
      (lt_trans few (by decide))
  rw [partRead]
  cases p with
  | single =>
    rw [if_pos (few rfl)]
    exact directRead_succeeds sound (tolerates off lt)
  | mirror copies =>
    rw [if_pos (few rfl)]
    exact directRead_succeeds sound (tolerates off lt)
  | striped copies =>
    rw [if_pos (few rfl)]
    exact directRead_succeeds sound (tolerates off lt)
  | parity nparities =>
    have all : ¬ ((Profile.parity nparities).mapped chunk off).redundancy < raid5Tag := Nat.lt_irrefl raid5Tag
    rw [if_neg all]
    exact parityRead_succeeds holds tolerates lt sound le

end

/-! ### Addresses -/

/-- The chunks of some addresses are found, and what is missing of them is made up for. -/
def FindsAll (lookup : BtrfsVolume shift → Nat → BtrfsM Chunk × BtrfsVolume shift) (disks : Disks shift)
    (fine gone : Nat → Prop) (content : Nat → UInt8) (mapped : Nat → Prop) : Prop :=
  ∀ vol, vol.Sound disks (Serves fine gone) → ∀ addr < 2 ^ 64, mapped addr →
    ∃ chunk, (lookup vol addr).1 = .ok chunk ∧ chunk.rawOff ≤ addr ∧ addr - chunk.rawOff < chunk.size ∧
      ∃ p, chunk.Holds disks content p ∧ p.Tolerates shift chunk fine gone

/-- A read of such addresses succeeds. -/
theorem readLogical_succeeds {lookup : BtrfsVolume shift → Nat → BtrfsM Chunk × BtrfsVolume shift}
    {content : Nat → UInt8} {mapped : Nat → Prop}
    (finds : FindsChunks lookup disks (Serves fine gone) content mapped)
    (all : FindsAll lookup disks fine gone content mapped) {vol : BtrfsVolume shift}
    (sound : vol.Sound disks (Serves fine gone)) {addr size : Nat} (word : addr < 2 ^ 64)
    (inside : ∀ i < size, mapped (u64 (addr + i))) :
    ∃ bytes, (readLogical lookup vol addr size).1 = .ok bytes := by
  induction size using Nat.strong_induction_on generalizing vol addr with
  | _ size ih =>
    rw [readLogical]
    split
    · exact ⟨[], rfl⟩
    rename_i more
    have first := mapped_first word more inside
    have sound' := finds.sound vol sound addr word first
    obtain ⟨chunk, found, le, lt, p, holds, tolerates⟩ := all vol sound addr word first
    have some : 0 < (p.mapped chunk (addr - chunk.rawOff)).csize := Layout.left_pos _ holds.wellFormed.unit_pos
    obtain ⟨inUnit, inSize, advance⟩ := partSize_spec (Nat.ne_of_gt some) more
    dsimp only
    rw [found]
    dsimp only
    rw [sub64_of_le le word, mapChunk_eq holds.wellFormed lt]
    dsimp only
    rw [if_neg (Nat.ne_of_gt some)]
    obtain ⟨bytes, part⟩ := partRead_succeeds holds tolerates lt sound' inUnit
    have sound'' := (partRead_ok holds lt sound' inUnit).1
    generalize partSize (p.mapped chunk (addr - chunk.rawOff)).csize size = csize at *
    rw [part]
    dsimp only
    obtain ⟨rest, later⟩ :=
      @ih (size - csize) (by omega) _ sound'' (u64 (addr + csize)) (Lib.Word.u64_lt _) (mapped_behind inside)
    rw [later]
    exact ⟨_, rfl⟩

end Meridian.Btrfs
