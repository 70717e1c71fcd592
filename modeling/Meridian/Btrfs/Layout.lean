import Mathlib.Data.Nat.ModEq
import Meridian.Btrfs.Chunks

/-!
# Where the bytes of a chunk are

Each profile lays a chunk over its stripes in units of one size. The mapping of `fsw_btrfs_read_logical` finds the
unit of an address and its place on the stripe.
-/

namespace Meridian.Btrfs

open Lib.Word (u32 u32_of_lt u64_of_lt sub64_of_le)

/-- Units, and where they are: unit `k` is on `copies` stripes from `stripen k` on, behind `row k` others. -/
structure Layout where
  unit : Nat
  copies : Nat
  stripen : Nat → Nat
  row : Nat → Nat

namespace Layout

variable (l : Layout)

/-- The first stripe with a byte. -/
def first (off : Nat) : Nat := l.stripen (off / l.unit)

/-- Where a byte is on its stripes. -/
def inStripe (off : Nat) : Nat := off % l.unit + l.unit * l.row (off / l.unit)

/-- How many bytes there are from a byte to the end of its unit. -/
def left (off : Nat) : Nat := l.unit - off % l.unit

variable {l}

theorem left_pos (off : Nat) (pos : 0 < l.unit) : 0 < l.left off := Nat.sub_pos_of_lt (Nat.mod_lt off pos)

theorem same_unit {off i : Nat} (lt : i < l.left off) :
    (off + i) / l.unit = off / l.unit ∧ (off + i) % l.unit = off % l.unit + i := by
  have division := Nat.div_add_mod off l.unit
  rw [left] at lt
  have small : off % l.unit + i < l.unit := by omega
  have apart : off + i = off % l.unit + i + l.unit * (off / l.unit) := by omega
  constructor
  · rw [apart, Nat.add_mul_div_left _ _ (by omega), Nat.div_eq_of_lt small, Nat.zero_add]
  · rw [apart, Nat.add_mul_mod_self_left, Nat.mod_eq_of_lt small]

/-- A unit stays on its stripes, byte after byte. -/
theorem first_add {off i : Nat} (lt : i < l.left off) : l.first (off + i) = l.first off := by
  rw [first, (same_unit lt).1, first]

theorem inStripe_add {off i : Nat} (lt : i < l.left off) : l.inStripe (off + i) = l.inStripe off + i := by
  rw [inStripe, (same_unit lt).1, (same_unit lt).2, inStripe]
  omega

/-- A byte and the rest of its unit are inside the rows up to the one of the unit. -/
theorem inStripe_add_left (off : Nat) (pos : 0 < l.unit) :
    l.inStripe off + l.left off = l.unit * (l.row (off / l.unit) + 1) := by
  have small := Nat.mod_lt off pos
  rw [inStripe, left, Nat.mul_add, Nat.mul_one]
  omega

end Layout

/-! ### Profiles -/

inductive Profile where
  | single
  | mirror (copies : Nat)
  | striped (copies : Nat)
  | parity (nparities : Nat)
  deriving DecidableEq, Repr

/-- What the type of a chunk stands for. -/
def Chunk.profile (chunk : Chunk) : Option Profile :=
  if chunk.typeCheck = 0x00 then some .single
  else if chunk.typeCheck = 0x400 then some (.mirror 4)
  else if chunk.typeCheck = 0x200 then some (.mirror 3)
  else if chunk.typeCheck = 0x20 ∨ chunk.typeCheck = 0x10 then some (.mirror 2)
  else if chunk.typeCheck = 0x08 then some (.striped 1)
  else if chunk.typeCheck = 0x40 then some (.striped chunk.nsubstripes)
  else if chunk.typeCheck = 0x80 then some (.parity 1)
  else if chunk.typeCheck = 0x100 then some (.parity 2)
  else none

/-- The first row has its data in the order of the stripes, with the parities behind; each row is turned by one
stripe more. -/
def Profile.layout (chunk : Chunk) : Profile → Layout
  | .single => { unit := chunk.size / chunk.nstripes, copies := 1, stripen := fun k => k, row := fun _ => 0 }
  | .mirror copies => { unit := chunk.size, copies := copies, stripen := fun _ => 0, row := fun _ => 0 }
  | .striped copies => {
      unit := chunk.stripeLength
      copies := copies
      stripen := fun k => k % (chunk.nstripes / copies) * copies
      row := fun k => k / (chunk.nstripes / copies) }
  | .parity nparities => {
      unit := chunk.stripeLength
      copies := 1
      stripen := fun k =>
        (k / (chunk.nstripes - nparities) + k % (chunk.nstripes - nparities)) % chunk.nstripes
      row := fun k => k / (chunk.nstripes - nparities) }

/-- The limits of the code. -/
def Profile.Allowed (chunk : Chunk) : Profile → Prop
  | .single => chunk.size / chunk.nstripes < 2 ^ 32
  | .mirror _ => True
  | .striped copies => chunk.stripeLength ≤ 2 ^ 30 ∧ 0 < copies
  | .parity nparities => chunk.stripeLength ≤ 2 ^ 30 ∧ chunk.nstripes ≤ 255 ∧ nparities < chunk.nstripes

instance (chunk : Chunk) : (p : Profile) → Decidable (p.Allowed chunk)
  | .single => inferInstanceAs (Decidable (_ < _))
  | .mirror _ => inferInstanceAs (Decidable True)
  | .striped _ => inferInstanceAs (Decidable (_ ∧ _))
  | .parity _ => inferInstanceAs (Decidable (_ ∧ _ ∧ _))

/-- A chunk of whole units, all on its stripes. Offsets in a stripe have 32 bits. -/
structure Chunk.WellFormed (chunk : Chunk) (p : Profile) : Prop where
  profile : chunk.profile = some p
  allowed : p.Allowed chunk
  few : chunk.nstripes < 2 ^ 16
  loaded : chunk.stripes.length = chunk.nstripes
  unit_pos : 0 < (p.layout chunk).unit
  whole : (p.layout chunk).unit ∣ chunk.size
  inside : ∀ k < chunk.size / (p.layout chunk).unit,
    (p.layout chunk).stripen k + (p.layout chunk).copies ≤ chunk.nstripes
  short : ∀ k < chunk.size / (p.layout chunk).unit, (p.layout chunk).unit * ((p.layout chunk).row k + 1) ≤ 2 ^ 32
  ends : ∀ stripe ∈ chunk.stripes, stripe.offset + 2 ^ 32 ≤ 2 ^ 64
  size_le : chunk.rawOff + chunk.size ≤ 2 ^ 64

/-- The number the mapping has for the copies, or for the parities. -/
def Profile.redundancy : Profile → Nat
  | .single => 1
  | .mirror copies => copies
  | .striped copies => copies
  | .parity _ => raid5Tag

/-- The stripe of the second parity. -/
def Profile.stripeq (chunk : Chunk) (off : Nat) : Profile → Nat
  | .parity nparities =>
    if nparities = 1 then raid5Tag
    else ((Profile.layout chunk (.parity nparities)).row (off / chunk.stripeLength) + chunk.nstripes - 1) %
      chunk.nstripes
  | _ => 0

/-- What the mapping finds. -/
def Profile.mapped (chunk : Chunk) (off : Nat) (p : Profile) : Mapped where
  stripen := (p.layout chunk).first off
  stripeq := p.stripeq chunk off
  stripeOffset := (p.layout chunk).inStripe off
  csize := (p.layout chunk).left off
  redundancy := p.redundancy

/-! ### The mapping -/

theorem divRem_eq {dividend divisor : Nat} (pos : 0 < divisor) (lt : divisor < 2 ^ 32) :
    divRem dividend divisor = .ok (dividend / divisor, dividend % divisor) := by
  rw [divRem, u32_of_lt lt, if_neg (Nat.ne_of_gt pos)]

namespace Chunk.WellFormed

variable {chunk : Chunk} {p : Profile} (ok : chunk.WellFormed p) {off : Nat} (lt : off < chunk.size)
include ok lt

theorem unit_lt : off / (p.layout chunk).unit < chunk.size / (p.layout chunk).unit :=
  Nat.div_lt_div_of_lt_of_dvd ok.whole lt

theorem left_le : off + (p.layout chunk).left off ≤ chunk.size := by
  obtain ⟨count, size⟩ := ok.whole
  have lt := ok.unit_lt lt
  have pos := ok.unit_pos
  generalize p.layout chunk = l at *
  have division := Nat.div_add_mod off l.unit
  have small := Nat.mod_lt off pos
  have rows : l.unit * (off / l.unit + 1) ≤ l.unit * count := by
    refine Nat.mul_le_mul_left _ ?_
    rwa [size, Nat.mul_div_cancel_left _ pos] at lt
  rw [Nat.mul_add, Nat.mul_one] at rows
  rw [Layout.left, size]
  omega

theorem first_le : (p.layout chunk).first off + (p.layout chunk).copies ≤ chunk.nstripes :=
  ok.inside _ (ok.unit_lt lt)

theorem inStripe_lt : (p.layout chunk).inStripe off + (p.layout chunk).left off ≤ 2 ^ 32 := by
  rw [Layout.inStripe_add_left _ ok.unit_pos]
  exact ok.short _ (ok.unit_lt lt)

end Chunk.WellFormed

/-- The mapping by the profile. -/
def Profile.map (chunk : Chunk) (off : Nat) : Profile → BtrfsM Mapped
  | .single => mapSingle chunk off
  | .mirror copies => mapMirror chunk off copies
  | .striped copies =>
    if copies = 0 then .error .divideByZero else mapStriped chunk off (chunk.nstripes / copies) copies
  | .parity nparities => mapParity chunk off nparities

theorem mapChunk_profile {chunk : Chunk} {p : Profile} (profile : chunk.profile = some p) {off : Nat}
    (lt : off < chunk.size) : mapChunk chunk off = p.map chunk off := by
  rw [mapChunk, if_neg (Nat.not_le.mpr lt)]
  rw [Chunk.profile] at profile
  split_ifs at profile with single four three two raid0 raid10 raid5 raid6 <;> cases profile
  · rw [if_pos single, Profile.map]
  · rw [if_neg single, if_pos four, Profile.map]
  · rw [if_neg single, if_neg four, if_pos three, Profile.map]
  · rw [if_neg single, if_neg four, if_neg three, if_pos two, Profile.map]
  · rw [if_neg single, if_neg four, if_neg three, if_neg two, if_pos raid0, Profile.map, if_neg Nat.one_ne_zero,
      Nat.div_one]
  · rw [if_neg single, if_neg four, if_neg three, if_neg two, if_neg raid0, if_pos raid10, Profile.map]
  · rw [if_neg single, if_neg four, if_neg three, if_neg two, if_neg raid0, if_neg raid10, if_pos raid5,
      Profile.map]
  · rw [if_neg single, if_neg four, if_neg three, if_neg two, if_neg raid0, if_neg raid10, if_neg raid5,
      if_pos raid6, Profile.map]

section
variable {chunk : Chunk} {off : Nat}

theorem mapSingle_eq (ok : chunk.WellFormed .single) (lt : off < chunk.size) :
    mapSingle chunk off = .ok (Profile.single.mapped chunk off) := by
  have pos : 0 < chunk.size / chunk.nstripes := ok.unit_pos
  have few := ok.few
  have short : chunk.size / chunk.nstripes < 2 ^ 32 := ok.allowed
  have inside : off / (chunk.size / chunk.nstripes) + 1 ≤ chunk.nstripes := ok.first_le lt
  have some : 0 < chunk.nstripes := lt_of_lt_of_le (Nat.succ_pos _) inside
  rw [mapSingle, divRem_eq some (by omega)]
  dsimp only [Bind.bind, Except.bind]
  rw [if_neg (Nat.not_le.mpr short), divRem_eq pos short]
  have pos' : 0 < (Profile.single.layout chunk).left off := Layout.left_pos off pos
  simp only [Profile.mapped, Layout.first, Layout.inStripe, Layout.left, Profile.layout, Profile.stripeq,
    Profile.redundancy, Nat.mul_zero, Nat.add_zero] at pos' ⊢
  generalize chunk.size / chunk.nstripes = l at *
  have division := Nat.div_add_mod off l
  have quotient : u32 (off / l) = off / l := u32_of_lt (by omega)
  have next : u32 (off / l + 1) = off / l + 1 := u32_of_lt (by omega)
  have up : (off / l + 1) * l = off + (l - off % l) := by
    rw [Nat.add_mul, Nat.one_mul, Nat.mul_comm]
    omega
  have end_lt : (off / l + 1) * l < 2 ^ 16 * 2 ^ 32 := Nat.mul_lt_mul'' (by omega) short
  rw [up] at end_lt
  rw [quotient, next, up, u64_of_lt (by omega), sub64_of_le (by omega) (by omega), Nat.add_sub_cancel_left]

theorem mapMirror_eq {copies : Nat} (ok : chunk.WellFormed (.mirror copies)) (lt : off < chunk.size) :
    mapMirror chunk off copies = .ok ((Profile.mirror copies).mapped chunk off) := by
  have short := ok.short 0 (Nat.div_pos (Nat.le_of_dvd (Nat.zero_lt_of_lt lt) ok.whole) ok.unit_pos)
  simp only [Profile.layout, Nat.zero_add, Nat.mul_one] at short
  rw [mapMirror, u32_of_lt (by omega), sub64_of_le (by omega) (by omega)]
  simp only [Profile.mapped, Layout.first, Layout.inStripe, Layout.left, Profile.layout, Nat.mul_zero,
    Nat.add_zero, Nat.mod_eq_of_lt lt]
  rfl

theorem mapStriped_eq {copies : Nat} (ok : chunk.WellFormed (.striped copies)) (lt : off < chunk.size) :
    mapStriped chunk off (chunk.nstripes / copies) copies = .ok ((Profile.striped copies).mapped chunk off) := by
  obtain ⟨short, some⟩ := ok.allowed
  have pos : 0 < chunk.stripeLength := ok.unit_pos
  have few := ok.few
  have inside := ok.first_le lt
  have offset := ok.inStripe_lt lt
  have left := Layout.left_pos off ok.unit_pos
  simp only [Profile.mapped, Layout.first, Layout.inStripe, Layout.left, Profile.layout, Profile.stripeq,
    Profile.redundancy] at inside offset left ⊢
  have groups : 0 < chunk.nstripes / copies := Nat.div_pos (by omega) some
  have groups' : chunk.nstripes / copies ≤ chunk.nstripes := Nat.div_le_self _ _
  rw [mapStriped, if_neg (Nat.not_lt.mpr short), divRem_eq pos (by omega)]
  dsimp only [Bind.bind, Except.bind]
  rw [divRem_eq groups (by omega)]
  dsimp only
  have stripen : u32 (off / chunk.stripeLength % (chunk.nstripes / copies) * copies) =
      off / chunk.stripeLength % (chunk.nstripes / copies) * copies := u32_of_lt (by omega)
  rw [stripen, u32_of_lt (by omega), sub64_of_le (by omega) (by omega)]

theorem mapParity_eq {nparities : Nat} (ok : chunk.WellFormed (.parity nparities)) (lt : off < chunk.size) :
    mapParity chunk off nparities = .ok ((Profile.parity nparities).mapped chunk off) := by
  obtain ⟨short, few, some⟩ := ok.allowed
  have pos : 0 < chunk.stripeLength := ok.unit_pos
  have offset := ok.inStripe_lt lt
  have left := Layout.left_pos off ok.unit_pos
  have data {dividend : Nat} : divRem dividend (2 ^ 32 + chunk.nstripes - nparities) =
      .ok (dividend / (chunk.nstripes - nparities), dividend % (chunk.nstripes - nparities)) := by
    have word : u32 (2 ^ 32 + chunk.nstripes - nparities) = chunk.nstripes - nparities := by
      rw [u32]
      omega
    rw [divRem, word, if_neg (by omega)]
  have stripes {dividend : Nat} : divRem dividend chunk.nstripes =
      .ok (dividend / chunk.nstripes, dividend % chunk.nstripes) := divRem_eq (by omega) (by omega)
  simp only [Profile.mapped, Layout.first, Layout.inStripe, Layout.left, Profile.layout, Profile.stripeq,
    Profile.redundancy] at offset left ⊢
  rw [mapParity, if_neg (by omega), divRem_eq pos (by omega)]
  dsimp only [Bind.bind, Except.bind]
  rw [data]
  dsimp only
  rw [stripes, stripes]
  dsimp only [Except.map]
  rw [u32_of_lt (by omega), sub64_of_le (by omega) (by omega)]
  by_cases one : nparities = 1
  · rw [if_pos one, if_pos one]
  · rw [if_neg one, if_neg one]

end

/-- The mapping finds the unit of an address, with the bytes to its end. -/
theorem mapChunk_eq {chunk : Chunk} {p : Profile} (ok : chunk.WellFormed p) {off : Nat} (lt : off < chunk.size) :
    mapChunk chunk off = .ok (p.mapped chunk off) := by
  rw [mapChunk_profile ok.profile lt]
  cases p with
  | single => exact mapSingle_eq ok lt
  | mirror copies => exact mapMirror_eq ok lt
  | striped copies =>
    rw [Profile.map, if_neg (Nat.ne_of_gt ok.allowed.2)]
    exact mapStriped_eq ok lt
  | parity nparities => exact mapParity_eq ok lt

end Meridian.Btrfs
