import Meridian.Lib.TwoErasures
import Mathlib.Algebra.Order.Group.Nat
import Mathlib.Data.Fintype.Card
import Mathlib.Order.Interval.Finset.Nat

/-!
# The bytes of a parity

The model of the tables and the block operations that `filesystems/fsw_btrfs.c` recovers stripes with:
`fsw_btrfs_raid6_init_table`, `fsw_btrfs_block_xor`, `fsw_btrfs_block_mulx` and `fsw_btrfs_block_mulx_xor`. A read
behind the end of a table has no result. Bytes with the exclusive or and the doubling of the tables' loop are words
that scale.
-/

namespace Meridian.Btrfs

open Lib.TwoErasures

/-! ### Tables -/

def poly : UInt8 := 0x1d

/-- The step from one power to the next. -/
def nextPower (cur : UInt8) : UInt8 := if cur &&& 0x80 ≠ 0 then (cur <<< 1) ^^^ poly else cur <<< 1

/-- The tables of `fsw_btrfs_raid6_init_table`, and the variable of its loop. -/
structure PowerTables where
  powx : List UInt8
  powxInv : List Nat
  cur : UInt8

def PowerTables.step (t : PowerTables) (i : Nat) : PowerTables where
  powx := (t.powx.set i t.cur).set (i + 255) t.cur
  powxInv := t.powxInv.set t.cur.toNat i
  cur := nextPower t.cur

/-- The tables behind so many rounds of the loop. -/
def raid6Rounds : Nat → PowerTables
  | 0 => { powx := List.replicate (255 * 2) 0, powxInv := List.replicate 256 0, cur := 1 }
  | i + 1 => (raid6Rounds i).step i

def raid6InitTable : PowerTables := raid6Rounds 255

def powx (k : Nat) : Option UInt8 := raid6InitTable.powx[k]?

def powxInv (p : UInt8) : Option Nat := raid6InitTable.powxInv[p.toNat]?

/-! ### Blocks -/

/-- A block of the size of a sector. -/
abbrev Sector (size : Nat) := Fin size → UInt8

variable {size : Nat}

/-- A block that is made byte by byte. -/
def perByte (f : Fin size → Option UInt8) : Option (Sector size) :=
  if every : ∀ j, (f j).isSome then some fun j => (f j).get (every j) else none

def blockXor (dst src : Sector size) : Sector size := fun j => dst j ^^^ src j

def mulx (mul : Nat) (p : UInt8) : Option UInt8 :=
  if p ≠ 0 then (powxInv p).bind fun log => powx (mul + log) else some p

def blockMulx (mul : Nat) (buf : Sector size) : Option (Sector size) := perByte fun j => mulx mul (buf j)

def blockMulxXor (dst : Sector size) (mul : Nat) (buf : Sector size) : Option (Sector size) :=
  perByte fun j =>
    if buf j ≠ 0 then ((powxInv (buf j)).bind fun log => powx (mul + log)).map (dst j ^^^ ·) else some (dst j)

theorem perByte_eq {f : Fin size → Option UInt8} {block : Sector size} (every : ∀ j, f j = some (block j)) :
    perByte f = some block := by
  obtain rfl : f = fun j => some (block j) := funext every
  exact dif_pos fun _ => rfl

/-! ### Bytes as words -/

/-- A byte, with the exclusive or as its sum. -/
@[ext]
structure Gf where
  byte : UInt8
  deriving DecidableEq

instance : Zero Gf := ⟨⟨0⟩⟩
instance : Add Gf := ⟨fun a b => ⟨a.byte ^^^ b.byte⟩⟩
instance : Neg Gf := ⟨id⟩

theorem Gf.byte_zero : (0 : Gf).byte = 0 := rfl

theorem Gf.byte_add (a b : Gf) : (a + b).byte = a.byte ^^^ b.byte := rfl

instance : AddCommGroup Gf where
  add_assoc a b c := Gf.ext (UInt8.xor_assoc a.byte b.byte c.byte)
  zero_add a := Gf.ext UInt8.zero_xor
  add_zero a := Gf.ext UInt8.xor_zero
  nsmul := nsmulRec
  zsmul := zsmulRec
  neg_add_cancel a := Gf.ext UInt8.xor_self
  add_comm a b := Gf.ext (UInt8.xor_comm a.byte b.byte)

theorem high_bit_xor (a b : UInt8) : (a ^^^ b) &&& 0x80 = (a &&& 0x80) ^^^ (b &&& 0x80) := by
  rw [← UInt8.toBitVec_inj]
  ext i
  simp [Bool.and_xor_distrib_right]

theorem high_bit_cases (a : UInt8) : a &&& 0x80 = 0 ∨ a &&& 0x80 = 0x80 := by
  rw [← UInt8.toBitVec_inj, ← UInt8.toBitVec_inj, UInt8.toBitVec_and]
  generalize a.toBitVec = bits
  revert bits
  decide

theorem nextPower_eq (a : UInt8) : nextPower a = (a <<< 1) ^^^ (if a &&& 0x80 ≠ 0 then poly else 0) := by
  rw [nextPower]
  split
  · rfl
  · rw [UInt8.xor_zero]

/-- The doubling is additive. -/
theorem nextPower_xor (a b : UInt8) : nextPower (a ^^^ b) = nextPower a ^^^ nextPower b := by
  have middle (p q r s : UInt8) : (p ^^^ q) ^^^ (r ^^^ s) = (p ^^^ r) ^^^ (q ^^^ s) := by ac_rfl
  rw [nextPower_eq, nextPower_eq a, nextPower_eq b, middle, UInt8.shiftLeft_xor, high_bit_xor]
  refine congrArg _ ?_
  rcases high_bit_cases a with zero | one <;> rcases high_bit_cases b with zero' | one'
  · rw [zero, zero']; decide
  · rw [zero, one']; decide
  · rw [one, zero']; decide
  · rw [one, one']; decide

/-- The power of so many doublings. -/
def power (i : Nat) : UInt8 := nextPower^[i] 1

theorem power_succ (i : Nat) : power (i + 1) = nextPower (power i) := Function.iterate_succ_apply' _ _ _

theorem power_period : power 255 = 1 := by decide +kernel

theorem power_ne_one : ∀ d : Fin 255, 0 < d.val → power d.val ≠ 1 := by decide +kernel

theorem iterate_power (m i : Nat) : nextPower^[m] (power i) = power (m + i) :=
  (Function.iterate_add_apply nextPower m i 1).symm

theorem power_ne {i j : Nat} (lt : j < i) (small : i < 255) : power j ≠ power i := by
  intro same
  have later := congrArg nextPower^[255 - i] same
  rw [iterate_power, iterate_power, Nat.sub_add_cancel (Nat.le_of_lt small), power_period] at later
  exact power_ne_one ⟨255 - i + j, by omega⟩ (by dsimp only; omega) later

theorem nextPower_zero : nextPower 0 = 0 := by decide

theorem power_ne_zero {i : Nat} (small : i < 255) : power i ≠ 0 := by
  intro zero
  have later := congrArg nextPower^[255 - i] zero
  rw [iterate_power, Nat.sub_add_cancel (Nat.le_of_lt small), power_period,
    Function.iterate_fixed nextPower_zero] at later
  exact absurd later (by decide)

/-- There are as many powers as bytes other than zero. -/
theorem exists_power {v : UInt8} (some : v ≠ 0) : ∃ i < 255, power i = v := by
  let f : Fin 256 → Fin 256 := fun i => (if i.val = 0 then (0 : UInt8) else power (i.val - 1)).toFin
  have injective : Function.Injective f := by
    intro i j same
    have bytes := UInt8.toFin_inj.mp same
    have first := i.isLt
    have second := j.isLt
    ext
    split at bytes <;> split at bytes
    · omega
    · exact absurd bytes.symm (power_ne_zero (by omega))
    · exact absurd bytes (power_ne_zero (by omega))
    · rcases Nat.lt_trichotomy i.val j.val with lt | eq | gt
      · exact absurd bytes (power_ne (by omega) (by omega))
      · exact eq
      · exact absurd bytes.symm (power_ne (by omega) (by omega))
  obtain ⟨i, found⟩ := Finite.injective_iff_surjective.mp injective v.toFin
  have byte := UInt8.toFin_inj.mp found
  have bound := i.isLt
  split at byte
  · exact absurd byte.symm some
  · exact ⟨i.val - 1, by omega, byte⟩

/-! ### What the tables hold -/

/-- What the tables hold behind so many rounds. -/
structure PowerTables.Filled (t : PowerTables) (rounds : Nat) : Prop where
  cur : t.cur = power rounds
  size : t.powx.length = 510
  sizeInv : t.powxInv.length = 256
  low : ∀ j < rounds, t.powx[j]? = some (power j)
  high : ∀ j < rounds, t.powx[j + 255]? = some (power j)
  inverse : ∀ j < rounds, t.powxInv[(power j).toNat]? = some j

theorem raid6Rounds_filled {rounds : Nat} (le : rounds ≤ 255) : (raid6Rounds rounds).Filled rounds := by
  induction rounds with
  | zero =>
    exact ⟨rfl, List.length_replicate, List.length_replicate, fun j lt => absurd lt (Nat.not_lt_zero j),
      fun j lt => absurd lt (Nat.not_lt_zero j), fun j lt => absurd lt (Nat.not_lt_zero j)⟩
  | succ i ih =>
    obtain ⟨cur, size, sizeInv, low, high, inverse⟩ := ih (by omega)
    rw [raid6Rounds]
    refine ⟨?_, ?_, ?_, fun j lt => ?_, fun j lt => ?_, fun j lt => ?_⟩
    · rw [power_succ, ← cur]
      rfl
    · rw [PowerTables.step, List.length_set, List.length_set, size]
    · rw [PowerTables.step, List.length_set, sizeInv]
    · dsimp only [PowerTables.step]
      rw [List.getElem?_set_ne (by omega), cur]
      rcases Nat.lt_succ_iff_lt_or_eq.mp lt with before | rfl
      · rw [List.getElem?_set_ne (by omega), low j before]
      · rw [List.getElem?_set_self (by omega)]
    · dsimp only [PowerTables.step]
      rw [cur]
      rcases Nat.lt_succ_iff_lt_or_eq.mp lt with before | rfl
      · rw [List.getElem?_set_ne (by omega), List.getElem?_set_ne (by omega), high j before]
      · rw [List.getElem?_set_self (by rw [List.length_set]; omega)]
    · dsimp only [PowerTables.step]
      rw [cur]
      rcases Nat.lt_succ_iff_lt_or_eq.mp lt with before | rfl
      · have apart : (power i).toNat ≠ (power j).toNat :=
          fun same => power_ne before (by omega) (UInt8.toNat_inj.mp same).symm
        rw [List.getElem?_set_ne apart, inverse j before]
      · rw [List.getElem?_set_self (by rw [sizeInv]; exact UInt8.toNat_lt _)]

theorem powxInv_power {j : Nat} (lt : j < 255) : powxInv (power j) = some j :=
  (raid6Rounds_filled (Nat.le_refl 255)).inverse j lt

theorem powx_eq {k : Nat} (lt : k < 510) : powx k = some (power k) := by
  obtain ⟨_, _, _, low, high, _⟩ := raid6Rounds_filled (Nat.le_refl 255)
  by_cases small : k < 255
  · exact low k small
  · obtain ⟨j, rfl⟩ := Nat.exists_eq_add_of_le' (Nat.le_of_not_lt small)
    rw [powx, raid6InitTable, high j (by omega), ← iterate_power, power_period]
    rfl

/-! ### The words -/

def doubling : AddMonoid.End Gf := AddMonoidHom.mk' (fun v => ⟨nextPower v.byte⟩) fun a b =>
  Gf.ext (nextPower_xor a.byte b.byte)

theorem doubling_pow (n : Nat) (v : Gf) : ((doubling ^ n) v).byte = nextPower^[n] v.byte := by
  rw [AddMonoid.End.coe_pow]
  induction n with
  | zero => rfl
  | succ n ih => rw [Function.iterate_succ_apply', Function.iterate_succ_apply', ← ih]; rfl

theorem doubling_pow_one (n : Nat) : (doubling ^ n) ⟨1⟩ = ⟨power n⟩ := Gf.ext (doubling_pow n _)

def logOf (p : UInt8) : Nat := (powxInv p).getD 0

theorem logOf_power {j : Nat} (lt : j < 255) : logOf (power j) = j := by
  rw [logOf, powxInv_power lt]
  rfl

theorem powxInv_eq {p : UInt8} (some : p ≠ 0) : powxInv p = .some (logOf p) := by
  obtain ⟨j, lt, rfl⟩ := exists_power some
  rw [logOf_power lt, powxInv_power lt]

theorem power_logOf {p : UInt8} (some : p ≠ 0) : power (logOf p) = p ∧ logOf p < 255 := by
  obtain ⟨j, lt, rfl⟩ := exists_power some
  rw [logOf_power lt]
  exact ⟨rfl, lt⟩

theorem Gf.byte_ne_zero {v : Gf} (some : v ≠ 0) : v.byte ≠ 0 := fun zero => some (Gf.ext zero)

/-- The bytes with the doubling. -/
def galois : Scale Gf where
  x := doubling
  one := ⟨1⟩
  order := 255
  log v := logOf v.byte
  add_self _ := Gf.ext UInt8.xor_self
  pow_order := by
    refine DFunLike.ext _ _ fun v => Gf.ext ?_
    rw [doubling_pow]
    by_cases zero : v.byte = 0
    · rw [zero, Function.iterate_fixed nextPower_zero]
      exact zero.symm
    · rw [← (power_logOf zero).1, iterate_power, Nat.add_comm, ← iterate_power, power_period]
      exact (power_logOf zero).1
  pow_log v some := by
    have value := (power_logOf (Gf.byte_ne_zero some)).1
    generalize logOf v.byte = n at value ⊢
    exact (doubling_pow_one n).trans (Gf.ext value)
  pow_ne_one d positive lt := by
    rw [doubling_pow_one]
    exact fun same => power_ne_one ⟨d, lt⟩ positive (congrArg Gf.byte same)

/-- A byte scaled by a power. -/
def scaled (mul : Nat) (p : UInt8) : UInt8 := ((galois.x ^ mul) ⟨p⟩).byte

theorem scaled_eq (mul : Nat) (p : UInt8) : scaled mul p = nextPower^[mul] p := doubling_pow mul ⟨p⟩

theorem scaled_zero (mul : Nat) : scaled mul 0 = 0 := by
  rw [scaled_eq, Function.iterate_fixed nextPower_zero]

/-- With a factor of at most 255 a product is found in the tables. -/
theorem product_eq {mul : Nat} (le : mul ≤ 255) {p : UInt8} (some : p ≠ 0) :
    ((powxInv p).bind fun log => powx (mul + log)) = .some (scaled mul p) := by
  obtain ⟨value, lt⟩ := power_logOf some
  rw [powxInv_eq some, Option.bind_some, powx_eq (by omega), scaled_eq]
  conv_rhs => rw [← value]
  rw [iterate_power]

theorem blockMulx_eq {mul : Nat} (le : mul ≤ 255) (buf : Sector size) :
    blockMulx mul buf = some fun j => scaled mul (buf j) := by
  refine perByte_eq fun j => ?_
  rw [mulx]
  split
  · rename_i some
    exact product_eq le some
  · rename_i zero
    rw [not_not.mp zero, scaled_zero]

theorem blockMulxXor_eq {mul : Nat} (le : mul ≤ 255) (dst buf : Sector size) :
    blockMulxXor dst mul buf = some fun j => dst j ^^^ scaled mul (buf j) := by
  refine perByte_eq fun j => ?_
  split
  · rename_i some
    rw [product_eq le some]
    rfl
  · rename_i zero
    rw [not_not.mp zero, scaled_zero, UInt8.xor_zero]

end Meridian.Btrfs
