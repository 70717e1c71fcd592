import Meridian.Lib.SquareRoot
import Mathlib.Data.Nat.Basic

/-!
# The distance in the vignette

The model of `isqrt32` in `conn/core/paint.c`: the binary digits of a square root, from the highest one that the
number has. A sum, a difference or a cast that leaves its word has no result.
-/

namespace Meridian.Conn.Isqrt

open Lib.SquareRoot

/-! ### The loops -/

def addWords (a b : UInt64) : Option UInt64 := if a.toNat + b.toNat < 2 ^ 64 then some (a + b) else none

def subWords (a b : UInt64) : Option UInt64 := if b ≤ a then some (a - b) else none

/-- `(UINT32)r`. -/
def castWord (r : UInt64) : Option UInt32 := if r.toNat < 2 ^ 32 then some r.toUInt32 else none

theorem addWords_some {a b : UInt64} (fits : a.toNat + b.toNat < 2 ^ 64) :
    ∃ sum, addWords a b = some sum ∧ sum.toNat = a.toNat + b.toNat :=
  ⟨a + b, if_pos fits, by rw [UInt64.toNat_add, Nat.mod_eq_of_lt fits]⟩

theorem subWords_some {a b : UInt64} (le : b ≤ a) :
    ∃ rest, subWords a b = some rest ∧ rest.toNat = a.toNat - b.toNat :=
  ⟨a - b, if_pos le, UInt64.toNat_sub_of_le _ _ le⟩

theorem toNat_shift_two (b : UInt64) : (b >>> 2).toNat = b.toNat / 4 := by
  rw [UInt64.toNat_shiftRight, Nat.shiftRight_eq_div_pow]
  rfl

theorem toNat_shift_one (r : UInt64) : (r >>> 1).toNat = r.toNat / 2 := by
  rw [UInt64.toNat_shiftRight, Nat.shiftRight_eq_div_pow]
  rfl

theorem shift_two_lt {b : UInt64} (positive : 0 < b.toNat) : (b >>> 2).toNat < b.toNat := by
  rw [toNat_shift_two]
  omega

/-- `while (b > x) b >>= 2`. -/
def firstDigit (x b : UInt64) : UInt64 := if _above : x < b then firstDigit x (b >>> 2) else b
termination_by b.toNat
decreasing_by
  have less := UInt64.lt_iff_toNat_lt.mp _above
  exact shift_two_lt (by omega)

/-- `while (b)`. -/
def digitLoop (x r b : UInt64) : Option UInt64 :=
  if _more : b ≠ 0 then do
    let sum ← addWords r b
    if sum ≤ x then
      let rest ← subWords x sum
      let root ← addWords (r >>> 1) b
      digitLoop rest root (b >>> 2)
    else digitLoop x (r >>> 1) (b >>> 2)
  else some r
termination_by b.toNat
decreasing_by
  all_goals
    refine shift_two_lt (Nat.pos_of_ne_zero fun zero => _more ?_)
    exact UInt64.toNat.inj zero

def isqrt32 (v : UInt64) : Option UInt32 := do
  let r ← digitLoop v 0 (firstDigit v ((1 : UInt64) <<< 62))
  castWord r

/-! ### Digits -/

/-- The square of the digit that comes next, when there are so many to go. -/
def nextDigit : Nat → Nat
  | 0 => 0
  | e + 1 => 4 ^ e

theorem nextDigit_succ (e : Nat) : nextDigit (e + 1) / 4 = nextDigit e := by
  cases e with
  | zero => rfl
  | succ e => rw [nextDigit, nextDigit, Nat.pow_succ, Nat.mul_div_cancel _ (by decide)]

/-- The first loop stops at the highest digit that the number can have. -/
theorem firstDigit_eq {x b : UInt64} {e : Nat} (digit : b.toNat = nextDigit e) (small : x.toNat < 4 ^ e) :
    ∃ e' ≤ e, (firstDigit x b).toNat = nextDigit e' ∧ x.toNat < 4 ^ e' := by
  induction e generalizing b with
  | zero =>
    have stops : ¬x < b := by
      rw [UInt64.lt_iff_toNat_lt, digit]
      exact Nat.not_lt_zero _
    rw [firstDigit, dif_neg stops]
    exact ⟨0, Nat.le_refl 0, digit, small⟩
  | succ e ih =>
    rw [firstDigit]
    by_cases above : x < b
    · have less : x.toNat < 4 ^ e := by
        rw [UInt64.lt_iff_toNat_lt, digit] at above
        exact above
      obtain ⟨e', le, found⟩ := ih (b := b >>> 2) (by rw [toNat_shift_two, digit, nextDigit_succ]) less
      rw [dif_pos above]
      exact ⟨e', Nat.le_succ_of_le le, found⟩
    · rw [dif_neg above]
      exact ⟨e + 1, Nat.le_refl _, digit, small⟩

/-- From a partial root on, the loop finds the root, and no sum on the way leaves its word. -/
theorem digitLoop_eq {v e root : Nat} {x r b : UInt64} (h : Partial v e root x.toNat r.toNat)
    (digit : b.toNat = nextDigit e) (room : root + 2 ^ e ≤ 2 ^ 32) :
    ∃ out, digitLoop x r b = some out ∧ out.toNat * out.toNat ≤ v ∧
      v < (out.toNat + 1) * (out.toNat + 1) ∧ out.toNat < 2 ^ 32 := by
  induction e generalizing root x r b with
  | zero =>
    have done : b = 0 := UInt64.toNat.inj digit
    have scaled := h.scaled
    rw [Nat.pow_zero, Nat.mul_one] at scaled
    rw [digitLoop, dif_neg (not_not.mpr done)]
    exact ⟨r, rfl, h.done.1, h.done.2, by omega⟩
  | succ e ih =>
    have next : (b >>> 2).toNat = nextDigit e := by rw [toNat_shift_two, digit, nextDigit_succ]
    have square : b.toNat = 4 ^ e := digit
    have more : b ≠ 0 := by
      intro zero
      rw [zero] at square
      exact absurd square (Nat.ne_of_lt (Nat.pow_pos (by decide)))
    have fits := h.sum_lt room
    have power : 2 ^ (e + 1) = 2 ^ e + 2 ^ e := by rw [Nat.pow_succ, Nat.mul_two]
    have positive := Nat.two_pow_pos e
    have sumFits : r.toNat + b.toNat < 2 ^ 64 := by
      rw [square]
      exact fits
    obtain ⟨sum, added, sumIs⟩ := addWords_some sumFits
    rw [square] at sumIs
    rw [digitLoop, dif_pos more, added, Option.bind_eq_bind, Option.bind_some]
    by_cases allowed : sum ≤ x
    · have enough : r.toNat + 4 ^ e ≤ x.toNat := by
        rw [← sumIs]
        exact UInt64.le_iff_toNat_le.mp allowed
      have rootFits : (r >>> 1).toNat + b.toNat < 2 ^ 64 := by
        rw [toNat_shift_one]
        omega
      obtain ⟨rest, taken, restIs⟩ := subWords_some allowed
      obtain ⟨root', added', rootIs⟩ := addWords_some rootFits
      have digits : Partial v e (root + 2 ^ e) rest.toNat root'.toNat := by
        rw [restIs, sumIs, rootIs, toNat_shift_one, square]
        exact h.set enough
      rw [if_pos allowed, taken, Option.bind_some, added', Option.bind_some]
      exact ih digits next (by omega)
    · have short : x.toNat < r.toNat + 4 ^ e := by
        rw [← sumIs]
        exact UInt64.lt_iff_toNat_lt.mp (UInt64.not_le.mp allowed)
      have digits : Partial v e root x.toNat (r >>> 1).toNat := by
        rw [toNat_shift_one]
        exact h.skip short
      rw [if_neg allowed]
      exact ih digits next (by omega)

/-- For every number, the loops end with the root of the number rounded down, and every word on the way is big
enough. -/
theorem isqrt32_right (v : UInt64) :
    ∃ r : UInt32, isqrt32 v = some r ∧ r.toNat * r.toNat ≤ v.toNat ∧
      v.toNat < (r.toNat + 1) * (r.toNat + 1) := by
  have top : ((1 : UInt64) <<< 62).toNat = nextDigit 32 := by decide +kernel
  obtain ⟨e, le, digit, small⟩ := firstDigit_eq top (lt_of_lt_of_eq v.toNat_lt (by norm_num))
  have room : 0 + 2 ^ e ≤ 2 ^ 32 := by
    rw [Nat.zero_add]
    exact Nat.pow_le_pow_right (by decide) le
  have begins : Partial v.toNat e 0 v.toNat (0 : UInt64).toNat := Partial.start small
  obtain ⟨out, found, below, above, fits⟩ := digitLoop_eq begins digit room
  have cast : out.toUInt32.toNat = out.toNat := by
    rw [UInt64.toNat_toUInt32, Nat.mod_eq_of_lt fits]
  refine ⟨out.toUInt32, ?_, ?_, ?_⟩
  · rw [isqrt32, found, Option.bind_eq_bind, Option.bind_some, castWord, if_pos fits]
  · rw [cast]
    exact below
  · rw [cast]
    exact above

end Meridian.Conn.Isqrt
