import Mathlib.Algebra.Order.Group.Nat
import Mathlib.Tactic.Ring

/-!
# Machine words as naturals

A word of `w` bits is a natural below `2 ^ w`; sums, differences and products are taken modulo
`2 ^ w`. The masks that clear or keep the low bits of a word are rounding and remainder.
-/

namespace Lib.Word

/-- The value a 64-bit word keeps of a number. -/
def u64 (n : Nat) : Nat := n % 2 ^ 64

/-- The value a 32-bit word keeps of a number. -/
def u32 (n : Nat) : Nat := n % 2 ^ 32

/-- `a - b` in 64-bit words. -/
def sub64 (a b : Nat) : Nat := (a + 2 ^ 64 - b) % 2 ^ 64

theorem u64_lt (n : Nat) : u64 n < 2 ^ 64 := Nat.mod_lt _ (by decide)

theorem u32_lt (n : Nat) : u32 n < 2 ^ 32 := Nat.mod_lt _ (by decide)

theorem u64_of_lt {n : Nat} (h : n < 2 ^ 64) : u64 n = n := Nat.mod_eq_of_lt h

theorem u32_of_lt {n : Nat} (h : n < 2 ^ 32) : u32 n = n := Nat.mod_eq_of_lt h

theorem sub64_of_le {a b : Nat} (h : b ≤ a) (ha : a < 2 ^ 64) : sub64 a b = a - b := by
  rw [sub64, show a + 2 ^ 64 - b = a - b + 2 ^ 64 by omega, Nat.add_mod_right]
  exact Nat.mod_eq_of_lt (by omega)

theorem sub64_lt (a b : Nat) : sub64 a b < 2 ^ 64 := Nat.mod_lt _ (by decide)

/-- `n & ~(2 ^ k - 1)` in words of `w` bits. -/
def clearLow (w k n : Nat) : Nat := n &&& (2 ^ w - 2 ^ k)

theorem testBit_high_mask {w k : Nat} (h : k ≤ w) (i : Nat) :
    (2 ^ w - 2 ^ k).testBit i = (decide (k ≤ i) && decide (i < w)) := by
  have split : 2 ^ w - 2 ^ k = 2 ^ k * (2 ^ (w - k) - 1) := by
    rw [Nat.mul_sub, ← Nat.pow_add, Nat.add_sub_cancel' h, Nat.mul_one]
  rw [split, Nat.testBit_two_pow_mul, Nat.testBit_two_pow_sub_one]
  by_cases le : k ≤ i
  · simp only [ge_iff_le, le, decide_true, Bool.true_and, decide_eq_decide]
    omega
  · simp [le]

theorem clearLow_eq {w k n : Nat} (hk : k ≤ w) (hn : n < 2 ^ w) :
    clearLow w k n = n / 2 ^ k * 2 ^ k := by
  apply Nat.eq_of_testBit_eq
  intro i
  rw [clearLow, Nat.testBit_and, testBit_high_mask hk, Nat.mul_comm, Nat.testBit_two_pow_mul,
    Nat.testBit_div_two_pow]
  by_cases le : k ≤ i
  · by_cases lt : i < w
    · simp [le, lt]
    · have high : n.testBit i = false :=
        Nat.testBit_lt_two_pow (hn.trans_le (Nat.pow_le_pow_right (by decide) (by omega)))
      simp [le, high]
  · simp [le]

/-- Round `n` up to a multiple of `2 ^ k` by the mask, when the sum fits the word. -/
theorem clearLow_add {w k n : Nat} (hk : k ≤ w) (hn : n + 2 ^ k - 1 < 2 ^ w) :
    n ≤ clearLow w k (n + 2 ^ k - 1) ∧ clearLow w k (n + 2 ^ k - 1) < n + 2 ^ k := by
  have pos : 0 < 2 ^ k := Nat.two_pow_pos k
  rw [clearLow_eq hk hn]
  have division := Nat.div_add_mod (n + 2 ^ k - 1) (2 ^ k)
  have small := Nat.mod_lt (n + 2 ^ k - 1) pos
  rw [Nat.mul_comm] at division
  omega

/-- Setting bits that are all clear is adding them. -/
theorem or_low {k x y : Nat} (hx : x % 2 ^ k = 0) (hy : y < 2 ^ k) : x ||| y = x + y := by
  obtain ⟨q, rfl⟩ := Nat.dvd_of_mod_eq_zero hx
  exact (Nat.two_pow_add_eq_or_of_lt hy q).symm

/-- A bit field of a word is a quotient and a remainder. -/
theorem shift_mask (n s b : Nat) : n >>> s &&& (2 ^ b - 1) = n / 2 ^ s % 2 ^ b := by
  rw [Nat.and_two_pow_sub_one_eq_mod, Nat.shiftRight_eq_div_pow]

end Lib.Word
