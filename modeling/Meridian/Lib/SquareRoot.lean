import Mathlib.Tactic.Linarith
import Mathlib.Tactic.Ring

/-!
# Square roots digit by digit

The binary digits of the root of a number are set one after the other, from the highest one on. Beside the rest
that is left of the number, the method keeps the root so far at the scale of the digit that comes next, so that no
product is needed: a digit of weight `2 ^ e` takes `r + 4 ^ e` from the rest.
-/

namespace Lib.SquareRoot

/-- The root of `v` up to the digits below `2 ^ e`, with the rest `x` of the number and the scaled root `r`. -/
structure Partial (v e root x r : Nat) : Prop where
  scaled : r = root * 2 ^ e
  rest : x + root ^ 2 = v
  below : v < (root + 2 ^ e) ^ 2

variable {v e root x r : Nat}

/-- No digit is set yet. -/
theorem Partial.start (small : v < 4 ^ e) : Partial v e 0 v 0 where
  scaled := (Nat.zero_mul _).symm
  rest := rfl
  below := by
    rw [Nat.zero_add, ← Nat.pow_mul, Nat.mul_comm, Nat.pow_mul]
    exact small

theorem four_pow (e : Nat) : 4 ^ e = 2 ^ e * 2 ^ e := by
  rw [← Nat.mul_pow]

/-- What a set digit adds to the square. -/
theorem Partial.square (h : Partial v (e + 1) root x r) : (root + 2 ^ e) ^ 2 = root ^ 2 + (r + 4 ^ e) := by
  rw [h.scaled, four_pow, Nat.pow_succ]
  ring

theorem Partial.half (h : Partial v (e + 1) root x r) : r / 2 = root * 2 ^ e := by
  rw [h.scaled, Nat.pow_succ, ← Nat.mul_assoc, Nat.mul_div_cancel _ (by decide)]

/-- The digit is set if the rest allows it. -/
theorem Partial.set (h : Partial v (e + 1) root x r) (fits : r + 4 ^ e ≤ x) :
    Partial v e (root + 2 ^ e) (x - (r + 4 ^ e)) (r / 2 + 4 ^ e) where
  scaled := by rw [h.half, four_pow, Nat.add_mul]
  rest := by
    rw [h.square]
    have rest := h.rest
    omega
  below := by
    have both : root + 2 ^ (e + 1) = root + 2 ^ e + 2 ^ e := by rw [Nat.pow_succ, Nat.mul_two, Nat.add_assoc]
    rw [← both]
    exact h.below

theorem Partial.skip (h : Partial v (e + 1) root x r) (short : x < r + 4 ^ e) : Partial v e root x (r / 2) where
  scaled := h.half
  rest := h.rest
  below := by
    rw [h.square]
    have rest := h.rest
    omega

/-- Behind the last digit the scaled root is the root. -/
theorem Partial.done (h : Partial v 0 root x r) : r * r ≤ v ∧ v < (r + 1) * (r + 1) := by
  have scaled := h.scaled
  have rest := h.rest
  have below := h.below
  rw [Nat.pow_zero, Nat.mul_one] at scaled
  rw [Nat.pow_zero, Nat.pow_two] at below
  rw [Nat.pow_two] at rest
  subst scaled
  exact ⟨by omega, below⟩

/-- As long as the root stays below a bound, the sum that the rest is compared with stays below its square. -/
theorem Partial.sum_lt {bound : Nat} (h : Partial v (e + 1) root x r) (room : root + 2 ^ (e + 1) ≤ bound) :
    r + 4 ^ e < bound * bound := by
  have positive := Nat.two_pow_pos e
  rw [h.scaled, four_pow]
  rw [Nat.pow_succ] at room ⊢
  nlinarith [Nat.mul_le_mul room room, Nat.zero_le root]

end Lib.SquareRoot
