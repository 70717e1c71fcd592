import Mathlib.Algebra.Order.Ring.Int
import Mathlib.Order.Nat
import Mathlib.Tactic.Linarith

/-!
# Fixed-point sampling

A line of `n` samples read at `d` positions: a position times the step between two of them is the sample's
index with sixteen bits behind the point, and a value between two samples is interpolated with those bits.
-/

namespace Lib.Sampling

variable {n d x k : Nat}

/-- The step between two positions, with sixteen bits behind the point. -/
def step (n d : Nat) : Nat := (n - 1) * 2 ^ 16 / (if d > 1 then d - 1 else 1)

/-- The sample read at a position. -/
def sample (n d x : Nat) : Nat := x * step n d / 2 ^ 16

theorem mul_step_le (n : Nat) (inside : x < d) : x * step n d ≤ (n - 1) * 2 ^ 16 := by
  unfold step
  by_cases several : d > 1
  · rw [if_pos several]
    calc x * ((n - 1) * 2 ^ 16 / (d - 1)) ≤ (d - 1) * ((n - 1) * 2 ^ 16 / (d - 1)) :=
          Nat.mul_le_mul_right _ (by omega)
      _ ≤ (n - 1) * 2 ^ 16 := Nat.mul_div_le _ _
  · rw [show x = 0 by omega, Nat.zero_mul]
    exact Nat.zero_le _

/-- Every position reads one of the samples. -/
theorem sample_lt (some_sample : 0 < n) (inside : x < d) : sample n d x < n := by
  have read := Nat.div_le_div_right (c := 2 ^ 16) (mul_step_le n inside)
  rw [Nat.mul_div_cancel _ (by decide)] at read
  unfold sample
  omega

/-- The first position that reads a sample with index `k` or above. -/
def firstAt (n d k : Nat) : Nat := (k * 2 ^ 16 + step n d - 1) / step n d

theorem firstAt_bounds (moves : 0 < step n d) :
    k * 2 ^ 16 ≤ firstAt n d k * step n d ∧ firstAt n d k * step n d < k * 2 ^ 16 + step n d := by
  have split := Nat.div_add_mod (k * 2 ^ 16 + step n d - 1) (step n d)
  have left := Nat.mod_lt (k * 2 ^ 16 + step n d - 1) moves
  have product : firstAt n d k * step n d =
      step n d * ((k * 2 ^ 16 + step n d - 1) / step n d) := Nat.mul_comm _ _
  omega

theorem step_pos (several : 1 < d) (fine : d - 1 ≤ (n - 1) * 2 ^ 16) : 0 < step n d := by
  unfold step
  rw [if_pos several]
  exact Nat.div_pos fine (by omega)

/-- The positions pass a sample of the first half. -/
theorem firstAt_lt (several : 1 < d) (fine : d - 1 ≤ (n - 1) * 2 ^ 16) (half : 2 * k ≤ n - 1) :
    firstAt n d k < d := by
  have moves := step_pos several fine
  have reached := (firstAt_bounds (k := k) moves).2
  -- All the positions cover more than half of the samples: one step less than that is left over.
  have whole : (n - 1) * 2 ^ 16 < (d - 1) * step n d + (d - 1) := by
    have unfolded : step n d = (n - 1) * 2 ^ 16 / (d - 1) := by rw [step, if_pos several]
    rw [unfolded, Nat.mul_comm (d - 1)]
    exact Nat.lt_div_mul_add (by omega)
  have covered : d - 1 ≤ (d - 1) * step n d := Nat.le_mul_of_pos_right _ moves
  by_contra beyond
  have behind : d * step n d ≤ firstAt n d k * step n d := Nat.mul_le_mul_right _ (by omega)
  have parts : d * step n d = (d - 1) * step n d + step n d := by
    rw [← Nat.succ_mul]
    congr 1
    omega
  omega

/-- With at most two positions, or more than the fixed point can tell apart, only the ends are read. -/
theorem sample_ends (inside : x < d) (coarse : d ≤ 2 ∨ (n - 1) * 2 ^ 16 < d - 1) :
    sample n d x = 0 ∨ sample n d x = n - 1 := by
  unfold sample
  obtain few | many := coarse
  · by_cases first : x = 0
    · left
      rw [first, Nat.zero_mul, Nat.zero_div]
    · right
      rw [show x = 1 by omega, show d = 2 by omega, Nat.one_mul, step, if_pos (by decide), Nat.div_one,
        Nat.mul_div_cancel _ (by decide)]
  · left
    have still : step n d = 0 := by
      rw [step, if_pos (by omega)]
      exact Nat.div_eq_of_lt many
    rw [still, Nat.mul_zero, Nat.zero_div]

/-- A value between two others: `f` of `2 ^ 16` parts of the way from the one to the other. -/
theorem lerp_between {a b f : Int} (low : 0 ≤ f) (high : f ≤ 2 ^ 16) :
    min a b ≤ a + (b - a) * f / 2 ^ 16 ∧ a + (b - a) * f / 2 ^ 16 ≤ max a b := by
  obtain up | down := le_total a b
  · have product : 0 ≤ (b - a) * f := mul_nonneg (by omega) low
    have most : (b - a) * f ≤ (b - a) * 2 ^ 16 := mul_le_mul_of_nonneg_left high (by omega)
    rw [min_eq_left up, max_eq_right up]
    constructor <;> omega
  · have product : (b - a) * f ≤ 0 := mul_nonpos_of_nonpos_of_nonneg (by omega) low
    have least : (b - a) * 2 ^ 16 ≤ (b - a) * f := mul_le_mul_of_nonpos_left high (by omega)
    rw [min_eq_right down, max_eq_left down]
    constructor <;> omega

end Lib.Sampling
