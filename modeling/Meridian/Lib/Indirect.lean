import Mathlib.Algebra.Order.Group.Nat
import Mathlib.Data.Nat.Basic

/-!
# Pointers to tables of pointers

A pointer leads to a table of `w` pointers, each of which leads to another table, and so on for a number of levels;
zero leads nowhere. The `k`-th pointer some levels below one is found by the digits of `k` to the base `w`.
-/

namespace Lib.Indirect

variable (slot : Nat → Nat → Nat) (w : Nat)

/-- The `k`-th pointer so many levels below a pointer. -/
def follow : Nat → Nat → Nat → Nat
  | 0, p, _ => p
  | n + 1, p, k => if follow n p (k / w) = 0 then 0 else slot (follow n p (k / w)) (k % w)

/-- The slots on the way to it. -/
def digits : Nat → Nat → List Nat
  | 0, _ => []
  | n + 1, k => digits n (k / w) ++ [k % w]

variable {slot w} {m n j p k d : Nat}

/-- Nothing is below a pointer that leads nowhere. -/
theorem follow_zero (none : follow slot w m p (k / w ^ j) = 0) : follow slot w (m + j) p k = 0 := by
  induction j generalizing k with
  | zero => rwa [Nat.pow_zero, Nat.div_one] at none
  | succ j ih =>
    rw [Nat.pow_succ', ← Nat.div_div_eq_div_mul] at none
    exact if_pos (ih none)

theorem div_add (inside : k % w + d < w) : (k + d) / w = k / w ∧ (k + d) % w = k % w + d := by
  have split : k + d = k % w + d + w * (k / w) := by
    have parts := Nat.mod_add_div k w
    omega
  constructor
  · rw [split, Nat.add_mul_div_left _ _ (by omega), Nat.div_eq_of_lt inside, Nat.zero_add]
  · rw [split, Nat.add_mul_mod_self_left, Nat.mod_eq_of_lt inside]

/-- The pointers in one table. -/
theorem follow_beside (up : follow slot w n p (k / w) ≠ 0) (inside : k % w + d < w) :
    follow slot w (n + 1) p (k + d) = slot (follow slot w n p (k / w)) (k % w + d) := by
  obtain ⟨same, rest⟩ := div_add inside
  rw [follow, same, rest, if_neg up]

/-- Pointers in one table stay below the same pointer. -/
theorem beside_lt (lt : k < w ^ (n + 1)) (inside : k % w + d < w) : k + d < w ^ (n + 1) := by
  rw [Nat.pow_succ] at lt ⊢
  have here : (k + d) / w < w ^ n := by
    rw [(div_add inside).1]
    exact (Nat.div_lt_iff_lt_mul (by omega)).mpr lt
  exact (Nat.div_lt_iff_lt_mul (by omega)).mp here

/-- So do pointers of a lower level behind them. -/
theorem above_lt (sized : 0 < w) (lt : k / w ^ j < w ^ (m + 1)) (inside : k / w ^ j % w + d < w) :
    k + d < w ^ (m + 1 + j) := by
  have pos : 0 < w ^ j := Nat.pow_pos sized
  have here := beside_lt lt inside
  have within : k < (k / w ^ j + 1) * w ^ j := by
    have parts := Nat.div_add_mod k (w ^ j)
    have rest := Nat.mod_lt k pos
    rw [Nat.add_mul, Nat.one_mul, Nat.mul_comm]
    omega
  rw [Nat.pow_add]
  calc k + d < (k / w ^ j + 1) * w ^ j + d * w ^ j := by
        have grown := Nat.le_mul_of_pos_right d pos
        omega
    _ = (k / w ^ j + d + 1) * w ^ j := by rw [← Nat.add_mul, Nat.add_right_comm]
    _ ≤ w ^ (m + 1) * w ^ j := Nat.mul_le_mul_right _ here

/-- Behind pointers that lead nowhere, so many pointers of a lower level do not either. -/
theorem follow_hole (sized : 0 < w) (none : ∀ d' ≤ d, follow slot w m p (k / w ^ j + d') = 0) :
    follow slot w (m + j) p (k + d) = 0 := by
  have pos : 0 < w ^ j := Nat.pow_pos sized
  have least : k / w ^ j ≤ (k + d) / w ^ j := Nat.div_le_div_right (Nat.le_add_right k d)
  have most : (k + d) / w ^ j ≤ k / w ^ j + d := by
    have grown : k + d ≤ k + d * w ^ j := Nat.add_le_add_left (Nat.le_mul_of_pos_right d pos) k
    calc (k + d) / w ^ j ≤ (k + d * w ^ j) / w ^ j := Nat.div_le_div_right grown
      _ = k / w ^ j + d := Nat.add_mul_div_right k d pos
  have here := none ((k + d) / w ^ j - k / w ^ j) (by omega)
  rw [Nat.add_sub_cancel' least] at here
  exact follow_zero here

end Lib.Indirect
