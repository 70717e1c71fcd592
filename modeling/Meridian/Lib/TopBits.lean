import Meridian.Lib.Word

/-!
# Fields in the top bits of a number

Fields of given widths side by side, the first one in the top bits. Taking the first field off leaves
a number of fewer bits with the other fields at its top.
-/

namespace Lib.TopBits

/-- The bits of the fields. A field is its width and its value. -/
def width (fields : List (Nat × Nat)) : Nat := (fields.map Prod.fst).sum

def join : List (Nat × Nat) → Nat
  | [] => 0
  | (_, v) :: fields => v * 2 ^ width fields + join fields

/-- Every value has no more bits than its field. -/
def Fit (fields : List (Nat × Nat)) : Prop := ∀ field ∈ fields, field.2 < 2 ^ field.1

/-- The top `b` of the low `r` bits. -/
def top (n r b : Nat) : Nat := n % 2 ^ r / 2 ^ (r - b)

variable {fields : List (Nat × Nat)} {n r b c v : Nat}

theorem width_cons (b v : Nat) (fields : List (Nat × Nat)) :
    width ((b, v) :: fields) = b + width fields := by
  simp [width]

theorem join_lt (fit : Fit fields) : join fields < 2 ^ width fields := by
  induction fields with
  | nil => exact Nat.one_pos
  | cons field fields ih =>
    obtain ⟨b, v⟩ := field
    have first : v + 1 ≤ 2 ^ b := fit (b, v) List.mem_cons_self
    have rest := ih fun f mem => fit f (List.mem_cons_of_mem _ mem)
    rw [join, width_cons, Nat.pow_add]
    calc v * 2 ^ width fields + join fields < (v + 1) * 2 ^ width fields := by
          rw [Nat.add_mul]
          omega
      _ ≤ 2 ^ b * 2 ^ width fields := Nat.mul_le_mul_right _ first

theorem top_zero (n r : Nat) : top n r 0 = 0 := Nat.div_eq_of_lt (Nat.mod_lt _ (Nat.two_pow_pos r))

theorem top_lt (le : b ≤ r) : top n r b < 2 ^ b := by
  rw [top, Nat.div_lt_iff_lt_mul (Nat.two_pow_pos _), ← Nat.pow_add, Nat.add_sub_cancel' le]
  exact Nat.mod_lt _ (Nat.two_pow_pos r)

/-- The top `b` bits are the top `c` of them above the next `b - c`. -/
theorem top_add (le : b + c ≤ r) : top n r (b + c) = top n r b * 2 ^ c + top n (r - b) c := by
  have split : 2 ^ (r - b) = 2 ^ (r - (b + c)) * 2 ^ c := by
    rw [← Nat.pow_add, show r - (b + c) + c = r - b by omega]
  have whole : 2 ^ r = 2 ^ (r - b) * 2 ^ b := by
    rw [← Nat.pow_add, Nat.sub_add_cancel (by omega)]
  have high : top n r b = top n r (b + c) / 2 ^ c := by
    rw [top, top, split, Nat.div_div_eq_div_mul]
  have low : top n (r - b) c = top n r (b + c) % 2 ^ c := by
    rw [top, top, show r - b - c = r - (b + c) by omega, split, Nat.mod_mul_right_div_self,
      show 2 ^ r = 2 ^ (r - (b + c)) * 2 ^ (b + c) by
        rw [← Nat.pow_add, Nat.sub_add_cancel le],
      Nat.mod_mul_right_div_self, Nat.mod_mod_of_dvd _ (Nat.pow_dvd_pow 2 (by omega))]
  rw [high, low, Nat.mul_comm]
  exact (Nat.div_add_mod _ _).symm

/-- The first field is in the top bits, and the others at the top of what is below it. -/
theorem top_cons (fit : Fit ((b, v) :: fields)) (le : width ((b, v) :: fields) ≤ r) :
    top n r (width ((b, v) :: fields)) = join ((b, v) :: fields) ↔
      top n r b = v ∧ top n (r - b) (width fields) = join fields := by
  have small := join_lt fun f mem => fit f (List.mem_cons_of_mem _ mem)
  rw [width_cons] at le ⊢
  have smaller : top n (r - b) (width fields) < 2 ^ width fields := top_lt (by omega)
  rw [top_add le, join]
  constructor
  · intro eq
    have positive := Nat.two_pow_pos (width fields)
    have quotient := congrArg (· / 2 ^ width fields) eq
    have remainder := congrArg (· % 2 ^ width fields) eq
    simp only [Nat.mul_comm _ (2 ^ width fields), Nat.mul_add_div positive, Nat.mul_add_mod,
      Nat.div_eq_of_lt small, Nat.div_eq_of_lt smaller, Nat.mod_eq_of_lt small,
      Nat.mod_eq_of_lt smaller, Nat.add_zero] at quotient remainder
    exact ⟨quotient, remainder⟩
  · rintro ⟨rfl, eq⟩
    rw [eq]

end Lib.TopBits
