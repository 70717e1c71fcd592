import Mathlib.Algebra.BigOperators.Group.Finset.Basic
import Mathlib.Algebra.Group.Hom.End

/-!
# Two parities

Words are added without carries, so each is its own inverse, and there is a map whose powers take one word to every
other word but zero. The data words have two parities: their sum, and their sum with each word scaled by the power
of its number. One lost word is found from either parity, and two from both.
-/

namespace Lib.TwoErasures

open Finset (range)

/-- Words, and the map that scales them. -/
structure Scale (V : Type) [AddCommGroup V] where
  x : AddMonoid.End V
  one : V
  order : Nat
  /-- The power that takes `one` to a word. -/
  log : V → Nat
  add_self : ∀ v : V, v + v = 0
  pow_order : x ^ order = 1
  pow_log : ∀ v, v ≠ 0 → (x ^ log v) one = v
  pow_ne_one : ∀ d, 0 < d → d < order → (x ^ d) one ≠ one

variable {V : Type} [AddCommGroup V] (s : Scale V)

/-! ### Powers -/

namespace Scale

include s in
theorem add_add_cancel (v w : V) : v + w + w = v := by rw [add_assoc, s.add_self, add_zero]

include s in
theorem eq_of_add_eq_zero {v w : V} (zero : v + w = 0) : v = w := by
  rw [← add_add_cancel s v w, zero, zero_add]

theorem pow_mod (n : Nat) : s.x ^ (n % s.order) = s.x ^ n := by
  conv_rhs => rw [← Nat.mod_add_div n s.order, pow_add, pow_mul, s.pow_order, one_pow, mul_one]

theorem pow_congr {m n : Nat} (same : m % s.order = n % s.order) : s.x ^ m = s.x ^ n := by
  rw [← s.pow_mod m, same, s.pow_mod]

theorem pow_pow (m n : Nat) (v : V) : (s.x ^ m) ((s.x ^ n) v) = (s.x ^ (m + n)) v := by
  rw [pow_add]
  rfl

/-- A power is undone by one that makes up for it. -/
theorem pow_undo {m n : Nat} (whole : (m + n) % s.order = 0) (v : V) : (s.x ^ m) ((s.x ^ n) v) = v := by
  rw [s.pow_pow, ← s.pow_mod, whole, pow_zero]
  rfl

/-- Where the power takes one to another word, its sum with the word that it scales is a power again. -/
theorem pow_add_self {d : Nat} (other : (s.x ^ d) s.one ≠ s.one) (v : V) :
    (s.x ^ d) v + v = (s.x ^ s.log ((s.x ^ d) s.one + s.one)) v := by
  by_cases zero : v = 0
  · rw [zero, map_zero, map_zero, add_zero]
  · have here := s.pow_log _ (mt (eq_of_add_eq_zero s) other)
    generalize s.log ((s.x ^ d) s.one + s.one) = l at here ⊢
    rw [← s.pow_log v zero, s.pow_pow, s.pow_pow, Nat.add_comm d, Nat.add_comm l, ← s.pow_pow, ← s.pow_pow,
      here, map_add]

/-- Of two words, scaled by `a` and `b` and added up, the first is found with the help of their sum. -/
theorem first_of_two {a b c d : Nat} (apart : (a + d) % s.order = b % s.order)
    (other : (s.x ^ d) s.one ≠ s.one)
    (makesUp : (c + a + s.log ((s.x ^ d) s.one + s.one)) % s.order = 0) (v w : V) :
    (s.x ^ c) ((s.x ^ a) v + (s.x ^ b) w) + (s.x ^ (b + c)) (v + w) = v := by
  have shift : s.x ^ (b + c) = s.x ^ (c + a + d) := by
    refine s.pow_congr ?_
    rw [Nat.add_assoc c, Nat.add_comm c, Nat.add_mod b, Nat.add_mod (a + d), apart]
  calc (s.x ^ c) ((s.x ^ a) v + (s.x ^ b) w) + (s.x ^ (b + c)) (v + w)
      = (s.x ^ (c + a)) v + (s.x ^ (b + c)) w + ((s.x ^ (b + c)) v + (s.x ^ (b + c)) w) := by
        rw [map_add, map_add, s.pow_pow, s.pow_pow, Nat.add_comm c b]
    _ = (s.x ^ (c + a)) v + (s.x ^ (b + c)) v := by rw [add_add_add_comm, s.add_self, add_zero]
    _ = (s.x ^ (c + a)) ((s.x ^ d) v + v) := by rw [map_add, shift, s.pow_pow, add_comm]
    _ = v := by rw [s.pow_add_self other, s.pow_undo makesUp]

end Scale

/-! ### Sums with words left out -/

section
variable {n : Nat} {data found : Nat → V}

include s in
theorem sum_lost_one {a : Nat} (lt : a < n) (lost : found a = 0)
    (same : ∀ i < n, i ≠ a → found i = data i) : ∑ i ∈ range n, found i + ∑ i ∈ range n, data i = data a := by
  rw [← Finset.sum_add_distrib, Finset.sum_eq_single_of_mem a (Finset.mem_range.mpr lt), lost, zero_add]
  intro i mem ne
  rw [same i (Finset.mem_range.mp mem) ne, s.add_self]

include s in
theorem sum_lost_two {a b : Nat} (lt : a < n) (lt' : b < n) (apart : a ≠ b) (lost : found a = 0)
    (lost' : found b = 0) (same : ∀ i < n, i ≠ a → i ≠ b → found i = data i) :
    ∑ i ∈ range n, found i + ∑ i ∈ range n, data i = data a + data b := by
  rw [← Finset.sum_add_distrib,
    Finset.sum_eq_add_of_mem a b (Finset.mem_range.mpr lt) (Finset.mem_range.mpr lt') apart,
    lost, lost', zero_add, zero_add]
  rintro i mem ⟨ne, ne'⟩
  rw [same i (Finset.mem_range.mp mem) ne ne', s.add_self]

/-- The sum with each word scaled by the power of its number. -/
def weighted (n : Nat) (words : Nat → V) : V := ∑ i ∈ range n, (s.x ^ i) (words i)

theorem weighted_lost_one {a : Nat} (lt : a < n) (lost : found a = 0)
    (same : ∀ i < n, i ≠ a → found i = data i) :
    weighted s n found + weighted s n data = (s.x ^ a) (data a) :=
  sum_lost_one s lt (by rw [lost, map_zero]) fun i lt ne => by rw [same i lt ne]

theorem weighted_lost_two {a b : Nat} (lt : a < n) (lt' : b < n) (apart : a ≠ b) (lost : found a = 0)
    (lost' : found b = 0) (same : ∀ i < n, i ≠ a → i ≠ b → found i = data i) :
    weighted s n found + weighted s n data = (s.x ^ a) (data a) + (s.x ^ b) (data b) :=
  sum_lost_two s lt lt' apart (by rw [lost, map_zero]) (by rw [lost', map_zero])
    fun i lt ne ne' => by rw [same i lt ne ne']

/-- One lost word, from the weighted parity. -/
theorem recover_weighted {a c : Nat} (lt : a < n) (lost : found a = 0) (same : ∀ i < n, i ≠ a → found i = data i)
    (makesUp : (c + a) % s.order = 0) : (s.x ^ c) (weighted s n found + weighted s n data) = data a := by
  rw [weighted_lost_one s lt lost same, s.pow_undo makesUp]

/-- The first of two lost words, from both parities. -/
theorem recover_two {a b c d : Nat} (lt : a < n) (lt' : b < n) (ne : a ≠ b) (lost : found a = 0)
    (lost' : found b = 0) (same : ∀ i < n, i ≠ a → i ≠ b → found i = data i) (apart : (a + d) % s.order = b % s.order)
    (other : (s.x ^ d) s.one ≠ s.one) (makesUp : (c + a + s.log ((s.x ^ d) s.one + s.one)) % s.order = 0) :
    (s.x ^ c) (weighted s n found + weighted s n data) +
      (s.x ^ (b + c)) (∑ i ∈ range n, found i + ∑ i ∈ range n, data i) = data a := by
  rw [weighted_lost_two s lt lt' ne lost lost' same, sum_lost_two s lt lt' ne lost lost' same]
  exact s.first_of_two apart other makesUp (data a) (data b)

end

end Lib.TwoErasures
