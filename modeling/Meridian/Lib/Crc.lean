import Mathlib.Algebra.Group.Nat.Defs
import Mathlib.Logic.Function.Iterate

/-!
# Checksums of remainders

A register of bits is shifted down for each bit that is read, and a polynomial is taken off where a one falls out.
Shifts are linear, so those for several bits are the shifts of the low bits, which a table may have, and the high
bits moved down.
-/

namespace Lib.Crc

variable {w : Nat} (poly : BitVec w)

/-- What is taken off for a bit that falls out. -/
def taken (bit : Bool) : BitVec w := if bit then poly else 0

/-- One shift of the register. -/
def shiftOnce (c : BitVec w) : BitVec w := (c >>> 1) ^^^ taken poly (c.getLsbD 0)

theorem taken_xor (a b : Bool) : taken poly (a ^^ b) = taken poly a ^^^ taken poly b := by
  cases a <;> cases b <;> simp [taken]

theorem shiftOnce_xor (a b : BitVec w) : shiftOnce poly (a ^^^ b) = shiftOnce poly a ^^^ shiftOnce poly b := by
  rw [shiftOnce, BitVec.getLsbD_xor, taken_xor, BitVec.ushiftRight_xor_distrib, shiftOnce, shiftOnce]
  ac_rfl

theorem shifts_xor (n : Nat) (a b : BitVec w) :
    (shiftOnce poly)^[n] (a ^^^ b) = (shiftOnce poly)^[n] a ^^^ (shiftOnce poly)^[n] b := by
  induction n generalizing a b with
  | zero => rfl
  | succ n ih => rw [Function.iterate_succ_apply, shiftOnce_xor, ih]; rfl

/-- High bits only move down. -/
theorem shifts_high {n : Nat} {c : BitVec w} (clear : ∀ i < n, c.getLsbD i = false) :
    (shiftOnce poly)^[n] c = c >>> n := by
  induction n with
  | zero => rfl
  | succ n ih =>
    have low : (c >>> n).getLsbD 0 = false := by
      rw [BitVec.getLsbD_ushiftRight]
      exact clear n (Nat.lt_succ_self n)
    have none : taken poly false = 0#w := rfl
    rw [Function.iterate_succ_apply', ih fun i lt => clear i (Nat.lt_succ_of_lt lt), shiftOnce, low, none,
      BitVec.xor_zero, BitVec.shiftRight_add]

/-- The low bits of a register. -/
def lowBits (n : Nat) (c : BitVec w) : BitVec w := BitVec.ofNat w (c.toNat % 2 ^ n)

theorem getLsbD_lowBits (n : Nat) (c : BitVec w) (i : Nat) :
    (lowBits n c).getLsbD i = (decide (i < n) && c.getLsbD i) := by
  rw [lowBits, BitVec.getLsbD_ofNat, Nat.testBit_mod_two_pow, BitVec.getLsbD]
  by_cases lt : i < w
  · rw [decide_eq_true lt, Bool.true_and]
  · rw [decide_eq_false lt, Bool.false_and, BitVec.testBit_toNat, BitVec.getLsbD_of_ge c i (Nat.not_lt.mp lt),
      Bool.and_false]

/-- Shifts are those of the low bits, and the high bits moved down. -/
theorem shifts_split (n : Nat) (c : BitVec w) :
    (shiftOnce poly)^[n] c = (c >>> n) ^^^ (shiftOnce poly)^[n] (lowBits n c) := by
  have high : ∀ i < n, (c ^^^ lowBits n c).getLsbD i = false := by
    intro i lt
    rw [BitVec.getLsbD_xor, getLsbD_lowBits, decide_eq_true lt, Bool.true_and, Bool.xor_self]
  have down : (c ^^^ lowBits n c) >>> n = c >>> n := by
    refine BitVec.eq_of_getLsbD_eq fun i _ => ?_
    rw [BitVec.getLsbD_ushiftRight, BitVec.getLsbD_xor, getLsbD_lowBits, BitVec.getLsbD_ushiftRight,
      decide_eq_false (Nat.not_lt.mpr (Nat.le_add_right n i)), Bool.false_and, Bool.xor_false]
  have whole : c = (c ^^^ lowBits n c) ^^^ lowBits n c := by
    rw [BitVec.xor_assoc, BitVec.xor_self, BitVec.xor_zero]
  calc (shiftOnce poly)^[n] c
      = (shiftOnce poly)^[n] ((c ^^^ lowBits n c) ^^^ lowBits n c) := congrArg _ whole
    _ = (c >>> n) ^^^ (shiftOnce poly)^[n] (lowBits n c) := by rw [shifts_xor, shifts_high poly high, down]

/-! ### Bits of a message -/

/-- A bit at the low end of a register. -/
def bitAt (w : Nat) (bit : Bool) : BitVec w := BitVec.ofNat w bit.toNat

/-- The register behind some bits. -/
def feed (c : BitVec w) (bits : List Bool) : BitVec w :=
  bits.foldl (fun c bit => shiftOnce poly (c ^^^ bitAt w bit)) c

theorem feed_append (c : BitVec w) (bits bits' : List Bool) :
    feed poly c (bits ++ bits') = feed poly (feed poly c bits) bits' := List.foldl_append

/-- The low bits of a word, the lowest first. -/
def wordBits (b : Nat) : Nat → List Bool
  | 0 => []
  | n + 1 => b.testBit 0 :: wordBits (b / 2) n

theorem ofNat_low (b n : Nat) :
    BitVec.ofNat w (b % 2 ^ (n + 1)) = bitAt w (b.testBit 0) ^^^ BitVec.ofNat w (2 * (b / 2 % 2 ^ n)) := by
  refine BitVec.eq_of_getLsbD_eq fun i lt => ?_
  rw [bitAt, BitVec.getLsbD_xor, BitVec.getLsbD_ofNat, BitVec.getLsbD_ofNat, BitVec.getLsbD_ofNat,
    decide_eq_true lt, Bool.true_and, Bool.true_and, Bool.true_and, Nat.testBit_mod_two_pow]
  cases i with
  | zero =>
    have even : (2 * (b / 2 % 2 ^ n)).testBit 0 = false := by
      rw [Nat.testBit_zero, decide_eq_false]
      omega
    rw [even, Bool.xor_false, decide_eq_true (Nat.succ_pos n), Bool.true_and]
    cases b.testBit 0 <;> rfl
  | succ i =>
    have none : (b.testBit 0).toNat.testBit (i + 1) = false := by
      refine Nat.testBit_lt_two_pow (Nat.lt_of_lt_of_le (Bool.toNat_lt _) ?_)
      exact Nat.pow_le_pow_right (by decide : 0 < 2) (Nat.le_add_left 1 i)
    have next : decide (i + 1 < n + 1) = decide (i < n) := decide_eq_decide.mpr Nat.succ_lt_succ_iff
    rw [none, Bool.false_xor, next, Nat.testBit_succ, Nat.testBit_succ, Nat.mul_div_cancel_left _ (by decide),
      Nat.testBit_mod_two_pow]

theorem shiftOnce_even {m : Nat} (small : 2 * m < 2 ^ w) :
    shiftOnce poly (BitVec.ofNat w (2 * m)) = BitVec.ofNat w m := by
  have low : (BitVec.ofNat w (2 * m)).getLsbD 0 = false := by
    rw [BitVec.getLsbD_ofNat, Nat.testBit_zero, decide_eq_false (by omega : ¬ 2 * m % 2 = 1), Bool.and_false]
  have none : taken poly false = 0#w := rfl
  rw [shiftOnce, low, none, BitVec.xor_zero]
  refine BitVec.eq_of_toNat_eq ?_
  rw [BitVec.toNat_ushiftRight, BitVec.toNat_ofNat, BitVec.toNat_ofNat, Nat.mod_eq_of_lt small,
    Nat.mod_eq_of_lt (by omega), Nat.shiftRight_eq_div_pow, Nat.pow_one, Nat.mul_div_cancel_left _ (by decide)]

/-- Bits are fed one after the other, or all at once. -/
theorem feed_wordBits {n : Nat} (le : n ≤ w) (b : Nat) (c : BitVec w) :
    feed poly c (wordBits b n) = (shiftOnce poly)^[n] (c ^^^ BitVec.ofNat w (b % 2 ^ n)) := by
  induction n generalizing b c with
  | zero =>
    rw [Nat.pow_zero, Nat.mod_one]
    exact (BitVec.xor_zero).symm
  | succ n ih =>
    have small : 2 * (b / 2 % 2 ^ n) < 2 ^ w := by
      have below := Nat.mod_lt (b / 2) (Nat.two_pow_pos n)
      have fits := Nat.pow_le_pow_right (by decide : 0 < 2) le
      rw [Nat.pow_succ] at fits
      omega
    calc feed poly c (wordBits b (n + 1))
        = feed poly (shiftOnce poly (c ^^^ bitAt w (b.testBit 0))) (wordBits (b / 2) n) := rfl
      _ = (shiftOnce poly)^[n] (shiftOnce poly (c ^^^ bitAt w (b.testBit 0)) ^^^
            BitVec.ofNat w (b / 2 % 2 ^ n)) := ih (Nat.le_of_succ_le le) _ _
      _ = (shiftOnce poly)^[n + 1] (c ^^^ BitVec.ofNat w (b % 2 ^ (n + 1))) := by
        rw [Function.iterate_succ_apply, ofNat_low, ← BitVec.xor_assoc, shiftOnce_xor poly _ (BitVec.ofNat w _),
          shiftOnce_even poly small]

end Lib.Crc
