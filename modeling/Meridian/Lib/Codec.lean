import Mathlib.Data.Nat.Basic
import Mathlib.Algebra.Group.Nat.Defs

/-!
# Little-endian numbers

A number in a fixed count of bytes, lowest byte first, and back.
-/

namespace Lib.Codec

def toLe : Nat → Nat → List UInt8
  | 0, _ => []
  | n + 1, value => UInt8.ofNat value :: toLe n (value / 256)

def ofLe : List UInt8 → Nat
  | [] => 0
  | b :: bytes => b.toNat + 256 * ofLe bytes

@[simp] theorem length_toLe (n value : Nat) : (toLe n value).length = n := by
  induction n generalizing value with
  | zero => rfl
  | succ n ih => rw [toLe, List.length_cons, ih]

theorem ofLe_toLe {n value : Nat} (h : value < 256 ^ n) : ofLe (toLe n value) = value := by
  induction n generalizing value with
  | zero =>
    rw [Nat.pow_zero] at h
    exact (Nat.lt_one_iff.mp h).symm
  | succ n ih =>
    rw [Nat.pow_succ] at h
    have rest : ofLe (toLe n (value / 256)) = value / 256 := ih (by omega)
    have low : (UInt8.ofNat value).toNat = value % 256 := UInt8.toNat_ofNat
    rw [toLe, ofLe, rest, low]
    omega

theorem ofLe_lt (bytes : List UInt8) : ofLe bytes < 256 ^ bytes.length := by
  induction bytes with
  | nil => exact Nat.one_pos
  | cons b bytes ih =>
    have low := b.toNat_lt
    rw [ofLe, List.length_cons, Nat.pow_succ]
    omega

theorem toLe_ofLe (bytes : List UInt8) : toLe bytes.length (ofLe bytes) = bytes := by
  induction bytes with
  | nil => rfl
  | cons b bytes ih =>
    have low := b.toNat_lt
    have head : UInt8.ofNat (b.toNat + 256 * ofLe bytes) = b := by
      apply UInt8.toNat_inj.mp
      rw [UInt8.toNat_ofNat']
      omega
    have tail : (b.toNat + 256 * ofLe bytes) / 256 = ofLe bytes := by omega
    rw [List.length_cons, toLe, ofLe, head, tail, ih]

/-- The bytes from a position on are the quotient. -/
theorem ofLe_drop (bytes : List UInt8) (i : Nat) : ofLe (bytes.drop i) = ofLe bytes / 256 ^ i := by
  induction i generalizing bytes with
  | zero => rw [List.drop_zero, Nat.pow_zero, Nat.div_one]
  | succ i ih =>
    cases bytes with
    | nil => rw [List.drop_nil, ofLe, Nat.zero_div]
    | cons b bytes =>
      have low := b.toNat_lt
      have rest : (b.toNat + 256 * ofLe bytes) / 256 = ofLe bytes := by omega
      rw [List.drop_succ_cons, ih, ofLe, Nat.pow_succ', ← Nat.div_div_eq_div_mul, rest]

/-- The bytes before a position are the remainder. -/
theorem ofLe_take (bytes : List UInt8) (n : Nat) : ofLe (bytes.take n) = ofLe bytes % 256 ^ n := by
  induction n generalizing bytes with
  | zero => rw [List.take_zero, Nat.pow_zero, Nat.mod_one, ofLe]
  | succ n ih =>
    cases bytes with
    | nil => rw [List.take_nil, ofLe, Nat.zero_mod]
    | cons b bytes =>
      have low := b.toNat_lt
      have first : (b.toNat + 256 * ofLe bytes) % 256 = b.toNat := by omega
      have rest : (b.toNat + 256 * ofLe bytes) / 256 = ofLe bytes := by omega
      rw [List.take_succ_cons, ofLe, ofLe, ih, Nat.pow_succ', Nat.mod_mul, first, rest]

end Lib.Codec
