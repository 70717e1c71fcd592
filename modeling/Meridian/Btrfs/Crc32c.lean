import Meridian.Lib.Crc

/-!
# The checksum of names

The model of `filesystems/crc32c.c`, and that the table it sets up gives the same checksum as one bit after the
other.
-/

namespace Meridian.Btrfs

open Lib.Crc

/-- The loop of `reflect`, with so many bits left. -/
def reflectLoop (ref result : BitVec 32) : Nat → BitVec 32
  | 0 => result
  | left + 1 => reflectLoop (ref >>> 1) (if ref.getLsbD 0 then result ||| (1#32 <<< left) else result) left

def reflect (ref : BitVec 32) (len : Nat) : BitVec 32 := reflectLoop ref 0 len

def polynomial : BitVec 32 := 0x1edc6f41

/-- The inner loop of `init_crc32c_table`, with so many steps left. -/
def tableLoop (entry : BitVec 32) : Nat → BitVec 32
  | 0 => entry
  | left + 1 => tableLoop ((entry <<< 1) ^^^ (if entry.getLsbD 31 then polynomial else 0)) left

/-- `crc32c_table`, once it is set up. -/
def crc32cTable (i : BitVec 32) : BitVec 32 := reflect (tableLoop (reflect i 8 <<< 24) 8) 32

/-- A step of `grub_getcrc32c`. -/
def crc32cStep (crc : BitVec 32) (byte : UInt8) : BitVec 32 :=
  (crc >>> 8) ^^^ crc32cTable ((crc &&& 0xff) ^^^ BitVec.ofNat 32 byte.toNat)

/-- `grub_getcrc32c`. -/
def getCrc32c (crc : BitVec 32) (data : List UInt8) : BitVec 32 :=
  data.foldl crc32cStep (crc ^^^ 0xffffffff) ^^^ 0xffffffff

/-- The polynomial with its bits in the order of the register. -/
def reflectedPolynomial : BitVec 32 := 0x82f63b78

theorem crc32cTable_eq : ∀ i : Fin 256,
    crc32cTable (BitVec.ofNat 32 i) = (shiftOnce reflectedPolynomial)^[8] (BitVec.ofNat 32 i) := by
  decide +kernel

theorem byte_bit (byte : UInt8) {i : Nat} (high : 8 ≤ i) : (BitVec.ofNat 32 byte.toNat).getLsbD i = false := by
  have small : byte.toNat < 2 ^ i :=
    Nat.lt_of_lt_of_le byte.toNat_lt (Nat.pow_le_pow_right (by decide : 0 < 2) high)
  rw [BitVec.getLsbD_ofNat, Nat.testBit_lt_two_pow small, Bool.and_false]

/-- The low byte of the register, with a byte of the data. -/
theorem low_byte (crc : BitVec 32) (byte : UInt8) :
    lowBits 8 (crc ^^^ BitVec.ofNat 32 byte.toNat) = (crc &&& 0xff) ^^^ BitVec.ofNat 32 byte.toNat := by
  refine BitVec.eq_of_getLsbD_eq fun i lt => ?_
  have mask : (0xff : BitVec 32).getLsbD i = decide (i < 8) := by
    have ones : (0xff : BitVec 32) = BitVec.ofNat 32 (2 ^ 8 - 1) := rfl
    rw [ones, BitVec.getLsbD_ofNat, Nat.testBit_two_pow_sub_one, decide_eq_true lt, Bool.true_and]
  rw [getLsbD_lowBits, BitVec.getLsbD_xor, BitVec.getLsbD_xor, BitVec.getLsbD_and, mask]
  by_cases low : i < 8
  · rw [decide_eq_true low, Bool.true_and, Bool.and_true]
  · rw [decide_eq_false low, Bool.false_and, Bool.and_false, Bool.false_xor, byte_bit byte (Nat.not_lt.mp low)]

/-- A step is eight shifts. -/
theorem crc32cStep_eq (crc : BitVec 32) (byte : UInt8) :
    crc32cStep crc byte = feed reflectedPolynomial crc (wordBits byte.toNat 8) := by
  have small : byte.toNat < 2 ^ 8 := byte.toNat_lt
  have high : (crc ^^^ BitVec.ofNat 32 byte.toNat) >>> 8 = crc >>> 8 := by
    refine BitVec.eq_of_getLsbD_eq fun i _ => ?_
    rw [BitVec.getLsbD_ushiftRight, BitVec.getLsbD_xor, byte_bit byte (Nat.le_add_right 8 i), Bool.xor_false,
      BitVec.getLsbD_ushiftRight]
  have entry := crc32cTable_eq ⟨(crc ^^^ BitVec.ofNat 32 byte.toNat).toNat % 2 ^ 8, Nat.mod_lt _ (by decide)⟩
  rw [feed_wordBits reflectedPolynomial (by decide), Nat.mod_eq_of_lt small, shifts_split, high, crc32cStep,
    ← low_byte]
  exact congrArg _ entry

/-- The checksum is that of the bits of the data, the low ones of a byte first. -/
theorem getCrc32c_eq (crc : BitVec 32) (data : List UInt8) :
    getCrc32c crc data =
      feed reflectedPolynomial (crc ^^^ 0xffffffff) (data.flatMap fun byte => wordBits byte.toNat 8) ^^^
        0xffffffff := by
  have all (c : BitVec 32) : data.foldl crc32cStep c =
      feed reflectedPolynomial c (data.flatMap fun byte => wordBits byte.toNat 8) := by
    induction data generalizing c with
    | nil => rfl
    | cons byte data ih => rw [List.foldl_cons, ih, crc32cStep_eq, List.flatMap_cons, feed_append]
  rw [getCrc32c, all]

end Meridian.Btrfs
