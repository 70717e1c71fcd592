import Mathlib.Data.List.Basic

/-!
# Runs and literals behind a marker

Bytes are packed as packets: a literal of up to 128 bytes behind its length less one, or a byte that is
repeated 3 to 130 times behind its count and 125. `unpack` reads any bytes, also where they are cut off, and
what packets stand for is read back from their bytes.
-/

namespace Lib.RunLength

/-- A packet fits its marker. -/
inductive Packet where
  | literal (items : List UInt8) (nonempty : items ≠ []) (most : items.length ≤ 128)
  | run (count : Nat) (item : UInt8) (least : 3 ≤ count) (most : count ≤ 130)

def Packet.items : Packet → List UInt8
  | .literal items _ _ => items
  | .run count item _ _ => List.replicate count item

def Packet.bytes : Packet → List UInt8
  | .literal items _ _ => UInt8.ofNat (items.length - 1) :: items
  | .run count item _ _ => [UInt8.ofNat (count + 125), item]

/-- What the packets stand for. -/
def expand (packets : List Packet) : List UInt8 := packets.flatMap Packet.items

def pack (packets : List Packet) : List UInt8 := packets.flatMap Packet.bytes

/-- What bytes stand for. A literal ends at the last byte, and a marker there says nothing. -/
def unpack : List UInt8 → List UInt8
  | [] => []
  | marker :: rest =>
    if marker < 128 then rest.take (marker.toNat + 1) ++ unpack (rest.drop (marker.toNat + 1))
    else
      match rest with
      | [] => []
      | item :: rest => List.replicate (marker.toNat - 125) item ++ unpack rest
termination_by bytes => bytes.length

theorem unpack_nil : unpack [] = [] := by rw [unpack]

theorem unpack_literal {marker : UInt8} (low : marker < 128) (rest : List UInt8) :
    unpack (marker :: rest) = rest.take (marker.toNat + 1) ++ unpack (rest.drop (marker.toNat + 1)) := by
  rw [unpack.eq_def]
  exact if_pos low

theorem unpack_run {marker : UInt8} (high : ¬marker < 128) (item : UInt8) (rest : List UInt8) :
    unpack (marker :: item :: rest) = List.replicate (marker.toNat - 125) item ++ unpack rest := by
  rw [unpack.eq_def]
  exact if_neg high

theorem unpack_marker {marker : UInt8} (high : ¬marker < 128) : unpack [marker] = [] := by
  rw [unpack.eq_def]
  exact if_neg high

theorem lt_128_iff (marker : UInt8) : marker < 128 ↔ marker.toNat < 128 := Iff.rfl

theorem toNat_marker {n : Nat} (small : n < 256) : (UInt8.ofNat n).toNat = n := UInt8.toNat_ofNat_of_lt' small

/-- A packet is read first. -/
theorem unpack_bytes (packet : Packet) (rest : List UInt8) :
    unpack (packet.bytes ++ rest) = packet.items ++ unpack rest := by
  cases packet with
  | literal items nonempty most =>
    have positive := List.length_pos_iff.mpr nonempty
    have marker : (UInt8.ofNat (items.length - 1)).toNat = items.length - 1 := toNat_marker (by omega)
    have low : UInt8.ofNat (items.length - 1) < 128 := by
      rw [lt_128_iff, marker]
      omega
    have count : items.length - 1 + 1 = items.length := by omega
    rw [Packet.bytes, List.cons_append, unpack_literal low, marker, count, List.take_left, List.drop_left]
    rfl
  | run count item least most =>
    have marker : (UInt8.ofNat (count + 125)).toNat = count + 125 := toNat_marker (by omega)
    have high : ¬UInt8.ofNat (count + 125) < 128 := by
      rw [lt_128_iff, marker]
      omega
    rw [Packet.bytes, List.cons_append, List.cons_append, List.nil_append, unpack_run high, marker,
      Nat.add_sub_cancel]
    rfl

theorem unpack_pack (packets : List Packet) : unpack (pack packets) = expand packets := by
  induction packets with
  | nil => exact unpack_nil
  | cons packet packets ih =>
    have bytes : pack (packet :: packets) = packet.bytes ++ pack packets := List.flatMap_cons
    rw [bytes, unpack_bytes, ih]
    exact List.flatMap_cons.symm

theorem pack_append (packets more : List Packet) : pack (packets ++ more) = pack packets ++ pack more :=
  List.flatMap_append

theorem expand_append (packets more : List Packet) :
    expand (packets ++ more) = expand packets ++ expand more :=
  List.flatMap_append

end Lib.RunLength
