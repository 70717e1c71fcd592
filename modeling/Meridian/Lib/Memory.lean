import Meridian.Lib.Word

/-!
# A flat memory of bytes

Bytes by 64-bit address, with addresses that wrap. A range of addresses lies inside a region exactly
if it does without wrapping (`inside_iff`), and writes that lie inside one region leave another one,
disjoint from it, as it was.
-/

namespace Lib.Memory

open Lib.Word

abbrev Bytes := Nat → UInt8

/-- The little-endian number of `n` bytes from an address on. -/
def readLe (mem : Bytes) (a : Nat) : Nat → Nat
  | 0 => 0
  | n + 1 => (mem (u64 a)).toNat + 256 * readLe mem (a + 1) n

-- Unfolding a write at a symbolic address never ends, so the writes are irreducible.

/-- The memory with `n` bytes from `src` on moved to `dst`, also when the ranges overlap. -/
@[irreducible] def copy (mem : Bytes) (dst src n : Nat) : Bytes := fun a =>
  if sub64 a dst < n then mem (u64 (src + sub64 a dst)) else mem a

/-- The memory with zeros in `n` bytes from `dst` on. -/
@[irreducible] def fill (mem : Bytes) (dst n : Nat) : Bytes := fun a => if sub64 a dst < n then 0 else mem a

/-- The memory with a little-endian number in `n` bytes from `dst` on. -/
@[irreducible] def writeLe (mem : Bytes) (dst n value : Nat) : Bytes := fun a =>
  if sub64 a dst < n then UInt8.ofNat (value / 256 ^ sub64 a dst) else mem a

theorem readLe_lt (mem : Bytes) (a n : Nat) : readLe mem a n < 256 ^ n := by
  induction n generalizing a with
  | zero => exact Nat.one_pos
  | succ n ih =>
    have first := (mem (u64 a)).toNat_lt
    have rest := ih (a + 1)
    rw [readLe, Nat.pow_succ]
    omega

/-- The `n` bytes from an address on are all in the region. -/
def Inside (a n lo size : Nat) : Prop := ∀ k < n, lo ≤ u64 (a + k) ∧ u64 (a + k) < lo + size

section Inside

variable {a n lo size : Nat}

theorem inside_zero (a lo size : Nat) : Inside a 0 lo size := fun _ h => absurd h (Nat.not_lt_zero _)

/-- A range from an offset into a region is inside it exactly if it ends within it. -/
theorem inside_iff (fits : lo + size ≤ 2 ^ 64) (proper : size < 2 ^ 64) {o : Nat} (word : o < 2 ^ 64) :
    Inside (lo + o) n lo size ↔ n = 0 ∨ o + n ≤ size := by
  unfold Inside u64
  constructor
  · intro h
    by_contra outside
    obtain ⟨some, long⟩ := not_or.mp outside
    by_cases start : o < size
    · -- The first byte past the region's end is in the range.
      have past := h (size - o) (by omega)
      omega
    · have first := h 0 (by omega)
      omega
  · rintro (rfl | within) k below
    · omega
    · omega

theorem Inside.u64 : Inside (u64 a) n lo size ↔ Inside a n lo size := by
  unfold Inside Word.u64
  refine forall_congr' fun k => imp_congr_right fun _ => ?_
  rw [Nat.mod_add_mod]

/-- A part of a range that is inside a region. -/
theorem Inside.part (h : Inside a n lo size) {o m : Nat} (within : o + m ≤ n) :
    Inside (a + o) m lo size := by
  intro k below
  rw [Nat.add_assoc]
  exact h (o + k) (by omega)

end Inside

/-- The memories agree on the region. -/
def Agree (mem mem' : Bytes) (lo size : Nat) : Prop := ∀ a, lo ≤ a → a < lo + size → mem' a = mem a

section Agree

variable {mem mem' mem'' : Bytes} {a n lo size lo' size' : Nat}

theorem Agree.refl (mem : Bytes) (lo size : Nat) : Agree mem mem lo size := fun _ _ _ => rfl

theorem Agree.trans (h : Agree mem mem' lo size) (h' : Agree mem' mem'' lo size) :
    Agree mem mem'' lo size := fun a above below => (h' a above below).trans (h a above below)

/-- What is read inside the region is the same. -/
theorem Agree.readLe_eq (h : Agree mem mem' lo size) (inside : Inside a n lo size) :
    readLe mem' a n = readLe mem a n := by
  induction n generalizing a with
  | zero => rfl
  | succ n ih =>
    have first := inside 0 (Nat.succ_pos n)
    rw [Nat.add_zero] at first
    have rest : Inside (a + 1) n lo size := fun k below => by
      have next := inside (k + 1) (Nat.succ_lt_succ below)
      rwa [← Nat.add_assoc, Nat.add_right_comm] at next
    rw [readLe, readLe, h _ first.1 first.2, ih rest]

/-- An address of one region is none of a range inside a region disjoint from it. -/
theorem not_hit (inside : Inside a n lo' size') (fits : lo + size ≤ 2 ^ 64)
    (disjoint : lo' + size' ≤ lo ∨ lo + size ≤ lo') {x : Nat} (above : lo ≤ x) (below : x < lo + size) :
    ¬sub64 x (u64 a) < n := by
  intro hit
  have member := inside _ hit
  have back : u64 (a + sub64 x (u64 a)) = x := by
    unfold sub64 u64
    omega
  rw [back] at member
  omega

theorem agree_copy {src : Nat} (inside : Inside a n lo' size') (fits : lo + size ≤ 2 ^ 64)
    (disjoint : lo' + size' ≤ lo ∨ lo + size ≤ lo') : Agree mem (copy mem (u64 a) src n) lo size := by
  intro x above below
  unfold copy
  exact if_neg (not_hit inside fits disjoint above below)

theorem agree_fill (inside : Inside a n lo' size') (fits : lo + size ≤ 2 ^ 64)
    (disjoint : lo' + size' ≤ lo ∨ lo + size ≤ lo') : Agree mem (fill mem (u64 a) n) lo size := by
  intro x above below
  unfold fill
  exact if_neg (not_hit inside fits disjoint above below)

end Agree

end Lib.Memory
