import Meridian.Lib.Memory
import Mathlib.Data.List.Induction

/-!
# A series of writes

Numbers of one width written one after another to a flat memory. A byte that one of them covers is that
of the last one that covers it (`writeAll_last`), so all of them are in memory afterwards exactly if those
that meet agree (`writeAll_hold_iff`).
-/

namespace Lib.Memory

open Lib.Word

/-- A number and the address that it is written to. -/
@[ext]
structure Write where
  dst : Nat
  value : Nat
  deriving DecidableEq, Repr

variable {n : Nat} {mem mem' : Bytes} {w : Write} {ws : List Write} {a : Nat}

/-- The write changes this byte. -/
def Write.Covers (n : Nat) (w : Write) (a : Nat) : Prop := sub64 a w.dst < n

/-- The byte that the write leaves at an address. -/
def Write.byte (w : Write) (a : Nat) : UInt8 := UInt8.ofNat (w.value / 256 ^ sub64 a w.dst)

def writeAll (n : Nat) (mem : Bytes) (ws : List Write) : Bytes :=
  ws.foldl (fun mem w => writeLe mem w.dst n w.value) mem

/-- The number is in memory. -/
def Write.Holds (n : Nat) (w : Write) (mem : Bytes) : Prop := ∀ a, w.Covers n a → mem a = w.byte a

/-- The writes leave the same bytes where they meet. -/
def WritesAgree (n : Nat) (ws : List Write) : Prop :=
  ∀ w ∈ ws, ∀ w' ∈ ws, ∀ a, w.Covers n a → w'.Covers n a → w.byte a = w'.byte a

theorem writeLe_covered (covered : w.Covers n a) : writeLe mem w.dst n w.value a = w.byte a := by
  unfold writeLe
  exact if_pos covered

theorem writeLe_other (other : ¬ w.Covers n a) : writeLe mem w.dst n w.value a = mem a := by
  unfold writeLe
  exact if_neg other

theorem writeAll_concat (mem : Bytes) (ws : List Write) (w : Write) :
    writeAll n mem (ws ++ [w]) = writeLe (writeAll n mem ws) w.dst n w.value := by
  rw [writeAll, List.foldl_append]
  rfl

theorem writeAll_other (other : ∀ w ∈ ws, ¬ w.Covers n a) : writeAll n mem ws a = mem a := by
  induction ws using List.reverseRecOn with
  | nil => rfl
  | append_singleton ws w ih =>
    rw [writeAll_concat, writeLe_other (other w (List.mem_append_right _ (List.mem_singleton_self _)))]
    exact ih fun w' mem => other w' (List.mem_append_left _ mem)

theorem writeAll_last (covered : ∃ w ∈ ws, w.Covers n a) :
    ∃ w ∈ ws, w.Covers n a ∧ writeAll n mem ws a = w.byte a := by
  induction ws using List.reverseRecOn with
  | nil =>
    obtain ⟨w, impossible, _⟩ := covered
    exact (List.not_mem_nil impossible).elim
  | append_singleton ws w ih =>
    rw [writeAll_concat]
    by_cases last : w.Covers n a
    · exact ⟨w, List.mem_append_right _ (List.mem_singleton_self _), last, writeLe_covered last⟩
    · obtain ⟨w', inside, hits⟩ := covered
      have earlier : ∃ w ∈ ws, w.Covers n a := by
        rcases List.mem_append.mp inside with old | new
        · exact ⟨w', old, hits⟩
        · rw [List.mem_singleton.mp new] at hits
          exact absurd hits last
      obtain ⟨found, foundIn, foundHits, eq⟩ := ih earlier
      refine ⟨found, List.mem_append_left _ foundIn, foundHits, ?_⟩
      rw [writeLe_other last]
      exact eq

theorem writeAll_hold_iff (mem : Bytes) (ws : List Write) :
    (∀ w ∈ ws, w.Holds n (writeAll n mem ws)) ↔ WritesAgree n ws := by
  constructor
  · intro holds w inside w' inside' a covered covered'
    exact (holds w inside a covered).symm.trans (holds w' inside' a covered')
  · intro agree w inside a covered
    obtain ⟨last, lastIn, lastHits, eq⟩ := @writeAll_last _ mem _ _ ⟨w, inside, covered⟩
    exact eq.trans (agree last lastIn w inside a lastHits covered)

/-- What is read outside the changed bytes is the same. -/
theorem readLe_congr {addr : Nat} (same : ∀ i < n, mem' (u64 (addr + i)) = mem (u64 (addr + i))) :
    readLe mem' addr n = readLe mem addr n := by
  induction n generalizing addr with
  | zero => rfl
  | succ n ih =>
    have first := same 0 (Nat.succ_pos n)
    have rest := @ih (addr + 1) fun i lt => by
      have next := same (i + 1) (Nat.succ_lt_succ lt)
      rwa [Nat.add_comm i 1, ← Nat.add_assoc] at next
    rw [readLe, readLe, rest]
    rw [Nat.add_zero] at first
    rw [first]

end Lib.Memory
