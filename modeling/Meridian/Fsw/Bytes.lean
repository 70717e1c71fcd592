import Meridian.Lib.Codec

/-!
# Reading a buffer

The model of the byte readers of `filesystems/fsw_bytes.h`, of the status codes of `fsw_core.h` and
of what `fsw_block_get` delivers. A read outside a buffer, and a loop that does not end, are faults.
-/

namespace Meridian.Fsw

open Lib.Codec

inductive FswStatus where
  | outOfMemory | ioError | unsupported | notFound | volumeCorrupted | unknownError
  deriving DecidableEq, Repr

inductive Fault where
  | outOfBounds | outOfFuel
  | status (status : FswStatus)
  deriving DecidableEq, Repr

abbrev FswM := Except Fault

def fail {α : Type} (status : FswStatus) : FswM α := .error (.status status)

/-- The bytes from a position on. -/
def bytesAt (buf : List UInt8) (pos n : Nat) : FswM (List UInt8) :=
  if pos + n ≤ buf.length then .ok ((buf.drop pos).take n) else .error .outOfBounds

/-- `fsw_le16`, `fsw_le32` and `fsw_le64`, by their number of bytes. -/
def le (buf : List UInt8) (pos n : Nat) : FswM Nat :=
  match bytesAt buf pos n with
  | .ok bytes => .ok (ofLe bytes)
  | .error fault => .error fault

def u32 (n : Nat) : Nat := n % 2 ^ 32
def u64 (n : Nat) : Nat := n % 2 ^ 64

def sectorSize : Nat := 512

/-- A block of the size that `fsw_set_blocksize` was given. -/
structure Block where
  bytes : List UInt8
  size : bytes.length = sectorSize

/-- What `fsw_block_get` delivers, or the status that it fails with. -/
abbrev Blocks := Nat → Except FswStatus Block

/-- No read is out of bounds, and no loop runs on. -/
def Safe {α : Type} (run : FswM α) : Prop := run ≠ .error .outOfBounds ∧ run ≠ .error .outOfFuel

/-! ### Safe steps -/

section

variable {α β : Type} {run : FswM α} {f : α → FswM β}

theorem Safe.ok (a : α) : Safe (.ok a : FswM α) := ⟨nofun, nofun⟩

theorem Safe.pure (a : α) : Safe (pure a : FswM α) := Safe.ok a

theorem Safe.fail (status : FswStatus) : Safe (fail status : FswM α) := ⟨nofun, nofun⟩

theorem Safe.bind (first : Safe run) (rest : ∀ a, run = .ok a → Safe (f a)) : Safe (run >>= f) := by
  cases outcome : run with
  | ok a => exact rest a outcome
  | error fault =>
    rw [outcome] at first
    constructor
    · intro impossible
      obtain rfl := Except.error.inj impossible
      exact first.1 rfl
    · intro impossible
      obtain rfl := Except.error.inj impossible
      exact first.2 rfl

theorem Safe.ite {c : Prop} [Decidable c] {run' : FswM α} (yes : c → Safe run) (no : ¬ c → Safe run') :
    Safe (if c then run else run') := by
  split
  · rename_i holds
    exact yes holds
  · rename_i fails
    exact no fails

/-- A check that fails where the condition holds. -/
theorem Safe.guard {c : Prop} [Decidable c] {status : FswStatus} (passed : ¬ c → Safe run) :
    Safe (if c then Fsw.fail status else run) :=
  Safe.ite (fun _ => Safe.fail status) passed

end

variable {buf : List UInt8} {pos n : Nat}

theorem bytesAt_ok (inside : pos + n ≤ buf.length) :
    bytesAt buf pos n = .ok ((buf.drop pos).take n) := if_pos inside

theorem safe_bytesAt (inside : pos + n ≤ buf.length) : Safe (bytesAt buf pos n) := by
  rw [bytesAt_ok inside]
  exact Safe.ok _

theorem safe_le (inside : pos + n ≤ buf.length) : Safe (le buf pos n) := by
  rw [le, bytesAt_ok inside]
  exact Safe.ok _

/-- A value that was read has as many bits as its bytes. -/
theorem le_lt {value : Nat} (read : le buf pos n = .ok value) : value < 256 ^ n := by
  rw [le, bytesAt] at read
  split at read
  · rename_i bytes inside
    split at inside
    · obtain rfl := Except.ok.inj inside
      obtain rfl := Except.ok.inj read
      apply Nat.lt_of_lt_of_le (ofLe_lt _)
      apply Nat.pow_le_pow_right (by omega)
      rw [List.length_take]
      exact Nat.min_le_left _ _
    · cases inside
  · cases read

end Meridian.Fsw
