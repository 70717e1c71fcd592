import Mathlib.Data.List.GetD
import Mathlib.Data.List.TakeWhile
import Mathlib.Logic.Function.Basic
import Meridian.Lib.Result

/-!
# Strings that end with a NUL

A string is its bytes before the NUL. It is read byte by byte, up to the NUL and never behind it, and it is
written into a buffer of a known size.
-/

namespace Lib.Terminated

inductive Fault where
  | pastNul
  | outOfBuffer
  | noFuel
  deriving DecidableEq, Repr

structure CString where
  bytes : List UInt8
  ended : 0 ∉ bytes

/-- The string at the start of a list of bytes. -/
def CString.ofBytes (l : List UInt8) : CString where
  bytes := l.takeWhile fun b => b ≠ 0
  ended := by
    intro mem
    have kept := List.mem_takeWhile_imp mem
    exact absurd rfl (of_decide_eq_true kept)

/-- `s[i]`. -/
def CString.read (s : CString) (i : Nat) : Except Fault UInt8 :=
  match (s.bytes ++ [0])[i]? with
  | some b => .ok b
  | none => .error .pastNul

/-- The bytes of a string, and NULs behind them. -/
def CString.byte (s : CString) (i : Nat) : UInt8 := s.bytes.getD i 0

/-- `dst[j] = b` for a buffer of `cap` bytes. -/
def store (cap : Nat) (dst : Nat → UInt8) (j : Nat) (b : UInt8) : Except Fault (Nat → UInt8) :=
  if j < cap then .ok (Function.update dst j b) else .error .outOfBuffer

/-- The string that a buffer holds. -/
def held (cap : Nat) (dst : Nat → UInt8) : CString := .ofBytes ((List.range cap).map dst)

section Reading

variable {s : CString}

theorem byte_lt {i : Nat} (h : i < s.bytes.length) : s.byte i = s.bytes[i] := List.getD_eq_getElem _ _ h

theorem byte_eq_zero_iff {i : Nat} : s.byte i = 0 ↔ s.bytes.length ≤ i := by
  constructor
  · intro zero
    by_contra inside
    have low := Nat.lt_of_not_le inside
    rw [byte_lt low] at zero
    exact s.ended (zero ▸ List.getElem_mem low)
  · exact fun past => List.getD_eq_default _ _ past

/-- Up to its NUL, a string is read. -/
theorem read_le {i : Nat} (h : i ≤ s.bytes.length) : s.read i = .ok (s.byte i) := by
  rcases Nat.eq_or_lt_of_le h with rfl | low
  · rw [CString.read, List.getElem?_append_right h, Nat.sub_self, byte_eq_zero_iff.mpr h]
    rfl
  · rw [CString.read, List.getElem?_append_left low, List.getElem?_eq_getElem low, byte_lt low]

theorem read_end : s.read s.bytes.length = .ok 0 := by
  rw [read_le (Nat.le_refl _), byte_eq_zero_iff.mpr (Nat.le_refl _)]

theorem read_past {i : Nat} (h : s.bytes.length < i) : s.read i = .error .pastNul := by
  rw [CString.read, List.getElem?_eq_none (by rw [List.length_append, List.length_singleton]; omega)]

theorem read_at {pre rest : List UInt8} {b : UInt8} (h : s.bytes = pre ++ b :: rest) :
    s.read pre.length = .ok b := by
  have inside : pre.length < s.bytes.length := by
    rw [h, List.length_append, List.length_cons]
    omega
  rw [read_le (Nat.le_of_lt inside), byte_lt inside]
  simp only [h, List.getElem_append_right (Nat.le_refl _), Nat.sub_self, List.getElem_cons_zero]

theorem read_behind {pre rest : List UInt8} {b : UInt8} (mid : List UInt8)
    (h : s.bytes = pre ++ (mid ++ b :: rest)) : s.read (pre.length + mid.length) = .ok b := by
  rw [← List.length_append]
  exact read_at (by rw [h, List.append_assoc])

end Reading

/-- A buffer that holds a string's bytes and a NUL behind them holds the string. -/
theorem held_eq {cap n : Nat} {dst : Nat → UInt8} (fits : n < cap) (filled : ∀ j < n, dst j ≠ 0)
    (nul : dst n = 0) : (held cap dst).bytes = (List.range n).map dst := by
  obtain ⟨more, rfl⟩ : ∃ more, cap = n + (more + 1) := ⟨cap - n - 1, by omega⟩
  have stops : ((List.range (more + 1)).map fun k => dst (n + k)).takeWhile (fun b => decide (b ≠ 0)) = [] := by
    rw [List.range_succ_eq_map, List.map_cons, Nat.add_zero, nul]
    rfl
  show ((List.range (n + (more + 1))).map dst).takeWhile _ = _
  rw [List.range_add, List.map_append, List.map_map, List.takeWhile_append_of_pos, Function.comp_def, stops,
    List.append_nil]
  intro b mem
  obtain ⟨j, low, rfl⟩ := List.mem_map.mp mem
  exact decide_eq_true (filled j (List.mem_range.mp low))

end Lib.Terminated
