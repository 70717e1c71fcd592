import Meridian.Discovery.DontScan
import Mathlib.Data.List.Induction
import Mathlib.Tactic.Ring

/-!
# Hexadecimal digits

What the loop of `StrToHex` reads of digits, and the digits that the conversion `%x` of `SPrint`
writes with a width that the value fits.
-/

namespace Meridian.Discovery

open Text

/-- Every character is a hexadecimal digit. -/
def AllHex (s : Str) : Prop := ∀ c ∈ s, (hexDigit c).isSome = true

instance (s : Str) : Decidable (AllHex s) := List.decidableBAll (fun c => (hexDigit c).isSome = true) s

/-- The number that the digits make. -/
def hexValue (s : Str) : Nat := s.foldl (fun value c => value * 16 + (hexDigit c).getD 0) 0

def hexChar (upper : Bool) (d : Nat) : Char :=
  if d < 10 then Char.ofNat (48 + d) else Char.ofNat ((if upper then 55 else 87) + d)

/-- The lowest digits of the value, in capitals or in small letters. -/
def hexField (upper : Bool) : Nat → Nat → Str
  | 0, _ => []
  | width + 1, value => hexField upper width (value / 16) ++ [hexChar upper (value % 16)]

theorem hexDigit_eq_some {c : Char} {d : Nat} :
    hexDigit c = some d ↔
      (48 ≤ c.toNat ∧ c.toNat ≤ 57 ∧ d = c.toNat - 48) ∨ (97 ≤ c.toNat ∧ c.toNat ≤ 102 ∧ d = c.toNat - 87) ∨
        (65 ≤ c.toNat ∧ c.toNat ≤ 70 ∧ d = c.toNat - 55) := by
  have digit : ('0' ≤ c ∧ c ≤ '9') ↔ (48 ≤ c.toNat ∧ c.toNat ≤ 57) := Iff.rfl
  have small : ('a' ≤ c ∧ c ≤ 'f') ↔ (97 ≤ c.toNat ∧ c.toNat ≤ 102) := Iff.rfl
  have capital : ('A' ≤ c ∧ c ≤ 'F') ↔ (65 ≤ c.toNat ∧ c.toNat ≤ 70) := Iff.rfl
  have zero : '0'.toNat = 48 := rfl
  have ten : 'a'.toNat = 97 := rfl
  have ten' : 'A'.toNat = 65 := rfl
  simp only [hexDigit, digit, small, capital, zero, ten, ten']
  split
  · rw [Option.some.injEq]
    omega
  split
  · rw [Option.some.injEq]
    omega
  split
  · rw [Option.some.injEq]
    omega
  · refine iff_of_false (fun impossible => nomatch impossible) ?_
    omega

theorem hexDigit_lt {c : Char} {d : Nat} (h : hexDigit c = some d) : d < 16 := by
  rw [hexDigit_eq_some] at h
  omega

theorem hexDigit_hexChar (upper : Bool) {d : Nat} (h : d < 16) : hexDigit (hexChar upper d) = some d := by
  revert d
  cases upper <;> decide

/-- A digit is one up to the case of its letter. -/
theorem lowerChar_eq_of_hexDigit {c c' : Char} {d : Nat} (h : hexDigit c = some d) (h' : hexDigit c' = some d) :
    lowerChar c = lowerChar c' := by
  rw [hexDigit_eq_some] at h h'
  rw [← Char.toNat_inj, toNat_lowerChar, toNat_lowerChar]
  repeat' split
  all_goals omega

theorem hexDigit_none {c : Char} (h : c.toNat < 48 ∨ 102 < c.toNat) : hexDigit c = none := by
  cases digit : hexDigit c with
  | none => rfl
  | some d =>
    rw [hexDigit_eq_some] at digit
    omega

/-! ### Reading -/

theorem AllHex.head {c : Char} {s : Str} (h : AllHex (c :: s)) : ∃ d, hexDigit c = some d :=
  Option.isSome_iff_exists.mp (h c List.mem_cons_self)

theorem AllHex.tail {c : Char} {s : Str} (h : AllHex (c :: s)) : AllHex s :=
  fun c' mem => h c' (List.mem_cons_of_mem _ mem)

theorem hexLoop_digit {c : Char} {d : Nat} (h : hexDigit c = some d) (left value : Nat) (rest : Str) :
    hexLoop (left + 1) value (c :: rest) = hexLoop left (value * 16 + d) rest := by
  rw [hexLoop, h]

theorem hexLoop_other {c : Char} (h : hexDigit c = none) (left value : Nat) (rest : Str) :
    hexLoop (left + 1) value (c :: rest) = hexLoop (left + 1) value rest := by
  rw [hexLoop, h]

theorem hexLoop_zero (value : Nat) (rest : Str) : hexLoop 0 value rest = value := by
  rw [hexLoop]

/-- So many digits are read one by one. -/
theorem hexLoop_digits {s : Str} (digits : AllHex s) (left value : Nat) (rest : Str) :
    hexLoop (s.length + left) value (s ++ rest) =
      hexLoop left (s.foldl (fun value c => value * 16 + (hexDigit c).getD 0) value) rest := by
  induction s generalizing value with
  | nil => rw [List.length_nil, Nat.zero_add, List.nil_append, List.foldl_nil]
  | cons c s ih =>
    obtain ⟨d, digit⟩ := digits.head
    rw [List.length_cons, Nat.add_right_comm, List.cons_append, hexLoop_digit digit, ih digits.tail,
      List.foldl_cons, digit, Option.getD_some]

theorem hexLoop_field {s : Str} {n : Nat} (digits : AllHex s) (length : s.length = n) (rest : Str) :
    hexLoop n 0 (s ++ rest) = hexValue s := by
  rw [← length, ← Nat.add_zero s.length, hexLoop_digits digits, hexLoop_zero, hexValue]

theorem hexValue_concat {s : Str} {c : Char} {d : Nat} (digit : hexDigit c = some d) :
    hexValue (s ++ [c]) = hexValue s * 16 + d := by
  rw [hexValue, List.foldl_append, List.foldl_cons, List.foldl_nil, digit]
  rfl

theorem hexValue_lt {s : Str} (digits : AllHex s) : hexValue s < 16 ^ s.length := by
  induction s using List.reverseRecOn with
  | nil => exact Nat.one_pos
  | append_singleton s c ih =>
    obtain ⟨d, digit⟩ := Option.isSome_iff_exists.mp (digits c (List.mem_append_right _ List.mem_cons_self))
    have small := hexDigit_lt digit
    have below := ih fun c' mem => digits c' (List.mem_append_left _ mem)
    rw [hexValue_concat digit, List.length_append, List.length_singleton, Nat.pow_succ]
    omega

/-- Where there are digits only, the first ones are read. -/
theorem hexLoop_take {s : Str} (digits : AllHex s) (n : Nat) : hexLoop n 0 s = hexValue (s.take n) := by
  by_cases enough : n ≤ s.length
  · have front : AllHex (s.take n) := fun c mem => digits c (List.take_subset n s mem)
    have length : (s.take n).length = n := List.length_take_of_le enough
    conv_lhs => rw [← List.take_append_drop n s]
    exact hexLoop_field front length _
  · obtain ⟨left, rfl⟩ := Nat.exists_eq_add_of_le (Nat.le_of_not_le enough)
    have read := hexLoop_digits digits left 0 []
    rw [List.append_nil] at read
    rw [read, List.take_of_length_le (Nat.le_add_right _ _), hexValue]
    cases left <;> rw [hexLoop]

theorem hexValue_append {s : Str} (rest : Str) :
    hexValue (s ++ rest) = hexValue s * 16 ^ rest.length + hexValue rest := by
  induction rest using List.reverseRecOn with
  | nil => rw [List.append_nil, List.length_nil, Nat.pow_zero, Nat.mul_one, hexValue, hexValue, List.foldl_nil,
      Nat.add_zero]
  | append_singleton rest c ih =>
    have step (s : Str) : hexValue (s ++ [c]) = hexValue s * 16 + (hexDigit c).getD 0 := by
      rw [hexValue, List.foldl_append]
      rfl
    rw [← List.append_assoc, step, ih, step, List.length_append, List.length_singleton, Nat.pow_succ]
    ring

/-! ### Writing -/

theorem hexField_length (upper : Bool) (width value : Nat) : (hexField upper width value).length = width := by
  induction width generalizing value with
  | zero => rfl
  | succ width ih => rw [hexField, List.length_append, ih, List.length_singleton]

theorem hexField_allHex (upper : Bool) (width value : Nat) : AllHex (hexField upper width value) := by
  induction width generalizing value with
  | zero => exact fun c mem => absurd mem List.not_mem_nil
  | succ width ih =>
    intro c mem
    obtain front | last := List.mem_append.mp mem
    · exact ih _ c front
    · rw [List.mem_singleton.mp last, hexDigit_hexChar upper (Nat.mod_lt _ (by decide))]
      rfl

/-- A value that fits is read back. -/
theorem hexValue_hexField (upper : Bool) {width value : Nat} (fits : value < 16 ^ width) :
    hexValue (hexField upper width value) = value := by
  induction width generalizing value with
  | zero => exact (Nat.lt_one_iff.mp fits).symm
  | succ width ih =>
    rw [Nat.pow_succ] at fits
    rw [hexField, hexValue_concat (hexDigit_hexChar upper (Nat.mod_lt _ (by decide))),
      ih (Nat.div_lt_of_lt_mul (by rwa [Nat.mul_comm]))]
    omega

/-- The digits that were read are written, up to the case of the letters. -/
theorem hexField_hexValue (upper : Bool) {s : Str} (digits : AllHex s) :
    (hexField upper s.length (hexValue s)).map lowerChar = s.map lowerChar := by
  induction s using List.reverseRecOn with
  | nil => rfl
  | append_singleton s c ih =>
    obtain ⟨d, digit⟩ := Option.isSome_iff_exists.mp (digits c (List.mem_append_right _ List.mem_cons_self))
    have small := hexDigit_lt digit
    have front : (hexValue s * 16 + d) / 16 = hexValue s := by omega
    have last : (hexValue s * 16 + d) % 16 = d := by omega
    rw [List.length_append, List.length_singleton, hexField, hexValue_concat digit, front, last, List.map_append,
      ih fun c' mem => digits c' (List.mem_append_left _ mem), List.map_append, List.map_singleton,
      List.map_singleton, lowerChar_eq_of_hexDigit (hexDigit_hexChar upper small) digit]

/-! ### Decimal digits -/

theorem hexDigit_digitChar {d : Nat} (small : d < 10) : hexDigit d.digitChar = some d := by
  revert d
  decide

theorem allHex_toDigits (n : Nat) : AllHex (Nat.toDigits 10 n) := by
  intro c mem
  have digit := Nat.isDigit_of_mem_toDigits (by decide) (Nat.le_refl 10) mem
  rw [Char.isDigit, Bool.and_eq_true, decide_eq_true_iff, decide_eq_true_iff] at digit
  have decimal : '0' ≤ c ∧ c ≤ '9' := digit
  rw [hexDigit, if_pos decimal]
  rfl

/-- Read as hexadecimal digits, the decimal digits of a number are that of its tenth and the last one. -/
theorem hexValue_toDigits (n : Nat) :
    hexValue (Nat.toDigits 10 n) = hexValue (Nat.toDigits 10 (n / 10)) * 16 + n % 10 := by
  by_cases small : n < 10
  · have none : n / 10 = 0 := Nat.div_eq_of_lt small
    rw [none, Nat.toDigits_of_lt_base small, ← List.nil_append [n.digitChar],
      hexValue_concat (hexDigit_digitChar small), Nat.mod_eq_of_lt small]
    rfl
  · rw [Nat.toDigits_of_base_le (by decide) (Nat.le_of_not_lt small),
      hexValue_concat (hexDigit_digitChar (Nat.mod_lt n (by decide)))]

end Meridian.Discovery
