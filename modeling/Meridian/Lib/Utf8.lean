import Mathlib.Data.List.Basic
import Mathlib.Data.Nat.Bitwise

/-!
# UTF-8 read off by lead bytes

A reader that takes the length of a character from its first byte alone, up to three bytes, and takes
the bytes behind it as they are. It reads every string, valid or not, unless the string ends inside of a
character; on the encodings of characters up to U+FFFF it reads these characters.
-/

namespace Lib.Utf8

/-- How many bytes a character takes that starts with `c`. -/
def lead (c : UInt8) : Nat :=
  if c < 0x80 then 1 else if c &&& 0xE0 = 0xC0 then 2 else if c &&& 0xF0 = 0xE0 then 3 else 1

def two (c d : UInt8) : UInt32 := (c &&& 0x1F).toUInt32 <<< 6 ||| (d &&& 0x3F).toUInt32

def three (c d e : UInt8) : UInt32 :=
  (c &&& 0x0F).toUInt32 <<< 12 ||| (d &&& 0x3F).toUInt32 <<< 6 ||| (e &&& 0x3F).toUInt32

/-- The bytes that the end of a string lacks, when `k` bytes are owed at its start. -/
def owed : Nat → List UInt8 → Nat
  | k, [] => k
  | 0, c :: s => owed (lead c - 1) s
  | k + 1, _ :: s => owed k s

inductive Decodes : List UInt8 → List UInt32 → Prop where
  | nil : Decodes [] []
  | one {c s cps} : lead c = 1 → Decodes s cps → Decodes (c :: s) (c.toUInt32 :: cps)
  | two {c d s cps} : lead c = 2 → Decodes s cps → Decodes (c :: d :: s) (two c d :: cps)
  | three {c d e s cps} : lead c = 3 → Decodes s cps → Decodes (c :: d :: e :: s) (three c d e :: cps)

/-- A character that its string cuts short. -/
inductive Cut : List UInt8 → Prop where
  | two {c} : lead c = 2 → Cut [c]
  | three {c} : lead c = 3 → Cut [c]
  | last {c d} : lead c = 3 → Cut [c, d]

theorem lead_cases (c : UInt8) : lead c = 1 ∨ lead c = 2 ∨ lead c = 3 := by
  unfold lead
  split
  · exact .inl rfl
  · split
    · exact .inr (.inl rfl)
    · split
      · exact .inr (.inr rfl)
      · exact .inl rfl

/-- What is true of each of the 256 bytes. -/
theorem byte_forall {P : UInt8 → Prop} (h : ∀ n < 256, P (UInt8.ofNat n)) (c : UInt8) : P c := by
  have here := h c.toNat c.toNat_lt
  rwa [UInt8.ofNat_toNat] at here

theorem lead_toNat (c : UInt8) :
    lead c =
      if 192 ≤ c.toNat ∧ c.toNat < 224 then 2 else if 224 ≤ c.toNat ∧ c.toNat < 240 then 3 else 1 := by
  revert c
  exact byte_forall (by decide +kernel)

/-! ### Where a string ends -/

theorem Decodes.owed {s : List UInt8} {cps : List UInt32} (h : Decodes s cps) : owed 0 s = 0 := by
  induction h with
  | nil => rfl
  | one single _ ih => rw [Utf8.owed, single]; exact ih
  | two double _ ih => rw [Utf8.owed, double]; exact ih
  | three triple _ ih => rw [Utf8.owed, triple]; exact ih

/-- A string is read to its end, or up to a character that it cuts short. -/
theorem decodes_or_cut (s : List UInt8) :
    ∃ pre tail cps, s = pre ++ tail ∧ Decodes pre cps ∧ (tail = [] ∨ Cut tail) := by
  induction length : s.length using Nat.strong_induction_on generalizing s with
  | _ n ih =>
    cases s with
    | nil => exact ⟨[], [], [], rfl, .nil, .inl rfl⟩
    | cons c s =>
      rw [List.length_cons] at length
      rcases lead_cases c with single | double | triple
      · obtain ⟨pre, tail, cps, rfl, read, ends⟩ := ih s.length (by omega) s rfl
        exact ⟨c :: pre, tail, _, rfl, .one single read, ends⟩
      · cases s with
        | nil => exact ⟨[], [c], [], rfl, .nil, .inr (.two double)⟩
        | cons d s =>
          rw [List.length_cons] at length
          obtain ⟨pre, tail, cps, rfl, read, ends⟩ := ih s.length (by omega) s rfl
          exact ⟨c :: d :: pre, tail, _, rfl, .two double read, ends⟩
      · match s, length with
        | [], _ => exact ⟨[], [c], [], rfl, .nil, .inr (.three triple)⟩
        | [d], _ => exact ⟨[], [c, d], [], rfl, .nil, .inr (.last triple)⟩
        | d :: e :: s, length =>
          rw [List.length_cons, List.length_cons] at length
          obtain ⟨pre, tail, cps, rfl, read, ends⟩ := ih s.length (by omega) s rfl
          exact ⟨c :: d :: e :: pre, tail, _, rfl, .three triple read, ends⟩

theorem owed_append {pre : List UInt8} {cps : List UInt32} (h : Decodes pre cps) (tail : List UInt8) :
    owed 0 (pre ++ tail) = owed 0 tail := by
  induction h with
  | nil => rfl
  | one single _ ih => rw [List.cons_append, owed, single]; exact ih
  | two double _ ih => rw [List.cons_append, List.cons_append, owed, double]; exact ih
  | three triple _ ih =>
    rw [List.cons_append, List.cons_append, List.cons_append, owed, triple]
    exact ih

theorem Cut.owed {tail : List UInt8} (h : Cut tail) : owed 0 tail ≠ 0 := by
  cases h with
  | two double => rw [Utf8.owed, double]; exact Nat.one_ne_zero
  | three triple => rw [Utf8.owed, triple]; exact Nat.succ_ne_zero 1
  | last triple => rw [Utf8.owed, triple]; exact Nat.one_ne_zero

theorem exists_decodes {s : List UInt8} (h : owed 0 s = 0) : ∃ cps, Decodes s cps := by
  obtain ⟨pre, tail, cps, rfl, read, rfl | cut⟩ := decodes_or_cut s
  · rw [List.append_nil]
    exact ⟨cps, read⟩
  · rw [owed_append read] at h
    exact absurd h cut.owed

theorem exists_cut {s : List UInt8} (h : owed 0 s ≠ 0) :
    ∃ pre tail cps, s = pre ++ tail ∧ Decodes pre cps ∧ Cut tail := by
  obtain ⟨pre, tail, cps, rfl, read, rfl | cut⟩ := decodes_or_cut s
  · rw [owed_append read] at h
    exact absurd rfl h
  · exact ⟨pre, tail, cps, rfl, read, cut⟩

theorem Decodes.append {s s' : List UInt8} {cps cps' : List UInt32} (h : Decodes s cps) (h' : Decodes s' cps') :
    Decodes (s ++ s') (cps ++ cps') := by
  induction h with
  | nil => exact h'
  | one single _ ih => exact .one single ih
  | two double _ ih => exact .two double ih
  | three triple _ ih => exact .three triple ih

theorem Decodes.ne_nil {s : List UInt8} {v : UInt32} {cps : List UInt32} (h : Decodes s (v :: cps)) : s ≠ [] := by
  rintro rfl
  cases h

/-- A read string is built character by character. -/
theorem Decodes.characters {motive : ∀ s cps, Decodes s cps → Prop} (nil : motive [] [] .nil)
    (char : ∀ chunk cp s cps (one : Decodes chunk [cp]) (rest : Decodes s cps), motive s cps rest →
      motive (chunk ++ s) (cp :: cps) (one.append rest))
    (s : List UInt8) (cps : List UInt32) (h : Decodes s cps) : motive s cps h := by
  induction h with
  | nil => exact nil
  | one single rest ih => exact char [_] _ _ _ (.one single .nil) rest ih
  | two double rest ih => exact char [_, _] _ _ _ (.two double .nil) rest ih
  | three triple rest ih => exact char [_, _, _] _ _ _ (.three triple .nil) rest ih

/-! ### Encoded characters -/

theorem char_lt (c : Char) : c.toNat < 0x110000 := by
  have valid := c.valid
  rcases valid with low | high
  · exact Nat.lt_trans low (by decide)
  · exact high.2

theorem utf8_ascii {c : Char} (ascii : c.toNat < 128) : String.utf8EncodeChar c = [UInt8.ofNat c.toNat] :=
  if_pos (show c.val.toNat ≤ 0x7f from Nat.le_of_lt_succ ascii)

theorem utf8_bytes {c : Char} (wide : 128 ≤ c.toNat) :
    ∀ b ∈ String.utf8EncodeChar c, 128 ≤ b.toNat ∧ b.toNat < 255 := by
  have bound := char_lt c
  have low : ¬ c.val.toNat ≤ 0x7f := Nat.not_le.mpr (Nat.lt_of_succ_le wide)
  have code : c.val.toNat = c.toNat := rfl
  intro b mem
  unfold String.utf8EncodeChar at mem
  rw [if_neg low] at mem
  rw [code] at mem low
  generalize c.toNat = v at mem low bound
  split at mem
  · simp only [List.mem_cons, List.not_mem_nil, or_false] at mem
    rcases mem with first | second
    · rw [first, UInt8.toNat_ofNat']
      omega
    · rw [second, UInt8.toNat_ofNat']
      omega
  · split at mem
    · simp only [List.mem_cons, List.not_mem_nil, or_false] at mem
      rcases mem with first | second | third
      · rw [first, UInt8.toNat_ofNat']
        omega
      · rw [second, UInt8.toNat_ofNat']
        omega
      · rw [third, UInt8.toNat_ofNat']
        omega
    · simp only [List.mem_cons, List.not_mem_nil, or_false] at mem
      rcases mem with first | second | third | fourth
      · rw [first, UInt8.toNat_ofNat']
        omega
      · rw [second, UInt8.toNat_ofNat']
        omega
      · rw [third, UInt8.toNat_ofNat']
        omega
      · rw [fourth, UInt8.toNat_ofNat']
        omega

theorem utf8_length (c : Char) :
    (String.utf8EncodeChar c).length =
      if c.toNat ≤ 0x7f then 1 else if c.toNat ≤ 0x7ff then 2 else if c.toNat ≤ 0xffff then 3 else 4 := by
  unfold String.utf8EncodeChar
  have code : c.val.toNat = c.toNat := rfl
  rw [code]
  dsimp only
  split
  · rfl
  · split
    · rfl
    · split
      · rfl
      · rfl

theorem masked_toNat (c : UInt8) (k : Nat) (h : k ≤ 8) :
    (c &&& UInt8.ofNat (2 ^ k - 1)).toUInt32.toNat = c.toNat % 2 ^ k := by
  have small : 2 ^ k ≤ 2 ^ 8 := Nat.pow_le_pow_right (by omega) h
  rw [UInt8.toNat_toUInt32, UInt8.toNat_and, UInt8.toNat_ofNat_of_lt' (by change _ < 256; omega),
    Nat.and_two_pow_sub_one_eq_mod]

theorem two_toNat (c d : UInt8) : (two c d).toNat = c.toNat % 32 * 64 + d.toNat % 64 := by
  have high : (c &&& 0x1F).toUInt32.toNat = c.toNat % 32 := masked_toNat c 5 (by omega)
  have low : (d &&& 0x3F).toUInt32.toNat = d.toNat % 64 := masked_toNat d 6 (by omega)
  have bound : d.toNat % 64 < 2 ^ 6 := Nat.mod_lt _ (by omega)
  rw [two, UInt32.toNat_or, UInt32.toNat_shiftLeft, high, low]
  change (c.toNat % 32) <<< 6 % 2 ^ 32 ||| d.toNat % 64 = _
  rw [Nat.mod_eq_of_lt (by rw [Nat.shiftLeft_eq]; omega), ← Nat.shiftLeft_add_eq_or_of_lt bound, Nat.shiftLeft_eq]

theorem three_toNat (c d e : UInt8) :
    (three c d e).toNat = c.toNat % 16 * 4096 + d.toNat % 64 * 64 + e.toNat % 64 := by
  have high : (c &&& 0x0F).toUInt32.toNat = c.toNat % 16 := masked_toNat c 4 (by omega)
  have middle : (d &&& 0x3F).toUInt32.toNat = d.toNat % 64 := masked_toNat d 6 (by omega)
  have low : (e &&& 0x3F).toUInt32.toNat = e.toNat % 64 := masked_toNat e 6 (by omega)
  have bound : e.toNat % 64 < 2 ^ 6 := Nat.mod_lt _ (by omega)
  have bound' : (d.toNat % 64) <<< 6 + e.toNat % 64 < 2 ^ 12 := by rw [Nat.shiftLeft_eq]; omega
  rw [three, UInt32.toNat_or, UInt32.toNat_or, UInt32.toNat_shiftLeft, UInt32.toNat_shiftLeft, high, middle, low]
  change (c.toNat % 16) <<< 12 % 2 ^ 32 ||| (d.toNat % 64) <<< 6 % 2 ^ 32 ||| e.toNat % 64 = _
  have fits : (c.toNat % 16) <<< 12 < 2 ^ 32 := by rw [Nat.shiftLeft_eq]; omega
  have fits' : (d.toNat % 64) <<< 6 < 2 ^ 32 := by rw [Nat.shiftLeft_eq]; omega
  rw [Nat.mod_eq_of_lt fits, Nat.mod_eq_of_lt fits', Nat.or_assoc, ← Nat.shiftLeft_add_eq_or_of_lt bound,
    ← Nat.shiftLeft_add_eq_or_of_lt bound', Nat.shiftLeft_eq, Nat.shiftLeft_eq]
  omega

/-- A character up to U+FFFF is read back from its encoding. -/
theorem decodes_encode {c : Char} (basic : c.toNat ≤ 0xFFFF) : Decodes (String.utf8EncodeChar c) [c.val] := by
  have code : c.val.toNat = c.toNat := rfl
  unfold String.utf8EncodeChar
  simp only [code, if_pos basic]
  split
  case isTrue ascii =>
    have same : (UInt8.ofNat c.toNat).toUInt32 = c.val := by
      rw [← UInt32.toNat_inj, UInt8.toNat_toUInt32, UInt8.toNat_ofNat_of_lt' (by change _ < 256; omega), code]
    have single : lead (UInt8.ofNat c.toNat) = 1 := by
      rw [lead_toNat, UInt8.toNat_ofNat_of_lt' (by change _ < 256; omega), if_neg (by omega), if_neg (by omega)]
    exact same ▸ Decodes.one single .nil
  case isFalse ascii =>
    split
    case isTrue short =>
      have first : (UInt8.ofNat (c.toNat / 64 % 0x20 + 0xC0)).toNat = c.toNat / 64 % 0x20 + 0xC0 :=
        UInt8.toNat_ofNat_of_lt' (by change _ < 256; omega)
      have second : (UInt8.ofNat (c.toNat % 0x40 + 0x80)).toNat = c.toNat % 0x40 + 0x80 :=
        UInt8.toNat_ofNat_of_lt' (by change _ < 256; omega)
      have same :
          two (UInt8.ofNat (c.toNat / 64 % 0x20 + 0xC0)) (UInt8.ofNat (c.toNat % 0x40 + 0x80)) = c.val := by
        rw [← UInt32.toNat_inj, two_toNat, first, second, code]
        omega
      refine same ▸ Decodes.two ?_ .nil
      rw [lead_toNat, first, if_pos (by omega)]
    case isFalse short =>
      have first : (UInt8.ofNat (c.toNat / 4096 % 0x10 + 0xE0)).toNat = c.toNat / 4096 % 0x10 + 0xE0 :=
        UInt8.toNat_ofNat_of_lt' (by change _ < 256; omega)
      have second : (UInt8.ofNat (c.toNat / 64 % 0x40 + 0x80)).toNat = c.toNat / 64 % 0x40 + 0x80 :=
        UInt8.toNat_ofNat_of_lt' (by change _ < 256; omega)
      have third : (UInt8.ofNat (c.toNat % 0x40 + 0x80)).toNat = c.toNat % 0x40 + 0x80 :=
        UInt8.toNat_ofNat_of_lt' (by change _ < 256; omega)
      have same : three (UInt8.ofNat (c.toNat / 4096 % 0x10 + 0xE0)) (UInt8.ofNat (c.toNat / 64 % 0x40 + 0x80))
          (UInt8.ofNat (c.toNat % 0x40 + 0x80)) = c.val := by
        rw [← UInt32.toNat_inj, three_toNat, first, second, third, code]
        omega
      refine same ▸ Decodes.three ?_ .nil
      rw [lead_toNat, first, if_neg (by omega), if_pos (by omega)]

theorem decodes_text {text : List Char} (basic : ∀ c ∈ text, c.toNat ≤ 0xFFFF) :
    Decodes (text.flatMap String.utf8EncodeChar) (text.map Char.val) := by
  induction text with
  | nil => exact .nil
  | cons c text ih =>
    have here := decodes_encode (basic c List.mem_cons_self)
    exact here.append (ih fun c' mem => basic c' (List.mem_cons_of_mem c mem))

/-- The front of a character's encoding that is not all of it owes the rest. -/
theorem owed_front {s : List UInt8} {v : UInt32} (h : Decodes s [v]) {n : Nat} (pos : 0 < n)
    (short : n < s.length) : owed 0 (s.take n) ≠ 0 := by
  cases h with
  | one single rest =>
    cases rest
    rw [List.length_singleton] at short
    omega
  | @two c d _ _ double rest =>
    cases rest
    obtain rfl : n = 1 := by
      rw [List.length_cons, List.length_singleton] at short
      omega
    exact (Cut.two double).owed
  | @three c d e _ _ triple rest =>
    cases rest
    rw [List.length_cons, List.length_cons, List.length_singleton] at short
    obtain rfl | rfl : n = 1 ∨ n = 2 := by omega
    · exact (Cut.three triple).owed
    · exact (Cut.last triple).owed

/-- Where a cut text owes nothing, it was cut between two characters. -/
theorem take_text {text : List Char} (basic : ∀ c ∈ text, c.toNat ≤ 0xFFFF) {n : Nat}
    (h : owed 0 ((text.flatMap String.utf8EncodeChar).take n) = 0) :
    ∃ k, (text.flatMap String.utf8EncodeChar).take n = (text.take k).flatMap String.utf8EncodeChar := by
  induction text generalizing n with
  | nil => exact ⟨0, by rw [List.take_nil, List.flatMap_nil, List.take_nil]⟩
  | cons c text ih =>
    have here := decodes_encode (basic c List.mem_cons_self)
    rw [List.flatMap_cons] at h ⊢
    by_cases inside : n < (String.utf8EncodeChar c).length
    · rw [List.take_append_of_le_length (Nat.le_of_lt inside)] at h ⊢
      have none : n = 0 := by
        by_contra some
        exact owed_front here (by omega) inside h
      exact ⟨0, by rw [none]; rfl⟩
    · obtain ⟨m, rfl⟩ : ∃ m, n = (String.utf8EncodeChar c).length + m :=
        Nat.exists_eq_add_of_le (Nat.le_of_not_lt inside)
      rw [List.take_length_add_append] at h ⊢
      rw [owed_append here] at h
      obtain ⟨k, same⟩ := ih (fun c' mem => basic c' (List.mem_cons_of_mem c mem)) h
      exact ⟨k + 1, by rw [same, List.take_succ_cons, List.flatMap_cons]⟩

end Lib.Utf8
