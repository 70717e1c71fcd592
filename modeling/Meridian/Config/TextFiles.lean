import Meridian.Config.FileLines
import Meridian.Lib.Utf8

/-!
# Texts in files

A text is read from its UTF-16 file as its lines. The bytes of a UTF-8 file are taken for characters, so
that its lines are those of the text only if the text is ASCII and there is no mark, and a UTF-16 file of
an odd size is read past its end (`fileLines_iff`).
-/

namespace Meridian.Config

open Lib.Pieces
open Lib.Utf8 (char_lt utf8_ascii utf8_bytes utf8_length)

/-- The UTF-16 code units of a character. -/
def utf16EncodeChar (c : Char) : List Char16 :=
  if c.toNat < 0x10000 then [UInt16.ofNat c.toNat]
  else [UInt16.ofNat (0xD800 + (c.toNat - 0x10000) / 0x400), UInt16.ofNat (0xDC00 + (c.toNat - 0x10000) % 0x400)]

def endsLine (c : Char) : Bool := c == '\r' || c == '\n'

/-- The lines of a text: what is between its blocks of line ends. -/
def textLines (text : List Char) : List (List Char16) :=
  (pieces endsLine text).map (·.flatMap utf16EncodeChar)

inductive FileForm where
  | utf8 | utf8Mark | utf16
  deriving DecidableEq, Repr

/-- The file of a text. -/
def FileForm.encode : FileForm → List Char → List UInt8
  | .utf8, text => text.flatMap String.utf8EncodeChar
  | .utf8Mark, text => [0xEF, 0xBB, 0xBF] ++ text.flatMap String.utf8EncodeChar
  | .utf16, text => [0xFF, 0xFE] ++ (text.flatMap utf16EncodeChar).flatMap le16

/-- A UTF-8 file is read as its text when it has no mark and only ASCII characters. -/
def FileForm.faithful : FileForm → List Char → Bool
  | .utf8, text => text.all (·.toNat < 128)
  | .utf8Mark, _ => false
  | .utf16, _ => true

theorem endsLine_iff (c : Char) : endsLine c = true ↔ c.toNat = 13 ∨ c.toNat = 10 := by
  have code (d : Char) : c = d ↔ c.toNat = d.toNat := ⟨congrArg _, fun same => Char.toNat_inj.mp same⟩
  rw [endsLine, Bool.or_eq_true, beq_iff_eq, beq_iff_eq, code, code]
  rfl

theorem isLineEnd08_iff (c : UInt8) : isLineEnd08 c = true ↔ c.toNat = 13 ∨ c.toNat = 10 := by
  have code (d : UInt8) : c = d ↔ c.toNat = d.toNat := UInt8.toNat_inj.symm
  rw [isLineEnd08, Bool.or_eq_true, beq_iff_eq, beq_iff_eq, code, code]
  rfl

theorem isLineEnd16_iff (c : Char16) : isLineEnd16 c = true ↔ c.toNat = 13 ∨ c.toNat = 10 := by
  have code (d : UInt16) : c = d ↔ c.toNat = d.toNat := UInt16.toNat_inj.symm
  rw [isLineEnd16, Bool.or_eq_true, beq_iff_eq, beq_iff_eq, code, code]
  rfl

theorem utf16_basic {c : Char} (basic : c.toNat < 0x10000) :
    utf16EncodeChar c = [UInt16.ofNat c.toNat] :=
  if_pos basic

theorem utf16_length (c : Char) : (utf16EncodeChar c).length = if c.toNat < 0x10000 then 1 else 2 := by
  unfold utf16EncodeChar
  split
  · rfl
  · rfl

theorem encoded_le (c : Char) : (utf16EncodeChar c).length ≤ (String.utf8EncodeChar c).length := by
  rw [utf8_length, utf16_length]
  split_ifs <;> omega

theorem encoded_lt {c : Char} (wide : ¬ c.toNat < 128) :
    (utf16EncodeChar c).length < (String.utf8EncodeChar c).length := by
  rw [utf8_length, utf16_length]
  split_ifs <;> omega

theorem utf16_separated : Separated utf16EncodeChar endsLine isLineEnd16 where
  ends c ends := by
    have code := (endsLine_iff c).mp ends
    refine ⟨UInt16.ofNat c.toNat, utf16_basic (by omega), ?_⟩
    rw [isLineEnd16_iff, UInt16.toNat_ofNat', Nat.mod_eq_of_lt (by omega)]
    exact code
  inner c inner := by
    have other : ¬ (c.toNat = 13 ∨ c.toNat = 10) := by
      rw [← endsLine_iff, inner]
      exact Bool.false_ne_true
    have bound := char_lt c
    constructor
    · unfold utf16EncodeChar
      split
      · exact List.cons_ne_nil _ _
      · exact List.cons_ne_nil _ _
    · intro u mem
      rw [Bool.eq_false_iff, Ne, isLineEnd16_iff]
      unfold utf16EncodeChar at mem
      split at mem
      · rw [List.mem_singleton.mp mem, UInt16.toNat_ofNat', Nat.mod_eq_of_lt (by omega)]
        exact other
      · rcases List.mem_pair.mp mem with first | second
        · rw [first, UInt16.toNat_ofNat']
          omega
        · rw [second, UInt16.toNat_ofNat']
          omega

theorem utf8_separated : Separated String.utf8EncodeChar endsLine isLineEnd08 where
  ends c ends := by
    have code := (endsLine_iff c).mp ends
    refine ⟨UInt8.ofNat c.toNat, utf8_ascii (by omega), ?_⟩
    rw [isLineEnd08_iff, UInt8.toNat_ofNat', Nat.mod_eq_of_lt (by omega)]
    exact code
  inner c inner := by
    have other : ¬ (c.toNat = 13 ∨ c.toNat = 10) := by
      rw [← endsLine_iff, inner]
      exact Bool.false_ne_true
    refine ⟨String.utf8EncodeChar_ne_nil, ?_⟩
    intro b mem
    rw [Bool.eq_false_iff, Ne, isLineEnd08_iff]
    by_cases ascii : c.toNat < 128
    · rw [utf8_ascii ascii] at mem
      rw [List.mem_singleton.mp mem, UInt8.toNat_ofNat', Nat.mod_eq_of_lt (by omega)]
      exact other
    · have high := (utf8_bytes (Nat.le_of_not_lt ascii) b mem).1
      omega

/-! ### The characters that are read -/

theorem encoded_length_le (text : List Char) :
    (text.flatMap utf16EncodeChar).length ≤ (text.flatMap String.utf8EncodeChar).length := by
  induction text with
  | nil => exact Nat.le_refl _
  | cons c text ih =>
    rw [List.flatMap_cons, List.flatMap_cons, List.length_append, List.length_append]
    exact Nat.add_le_add (encoded_le c) ih

/-- Only of ASCII texts are there as many bytes as UTF-16 code units. -/
theorem ascii_of_length {text : List Char}
    (same : (text.flatMap String.utf8EncodeChar).length ≤ (text.flatMap utf16EncodeChar).length) :
    ∀ c ∈ text, c.toNat < 128 := by
  induction text with
  | nil => exact fun _ mem => (List.not_mem_nil mem).elim
  | cons c text ih =>
    rw [List.flatMap_cons, List.flatMap_cons, List.length_append, List.length_append] at same
    have later := encoded_length_le text
    intro d mem
    rcases List.mem_cons.mp mem with first | rest
    · rw [first]
      by_contra wide
      have longer := encoded_lt wide
      omega
    · have here := encoded_le c
      exact ih (by omega) d rest

/-- The lines that `ReadLine` makes of the bytes. -/
def byteLines (signed : Bool) (text : List Char) : List (List Char16) :=
  (pieces isLineEnd08 (text.flatMap String.utf8EncodeChar)).map (·.map (widen signed))

theorem byteLines_pieces (signed : Bool) (text : List Char) :
    byteLines signed text =
      (pieces endsLine text).map fun line => (line.flatMap String.utf8EncodeChar).map (widen signed) := by
  rw [byteLines, pieces_flatMap utf8_separated, List.map_map]
  rfl

theorem flatten_map_flatMap {β : Type} (encode : Char → List β) (lines : List (List Char)) :
    (lines.map (·.flatMap encode)).flatten = lines.flatten.flatMap encode := by
  induction lines with
  | nil => rfl
  | cons line lines ih => rw [List.map_cons, List.flatten_cons, List.flatten_cons, List.flatMap_append, ih]

theorem byteLines_length (signed : Bool) (text : List Char) :
    (byteLines signed text).flatten.length =
      ((text.filter (!endsLine ·)).flatMap String.utf8EncodeChar).length := by
  rw [byteLines, ← List.map_flatten, List.length_map, pieces_flatMap utf8_separated, flatten_map_flatMap,
    pieces_flatten]

theorem textLines_length (text : List Char) :
    (textLines text).flatten.length = ((text.filter (!endsLine ·)).flatMap utf16EncodeChar).length := by
  rw [textLines, flatten_map_flatMap, pieces_flatten]

theorem widen_ascii (signed : Bool) {n : Nat} (ascii : n < 128) :
    widen signed (UInt8.ofNat n) = UInt16.ofNat n := by
  have code : (UInt8.ofNat n).toNat = n := by
    rw [UInt8.toNat_ofNat', Nat.mod_eq_of_lt (by omega)]
  have small : ¬ UInt8.ofNat n ≥ 128 := by
    rw [ge_iff_le, UInt8.le_iff_toNat_le, code]
    exact Nat.not_le.mpr ascii
  rw [widen, decide_eq_false small, Bool.and_false, if_neg Bool.false_ne_true, code]

theorem line_ascii (signed : Bool) {line : List Char} (ascii : ∀ c ∈ line, c.toNat < 128) :
    (line.flatMap String.utf8EncodeChar).map (widen signed) = line.flatMap utf16EncodeChar := by
  induction line with
  | nil => rfl
  | cons c line ih =>
    have here := ascii c List.mem_cons_self
    rw [List.flatMap_cons, List.flatMap_cons, List.map_append, utf8_ascii here, utf16_basic (by omega),
      List.map_singleton, widen_ascii signed here, ih fun d mem => ascii d (List.mem_cons_of_mem _ mem)]

theorem byteLines_iff (signed : Bool) (text : List Char) :
    byteLines signed text = textLines text ↔ ∀ c ∈ text, c.toNat < 128 := by
  constructor
  · intro same c mem
    cases ends : endsLine c with
    | true =>
      have code := (endsLine_iff c).mp ends
      omega
    | false =>
      have lengths := congrArg (fun lines => lines.flatten.length) same
      rw [byteLines_length, textLines_length] at lengths
      apply ascii_of_length (Nat.le_of_eq lengths)
      rw [List.mem_filter, ends]
      exact ⟨mem, rfl⟩
  · intro ascii
    rw [byteLines_pieces, textLines]
    apply List.map_congr_left
    intro line mem
    apply line_ascii
    intro c inLine
    have inside : c ∈ text.filter (!endsLine ·) := by
      rw [← pieces_flatten]
      exact List.mem_flatten.mpr ⟨line, mem, inLine⟩
    exact ascii c (List.mem_of_mem_filter inside)

/-! ### Files of texts -/

theorem utf8_unmarked (text : List Char) : startsUtf16 (text.flatMap String.utf8EncodeChar) = false := by
  rw [Bool.eq_false_iff]
  intro marked
  obtain ⟨bytes, start⟩ := startsUtf16_eq marked
  have mem : 0xFF ∈ text.flatMap String.utf8EncodeChar := by
    rw [start]
    exact List.mem_cons_self
  obtain ⟨c, _, inside⟩ := List.mem_flatMap.mp mem
  by_cases ascii : c.toNat < 128
  · rw [utf8_ascii ascii] at inside
    have code := congrArg UInt8.toNat (List.mem_singleton.mp inside)
    rw [UInt8.toNat_ofNat', Nat.mod_eq_of_lt (by omega)] at code
    have byte : (0xFF : UInt8).toNat = 255 := rfl
    omega
  · exact absurd (utf8_bytes (Nat.le_of_not_lt ascii) _ inside).2 (by decide)

/-- The mark is read as the bytes of a first character. -/
theorem utf8Mark_encode (text : List Char) :
    FileForm.utf8Mark.encode text = ('\uFEFF' :: text).flatMap String.utf8EncodeChar := rfl

theorem utf8_lines (signed : Bool) (text : List Char) :
    fileLines signed (text.flatMap String.utf8EncodeChar) = some (byteLines signed text) :=
  fileLines_unmarked signed (utf8_unmarked text)

theorem le16_length (chars : List Char16) : (chars.flatMap le16).length = 2 * chars.length := by
  induction chars with
  | nil => rfl
  | cons c chars ih =>
    rw [List.flatMap_cons, List.length_append, ih, List.length_cons]
    have two : (le16 c).length = 2 := rfl
    omega

theorem utf16_lines (signed : Bool) (text : List Char) :
    fileLines signed (FileForm.utf16.encode text) = some (textLines text) := by
  have even : ((text.flatMap utf16EncodeChar).flatMap le16).length % 2 = 0 := by
    rw [le16_length]
    omega
  have lines := fileLines_even signed even
  rw [units16_le16, pieces_flatMap utf16_separated] at lines
  exact lines

theorem fileForm_iff (signed : Bool) (form : FileForm) (text : List Char) :
    fileLines signed (form.encode text) = some (textLines text) ↔ form.faithful text = true := by
  cases form with
  | utf8 =>
    have lines := utf8_lines signed text
    rw [FileForm.encode, lines, Option.some.injEq, byteLines_iff, FileForm.faithful, List.all_eq_true]
    constructor
    · intro ascii c mem
      exact decide_eq_true (ascii c mem)
    · intro ascii c mem
      exact of_decide_eq_true (ascii c mem)
  | utf8Mark =>
    rw [utf8Mark_encode, utf8_lines, Option.some.injEq]
    refine iff_of_false ?_ Bool.false_ne_true
    intro same
    have lengths := congrArg (fun lines => lines.flatten.length) same
    rw [byteLines_length, textLines_length, List.filter_cons_of_pos (by decide), List.flatMap_cons,
      List.length_append] at lengths
    have mark : (String.utf8EncodeChar '\uFEFF').length = 3 := rfl
    have shorter := encoded_length_le (text.filter (!endsLine ·))
    omega
  | utf16 => exact iff_of_true (utf16_lines signed text) rfl

/-- A file is read inside its buffer and to its end unless it is a UTF-16 file of an odd size. -/
theorem fileLines_inside_iff (signed : Bool) (data : List UInt8) :
    (fileLines signed data).isSome = true ↔ ¬ (startsUtf16 data = true ∧ data.length % 2 = 1) := by
  cases marked : startsUtf16 data with
  | false =>
    rw [fileLines_unmarked signed marked]
    exact iff_of_true rfl fun both => Bool.false_ne_true both.1
  | true =>
    obtain ⟨bytes, start⟩ := startsUtf16_eq marked
    rw [start, List.length_cons, List.length_cons]
    by_cases odd : bytes.length % 2 = 1
    · rw [fileLines_odd signed odd]
      exact iff_of_false Bool.false_ne_true fun safe => safe ⟨rfl, by omega⟩
    · rw [fileLines_even signed (by omega)]
      exact iff_of_true rfl fun both => odd (by omega)

/-- The lines of a text come back from its file exactly if the file is in UTF-16, or in UTF-8 without a
mark and in ASCII; and the reads of a file stay in it, and come to its end, exactly if it is not a UTF-16
file of an odd size. -/
theorem fileLines_iff (signed : Bool) :
    (∀ form text, fileLines signed (FileForm.encode form text) = some (textLines text) ↔
        form.faithful text = true) ∧
      ∀ data, (fileLines signed data).isSome = true ↔ ¬ (startsUtf16 data = true ∧ data.length % 2 = 1) :=
  ⟨fileForm_iff signed, fileLines_inside_iff signed⟩

/-- The two files of a text with one accented letter give different lines, and a UTF-16 file of three
bytes is read past its end. -/
theorem fileLines_accent :
    fileLines true (FileForm.utf8.encode ['é']) ≠ fileLines true (FileForm.utf16.encode ['é']) ∧
      fileLines true [0xFF, 0xFE, 0x41] = none := by
  refine ⟨?_, @fileLines_odd true [0x41] rfl⟩
  have wide := fileForm_iff true .utf8 ['é']
  rw [utf16_lines]
  intro same
  exact absurd (wide.mp same) (by decide)

end Meridian.Config
