import Meridian.Conn.Grid
import Meridian.Conn.TitleCase

/-!
# The texts of an entry

The model of `put_entry` in `conn/core/grid.c`, and what title-casing a text and drawing it comes to. The text
functions go by the lead bytes of a text, and `title_case` cuts it where the buffer ends: a text is drawn right
exactly when the bytes of it that are kept owe none behind them (`drawsTitle_iff`).
-/

namespace Meridian.Conn.EntryText

open Lib.Terminated Lib.Utf8 Lib.Result
open Meridian.Conn.Grid Meridian.Conn.TitleCase

/-! ### The drawing of an entry -/

/-- `RAIL_COL`. -/
def railCol : Int := 59

/-- What `put_entry` reads of a `ConnEntry`. -/
structure ConnEntry where
  name : CString
  sub : CString
  part : CString
  accent : ConnColor
  locked : Bool

/-- What `put_entry` reads of a `ConnTextTheme`. -/
structure ConnTextTheme where
  frame : ConnColor
  text : ConnColor
  accents : Bool

/-- `CONN_R`. -/
def connR (c : ConnColor) : UInt32 := c >>> 16 &&& 0xFF

/-- `CONN_G`. -/
def connG (c : ConnColor) : UInt32 := c >>> 8 &&& 0xFF

/-- `CONN_B`. -/
def connB (c : ConnColor) : UInt32 := c &&& 0xFF

/-- `CONN_RGB`. -/
def connRgb (r g b : UInt32) : ConnColor := (0xFF000000 : UInt32) ||| r <<< 16 ||| g <<< 8 ||| b

def connContrast (fill : ConnColor) : ConnColor :=
  let lum := 299 * connR fill + 587 * connG fill + 114 * connB fill
  if 150000 < lum then connRgb 0x0A 0x0A 0x0A else connRgb 0xFF 0xFF 0xFF

/-- `(UINT32)('0' + d)`. -/
def digitChar (d : Int) : UInt32 := UInt32.ofNat ((48 + d) % 2 ^ 32).toNat

def putIndex (g : ConnGrid) (row num : Int) (mark : UInt32) (style : Style) : ConnGrid :=
  let g := if 10 ≤ num then setCell g 1 row (digitChar ((num.tdiv 10).tmod 10)) style else g
  let g := setCell g 2 row (digitChar (num.tmod 10)) style
  if mark ≠ 32 then setCell g 3 row mark style else g

/-- The ground of a selected entry: `for (c = 1; c <= RAIL_COL - 1; c++) set_cell(..)`. -/
def fillRow (g : ConnGrid) (row : Int) (style : Style) : ConnGrid :=
  (List.range (railCol - 1).toNat).foldl (fun g k => setCell g (k + 1) row 0x20 style) g

/-- The three calls of `puts_at` in `put_entry`. -/
def putTexts (g : ConnGrid) (row partCol : Int) (name sub part : CString) (style : Style) :
    Except Fault ConnGrid := do
  let g ← putsAt g 5 row name style
  let g ← putsAt g 23 row sub style
  putsAt g partCol row part style

/-- `put_entry`; `name₀` and `sub₀` are what its two buffers hold before. -/
def putEntry (g : ConnGrid) (row num : Int) (e : ConnEntry) (th : ConnTextTheme) (selected : Bool)
    (name₀ sub₀ : Nat → UInt8) : Except Fault ConnGrid := do
  let mark : UInt32 := if e.locked then 42 else 32
  let name ← titleCase e.name name₀ 64
  let sub ← titleCase e.sub sub₀ 37
  let n ← ucsLen e.part
  let accent := if th.accents then e.accent else th.frame
  if selected then
    let style : Style := { fg := connContrast accent, bg := accent, bold := true }
    putTexts (putIndex (fillRow g row style) row num mark style) row (railCol - 1 - n) (held 64 name) (held 37 sub)
      e.part style
  else
    let style : Style := { fg := th.text, bg := 0, bold := false }
    let g ← putTexts g row (railCol - 1 - n) (held 64 name) (held 37 sub) e.part style
    return putIndex g row num mark { fg := accent, bg := 0, bold := true }

/-! ### A title drawn -/

/-- A run of a text function ends, and changes the cells of the grid only. -/
def StaysInGrid (g : ConnGrid) (run : Except Fault ConnGrid) : Prop :=
  ∃ g', run = .ok g' ∧ ∀ r c, ¬ InGrid r c → g' r c = g r c

/-- Each text function draws this text anywhere, and stays in the grid. -/
structure DrawsInside (t : CString) : Prop where
  placed : ∀ g col row style, StaysInGrid g (putsAt g col row t style)
  clipped : ∀ g col row maxCols style, StaysInGrid g (putsClipped g col row t maxCols style)
  centred : ∀ g row style, StaysInGrid g (putsCenter g row t style)

/-- Each text function draws these characters in order, as far as the grid and its own limit go. -/
structure DrawsText (t : CString) (text : List Char) : Prop where
  placed : ∀ g col row style, putsAt g col row t style = .ok (withText g col row style (text.map Char.val))
  clipped : ∀ g col row maxCols style, putsClipped g col row t maxCols style =
    .ok (withText g col row style ((text.map Char.val).take maxCols.toNat))
  centred : ∀ g row style, putsCenter g row t style =
    .ok (withText g (centerCol text.length) row style (text.map Char.val))

/-- A text is title-cased into a buffer and drawn from it without a read behind its NUL or a write outside of
the buffer and the grid; and the characters of a text that are kept are drawn as they are, up to their case. -/
structure DrawsTitle (src : CString) (cap : Nat) (dst dst' : Nat → UInt8) : Prop where
  titled : titleCase src dst cap = .ok dst'
  inside : ∀ k, cap ≤ k → dst' k = dst k
  ended : ∃ k < cap, dst' k = 0
  drawn : DrawsInside (held cap dst')
  exact : ∀ text : List Char, (∀ c ∈ text, c.toNat ≤ 0xFFFF) → src.bytes = text.flatMap String.utf8EncodeChar →
    ∃ n shown, src.bytes.take (cap - 1) = (text.take n).flatMap String.utf8EncodeChar ∧
      shown.map Char.toUpper = (text.take n).map Char.toUpper ∧ DrawsText (held cap dst') shown

/-! ### Characters up to their case -/

theorem upper_wide (c : UInt8) : 128 ≤ c.toNat → upper c = c := by
  revert c
  exact byte_forall (by decide +kernel)

theorem upper_ascii (c : UInt8) : (upper c).toNat < 128 ↔ c.toNat < 128 := by
  revert c
  exact byte_forall (by decide +kernel)

theorem toUpper_ascii (c : UInt8) : c.toNat < 128 → (Char.ofNat c.toNat).toUpper = Char.ofNat (upper c).toNat := by
  revert c
  exact byte_forall (by decide +kernel)

theorem encode_byte (c : UInt8) : c.toNat < 128 → String.utf8EncodeChar (Char.ofNat c.toNat) = [c] := by
  revert c
  exact byte_forall (by decide +kernel)

theorem byte_basic (c : UInt8) : (Char.ofNat c.toNat).toNat ≤ 0xFFFF := by
  revert c
  exact byte_forall (by decide +kernel)

theorem map_upper_wide {u : List UInt8} (wide : ∀ b ∈ u, 128 ≤ b.toNat) : u.map upper = u :=
  (List.map_congr_left fun b mem => upper_wide b (wide b mem)).trans (List.map_id' u)

/-- Bytes that encode a character up to the case of letters encode a character, the same up to its case. -/
theorem encoded_char {c : Char} (basic : c.toNat ≤ 0xFFFF) {u : List UInt8}
    (h : u.map upper = (String.utf8EncodeChar c).map upper) :
    ∃ d : Char, u = String.utf8EncodeChar d ∧ d.toUpper = c.toUpper ∧ d.toNat ≤ 0xFFFF := by
  by_cases ascii : c.toNat < 128
  · have code : (UInt8.ofNat c.toNat).toNat = c.toNat := UInt8.toNat_ofNat_of_lt' (by change _ < 256; omega)
    rw [utf8_ascii ascii, List.map_singleton] at h
    obtain ⟨b, rfl, same⟩ := List.map_eq_singleton_iff.mp h
    have low : b.toNat < 128 := by
      rw [← upper_ascii, same, upper_ascii, code]
      exact ascii
    refine ⟨Char.ofNat b.toNat, (encode_byte b low).symm, ?_, byte_basic b⟩
    rw [toUpper_ascii b low, same, ← toUpper_ascii _ (code.symm ▸ ascii), code, Char.ofNat_toNat]
  · have bytes := fun b mem => (utf8_bytes (Nat.le_of_not_lt ascii) b mem).1
    rw [map_upper_wide bytes] at h
    have kept : u.map upper = u := by
      refine map_upper_wide fun b mem => ?_
      have wide := bytes (upper b) (h ▸ List.mem_map_of_mem mem)
      by_contra low
      have small := (upper_ascii b).mpr (Nat.lt_of_not_le low)
      omega
    exact ⟨c, kept.symm.trans h, rfl, basic⟩

theorem encoded_upper {text : List Char} (basic : ∀ c ∈ text, c.toNat ≤ 0xFFFF) {u : List UInt8}
    (h : u.map upper = (text.flatMap String.utf8EncodeChar).map upper) :
    ∃ shown : List Char, u = shown.flatMap String.utf8EncodeChar ∧ shown.map Char.toUpper = text.map Char.toUpper ∧
      ∀ d ∈ shown, d.toNat ≤ 0xFFFF := by
  induction text generalizing u with
  | nil => exact ⟨[], List.map_eq_nil_iff.mp h, rfl, fun _ mem => absurd mem List.not_mem_nil⟩
  | cons c text ih =>
    rw [List.flatMap_cons, List.map_append] at h
    obtain ⟨front, back, rfl, here, there⟩ := List.map_eq_append_iff.mp h
    obtain ⟨d, rfl, same, low⟩ := encoded_char (basic c List.mem_cons_self) here
    obtain ⟨shown, rfl, rest, lows⟩ := ih (fun c' mem => basic c' (List.mem_cons_of_mem c mem)) there
    refine ⟨d :: shown, rfl, by rw [List.map_cons, List.map_cons, same, rest], ?_⟩
    exact List.forall_mem_cons.mpr ⟨low, lows⟩

/-! ### When a title is drawn right -/

theorem drawsInside {t : CString} {cps : List UInt32} (read : Decodes t.bytes cps) : DrawsInside t where
  placed g col row style := ⟨_, putsAt_ok read g col row style, fun _ _ outside => withText_outside outside⟩
  clipped g col row maxCols style :=
    ⟨_, putsClipped_ok read g col row maxCols style, fun _ _ outside => withText_outside outside⟩
  centred g row style := ⟨_, putsCenter_ok read g row style, fun _ _ outside => withText_outside outside⟩

theorem drawsText {t : CString} {text : List Char} (basic : ∀ c ∈ text, c.toNat ≤ 0xFFFF)
    (encoded : t.bytes = text.flatMap String.utf8EncodeChar) : DrawsText t text := by
  have read : Decodes t.bytes (text.map Char.val) := encoded ▸ decodes_text basic
  have length : t.bytes.countP startsChar = text.length := encoded ▸ countP_text text
  exact ⟨putsAt_ok read, putsClipped_ok read, length ▸ putsCenter_ok read⟩

/-- The bytes of the text that a buffer has room for owe none behind them. -/
def FitsWhole (src : CString) (cap : Nat) : Prop := 0 < cap ∧ owed 0 (src.bytes.take (cap - 1)) = 0

theorem Titled.exact {src : CString} {cap : Nat} {dst dst' : Nat → UInt8} (h : Titled src cap dst dst')
    (whole : owed 0 (src.bytes.take (cap - 1)) = 0) {text : List Char} (basic : ∀ c ∈ text, c.toNat ≤ 0xFFFF)
    (encoded : src.bytes = text.flatMap String.utf8EncodeChar) :
    ∃ n shown, src.bytes.take (cap - 1) = (text.take n).flatMap String.utf8EncodeChar ∧
      shown.map Char.toUpper = (text.take n).map Char.toUpper ∧ DrawsText (held cap dst') shown := by
  rw [encoded] at whole
  obtain ⟨n, kept⟩ := take_text basic whole
  have letters := h.text
  rw [encoded, kept] at letters
  obtain ⟨shown, bytes, same, lows⟩ := encoded_upper (fun c mem => basic c (List.mem_of_mem_take mem)) letters
  exact ⟨n, shown, by rw [encoded, kept], same, drawsText lows bytes⟩

theorem DrawsTitle.fits {src : CString} {cap : Nat} {dst dst' : Nat → UInt8} (h : DrawsTitle src cap dst dst') :
    FitsWhole src cap := by
  obtain ⟨k, room, _⟩ := h.ended
  have pos : 0 < cap := by omega
  obtain ⟨dst₁, ran, titled⟩ := titleCase_ok src dst pos
  rw [h.titled] at ran
  cases ran
  refine ⟨pos, ?_⟩
  obtain ⟨g', drawn, _⟩ := h.drawn.placed (fun _ _ => styled ⟨0, 0, false⟩ 0) 0 0 ⟨0, 0, false⟩
  rw [← titled.owed]
  exact (putsAt_iff _ _ _ _ _).mp ⟨g', drawn⟩

/-- A text is title-cased and drawn right exactly when what is kept of it ends with a whole character. -/
theorem drawsTitle_iff (src : CString) (cap : Nat) (dst : Nat → UInt8) :
    (∃ dst', DrawsTitle src cap dst dst') ↔ FitsWhole src cap := by
  constructor
  · rintro ⟨dst', h⟩
    exact h.fits
  · rintro ⟨pos, whole⟩
    obtain ⟨dst', ran, titled⟩ := titleCase_ok src dst pos
    obtain ⟨cps, read⟩ := exists_decodes (titled.owed.trans whole)
    exact ⟨dst', ran, titled.inside, titled.ended, drawsInside read, fun _ basic encoded =>
      Titled.exact titled whole basic encoded⟩

/-- A subtitle of 37 bytes, of which 36 are kept: they end after the first byte of its last letter. -/
def macSub : CString := .ofBytes ("26.6.2 · APFS · MACINTOSH SSD CAFÉ".toList.flatMap String.utf8EncodeChar)

theorem drawsTitle_cut : ¬ ∃ dst', DrawsTitle macSub 37 (fun _ => 0) dst' := by
  rintro ⟨dst', h⟩
  have owes : owed 0 (macSub.bytes.take 36) = 1 := by decide +kernel
  have whole := h.fits.2
  rw [owes] at whole
  exact absurd whole Nat.one_ne_zero

/-! ### When an entry is drawn -/

/-- Two grids that differ in cells of this row of the grid only. -/
def SameOutside (row : Int) (g g' : ConnGrid) : Prop := ∀ r c, ¬ (r = row ∧ InGrid r c) → g' r c = g r c

theorem SameOutside.trans {row : Int} {g₁ g₂ g₃ : ConnGrid} (h : SameOutside row g₁ g₂)
    (h' : SameOutside row g₂ g₃) : SameOutside row g₁ g₃ := by
  intro r c outside
  rw [h' r c outside, h r c outside]

theorem setCell_same (g : ConnGrid) (col row : Int) (ch : UInt32) (style : Style) :
    SameOutside row g (setCell g col row ch style) := by
  intro r c outside
  rw [setCell_apply, if_neg fun h => outside ⟨h.1, h.2.1⟩]

theorem putsAt_same {t : CString} (whole : owed 0 t.bytes = 0) (g : ConnGrid) (col row : Int) (style : Style) :
    ∃ g', putsAt g col row t style = .ok g' ∧ SameOutside row g g' := by
  obtain ⟨cps, read⟩ := exists_decodes whole
  refine ⟨_, putsAt_ok read g col row style, fun r c outside => ?_⟩
  rw [withText, if_neg fun h => outside ⟨h.1, h.2.1⟩]

theorem fillRow_same (g : ConnGrid) (row : Int) (style : Style) : SameOutside row g (fillRow g row style) := by
  unfold fillRow
  generalize List.range (railCol - 1).toNat = cols
  induction cols generalizing g with
  | nil => exact fun _ _ _ => rfl
  | cons k cols ih => exact (setCell_same g _ row _ style).trans (ih _)

theorem putIndex_same (g : ConnGrid) (row num : Int) (mark : UInt32) (style : Style) :
    SameOutside row g (putIndex g row num mark style) := by
  have step (g : ConnGrid) (col : Int) (ch : UInt32) (p : Prop) [Decidable p] :
      SameOutside row g (if p then setCell g col row ch style else g) := by
    split
    · exact setCell_same g col row ch style
    · exact fun _ _ _ => rfl
  exact ((step g _ _ _).trans (setCell_same _ _ row _ style)).trans (step _ _ _ _)

variable {name sub part : CString}

/-- Three texts are drawn, in this row, exactly when none of them ends inside of a character. -/
theorem putTexts_same (h : owed 0 name.bytes = 0 ∧ owed 0 sub.bytes = 0 ∧ owed 0 part.bytes = 0) (g : ConnGrid)
    (row partCol : Int) (style : Style) :
    ∃ g', putTexts g row partCol name sub part style = .ok g' ∧ SameOutside row g g' := by
  obtain ⟨g₁, first, same₁⟩ := putsAt_same h.1 g 5 row style
  obtain ⟨g₂, second, same₂⟩ := putsAt_same h.2.1 g₁ 23 row style
  obtain ⟨g₃, third, same₃⟩ := putsAt_same h.2.2 g₂ partCol row style
  exact ⟨g₃, by rw [putTexts, first, ok_bind, second, ok_bind, third], (same₁.trans same₂).trans same₃⟩

theorem putTexts_whole {g g' : ConnGrid} {row partCol : Int} {style : Style}
    (h : putTexts g row partCol name sub part style = .ok g') :
    owed 0 name.bytes = 0 ∧ owed 0 sub.bytes = 0 ∧ owed 0 part.bytes = 0 := by
  obtain ⟨g₁, first, h⟩ := bind_eq_ok.mp h
  obtain ⟨g₂, second, third⟩ := bind_eq_ok.mp h
  exact ⟨(putsAt_iff _ _ _ _ _).mp ⟨g₁, first⟩, (putsAt_iff _ _ _ _ _).mp ⟨g₂, second⟩,
    (putsAt_iff _ _ _ _ _).mp ⟨g', third⟩⟩

/-- An entry is drawn exactly when its name, its subtitle and its part keep no piece of a character at the end
of what is kept of them; then only its row of the grid changes. -/
theorem putEntry_iff (g : ConnGrid) (row num : Int) (e : ConnEntry) (th : ConnTextTheme) (selected : Bool)
    (name₀ sub₀ : Nat → UInt8) :
    (∃ g', putEntry g row num e th selected name₀ sub₀ = .ok g' ∧ SameOutside row g g') ↔
      FitsWhole e.name 64 ∧ FitsWhole e.sub 37 ∧ owed 0 e.part.bytes = 0 := by
  obtain ⟨name', titled, names⟩ := titleCase_ok e.name name₀ (show 0 < 64 by omega)
  obtain ⟨sub', titled', subs⟩ := titleCase_ok e.sub sub₀ (show 0 < 37 by omega)
  have nameKept : FitsWhole e.name 64 ↔ owed 0 (held 64 name').bytes = 0 := by
    rw [names.owed, FitsWhole, and_iff_right (by omega)]
  have subKept : FitsWhole e.sub 37 ↔ owed 0 (held 37 sub').bytes = 0 := by
    rw [subs.owed, FitsWhole, and_iff_right (by omega)]
  rw [nameKept, subKept, putEntry, titled, ok_bind, titled', ok_bind, ucsLen_eq, ok_bind]
  cases selected with
  | true =>
    rw [if_pos rfl]
    constructor
    · rintro ⟨g', drawn, _⟩
      exact putTexts_whole drawn
    · intro whole
      obtain ⟨g', drawn, same⟩ := putTexts_same whole (putIndex (fillRow g row _) row num _ _) row _ _
      exact ⟨g', drawn, ((fillRow_same g row _).trans (putIndex_same _ row num _ _)).trans same⟩
  | false =>
    rw [if_neg Bool.false_ne_true]
    constructor
    · rintro ⟨g', drawn, _⟩
      obtain ⟨g₁, texts, _⟩ := bind_eq_ok.mp drawn
      exact putTexts_whole texts
    · intro whole
      obtain ⟨g₁, texts, same⟩ := putTexts_same whole g row _ _
      exact ⟨_, by dsimp only; rw [texts]; rfl, same.trans (putIndex_same g₁ row num _ _)⟩

end Meridian.Conn.EntryText
