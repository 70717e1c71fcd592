import Meridian.Conn.Blit
import Meridian.Conn.Ui

/-!
# The pointer and the cell under it

The model of `ConnGopToCell` in `ui/conn_bridge.c` beside the drawing of the cells in `conn/core/paint.c`. The
cells are drawn inside a padding of the surface; the conversion divides the whole of it into columns and rows.
-/

namespace Meridian.Conn.Pointer

open Lib.Word Lib.Sampling Blit

/-- `PAD`. -/
def pad : Nat := 24

/-- `CH`. -/
def cellHeight : Nat := 27

def connCols : Nat := 80

def connRows : Nat := 25

def connColX (col : Nat) : Nat := (pad * 5 + col * 66 + 2) / 5

def connRowY (row : Nat) : Nat := pad + row * cellHeight

def connTextWidth : Nat := connColX connCols + pad

def connTextHeight : Nat := pad + connRows * cellHeight + pad

/-- The rectangle of the screen that the surface is drawn in. -/
def textRect (sw sh : Nat) : AspectRect := connAspectRect sw sh connTextWidth connTextHeight

/-- `ConnGopToCell`: the column and the row. -/
def connGopToCell (sw sh : Nat) (sx sy : Int) : Option (Int × Int) :=
  if sw = 0 ∨ sh = 0 then none
  else
    let r := textRect sw sh
    if sx < r.dx ∨ sx ≥ r.dx + r.dw ∨ sy < r.dy ∨ sy ≥ r.dy + r.dh then none
    else
      some ((u64 ((sx - r.dx).toNat * connCols) / r.dw : Nat), (u64 ((sy - r.dy).toNat * connRows) / r.dh : Nat))

/-- `RAIL_COL`. -/
def railCol : Int := 59

def connMenuWindowStart (count : Int) (selected : Nat) : Int :=
  if count > menuPageRows then
    let start : Int := (selected : Int) - menuPageRows / 2
    let start := if start < 0 then 0 else start
    if start > count - menuPageRows then count - menuPageRows else start
  else 0

/-- `conn_menu_hit_index`: the entry drawn at a cell, or -1. -/
def connMenuHitIndex (list : Option ConnEntryList) (selected : Nat) (gcol grow : Int) : Int :=
  if entryCount list = 0 then -1
  else if gcol < 1 ∨ gcol ≥ railCol then -1
  else
    let count : Int := entryCount list
    let start := connMenuWindowStart count selected
    let shown := if count - start > menuPageRows then (menuPageRows : Int) else count - start
    let i := grow - 4
    if i < 0 ∨ i ≥ shown then -1 else start + i

/-- A pixel's column of the surface is one of this column of cells. -/
def InColumn (px col : Nat) : Prop := col < connCols ∧ connColX col ≤ px ∧ px < connColX (col + 1)

instance (px col : Nat) : Decidable (InColumn px col) := inferInstanceAs (Decidable (_ ∧ _ ∧ _))

/-- A pixel's row of the surface is one of this row of cells. -/
def InRow (py row : Nat) : Prop := row < connRows ∧ connRowY row ≤ py ∧ py < connRowY (row + 1)

instance (py row : Nat) : Decidable (InRow py row) := inferInstanceAs (Decidable (_ ∧ _ ∧ _))

/-- The position at an offset into the rectangle shows a pixel of the surface inside this cell. -/
structure ShowsAt (sw sh x y row col : Nat) : Prop where
  left : x < (textRect sw sh).dw
  above : y < (textRect sw sh).dh
  column : InColumn (blitIndex connTextWidth (textRect sw sh).dw x) col
  row : InRow (blitIndex connTextHeight (textRect sw sh).dh y) row

/-- The position of the pointer shows a pixel of the surface inside this cell. -/
def ShowsCell (sw sh : Nat) (sx sy : Int) (row col : Nat) : Prop :=
  ∃ x y : Nat, sx = ((textRect sw sh).dx + x : Nat) ∧ sy = ((textRect sw sh).dy + y : Nat) ∧
    ShowsAt sw sh x y row col

/-- Every position is converted to the cell that it shows. -/
def PointsRight (sw sh : Nat) : Prop :=
  ∀ sx sy row col, ShowsCell sw sh sx sy row col →
    connGopToCell sw sh sx sy = some ((col : Int), (row : Int))

variable {sw sh x y row col d px py : Nat}

theorem surface_small : connTextWidth < 2 ^ 16 ∧ connTextHeight < 2 ^ 16 := by decide

/-! ### What is shown -/

theorem inColumn_bounds (h : InColumn px col) : 0 < px ∧ px < connTextWidth - 1 := by
  obtain ⟨inside, left, right⟩ := h
  unfold connColX pad at left right
  unfold connCols at inside
  have width : connTextWidth = 1104 := by decide
  omega

theorem inRow_bounds (h : InRow py row) : 0 < py ∧ py < connTextHeight - 1 := by
  obtain ⟨inside, above, below⟩ := h
  unfold connRowY pad cellHeight at above below
  unfold connRows at inside
  have height : connTextHeight = 723 := by decide
  omega

/-- So many positions over `n` samples that some are read between the ends, and none is skipped by the
fixed point. -/
def Resolves (n d : Nat) : Prop := 3 ≤ d ∧ d - 1 ≤ (n - 1) * 2 ^ 16

theorem resolves_of_inner {n : Nat} (small : n < 2 ^ 16) (inside : x < d)
    (inner : 0 < blitIndex n d x ∧ blitIndex n d x < n - 1) : Resolves n d := by
  by_contra coarse
  rw [blitIndex_eq small inside] at inner
  have ends := sample_ends (n := n) inside (by unfold Resolves at coarse; omega)
  omega

/-- A screen that shows a cell has room for it. -/
theorem ShowsAt.resolves (h : ShowsAt sw sh x y row col) :
    Resolves connTextWidth (textRect sw sh).dw ∧ Resolves connTextHeight (textRect sw sh).dh :=
  ⟨resolves_of_inner surface_small.1 h.left (inColumn_bounds h.column),
    resolves_of_inner surface_small.2 h.above (inRow_bounds h.row)⟩

/-! ### What is converted -/

/-- A number is a quotient exactly if it bounds the dividend from both sides. -/
theorem div_eq_iff_between {a b c : Nat} (pos : 0 < b) : a / b = c ↔ c * b ≤ a ∧ a < (c + 1) * b := by
  rw [Nat.div_eq_iff pos, Nat.succ_mul]
  omega

theorem connGopToCell_at (h : ShowsAt sw sh x y row col) :
    connGopToCell sw sh ((textRect sw sh).dx + x : Nat) ((textRect sw sh).dy + y : Nat) =
      some (((x * connCols / (textRect sw sh).dw : Nat) : Int),
        ((y * connRows / (textRect sw sh).dh : Nat) : Int)) := by
  have left := h.left
  have above := h.above
  obtain ⟨⟨-, across⟩, -, down⟩ := h.resolves
  have width : (textRect sw sh).dw ≤ sw := Nat.min_le_right _ _
  have height : (textRect sw sh).dh ≤ sh := Nat.min_le_right _ _
  have surface : connTextWidth = 1104 ∧ connTextHeight = 723 := by decide
  rw [surface.1] at across
  rw [surface.2] at down
  unfold connGopToCell
  rw [if_neg (by omega)]
  dsimp only
  rw [if_neg (by omega), show (((textRect sw sh).dx + x : Nat) - ((textRect sw sh).dx : Int)).toNat = x by omega,
    show (((textRect sw sh).dy + y : Nat) - ((textRect sw sh).dy : Int)).toNat = y by omega,
    u64_of_lt (by unfold connCols; omega), u64_of_lt (by unfold connRows; omega)]

/-- A position is converted right exactly where the surface, divided without its padding, has the same
column and the same row. -/
theorem connGopToCell_at_iff (h : ShowsAt sw sh x y row col) :
    connGopToCell sw sh ((textRect sw sh).dx + x : Nat) ((textRect sw sh).dy + y : Nat) =
        some ((col : Int), (row : Int)) ↔
      (col * (textRect sw sh).dw ≤ x * connCols ∧ x * connCols < (col + 1) * (textRect sw sh).dw) ∧
        row * (textRect sw sh).dh ≤ y * connRows ∧ y * connRows < (row + 1) * (textRect sw sh).dh := by
  rw [connGopToCell_at h, Option.some_inj, Prod.mk.injEq, Nat.cast_inj, Nat.cast_inj,
    div_eq_iff_between (Nat.lt_of_le_of_lt (Nat.zero_le x) h.left),
    div_eq_iff_between (Nat.lt_of_le_of_lt (Nat.zero_le y) h.above)]

/-! ### Positions that are converted wrong -/

/-- Where the first position behind the padding stands, and that all steps stay within the samples. -/
theorem firstAt_near {n : Nat} (several : 1 < d) (fine : d - 1 ≤ (n - 1) * 2 ^ 16)
    (half : 2 * pad ≤ n - 1) :
    firstAt n d pad < d ∧ pad * 2 ^ 16 ≤ firstAt n d pad * step n d ∧
      firstAt n d pad * step n d < pad * 2 ^ 16 + step n d ∧ (d - 1) * step n d ≤ (n - 1) * 2 ^ 16 := by
  obtain ⟨reached, near⟩ := firstAt_bounds (k := pad) (step_pos several fine)
  exact ⟨firstAt_lt several fine half, reached, near, mul_step_le n (by omega)⟩

/-- On a rectangle of at least 86 columns, the first position in the first column of cells is at least one
80th of the width from the edge. -/
theorem firstColumn_wrong (wide : 86 ≤ d) (fine : d - 1 ≤ (connTextWidth - 1) * 2 ^ 16) :
    ∃ x < d, ∃ col, InColumn (blitIndex connTextWidth d x) col ∧ x * connCols / d ≠ col := by
  have several : 85 ≤ d - 1 := by omega
  have surface : connTextWidth = 1104 := by decide
  rw [surface] at fine ⊢
  obtain ⟨inside, reached, near, steps⟩ := firstAt_near (by omega) fine (by unfold pad; omega)
  have small : 85 * step 1104 d ≤ (d - 1) * step 1104 d := Nat.mul_le_mul_right _ several
  refine ⟨firstAt 1104 d pad, inside, 0, ?_, fun same => ?_⟩
  · rw [blitIndex_eq (by decide) inside, sample]
    unfold pad at reached near ⊢
    refine ⟨by decide, ?_, ?_⟩
    · show 24 ≤ _
      omega
    · show _ < 37
      omega
  · have short := (div_eq_iff_between (by omega)).mp same
    have product : firstAt 1104 d pad * connCols * step 1104 d ≤ (d - 1) * step 1104 d :=
      Nat.mul_le_mul_right _ (by omega)
    rw [Nat.mul_right_comm] at product
    unfold pad connCols at *
    omega

/-- On a narrower one some position is, as each of these widths shows. -/
theorem someColumn_wrong : ∀ d < 86, 3 ≤ d → ∃ x < d,
    InColumn (sample 1104 d x) ((sample 1104 d x * 5 - 118) / 66) ∧
      x * connCols / d ≠ (sample 1104 d x * 5 - 118) / 66 := by
  decide +kernel

theorem column_wrong (resolves : Resolves connTextWidth d) :
    ∃ x < d, ∃ col, InColumn (blitIndex connTextWidth d x) col ∧ x * connCols / d ≠ col := by
  by_cases wide : 86 ≤ d
  · exact firstColumn_wrong wide resolves.2
  · obtain ⟨x, inside, shown, wrong⟩ := someColumn_wrong d (by omega) resolves.1
    refine ⟨x, inside, _, ?_, wrong⟩
    rw [blitIndex_eq surface_small.1 inside]
    exact shown

theorem row_shown (resolves : Resolves connTextHeight d) :
    ∃ y < d, ∃ row, InRow (blitIndex connTextHeight d y) row := by
  obtain ⟨three, fine⟩ := resolves
  have several : 2 ≤ d - 1 := by omega
  have surface : connTextHeight = 723 := by decide
  rw [surface] at fine ⊢
  obtain ⟨inside, reached, near, steps⟩ := firstAt_near (by omega) fine (by unfold pad; omega)
  have half : 2 * step 723 d ≤ (d - 1) * step 723 d := Nat.mul_le_mul_right _ several
  refine ⟨firstAt 723 d pad, inside, (blitIndex 723 d (firstAt 723 d pad) - 24) / 27, ?_⟩
  rw [blitIndex_eq (by decide) inside, sample]
  unfold InRow connRowY cellHeight connRows
  unfold pad at *
  omega

/-! ### The result -/

/-- The screen has room to show a cell. -/
def ShowsText (sw sh : Nat) : Prop :=
  Resolves connTextWidth (textRect sw sh).dw ∧ Resolves connTextHeight (textRect sw sh).dh

/-- Where a position is converted right, and that this is everywhere only where no cell is shown. -/
theorem connGopToCell_right_iff (sw sh : Nat) :
    (∀ x y row col, ShowsAt sw sh x y row col →
      (connGopToCell sw sh ((textRect sw sh).dx + x : Nat) ((textRect sw sh).dy + y : Nat) =
          some ((col : Int), (row : Int)) ↔
        (col * (textRect sw sh).dw ≤ x * connCols ∧ x * connCols < (col + 1) * (textRect sw sh).dw) ∧
          row * (textRect sw sh).dh ≤ y * connRows ∧ y * connRows < (row + 1) * (textRect sw sh).dh)) ∧
      (PointsRight sw sh ↔ ¬ ShowsText sw sh) := by
  refine ⟨fun x y row col shown => connGopToCell_at_iff shown, fun right text => ?_, fun bare => ?_⟩
  · obtain ⟨x, left, col, column, wrong⟩ := column_wrong text.1
    obtain ⟨y, above, row, shown_row⟩ := row_shown text.2
    have shown : ShowsAt sw sh x y row col := ⟨left, above, column, shown_row⟩
    have converted := right _ _ row col ⟨x, y, rfl, rfl, shown⟩
    rw [connGopToCell_at shown, Option.some_inj, Prod.mk.injEq, Nat.cast_inj] at converted
    exact wrong converted.1
  · rintro sx sy row col ⟨x, y, -, -, shown⟩
    exact absurd shown.resolves bare

/-- On a screen of 1920 by 1080 pixels the lower part of the first entry's row is converted to the second's. -/
theorem connGopToCell_next :
    ¬ PointsRight 1920 1080 ∧ ShowsCell 1920 1080 635 230 4 23 ∧
      connGopToCell 1920 1080 635 230 = some (24, 5) ∧
      connMenuHitIndex (some ⟨2, 0, false⟩) 0 23 4 = 0 ∧ connMenuHitIndex (some ⟨2, 0, false⟩) 0 24 5 = 1 := by
  have shown : ShowsCell 1920 1080 635 230 4 23 :=
    ⟨500, 230, by decide, by decide, by decide, by decide, by decide, by decide⟩
  have converted : connGopToCell 1920 1080 635 230 = some (24, 5) := by decide
  refine ⟨fun right => ?_, shown, converted, by decide, by decide⟩
  have wanted := right 635 230 4 23 shown
  rw [converted] at wanted
  exact absurd wanted (by decide)

end Meridian.Conn.Pointer
