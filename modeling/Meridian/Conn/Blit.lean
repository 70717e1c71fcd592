import Meridian.Lib.Sampling
import Meridian.Lib.Word

/-!
# Scaling the text surface to the screen

The model of `ConnAspectRect` and `BlitScaledToGop` in `ui/conn_bridge.c`, with the widths of their products:
the surface is placed in the middle of the screen at the largest size that keeps its aspect, and each pixel
of it interpolates four of the surface's.
-/

namespace Meridian.Conn.Blit

open Lib.Word Lib.Sampling

structure AspectRect where
  dx : Nat
  dy : Nat
  dw : Nat
  dh : Nat
  deriving DecidableEq, Repr

/-- The size before the result is clamped to the screen. -/
def aspectSize (sw sh w h : Nat) : Nat × Nat :=
  if u64 (w * sh) ≤ u64 (h * sw) then (u64 (w * sh) / h, sh) else (sw, u64 (h * sw) / w)

/-- `if (D == 0) D = 1; if (D > s) D = s;` -/
def clampSize (s size : Nat) : Nat := min (if size = 0 then 1 else size) s

def connAspectRect (sw sh w h : Nat) : AspectRect :=
  let dw := clampSize sw (aspectSize sw sh w h).1
  let dh := clampSize sh (aspectSize sw sh w h).2
  { dx := (sw - dw) / 2, dy := (sh - dh) / 2, dw := dw, dh := dh }

/-- `EFI_GRAPHICS_OUTPUT_BLT_PIXEL`. -/
structure BltPixel where
  blue : UInt8
  green : UInt8
  red : UInt8
  reserved : UInt8
  deriving DecidableEq, Repr

/-- An integer cut to an `INT32`. -/
def int32 (v : Int) : Int := v.bmod (2 ^ 32)

/-- An integer cut to a `UINT32`. -/
def uint32 (v : Int) : Nat := (v % 2 ^ 32).toNat

/-- `CONN_LERP`. -/
def connLerp (a b f : Nat) : Nat :=
  u32 (a + uint32 (int32 ((int32 b - int32 a) * int32 f) / 2 ^ 16))

/-- `sx_step` and `sy_step`. -/
def blitStep (n d : Nat) : Nat := u32 (u64 ((n - 1) * 2 ^ 16) / (if d > 1 then d - 1 else 1))

/-- `sx` and `sy`: a position in the surface with sixteen bits behind the point. -/
def blitAt (n d x : Nat) : Nat := u32 (u64 (x * blitStep n d))

/-- `ix` and `iy`. -/
def blitIndex (n d x : Nat) : Nat := blitAt n d x / 2 ^ 16

/-- `ix1` and `iy1`. -/
def blitNext (n d x : Nat) : Nat :=
  if blitIndex n d x + 1 < n then blitIndex n d x + 1 else blitIndex n d x

/-- `fx` and `fy`. -/
def blitFraction (n d x : Nat) : Nat := blitAt n d x % 2 ^ 16

/-- A channel of a scaled pixel, from those of the four samples. -/
def blitChannel (p00 p01 p10 p11 : UInt8) (fx fy : Nat) : UInt8 :=
  UInt8.ofNat (connLerp (connLerp p00.toNat p01.toNat fx) (connLerp p10.toNat p11.toNat fx) fy)

/-- One call of `VideoBlt`: where it draws, what it reads of the source for the pixel at an offset, and the
pixel that it draws there. -/
structure Blt where
  dx : Nat
  dy : Nat
  width : Nat
  height : Nat
  reads : Nat → Nat → List (Nat × Nat)
  pixel : Nat → Nat → BltPixel

/-- A rectangle of the surface, as it is. -/
def blitPlain (back : Nat → BltPixel) (w dx dy width height : Nat) : Blt :=
  { dx := dx, dy := dy, width := width, height := height
    reads := fun x y => [(x, y)]
    pixel := fun x y => back (y * w + x) }

/-- `Dst`, and the samples that each pixel of it is made of. -/
def blitScaled (back : Nat → BltPixel) (w h : Nat) (r : AspectRect) : Blt :=
  let source (x y : Nat) : BltPixel := back (y * w + x)
  { dx := r.dx, dy := r.dy, width := r.dw, height := r.dh
    reads := fun xx yy =>
      [(blitIndex w r.dw xx, blitIndex h r.dh yy), (blitNext w r.dw xx, blitIndex h r.dh yy),
        (blitIndex w r.dw xx, blitNext h r.dh yy), (blitNext w r.dw xx, blitNext h r.dh yy)]
    pixel := fun xx yy =>
      let p00 := source (blitIndex w r.dw xx) (blitIndex h r.dh yy)
      let p01 := source (blitNext w r.dw xx) (blitIndex h r.dh yy)
      let p10 := source (blitIndex w r.dw xx) (blitNext h r.dh yy)
      let p11 := source (blitNext w r.dw xx) (blitNext h r.dh yy)
      let fx := blitFraction w r.dw xx
      let fy := blitFraction h r.dh yy
      { blue := blitChannel p00.blue p01.blue p10.blue p11.blue fx fy
        green := blitChannel p00.green p01.green p10.green p11.green fx fy
        red := blitChannel p00.red p01.red p10.red p11.red fx fy
        reserved := 0 } }

/-- `BlitScaledToGop`, without the letterbox; nothing where the surface or the screen is empty. Without
memory for the scaled pixels the surface is cropped. -/
def blitScaledToGop (back : Nat → BltPixel) (w h sw sh : Nat) (allocated : Bool) : Option Blt :=
  if w = 0 ∨ h = 0 ∨ sw = 0 ∨ sh = 0 then none
  else
    let r := connAspectRect sw sh w h
    if r.dw = w ∧ r.dh = h then some (blitPlain back w r.dx r.dy w h)
    else if allocated then some (blitScaled back w h r)
    else
      let bw := min w sw
      let bh := min h sh
      some (blitPlain back w ((sw - bw) / 2) ((sh - bh) / 2) bw bh)

/-! ### Sizes -/

variable {sw sh w h n d x a b f : Nat}

theorem clampSize_bounds {s : Nat} (room : 0 < s) (size : Nat) : 0 < clampSize s size ∧ clampSize s size ≤ s := by
  unfold clampSize
  split <;> omega

/-- The rectangle is not empty and lies on the screen. -/
theorem connAspectRect_inside (w h : Nat) (wide : 0 < sw) (tall : 0 < sh) :
    (0 < (connAspectRect sw sh w h).dw ∧ 0 < (connAspectRect sw sh w h).dh) ∧
      (connAspectRect sw sh w h).dx + (connAspectRect sw sh w h).dw ≤ sw ∧
        (connAspectRect sw sh w h).dy + (connAspectRect sw sh w h).dh ≤ sh := by
  have across := clampSize_bounds wide (aspectSize sw sh w h).1
  have down := clampSize_bounds tall (aspectSize sw sh w h).2
  refine ⟨⟨across.1, down.1⟩, ?_, ?_⟩
  · show (sw - clampSize sw _) / 2 + clampSize sw _ ≤ sw
    omega
  · show (sh - clampSize sh _) / 2 + clampSize sh _ ≤ sh
    omega

/-! ### Samples -/

/-- A surface of fewer than `2 ^ 16` samples is stepped over without a wrap. -/
theorem blitStep_eq (small : n < 2 ^ 16) (d : Nat) : blitStep n d = step n d := by
  have shifted : (n - 1) * 2 ^ 16 < 2 ^ 32 := by omega
  unfold blitStep step
  rw [u64_of_lt (by omega), u32_of_lt (Nat.lt_of_le_of_lt (Nat.div_le_self _ _) shifted)]

theorem mul_blitStep_lt (small : n < 2 ^ 16) (inside : x < d) : x * blitStep n d < 2 ^ 32 := by
  rw [blitStep_eq small]
  have read := mul_step_le n inside
  omega

theorem blitAt_eq (small : n < 2 ^ 16) (inside : x < d) : blitAt n d x = x * step n d := by
  have fits := mul_blitStep_lt small inside
  unfold blitAt
  rw [u64_of_lt (by omega), u32_of_lt fits, blitStep_eq small]

theorem blitIndex_eq (small : n < 2 ^ 16) (inside : x < d) : blitIndex n d x = sample n d x := by
  rw [blitIndex, blitAt_eq small inside, sample]

theorem blitIndex_lt (small : n < 2 ^ 16) (some_sample : 0 < n) (inside : x < d) : blitIndex n d x < n := by
  rw [blitIndex_eq small inside]
  exact sample_lt some_sample inside

theorem blitNext_lt (small : n < 2 ^ 16) (some_sample : 0 < n) (inside : x < d) : blitNext n d x < n := by
  have here := blitIndex_lt small some_sample inside
  unfold blitNext
  split <;> omega

/-! ### Interpolation -/

/-- The product of an interpolation fits an `INT32`. -/
def LerpFits (a b f : Nat) : Prop := -(2 ^ 31) ≤ ((b : Int) - a) * f ∧ ((b : Int) - a) * f < 2 ^ 31

theorem lerpFits_of_bytes (first : a ≤ 255) (second : b ≤ 255) (part : f < 2 ^ 16) : LerpFits a b f := by
  have fraction : (f : Int) ≤ 2 ^ 16 := by omega
  have most : ((b : Int) - a) * f ≤ 255 * 2 ^ 16 :=
    mul_le_mul (by omega) fraction (by omega) (by decide)
  have least : ((a : Int) - b) * f ≤ 255 * 2 ^ 16 :=
    mul_le_mul (by omega) fraction (by omega) (by decide)
  have turned : ((a : Int) - b) * f = -(((b : Int) - a) * f) := by rw [← neg_sub, neg_mul]
  unfold LerpFits
  omega

theorem connLerp_eq (first : a ≤ 255) (second : b ≤ 255) (part : f < 2 ^ 16) :
    (connLerp a b f : Int) = a + ((b : Int) - a) * f / 2 ^ 16 := by
  obtain ⟨least, most⟩ := lerpFits_of_bytes first second part
  obtain ⟨above, below⟩ := lerp_between (a := (a : Int)) (b := (b : Int)) (f := (f : Int)) (by omega) (by omega)
  have small : ∀ v : Int, -(2 ^ 31) ≤ v → v < 2 ^ 31 → int32 v = v := fun v low high =>
    Int.bmod_eq_of_le (by omega) (by omega)
  unfold connLerp uint32 u32
  rw [small a (by omega) (by omega), small b (by omega) (by omega), small f (by omega) (by omega),
    small _ least most]
  generalize ((b : Int) - a) * f / 2 ^ 16 = q at above below ⊢
  omega

theorem connLerp_between (first : a ≤ 255) (second : b ≤ 255) (part : f < 2 ^ 16) :
    min a b ≤ connLerp a b f ∧ connLerp a b f ≤ max a b := by
  have bounds := lerp_between (a := (a : Int)) (b := (b : Int)) (f := (f : Int)) (by omega) (by omega)
  rw [← connLerp_eq first second part] at bounds
  omega

/-- The value lies between the least and the greatest of these. -/
def Between (values : List Nat) (v : Nat) : Prop := (∃ a ∈ values, a ≤ v) ∧ ∃ b ∈ values, v ≤ b

theorem between_self (v : Nat) : Between [v] v :=
  ⟨⟨v, List.mem_singleton_self v, Nat.le_refl v⟩, v, List.mem_singleton_self v, Nat.le_refl v⟩

/-- Between two values, of which each lies between two others. -/
theorem between_four {a b c d x y v : Nat} (upper : min a b ≤ x ∧ x ≤ max a b) (lower : min c d ≤ y ∧ y ≤ max c d)
    (both : min x y ≤ v ∧ v ≤ max x y) : Between [a, b, c, d] v := by
  unfold Between
  simp only [List.mem_cons, List.not_mem_nil, or_false, exists_eq_or_imp, exists_eq_left]
  constructor <;> omega

theorem byte_le (p : UInt8) : p.toNat ≤ 255 := Nat.le_of_lt_succ p.toNat_lt

theorem blitChannel_between (p00 p01 p10 p11 : UInt8) {fx fy : Nat} (across : fx < 2 ^ 16)
    (down : fy < 2 ^ 16) :
    Between [p00.toNat, p01.toNat, p10.toNat, p11.toNat] (blitChannel p00 p01 p10 p11 fx fy).toNat := by
  have upper := connLerp_between (byte_le p00) (byte_le p01) across
  have lower := connLerp_between (byte_le p10) (byte_le p11) across
  have above : connLerp p00.toNat p01.toNat fx ≤ 255 :=
    upper.2.trans (max_le (byte_le p00) (byte_le p01))
  have below : connLerp p10.toNat p11.toNat fx ≤ 255 :=
    lower.2.trans (max_le (byte_le p10) (byte_le p11))
  have both := connLerp_between above below down
  unfold blitChannel
  rw [UInt8.toNat_ofNat_of_lt' (Nat.lt_of_le_of_lt (both.2.trans (max_le above below)) (by decide))]
  exact between_four upper lower both

/-! ### The products -/

/-- No product of a blit from a surface of this size wraps, in the width that the code takes it in. -/
structure Unwrapped (w h sw sh : Nat) (r : AspectRect) : Prop where
  aspect : w * sh < 2 ^ 64 ∧ h * sw < 2 ^ 64
  buffer : r.dw * r.dh < 2 ^ 64 ∧ r.dw * r.dh * 4 < 2 ^ 64
  strides : w * 4 < 2 ^ 64 ∧ r.dw * 4 < 2 ^ 64
  steps : (w - 1) * 2 ^ 16 < 2 ^ 32 ∧ (h - 1) * 2 ^ 16 < 2 ^ 32
  columns : ∀ xx < r.dw, xx * blitStep w r.dw < 2 ^ 32
  rows : ∀ yy < r.dh, yy * blitStep h r.dh < 2 ^ 32 ∧ blitIndex h r.dh yy * w < 2 ^ 64 ∧
    blitNext h r.dh yy * w < 2 ^ 64 ∧ yy * r.dw < 2 ^ 64
  lerps : ∀ (p00 p01 p10 p11 : UInt8) (xx yy : Nat),
    LerpFits p00.toNat p01.toNat (blitFraction w r.dw xx) ∧
      LerpFits p10.toNat p11.toNat (blitFraction w r.dw xx) ∧
      LerpFits (connLerp p00.toNat p01.toNat (blitFraction w r.dw xx))
        (connLerp p10.toNat p11.toNat (blitFraction w r.dw xx)) (blitFraction h r.dh yy)

theorem blitFraction_lt (n d x : Nat) : blitFraction n d x < 2 ^ 16 := Nat.mod_lt _ (by decide)

theorem product_lt {p q : Nat} (hp : p < 2 ^ 16) (hq : q < 2 ^ 16) : p * q < 2 ^ 32 :=
  calc p * q < 2 ^ 16 * 2 ^ 16 := Nat.mul_lt_mul'' hp hq
    _ = 2 ^ 32 := by decide

theorem unwrapped {r : AspectRect} (wide : 0 < w ∧ w < 2 ^ 16) (tall : 0 < h ∧ h < 2 ^ 16)
    (across : sw < 2 ^ 16) (down : sh < 2 ^ 16) (dw : r.dw ≤ sw) (dh : r.dh ≤ sh) : Unwrapped w h sw sh r where
  aspect := by
    have first := product_lt wide.2 down
    have second := product_lt tall.2 across
    omega
  buffer := by
    have area := product_lt (Nat.lt_of_le_of_lt dw across) (Nat.lt_of_le_of_lt dh down)
    omega
  strides := by omega
  steps := by omega
  columns := fun xx inside => mul_blitStep_lt wide.2 inside
  rows := fun yy inside => by
    have here := product_lt (Nat.lt_trans (blitIndex_lt tall.2 tall.1 inside) tall.2) wide.2
    have next := product_lt (Nat.lt_trans (blitNext_lt tall.2 tall.1 inside) tall.2) wide.2
    have line := product_lt (show yy < 2 ^ 16 by omega) (show r.dw < 2 ^ 16 by omega)
    exact ⟨mul_blitStep_lt tall.2 inside, by omega, by omega, by omega⟩
  lerps := fun p00 p01 p10 p11 xx yy => by
    have part := blitFraction_lt w r.dw xx
    have upper := connLerp_between (byte_le p00) (byte_le p01) part
    have lower := connLerp_between (byte_le p10) (byte_le p11) part
    exact ⟨lerpFits_of_bytes (byte_le p00) (byte_le p01) part, lerpFits_of_bytes (byte_le p10) (byte_le p11) part,
      lerpFits_of_bytes (upper.2.trans (max_le (byte_le p00) (byte_le p01)))
        (lower.2.trans (max_le (byte_le p10) (byte_le p11))) (blitFraction_lt h r.dh yy)⟩

/-! ### The blit -/

/-- What is drawn is on the screen and read from the surface, each channel from those that are read for it. -/
structure Drawn (back : Nat → BltPixel) (w h sw sh : Nat) (blt : Blt) : Prop where
  onScreen : (0 < blt.width ∧ 0 < blt.height) ∧ blt.dx + blt.width ≤ sw ∧ blt.dy + blt.height ≤ sh
  reads : ∀ x < blt.width, ∀ y < blt.height, ∀ s ∈ blt.reads x y, s.1 < w ∧ s.2 < h
  between : ∀ x < blt.width, ∀ y < blt.height, ∀ channel ∈ [BltPixel.blue, BltPixel.green, BltPixel.red],
    Between ((blt.reads x y).map fun s => (channel (back (s.2 * w + s.1))).toNat) (channel (blt.pixel x y)).toNat

theorem drawn_plain (back : Nat → BltPixel) {dx dy width height : Nat} (size : 0 < width ∧ 0 < height)
    (across : dx + width ≤ sw) (down : dy + height ≤ sh) (wide : width ≤ w) (tall : height ≤ h) :
    Drawn back w h sw sh (blitPlain back w dx dy width height) where
  onScreen := ⟨size, across, down⟩
  reads := fun x left y below s read => by
    obtain rfl := List.mem_singleton.mp read
    exact ⟨Nat.lt_of_lt_of_le left wide, Nat.lt_of_lt_of_le below tall⟩
  between := fun _ _ _ _ _ _ => between_self _

theorem drawn_scaled (back : Nat → BltPixel) {r : AspectRect} (wide : 0 < w ∧ w < 2 ^ 16)
    (tall : 0 < h ∧ h < 2 ^ 16)
    (onScreen : (0 < r.dw ∧ 0 < r.dh) ∧ r.dx + r.dw ≤ sw ∧ r.dy + r.dh ≤ sh) :
    Drawn back w h sw sh (blitScaled back w h r) where
  onScreen := onScreen
  reads := fun x left y below s read => by
    have ix := blitIndex_lt wide.2 wide.1 left
    have ix1 := blitNext_lt wide.2 wide.1 left
    have iy := blitIndex_lt tall.2 tall.1 below
    have iy1 := blitNext_lt tall.2 tall.1 below
    simp only [blitScaled, List.mem_cons, List.not_mem_nil, or_false] at read
    obtain rfl | rfl | rfl | rfl := read
    · exact ⟨ix, iy⟩
    · exact ⟨ix1, iy⟩
    · exact ⟨ix, iy1⟩
    · exact ⟨ix1, iy1⟩
  between := fun x _ y _ channel listed => by
    have across := blitFraction_lt w r.dw x
    have down := blitFraction_lt h r.dh y
    simp only [List.mem_cons, List.not_mem_nil, or_false] at listed
    obtain rfl | rfl | rfl := listed <;> exact blitChannel_between _ _ _ _ across down

/-- The rectangle is on the screen, nothing wraps, and what is drawn lies between what it is made of. -/
theorem blitScaledToGop_inside (back : Nat → BltPixel) (allocated : Bool) (wide : 1 ≤ w ∧ w ≤ 65535)
    (tall : 1 ≤ h ∧ h ≤ 65535) (across : 1 ≤ sw ∧ sw ≤ 65535) (down : 1 ≤ sh ∧ sh ≤ 65535) :
    ((0 < (connAspectRect sw sh w h).dw ∧ 0 < (connAspectRect sw sh w h).dh) ∧
      (connAspectRect sw sh w h).dx + (connAspectRect sw sh w h).dw ≤ sw ∧
      (connAspectRect sw sh w h).dy + (connAspectRect sw sh w h).dh ≤ sh) ∧
    Unwrapped w h sw sh (connAspectRect sw sh w h) ∧
    ∃ blt, blitScaledToGop back w h sw sh allocated = some blt ∧ Drawn back w h sw sh blt := by
  have inside := connAspectRect_inside w h across.1 down.1
  refine ⟨inside, unwrapped (by omega) (by omega) (by omega) (by omega) (by omega) (by omega), ?_⟩
  unfold blitScaledToGop
  rw [if_neg (by omega)]
  dsimp only
  split
  · rename_i same
    rw [same.1, same.2] at inside
    exact ⟨_, rfl, drawn_plain back (by omega) inside.2.1 inside.2.2 (Nat.le_refl w) (Nat.le_refl h)⟩
  · split
    · exact ⟨_, rfl, drawn_scaled back (by omega) (by omega) inside⟩
    · exact ⟨_, rfl, drawn_plain back (by omega) (by omega) (by omega) (by omega) (by omega)⟩

/-- A surface of two pixels on a screen of three by two. -/
theorem blitScaledToGop_inside_two :
    ∃ blt, blitScaledToGop (fun i => ⟨UInt8.ofNat i, 0, 0, 0⟩) 2 1 3 2 true = some blt ∧
      Drawn (fun i => ⟨UInt8.ofNat i, 0, 0, 0⟩) 2 1 3 2 blt :=
  (blitScaledToGop_inside (fun i => ⟨UInt8.ofNat i, 0, 0, 0⟩) true ⟨by decide, by decide⟩
    ⟨by decide, by decide⟩ ⟨by decide, by decide⟩ ⟨by decide, by decide⟩).2.2

end Meridian.Conn.Blit
