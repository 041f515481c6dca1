import Xenia.Fb.Tile

/-!
# Pattern fills

`fbFill` fills a rectangle of a drawable with the tile or the stipple of a GC that was validated. Validation (`fbValidateGC`) fills narrow
patterns up to a word in place and reduces the colours and the function to masks.

A GC belongs to a format, its depth and its bits for each pixel, which its drawables and tiles have too.
-/

namespace Xenia.Fb

open Xenia.Lib Xenia.Lib.Bitmap

structure Format where
  bitsPerPixel : ℕ
  depth : ℕ
  ok : bitsPerPixel ∈ [1, 4, 8, 16, 32]

structure Pixmap (bitsPerPixel : ℕ) where
  bits : Words
  stride : ℤ
  width : ℤ
  height : ℤ
  width_pos : 0 < width
  height_pos : 0 < height
  fits : width * bitsPerPixel ≤ 32 * stride

inductive FillStyle
  | FillTiled
  | FillStippled
  | FillOpaqueStippled
deriving DecidableEq, Repr

/-- Which fields have changed since the last validation: the tile, the stipple, and those that the masks are reduced from. -/
structure Changes where
  GCTile : Bool
  GCStipple : Bool
  GCRop : Bool

structure FbGCPriv where
  and : FbBits
  xor : FbBits
  bgand : FbBits
  bgxor : FbBits
  fg : FbBits
  bg : FbBits
  pm : FbBits

/-- `none` for the tile is `tileIsPixel`. -/
structure GC (F : Format) where
  alu : BitVec 4
  planemask : FbBits
  fgPixel : FbBits
  bgPixel : FbBits
  fillStyle : FillStyle
  tile : Option (Pixmap F.bitsPerPixel)
  stipple : Option (Pixmap 1)
  patOrgX : ℤ
  patOrgY : ℤ
  stateChanges : Changes
  priv : FbGCPriv

/-! ## Validation -/

def FbFullMask (n : ℕ) : FbBits := if n = 32 then FB_ALLONES else ((1 : FbBits) <<< n) - 1

def FbBitsMask (x w : ℤ) : FbBits := FbScrRight FB_ALLONES (x % 32) &&& FbScrLeft FB_ALLONES ((32 - (x + w)) % 32)

/-- The loop over the lines of a pixmap. -/
def padLines (mask : FbBits) (width : ℕ) (stride : ℤ) : ℕ → ℤ → Words → Words
  | 0, _, m => m
  | height + 1, bits, m => padLines mask width stride height (bits + stride) (m.store bits (spread (m bits &&& mask) width))

def fbPadPixmap {bpp : ℕ} (pPixmap : Pixmap bpp) : Pixmap bpp :=
  let width := pPixmap.width * bpp
  { pPixmap with bits := padLines (FbBitsMask 0 width) width.toNat pPixmap.stride pPixmap.height.toNat 0 pPixmap.bits }

variable {F : Format}

/-- The reduced rop values of a GC. -/
def reducedRop (gc : GC F) : FbGCPriv :=
  let mask := FbFullMask F.bitsPerPixel
  let depthMask := FbFullMask F.depth
  let fg := spread (gc.fgPixel &&& mask) F.bitsPerPixel
  let bg := spread (gc.bgPixel &&& mask) F.bitsPerPixel
  let pm := spread (if gc.planemask &&& depthMask = depthMask then mask else gc.planemask &&& mask) F.bitsPerPixel
  { and := fbAnd gc.alu fg pm, xor := fbXor gc.alu fg pm, bgand := fbAnd gc.alu bg pm, bgxor := fbXor gc.alu bg pm, fg, bg, pm }

def fbValidateGC (gc : GC F) (changes : Changes) : GC F :=
  let tile := if changes.GCTile then
      gc.tile.map fun t => if FbEvenTile (t.width * (F.bitsPerPixel : ℤ)) then fbPadPixmap t else t
    else gc.tile
  let stipple := if changes.GCStipple then
      gc.stipple.map fun s => if s.width * (F.bitsPerPixel : ℤ) < 32 then fbPadPixmap s else s
    else gc.stipple
  { gc with tile, stipple, priv := if changes.GCRop then reducedRop gc else gc.priv }

/-- Validation for a drawable of the format. -/
def ValidateGC (gc : GC F) : GC F :=
  { fbValidateGC gc gc.stateChanges with stateChanges := { GCTile := false, GCStipple := false, GCRop := false } }

/-- What happens to a GC: fields change, which is noted, and it is validated. -/
inductive Step : GC F → GC F → Prop
  | change (gc new : GC F) (priv : new.priv = gc.priv)
      (tile : new.stateChanges.GCTile = true ∨ (new.stateChanges.GCTile = gc.stateChanges.GCTile ∧ new.tile = gc.tile))
      (stipple : new.stateChanges.GCStipple = true ∨ (new.stateChanges.GCStipple = gc.stateChanges.GCStipple ∧ new.stipple = gc.stipple))
      (rop : new.stateChanges.GCRop = true ∨ (new.stateChanges.GCRop = gc.stateChanges.GCRop ∧ new.alu = gc.alu ∧
        new.planemask = gc.planemask ∧ new.fgPixel = gc.fgPixel ∧ new.bgPixel = gc.bgPixel)) : Step gc new
  | validate (gc : GC F) : Step gc (ValidateGC gc)

/-- A GC is created with all fields changed. -/
def Created (gc : GC F) : Prop := gc.stateChanges = { GCTile := true, GCStipple := true, GCRop := true }

/-- A GC that was validated, after any changes and validations. -/
def Validated (gc : GC F) : Prop := ∃ first last, Created first ∧ Relation.ReflTransGen Step first last ∧ gc = ValidateGC last

/-! ## Stipples -/

/-- The bits of `height` lines from `dstX` on, `dstBpp` for each bit of the stipple. -/
def fbBltOne (src : Words) (srcLine srcStride srcX dst dstStride dstX dstBpp width height : ℤ) (fgand fgxor bgand bgxor : FbBits) :
    Words → Words :=
  mapBits fun A old =>
    let line := (A - 32 * dst) / (32 * dstStride)
    let x := (A - 32 * dst) % (32 * dstStride)
    if (dstX ≤ x ∧ x < dstX + width) ∧ 0 ≤ line ∧ line < height then
      if bit src (32 * (srcLine + line * srcStride) + srcX + (x - dstX) / dstBpp) then
        (old && fgand.getLsbD (x % 32).toNat) ^^ fgxor.getLsbD (x % 32).toNat
      else (old && bgand.getLsbD (x % 32).toNat) ^^ bgxor.getLsbD (x % 32).toNat
    else old

def fbStipple (dst dstStride dstX dstBpp width height : ℤ) (stip : Words) (stipStride stipWidth stipHeight : ℤ)
    (fgand fgxor bgand bgxor : FbBits) (xRot yRot : ℤ) (m : Words) : Words :=
  let stipY := modulus (-yRot) stipHeight
  let stipX := modulus (dstX.tdiv dstBpp - xRot) stipWidth
  pieces stipHeight 1 (fun stipY y h m =>
    pieces stipWidth dstBpp (fun sx x w m =>
      fbBltOne stip (stipY * stipStride) stipStride sx (dst + y * dstStride) dstStride x dstBpp w h fgand fgxor bgand bgxor m)
      width.toNat stipX dstX width m) height.toNat stipY 0 height m

/-! ## Filling -/

/-- A drawable: its place on the screen, and the pixmap with its bits, whose pixels are at an offset. -/
structure Drawable (F : Format) where
  x : ℤ
  y : ℤ
  xoff : ℤ
  yoff : ℤ
  stride : ℤ
  stride_pos : 0 < stride

/-- A rectangle inside the pixmap's lines. -/
structure Rect (d : Drawable F) where
  x : ℤ
  y : ℤ
  width : ℤ
  height : ℤ
  width_nonneg : 0 ≤ width
  height_nonneg : 0 ≤ height
  left : 0 ≤ x + d.xoff
  right : (x + d.xoff + width) * F.bitsPerPixel ≤ 32 * d.stride

/-- A tiled GC has a pixmap for its tile, a stippled one a stipple. -/
def fbFill (pDrawable : Drawable F) (pGC : GC F) (r : Rect pDrawable) (m : Words) : Words :=
  let dstStride := pDrawable.stride
  let dstBpp : ℤ := F.bitsPerPixel
  let dst := (r.y + pDrawable.yoff) * dstStride
  let xRot := pGC.patOrgX + pDrawable.x + pDrawable.xoff
  let yRot := pGC.patOrgY + pDrawable.y - r.y
  match pGC.fillStyle with
  | .FillTiled =>
    match pGC.tile with
    | none => m
    | some t =>
      fbTile dst dstStride ((r.x + pDrawable.xoff) * dstBpp) (r.width * dstBpp) r.height t.bits t.stride (t.width * dstBpp) t.height
        pGC.alu pGC.priv.pm (xRot * dstBpp) yRot m
  | _ =>
    match pGC.stipple with
    | none => m
    | some s =>
      if dstBpp = 1 then
        let alu := if pGC.fillStyle = .FillStippled then FbStipple1Rop pGC.alu pGC.fgPixel
          else FbOpaqueStipple1Rop pGC.alu pGC.fgPixel pGC.bgPixel
        fbTile dst dstStride (r.x + pDrawable.xoff) r.width r.height s.bits s.stride s.width s.height alu pGC.priv.pm xRot yRot m
      else
        let bgand := if pGC.fillStyle = .FillStippled then fbAnd GXnoop 0 FB_ALLONES else pGC.priv.bgand
        let bgxor := if pGC.fillStyle = .FillStippled then fbXor GXnoop 0 FB_ALLONES else pGC.priv.bgxor
        fbStipple dst dstStride ((r.x + pDrawable.xoff) * dstBpp) dstBpp (r.width * dstBpp) r.height s.bits s.stride s.width s.height
          pGC.priv.and pGC.priv.xor bgand bgxor xRot yRot m

end Xenia.Fb
