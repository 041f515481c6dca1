import Xenia.Lib.Bitmap
import Xenia.Fb.Rop

/-!
# Tiles

`fbTile` fills with a tile. When the width of the tile is a power of two of at most 32 bits, a line of the tile is one word that was
filled up when the GC was validated, and `fbEvenTile` rotates it; otherwise `fbOddTile` copies the tile piece by piece.

Positions along a line are in bits, the bit 0 of a word is its leftmost, and a stride is in words; `FB_UNIT` is 32. `fbBlt` is the
operation on single bits that it stands for.
-/

namespace Xenia.Fb

open Xenia.Lib Xenia.Lib.Bitmap

/-- `if ((d = a % b) < 0) d += b` -/
def modulus (a b : ℤ) : ℤ := if a.tmod b < 0 then a.tmod b + b else a.tmod b

def FbScrLeft (x : FbBits) (n : ℤ) : FbBits := x >>> n.toNat
def FbScrRight (x : FbBits) (n : ℤ) : FbBits := x <<< n.toNat

def FbRotLeft (x : FbBits) (n : ℤ) : FbBits := FbScrLeft x n ||| (if n ≠ 0 then FbScrRight x (32 - n) else 0)

def FbLeftMask (x : ℤ) : FbBits := if x % 32 ≠ 0 then FbScrRight FB_ALLONES (x % 32) else 0

def FbRightMask (x : ℤ) : FbBits := if (32 - x) % 32 ≠ 0 then FbScrLeft FB_ALLONES ((32 - x) % 32) else 0

/-- The mask of the first word, the words in the middle and the mask of the last word, of `w` bits from `x` on. -/
structure MaskBits where
  l : FbBits
  n : ℤ
  r : FbBits

def FbMaskBits (x w : ℤ) : MaskBits :=
  let r := FbRightMask (x + w)
  let l := FbLeftMask x
  if l ≠ 0 then
    let n := w - (32 - x % 32)
    if n < 0 then { l := l &&& r, n := 0, r := 0 } else { l, n := n / 32, r }
  else { l, n := w / 32, r }

def FbEvenTile (w : ℤ) : Bool := decide (w ≤ 32) && decide (w.toNat &&& (w.toNat - 1) = 0)

/-- One line: the word at `dst` with the mask of the first word, the words in the middle, and the word after them. The pointer moves. -/
def evenTileLine (mask : MaskBits) (and xor : FbBits) (dst : ℤ) (m : Words) : ℤ × Words :=
  let m := if mask.l ≠ 0 then m.store dst (FbDoMaskRRop (m dst) and xor mask.l) else m
  let dst := if mask.l ≠ 0 then dst + 1 else dst
  let s := (List.range mask.n.toNat).foldl (fun (s : ℤ × Words) _ =>
    (s.1 + 1, s.2.store s.1 (if and = 0 then xor else FbDoRRop (s.2 s.1) and xor))) (dst, m)
  (s.1, if mask.r ≠ 0 then s.2.store s.1 (FbDoMaskRRop (s.2 s.1) and xor mask.r) else s.2)

/-- The loop over the lines, with the line of the tile that is next. -/
def evenTileLines (mask : MaskBits) (dstStride : ℤ) (tile : Words) (tileStart tileStride tileEnd : ℤ) (alu : BitVec 4) (pm : FbBits)
    (rot : ℤ) : ℕ → ℤ → ℤ → Words → Words
  | 0, _, _, m => m
  | height + 1, t, dst, m =>
    let bits := tile t
    let t := t + tileStride
    let t := if t ≥ tileEnd then tileStart else t
    let bits := FbRotLeft bits rot
    let s := evenTileLine mask (fbAnd alu bits pm) (fbXor alu bits pm) dst m
    evenTileLines mask dstStride tile tileStart tileStride tileEnd alu pm rot height t (s.1 + dstStride) s.2

def fbEvenTile (dst dstStride dstX width : ℤ) (height : ℕ) (tile : Words) (tileStride tileHeight : ℤ) (alu : BitVec 4) (pm : FbBits)
    (xRot yRot : ℤ) (m : Words) : Words :=
  let dst := dst + dstX / 32
  let mask := FbMaskBits (dstX % 32) width
  let dstStride := if mask.l ≠ 0 then dstStride - 1 else dstStride
  let dstStride := dstStride - mask.n
  let tileY := modulus (-yRot) tileHeight
  evenTileLines mask dstStride tile 0 tileStride (tileHeight * tileStride) alu pm (modulus (-xRot) 32) height (tileY * tileStride) dst m

/-- The bits of `height` lines from `dstX` on, each with the bit of the source. -/
def fbBlt (src : Words) (srcLine srcStride srcX dst dstStride dstX width height : ℤ) (alu : BitVec 4) (pm : FbBits) : Words → Words :=
  mapBits fun A old =>
    let line := (A - 32 * dst) / (32 * dstStride)
    let x := (A - 32 * dst) % (32 * dstStride)
    if (dstX ≤ x ∧ x < dstX + width) ∧ 0 ≤ line ∧ line < height then
      if pm.getLsbD (x % 32).toNat then ropBit alu (bit src (32 * (srcLine + line * srcStride) + srcX + (x - dstX))) old else old
    else old

def fbOddTile (dst dstStride dstX width height : ℤ) (tile : Words) (tileStride tileWidth tileHeight : ℤ) (alu : BitVec 4) (pm : FbBits)
    (xRot yRot : ℤ) (m : Words) : Words :=
  let tileY := modulus (-yRot) tileHeight
  pieces tileHeight 1 (fun tileY y h m =>
    let tileX := modulus (dstX - xRot) tileWidth
    pieces tileWidth 1 (fun tileX x w m =>
      fbBlt tile (tileY * tileStride) tileStride tileX (dst + y * dstStride) dstStride x w h alu pm m)
      width.toNat tileX dstX width m) height.toNat tileY 0 height m

def fbTile (dst dstStride dstX width height : ℤ) (tile : Words) (tileStride tileWidth tileHeight : ℤ) (alu : BitVec 4) (pm : FbBits)
    (xRot yRot : ℤ) (m : Words) : Words :=
  if FbEvenTile tileWidth then fbEvenTile dst dstStride dstX width height.toNat tile tileStride tileHeight alu pm xRot yRot m
  else fbOddTile dst dstStride dstX width height tile tileStride tileWidth tileHeight alu pm xRot yRot m

end Xenia.Fb
