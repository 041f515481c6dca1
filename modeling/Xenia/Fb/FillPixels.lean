import Xenia.Fb.FillBits

/-!
# Pattern fills, pixel by pixel

`patternPixel` is what the protocol asks of a pixel for its place in the pattern. `pattern_fill_correct`: a fill with a validated GC gives
each pixel of the rectangle that, and changes nothing else; so a rectangle may be filled in pieces, and the two ways to fill with a tile
agree.
-/

namespace Xenia.Fb

open Xenia.Lib Xenia.Lib.Bitmap BitVec

/-! ## Pixels -/

/-- The pixel in the column `X` of the line `Y`. -/
def pixelAt (bpp : ℕ) (m : Words) (stride X Y : ℤ) : BitVec bpp := (m (Y * stride + X * bpp / 32)).extractLsb' (X * bpp % 32).toNat bpp

/-- A pattern goes on beyond its pixmap. -/
def Pixmap.pixel {bpp : ℕ} (p : Pixmap bpp) (u v : ℤ) : BitVec bpp := pixelAt bpp p.bits p.stride (u % p.width) (v % p.height)

variable {F : Format}

/-- The planes that a GC changes; when it has all planes of the depth, the bits beyond the depth are written too. -/
def planes (gc : GC F) : BitVec F.bitsPerPixel :=
  if gc.planemask &&& FbFullMask F.depth = FbFullMask F.depth then BitVec.allOnes _ else gc.planemask.setWidth _

/-- A pixel at the place `u`, `v` of the pattern of a GC. -/
def patternPixel (gc : GC F) (u v : ℤ) (old : BitVec F.bitsPerPixel) : BitVec F.bitsPerPixel :=
  match gc.fillStyle, gc.tile, gc.stipple with
  | .FillTiled, some t, _ => masked (planes gc) (GX gc.alu (t.pixel u v) old) old
  | .FillStippled, _, some s => if s.pixel u v = 1 then masked (planes gc) (GX gc.alu (gc.fgPixel.setWidth _) old) old else old
  | .FillOpaqueStippled, _, some s =>
    masked (planes gc) (GX gc.alu (if s.pixel u v = 1 then gc.fgPixel.setWidth _ else gc.bgPixel.setWidth _) old) old
  | _, _, _ => old

namespace Rect

variable {d : Drawable F}

/-- The pixels of a rectangle. -/
def Has (r : Rect d) (px py : ℤ) : Prop := (r.x ≤ px ∧ px < r.x + r.width) ∧ r.y ≤ py ∧ py < r.y + r.height

instance (r : Rect d) (px py : ℤ) : Decidable (r.Has px py) := inferInstanceAs (Decidable (_ ∧ _))

end Rect

/-- The pixel of a drawable. -/
def Drawable.pixel (d : Drawable F) (m : Words) (px py : ℤ) : BitVec F.bitsPerPixel :=
  pixelAt F.bitsPerPixel m d.stride (px + d.xoff) (py + d.yoff)

/-- The pixmap has a column for this. -/
def Drawable.Column (d : Drawable F) (px : ℤ) : Prop := 0 ≤ px + d.xoff ∧ (px + d.xoff + 1) * F.bitsPerPixel ≤ 32 * d.stride

/-! ## Bits of pixels -/

variable {bpp k : ℕ} {m : Words} {stride X Y : ℤ}

/-- The bits of a pixel are in one word. -/
theorem getLsbD_pixelAt (hbpp : bpp ∈ [1, 4, 8, 16, 32]) (hk : k < bpp) :
    (pixelAt bpp m stride X Y).getLsbD k = bit m (32 * (Y * stride) + (X * bpp + k)) := by
  have hin : X * (bpp : ℤ) % 32 + k < 32 := by
    simp only [List.mem_cons, List.not_mem_nil, or_false] at hbpp
    rcases hbpp with rfl | rfl | rfl | rfl | rfl <;> push_cast <;> omega
  unfold pixelAt bit
  generalize X * (bpp : ℤ) = P at *
  have hdiv : (32 * (Y * stride) + (P + k)) / 32 = Y * stride + P / 32 := by omega
  have hmod : ((32 * (Y * stride) + (P + k)) % 32).toNat = (P % 32).toNat + k := by omega
  rw [hdiv, hmod, BitVec.getLsbD_extractLsb', decide_eq_true hk, Bool.true_and]

theorem getLsbD_FbFullMask (hbpp : bpp ∈ [1, 4, 8, 16, 32]) (hk : k < 32) : (FbFullMask bpp).getLsbD k = decide (k < bpp) := by
  have hall : ∀ n ∈ [1, 4, 8, 16, 32], ∀ k < 32, (FbFullMask n).getLsbD k = decide (k < n) := by decide
  exact hall bpp hbpp k hk

/-- A pixel value for each pixel of a word. -/
theorem getLsbD_spread_full (F : Format) (v : FbBits) (hk : k < 32) :
    (spread (v &&& FbFullMask F.bitsPerPixel) F.bitsPerPixel).getLsbD k = v.getLsbD (k % F.bitsPerPixel) := by
  have hmod := Nat.mod_lt k F.pos
  have hle := Nat.le_of_dvd (by decide) F.dvd
  rw [getLsbD_spread F.pos _ hk, BitVec.getLsbD_and, getLsbD_FbFullMask F.ok (by omega), decide_eq_true hmod, Bool.and_true]
  intro j hj hge
  rw [BitVec.getLsbD_and, getLsbD_FbFullMask F.ok hj, decide_eq_false (Nat.not_lt.2 hge), Bool.and_false]

theorem getLsbD_planes (gc : GC F) (hk : k < 32) :
    (reducedRop gc).pm.getLsbD k = (planes gc).getLsbD (k % F.bitsPerPixel) := by
  have hmod := Nat.mod_lt k F.pos
  unfold reducedRop planes
  dsimp only
  by_cases hall : gc.planemask &&& FbFullMask F.depth = FbFullMask F.depth
  · have hself := getLsbD_spread_full F (FbFullMask F.bitsPerPixel) hk
    have hle := Nat.le_of_dvd (by decide) F.dvd
    rw [BitVec.and_self] at hself
    rw [if_pos hall, if_pos hall, hself, getLsbD_FbFullMask F.ok (by omega), getLsbD_allOnes]
  · rw [if_neg hall, if_neg hall, getLsbD_spread_full F _ hk, getLsbD_setWidth, decide_eq_true hmod, Bool.true_and]

/-! ## One bit of a fill -/

/-- What a fill does to the bit `k` of a pixel. -/
def patternBit (gc : GC F) (u v : ℤ) (k : ℕ) (old : Bool) : Bool :=
  let rop src := if (planes gc).getLsbD k then ropBit gc.alu src old else old
  match gc.fillStyle, gc.tile, gc.stipple with
  | .FillTiled, some t, _ => rop ((t.pixel u v).getLsbD k)
  | .FillStippled, _, some s => if s.pixel u v = 1 then rop (gc.fgPixel.getLsbD k) else old
  | .FillOpaqueStippled, _, some s => rop (if s.pixel u v = 1 then gc.fgPixel.getLsbD k else gc.bgPixel.getLsbD k)
  | _, _, _ => old

theorem getLsbD_masked_GX {w : ℕ} (alu : BitVec 4) (pm src old : BitVec w) (hk : k < w) :
    (masked pm (GX alu src old) old).getLsbD k =
      if pm.getLsbD k then ropBit alu (src.getLsbD k) (old.getLsbD k) else old.getLsbD k := by
  unfold masked
  rw [getLsbD_or, getLsbD_and, getLsbD_and, getLsbD_not, decide_eq_true hk, getLsbD_GX _ _ _ hk]
  cases pm.getLsbD k <;> simp

theorem getLsbD_patternPixel (gc : GC F) (u v : ℤ) (old : BitVec F.bitsPerPixel) (hk : k < F.bitsPerPixel) :
    (patternPixel gc u v old).getLsbD k = patternBit gc u v k (old.getLsbD k) := by
  unfold patternPixel patternBit
  have hset : ∀ v : FbBits, (v.setWidth F.bitsPerPixel).getLsbD k = v.getLsbD k := by
    intro v
    rw [BitVec.getLsbD_setWidth, decide_eq_true hk, Bool.true_and]
  cases gc.fillStyle <;> cases gc.tile <;> cases gc.stipple <;> dsimp only
  case FillTiled.some.none | FillTiled.some.some => exact getLsbD_masked_GX _ _ _ _ hk
  case FillStippled.none.some s | FillStippled.some.some s =>
    by_cases hs : s.pixel u v = 1
    · rw [if_pos hs, if_pos hs, getLsbD_masked_GX _ _ _ _ hk, hset]
    · rw [if_neg hs, if_neg hs]
  case FillOpaqueStippled.none.some s | FillOpaqueStippled.some.some s =>
    rw [getLsbD_masked_GX _ _ _ _ hk]
    by_cases hs : s.pixel u v = 1
    · rw [if_pos hs, if_pos hs, hset]
    · rw [if_neg hs, if_neg hs, hset]

/-! ## Fills -/

variable {d : Drawable F} {gc : GC F}

/-- The bit at `A` of a drawable's pixmap, in the pixels of the drawable. -/
def Drawable.column (d : Drawable F) (A : ℤ) : ℤ := A % (32 * d.stride) / F.bitsPerPixel - d.xoff

def Drawable.line (d : Drawable F) (A : ℤ) : ℤ := A / (32 * d.stride) - d.yoff

/-- What a fill does to the bit at `A` when its pixel is in the rectangle. -/
def fillBit (d : Drawable F) (gc : GC F) (A : ℤ) (old : Bool) : Bool :=
  patternBit gc (d.column A - gc.patOrgX - d.x) (d.line A - gc.patOrgY - d.y) ((A % 32).toNat % F.bitsPerPixel) old

/-- The rectangle in bits. -/
theorem Rect.has_iff (r : Rect d) (A : ℤ) :
    (((r.y + d.yoff) ≤ A / (32 * d.stride) ∧ A / (32 * d.stride) < r.y + d.yoff + r.height) ∧
      (r.x + d.xoff) * F.bitsPerPixel ≤ A % (32 * d.stride) ∧
        A % (32 * d.stride) < (r.x + d.xoff) * F.bitsPerPixel + r.width * F.bitsPerPixel) ↔ r.Has (d.column A) (d.line A) := by
  have hpos : 0 < (F.bitsPerPixel : ℤ) := Int.natCast_pos.2 F.pos
  have hleft := Int.le_ediv_iff_mul_le (a := r.x + d.xoff) (b := A % (32 * d.stride)) hpos
  have hright := Int.ediv_lt_iff_lt_mul (a := A % (32 * d.stride)) (b := r.x + d.xoff + r.width) hpos
  rw [Int.add_mul] at hright
  unfold Rect.Has Drawable.column Drawable.line
  omega

/-- The bit of a pattern's pixel. -/
theorem Pixmap.getLsbD_pixel {bpp k : ℕ} (p : Pixmap bpp) (u v : ℤ) (hbpp : bpp ∈ [1, 4, 8, 16, 32]) (hk : k < bpp) :
    (p.pixel u v).getLsbD k = bit p.bits (32 * (v % p.height * p.stride) + (u % p.width * bpp + k)) :=
  getLsbD_pixelAt hbpp hk

theorem planeRop_planes (hpriv : gc.priv = reducedRop gc) (A : ℤ) (alu : BitVec 4) (src old : Bool) :
    planeRop alu gc.priv.pm (A % (32 * d.stride)) src old =
      if (planes gc).getLsbD ((A % 32).toNat % F.bitsPerPixel) then ropBit alu src old else old := by
  unfold planeRop
  rw [hpriv, column_emod, getLsbD_planes gc (by omega)]

/-- A tile of the GC, in either way. -/
theorem fbTile_bits {bpp : ℕ} {p : Pixmap bpp} {D dstX width height W xRot yRot : ℤ} {alu : BitVec 4} {pm : FbBits} (hbpp : 0 < bpp)
    (hW : W = p.width * bpp) (hpad : FbEvenTile W = true → p.Padded) (hx : 0 ≤ dstX) (hwidth : 0 ≤ width) (hheight : 0 ≤ height)
    (hroom : dstX + width ≤ 32 * d.stride) :
    fbTile (D * d.stride) d.stride dstX width height p.bits p.stride W p.height alu pm xRot yRot m =
      mapBits (tileBits d.stride D dstX width height p.bits p.stride W p.height alu pm xRot yRot) m := by
  have hpos : 0 < W := by
    rw [hW]
    exact Int.mul_pos p.width_pos (Int.natCast_pos.2 hbpp)
  unfold fbTile
  split
  next heven =>
    have hlines := hpad heven
    rw [Pixmap.Padded, ← hW] at hlines
    exact fbEvenTile_bits d.stride_pos (p.stride_pos hbpp) p.height_pos hx hwidth hheight hroom (FbEvenTile_dvd hpos heven) hlines
  next => exact fbOddTile_bits d.stride_pos hpos p.height_pos hwidth hheight

/-- The place of a bit in its pixel. -/
theorem place_in_pixel (d : Drawable F) (A : ℤ) :
    (((A % 32).toNat % F.bitsPerPixel : ℕ) : ℤ) = A % (32 * d.stride) % F.bitsPerPixel := by
  have hdvd : (F.bitsPerPixel : ℤ) ∣ 32 := by
    have := F.dvd
    exact_mod_cast this
  have hcast : (((A % 32).toNat : ℕ) : ℤ) = A % 32 := Int.toNat_of_nonneg (by omega)
  rw [Int.natCast_emod, hcast, Int.emod_emod_of_dvd _ hdvd, Int.emod_emod_of_dvd _ (hdvd.mul_right _)]

/-- Inside the rectangle, which is a range of bits, the operation is that on the pixels' bits. -/
theorem mapBits_rect (r : Rect d) {f : ℤ → Bool → Bool} (hf : ∀ A b, f A b = fillBit d gc A b) :
    mapBits (fun A old => if ((r.y + d.yoff) ≤ A / (32 * d.stride) ∧ A / (32 * d.stride) < r.y + d.yoff + r.height) ∧
        (r.x + d.xoff) * F.bitsPerPixel ≤ A % (32 * d.stride) ∧
        A % (32 * d.stride) < (r.x + d.xoff) * F.bitsPerPixel + r.width * F.bitsPerPixel then f A old else old) m =
      mapBits (fun A old => if r.Has (d.column A) (d.line A) then fillBit d gc A old else old) m := by
  apply mapBits_congr
  intro A b
  rw [hf]
  exact if_congr (r.has_iff A) rfl rfl

theorem fbFill_tiled (h : Validated gc) (r : Rect d) {t : Pixmap F.bitsPerPixel} (hfill : gc.fillStyle = .FillTiled)
    (ht : gc.tile = some t) :
    fbFill d gc r m = mapBits (fun A old => if r.Has (d.column A) (d.line A) then fillBit d gc A old else old) m := by
  obtain ⟨hvalid, htile, -, hrop⟩ := h.valid
  have hpos : 0 < (F.bitsPerPixel : ℤ) := Int.natCast_pos.2 F.pos
  have hroom : (r.x + d.xoff) * F.bitsPerPixel + r.width * F.bitsPerPixel ≤ 32 * d.stride := by
    rw [← Int.add_mul]
    exact r.right
  unfold fbFill
  rw [hfill, ht]
  dsimp only
  rw [fbTile_bits F.pos rfl (hvalid.tile htile t ht) (Int.mul_nonneg r.left (le_of_lt hpos)) (Int.mul_nonneg r.width_nonneg (le_of_lt hpos))
    r.height_nonneg hroom]
  apply mapBits_rect
  intro A old
  have hline : A / (32 * d.stride) - (r.y + d.yoff) - (gc.patOrgY + d.y - r.y) = d.line A - gc.patOrgY - d.y := by
    unfold Drawable.line
    ring
  have hcolumn : A % (32 * d.stride) / F.bitsPerPixel - (gc.patOrgX + d.x + d.xoff) = d.column A - gc.patOrgX - d.x := by
    unfold Drawable.column
    ring
  unfold fillBit patternBit
  rw [hfill, ht]
  dsimp only
  rw [planeRop_planes (hvalid.rop hrop), t.getLsbD_pixel _ _ F.ok (Nat.mod_lt _ F.pos), place_in_pixel d, emod_mul_eq hpos,
    Int.sub_mul_ediv_right _ _ (ne_of_gt hpos), Int.sub_mul_emod_self_right, hline, hcolumn]

theorem Pixmap.pixel_eq_one_iff (s : Pixmap 1) (u v : ℤ) :
    s.pixel u v = 1 ↔ bit s.bits (32 * (v % s.height * s.stride) + u % s.width) = true := by
  have hall : ∀ x : BitVec 1, x = 1 ↔ x.getLsbD 0 = true := by decide
  rw [hall, s.getLsbD_pixel u v (by decide) (by decide)]
  simp

/-- The masks of a colour. -/
theorem rrop_colour (gc : GC F) (v : FbBits) (A : ℤ) (old : Bool) :
    rrop (fbAnd gc.alu (spread (v &&& FbFullMask F.bitsPerPixel) F.bitsPerPixel) (reducedRop gc).pm)
        (fbXor gc.alu (spread (v &&& FbFullMask F.bitsPerPixel) F.bitsPerPixel) (reducedRop gc).pm) A old =
      if (planes gc).getLsbD ((A % 32).toNat % F.bitsPerPixel) then ropBit gc.alu (v.getLsbD ((A % 32).toNat % F.bitsPerPixel)) old
      else old := by
  have hA : (A % 32).toNat < 32 := by omega
  exact doRRop_reduced gc.alu _ _ old hA (getLsbD_spread_full F v hA) (getLsbD_planes gc hA)

/-- The masks of no operation. -/
theorem rrop_noop (A : ℤ) (old : Bool) : rrop (fbAnd GXnoop 0 FB_ALLONES) (fbXor GXnoop 0 FB_ALLONES) A old = old := by
  have hA : (A % 32).toNat < 32 := by omega
  have hall : ∀ old, ropBit GXnoop false old = old := by decide
  have hnone : (0 : FbBits).getLsbD (A % 32).toNat = false := getLsbD_zero
  have h := doRRop_reduced GXnoop false true old hA hnone (getLsbD_allones hA)
  rw [hall] at h
  exact h

variable {s : Pixmap 1}

/-- The stipple of a one-bit format is filled up when it is even. -/
theorem stipple_padded (h : Validated gc) (hs : gc.stipple = some s) (hone : F.bitsPerPixel = 1)
    (heven : FbEvenTile s.width = true) : s.Padded := by
  obtain ⟨hvalid, -, hstipple, -⟩ := h.valid
  have hcast : (F.bitsPerPixel : ℤ) = 1 := by exact_mod_cast hone
  by_cases hnarrow : s.width * (F.bitsPerPixel : ℤ) < 32
  · exact hvalid.stipple hstipple s hs hnarrow
  · have hwidth : s.width = 32 := by
      have := FbEvenTile_le heven
      rw [hcast] at hnarrow
      omega
    intro v _ _ j hj hj'
    rw [hwidth]
    change _ = bit s.bits (32 * (v * s.stride) + j % (32 * 1))
    rw [Int.mul_one, Int.emod_eq_of_lt hj hj']

/-- Stipples of one-bit drawables, which are tiles for a derived operation. -/
theorem fbFill_stippled_one (h : Validated gc) (r : Rect d) (hfill : gc.fillStyle ≠ .FillTiled)
    (hs : gc.stipple = some s) (hone : F.bitsPerPixel = 1) :
    fbFill d gc r m = mapBits (fun A old => if r.Has (d.column A) (d.line A) then fillBit d gc A old else old) m := by
  obtain ⟨hvalid, -, -, hrop⟩ := h.valid
  have hcast : (F.bitsPerPixel : ℤ) = 1 := by exact_mod_cast hone
  have hroom : r.x + d.xoff + r.width ≤ 32 * d.stride := by
    have := r.right
    rwa [hcast, mul_one] at this
  have hpad := stipple_padded h hs hone
  have hfbTile : ∀ alu, fbTile ((r.y + d.yoff) * d.stride) d.stride (r.x + d.xoff) r.width r.height s.bits s.stride s.width s.height alu
      gc.priv.pm (gc.patOrgX + d.x + d.xoff) (gc.patOrgY + d.y - r.y) m =
      mapBits (tileBits d.stride (r.y + d.yoff) (r.x + d.xoff) r.width r.height s.bits s.stride s.width s.height alu gc.priv.pm
        (gc.patOrgX + d.x + d.xoff) (gc.patOrgY + d.y - r.y)) m := by
    intro alu
    exact fbTile_bits (by decide) (mul_one _).symm hpad r.left r.width_nonneg r.height_nonneg hroom
  have hbits : ∀ alu, (∀ A old, (if (planes gc).getLsbD ((A % 32).toNat % F.bitsPerPixel) then
        ropBit alu (bit s.bits (32 * ((d.line A - gc.patOrgY - d.y) % s.height * s.stride) +
          (d.column A - gc.patOrgX - d.x) % s.width)) old else old) = fillBit d gc A old) →
      mapBits (tileBits d.stride (r.y + d.yoff) (r.x + d.xoff) r.width r.height s.bits s.stride s.width s.height alu gc.priv.pm
        (gc.patOrgX + d.x + d.xoff) (gc.patOrgY + d.y - r.y)) m =
      mapBits (fun A old => if r.Has (d.column A) (d.line A) then fillBit d gc A old else old) m := by
    intro alu halu
    apply mapBits_congr
    intro A old
    have hiff := r.has_iff A
    have hline : A / (32 * d.stride) - (r.y + d.yoff) - (gc.patOrgY + d.y - r.y) = d.line A - gc.patOrgY - d.y := by
      unfold Drawable.line
      ring
    have hcolumn : A % (32 * d.stride) - (gc.patOrgX + d.x + d.xoff) = d.column A - gc.patOrgX - d.x := by
      unfold Drawable.column
      rw [hcast, Int.ediv_one]
      ring
    rw [hcast, mul_one, mul_one] at hiff
    unfold tileBits
    dsimp only
    rw [planeRop_planes (hvalid.rop hrop), hline, hcolumn, halu]
    exact if_congr hiff rfl rfl
  have hplace : ∀ A : ℤ, (A % 32).toNat % F.bitsPerPixel = 0 := by
    intro A
    rw [hone, Nat.mod_one]
  cases hstyle : gc.fillStyle with
  | FillTiled => exact absurd hstyle hfill
  | FillStippled =>
    unfold fbFill
    rw [hstyle, hs]
    dsimp only
    rw [if_pos hcast, if_pos rfl, hfbTile]
    apply hbits
    intro A old
    unfold fillBit patternBit
    rw [hstyle, hs]
    dsimp only
    rw [ropBit_stipple1, hplace, if_congr (s.pixel_eq_one_iff _ _) rfl rfl]
    split <;> split <;> rfl
  | FillOpaqueStippled =>
    unfold fbFill
    rw [hstyle, hs]
    dsimp only
    rw [if_pos hcast, if_neg (by decide), hfbTile]
    apply hbits
    intro A old
    unfold fillBit patternBit
    rw [hstyle, hs]
    dsimp only
    rw [ropBit_opaqueStipple1, hplace, if_congr (s.pixel_eq_one_iff _ _) rfl rfl]

/-- Stipples of other drawables. -/
theorem fbFill_stippled (h : Validated gc) (r : Rect d) (hfill : gc.fillStyle ≠ .FillTiled) (hs : gc.stipple = some s)
    (hone : F.bitsPerPixel ≠ 1) :
    fbFill d gc r m = mapBits (fun A old => if r.Has (d.column A) (d.line A) then fillBit d gc A old else old) m := by
  obtain ⟨hvalid, -, -, hrop⟩ := h.valid
  have hpriv := hvalid.rop hrop
  have hpos : 0 < (F.bitsPerPixel : ℤ) := Int.natCast_pos.2 F.pos
  have hcast : (F.bitsPerPixel : ℤ) ≠ 1 := by exact_mod_cast hone
  have hbits : ∀ bgand bgxor, (∀ A old, stippleRop gc.priv.and gc.priv.xor bgand bgxor A
        (bit s.bits (32 * ((d.line A - gc.patOrgY - d.y) % s.height * s.stride) + (d.column A - gc.patOrgX - d.x) % s.width)) old =
          fillBit d gc A old) →
      fbStipple ((r.y + d.yoff) * d.stride) d.stride ((r.x + d.xoff) * F.bitsPerPixel) F.bitsPerPixel (r.width * F.bitsPerPixel) r.height
        s.bits s.stride s.width s.height gc.priv.and gc.priv.xor bgand bgxor (gc.patOrgX + d.x + d.xoff) (gc.patOrgY + d.y - r.y) m =
      mapBits (fun A old => if r.Has (d.column A) (d.line A) then fillBit d gc A old else old) m := by
    intro bgand bgxor hrops
    rw [fbStipple_bits d.stride_pos hpos s.width_pos s.height_pos (mul_nonneg r.width_nonneg (le_of_lt hpos)) r.height_nonneg]
    apply mapBits_rect
    intro A old
    have hline : A / (32 * d.stride) - (r.y + d.yoff) - (gc.patOrgY + d.y - r.y) = d.line A - gc.patOrgY - d.y := by
      unfold Drawable.line
      ring
    have hcolumn : ((r.x + d.xoff) * (F.bitsPerPixel : ℤ)).tdiv F.bitsPerPixel - (gc.patOrgX + d.x + d.xoff) +
        (A % (32 * d.stride) - (r.x + d.xoff) * F.bitsPerPixel) / F.bitsPerPixel = d.column A - gc.patOrgX - d.x := by
      rw [Int.mul_tdiv_cancel _ (ne_of_gt hpos), Int.sub_mul_ediv_right _ _ (ne_of_gt hpos)]
      unfold Drawable.column
      ring
    rw [hline, hcolumn, hrops]
  have hfg := fun A old => rrop_colour gc gc.fgPixel A old
  have hbg := fun A old => rrop_colour gc gc.bgPixel A old
  cases hstyle : gc.fillStyle with
  | FillTiled => exact absurd hstyle hfill
  | FillStippled =>
    unfold fbFill
    rw [hstyle, hs]
    dsimp only
    rw [if_neg hcast, if_pos rfl, if_pos rfl]
    apply hbits
    intro A old
    unfold fillBit patternBit stippleRop
    rw [hstyle, hs, hpriv, rrop_noop]
    dsimp only
    rw [if_congr (s.pixel_eq_one_iff _ _) rfl rfl, ← hfg]
    rfl
  | FillOpaqueStippled =>
    unfold fbFill
    rw [hstyle, hs]
    dsimp only
    rw [if_neg hcast]
    apply hbits
    intro A old
    unfold fillBit patternBit stippleRop
    rw [hstyle, hs, hpriv]
    dsimp only
    by_cases hon : s.pixel (d.column A - gc.patOrgX - d.x) (d.line A - gc.patOrgY - d.y) = 1
    · rw [if_pos ((s.pixel_eq_one_iff _ _).1 hon), if_pos hon, ← hfg]
      rfl
    · rw [if_neg fun hbit => hon ((s.pixel_eq_one_iff _ _).2 hbit), if_neg hon, ← hbg]
      rfl

/-- **A fill** is an operation on the bits of its rectangle that does not depend on the rectangle. -/
theorem fbFill_bits (h : Validated gc) (r : Rect d) :
    fbFill d gc r m = mapBits (fun A old => if r.Has (d.column A) (d.line A) then fillBit d gc A old else old) m := by
  have hnone : (∀ A old, fillBit d gc A old = old) →
      mapBits (fun A old => if r.Has (d.column A) (d.line A) then fillBit d gc A old else old) m = m := by
    intro hid
    apply mapBits_id
    intro A b
    rw [hid, ite_self]
  by_cases hstyle : gc.fillStyle = .FillTiled
  · cases ht : gc.tile with
    | some t => exact fbFill_tiled h r hstyle ht
    | none =>
      rw [hnone]
      · unfold fbFill
        rw [hstyle, ht]
      · intro A old
        unfold fillBit patternBit
        rw [hstyle, ht]
  · cases hs : gc.stipple with
    | some s =>
      by_cases hone : F.bitsPerPixel = 1
      · exact fbFill_stippled_one h r hstyle hs hone
      · exact fbFill_stippled h r hstyle hs hone
    | none =>
      rw [hnone]
      · unfold fbFill
        rw [hs]
        cases hfill : gc.fillStyle with
        | FillTiled => exact absurd hfill hstyle
        | FillStippled => rfl
        | FillOpaqueStippled => rfl
      · intro A old
        unfold fillBit patternBit
        rw [hs]
        cases hfill : gc.fillStyle with
        | FillTiled => exact absurd hfill hstyle
        | FillStippled => rfl
        | FillOpaqueStippled => rfl

/-- The address of a bit of a pixel, in lines, columns and places. -/
theorem pixel_address (d : Drawable F) {px : ℤ} (py : ℤ) (hpx : d.Column px) (hk : k < F.bitsPerPixel) :
    d.column (32 * ((py + d.yoff) * d.stride) + ((px + d.xoff) * F.bitsPerPixel + k)) = px ∧
      d.line (32 * ((py + d.yoff) * d.stride) + ((px + d.xoff) * F.bitsPerPixel + k)) = py ∧
      ((32 * ((py + d.yoff) * d.stride) + ((px + d.xoff) * F.bitsPerPixel + k)) % 32).toNat % F.bitsPerPixel = k := by
  obtain ⟨hleft, hright⟩ := hpx
  have hpos : 0 < (F.bitsPerPixel : ℤ) := Int.natCast_pos.2 F.pos
  have hcolumns : 0 < 32 * d.stride := by
    have := d.stride_pos
    omega
  have hsucc : (px + d.xoff + 1) * (F.bitsPerPixel : ℤ) = (px + d.xoff) * F.bitsPerPixel + F.bitsPerPixel := by ring
  have hnonneg : 0 ≤ (px + d.xoff) * (F.bitsPerPixel : ℤ) := mul_nonneg hleft (le_of_lt hpos)
  have haddr : 32 * ((py + d.yoff) * d.stride) + ((px + d.xoff) * (F.bitsPerPixel : ℤ) + k) =
      (px + d.xoff) * F.bitsPerPixel + k + (py + d.yoff) * (32 * d.stride) := by ring
  have hplace := place_in_pixel d (32 * ((py + d.yoff) * d.stride) + ((px + d.xoff) * F.bitsPerPixel + k))
  rw [haddr] at hplace ⊢
  have hmod : ((px + d.xoff) * (F.bitsPerPixel : ℤ) + k + (py + d.yoff) * (32 * d.stride)) % (32 * d.stride) =
      (px + d.xoff) * F.bitsPerPixel + k := by
    rw [Int.add_mul_emod_self_right, Int.emod_eq_of_lt (by omega) (by omega)]
  have hdiv : ((px + d.xoff) * (F.bitsPerPixel : ℤ) + k + (py + d.yoff) * (32 * d.stride)) / (32 * d.stride) = py + d.yoff := by
    rw [Int.add_mul_ediv_right _ _ (ne_of_gt hcolumns), Int.ediv_eq_zero_of_lt (by omega) (by omega), Int.zero_add]
  have hunit : ((px + d.xoff) * (F.bitsPerPixel : ℤ) + k) / F.bitsPerPixel = px + d.xoff := by
    rw [Int.add_comm, Int.add_mul_ediv_right _ _ (ne_of_gt hpos), Int.ediv_eq_zero_of_lt (by omega) (by omega), Int.zero_add]
  have hrem : ((px + d.xoff) * (F.bitsPerPixel : ℤ) + k) % F.bitsPerPixel = k := by
    rw [Int.add_comm, Int.add_mul_emod_self_right, Int.emod_eq_of_lt (by omega) (by omega)]
  rw [hmod, hrem] at hplace
  unfold Drawable.column Drawable.line
  rw [hmod, hdiv, hunit]
  refine ⟨by ring, by ring, ?_⟩
  exact_mod_cast hplace

/-- **Each pixel of a fill.** -/
theorem fbFill_pixel (h : Validated gc) (r : Rect d) (m : Words) {px py : ℤ} (hpx : d.Column px) :
    d.pixel (fbFill d gc r m) px py =
      if r.Has px py then patternPixel gc (px - gc.patOrgX - d.x) (py - gc.patOrgY - d.y) (d.pixel m px py) else d.pixel m px py := by
  apply eq_of_getLsbD_eq
  intro k hk
  obtain ⟨hcolumn, hline, hplace⟩ := pixel_address d py hpx hk
  have hbit : ∀ m : Words, (d.pixel m px py).getLsbD k =
      bit m (32 * ((py + d.yoff) * d.stride) + ((px + d.xoff) * F.bitsPerPixel + k)) := fun m => getLsbD_pixelAt F.ok hk
  rw [hbit, fbFill_bits h, bit_mapBits]
  unfold fillBit
  rw [hcolumn, hline, hplace]
  by_cases hin : r.Has px py
  · rw [if_pos hin, if_pos hin, getLsbD_patternPixel _ _ _ _ hk, hbit]
  · rw [if_neg hin, if_neg hin, hbit]

/-! ## Pieces -/

/-- Rectangles that make up another one, none of them over another. -/
def Rect.Split (whole : Rect d) (pieces : List (Rect d)) : Prop :=
  (∀ px py, whole.Has px py ↔ ∃ r ∈ pieces, r.Has px py) ∧
    pieces.Pairwise fun r r' => ∀ px py, ¬ (r.Has px py ∧ r'.Has px py)

/-- **Filling in pieces** is filling at once. -/
theorem fbFill_pieces (h : Validated gc) {whole : Rect d} {pieces : List (Rect d)} (hsplit : whole.Split pieces) (m : Words) :
    pieces.foldl (fun m r => fbFill d gc r m) m = fbFill d gc whole m := by
  obtain ⟨hcover, hdisjoint⟩ := hsplit
  have hfills : (fun m r => fbFill d gc r m) = fun m (r : Rect d) =>
      mapBits (fun A old => if r.Has (d.column A) (d.line A) then fillBit d gc A old else old) m := by
    funext m r
    exact fbFill_bits h r
  rw [hfills, fbFill_bits h, foldl_mapBits]
  · apply mapBits_congr
    intro A b
    exact if_congr (hcover _ _).symm rfl rfl
  · exact hdisjoint.imp fun hpair A => hpair _ _

/-! ## Validation and the patterns -/

theorem Pixmap.fbPadPixmap_pixel {bpp : ℕ} {p : Pixmap bpp} (hbpp : bpp ∈ [1, 4, 8, 16, 32]) (hnarrow : p.width * bpp ≤ 32) (u v : ℤ) :
    (fbPadPixmap p).pixel u v = p.pixel u v := by
  have hpos : 0 < bpp := by
    simp only [List.mem_cons, List.not_mem_nil, or_false] at hbpp
    omega
  have hcast : 0 < (bpp : ℤ) := Int.natCast_pos.2 hpos
  have hu := Int.emod_nonneg u (ne_of_gt p.width_pos)
  have hu' := Int.emod_lt_of_pos u p.width_pos
  have hv := Int.emod_nonneg v (ne_of_gt p.height_pos)
  have hv' := Int.emod_lt_of_pos v p.height_pos
  have hnonneg : 0 ≤ u % p.width * (bpp : ℤ) := Int.mul_nonneg hu (le_of_lt hcast)
  have hlast : (u % p.width + 1) * (bpp : ℤ) ≤ p.width * bpp := Int.mul_le_mul_of_nonneg_right (by omega) (le_of_lt hcast)
  rw [Int.add_mul] at hlast
  apply BitVec.eq_of_getLsbD_eq
  intro k hk
  rw [Pixmap.getLsbD_pixel _ _ _ hbpp hk, Pixmap.getLsbD_pixel _ _ _ hbpp hk]
  change bit (fbPadPixmap p).bits (32 * (v % p.height * p.stride) + (u % p.width * bpp + k)) = _
  have hin : (u % p.width * (bpp : ℤ) + k) % (p.width * bpp) = u % p.width * bpp + k := Int.emod_eq_of_lt (by omega) (by omega)
  rw [bit_fbPadPixmap hpos hnarrow hv hv' (by omega) (by omega), hin]

/-- Validation leaves the pixels of tile and stipple as they are. -/
theorem ValidateGC_pixel (gc : GC F) :
    (ValidateGC gc).tile.map Pixmap.pixel = gc.tile.map Pixmap.pixel ∧
      (ValidateGC gc).stipple.map Pixmap.pixel = gc.stipple.map Pixmap.pixel := by
  unfold ValidateGC fbValidateGC
  dsimp only
  constructor
  · split
    · rw [Option.map_map]
      apply congrArg (Option.map · gc.tile)
      funext t u v
      change (if FbEvenTile (t.width * (F.bitsPerPixel : ℤ)) = true then fbPadPixmap t else t).pixel u v = _
      split
      next heven => exact Pixmap.fbPadPixmap_pixel F.ok (FbEvenTile_le heven) u v
      next => rfl
    · rfl
  · split
    · rw [Option.map_map]
      apply congrArg (Option.map · gc.stipple)
      funext s u v
      change (if s.width * (F.bitsPerPixel : ℤ) < 32 then fbPadPixmap s else s).pixel u v = _
      split
      next hnarrow =>
        have hmul := Int.mul_le_mul_of_nonneg_left (Int.ofNat_le.2 F.pos : ((0 + 1 : ℕ) : ℤ) ≤ F.bitsPerPixel) (le_of_lt s.width_pos)
        apply Pixmap.fbPadPixmap_pixel (by decide)
        omega
      next => rfl
    · rfl

/-! ## The two ways to fill with a tile -/

/-- **The two ways agree** for a tile that was filled up. -/
theorem fbEvenTile_eq_fbOddTile {bpp : ℕ} {p : Pixmap bpp} (hbpp : 0 < bpp) (hpad : p.Padded)
    (heven : FbEvenTile (p.width * (bpp : ℤ)) = true) {D dstX width height xRot yRot : ℤ} (alu : BitVec 4) (pm : FbBits)
    (hx : 0 ≤ dstX) (hwidth : 0 ≤ width) (hheight : 0 ≤ height) (hroom : dstX + width ≤ 32 * d.stride) (m : Words) :
    fbEvenTile (D * d.stride) d.stride dstX width height.toNat p.bits p.stride p.height alu pm xRot yRot m =
      fbOddTile (D * d.stride) d.stride dstX width height p.bits p.stride (p.width * bpp) p.height alu pm xRot yRot m := by
  have hpos : 0 < p.width * (bpp : ℤ) := Int.mul_pos p.width_pos (Int.natCast_pos.2 hbpp)
  rw [fbEvenTile_bits d.stride_pos (p.stride_pos hbpp) p.height_pos hx hwidth hheight hroom (FbEvenTile_dvd hpos heven) hpad,
    fbOddTile_bits d.stride_pos hpos p.height_pos hwidth hheight]

/-- **Pattern fills are right**, for every format. With a GC that was validated, after any changes and validations, a fill gives each pixel
of its rectangle the function with the pattern's pixel at its place, and leaves all other pixels; a rectangle may be filled in pieces; the
ways to fill with an even and with an odd tile agree where both apply; and validation leaves the patterns as they are. -/
theorem pattern_fill_correct (F : Format) :
    (∀ (d : Drawable F) (gc : GC F), Validated gc →
      (∀ (r : Rect d) (m : Words) (px py : ℤ), d.Column px → d.pixel (fbFill d gc r m) px py =
        if r.Has px py then patternPixel gc (px - gc.patOrgX - d.x) (py - gc.patOrgY - d.y) (d.pixel m px py) else d.pixel m px py) ∧
      (∀ (whole : Rect d) (pieces : List (Rect d)) (m : Words), whole.Split pieces →
        pieces.foldl (fun m r => fbFill d gc r m) m = fbFill d gc whole m) ∧
      (∀ (t : Pixmap F.bitsPerPixel) (D dstX width height : ℤ) (alu : BitVec 4) (pm : FbBits) (xRot yRot : ℤ) (m : Words),
        gc.tile = some t → FbEvenTile (t.width * (F.bitsPerPixel : ℤ)) = true → 0 ≤ dstX → 0 ≤ width → 0 ≤ height →
        dstX + width ≤ 32 * d.stride →
        fbEvenTile (D * d.stride) d.stride dstX width height.toNat t.bits t.stride t.height alu pm xRot yRot m =
          fbOddTile (D * d.stride) d.stride dstX width height t.bits t.stride (t.width * F.bitsPerPixel) t.height alu pm xRot yRot m) ∧
      (∀ (s : Pixmap 1) (D dstX width height : ℤ) (alu : BitVec 4) (pm : FbBits) (xRot yRot : ℤ) (m : Words),
        F.bitsPerPixel = 1 → gc.stipple = some s → FbEvenTile s.width = true → 0 ≤ dstX → 0 ≤ width → 0 ≤ height →
        dstX + width ≤ 32 * d.stride →
        fbEvenTile (D * d.stride) d.stride dstX width height.toNat s.bits s.stride s.height alu pm xRot yRot m =
          fbOddTile (D * d.stride) d.stride dstX width height s.bits s.stride s.width s.height alu pm xRot yRot m)) ∧
    ∀ gc : GC F, (ValidateGC gc).tile.map Pixmap.pixel = gc.tile.map Pixmap.pixel ∧
      (ValidateGC gc).stipple.map Pixmap.pixel = gc.stipple.map Pixmap.pixel := by
  refine ⟨?_, ValidateGC_pixel⟩
  intro d gc h
  refine ⟨fun r m px py hpx => fbFill_pixel h r m hpx, fun whole pieces m hsplit => fbFill_pieces h hsplit m, ?_, ?_⟩
  · intro t D dstX width height alu pm xRot yRot m ht heven hx hwidth hheight hroom
    obtain ⟨hvalid, htile, -, -⟩ := h.valid
    exact fbEvenTile_eq_fbOddTile F.pos (hvalid.tile htile t ht heven) heven alu pm hx hwidth hheight hroom m
  · intro s D dstX width height alu pm xRot yRot m hone hs heven hx hwidth hheight hroom
    have hunit : s.width * ((1 : ℕ) : ℤ) = s.width := mul_one _
    have heven' : FbEvenTile (s.width * ((1 : ℕ) : ℤ)) = true := by
      rwa [hunit]
    conv_rhs => rw [← hunit]
    exact fbEvenTile_eq_fbOddTile (by decide) (stipple_padded h hs hone heven) heven' alu pm hx hwidth hheight hroom m

/-! A tile of three pixels, its origin to the right of the rectangle. -/

def exampleFormat : Format := { bitsPerPixel := 8, depth := 8, ok := by decide }

def exampleTile : Pixmap 8 :=
  { bits := fun _ => 0x332211, stride := 1, width := 3, height := 1, width_pos := by decide, height_pos := by decide, fits := by decide }

def exampleGC : GC exampleFormat :=
  { alu := 6, planemask := 0x0f, fgPixel := 0, bgPixel := 0, fillStyle := .FillTiled, tile := some exampleTile, stipple := none,
    patOrgX := 5, patOrgY := 0, stateChanges := { GCTile := true, GCStipple := true, GCRop := true },
    priv := { and := 0, xor := 0, bgand := 0, bgxor := 0, fg := 0, bg := 0, pm := 0 } }

def exampleDrawable : Drawable exampleFormat := { x := 0, y := 0, xoff := 0, yoff := 0, stride := 2, stride_pos := by decide }

def exampleRect : Rect exampleDrawable :=
  { x := 1, y := 0, width := 4, height := 1, width_nonneg := by decide, height_nonneg := by decide, left := by decide, right := by decide }

theorem pattern_fill_example :
    exampleDrawable.pixel (fbFill exampleDrawable (ValidateGC exampleGC) exampleRect fun _ => 0xffffffff) 3 0 = 0xfd := by
  have hvalidated : Validated (ValidateGC exampleGC) := ⟨exampleGC, exampleGC, rfl, .refl, rfl⟩
  have hcolumn : exampleDrawable.Column 3 := ⟨by decide, by decide⟩
  rw [((pattern_fill_correct exampleFormat).1 exampleDrawable _ hvalidated).1 exampleRect _ 3 0 hcolumn]
  decide

end Xenia.Fb
