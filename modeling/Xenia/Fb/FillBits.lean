import Xenia.Fb.TileBits
import Xenia.Fb.Fill

/-!
# Pattern fills, bit by bit

Validation makes narrow patterns periodic and the masks the reduced ones, and later changes are noted (`Valid`). A fill is then an
operation on the bits of its rectangle that does not depend on the rectangle (`fbFill_bits`).
-/

namespace Xenia.Fb

open Xenia.Lib Xenia.Lib.Bitmap

/-! ## Padding -/

variable {bpp : ℕ} {mask : FbBits} {width : ℕ} {stride : ℤ} {m : Words}

theorem padLines_other {height : ℕ} {v a : ℤ} (ha : ∀ i : ℕ, i < height → a ≠ (v + i) * stride) :
    padLines mask width stride height (v * stride) m a = m a := by
  induction height generalizing v m with
  | zero => rfl
  | succ height ih =>
    have hnext : v * stride + stride = (v + 1) * stride := by ring
    have hfirst := ha 0 (Nat.succ_pos _)
    rw [Int.natCast_zero, Int.add_zero] at hfirst
    rw [padLines, hnext, ih]
    · exact if_neg hfirst
    · intro i hi
      have := ha (i + 1) (Nat.succ_lt_succ hi)
      rwa [Nat.cast_succ, Int.add_comm (i : ℤ), ← Int.add_assoc] at this

theorem padLines_line {height i : ℕ} {v : ℤ} (hstride : 0 < stride) (hi : i < height) :
    padLines mask width stride height (v * stride) m ((v + i) * stride) = spread (m ((v + i) * stride) &&& mask) width := by
  induction height generalizing v i m with
  | zero => exact absurd hi (Nat.not_lt_zero i)
  | succ height ih =>
    have hnext : v * stride + stride = (v + 1) * stride := by ring
    have hdistinct : ∀ {a b : ℤ}, a * stride = b * stride → a = b := fun h => Int.eq_of_mul_eq_mul_right (ne_of_gt hstride) h
    rw [padLines, hnext]
    cases i with
    | zero =>
      rw [Int.natCast_zero, Int.add_zero, padLines_other]
      · exact if_pos rfl
      · intro i _ heq
        have := hdistinct heq
        omega
    | succ i =>
      have hplace : v + ((i + 1 : ℕ) : ℤ) = v + 1 + i := by
        push_cast
        ring
      have hother : m.store (v * stride) (spread (m (v * stride) &&& mask) width) ((v + 1 + i) * stride) = m ((v + 1 + i) * stride) := by
        apply if_neg
        intro heq
        have := hdistinct heq
        omega
      rw [hplace, ih (Nat.lt_of_succ_lt_succ hi), hother]

theorem getLsbD_FbBitsMask {x w : ℤ} {k : ℕ} (hx : 0 ≤ x) (hw : 0 < w) (hw' : x + w ≤ 32) (hk : k < 32) :
    (FbBitsMask x w).getLsbD k = decide (x ≤ k ∧ (k : ℤ) < x + w) := by
  unfold FbBitsMask FbScrRight FbScrLeft
  rw [BitVec.getLsbD_and, BitVec.getLsbD_shiftLeft, BitVec.getLsbD_ushiftRight, Int.emod_eq_of_lt hx (by omega), decide_eq_true hk]
  by_cases hle : x ≤ k
  · rw [decide_eq_false (by omega : ¬k < x.toNat), getLsbD_allones (by omega)]
    by_cases hlt : (k : ℤ) < x + w
    · rw [decide_eq_true ⟨hle, hlt⟩, getLsbD_allones (by omega)]
      rfl
    · rw [decide_eq_false fun h => hlt h.2, BitVec.getLsbD_of_ge _ _ (by omega)]
      rfl
  · rw [decide_eq_true (by omega : k < x.toNat), decide_eq_false fun h => hle h.1]
    rfl

namespace Pixmap

variable (p : Pixmap bpp)

/-- A line of a pixmap has words. -/
theorem stride_pos (hbpp : 0 < bpp) : 0 < p.stride := by
  have hwidth := Int.mul_pos p.width_pos (Int.natCast_pos.2 hbpp)
  have := p.fits
  omega

/-- The lines of a pixmap are filled up to a word. -/
def Padded : Prop := ∀ v, 0 ≤ v → v < p.height → LinePadded p.bits (v * p.stride) (p.width * bpp)

variable {p}

theorem bit_fbPadPixmap (hbpp : 0 < bpp) (hnarrow : p.width * bpp ≤ 32) {v j : ℤ} (hv : 0 ≤ v) (hv' : v < p.height) (hj : 0 ≤ j)
    (hj' : j < 32) : bit (fbPadPixmap p).bits (32 * (v * p.stride) + j) = bit p.bits (32 * (v * p.stride) + j % (p.width * bpp)) := by
  have hstride := p.stride_pos hbpp
  have hwidth : 0 < p.width * bpp := Int.mul_pos p.width_pos (Int.natCast_pos.2 hbpp)
  have hlines : v.toNat < p.height.toNat := by omega
  have hline : padLines (FbBitsMask 0 (p.width * bpp)) (p.width * bpp).toNat p.stride p.height.toNat (0 * p.stride) p.bits
      ((0 + (v.toNat : ℤ)) * p.stride) =
      spread (p.bits ((0 + (v.toNat : ℤ)) * p.stride) &&& FbBitsMask 0 (p.width * bpp)) (p.width * bpp).toNat :=
    padLines_line hstride hlines
  rw [Int.zero_mul, Int.zero_add, Int.toNat_of_nonneg hv] at hline
  have hbits : (fbPadPixmap p).bits (v * p.stride) =
      spread (p.bits (v * p.stride) &&& FbBitsMask 0 (p.width * bpp)) (p.width * bpp).toNat := hline
  generalize p.width * bpp = W at *
  have hmod := Int.emod_lt_of_pos j hwidth
  have hnonneg := Int.emod_nonneg j (ne_of_gt hwidth)
  have hword : ∀ i, 0 ≤ i → i < 32 → ∀ m : Words, bit m (32 * (v * p.stride) + i) = (m (v * p.stride)).getLsbD i.toNat := by
    intro i hi hi' m
    unfold bit
    have hdiv : (32 * (v * p.stride) + i) / 32 = v * p.stride := by omega
    have hrem : ((32 * (v * p.stride) + i) % 32).toNat = i.toNat := by omega
    rw [hdiv, hrem]
  have hplace : j.toNat % W.toNat = (j % W).toNat := by
    rw [Int.toNat_emod hj (le_of_lt hwidth)]
  rw [hword j hj hj', hword _ hnonneg (by omega), hbits, getLsbD_spread (by omega) _ (by omega), BitVec.getLsbD_and, hplace,
    getLsbD_FbBitsMask (le_refl 0) hwidth (by omega) (by omega), decide_eq_true (by omega), Bool.and_true]
  -- the bits behind the width are masked away
  intro k hk hge
  rw [BitVec.getLsbD_and, getLsbD_FbBitsMask (le_refl 0) hwidth (by omega) hk, decide_eq_false (by omega), Bool.and_false]

theorem padded_fbPadPixmap (hbpp : 0 < bpp) (hnarrow : p.width * bpp ≤ 32) : (fbPadPixmap p).Padded := by
  intro v hv hv' j hj hj'
  have hwidth : 0 < p.width * bpp := Int.mul_pos p.width_pos (Int.natCast_pos.2 hbpp)
  have hmod := Int.emod_lt_of_pos j hwidth
  have hnonneg := Int.emod_nonneg j (ne_of_gt hwidth)
  change bit (fbPadPixmap p).bits (32 * (v * p.stride) + j) = bit (fbPadPixmap p).bits (32 * (v * p.stride) + j % (p.width * bpp))
  rw [bit_fbPadPixmap hbpp hnarrow hv hv' hj hj', bit_fbPadPixmap hbpp hnarrow hv hv' hnonneg (by omega), Int.emod_emod_of_dvd _ (dvd_refl _)]

end Pixmap

/-! ## Validation -/

variable {F : Format} {gc : GC F}

theorem Format.pos (F : Format) : 0 < F.bitsPerPixel := by
  have hok := F.ok
  simp only [List.mem_cons, List.not_mem_nil, or_false] at hok
  omega

theorem Format.dvd (F : Format) : F.bitsPerPixel ∣ 32 := by
  have hall : ∀ n ∈ [1, 4, 8, 16, 32], n ∣ 32 := by decide
  exact hall _ F.ok

/-- What has not changed since the last validation is in order. -/
structure Valid (gc : GC F) : Prop where
  tile : gc.stateChanges.GCTile = false → ∀ t, gc.tile = some t → FbEvenTile (t.width * (F.bitsPerPixel : ℤ)) = true → t.Padded
  stipple : gc.stateChanges.GCStipple = false → ∀ s, gc.stipple = some s → s.width * (F.bitsPerPixel : ℤ) < 32 → s.Padded
  rop : gc.stateChanges.GCRop = false → gc.priv = reducedRop gc

theorem FbEvenTile_le {w : ℤ} (h : FbEvenTile w = true) : w ≤ 32 := by
  unfold FbEvenTile at h
  rw [Bool.and_eq_true, decide_eq_true_eq] at h
  exact h.1

theorem ValidateGC_valid (h : Valid gc) : Valid (ValidateGC gc) := by
  constructor
  · intro _ t ht heven
    unfold ValidateGC fbValidateGC at ht
    split at ht
    · obtain ⟨u, -, rfl⟩ := Option.map_eq_some_iff.1 ht
      split at heven
      next hu =>
        rw [if_pos hu]
        exact Pixmap.padded_fbPadPixmap F.pos (FbEvenTile_le hu)
      next hu => exact absurd heven hu
    next hchanged => exact h.tile (Bool.eq_false_of_not_eq_true hchanged) t ht heven
  · intro _ s hs hnarrow
    unfold ValidateGC fbValidateGC at hs
    dsimp only at hs
    split at hs
    · obtain ⟨u, -, rfl⟩ := Option.map_eq_some_iff.1 hs
      split at hnarrow
      next hu =>
        have hwidth : u.width * ((1 : ℕ) : ℤ) ≤ 32 := by
          have := u.width_pos
          have hmul := Int.mul_le_mul_of_nonneg_left (Int.ofNat_le.2 F.pos : ((0 + 1 : ℕ) : ℤ) ≤ F.bitsPerPixel) (le_of_lt this)
          omega
        rw [if_pos hu]
        exact Pixmap.padded_fbPadPixmap (by decide) hwidth
      next hu => exact absurd hnarrow hu
    next hchanged => exact h.stipple (Bool.eq_false_of_not_eq_true hchanged) s hs hnarrow
  · intro _
    change (if gc.stateChanges.GCRop then reducedRop gc else gc.priv) = reducedRop gc
    by_cases hchanged : gc.stateChanges.GCRop = true
    · rw [if_pos hchanged]
    · rw [if_neg hchanged]
      exact h.rop (Bool.eq_false_of_not_eq_true hchanged)

theorem Step.valid {new : GC F} (hstep : Step gc new) (h : Valid gc) : Valid new := by
  cases hstep with
  | validate => exact ValidateGC_valid h
  | change _ hpriv htile hstipple hrop =>
    constructor
    · intro hclean
      rcases htile with hchanged | ⟨hsame, htile⟩
      · rw [hchanged] at hclean
        exact absurd hclean (by decide)
      · rw [htile]
        exact h.tile (hsame ▸ hclean)
    · intro hclean
      rcases hstipple with hchanged | ⟨hsame, hstipple⟩
      · rw [hchanged] at hclean
        exact absurd hclean (by decide)
      · rw [hstipple]
        exact h.stipple (hsame ▸ hclean)
    · intro hclean
      rcases hrop with hchanged | ⟨hsame, halu, hplanes, hfg, hbg⟩
      · rw [hchanged] at hclean
        exact absurd hclean (by decide)
      · rw [hpriv, h.rop (hsame ▸ hclean)]
        unfold reducedRop
        rw [halu, hplanes, hfg, hbg]

/-- **A validated GC**: all is in order, after any run of changes and validations. -/
theorem Validated.valid (h : Validated gc) : Valid gc ∧
    gc.stateChanges.GCTile = false ∧ gc.stateChanges.GCStipple = false ∧ gc.stateChanges.GCRop = false := by
  obtain ⟨first, last, hcreated, hrun, rfl⟩ := h
  have hfirst : Valid first := by
    constructor <;> intro hclean <;> rw [hcreated] at hclean <;> exact absurd hclean (by decide)
  have hlast : Valid last := by
    induction hrun with
    | refl => exact hfirst
    | tail _ hstep ih => exact hstep.valid ih
  exact ⟨ValidateGC_valid hlast, rfl, rfl, rfl⟩

/-! ## Stipples -/

/-- The remainder in units. -/
theorem emod_mul_ediv {Y s b : ℤ} (hb : 0 < b) : Y % (s * b) / b = Y / b % s := by
  have hmod : Y % (s * b) = Y - s * (Y / b / s) * b := by
    rw [Int.emod_def, Int.ediv_ediv_of_nonneg (le_of_lt hb), Int.mul_comm b s]
    ring
  rw [hmod, Int.sub_mul_ediv_right _ _ (ne_of_gt hb), Int.emod_def (Y / b)]

theorem emod_mul_emod {Y s b : ℤ} : Y % (s * b) % b = Y % b := Int.emod_emod_of_dvd _ ⟨s, Int.mul_comm s b⟩

/-- A place in a pattern is that of the pattern's pixel and the place in the pixel. -/
theorem emod_mul_eq {Y s b : ℤ} (hb : 0 < b) : Y % (s * b) = Y / b % s * b + Y % b := by
  have hsplit := Int.mul_ediv_add_emod (Y % (s * b)) b
  rw [emod_mul_ediv hb, emod_mul_emod, Int.mul_comm] at hsplit
  exact hsplit.symm

variable {S D dstX dstBpp height stipStride stipWidth stipHeight xRot yRot : ℤ} {w : ℤ} {stip : Words} {fgand fgxor bgand bgxor : FbBits}

/-- The operation on a bit for a bit of the stipple. -/
def stippleRop (fgand fgxor bgand bgxor : FbBits) (A : ℤ) (b old : Bool) : Bool :=
  if b then rrop fgand fgxor A old else rrop bgand bgxor A old

/-- What a stipple does to each bit. -/
def stippleBits (S D dstX dstBpp width height : ℤ) (stip : Words) (stipStride stipWidth stipHeight : ℤ)
    (fgand fgxor bgand bgxor : FbBits) (xRot yRot : ℤ) (A : ℤ) (old : Bool) : Bool :=
  let line := A / (32 * S)
  let x := A % (32 * S)
  if (D ≤ line ∧ line < D + height) ∧ dstX ≤ x ∧ x < dstX + width then
    stippleRop fgand fgxor bgand bgxor A
      (bit stip (32 * ((line - D - yRot) % stipHeight * stipStride) + (dstX.tdiv dstBpp - xRot + (x - dstX) / dstBpp) % stipWidth)) old
  else old

/-- An expanded copy, in the lines and columns of the destination. -/
theorem fbBltOne_bits {srcLine srcX y x w h : ℤ} (hS : 0 < S) (hbpp : 0 < dstBpp) :
    fbBltOne stip (srcLine * stipStride) stipStride srcX (D * S + y * S) S x dstBpp w h fgand fgxor bgand bgxor m =
      mapBits (fun A old => if x ≤ A % (32 * S) ∧ A % (32 * S) < x + w then
        if y ≤ A / (32 * S) - D ∧ A / (32 * S) - D < y + h then
          stippleRop fgand fgxor bgand bgxor A
            (bit stip (32 * ((srcLine + (A / (32 * S) - D - y)) * stipStride) + (srcX * dstBpp + (A % (32 * S) - x)) / dstBpp)) old
        else old
      else old) m := by
  apply mapBits_congr
  intro A old
  have hline : D * S + y * S = (D + y) * S := by ring
  dsimp only
  rw [hline, line_sub hS, column_sub]
  have hsrc : srcLine * stipStride + (A / (32 * S) - (D + y)) * stipStride = (srcLine + (A / (32 * S) - D - y)) * stipStride := by ring
  have hunit : (srcX * dstBpp + (A % (32 * S) - x)) / dstBpp = srcX + (A % (32 * S) - x) / dstBpp := by
    rw [Int.add_comm, Int.add_mul_ediv_right _ _ (ne_of_gt hbpp), Int.add_comm]
  rw [hsrc, hunit]
  by_cases hx : x ≤ A % (32 * S) ∧ A % (32 * S) < x + w
  · rw [if_pos hx]
    by_cases hy : y ≤ A / (32 * S) - D ∧ A / (32 * S) - D < y + h
    · rw [if_pos hy, if_pos ⟨hx, by omega, by omega⟩, Int.add_assoc]
      unfold stippleRop rrop
      rw [column_emod]
    · rw [if_neg hy, if_neg]
      rintro ⟨-, hlow, hhigh⟩
      exact hy ⟨by omega, by omega⟩
  · rw [if_neg hx, if_neg fun h => hx h.1]

/-- **A stipple**, bit by bit. -/
theorem fbStipple_bits (hS : 0 < S) (hbpp : 0 < dstBpp) (hW : 0 < stipWidth) (hH : 0 < stipHeight) (hwidth : 0 ≤ w)
    (hheight : 0 ≤ height) :
    fbStipple (D * S) S dstX dstBpp w height stip stipStride stipWidth stipHeight fgand fgxor bgand bgxor xRot yRot m =
      mapBits (stippleBits S D dstX dstBpp w height stip stipStride stipWidth stipHeight fgand fgxor bgand bgxor xRot yRot) m := by
  unfold fbStipple
  rw [modulus_eq hH, modulus_eq hW]
  have hblt : ∀ stipY y h sx x w (m : Words),
      fbBltOne stip (stipY * stipStride) stipStride sx (D * S + y * S) S x dstBpp w h fgand fgxor bgand bgxor m =
        mapBits (fun A old => if x ≤ A % (32 * S) ∧ A % (32 * S) < x + w then
          if y ≤ A / (32 * S) - D ∧ A / (32 * S) - D < y + h then
            stippleRop fgand fgxor bgand bgxor A
              (bit stip (32 * ((stipY + (A / (32 * S) - D - y)) * stipStride) + (sx * dstBpp + (A % (32 * S) - x)) / dstBpp)) old
          else old
        else old) m := fun _ _ _ _ _ _ _ => fbBltOne_bits hS hbpp
  have hfuelY : height ≤ (height.toNat : ℤ) := by omega
  have hfuel : w ≤ (w.toNat : ℤ) := by omega
  have hpieces := pieces_pieces_mapBits (c := fun A => A % (32 * S)) (r := fun A => A / (32 * S) - D)
    (G := fun A v u old => stippleRop fgand fgxor bgand bgxor A (bit stip (32 * (v * stipStride) + u / dstBpp)) old)
    (m := m) 0 dstX hbpp hblt
    (Int.emod_nonneg (-yRot) (ne_of_gt hH)) (Int.emod_lt_of_pos (-yRot) hH) hheight hfuelY
    (Int.emod_nonneg (dstX.tdiv dstBpp - xRot) (ne_of_gt hW)) (Int.emod_lt_of_pos (dstX.tdiv dstBpp - xRot) hW) hwidth hfuel
  rw [hpieces]
  apply mapBits_congr
  intro A old
  have hphaseY : -yRot + (A / (32 * S) - D - 0) = A / (32 * S) - D - yRot := by ring
  have hunit : ((dstX.tdiv dstBpp - xRot) % stipWidth * dstBpp + (A % (32 * S) - dstX)) % (stipWidth * dstBpp) / dstBpp =
      (dstX.tdiv dstBpp - xRot + (A % (32 * S) - dstX) / dstBpp) % stipWidth := by
    rw [emod_mul_ediv hbpp, Int.add_comm _ (A % (32 * S) - dstX), Int.add_mul_ediv_right _ _ (ne_of_gt hbpp), Int.add_comm,
      Int.emod_add_emod]
  unfold stippleBits
  rw [hunit, Int.emod_add_emod, hphaseY]
  by_cases hin : (D ≤ A / (32 * S) ∧ A / (32 * S) < D + height) ∧ dstX ≤ A % (32 * S) ∧ A % (32 * S) < dstX + w
  · rw [if_pos hin, if_pos ⟨by omega, hin.2⟩]
  · rw [if_neg hin, if_neg]
    rintro ⟨hline, hcolumn⟩
    exact hin ⟨by omega, hcolumn⟩

end Xenia.Fb
