import Xenia.Fb.Tile

/-!
# Tiles, bit by bit

The bit at `x` of a line gets the bit at `(x - xRot) mod width` of the tile's line, through the words of an even tile as well as through
the pieces of an odd one (`fbEvenTile_bits`, `fbOddTile_bits`).
-/

namespace Xenia.Fb

open Xenia.Lib Xenia.Lib.Bitmap

/-- `modulus` is the remainder that is not negative. -/
theorem modulus_eq {a b : ℤ} (hb : 0 < b) : modulus a b = a % b := by
  have hmod := Int.emod_nonneg a (ne_of_gt hb)
  have hlt := Int.emod_lt_of_pos a hb
  unfold modulus
  rw [Int.tmod_eq_emod]
  split_ifs <;> omega

/-! ## Lines -/

variable {S D A : ℤ}

theorem line_sub (hS : 0 < S) : (A - 32 * (D * S)) / (32 * S) = A / (32 * S) - D := by
  have hcomm : 32 * (D * S) = D * (32 * S) := by ring
  rw [hcomm, Int.sub_mul_ediv_right _ _ (by omega)]

theorem column_sub : (A - 32 * (D * S)) % (32 * S) = A % (32 * S) := by
  have hcomm : 32 * (D * S) = D * (32 * S) := by ring
  rw [hcomm, Int.sub_mul_emod_self_right]

/-- A bit's place in its word is that of its column. -/
theorem column_emod : A % (32 * S) % 32 = A % 32 := Int.emod_emod_of_dvd _ ⟨S, rfl⟩

variable {dstX width height tileStride tileWidth tileHeight xRot yRot : ℤ} {tile : Words} {alu : BitVec 4} {pm : FbBits} {m : Words}

/-- The operation on the bit in column `x`. -/
def planeRop (alu : BitVec 4) (pm : FbBits) (x : ℤ) (src old : Bool) : Bool :=
  if pm.getLsbD (x % 32).toNat then ropBit alu src old else old

/-- What a tile does to each bit: those of the rectangle get the operation with the bit of the tile. -/
def tileBits (S D dstX width height : ℤ) (tile : Words) (tileStride tileWidth tileHeight : ℤ) (alu : BitVec 4) (pm : FbBits)
    (xRot yRot : ℤ) (A : ℤ) (old : Bool) : Bool :=
  let line := A / (32 * S)
  let x := A % (32 * S)
  if (D ≤ line ∧ line < D + height) ∧ dstX ≤ x ∧ x < dstX + width then
    planeRop alu pm x (bit tile (32 * ((line - D - yRot) % tileHeight * tileStride) + (x - xRot) % tileWidth)) old
  else old

/-! ## Odd tiles -/

/-- A copy, in the lines and columns of the destination. -/
theorem fbBlt_bits {srcLine srcX y x w h : ℤ} (hS : 0 < S) :
    fbBlt tile (srcLine * tileStride) tileStride srcX (D * S + y * S) S x w h alu pm m =
      mapBits (fun A old => if x ≤ A % (32 * S) ∧ A % (32 * S) < x + w then
        if y ≤ A / (32 * S) - D ∧ A / (32 * S) - D < y + h then
          planeRop alu pm (A % (32 * S))
            (bit tile (32 * ((srcLine + (A / (32 * S) - D - y)) * tileStride) + (srcX + (A % (32 * S) - x)))) old
        else old
      else old) m := by
  apply mapBits_congr
  intro A old
  have hline : D * S + y * S = (D + y) * S := by ring
  dsimp only
  rw [hline, line_sub hS, column_sub]
  have hsrc : srcLine * tileStride + (A / (32 * S) - (D + y)) * tileStride = (srcLine + (A / (32 * S) - D - y)) * tileStride := by ring
  rw [hsrc]
  by_cases hx : x ≤ A % (32 * S) ∧ A % (32 * S) < x + w
  · rw [if_pos hx]
    by_cases hy : y ≤ A / (32 * S) - D ∧ A / (32 * S) - D < y + h
    · rw [if_pos hy, if_pos ⟨hx, by omega, by omega⟩, add_assoc]
      rfl
    · rw [if_neg hy, if_neg]
      rintro ⟨-, hlow, hhigh⟩
      exact hy ⟨by omega, by omega⟩
  · rw [if_neg hx, if_neg fun h => hx h.1]

/-- **An odd tile**, bit by bit. -/
theorem fbOddTile_bits (hS : 0 < S) (hW : 0 < tileWidth) (hH : 0 < tileHeight) (hwidth : 0 ≤ width) (hheight : 0 ≤ height) :
    fbOddTile (D * S) S dstX width height tile tileStride tileWidth tileHeight alu pm xRot yRot m =
      mapBits (tileBits S D dstX width height tile tileStride tileWidth tileHeight alu pm xRot yRot) m := by
  unfold fbOddTile
  rw [modulus_eq hH, modulus_eq hW]
  have hblt : ∀ tileY y h tileX x w (m : Words),
      fbBlt tile (tileY * tileStride) tileStride tileX (D * S + y * S) S x w h alu pm m =
        mapBits (fun A old => if x ≤ A % (32 * S) ∧ A % (32 * S) < x + w then
          if y ≤ A / (32 * S) - D ∧ A / (32 * S) - D < y + h then
            planeRop alu pm (A % (32 * S))
              (bit tile (32 * ((tileY + (A / (32 * S) - D - y)) * tileStride) + (tileX * 1 + (A % (32 * S) - x)))) old
          else old
        else old) m := by
    intro tileY y h tileX x w m
    rw [fbBlt_bits hS, Int.mul_one]
  have hfuelY : height ≤ (height.toNat : ℤ) := by omega
  have hfuel : width ≤ (width.toNat : ℤ) := by omega
  have hpieces := pieces_pieces_mapBits (c := fun A => A % (32 * S)) (r := fun A => A / (32 * S) - D)
    (G := fun A v u old => planeRop alu pm (A % (32 * S)) (bit tile (32 * (v * tileStride) + u)) old) (m := m) 0 dstX Int.one_pos hblt
    (Int.emod_nonneg (-yRot) (ne_of_gt hH)) (Int.emod_lt_of_pos (-yRot) hH) hheight hfuelY
    (Int.emod_nonneg (dstX - xRot) (ne_of_gt hW)) (Int.emod_lt_of_pos (dstX - xRot) hW) hwidth hfuel
  rw [hpieces]
  apply mapBits_congr
  intro A old
  have hphaseY : -yRot + (A / (32 * S) - D - 0) = A / (32 * S) - D - yRot := by ring
  have hphase : dstX - xRot + (A % (32 * S) - dstX) = A % (32 * S) - xRot := by ring
  unfold tileBits
  rw [Int.mul_one, Int.mul_one, Int.emod_add_emod, Int.emod_add_emod, hphaseY, hphase]
  by_cases hin : (D ≤ A / (32 * S) ∧ A / (32 * S) < D + height) ∧ dstX ≤ A % (32 * S) ∧ A % (32 * S) < dstX + width
  · rw [if_pos hin, if_pos ⟨by omega, hin.2⟩]
  · rw [if_neg hin, if_neg]
    rintro ⟨hline, hcolumn⟩
    exact hin ⟨by omega, hcolumn⟩

/-! ## Masks -/

variable {k : ℕ} {x w : ℤ}

theorem getLsbD_allones (hk : k < 32) : FB_ALLONES.getLsbD k = true := by
  have hall : FB_ALLONES = BitVec.allOnes 32 := rfl
  rw [hall, BitVec.getLsbD_allOnes, decide_eq_true hk]

theorem getLsbD_FbLeftMask (hx : 0 ≤ x) (hx' : x < 32) (hk : k < 32) :
    (FbLeftMask x).getLsbD k = (decide (x ≠ 0) && decide (x ≤ k)) := by
  unfold FbLeftMask FbScrRight
  rw [Int.emod_eq_of_lt hx hx']
  by_cases hzero : x = 0
  · rw [if_neg (by simp [hzero]), decide_eq_false (by simp [hzero])]
    exact BitVec.getLsbD_zero
  · rw [if_pos hzero, decide_eq_true hzero, BitVec.getLsbD_shiftLeft, decide_eq_true hk]
    by_cases hle : x ≤ k
    · rw [decide_eq_false (by omega), decide_eq_true hle, getLsbD_allones (by omega)]
      rfl
    · rw [decide_eq_true (by omega : k < x.toNat), decide_eq_false hle]
      rfl

theorem getLsbD_FbRightMask (hk : k < 32) : (FbRightMask x).getLsbD k = decide ((k : ℤ) < x % 32) := by
  unfold FbRightMask FbScrLeft
  by_cases hzero : x % 32 = 0
  · rw [if_neg (by omega), decide_eq_false (by omega)]
    exact BitVec.getLsbD_zero
  · have hshift : (32 - x) % 32 = 32 - x % 32 := by omega
    rw [if_pos (by omega), BitVec.getLsbD_ushiftRight]
    by_cases hlt : (k : ℤ) < x % 32
    · rw [decide_eq_true hlt, getLsbD_allones (by omega)]
    · rw [decide_eq_false hlt]
      apply BitVec.getLsbD_of_ge
      omega

theorem FbLeftMask_ne_zero_iff (hx : 0 ≤ x) (hx' : x < 32) : FbLeftMask x ≠ 0 ↔ x ≠ 0 := by
  constructor
  · rintro hne rfl
    exact hne rfl
  · intro hne hzero
    have hbit := getLsbD_FbLeftMask (k := 31) hx hx' (by decide)
    rw [hzero, decide_eq_true hne, decide_eq_true (by omega : x ≤ ((31 : ℕ) : ℤ))] at hbit
    exact absurd hbit (by decide)

/-- Whether the first word has a mask of its own. -/
def MaskBits.first (mask : MaskBits) : ℤ := if mask.l ≠ 0 then 1 else 0

/-- **The masks cover the bits** from `x` on, each once. -/
theorem FbMaskBits_cover (hx : 0 ≤ x) (hx' : x < 32) (hw : 0 ≤ w) :
    0 ≤ (FbMaskBits x w).n ∧ ∀ (q : ℤ) (k : ℕ), k < 32 →
      ((x ≤ 32 * q + k ∧ 32 * q + k < x + w) ↔
        (q = 0 ∧ (FbMaskBits x w).l.getLsbD k = true) ∨
        ((FbMaskBits x w).first ≤ q ∧ q < (FbMaskBits x w).first + (FbMaskBits x w).n) ∨
        (q = (FbMaskBits x w).first + (FbMaskBits x w).n ∧ (FbMaskBits x w).r.getLsbD k = true)) := by
  unfold MaskBits.first FbMaskBits
  rw [Int.emod_eq_of_lt hx hx']
  by_cases hzero : x = 0
  · rw [if_neg (by rw [FbLeftMask_ne_zero_iff hx hx']; exact not_not_intro hzero)]
    subst hzero
    refine ⟨by dsimp only; omega, ?_⟩
    intro q k hk
    dsimp only
    rw [if_neg (by decide), getLsbD_FbRightMask hk, getLsbD_FbLeftMask hx hx' hk]
    simp only [ne_eq, not_true_eq_false, decide_false, Bool.false_and, Bool.false_eq_true, and_false, false_or, decide_eq_true_eq]
    omega
  · have hne : FbLeftMask x ≠ 0 := (FbLeftMask_ne_zero_iff hx hx').2 hzero
    rw [if_pos hne]
    by_cases hneg : w - (32 - x) < 0
    · rw [if_pos hneg]
      refine ⟨le_refl 0, ?_⟩
      intro q k hk
      rw [BitVec.getLsbD_and, getLsbD_FbRightMask hk, getLsbD_FbLeftMask hx hx' hk]
      have hnone : (0 : FbBits).getLsbD k = false := BitVec.getLsbD_zero
      rw [hnone]
      simp only [Bool.and_eq_true, decide_eq_true_eq, Bool.false_eq_true, and_false, or_false]
      split_ifs <;> omega
    · rw [if_neg hneg]
      refine ⟨by dsimp only; omega, ?_⟩
      intro q k hk
      rw [if_pos hne, getLsbD_FbRightMask hk, getLsbD_FbLeftMask hx hx' hk, decide_eq_true hzero]
      simp only [Bool.true_and, decide_eq_true_eq]
      omega

/-! ## Even tiles -/

variable {and xor : FbBits} {dst : ℤ}

/-- The and-mask and the xor-mask on one bit. -/
def rrop (and xor : FbBits) (A : ℤ) (old : Bool) : Bool :=
  (old && and.getLsbD (A % 32).toNat) ^^ xor.getLsbD (A % 32).toNat

/-- A word under a mask; a mask without bits changes nothing. -/
theorem store_masked (m : Words) (dst : ℤ) (and xor l : FbBits) :
    (if l ≠ 0 then m.store dst (FbDoMaskRRop (m dst) and xor l) else m) =
      mapBits (fun A old => if A / 32 = dst ∧ l.getLsbD (A % 32).toNat = true then rrop and xor A old else old) m := by
  split
  next hl =>
    apply eq_mapBits
    intro A
    rw [bit_store]
    by_cases hdst : A / 32 = dst
    · rw [if_pos hdst, getLsbD_doMaskRRop _ _ _ _ (by omega), ← hdst]
      by_cases hbit : l.getLsbD (A % 32).toNat = true
      · rw [if_pos hbit, if_pos ⟨rfl, hbit⟩]
        rfl
      · rw [if_neg hbit, if_neg fun h => hbit h.2]
        rfl
    · rw [if_neg hdst, if_neg fun h => hdst h.1]
  next hl =>
    rw [not_not] at hl
    symm
    apply mapBits_id
    intro A b
    rw [hl, if_neg]
    rintro ⟨-, hbit⟩
    rw [BitVec.ofNat_eq_ofNat, BitVec.getLsbD_zero] at hbit
    exact absurd hbit (by decide)

/-- The words in the middle. -/
theorem store_words (and xor : FbBits) (n : ℕ) (dst : ℤ) (m : Words) :
    (List.range n).foldl (fun (s : ℤ × Words) _ =>
      (s.1 + 1, s.2.store s.1 (if and = 0 then xor else FbDoRRop (s.2 s.1) and xor))) (dst, m) =
    (dst + n, mapBits (fun A old => if dst ≤ A / 32 ∧ A / 32 < dst + n then rrop and xor A old else old) m) := by
  induction n with
  | zero =>
    have hnone : mapBits (fun A old => if dst ≤ A / 32 ∧ A / 32 < dst + ((0 : ℕ) : ℤ) then rrop and xor A old else old) m = m := by
      apply mapBits_id
      intro A b
      rw [if_neg (by omega)]
    rw [hnone, List.range_zero, List.foldl_nil, Int.natCast_zero, Int.add_zero]
  | succ n ih =>
    rw [List.range_succ, List.foldl_append, ih, List.foldl_cons, List.foldl_nil, Prod.mk.injEq]
    refine ⟨by push_cast; ring, ?_⟩
    have hsofar := fun A => bit_mapBits (fun A old => if dst ≤ A / 32 ∧ A / 32 < dst + n then rrop and xor A old else old) m A
    generalize mapBits (fun A old => if dst ≤ A / 32 ∧ A / 32 < dst + n then rrop and xor A old else old) m = sofar at *
    apply eq_mapBits
    intro A
    rw [bit_store]
    by_cases hlast : A / 32 = dst + n
    · have hold : bit sofar A = bit m A := by
        rw [hsofar, if_neg (by omega)]
      have hin : dst ≤ A / 32 ∧ A / 32 < dst + ((n + 1 : ℕ) : ℤ) := by omega
      rw [if_pos hlast, if_pos hin, ← hold]
      unfold rrop bit
      rw [hlast]
      by_cases hzero : and = 0
      · rw [if_pos hzero, hzero, BitVec.ofNat_eq_ofNat, BitVec.getLsbD_zero, Bool.and_false, Bool.false_xor]
      · rw [if_neg hzero, getLsbD_doRRop]
    · rw [if_neg hlast, hsofar]
      by_cases hin : dst ≤ A / 32 ∧ A / 32 < dst + n
      · rw [if_pos hin, if_pos (by omega)]
      · rw [if_neg hin, if_neg (by omega)]

/-- **One line** is its bits, and the pointer is behind its words. -/
theorem evenTileLine_bits (hx : 0 ≤ x) (hx' : x < 32) (hw : 0 ≤ w) :
    evenTileLine (FbMaskBits x w) and xor dst m =
      (dst + (FbMaskBits x w).first + (FbMaskBits x w).n,
        mapBits (fun A old => if 32 * dst + x ≤ A ∧ A < 32 * dst + x + w then rrop and xor A old else old) m) := by
  obtain ⟨hn, hcover⟩ := FbMaskBits_cover hx hx' hw
  have hone : (FbMaskBits x w).l.getLsbD = (fun _ => false) ∨ (FbMaskBits x w).first = 1 := by
    unfold MaskBits.first
    by_cases hl : (FbMaskBits x w).l = 0
    · left
      funext k
      rw [hl]
      exact BitVec.getLsbD_zero
    · right
      rw [if_pos hl]
  have hfirst : (if (FbMaskBits x w).l ≠ 0 then dst + 1 else dst) = dst + (FbMaskBits x w).first := by
    unfold MaskBits.first
    split
    · rfl
    · rw [add_zero]
  have hcast : (((FbMaskBits x w).n.toNat : ℕ) : ℤ) = (FbMaskBits x w).n := Int.toNat_of_nonneg hn
  unfold evenTileLine
  dsimp only
  rw [hfirst, store_masked, store_words, hcast]
  rw [store_masked, mapBits_mapBits, mapBits_mapBits, Prod.mk.injEq]
  refine ⟨rfl, ?_⟩
  apply mapBits_congr
  intro A b
  have hA := hcover (A / 32 - dst) (A % 32).toNat (by omega)
  generalize (FbMaskBits x w).n = n at *
  generalize (FbMaskBits x w).first = e at *
  have hin : (32 * dst + x ≤ A ∧ A < 32 * dst + x + w) ↔
      (x ≤ 32 * (A / 32 - dst) + ((A % 32).toNat : ℤ) ∧ 32 * (A / 32 - dst) + ((A % 32).toNat : ℤ) < x + w) := by omega
  rw [← hin] at hA
  -- a bit is in one of the three parts at most
  by_cases h0 : A / 32 = dst ∧ (FbMaskBits x w).l.getLsbD (A % 32).toNat = true
  · have he : e = 1 := by
      rcases hone with hnone | he
      · rw [hnone] at h0
        exact absurd h0.2 Bool.false_ne_true
      · exact he
    rw [if_pos h0, if_neg (by omega), if_neg (by omega), if_pos (hA.2 (.inl ⟨by omega, h0.2⟩))]
  · rw [if_neg h0]
    by_cases h1 : dst + e ≤ A / 32 ∧ A / 32 < dst + e + n
    · rw [if_pos h1, if_neg (by omega), if_pos (hA.2 (.inr (.inl (by omega))))]
    · rw [if_neg h1]
      by_cases h2 : A / 32 = dst + e + n ∧ (FbMaskBits x w).r.getLsbD (A % 32).toNat = true
      · rw [if_pos h2, if_pos (hA.2 (.inr (.inr ⟨by omega, h2.2⟩)))]
      · rw [if_neg h2, if_neg]
        intro h
        rcases hA.1 h with ⟨hq, hl⟩ | hmid | ⟨hq, hr⟩
        · exact h0 ⟨by omega, hl⟩
        · exact h1 (by omega)
        · exact h2 ⟨by omega, hr⟩

theorem getLsbD_FbRotLeft {v : FbBits} {rot : ℤ} (hrot : 0 ≤ rot) (hrot' : rot < 32) (hk : k < 32) :
    (FbRotLeft v rot).getLsbD k = v.getLsbD (((k : ℤ) + rot) % 32).toNat := by
  unfold FbRotLeft FbScrLeft FbScrRight
  rw [BitVec.getLsbD_or, BitVec.getLsbD_ushiftRight]
  by_cases hin : (k : ℤ) + rot < 32
  · have hplace : (((k : ℤ) + rot) % 32).toNat = rot.toNat + k := by omega
    have hrest : (if rot ≠ 0 then v <<< (32 - rot).toNat else 0).getLsbD k = false := by
      split
      · rw [BitVec.getLsbD_shiftLeft, decide_eq_true (by omega : k < (32 - rot).toNat), Bool.not_true, Bool.and_false, Bool.false_and]
      · exact BitVec.getLsbD_zero
    rw [hrest, Bool.or_false, hplace]
  · have hplace : (((k : ℤ) + rot) % 32).toNat = k - (32 - rot).toNat := by omega
    rw [if_pos (by omega), BitVec.getLsbD_of_ge _ _ (by omega : 32 ≤ rot.toNat + k), BitVec.getLsbD_shiftLeft,
      decide_eq_true hk, decide_eq_false (by omega), hplace]
    rfl

/-- The bits of a line of a tile, as far as a word goes, are those of its width again and again. -/
def LinePadded (tile : Words) (line tileWidth : ℤ) : Prop :=
  ∀ j, 0 ≤ j → j < 32 → bit tile (32 * line + j) = bit tile (32 * line + j % tileWidth)

/-- The masks of a line of a tile that was rotated. -/
theorem rrop_tile {line : ℤ} (hpad : LinePadded tile line tileWidth) (hdvd : tileWidth ∣ 32) (A : ℤ) (old : Bool) :
    rrop (fbAnd alu (FbRotLeft (tile line) (-xRot % 32)) pm) (fbXor alu (FbRotLeft (tile line) (-xRot % 32)) pm) A old =
      planeRop alu pm (A % (32 * S)) (bit tile (32 * line + (A % (32 * S) - xRot) % tileWidth)) old := by
  have hA : (A % 32).toNat < 32 := by omega
  have hrot : (FbRotLeft (tile line) (-xRot % 32)).getLsbD (A % 32).toNat =
      (tile line).getLsbD ((((A % 32).toNat : ℤ) + -xRot % 32) % 32).toNat := by
    apply getLsbD_FbRotLeft _ _ hA <;> omega
  have hplace : (((A % 32).toNat : ℤ) + -xRot % 32) % 32 = (A % (32 * S) - xRot) % 32 := by
    have hcolumn : A % (32 * S) % 32 = A % 32 := column_emod
    omega
  have hword : (tile line).getLsbD (((A % (32 * S) - xRot) % 32).toNat) = bit tile (32 * line + (A % (32 * S) - xRot) % 32) := by
    unfold bit
    have hdiv : (32 * line + (A % (32 * S) - xRot) % 32) / 32 = line := by omega
    have hmod : (32 * line + (A % (32 * S) - xRot) % 32) % 32 = (A % (32 * S) - xRot) % 32 := by omega
    rw [hdiv, hmod]
  rw [hplace, hword, hpad _ (by omega) (by omega), Int.emod_emod_of_dvd _ hdvd] at hrot
  unfold planeRop
  rw [column_emod]
  exact doRRop_reduced alu _ _ old hA hrot rfl

/-- A bit of the line `D`. -/
theorem in_line_iff (hS : 0 < S) (hx : 0 ≤ dstX) (hroom : dstX + width ≤ 32 * S) :
    (32 * (D * S + dstX / 32) + dstX % 32 ≤ A ∧ A < 32 * (D * S + dstX / 32) + dstX % 32 + width) ↔
      A / (32 * S) = D ∧ dstX ≤ A % (32 * S) ∧ A % (32 * S) < dstX + width := by
  have hline := line_sub (D := D) (A := A) hS
  have hcolumn : (A - 32 * (D * S)) % (32 * S) = A % (32 * S) := column_sub
  generalize hR : A - 32 * (D * S) = R at *
  have hsplit := Int.emod_add_mul_ediv R (32 * S)
  constructor
  · intro h
    have hzero : R / (32 * S) = 0 := Int.ediv_eq_zero_of_lt (by omega) (by omega)
    rw [hzero, Int.mul_zero] at hsplit
    omega
  · rintro ⟨hD, hlow, hhigh⟩
    have hzero : R / (32 * S) = 0 := by omega
    rw [hzero, Int.mul_zero] at hsplit
    omega

/-- **The loop over the lines** of an even tile, from any line of the tile on. -/
theorem evenTileLines_bits {v : ℤ} {height : ℕ} (hS : 0 < S) (hstride : 0 < tileStride) (hv : 0 ≤ v) (hv' : v < tileHeight)
    (hx : 0 ≤ dstX) (hwidth : 0 ≤ width) (hroom : dstX + width ≤ 32 * S) (hdvd : tileWidth ∣ 32)
    (hpad : ∀ v, 0 ≤ v → v < tileHeight → LinePadded tile (v * tileStride) tileWidth) :
    evenTileLines (FbMaskBits (dstX % 32) width) (S - (FbMaskBits (dstX % 32) width).first - (FbMaskBits (dstX % 32) width).n)
        tile 0 tileStride (tileHeight * tileStride) alu pm (-xRot % 32) height (v * tileStride) (D * S + dstX / 32) m =
      mapBits (fun A old =>
        if (D ≤ A / (32 * S) ∧ A / (32 * S) < D + height) ∧ dstX ≤ A % (32 * S) ∧ A % (32 * S) < dstX + width then
          planeRop alu pm (A % (32 * S))
            (bit tile (32 * ((v + (A / (32 * S) - D)) % tileHeight * tileStride) + (A % (32 * S) - xRot) % tileWidth)) old
        else old) m := by
  induction height generalizing v D m with
  | zero =>
    symm
    apply mapBits_id
    intro A b
    rw [if_neg (by omega)]
  | succ height ih =>
    unfold evenTileLines
    dsimp only
    rw [evenTileLine_bits (by omega) (by omega) hwidth]
    -- the next line of the tile, and the next line of the destination
    have hnext : (if v * tileStride + tileStride ≥ tileHeight * tileStride then 0 else v * tileStride + tileStride) =
        (v + 1) % tileHeight * tileStride := by
      have hsucc : v * tileStride + tileStride = (v + 1) * tileStride := by ring
      rw [hsucc]
      by_cases hlast : v + 1 = tileHeight
      · rw [hlast, if_pos (le_refl _), Int.emod_self, Int.zero_mul]
      · have hlt : (v + 1) * tileStride < tileHeight * tileStride := mul_lt_mul_of_pos_right (by omega) hstride
        rw [if_neg (by omega), Int.emod_eq_of_lt (by omega) (by omega)]
    have hdst : D * S + dstX / 32 + (FbMaskBits (dstX % 32) width).first + (FbMaskBits (dstX % 32) width).n +
        (S - (FbMaskBits (dstX % 32) width).first - (FbMaskBits (dstX % 32) width).n) = (D + 1) * S + dstX / 32 := by ring
    rw [hnext, hdst, ih (Int.emod_nonneg _ (by omega)) (Int.emod_lt_of_pos _ (by omega)), mapBits_mapBits]
    apply mapBits_congr
    intro A b
    have hin := in_line_iff (D := D) (A := A) hS hx hroom
    by_cases hcolumn : dstX ≤ A % (32 * S) ∧ A % (32 * S) < dstX + width
    · by_cases hline : A / (32 * S) = D
      · have hzero : (v + (A / (32 * S) - D)) % tileHeight = v := by
          rw [hline, Int.sub_self, Int.add_zero, Int.emod_eq_of_lt hv hv']
        rw [if_pos (hin.2 ⟨hline, hcolumn⟩), if_neg (by omega), if_pos (by push_cast; omega), hzero, rrop_tile (hpad v hv hv') hdvd]
      · have hwrap : ((v + 1) % tileHeight + (A / (32 * S) - (D + 1))) % tileHeight = (v + (A / (32 * S) - D)) % tileHeight := by
          rw [Int.emod_add_emod]
          congr 1
          ring
        rw [if_neg fun h => hline (hin.1 h).1, hwrap]
        by_cases hlines : D + 1 ≤ A / (32 * S) ∧ A / (32 * S) < D + 1 + height
        · rw [if_pos ⟨hlines, hcolumn⟩, if_pos (by push_cast; omega)]
        · rw [if_neg fun h => hlines h.1, if_neg (by push_cast; omega)]
    · rw [if_neg fun h => hcolumn (hin.1 h).2, if_neg fun h => hcolumn h.2, if_neg fun h => hcolumn h.2]

theorem FbEvenTile_dvd (hW : 0 < tileWidth) (heven : FbEvenTile tileWidth = true) : tileWidth ∣ 32 := by
  unfold FbEvenTile at heven
  rw [Bool.and_eq_true, decide_eq_true_eq, decide_eq_true_eq] at heven
  obtain ⟨hle, hpow⟩ := heven
  have hall : ∀ n : ℕ, n ≤ 32 → 0 < n → n &&& (n - 1) = 0 → n ∣ 32 := by decide
  have hdvd := hall tileWidth.toNat (by omega) (by omega) hpow
  rw [← Int.natCast_dvd_natCast, Int.toNat_of_nonneg (le_of_lt hW)] at hdvd
  exact hdvd

/-- **An even tile**, bit by bit, when its lines are filled up to a word. -/
theorem fbEvenTile_bits (hS : 0 < S) (hstride : 0 < tileStride) (hH : 0 < tileHeight) (hx : 0 ≤ dstX)
    (hwidth : 0 ≤ width) (hheight : 0 ≤ height) (hroom : dstX + width ≤ 32 * S) (hdvd : tileWidth ∣ 32)
    (hpad : ∀ v, 0 ≤ v → v < tileHeight → LinePadded tile (v * tileStride) tileWidth) :
    fbEvenTile (D * S) S dstX width height.toNat tile tileStride tileHeight alu pm xRot yRot m =
      mapBits (tileBits S D dstX width height tile tileStride tileWidth tileHeight alu pm xRot yRot) m := by
  have hstrides : (if (FbMaskBits (dstX % 32) width).l ≠ 0 then S - 1 else S) - (FbMaskBits (dstX % 32) width).n =
      S - (FbMaskBits (dstX % 32) width).first - (FbMaskBits (dstX % 32) width).n := by
    unfold MaskBits.first
    split <;> omega
  unfold fbEvenTile
  dsimp only
  have hnonneg := Int.emod_nonneg (-yRot) (ne_of_gt hH)
  have hlt := Int.emod_lt_of_pos (-yRot) hH
  rw [hstrides, modulus_eq hH, modulus_eq (by decide), evenTileLines_bits hS hstride hnonneg hlt hx hwidth hroom hdvd hpad]
  apply mapBits_congr
  intro A b
  have hcast : ((height.toNat : ℕ) : ℤ) = height := Int.toNat_of_nonneg hheight
  have hphase : -yRot + (A / (32 * S) - D) = A / (32 * S) - D - yRot := by ring
  unfold tileBits
  rw [hcast, Int.emod_add_emod, hphase]

end Xenia.Fb
