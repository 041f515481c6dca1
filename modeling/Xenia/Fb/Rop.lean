import Xenia.Lib.Bits

/-!
# Raster operations

`GX` are the sixteen functions of the protocol. The code reduces a function, a source and a plane mask to an and-mask and an xor-mask
(`fbAnd`, `fbXor`); `doRRop_reduced` says that applying these is the function in the planes of the mask, and nothing outside.
-/

namespace Xenia.Fb

open Xenia.Lib BitVec

abbrev FbBits := BitVec 32

def FB_ALLONES : FbBits := -1

def GXnoop : BitVec 4 := 5

/-- The functions of the protocol, in the order of their numbers. -/
def GX {w : ℕ} (alu : BitVec 4) (src dst : BitVec w) : BitVec w :=
  [0, src &&& dst, src &&& ~~~dst, src, ~~~src &&& dst, dst, src ^^^ dst, src ||| dst, ~~~(src ||| dst), ~~~src ^^^ dst, ~~~dst,
    src ||| ~~~dst, ~~~src, ~~~src ||| dst, ~~~(src &&& dst), BitVec.allOnes w].getD alu.toNat 0

/-- A function in the planes of a mask. -/
def masked {w : ℕ} (pm new old : BitVec w) : BitVec w := (new &&& pm) ||| (old &&& ~~~pm)

/-- Take a single bit (0 or 1) and generate a full mask. -/
def fbFillFromBit (b : BitVec 4) : FbBits := ~~~((b &&& 1).setWidth 32 - 1)

def fbXor (rop : BitVec 4) (fg pm : FbBits) : FbBits :=
  ((fg &&& fbFillFromBit (rop >>> 1)) ||| (~~~fg &&& fbFillFromBit (rop >>> 3))) &&& pm

def fbAnd (rop : BitVec 4) (fg pm : FbBits) : FbBits :=
  ((fg &&& fbFillFromBit (rop ^^^ (rop >>> 1))) ||| (~~~fg &&& fbFillFromBit ((rop >>> 2) ^^^ (rop >>> 3)))) ||| ~~~pm

def FbDoRRop (dst and xor : FbBits) : FbBits := (dst &&& and) ^^^ xor

def FbDoMaskRRop (dst and xor mask : FbBits) : FbBits := (dst &&& (and ||| ~~~mask)) ^^^ (xor &&& mask)

/-! Rops for using tile code for 1-bit dest stipples. -/

def FbStipple1RopPick (alu : BitVec 4) (b : FbBits) : BitVec 4 := (alu >>> (2 - ((b &&& 1) <<< 1).toNat)) &&& 3

def FbOpaqueStipple1Rop (alu : BitVec 4) (fg bg : FbBits) : BitVec 4 := FbStipple1RopPick alu fg ||| (FbStipple1RopPick alu bg <<< 2)

def FbStipple1Rop (alu : BitVec 4) (fg : FbBits) : BitVec 4 := FbStipple1RopPick alu fg ||| 4

/-! ## One bit -/

/-- A function on one bit is a table of its number's bits. -/
def ropBit (alu : BitVec 4) (src dst : Bool) : Bool := alu.getLsbD (2 * (!src).toNat + (!dst).toNat)

variable {k : ℕ}

theorem getLsbD_GX {w : ℕ} (alu : BitVec 4) (src dst : BitVec w) (hk : k < w) :
    (GX alu src dst).getLsbD k = ropBit alu (src.getLsbD k) (dst.getLsbD k) := by
  have hall : ∀ (alu : BitVec 4), ∀ s d : Bool,
      ropBit alu s d = [false, s && d, s && !d, s, !s && d, d, s ^^ d, s || d, !(s || d), !s ^^ d, !d, s || !d, !s, !s || d,
        !(s && d), true].getD alu.toNat false := by decide
  rw [hall]
  unfold GX
  obtain ⟨⟨n, hn⟩⟩ := alu
  interval_cases n <;> simp [hk]

theorem fbFillFromBit_eq : ∀ b : BitVec 4, fbFillFromBit b = if b.getLsbD 0 then allOnes 32 else 0 := by decide

theorem getLsbD_fbFillFromBit (b : BitVec 4) (hk : k < 32) : (fbFillFromBit b).getLsbD k = b.getLsbD 0 := by
  rw [fbFillFromBit_eq]
  split
  next hb =>
    rw [hb, getLsbD_allOnes, decide_eq_true hk]
  next hb =>
    rw [Bool.eq_false_of_not_eq_true hb]
    exact getLsbD_zero

/-- **The reduced masks are the function in the planes of the mask.** -/
theorem doRRop_reduced (alu : BitVec 4) (fg pm old : Bool) {fgWord pmWord : FbBits} (hk : k < 32)
    (hfg : fgWord.getLsbD k = fg) (hpm : pmWord.getLsbD k = pm) :
    ((old && (fbAnd alu fgWord pmWord).getLsbD k) ^^ (fbXor alu fgWord pmWord).getLsbD k) = if pm then ropBit alu fg old else old := by
  have hall : ∀ (alu : BitVec 4), ∀ fg pm old : Bool,
      ((old && (((fg && (alu ^^^ (alu >>> 1)).getLsbD 0) || (!fg && ((alu >>> 2) ^^^ (alu >>> 3)).getLsbD 0)) || !pm)) ^^
        (((fg && (alu >>> 1).getLsbD 0) || (!fg && (alu >>> 3).getLsbD 0)) && pm)) = if pm then ropBit alu fg old else old := by decide
  rw [← hall]
  unfold fbAnd fbXor
  simp only [BitVec.getLsbD_or, BitVec.getLsbD_and, BitVec.getLsbD_not, getLsbD_fbFillFromBit _ hk, hfg, hpm, decide_eq_true hk,
    Bool.true_and]

/-- A mask selects the bits that an operation changes. -/
theorem getLsbD_doMaskRRop (dst and xor mask : FbBits) (hk : k < 32) :
    (FbDoMaskRRop dst and xor mask).getLsbD k =
      if mask.getLsbD k then (dst.getLsbD k && and.getLsbD k) ^^ xor.getLsbD k else dst.getLsbD k := by
  unfold FbDoMaskRRop
  simp only [getLsbD_xor, getLsbD_and, getLsbD_or, getLsbD_not, decide_eq_true hk]
  cases mask.getLsbD k <;> simp

theorem getLsbD_doRRop (dst and xor : FbBits) (k : ℕ) :
    (FbDoRRop dst and xor).getLsbD k = ((dst.getLsbD k && and.getLsbD k) ^^ xor.getLsbD k) := by
  unfold FbDoRRop
  rw [getLsbD_xor, getLsbD_and]

theorem FbStipple1RopPick_eq (alu : BitVec 4) (b : FbBits) :
    FbStipple1RopPick alu b = (alu >>> (if b.getLsbD 0 then 0 else 2)) &&& 3 := by
  have hone : b &&& 1 = if b.getLsbD 0 then 1 else 0 := by
    apply eq_of_getLsbD_eq
    intro k hk
    rw [getLsbD_and]
    rcases eq_zero_or_pos k with rfl | hpos
    · cases b.getLsbD 0 <;> rfl
    · have hzero : (1 : FbBits).getLsbD k = false := by
        simp [ne_of_gt hpos]
      rw [hzero, Bool.and_false]
      split
      · exact hzero.symm
      · exact getLsbD_zero.symm
  unfold FbStipple1RopPick
  rw [hone]
  cases b.getLsbD 0 <;> rfl

/-- **The derived operation has the stipple as its source.** -/
theorem ropBit_stipple1 (alu : BitVec 4) (fg : FbBits) (b old : Bool) :
    ropBit (FbStipple1Rop alu fg) b old = if b then ropBit alu (fg.getLsbD 0) old else old := by
  have hall : ∀ (alu : BitVec 4), ∀ f b old : Bool,
      ropBit (((alu >>> (if f then 0 else 2)) &&& 3) ||| 4) b old = if b then ropBit alu f old else old := by decide
  unfold FbStipple1Rop
  rw [FbStipple1RopPick_eq, hall]

theorem ropBit_opaqueStipple1 (alu : BitVec 4) (fg bg : FbBits) (b old : Bool) :
    ropBit (FbOpaqueStipple1Rop alu fg bg) b old = ropBit alu (if b then fg.getLsbD 0 else bg.getLsbD 0) old := by
  have hall : ∀ (alu : BitVec 4), ∀ f g b old : Bool,
      ropBit (((alu >>> (if f then 0 else 2)) &&& (3 : BitVec 4)) ||| (((alu >>> (if g then 0 else 2)) &&& (3 : BitVec 4)) <<< 2)) b old =
        ropBit alu (if b then f else g) old := by decide
  unfold FbOpaqueStipple1Rop
  rw [FbStipple1RopPick_eq, FbStipple1RopPick_eq, hall]

end Xenia.Fb
