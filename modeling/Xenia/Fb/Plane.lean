import Xenia.Fb.FillPixels
import Xenia.Fb.Solid

/-!
# Copying a plane

`fbBltPlane` makes a bit of each pixel, whether it has bits in a mask. Two masks of one pixel and of one bit go along the units of the
source and of the destination, and when one of them is shifted out the next unit is taken. `Walked` is what holds of them after some
pixels (`planeStep_walked`), and `fbBltPlane_bits` the result. The units that are read are noted.
-/

namespace Xenia.Fb

open Xenia.Lib Xenia.Lib.Bitmap

def FbStippleRRopMask (dst b fa fx ba bx m : FbBits) : FbBits := (FbDoMaskRRop dst fa fx m &&& b) ||| (FbDoMaskRRop dst ba bx m &&& ~~~b)

def fbReplicatePixel (p : FbBits) (bpp : ℕ) : FbBits := spread (p &&& FbFullMask bpp) bpp

/-- A stipple has the units of the bits. -/
def FbStipMask (x w : ℤ) : FbBits := FbBitsMask x w

structure StippleRop where
  fgand : FbBits
  fgxor : FbBits
  bgand : FbBits
  bgxor : FbBits

structure PlaneState where
  s : ℤ
  srcMask : FbBits
  srcBits : FbBits
  d : ℤ
  dstMask : FbBits
  dstUnion : FbBits
  dstBits : FbBits
  m : Words
  reads : List ℤ

def PlaneState.write (rop : StippleRop) (st : PlaneState) : Words :=
  st.m.store st.d (FbStippleRRopMask (st.m st.d) st.dstBits rop.fgand rop.fgxor rop.bgand rop.bgxor st.dstUnion)

/-- The next unit of the source is taken when the mask was shifted out. -/
def PlaneState.nextSource (src : Words) (srcMask0 : FbBits) (st : PlaneState) : PlaneState :=
  if st.srcMask = 0 then { st with srcBits := src st.s, s := st.s + 1, srcMask := srcMask0, reads := st.s :: st.reads } else st

/-- The unit that was filled is written, and the next one taken, when the mask was shifted out. -/
def PlaneState.nextDestination (rop : StippleRop) (st : PlaneState) : PlaneState :=
  if st.dstMask = 0 then { st with m := st.write rop, d := st.d + 1, dstMask := FbStipMask 0 1, dstUnion := 0, dstBits := 0 } else st

/-- One pixel. -/
def planeStep (src : Words) (srcBpp : ℕ) (srcMask0 : FbBits) (rop : StippleRop) (st : PlaneState) : PlaneState :=
  let st := (st.nextSource src srcMask0).nextDestination rop
  { st with
    dstBits := if st.srcBits &&& st.srcMask ≠ 0 then st.dstBits ||| st.dstMask else st.dstBits
    dstUnion := st.dstUnion ||| st.dstMask
    srcMask := if srcBpp = 32 then 0 else FbScrRight st.srcMask srcBpp
    dstMask := FbScrRight st.dstMask 1 }

def planeLine (src : Words) (srcBpp : ℕ) (srcMaskFirst srcMask0 dstMaskFirst : FbBits) (rop : StippleRop) (w : ℕ) (s d : ℤ)
    (m : Words × List ℤ) : Words × List ℤ :=
  let st := (planeStep src srcBpp srcMask0 rop)^[w]
    { s := s + 1, srcMask := srcMaskFirst, srcBits := src s, d, dstMask := dstMaskFirst, dstUnion := 0, dstBits := 0, m := m.1,
      reads := s :: m.2 }
  (if st.dstUnion ≠ 0 then st.write rop else st.m, st.reads)

def planeLines (line : ℤ → ℤ → Words × List ℤ → Words × List ℤ) (srcStride dstStride : ℤ) :
    ℕ → ℤ → ℤ → Words × List ℤ → Words × List ℤ
  | 0, _, _, m => m
  | height + 1, s, d, m => planeLines line srcStride dstStride height (s + srcStride) (d + dstStride) (line s d m)

def fbBltPlane (src : Words) (srcLine srcStride srcX : ℤ) (srcBpp : ℕ) (dst dstStride dstX width : ℤ) (height : ℕ) (rop : StippleRop)
    (planeMask : FbBits) (m : Words) : Words × List ℤ :=
  if width = 0 then (m, [])
  else
    let srcLine := srcLine + srcX / 32
    let srcX := srcX % 32
    let dst := dst + dstX / 32
    let dstX := dstX % 32
    let w := (width.tdiv srcBpp).toNat
    let pm := fbReplicatePixel planeMask srcBpp
    planeLines (planeLine src srcBpp (pm &&& FbBitsMask srcX srcBpp) (pm &&& FbBitsMask 0 srcBpp) (FbStipMask dstX 1) rop w)
      srcStride dstStride height srcLine dst (m, [])

/-! ## One line -/

variable {F : Format} {planeMask : FbBits} {src : Words} {rop : StippleRop} {s d : ℤ} {x y n k f t e q : ℕ} {m : Words}
  {st : PlaneState} {reads : List ℤ}

/-- Whether the pixel at a place of the source has bits in the mask. -/
def planeBit (F : Format) (planeMask : FbBits) (src : Words) (place : ℤ) : Bool :=
  (List.range F.bitsPerPixel).any fun j => bit src (place + j) && planeMask.getLsbD j

/-- The operation on a bit, with the bit of the stipple. -/
def StippleRop.on (rop : StippleRop) (b : Bool) (A : ℤ) (old : Bool) : Bool :=
  if b then rrop rop.fgand rop.fgxor A old else rrop rop.bgand rop.bgxor A old

/-- After `k` of `n` pixels: the units `f` and `e` of the source and of the destination, and the places in them that are next. -/
structure WalkedAt (F : Format) (planeMask : FbBits) (src : Words) (rop : StippleRop) (s d : ℤ) (x y : ℕ) (m : Words) (reads : List ℤ)
    (n k f t e q : ℕ) (st : PlaneState) : Prop where
  s_eq : st.s = s + f + 1
  from_eq : 32 * f + t = y + k * F.bitsPerPixel
  t_le : t ≤ 32
  srcMask : ∀ j < 32, st.srcMask.getLsbD j = (decide (t ≤ j ∧ j < t + F.bitsPerPixel) && planeMask.getLsbD (j % F.bitsPerPixel))
  srcBits : st.srcBits = src (s + f)
  d_eq : st.d = d + e
  to_eq : 32 * e + q = x + k
  q_le : q ≤ 32
  dstMask : st.dstMask = BitVec.twoPow 32 q
  dstUnion : ∀ j < 32, st.dstUnion.getLsbD j = decide (j < q ∧ x ≤ 32 * e + j)
  dstBits : ∀ j < 32, st.dstBits.getLsbD j = (decide (j < q ∧ x ≤ 32 * e + j) &&
    planeBit F planeMask src (32 * s + y + (32 * e + j - x : ℤ) * F.bitsPerPixel))
  m_eq : ∀ A, bit st.m A = if 32 * d + x ≤ A ∧ A < 32 * (d + e) then
    rop.on (planeBit F planeMask src (32 * s + y + (A - (32 * d + x)) * F.bitsPerPixel)) A (bit m A) else bit m A
  reads_mem : ∀ a ∈ st.reads, a ∈ reads ∨ (s ≤ a ∧ 32 * (a - s) < y + n * F.bitsPerPixel)

def Walked (F : Format) (planeMask : FbBits) (src : Words) (rop : StippleRop) (s d : ℤ) (x y : ℕ) (m : Words) (reads : List ℤ)
    (n k : ℕ) (st : PlaneState) : Prop := ∃ f t e q, WalkedAt F planeMask src rop s d x y m reads n k f t e q st

/-- A pixel does not go over the end of a unit. -/
theorem Format.room (F : Format) (ht : F.bitsPerPixel ∣ t) (hlt : t < 32) : t + F.bitsPerPixel ≤ 32 := by
  obtain ⟨a, rfl⟩ := ht
  obtain ⟨b, hb⟩ := F.dvd
  rw [hb] at hlt ⊢
  calc F.bitsPerPixel * a + F.bitsPerPixel = F.bitsPerPixel * (a + 1) := by ring
    _ ≤ F.bitsPerPixel * b := Nat.mul_le_mul_left _ (Nat.lt_of_mul_lt_mul_left hlt)

section

variable (h : WalkedAt F planeMask src rop s d x y m reads n k f t e q st)
include h

theorem WalkedAt.t_dvd (hy : F.bitsPerPixel ∣ y) :
    F.bitsPerPixel ∣ t := by
  have hsum : F.bitsPerPixel ∣ 32 * f + t := by
    rw [h.from_eq]
    exact dvd_add hy ⟨k, mul_comm _ _⟩
  exact (Nat.dvd_add_right (F.dvd.trans ⟨f, rfl⟩)).1 hsum

/-- The unit that was filled is written. -/
theorem WalkedAt.bit_write (A : ℤ) :
    bit (st.write rop) A = if 32 * d + x ≤ A ∧ A < 32 * (d + e) + q then
      rop.on (planeBit F planeMask src (32 * s + y + (A - (32 * d + x)) * F.bitsPerPixel)) A (bit m A) else bit m A := by
  have hk : (A % 32).toNat < 32 := by omega
  have hq := h.q_le
  have hm := h.m_eq A
  unfold PlaneState.write FbStippleRRopMask
  rw [bit_store, h.d_eq]
  by_cases hunit : A / 32 = d + e
  · have hplace : ((32 * e + (A % 32).toNat - x : ℤ)) = A - (32 * d + x) := by omega
    have hold : (st.m (d + e)).getLsbD (A % 32).toNat = bit st.m A := by
      unfold bit
      rw [hunit]
    rw [if_pos hunit, BitVec.getLsbD_or, BitVec.getLsbD_and, BitVec.getLsbD_and, BitVec.getLsbD_not, decide_eq_true hk,
      getLsbD_doMaskRRop _ _ _ _ hk, getLsbD_doMaskRRop _ _ _ _ hk, h.dstUnion _ hk, h.dstBits _ hk, hold, hplace, hm,
      if_neg (by omega : ¬(32 * d + (x : ℤ) ≤ A ∧ A < 32 * (d + e)))]
    by_cases hin : (A % 32).toNat < q ∧ x ≤ 32 * e + (A % 32).toNat
    · rw [decide_eq_true hin, if_pos rfl, if_pos rfl, if_pos (by omega)]
      unfold StippleRop.on rrop
      cases planeBit F planeMask src (32 * s + y + (A - (32 * d + x)) * F.bitsPerPixel) <;> simp
    · rw [decide_eq_false hin, if_neg (by decide), if_neg (by decide), if_neg (by omega)]
      simp
  · rw [if_neg hunit, hm]
    exact if_congr (by omega) rfl rfl

end

theorem getLsbD_planeMask (F : Format) (planeMask : FbBits) {y : ℕ} (hy : y + F.bitsPerPixel ≤ 32) {j : ℕ} (hj : j < 32) :
    (fbReplicatePixel planeMask F.bitsPerPixel &&& FbBitsMask y F.bitsPerPixel).getLsbD j =
      (decide (y ≤ j ∧ j < y + F.bitsPerPixel) && planeMask.getLsbD (j % F.bitsPerPixel)) := by
  have hpos := F.pos
  unfold fbReplicatePixel
  rw [BitVec.getLsbD_and, getLsbD_spread_full F _ hj, getLsbD_FbBitsMask (by omega) (by omega) (by omega) hj, Bool.and_comm]
  congr 1
  exact decide_eq_decide.2 (by omega)

theorem FbStipMask_one {x : ℕ} (hx : x < 32) : FbStipMask x 1 = BitVec.twoPow 32 x := by
  apply BitVec.eq_of_getLsbD_eq
  intro j hj
  unfold FbStipMask
  rw [getLsbD_FbBitsMask (by omega) (by decide) (by omega) hj, BitVec.getLsbD_twoPow, decide_eq_true hx]
  exact decide_eq_decide.2 (by omega)

section

variable (h : WalkedAt F planeMask src rop s d x y m reads n k f t e q st)
include h

theorem WalkedAt.next_source (hk : k < n) (hy : F.bitsPerPixel ∣ y) (hmask : ∃ j < F.bitsPerPixel, planeMask.getLsbD j = true) :
    ∃ f t, t + F.bitsPerPixel ≤ 32 ∧ WalkedAt F planeMask src rop s d x y m reads n k f t e q
      (st.nextSource src (fbReplicatePixel planeMask F.bitsPerPixel &&& FbBitsMask 0 F.bitsPerPixel)) := by
  have hdvd := h.t_dvd hy
  have hpos := F.pos
  unfold PlaneState.nextSource
  have hle := Nat.le_of_dvd (by decide) F.dvd
  by_cases hlast : t = 32
  · have hzero : st.srcMask = 0 := by
      apply BitVec.eq_of_getLsbD_eq
      intro j hj
      rw [h.srcMask j hj, decide_eq_false (by omega)]
      exact BitVec.getLsbD_zero.symm
    have hfrom := h.from_eq
    have hs := h.s_eq
    rw [if_pos hzero]
    refine ⟨f + 1, 0, by omega, { h with
      s_eq := ?_, from_eq := by omega, t_le := by decide, srcMask := ?_, srcBits := ?_, reads_mem := ?_ }⟩
    · dsimp only
      omega
    · intro j hj
      exact getLsbD_planeMask F planeMask (y := 0) (by omega) hj
    · dsimp only
      rw [hs]
      push_cast
      ring_nf
    · refine List.forall_mem_cons.2 ⟨.inr ?_, h.reads_mem⟩
      have hmore : k * F.bitsPerPixel < n * F.bitsPerPixel := Nat.mul_lt_mul_of_pos_right hk hpos
      omega
  · have hroom : t + F.bitsPerPixel ≤ 32 := F.room hdvd (lt_of_le_of_ne h.t_le hlast)
    have hne : st.srcMask ≠ 0 := by
      obtain ⟨j, hj, hbit⟩ := hmask
      intro hzero
      have hset := h.srcMask (t + j) (by omega)
      obtain ⟨a, rfl⟩ := hdvd
      rw [hzero, decide_eq_true (by omega), Nat.mul_add_mod, Nat.mod_eq_of_lt hj, hbit, BitVec.ofNat_eq_ofNat, BitVec.getLsbD_zero] at hset
      exact absurd hset (by decide)
    rw [if_neg hne]
    exact ⟨f, t, hroom, h⟩

theorem WalkedAt.next_destination :
    ∃ e q, q < 32 ∧ WalkedAt F planeMask src rop s d x y m reads n k f t e q (st.nextDestination rop) := by
  have hq := h.q_le
  unfold PlaneState.nextDestination
  by_cases hlast : q = 32
  · have hzero : st.dstMask = 0 := by
      rw [h.dstMask, hlast]
      decide
    have hto := h.to_eq
    have hd := h.d_eq
    have hnone : ∀ j < 32, (0 : FbBits).getLsbD j = decide (j < 0 ∧ x ≤ 32 * (e + 1) + j) := by
      intro j _
      exact BitVec.getLsbD_zero
    rw [if_pos hzero]
    refine ⟨e + 1, 0, by decide, { h with
      d_eq := ?_, to_eq := by omega, q_le := by decide, dstMask := FbStipMask_one (by decide : 0 < 32), dstUnion := hnone,
      dstBits := ?_, m_eq := ?_ }⟩
    · dsimp only
      omega
    · intro j hj
      rw [hnone j hj, decide_eq_false (by omega), Bool.false_and]
    · intro A
      rw [h.bit_write]
      exact if_congr (by push_cast; omega) rfl rfl
  · have hne : st.dstMask ≠ 0 := by
      intro hzero
      have hbit : st.dstMask.getLsbD q = true := by
        rw [h.dstMask, BitVec.getLsbD_twoPow, decide_eq_true (by omega : q < 32), decide_eq_true rfl]
        rfl
      rw [hzero, BitVec.ofNat_eq_ofNat, BitVec.getLsbD_zero] at hbit
      exact absurd hbit (by decide)
    rw [if_neg hne]
    exact ⟨e, q, by omega, h⟩

/-- The pixel under the masks. -/
theorem WalkedAt.pixel (hy : F.bitsPerPixel ∣ y) (ht : t + F.bitsPerPixel ≤ 32) :
    (st.srcBits &&& st.srcMask ≠ 0) ↔ planeBit F planeMask src (32 * s + y + (32 * e + q - x : ℤ) * F.bitsPerPixel) = true := by
  have hto := h.to_eq
  have hplace : 32 * s + (y : ℤ) + (32 * e + q - x : ℤ) * F.bitsPerPixel = 32 * (s + f) + t := by
    have hk : (32 * e + q - x : ℤ) = k := by omega
    have hfrom := h.from_eq
    rw [hk]
    linarith
  have hbit : ∀ j < F.bitsPerPixel, bit src (32 * (s + f) + t + j) = st.srcBits.getLsbD (t + j) := by
    intro j hj
    have hunit : (32 * (s + f) + (t : ℤ) + j) / 32 = s + f := by omega
    have hin : ((32 * (s + f) + (t : ℤ) + j) % 32).toNat = t + j := by omega
    rw [h.srcBits]
    unfold bit
    rw [hunit, hin]
  have hmod : ∀ j < F.bitsPerPixel, (t + j) % F.bitsPerPixel = j := by
    intro j hj
    obtain ⟨a, rfl⟩ := h.t_dvd hy
    rw [Nat.mul_add_mod, Nat.mod_eq_of_lt hj]
  unfold planeBit
  rw [hplace, and_ne_zero_iff, List.any_eq_true]
  constructor
  · rintro ⟨b, hsrc, hset⟩
    have hb : b < 32 := BitVec.lt_of_getLsbD hset
    rw [h.srcMask b hb, Bool.and_eq_true, decide_eq_true_eq] at hset
    obtain ⟨j, rfl⟩ := Nat.exists_eq_add_of_le hset.1.1
    have hj : j < F.bitsPerPixel := by omega
    refine ⟨j, List.mem_range.2 hj, ?_⟩
    rw [hbit j hj, hsrc, ← hmod j hj, hset.2]
    rfl
  · rintro ⟨j, hj, hset⟩
    have hj := List.mem_range.1 hj
    rw [hbit j hj, Bool.and_eq_true] at hset
    refine ⟨t + j, hset.1, ?_⟩
    rw [h.srcMask _ (by omega), hmod j hj, hset.2, decide_eq_true (by omega)]
    rfl

end

/-- **One pixel** goes from the source to the destination. -/
theorem planeStep_walked (h : Walked F planeMask src rop s d x y m reads n k st) (hk : k < n) (hy : F.bitsPerPixel ∣ y)
    (hmask : ∃ j < F.bitsPerPixel, planeMask.getLsbD j = true) :
    Walked F planeMask src rop s d x y m reads n (k + 1)
      (planeStep src F.bitsPerPixel (fbReplicatePixel planeMask F.bitsPerPixel &&& FbBitsMask 0 F.bitsPerPixel) rop st) := by
  obtain ⟨f, t, e, q, h⟩ := h
  obtain ⟨f, t, ht, h⟩ := h.next_source hk hy hmask
  obtain ⟨e, q, hq, h⟩ := h.next_destination
  have hpixel := h.pixel hy ht
  have hto := h.to_eq
  have hpow : ∀ j < 32, (BitVec.twoPow 32 q).getLsbD j = decide (q = j) := by
    intro j _
    rw [BitVec.getLsbD_twoPow, decide_eq_true hq, Bool.true_and]
  unfold planeStep
  dsimp only
  refine ⟨f, t + F.bitsPerPixel, e, q + 1, { h with
    from_eq := ?_, t_le := ht, to_eq := by omega, q_le := hq, srcMask := ?_, dstMask := ?_, dstUnion := ?_, dstBits := ?_ }⟩
  · have hfrom := h.from_eq
    rw [Nat.succ_mul k]
    omega
  · intro j hj
    split
    next hbpp =>
      rw [decide_eq_false (by omega)]
      exact BitVec.getLsbD_zero
    next hbpp =>
      unfold FbScrRight
      rw [BitVec.getLsbD_shiftLeft, Int.toNat_natCast, decide_eq_true hj]
      by_cases hlow : j < F.bitsPerPixel
      · rw [decide_eq_true hlow, decide_eq_false (by omega)]
        rfl
      · have hiff : decide (t ≤ j - F.bitsPerPixel ∧ j - F.bitsPerPixel < t + F.bitsPerPixel) =
            decide (t + F.bitsPerPixel ≤ j ∧ j < t + F.bitsPerPixel + F.bitsPerPixel) := decide_eq_decide.2 (by omega)
        rw [decide_eq_false hlow, h.srcMask _ (by omega), hiff, ← Nat.mod_eq_sub_mod (by omega)]
        rfl
  · apply BitVec.eq_of_getLsbD_eq
    intro j hj
    unfold FbScrRight
    rw [h.dstMask, BitVec.getLsbD_shiftLeft, BitVec.getLsbD_twoPow, BitVec.getLsbD_twoPow, decide_eq_true hj, decide_eq_true hq]
    by_cases hzero : j = 0
    · subst hzero
      simp
    · have hiff : decide (q = j - 1) = (decide (q + 1 < 32) && decide (q + 1 = j)) := by
        rw [← Bool.decide_and]
        exact decide_eq_decide.2 (by omega)
      rw [decide_eq_false (by simpa using hzero : ¬j < (1 : ℤ).toNat), ← hiff]
      rfl
  · intro j hj
    rw [BitVec.getLsbD_or, h.dstUnion j hj, h.dstMask, hpow j hj, ← Bool.decide_or]
    exact decide_eq_decide.2 (by omega)
  · intro j hj
    dsimp only
    have hold := h.dstBits j hj
    by_cases hlast : q = j
    · subst hlast
      rw [decide_eq_false (by omega)] at hold
      rw [decide_eq_true (by omega), Bool.true_and]
      split
      next hset =>
        rw [BitVec.getLsbD_or, h.dstMask, hpow _ hj, decide_eq_true rfl, Bool.or_true, hpixel.1 hset]
      next hset =>
        rw [hold]
        exact (Bool.eq_false_of_not_eq_true fun htrue => hset (hpixel.2 htrue)).symm
    · have hiff : decide (j < q + 1 ∧ x ≤ 32 * e + j) = decide (j < q ∧ x ≤ 32 * e + j) := decide_eq_decide.2 (by omega)
      rw [hiff, ← hold]
      split
      · rw [BitVec.getLsbD_or, h.dstMask, hpow j hj, decide_eq_false hlast, Bool.or_false]
      · rfl

/-- **One line.** -/
theorem planeLine_spec (hy : F.bitsPerPixel ∣ y) (hy' : y + F.bitsPerPixel ≤ 32) (hx : x < 32) (hn : 0 < n)
    (hmask : ∃ j < F.bitsPerPixel, planeMask.getLsbD j = true) (s d : ℤ) (m : Words × List ℤ) :
    let result := planeLine src F.bitsPerPixel (fbReplicatePixel planeMask F.bitsPerPixel &&& FbBitsMask y F.bitsPerPixel)
      (fbReplicatePixel planeMask F.bitsPerPixel &&& FbBitsMask 0 F.bitsPerPixel) (FbStipMask x 1) rop n s d m
    (∀ A, bit result.1 A = if 32 * d + x ≤ A ∧ A < 32 * d + x + n then
      rop.on (planeBit F planeMask src (32 * s + y + (A - (32 * d + x)) * F.bitsPerPixel)) A (bit m.1 A) else bit m.1 A) ∧
    ∀ a ∈ result.2, a ∈ m.2 ∨ (s ≤ a ∧ 32 * (a - s) < y + n * F.bitsPerPixel) := by
  have hpos := F.pos
  have hsome : 0 < n * F.bitsPerPixel := mul_pos hn hpos
  have hruns : ∀ k ≤ n, Walked F planeMask src rop s d x y m.1 m.2 n k
      ((planeStep src F.bitsPerPixel (fbReplicatePixel planeMask F.bitsPerPixel &&& FbBitsMask 0 F.bitsPerPixel) rop)^[k]
        { s := s + 1, srcMask := fbReplicatePixel planeMask F.bitsPerPixel &&& FbBitsMask y F.bitsPerPixel, srcBits := src s, d,
          dstMask := FbStipMask x 1, dstUnion := 0, dstBits := 0, m := m.1, reads := s :: m.2 }) := by
    intro k
    induction k with
    | zero =>
      intro _
      have hnone : ∀ j < 32, (0 : FbBits).getLsbD j = decide (j < x ∧ x ≤ 32 * 0 + j) := by
        intro j _
        rw [decide_eq_false (by omega)]
        exact BitVec.getLsbD_zero
      refine ⟨0, y, 0, x, ⟨by simp, by simp, by omega, ?_, by simp, by simp, by simp, hx.le, FbStipMask_one hx, hnone, ?_, ?_, ?_⟩⟩
      · intro j hj
        exact getLsbD_planeMask F planeMask hy' hj
      · intro j hj
        dsimp only [Function.iterate_zero, id]
        rw [hnone j hj, decide_eq_false (by omega), Bool.false_and]
      · intro A
        exact (if_neg (by simp only [Nat.cast_zero]; omega)).symm
      · refine List.forall_mem_cons.2 ⟨.inr ⟨le_refl s, ?_⟩, fun a ha => .inl ha⟩
        omega
    | succ k ih =>
      intro hk
      rw [Function.iterate_succ_apply']
      exact planeStep_walked (ih (by omega)) hk hy hmask
  obtain ⟨f, t, e, q, h⟩ := hruns n (le_refl n)
  refine ⟨fun A => ?_, h.reads_mem⟩
  have hto := h.to_eq
  change bit (if _ ≠ 0 then _ else _) A = _
  split
  · rw [h.bit_write]
    exact if_congr (by omega) rfl rfl
  next hzero =>
    rw [h.m_eq]
    refine if_congr ⟨fun hA => by omega, fun hA => ⟨hA.1, ?_⟩⟩ rfl rfl
    -- a pending bit would be in the union
    by_contra hge
    have hbit := h.dstUnion (A - 32 * (d + e)).toNat (by have := h.q_le; omega)
    rw [not_not.1 hzero, decide_eq_true (by omega), BitVec.ofNat_eq_ofNat, BitVec.getLsbD_zero] at hbit
    exact absurd hbit (by decide)

/-! ## The lines -/

theorem planeLines_spec (r : BitRect) (line : ℤ → ℤ → Words × List ℤ → Words × List ℤ) (Read : ℤ → ℤ → Prop)
    (value : ℤ → ℤ → ℤ → Bool → Bool) (srcStride : ℤ)
    (hline : ∀ (j : ℕ) s m, (∀ A, bit (line s (r.dst + r.dstX / 32 + j * r.dstStride) m).1 A =
      if r.InLine j A then value s j A (bit m.1 A) else bit m.1 A) ∧
      ∀ a ∈ (line s (r.dst + r.dstX / 32 + j * r.dstStride) m).2, a ∈ m.2 ∨ Read s a) :
    ∀ (height k : ℕ) (s : ℤ) (m : Words × List ℤ), k + height = r.height →
      let result := planeLines line srcStride r.dstStride height s (r.dst + r.dstX / 32 + k * r.dstStride) m
      (∀ j : ℕ, k ≤ j → j < r.height → ∀ A, r.InLine j A →
        bit result.1 A = value (s + (j - k) * srcStride) j A (bit m.1 A)) ∧
      (∀ A, (∀ j : ℕ, k ≤ j → j < r.height → ¬r.InLine j A) → bit result.1 A = bit m.1 A) ∧
      ∀ a ∈ result.2, a ∈ m.2 ∨ ∃ j : ℕ, k ≤ j ∧ j < r.height ∧ Read (s + (j - k) * srcStride) a := by
  intro height
  induction height with
  | zero =>
    intro k s m hk
    exact ⟨fun j hj hj' => absurd hj' (by omega), fun A _ => rfl, fun a ha => .inl ha⟩
  | succ height ih =>
    intro k s m hk
    have hnext : r.dst + r.dstX / 32 + (k : ℤ) * r.dstStride + r.dstStride = r.dst + r.dstX / 32 + ((k + 1 : ℕ) : ℤ) * r.dstStride := by
      push_cast
      ring
    have hshift : ∀ j : ℕ, s + srcStride + ((j : ℤ) - ((k + 1 : ℕ) : ℤ)) * srcStride = s + (j - k) * srcStride := by
      intro j
      push_cast
      ring
    have hfirst : s + ((k : ℤ) - k) * srcStride = s := by
      rw [sub_self, zero_mul, add_zero]
    obtain ⟨hbits, hreads⟩ := hline k s m
    obtain ⟨hdone, hkept, hread⟩ := ih (k + 1) (s + srcStride) (line s (r.dst + r.dstX / 32 + k * r.dstStride) m) (by omega)
    rw [planeLines, hnext]
    refine ⟨?_, ?_, ?_⟩
    · intro j hj hj' A hA
      by_cases hjk : j = k
      · subst hjk
        rw [hkept A fun i hi hi' hin => r.lines_apart hi' (by omega) ⟨hA, hin⟩, hbits, if_pos hA, hfirst]
      · rw [hdone j (by omega) hj' A hA, hshift, hbits, if_neg fun hin => r.lines_apart hj' (by omega) ⟨hin, hA⟩]
    · intro A hA
      rw [hkept A fun j hj => hA j (by omega), hbits, if_neg (hA k (le_refl k) (by omega))]
    · intro a ha
      rcases hread a ha with hold | ⟨j, hj, hj', hin⟩
      · rcases hreads a hold with hold | hin
        · exact .inl hold
        · exact .inr ⟨k, le_refl k, by omega, by rw [hfirst]; exact hin⟩
      · exact .inr ⟨j, by omega, hj', by rw [← hshift]; exact hin⟩

/-- A unit that is read has a pixel. -/
theorem pixel_in_unit (F : Format) {u : ℕ} (hy : F.bitsPerPixel ∣ y) (hlt : y < 32) (hn : 0 < n) (hu : 32 * u < y + n * F.bitsPerPixel) :
    ∃ i < n, (y + i * F.bitsPerPixel) / 32 = u := by
  by_cases hfirst : u = 0
  · subst hfirst
    exact ⟨0, hn, by omega⟩
  · -- the unit begins with a pixel
    obtain ⟨i, hi⟩ : F.bitsPerPixel ∣ 32 * u - y := Nat.dvd_sub (F.dvd.trans ⟨u, rfl⟩) hy
    refine ⟨i, ?_, ?_⟩
    · have hmul : F.bitsPerPixel * i < F.bitsPerPixel * n := by
        rw [mul_comm _ n]
        omega
      exact Nat.lt_of_mul_lt_mul_left hmul
    · rw [mul_comm i]
      omega

/-- **Copying a plane** from the pixels at `X` of the lines at `srcLine`. -/
theorem fbBltPlane_bits (F : Format) (src : Words) (srcLine srcStride : ℤ) (X : ℤ) (r : BitRect) (rop : StippleRop) (planeMask : FbBits)
    (hmask : ∃ j < F.bitsPerPixel, planeMask.getLsbD j = true) (m : Words) :
    let result := fbBltPlane src srcLine srcStride (X * F.bitsPerPixel) F.bitsPerPixel r.dst r.dstStride r.dstX
      (r.width * F.bitsPerPixel) r.height rop planeMask m
    (∀ i j : ℕ, i < r.width → j < r.height →
      let A := 32 * (r.dst + j * r.dstStride) + r.dstX + i
      bit result.1 A = rop.on (planeBit F planeMask src (32 * (srcLine + j * srcStride) + (X + i) * F.bitsPerPixel)) A (bit m A)) ∧
    (∀ A, ¬r.Has A → bit result.1 A = bit m A) ∧
    ∀ a ∈ result.2, ∃ i j : ℕ, i < r.width ∧ j < r.height ∧
      a = (32 * (srcLine + j * srcStride) + (X + i) * F.bitsPerPixel) / 32 := by
  intro result
  have hnonneg := r.width_nonneg
  by_cases hzero : r.width = 0
  · have hresult : result = (m, []) := if_pos (by rw [hzero, zero_mul])
    rw [hresult]
    exact ⟨fun i j hi => absurd hi (by omega), fun A _ => rfl, fun a ha => absurd ha List.not_mem_nil⟩
  obtain ⟨n, hn⟩ := Int.eq_ofNat_of_zero_le hnonneg
  obtain ⟨x, hx⟩ := Int.eq_ofNat_of_zero_le (by omega : 0 ≤ r.dstX % 32)
  obtain ⟨y, hy⟩ := Int.eq_ofNat_of_zero_le (by omega : 0 ≤ X * F.bitsPerPixel % 32)
  have hydvd : F.bitsPerPixel ∣ y := by
    have hint : (F.bitsPerPixel : ℤ) ∣ X * F.bitsPerPixel % 32 :=
      (EuclideanDomain.dvd_mod_iff (Int.natCast_dvd_natCast.2 F.dvd)).2 (Dvd.intro_left X rfl)
    rw [hy] at hint
    exact Int.natCast_dvd_natCast.1 hint
  have hyle : y + F.bitsPerPixel ≤ 32 := F.room hydvd (by omega)
  have hstart : 32 * (X * F.bitsPerPixel / 32) + (y : ℤ) = X * F.bitsPerPixel := by omega
  obtain ⟨S, hS⟩ : ∃ S, S = srcLine + X * F.bitsPerPixel / 32 := ⟨_, rfl⟩
  have hwidth : ((n : ℤ) * F.bitsPerPixel).tdiv F.bitsPerPixel = n := Int.mul_tdiv_cancel _ (by omega)
  have hsome : r.width * F.bitsPerPixel ≠ 0 := mul_ne_zero hzero (by omega)
  obtain ⟨line, hline⟩ : ∃ line, line = planeLine src F.bitsPerPixel
      (fbReplicatePixel planeMask F.bitsPerPixel &&& FbBitsMask y F.bitsPerPixel)
      (fbReplicatePixel planeMask F.bitsPerPixel &&& FbBitsMask 0 F.bitsPerPixel) (FbStipMask x 1) rop n := ⟨_, rfl⟩
  have hresult : result = planeLines line srcStride r.dstStride r.height S (r.dst + r.dstX / 32 + (0 : ℕ) * r.dstStride) (m, []) := by
    change fbBltPlane _ _ _ _ _ _ _ _ _ _ _ _ _ = _
    unfold fbBltPlane
    rw [if_neg hsome]
    rw [hline, hn, hwidth, hx, hy, hS, Int.toNat_natCast, Nat.cast_zero, zero_mul, add_zero]
  obtain ⟨hdone, hkept, hread⟩ := planeLines_spec r line (fun s a => s ≤ a ∧ 32 * (a - s) < y + n * F.bitsPerPixel)
    (fun s j A old => rop.on (planeBit F planeMask src
      (32 * s + y + (A - (32 * (r.dst + j * r.dstStride) + r.dstX)) * F.bitsPerPixel)) A old) srcStride
    (by
      intro j s m
      rw [hline]
      obtain ⟨hbits, hreads⟩ := @planeLine_spec F planeMask src rop _ _ _ hydvd hyle (by omega : x < 32) (by omega : 0 < n) hmask s
        (r.dst + r.dstX / 32 + j * r.dstStride) m
      refine ⟨fun A => ?_, hreads⟩
      have hplace : 32 * (r.dst + r.dstX / 32 + j * r.dstStride) + x = 32 * (r.dst + j * r.dstStride) + r.dstX := by omega
      rw [hbits, hplace]
      exact if_congr (by rw [← hn]; rfl) rfl rfl) r.height 0 S (m, []) (Nat.zero_add _)
  rw [hresult]
  refine ⟨?_, ?_, ?_⟩
  · intro i j hi hj A
    have hin : r.InLine j A := by
      constructor <;> omega
    rw [hdone j (Nat.zero_le j) hj A hin]
    have hplace : 32 * (S + ((j : ℤ) - (0 : ℕ)) * srcStride) + y + (A - (32 * (r.dst + j * r.dstStride) + r.dstX)) * F.bitsPerPixel =
        32 * (srcLine + j * srcStride) + (X + i) * F.bitsPerPixel := by
      rw [Nat.cast_zero]
      linarith
    rw [hplace]
  · intro A hA
    exact hkept A fun j _ hj hin => hA ⟨j, List.mem_range.2 hj, hin⟩
  · intro a ha
    rcases hread a ha with hold | ⟨j, -, hj, hge, hlt⟩
    · exact absurd hold List.not_mem_nil
    · obtain ⟨u, hu⟩ := Int.eq_ofNat_of_zero_le (by omega : 0 ≤ a - (S + ((j : ℤ) - (0 : ℕ)) * srcStride))
      obtain ⟨i, hi, hunit⟩ := pixel_in_unit F hydvd (by omega : y < 32) (by omega : 0 < n) (by zify; omega : 32 * u < y + n * F.bitsPerPixel)
      refine ⟨i, j, by omega, hj, ?_⟩
      have hplace : 32 * (srcLine + j * srcStride) + (X + i) * F.bitsPerPixel =
          32 * (S + ((j : ℤ) - (0 : ℕ)) * srcStride) + (y + i * F.bitsPerPixel : ℕ) := by
        push_cast
        linarith
      omega

/-- Two pixels, of which the first is in the plane, go over the end of a unit. -/
theorem fbBltPlane_bits_example :
    let result := (fbBltPlane (fun _ => 0x1000) 0 1 8 8 0 1 31 16 1 ⟨0, FB_ALLONES, 0, 0⟩ 0x10 fun _ => FB_ALLONES).1
    bit result 31 = true ∧ bit result 32 = false := by
  have h := (fbBltPlane_bits ⟨8, 8, by decide⟩ (fun _ => 0x1000) 0 1 1 ⟨0, 1, 31, 2, 1, by decide, fun h => absurd h (by decide)⟩
    ⟨0, FB_ALLONES, 0, 0⟩ 0x10 ⟨4, by decide, by decide⟩ fun _ => FB_ALLONES).1
  exact ⟨(h 0 0 (by decide) (by decide)).trans (by decide +kernel), (h 1 0 (by decide) (by decide)).trans (by decide +kernel)⟩

end Xenia.Fb
