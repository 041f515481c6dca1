import Xenia.Fb.PartialUnits

/-!
# Solid fills

`fbSolid` fills the lines of a rectangle with reduced raster operation words, unit by unit. `fbSolid_filled_iff` says for which
rectangles and words it does, whatever the bits were: its partial units must not be stored byte by byte, but for one byte, or two with
the second zero, before the right edge.
-/

namespace Xenia.Fb

open Xenia.Lib Xenia.Lib.Bitmap List

/-- One line; the pointer moves. -/
def solidLine (mask : MaskBitsBytes) (and xor : FbBits) (dst : ℤ) (m : Words) : ℤ × Words :=
  let m := if mask.l ≠ 0 then FbDoLeftMaskByteRRop dst mask.lb mask.l and xor m else m
  let dst := if mask.l ≠ 0 then dst + 1 else dst
  let s := (List.range mask.n.toNat).foldl (fun (s : ℤ × Words) _ =>
    (s.1 + 1, s.2.store s.1 (if and = 0 then xor else FbDoRRop (s.2 s.1) and xor))) (dst, m)
  (s.1, if mask.r ≠ 0 then FbDoRightMaskByteRRop s.1 mask.rb mask.r and xor s.2 else s.2)

def solidLines (mask : MaskBitsBytes) (dstStride : ℤ) (and xor : FbBits) : ℕ → ℤ → Words → Words
  | 0, _, m => m
  | height + 1, dst, m =>
    let s := solidLine mask and xor dst m
    solidLines mask dstStride and xor height (s.1 + dstStride) s.2

def fbSolid (dst dstStride dstX width : ℤ) (height : ℕ) (and xor : FbBits) (m : Words) : Words :=
  let dst := dst + dstX / 32
  let mask := FbMaskBitsBytes (dstX % 32) width (and = 0)
  let dstStride := if mask.l ≠ 0 then dstStride - 1 else dstStride
  let dstStride := dstStride - mask.n
  solidLines mask dstStride and xor height dst m

/-- A rectangle of bits; its lines have no bit in common. -/
structure BitRect where
  dst : ℤ
  dstStride : ℤ
  dstX : ℤ
  width : ℤ
  height : ℕ
  width_nonneg : 0 ≤ width
  apart : 1 < height → width ≤ 32 * |dstStride|

def BitRect.InLine (r : BitRect) (j : ℕ) (A : ℤ) : Prop :=
  32 * (r.dst + j * r.dstStride) + r.dstX ≤ A ∧ A < 32 * (r.dst + j * r.dstStride) + r.dstX + r.width

instance decidableInLine (r : BitRect) (j : ℕ) (A : ℤ) : Decidable (r.InLine j A) :=
  inferInstanceAs (Decidable (_ ∧ _))

def BitRect.Has (r : BitRect) (A : ℤ) : Prop := ∃ j ∈ List.range r.height, r.InLine j A

/-- Whatever the bits are, those of the rectangle get the operation, and no other bit changes. -/
def Filled (r : BitRect) (and xor : FbBits) : Prop :=
  ∀ (m : Words) (A : ℤ),
    let new := bit (fbSolid r.dst r.dstStride r.dstX r.width r.height and xor m) A
    (r.Has A → new = ((bit m A && and.getLsbD (A % 32).toNat) ^^ xor.getLsbD (A % 32).toNat)) ∧ (¬r.Has A → new = bit m A)

/-! ## Lines -/

variable {A : ℤ}

theorem BitRect.lines_apart (r : BitRect) {i j : ℕ} (hj : j < r.height) (hij : i < j) : ¬(r.InLine i A ∧ r.InLine j A) := by
  have hwidth := r.apart (by omega)
  have hstep : |r.dstStride| ≤ |((j : ℤ) - i) * r.dstStride| := by
    rw [abs_mul]
    have hone : 1 ≤ |(j : ℤ) - i| := by
      rw [abs_of_pos (by omega)]
      omega
    exact le_mul_of_one_le_left (abs_nonneg _) hone
  have hdiff : ((j : ℤ) - i) * r.dstStride = j * r.dstStride - i * r.dstStride := by ring
  rw [hdiff] at hstep
  rintro ⟨⟨hi, hi'⟩, hj, hj'⟩
  rcases abs_cases (j * r.dstStride - i * r.dstStride) with ⟨habs, -⟩ | ⟨habs, -⟩ <;> omega

variable {x w : ℤ} {and xor : FbBits} {dst S : ℤ} {m : Words} {copy : Bool} {height : ℕ}

theorem solidLine_fst (hx : 0 ≤ x) (hx' : x < 32) (hw : 0 ≤ w) :
    (solidLine (FbMaskBitsBytes x w copy) and xor dst m).1 = dst + (FbMaskBits x w).first + (FbMaskBits x w).n := by
  have hn := (FbMaskBits_cover hx hx' hw).1
  unfold solidLine MaskBits.first
  dsimp only
  rw [FbMaskBitsBytes_masks, store_words]
  split <;> omega

/-- The lines one after the other. -/
theorem solidLines_eq (hx : 0 ≤ x) (hx' : x < 32) (hw : 0 ≤ w) :
    solidLines (FbMaskBitsBytes x w copy) (S - (FbMaskBits x w).first - (FbMaskBits x w).n) and xor height dst m =
      (range height).foldl (fun m (j : ℕ) => (solidLine (FbMaskBitsBytes x w copy) and xor (dst + j * S) m).2) m := by
  induction height generalizing dst m with
  | zero => rfl
  | succ height ih =>
    have hnext : dst + (FbMaskBits x w).first + (FbMaskBits x w).n + (S - (FbMaskBits x w).first - (FbMaskBits x w).n) = dst + S := by
      ring
    unfold solidLines
    dsimp only
    rw [solidLine_fst hx hx' hw, hnext, ih, range_succ_eq_map, foldl_cons, foldl_map]
    have hzero : dst + ((0 : ℕ) : ℤ) * S = dst := by simp
    rw [hzero]
    congr 1
    funext m j
    have hplace : dst + S + (j : ℤ) * S = dst + ((j + 1 : ℕ) : ℤ) * S := by
      push_cast
      ring
    rw [hplace]

theorem fbSolid_eq (r : BitRect) (and xor : FbBits) (m : Words) :
    fbSolid r.dst r.dstStride r.dstX r.width r.height and xor m =
      (range r.height).foldl (fun m (j : ℕ) => (solidLine (FbMaskBitsBytes (r.dstX % 32) r.width (and = 0)) and xor
        (r.dst + r.dstX / 32 + j * r.dstStride) m).2) m := by
  have hstrides : (if (FbMaskBits (r.dstX % 32) r.width).l ≠ 0 then r.dstStride - 1 else r.dstStride) -
      (FbMaskBits (r.dstX % 32) r.width).n =
      r.dstStride - (FbMaskBits (r.dstX % 32) r.width).first - (FbMaskBits (r.dstX % 32) r.width).n := by
    unfold MaskBits.first
    split <;> omega
  unfold fbSolid
  dsimp only
  rw [FbMaskBitsBytes_masks, hstrides, solidLines_eq (by omega) (by omega) r.width_nonneg]

/-- A line whose stores are those of the masks. -/
theorem solidLine_bits (hx : 0 ≤ x) (hx' : x < 32) (hw : 0 ≤ w) (hcopy : copy = true → and = 0) (hinner : ¬(copy ∧ InnerBytes x w))
    (hright : copy = true → rightBytes x w ≠ 3 ∧ (rightBytes x w = 2 → SecondByteZero xor)) :
    (solidLine (FbMaskBitsBytes x w copy) and xor dst m).2 =
      mapBits (fun A old => if 32 * dst + x ≤ A ∧ A < 32 * dst + x + w then rrop and xor A old else old) m := by
  have hline : solidLine (FbMaskBitsBytes x w copy) and xor dst m = evenTileLine (FbMaskBits x w) and xor dst m := by
    unfold solidLine evenTileLine
    rw [FbMaskBitsBytes_masks]
    have hleft : (if (FbMaskBits x w).l ≠ 0 then
        FbDoLeftMaskByteRRop dst (FbMaskBitsBytes x w copy).lb (FbMaskBits x w).l and xor m else m) =
        if (FbMaskBits x w).l ≠ 0 then m.store dst (FbDoMaskRRop (m dst) and xor (FbMaskBits x w).l) else m := by
      split
      next hl => exact left_masked hx hx' hw hl hinner _ _ _ _ _
      next => rfl
    rw [hleft]
    refine Prod.ext rfl ?_
    dsimp only
    split
    next hr => exact right_masked hx hx' hw hr hcopy hright _ _
    next => rfl
  rw [hline, evenTileLine_bits hx hx' hw]

/-! ## Where it fails -/

/-- Inner bytes are stored at the beginning of other units. -/
theorem solidLine_inner (hx' : x < 32) (h : InnerBytes x w) (hA : 8 ≤ A % 32) :
    bit (solidLine (FbMaskBitsBytes x w true) and xor dst m).2 A = bit m A := by
  have hkeep : ∀ (off : ℕ) (m : Words), bit (FbStorePart dst off 8 xor m) A = bit m A := by
    intro off m
    rw [bit_storePart _ _ _ _ _ _ (le_refl 8), if_neg (by omega)]
  obtain ⟨hx, hw, hin, hxa, hwa⟩ := h
  have hmask := FbMaskBits_inner hx hw.le hin
  have hl : (FbMaskBits x w).l ≠ 0 := by
    intro hzero
    have hbit : (FbMaskBits x w).l.getLsbD x.toNat = (0 : FbBits).getLsbD x.toNat := by rw [hzero]
    rw [hmask, BitVec.getLsbD_and, getLsbD_FbLeftMask hx.le hx' (by omega), getLsbD_FbRightMask (by omega), decide_eq_true hx.ne',
      decide_eq_true (by omega), decide_eq_true (by omega), BitVec.ofNat_eq_ofNat, BitVec.getLsbD_zero] at hbit
    exact absurd hbit (by decide)
  have hlb : (FbMaskBitsBytes x w true).lb ∈ [bytes 1 1, bytes 1 2, bytes 2 1] := by
    rw [lb_eq hx.le hx' hw.le hl, if_pos ⟨rfl, hx, hw, hin, hxa, hwa⟩]
    have hall : ∀ i e : ℤ, 0 < i → i < e → e < 4 →
        bytes (BitVec.ofInt 32 i) (BitVec.ofInt 32 e - BitVec.ofInt 32 i) ∈ [bytes 1 1, bytes 1 2, bytes 2 1] := by
      intro i e hi hie he
      have hi' : i < 3 := by omega
      interval_cases i <;> interval_cases e <;> decide
    unfold edgeByte
    rw [if_pos ⟨rfl, hxa⟩, if_pos ⟨rfl, by omega⟩]
    exact hall _ _ (by omega) (by omega) (by omega)
  unfold solidLine
  dsimp only
  rw [FbMaskBitsBytes_masks, if_pos hl, if_pos hl, store_words, hmask]
  rw [if_neg (not_not_intro rfl), bit_mapBits, if_neg (by simp)]
  unfold FbDoLeftMaskByteRRop
  split_ifs with h1 h2 h3
  · exact hkeep 1 m
  · rw [hkeep 2, hkeep 1]
  · exact hkeep 2 m
  · rw [mem_cons, mem_cons, mem_singleton] at hlb
    exact absurd hlb (by simp only [h1, h2, h3, or_self, not_false_eq_true])

/-- What the store at the right edge leaves of the old bits, and what it puts into the second byte. -/
theorem solidLine_right (hx : 0 ≤ x) (hx' : x < 32) (hw : 0 ≤ w) (hright : rightBytes x w = 2 ∨ rightBytes x w = 3) :
    (∀ k : ℕ, (k : ℤ) < 8 * rightBytes x w → (FbMaskBits x w).r.getLsbD k = true) ∧ (∀ A, (8 ≤ A % 32 ∧ A % 32 < 16) → A / 32 = dst + (FbMaskBits x w).first + (FbMaskBits x w).n →
        bit (solidLine (FbMaskBitsBytes x w true) 0 xor dst m).2 A = false) ∧
      ∀ A, rightBytes x w = 3 → 16 ≤ A % 32 → bit (solidLine (FbMaskBitsBytes x w true) 0 xor dst m).2 A =
        if (A / 32 = dst ∧ (FbMaskBits x w).l.getLsbD (A % 32).toNat = true) ∨
          (dst + (FbMaskBits x w).first ≤ A / 32 ∧ A / 32 < dst + (FbMaskBits x w).first + (FbMaskBits x w).n)
        then rrop 0 xor A (bit m A) else bit m A := by
  have hout : ¬((0 < x ∧ x + w < 32) ∨ (x + w) % 8 ≠ 0) := by
    intro h
    unfold rightBytes at hright
    omega
  have hbytes : rightBytes x w = (x + w) % 32 / 8 := if_neg hout
  have hr : (FbMaskBits x w).r ≠ 0 := by
    rw [FbMaskBits_outer hx hx' fun h => hout (.inl h)]
    exact FbRightMask_ne_zero_iff.2 (by omega)
  have hrb := @rb_eq _ _ true hx hx' hw hr
  have hn := (FbMaskBits_cover hx hx' hw).1
  have hinner : ¬(true = true ∧ InnerBytes x w) := fun h => hout (.inl ⟨h.2.1, h.2.2.2.1⟩)
  -- the line up to the right edge
  have hline : solidLine (FbMaskBitsBytes x w true) 0 xor dst m = (dst + (FbMaskBits x w).first + (FbMaskBits x w).n,
      FbDoRightMaskByteRRop (dst + (FbMaskBits x w).first + (FbMaskBits x w).n) (FbMaskBitsBytes x w true).rb (FbMaskBits x w).r 0 xor
        (mapBits (fun A old => if dst + (FbMaskBits x w).first ≤ A / 32 ∧ A / 32 < dst + (FbMaskBits x w).first + (FbMaskBits x w).n
            then rrop 0 xor A old else old)
          (mapBits (fun A old => if A / 32 = dst ∧ (FbMaskBits x w).l.getLsbD (A % 32).toNat = true then rrop 0 xor A old else old)
            m))) := by
    have hleft : (if (FbMaskBits x w).l ≠ 0 then
        FbDoLeftMaskByteRRop dst (FbMaskBitsBytes x w true).lb (FbMaskBits x w).l 0 xor m else m) =
        if (FbMaskBits x w).l ≠ 0 then m.store dst (FbDoMaskRRop (m dst) 0 xor (FbMaskBits x w).l) else m := by
      split
      next hl => exact left_masked hx hx' hw hl hinner _ _ _ _ _
      next => rfl
    have hfirst : (if (FbMaskBits x w).l ≠ 0 then dst + 1 else dst) = dst + (FbMaskBits x w).first := by
      unfold MaskBits.first
      split <;> omega
    unfold solidLine
    dsimp only
    rw [FbMaskBitsBytes_masks, hleft, store_masked, hfirst, store_words, Int.toNat_of_nonneg hn]
    rw [if_pos hr]
  rw [hline]
  refine ⟨?_, ?_, ?_⟩
  · intro k hk
    rw [FbMaskBits_outer hx hx' fun h => hout (.inl h), getLsbD_FbRightMask (by omega)]
    exact decide_eq_true (by omega)
  · intro A hA hplace
    have hsecond : ∀ m : Words, bit (FbStorePart (dst + (FbMaskBits x w).first + (FbMaskBits x w).n) 0 16 xor m) A = false := by
      intro m
      rw [bit_storePart _ _ _ _ _ _ (by decide), if_pos ⟨by omega, by exact_mod_cast hA.2⟩, decide_eq_false (by omega), Bool.false_and]
    rw [hrb]
    unfold FbDoRightMaskByteRRop
    rcases hright with h | h <;> rw [h]
    · rw [if_neg (by decide)]
      exact hsecond _
    · rw [if_neg (by decide), if_neg (by decide), if_pos (by decide), bit_storePart _ _ _ _ _ _ (le_refl 8), if_neg (by omega)]
      exact hsecond _
  · intro A hthree hA
    rw [hrb, hthree]
    unfold FbDoRightMaskByteRRop
    rw [if_neg (by decide), if_neg (by decide), if_pos (by decide), bit_storePart _ _ _ _ _ _ (le_refl 8), if_neg (by omega),
      bit_storePart _ _ _ _ _ _ (by decide), if_neg (by push_cast; omega), bit_mapBits, bit_mapBits]
    by_cases hmiddle : dst + (FbMaskBits x w).first ≤ A / 32 ∧ A / 32 < dst + (FbMaskBits x w).first + (FbMaskBits x w).n
    · rw [if_pos hmiddle, if_pos (Or.inr hmiddle)]
      unfold rrop
      simp
    · rw [if_neg hmiddle]
      exact if_congr (or_iff_left hmiddle).symm rfl rfl

/-! ## When it is right -/

/-- The bits of a line, counted from the unit it begins in. -/
theorem BitRect.inLine_iff (r : BitRect) {j : ℕ} : r.InLine j A ↔ 32 * (r.dst + r.dstX / 32 + j * r.dstStride) + r.dstX % 32 ≤ A ∧
      A < 32 * (r.dst + r.dstX / 32 + j * r.dstStride) + r.dstX % 32 + r.width := by
  have hsplit := Int.emod_add_mul_ediv r.dstX 32
  constructor <;> rintro ⟨hlow, hhigh⟩ <;> constructor <;> linarith

/-- The bits of a line are those of its masks. -/
theorem BitRect.inLine_cover (r : BitRect) {j : ℕ} : r.InLine j A ↔
    (A / 32 = r.dst + r.dstX / 32 + j * r.dstStride ∧ (FbMaskBits (r.dstX % 32) r.width).l.getLsbD (A % 32).toNat = true) ∨
    (r.dst + r.dstX / 32 + j * r.dstStride + (FbMaskBits (r.dstX % 32) r.width).first ≤ A / 32 ∧
      A / 32 < r.dst + r.dstX / 32 + j * r.dstStride + (FbMaskBits (r.dstX % 32) r.width).first +
        (FbMaskBits (r.dstX % 32) r.width).n) ∨
    (A / 32 = r.dst + r.dstX / 32 + j * r.dstStride + (FbMaskBits (r.dstX % 32) r.width).first +
      (FbMaskBits (r.dstX % 32) r.width).n ∧ (FbMaskBits (r.dstX % 32) r.width).r.getLsbD (A % 32).toNat = true) := by
  have hcover := (FbMaskBits_cover (x := r.dstX % 32) (by omega) (by omega) r.width_nonneg).2
    (A / 32 - (r.dst + r.dstX / 32 + j * r.dstStride)) (A % 32).toNat (by omega)
  rw [r.inLine_iff]
  generalize r.dst + r.dstX / 32 + j * r.dstStride = d at *
  have hiff : (32 * d + r.dstX % 32 ≤ A ∧ A < 32 * d + r.dstX % 32 + r.width) ↔
      (r.dstX % 32 ≤ 32 * (A / 32 - d) + ((A % 32).toNat : ℤ) ∧ 32 * (A / 32 - d) + ((A % 32).toNat : ℤ) < r.dstX % 32 + r.width) := by
    omega
  rw [hiff, hcover]
  refine or_congr (and_congr_left' (by omega)) (or_congr (by omega) (and_congr_left' (by omega)))

theorem filled_of_masked (r : BitRect) (and xor : FbBits) (hinner : and = 0 → ¬InnerBytes (r.dstX % 32) r.width)
    (hright : and = 0 → rightBytes (r.dstX % 32) r.width ≠ 3 ∧ (rightBytes (r.dstX % 32) r.width = 2 → SecondByteZero xor)) :
    Filled r and xor := by
  intro m A
  have hlines : fbSolid r.dst r.dstStride r.dstX r.width r.height and xor m =
      (range r.height).foldl (fun m j => mapBits (fun A old => if r.InLine j A then rrop and xor A old else old) m) m := by
    rw [fbSolid_eq]
    congr 1
    funext m j
    rw [solidLine_bits (by omega) (by omega) r.width_nonneg of_decide_eq_true (fun h => hinner (of_decide_eq_true h.1) h.2)
      fun h => hright (of_decide_eq_true h)]
    exact mapBits_congr fun A old => if_congr r.inLine_iff.symm rfl rfl
  have hapart : (range r.height).Pairwise fun i j => ∀ A, ¬(r.InLine i A ∧ r.InLine j A) := by
    refine pairwise_lt_range.imp_of_mem ?_
    intro i j _ hj hij A
    exact r.lines_apart (mem_range.1 hj) hij
  rw [hlines, foldl_mapBits hapart, bit_mapBits]
  exact ⟨fun hA => if_pos hA, fun hA => if_neg hA⟩

/-- A bit that no line changes. -/
theorem bit_foldl_kept {line : ℕ → Words → Words} {l : List ℕ} (h : ∀ j ∈ l, ∀ m, bit (line j m) A = bit m A) (m : Words) :
    bit (l.foldl (fun m j => line j m) m) A = bit m A := by
  induction l generalizing m with
  | nil => rfl
  | cons j l ih =>
    obtain ⟨hj, hl⟩ := forall_mem_cons.1 h
    rw [foldl_cons, ih hl, hj]

/-- **What a solid fill does right**, whatever the bits were. -/
theorem fbSolid_filled_iff (r : BitRect) (and xor : FbBits) :
    Filled r and xor ↔ r.height = 0 ∨ and ≠ 0 ∨ (¬InnerBytes (r.dstX % 32) r.width ∧ rightBytes (r.dstX % 32) r.width ≠ 3 ∧
      (rightBytes (r.dstX % 32) r.width = 2 → SecondByteZero xor)) := by
  constructor
  · intro hfilled
    by_contra hno
    rw [not_or, not_or, not_not] at hno
    obtain ⟨hheight, rfl, hbad⟩ := hno
    obtain ⟨last, hlast⟩ : ∃ last, r.height = last + 1 := ⟨r.height - 1, by omega⟩
    have hfilled : ∀ m A j, j < r.height → r.InLine j A →
        bit (fbSolid r.dst r.dstStride r.dstX r.width r.height 0 xor m) A = xor.getLsbD (A % 32).toNat := by
      intro m A j hj hA
      rw [(hfilled m A).1 ⟨j, mem_range.2 hj, hA⟩, BitVec.ofNat_eq_ofNat, BitVec.getLsbD_zero, Bool.and_false, Bool.false_xor]
    -- bits that are other than they should be
    have hflipped : ∀ A : ℤ, bit (fun _ => ~~~xor) A ≠ xor.getLsbD (A % 32).toNat := by
      intro A
      unfold bit
      rw [BitVec.getLsbD_not, decide_eq_true (by omega)]
      cases xor.getLsbD (A % 32).toNat <;> decide
    simp only [fbSolid_eq, decide_true] at hfilled
    by_cases hinner : InnerBytes (r.dstX % 32) r.width
    · have hx := hinner.1
      have hw := hinner.2.1
      have hxa := hinner.2.2.2.1
      obtain ⟨A, hAdef⟩ : ∃ A, A = 32 * (r.dst + r.dstX / 32) + r.dstX % 32 := ⟨_, rfl⟩
      have hA : r.InLine 0 A := by
        constructor <;> push_cast <;> omega
      refine hflipped A ((bit_foldl_kept ?_ _).symm.trans (hfilled _ A 0 (by omega) hA))
      intro j _ m
      exact solidLine_inner (by omega) hinner (by omega)
    · have hbytes : rightBytes (r.dstX % 32) r.width = 2 ∨ rightBytes (r.dstX % 32) r.width = 3 := by
        by_contra hneither
        rw [not_or] at hneither
        exact hbad ⟨hinner, hneither.2, fun h => absurd h hneither.1⟩
      have hline := fun dst m => @solidLine_right _ _ xor dst m (by omega : 0 ≤ r.dstX % 32) (by omega)
        r.width_nonneg hbytes
      have hn := (FbMaskBits_cover (by omega : 0 ≤ r.dstX % 32) (by omega) r.width_nonneg).1
      -- the unit of the right edge in the last line
      obtain ⟨R, hR⟩ : ∃ R, R = r.dst + r.dstX / 32 + last * r.dstStride + (FbMaskBits (r.dstX % 32) r.width).first +
        (FbMaskBits (r.dstX % 32) r.width).n := ⟨_, rfl⟩
      have hin : ∀ k : ℕ, (k : ℤ) < 8 * rightBytes (r.dstX % 32) r.width → r.InLine last (32 * R + k) := by
        intro k hk
        have hplace : (32 * R + (k : ℤ)) / 32 = R := by omega
        have hbit : ((32 * R + (k : ℤ)) % 32).toNat = k := by omega
        rw [r.inLine_cover, hplace, hbit]
        exact .inr (.inr ⟨hR, (hline 0 0).1 k hk⟩)
      by_cases hthree : rightBytes (r.dstX % 32) r.width = 3
      · have hA : r.InLine last (32 * R + (16 : ℕ)) := hin 16 (by omega)
        refine hflipped _ ((bit_foldl_kept ?_ _).symm.trans (hfilled _ _ last (by omega) hA))
        intro j hj m
        rw [(hline _ m).2.2 _ hthree (by omega), if_neg]
        intro hchanged
        by_cases hjlast : j = last
        · subst hjlast
          unfold MaskBits.first at hR hchanged
          rcases hchanged with ⟨hplace, hbit⟩ | hmiddle
          · by_cases hl : (FbMaskBits (r.dstX % 32) r.width).l = 0
            · rw [hl, BitVec.ofNat_eq_ofNat, BitVec.getLsbD_zero] at hbit
              exact absurd hbit (by decide)
            · rw [if_pos hl] at hR
              omega
          · omega
        · have hlt : j < last := by
            have := mem_range.1 hj
            omega
          refine r.lines_apart (by omega) hlt ⟨r.inLine_cover.2 ?_, hA⟩
          exact hchanged.imp_right .inl
      · have htwo := hbytes.resolve_right hthree
        obtain ⟨k, hk, hk', hbit⟩ : ∃ k, 8 ≤ k ∧ k < 16 ∧ xor.getLsbD k = true := by
          by_contra hnone
          refine hbad ⟨hinner, hthree, fun _ k hk hk' => ?_⟩
          rw [← Bool.not_eq_true]
          exact fun hbit => hnone ⟨k, hk, hk', hbit⟩
        have hfill := hfilled 0 _ last (by omega) (hin k (by omega))
        have hmod : ((32 * R + (k : ℤ)) % 32).toNat = k := by omega
        rw [hlast, range_succ, foldl_append, foldl_cons, foldl_nil, (hline _ _).2.1 _ (by omega) (by omega), hmod,
          hbit] at hfill
        exact absurd hfill (by decide)
  · rintro (hheight | hand | ⟨hinner, hright⟩)
    · intro m A
      have hnone : ¬r.Has A := by
        rintro ⟨j, hj, -⟩
        rw [hheight] at hj
        exact absurd hj (by simp)
      refine ⟨fun h => absurd h hnone, fun _ => ?_⟩
      rw [hheight]
      rfl
    · exact filled_of_masked r and xor (fun h => absurd h hand) fun h => absurd h hand
    · exact filled_of_masked r and xor (fun _ => hinner) fun _ => hright

/-- One byte in the middle of a unit is not filled with ones. -/
theorem fbSolid_leaves_byte : ¬Filled ⟨0, 1, 8, 8, 1, by decide, fun h => absurd h (by decide)⟩ 0 FB_ALLONES := by
  intro h
  have hbit := (h 0 8).1 ⟨0, by decide, by decide⟩
  exact absurd hbit (by decide +kernel)

end Xenia.Fb
