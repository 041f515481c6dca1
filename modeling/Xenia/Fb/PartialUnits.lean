import Xenia.Fb.TileBits

/-!
# Partial units

The first and the last unit of a line are stored under a mask, or byte by byte where the old bits do not matter and the edges are byte
aligned: `FbMaskBitsBytes` encodes which bytes. The pointer of a byte store is moved by units, and a store of two bytes has the first
of them only.

`left_masked` and `right_masked` say when a store does what the mask does. The bytes between two edges of one unit (`InnerBytes`) are
never stored in their place, and of the bytes before the right edge (`rightBytes`) only the first always is.
-/

namespace Xenia.Fb

open Xenia.Lib Xenia.Lib.Bitmap

def FbByteMaskInvalid : BitVec 32 := 0x10

/-- The masks, and the bytes that are stored instead. -/
structure MaskBitsBytes extends MaskBits where
  lb : BitVec 32
  rb : BitVec 32

/-- The bytes of a unit, encoded: the first of them, and how many there are. -/
def bytes (first count : BitVec 32) : BitVec 32 := first ||| count <<< 2

/-- The byte that an edge is at. -/
def edgeByte (e : ℤ) (copy : Bool) : BitVec 32 := if copy ∧ e % 8 = 0 then BitVec.ofInt 32 (e % 32 / 8) else FbByteMaskInvalid

def FbMaskBitsBytes (x w : ℤ) (copy : Bool) : MaskBitsBytes :=
  let r := FbRightMask (x + w)
  let rb := if r ≠ 0 then edgeByte (x + w) copy else 0
  let l := FbLeftMask x
  if l ≠ 0 then
    let lb := edgeByte x copy
    -- subtract out the portion painted by the left mask
    let n := w - (32 - x % 32)
    if n < 0 then
      if lb ≠ FbByteMaskInvalid then
        if rb = FbByteMaskInvalid then { lb := FbByteMaskInvalid, rb, n := 0, l := l &&& r, r := 0 }
        else if rb ≠ 0 then { lb := bytes lb (rb - lb), rb := 0, n := 0, l := l &&& r, r := 0 }
        else { lb, rb, n := 0, l := l &&& r, r := 0 }
      else { lb, rb, n := 0, l := l &&& r, r := 0 }
    else { lb, rb, n := n / 32, l, r }
  else { lb := 0, rb, n := w / 32, l, r }

/-- A byte of a word. -/
def FbSelectPart (xor : FbBits) (o : ℕ) : BitVec 8 := (xor >>> (o <<< 3)).setWidth 8

/-- A store of `size` bits: `FbPtrOffset` adds the offset to a pointer to units. -/
def FbStorePart (dst : ℤ) (off size : ℕ) (xor : FbBits) (m : Words) : Words :=
  m.store (dst + off) ((m (dst + off) >>> size <<< size) ||| (FbSelectPart xor off).setWidth 32)

def FbDoLeftMaskByteRRop (dst : ℤ) (lb : BitVec 32) (l and xor : FbBits) (m : Words) : Words :=
  if lb = bytes 1 1 then FbStorePart dst 1 8 xor m
  else if lb = bytes 1 2 then FbStorePart dst 2 8 xor (FbStorePart dst 1 8 xor m)
  else if lb = bytes 2 1 then FbStorePart dst 2 8 xor m
  else m.store dst (FbDoMaskRRop (m dst) and xor l)

def FbDoRightMaskByteRRop (dst : ℤ) (rb : BitVec 32) (r and xor : FbBits) (m : Words) : Words :=
  if rb = 1 then FbStorePart dst 0 8 xor m
  else if rb = 2 then FbStorePart dst 0 16 xor m
  else if rb = 3 then FbStorePart dst 2 8 xor (FbStorePart dst 0 16 xor m)
  else m.store dst (FbDoMaskRRop (m dst) and xor r)

/-! ## Which bytes are stored -/

/-- Both edges are in one unit and byte aligned. -/
def InnerBytes (x w : ℤ) : Prop := 0 < x ∧ 0 < w ∧ x + w < 32 ∧ x % 8 = 0 ∧ w % 8 = 0

instance decidableInnerBytes (x w : ℤ) : Decidable (InnerBytes x w) :=
  inferInstanceAs (Decidable (0 < x ∧ 0 < w ∧ x + w < 32 ∧ x % 8 = 0 ∧ w % 8 = 0))

/-- How many bytes there are before a byte aligned right edge in a unit of its own. -/
def rightBytes (x w : ℤ) : ℤ := if (0 < x ∧ x + w < 32) ∨ (x + w) % 8 ≠ 0 then 0 else (x + w) % 32 / 8

variable {x w : ℤ} {copy : Bool}

theorem FbRightMask_ne_zero_iff {e : ℤ} : FbRightMask e ≠ 0 ↔ e % 32 ≠ 0 := by
  constructor
  · intro hne hzero
    refine hne (BitVec.eq_of_getLsbD_eq fun k hk => ?_)
    rw [getLsbD_FbRightMask hk, hzero]
    exact BitVec.getLsbD_zero.symm
  · intro hne hzero
    have hbit := getLsbD_FbRightMask (x := e) (k := 0) (by decide)
    rw [hzero, decide_eq_true (by omega)] at hbit
    exact absurd hbit (by decide)

/-- The masks are the same with and without bytes. -/
theorem FbMaskBitsBytes_masks (x w : ℤ) (copy : Bool) : (FbMaskBitsBytes x w copy).toMaskBits = FbMaskBits x w := by
  unfold FbMaskBitsBytes FbMaskBits
  dsimp only
  split_ifs <;> rfl

/-- The masks of a line in one unit. -/
theorem FbMaskBits_inner (hx : 0 < x) (hw : 0 ≤ w) (hin : x + w < 32) :
    FbMaskBits x w = { l := FbLeftMask x &&& FbRightMask (x + w), n := 0, r := 0 } := by
  unfold FbMaskBits
  rw [if_pos ((FbLeftMask_ne_zero_iff hx.le (by omega)).2 hx.ne'), if_pos (by omega)]

/-- The masks of a line that ends in another unit than it begins in, or at the beginning of one. -/
theorem FbMaskBits_outer (hx : 0 ≤ x) (hx' : x < 32) (hout : ¬(0 < x ∧ x + w < 32)) : (FbMaskBits x w).r = FbRightMask (x + w) := by
  unfold FbMaskBits
  dsimp only
  split
  next hl =>
    have hne := (FbLeftMask_ne_zero_iff hx hx').1 hl
    rw [if_neg (by omega)]
  · rfl

theorem edgeByte_eq_invalid_iff {e : ℤ} : edgeByte e copy = FbByteMaskInvalid ↔ ¬(copy = true ∧ e % 8 = 0) := by
  have hall : ∀ i : ℤ, 0 ≤ i → i < 4 → BitVec.ofInt 32 i ≠ FbByteMaskInvalid := by
    intro i hi hi'
    interval_cases i <;> decide
  unfold edgeByte
  split
  next h => exact iff_of_false (hall _ (by omega) (by omega)) (not_not_intro h)
  next h => exact iff_of_true rfl h

/-- The encoded bytes of the left store. -/
theorem lb_eq (hx : 0 ≤ x) (hx' : x < 32) (hw : 0 ≤ w) (hl : (FbMaskBits x w).l ≠ 0) :
    (FbMaskBitsBytes x w copy).lb =
      if copy ∧ InnerBytes x w then bytes (edgeByte x copy) (edgeByte (x + w) copy - edgeByte x copy)
      else if x + w < 32 then FbByteMaskInvalid else edgeByte x copy := by
  have hpos : x ≠ 0 := by
    rintro rfl
    exact hl (by simp [FbMaskBits, FbLeftMask])
  unfold FbMaskBitsBytes
  rw [if_pos ((FbLeftMask_ne_zero_iff hx hx').2 hpos), Int.emod_eq_of_lt hx hx']
  by_cases hin : x + w < 32
  · have hwpos : w ≠ 0 := by
      rintro rfl
      rw [FbMaskBits_inner (by omega) hw (by omega)] at hl
      refine hl (BitVec.eq_of_getLsbD_eq fun k hk => ?_)
      rw [BitVec.getLsbD_and, getLsbD_FbLeftMask hx hx' hk, getLsbD_FbRightMask hk, BitVec.ofNat_eq_ofNat, BitVec.getLsbD_zero]
      by_cases hle : x ≤ k
      · rw [decide_eq_false (by omega : ¬((k : ℤ) < (x + 0) % 32)), Bool.and_false]
      · rw [decide_eq_false hle, Bool.and_false, Bool.false_and]
    rw [if_pos (by omega : w - (32 - x) < 0), if_pos hin, if_pos (FbRightMask_ne_zero_iff.2 (by omega))]
    by_cases hleft : edgeByte x copy = FbByteMaskInvalid
    · have hno : ¬(copy = true ∧ InnerBytes x w) := fun h => edgeByte_eq_invalid_iff.1 hleft ⟨h.1, h.2.2.2.2.1⟩
      rw [if_neg (not_not_intro hleft), if_neg hno]
      exact hleft
    · obtain ⟨hcopy, hxa⟩ := not_not.1 (mt edgeByte_eq_invalid_iff.2 hleft)
      rw [if_pos hleft]
      by_cases hright : edgeByte (x + w) copy = FbByteMaskInvalid
      · have hno : ¬(copy = true ∧ InnerBytes x w) := by
          rintro ⟨-, -, -, -, -, hwa⟩
          exact edgeByte_eq_invalid_iff.1 hright ⟨hcopy, by omega⟩
        rw [if_pos hright, if_neg hno]
      · have hea := not_not.1 (mt edgeByte_eq_invalid_iff.2 hright)
        have hne : edgeByte (x + w) copy ≠ 0 := by
          have hall : ∀ i : ℤ, 0 < i → i < 4 → BitVec.ofInt 32 i ≠ 0 := by
            intro i hi hi'
            interval_cases i <;> decide
          unfold edgeByte
          rw [if_pos hea]
          exact hall _ (by omega) (by omega)
        have hinner : copy = true ∧ InnerBytes x w := ⟨hcopy, by omega, by omega, hin, hxa, by omega⟩
        rw [if_neg hright, if_pos hne, if_pos hinner]
  · have hno : ¬(copy = true ∧ InnerBytes x w) := fun h => hin h.2.2.2.1
    rw [if_neg (by omega : ¬(w - (32 - x) < 0)), if_neg hno, if_neg hin]

/-- **The left store is that of the mask** but for inner bytes. -/
theorem left_masked (hx : 0 ≤ x) (hx' : x < 32) (hw : 0 ≤ w) (hl : (FbMaskBits x w).l ≠ 0) (h : ¬(copy ∧ InnerBytes x w))
    (dst : ℤ) (l and xor : FbBits) (m : Words) :
    FbDoLeftMaskByteRRop dst (FbMaskBitsBytes x w copy).lb l and xor m = m.store dst (FbDoMaskRRop (m dst) and xor l) := by
  have hlow : ∀ i : ℤ, 0 ≤ i → i < 4 → BitVec.ofInt 32 i ∉ [bytes 1 1, bytes 1 2, bytes 2 1] := by
    intro i hi hi'
    interval_cases i <;> decide
  have hlb : (FbMaskBitsBytes x w copy).lb ∉ [bytes 1 1, bytes 1 2, bytes 2 1] := by
    rw [lb_eq hx hx' hw hl]
    unfold edgeByte
    split_ifs
    · decide
    · exact hlow _ (by omega) (by omega)
    · decide
  rw [List.mem_cons, List.mem_cons, List.mem_singleton, not_or, not_or] at hlb
  unfold FbDoLeftMaskByteRRop
  rw [if_neg hlb.1, if_neg hlb.2.1, if_neg hlb.2.2]

/-- The bytes of the right edge. -/
theorem rb_eq (hx : 0 ≤ x) (hx' : x < 32) (hw : 0 ≤ w) (hr : (FbMaskBits x w).r ≠ 0) :
    (FbMaskBitsBytes x w copy).rb = if copy ∧ rightBytes x w ≠ 0 then BitVec.ofInt 32 (rightBytes x w) else FbByteMaskInvalid := by
  have hout : ¬(0 < x ∧ x + w < 32) := by
    rintro ⟨hpos, hin⟩
    rw [FbMaskBits_inner hpos hw hin] at hr
    exact hr rfl
  rw [FbMaskBits_outer hx hx' hout] at hr
  have he := FbRightMask_ne_zero_iff.1 hr
  have hrb : (FbMaskBitsBytes x w copy).rb = edgeByte (x + w) copy := by
    unfold FbMaskBitsBytes
    dsimp only
    split
    next hl =>
      have hne := (FbLeftMask_ne_zero_iff hx hx').1 hl
      rw [if_neg (by omega)]
    · rfl
  rw [hrb]
  unfold rightBytes edgeByte
  by_cases haligned : (x + w) % 8 = 0
  · rw [if_neg (by omega : ¬((0 < x ∧ x + w < 32) ∨ (x + w) % 8 ≠ 0))]
    have hne : (x + w) % 32 / 8 ≠ 0 := by omega
    simp [haligned, hne]
  · rw [if_neg fun h => haligned h.2, if_pos (Or.inr haligned), if_neg fun h => h.2 rfl]

/-! ## What the bytes are -/

/-- A store of bytes has the selected byte, zeros after it as far as it goes, and leaves the rest of the unit. -/
theorem bit_storePart (dst : ℤ) (off size : ℕ) (xor : FbBits) (m : Words) (A : ℤ) (hsize : 8 ≤ size) :
    bit (FbStorePart dst off size xor m) A =
      if A / 32 = dst + off ∧ A % 32 < size then decide (A % 32 < 8) && xor.getLsbD (8 * off + (A % 32).toNat) else bit m A := by
  have hA : (A % 32).toNat < 32 := by omega
  unfold FbStorePart FbSelectPart
  rw [bit_store]
  by_cases hdst : A / 32 = dst + off
  · rw [if_pos hdst, BitVec.getLsbD_or, BitVec.getLsbD_shiftLeft, BitVec.getLsbD_ushiftRight, BitVec.getLsbD_setWidth,
      BitVec.getLsbD_setWidth, BitVec.getLsbD_ushiftRight, Nat.shiftLeft_eq, ← hdst, decide_eq_true hA, Bool.true_and, Bool.true_and]
    by_cases hlow : A % 32 < size
    · have hplace : off * 2 ^ 3 + (A % 32).toNat = 8 * off + (A % 32).toNat := by omega
      have hiff : decide ((A % 32).toNat < 8) = decide (A % 32 < 8) := decide_eq_decide.2 (by omega)
      rw [if_pos ⟨rfl, hlow⟩, decide_eq_true (by omega : (A % 32).toNat < size), Bool.not_true, Bool.false_and, Bool.false_or, hplace,
        hiff]
    · have hback : size + ((A % 32).toNat - size) = (A % 32).toNat := by omega
      rw [if_neg (fun h => hlow h.2), decide_eq_false (by omega : ¬(A % 32).toNat < size),
        decide_eq_false (by omega : ¬(A % 32).toNat < 8), hback, Bool.not_false, Bool.false_and, Bool.or_false]
      rfl
  · rw [if_neg hdst, if_neg fun h => hdst h.1]

/-- The second byte of a word has no bits. -/
def SecondByteZero (xor : FbBits) : Prop := ∀ k, 8 ≤ k → k < 16 → xor.getLsbD k = false

instance decidableSecondByteZero (xor : FbBits) : Decidable (SecondByteZero xor) :=
  decidable_of_iff (∀ k < 16, 8 ≤ k → xor.getLsbD k = false) ⟨fun h k hk hk' => h k hk' hk, fun h k hk hk' => h k hk' hk⟩

/-- **The right store is that of the mask** for one byte, and for two when the second is zero. -/
theorem right_masked {and xor : FbBits} (hx : 0 ≤ x) (hx' : x < 32) (hw : 0 ≤ w) (hr : (FbMaskBits x w).r ≠ 0)
    (hcopy : copy = true → and = 0)
    (h : copy = true → rightBytes x w ≠ 3 ∧ (rightBytes x w = 2 → SecondByteZero xor)) (dst : ℤ) (m : Words) :
    FbDoRightMaskByteRRop dst (FbMaskBitsBytes x w copy).rb (FbMaskBits x w).r and xor m =
      m.store dst (FbDoMaskRRop (m dst) and xor (FbMaskBits x w).r) := by
  rw [rb_eq hx hx' hw hr]
  by_cases hbytes : copy = true ∧ rightBytes x w ≠ 0
  · rw [if_pos hbytes, hcopy hbytes.1]
    obtain ⟨hthree, htwo⟩ := h hbytes.1
    have hout : ¬(0 < x ∧ x + w < 32) := by
      intro hin
      exact hbytes.2 (if_pos (.inl hin))
    have hright : rightBytes x w = (x + w) % 32 / 8 ∧ (x + w) % 8 = 0 := by
      unfold rightBytes at ⊢
      by_cases haligned : (x + w) % 8 = 0
      · rw [if_neg (by omega : ¬((0 < x ∧ x + w < 32) ∨ (x + w) % 8 ≠ 0))]
        exact ⟨rfl, haligned⟩
      · exact absurd (if_pos (Or.inr haligned)) hbytes.2
    have hmask : ∀ A : ℤ, bit (m.store dst (FbDoMaskRRop (m dst) 0 xor (FbMaskBits x w).r)) A =
        if A / 32 = dst ∧ A % 32 < 8 * rightBytes x w then xor.getLsbD (A % 32).toNat else bit m A := by
      intro A
      rw [bit_store]
      by_cases hdst : A / 32 = dst
      · rw [if_pos hdst, getLsbD_doMaskRRop _ _ _ _ (by omega), FbMaskBits_outer hx hx' hout, getLsbD_FbRightMask (by omega), ← hdst]
        by_cases hlow : A % 32 < 8 * rightBytes x w
        · have hmasked : ((A % 32).toNat : ℤ) < (x + w) % 32 := by omega
          rw [decide_eq_true hmasked, if_pos rfl, if_pos (by omega), BitVec.ofNat_eq_ofNat, BitVec.getLsbD_zero, Bool.and_false,
            Bool.false_xor]
        · have hmasked : ¬((A % 32).toNat : ℤ) < (x + w) % 32 := by omega
          rw [decide_eq_false hmasked, if_neg (by decide), if_neg (by omega)]
          rfl
      · rw [if_neg hdst, if_neg fun h => hdst h.1]
    apply ext
    intro A
    rw [hmask]
    unfold FbDoRightMaskByteRRop
    obtain hone | htwo' : rightBytes x w = 1 ∨ rightBytes x w = 2 := by omega
    · rw [hone, if_pos (by decide), bit_storePart _ _ _ _ _ _ (le_refl 8), Int.natCast_zero, Int.add_zero, Nat.zero_add]
      by_cases hin : A / 32 = dst ∧ A % 32 < 8
      · rw [if_pos (by exact hin), if_pos (by omega), decide_eq_true hin.2, Bool.true_and]
      · rw [if_neg (by exact hin), if_neg (by omega)]
    · rw [htwo', if_neg (by decide), if_pos (by decide), bit_storePart _ _ _ _ _ _ (by decide), Int.natCast_zero, Int.add_zero,
        Nat.zero_add]
      by_cases hin : A / 32 = dst ∧ A % 32 < 16
      · rw [if_pos (by exact hin), if_pos (by omega)]
        by_cases hlow : A % 32 < 8
        · rw [decide_eq_true hlow, Bool.true_and]
        · rw [htwo htwo' _ (by omega) (by omega), Bool.and_false]
      · rw [if_neg (by exact hin), if_neg (by omega)]
  · rw [if_neg hbytes]
    rfl

end Xenia.Fb
