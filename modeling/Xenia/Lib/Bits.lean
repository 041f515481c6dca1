import Mathlib.Tactic

/-!
# Bit masks

Masks bit by bit: when two masks meet, the union of a list of masks, the bit of a mask, and the mask with given bits.
-/

namespace Xenia.Lib

variable {w : ℕ}

theorem and_ne_zero_iff (x y : BitVec w) :
    x &&& y ≠ 0 ↔ ∃ b, x.getLsbD b = true ∧ y.getLsbD b = true := by
  constructor
  · intro hne
    by_contra hno
    push Not at hno
    refine hne (BitVec.eq_of_getLsbD_eq fun b _ => ?_)
    rw [BitVec.getLsbD_and, BitVec.ofNat_eq_ofNat, BitVec.getLsbD_zero, Bool.and_eq_false_iff]
    by_cases hx : x.getLsbD b = true
    · exact .inr (Bool.eq_false_of_not_eq_true (hno b hx))
    · exact .inl (Bool.eq_false_of_not_eq_true hx)
  · rintro ⟨b, hx, hy⟩ heq
    have := congrArg (BitVec.getLsbD · b) heq
    simp [hx, hy] at this

theorem eq_zero_iff (x : BitVec w) : x = 0 ↔ ∀ b, x.getLsbD b = false := by
  constructor
  · rintro rfl b
    exact BitVec.getLsbD_zero
  · intro h
    refine BitVec.eq_of_getLsbD_eq fun b _ => ?_
    rw [h b, BitVec.ofNat_eq_ofNat, BitVec.getLsbD_zero]

theorem getLsbD_foldl_or {α : Type} (f : α → BitVec w) (l : List α) :
    ∀ (e : BitVec w) (b : ℕ), (l.foldl (fun e x => e ||| f x) e).getLsbD b = true ↔
      e.getLsbD b = true ∨ ∃ x ∈ l, (f x).getLsbD b = true := by
  induction l with
  | nil => simp
  | cons x l ih =>
    intro e b
    rw [List.foldl_cons, ih, BitVec.getLsbD_or, Bool.or_eq_true, or_assoc, List.exists_mem_cons_iff]

/-- The test for one bit. -/
theorem and_twoPow_ne_zero_iff (x : BitVec w) {i : ℕ} (hi : i < w) :
    x &&& BitVec.twoPow w i ≠ 0 ↔ x.getLsbD i = true := by
  rw [and_ne_zero_iff]
  constructor
  · rintro ⟨b, hx, hb⟩
    rw [BitVec.getLsbD_twoPow, Bool.and_eq_true, decide_eq_true_eq, decide_eq_true_eq] at hb
    rwa [hb.2]
  · intro hx
    refine ⟨i, hx, ?_⟩
    rw [BitVec.getLsbD_twoPow, Bool.and_eq_true]
    exact ⟨decide_eq_true hi, decide_eq_true rfl⟩

/-- The word with these bits. -/
def ofBits (w : ℕ) (f : ℕ → Bool) : BitVec w := (List.range w).foldl (fun e k => e ||| if f k then BitVec.twoPow w k else 0) 0

theorem getLsbD_ofBits (f : ℕ → Bool) {k : ℕ} (hk : k < w) : (ofBits w f).getLsbD k = f k := by
  rw [Bool.eq_iff_iff]
  unfold ofBits
  rw [getLsbD_foldl_or]
  constructor
  · rintro (hzero | ⟨j, hj, hbit⟩)
    · exact absurd hzero (by simp)
    · split at hbit
      next hf =>
        rw [BitVec.getLsbD_twoPow, Bool.and_eq_true, decide_eq_true_eq, decide_eq_true_eq] at hbit
        rw [← hbit.2]
        exact hf
      · exact absurd hbit (by simp)
  · intro hf
    refine .inr ⟨k, List.mem_range.2 hk, ?_⟩
    rw [if_pos hf, BitVec.getLsbD_twoPow, decide_eq_true hk, decide_eq_true rfl]
    rfl

end Xenia.Lib
