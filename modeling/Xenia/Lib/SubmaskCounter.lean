import Xenia.Lib.Outcome
import Xenia.Lib.Submasks

/-!
# Counting through the submasks of a mask

A counter goes from a submask to the next one by an addition: of the lowest bit of the mask (`low`), and then again and again of the bits
that are not in the mask, until there are none (`carry`). `Counts next l` says that the list is what such a counter goes through, up to the
mask itself: `counts_carry`. Where the bits of the mask are adjacent, the addition alone does it: `counts_run`.
-/

namespace Xenia.Lib

open List

/-- The lowest bit of a mask, in words of `w` bits. -/
def low (w m : ℕ) : ℕ := m &&& (2 ^ w - m)

/-- The bits outside of the mask are added until there are none. -/
def carry (m : ℕ) : ℕ → ℕ → Outcome ℕ
  | 0, _ => .error .hang
  | fuel + 1, c => if Nat.ldiff c m = 0 then .ok c else carry m fuel (c + Nat.ldiff c m)

/-- The list is what a counter goes through, up to `m`. -/
def Counts (next : ℕ → Outcome ℕ) (m : ℕ) : List ℕ → Prop
  | [] => False
  | [a] => a = m
  | a :: b :: l => a ≠ m ∧ next a = .ok b ∧ Counts next m (b :: l)

variable {n m t a b w s p fuel c r : ℕ}

/-! ## The list has an end -/

theorem getLast_pairs : ∀ (l : List ℕ) (a : ℕ), l.getLast? = some a →
    (l.flatMap fun t => [2 * t, 2 * t + 1]).getLast? = some (2 * a + 1)
  | [], _, h => by exact nomatch h
  | [x], a, h => by
    obtain rfl : x = a := Option.some.inj h
    rfl
  | x :: y :: l, a, h => by
    have ih := getLast_pairs (y :: l) a (by rwa [getLast?_cons_cons] at h)
    rw [flatMap_cons, getLast?_append, ih]
    rfl

/-- The last submask is the mask. -/
theorem submasks_last (hm : m < 2 ^ n) : (submasks n m).getLast? = some m := by
  induction n generalizing m with
  | zero =>
    obtain rfl : m = 0 := by
      omega
    rfl
  | succ n ih =>
    have hhalf := ih (m := m / 2) (by omega)
    rcases even_or_odd m with ⟨heq, -⟩ | ⟨heq, -⟩
    · rw [heq, submasks_even, getLast?_map, hhalf]
      rfl
    · rw [heq, submasks_odd]
      exact getLast_pairs _ _ hhalf

/-- A list in order whose neighbours follow each other is what the counter goes through. -/
theorem counts_of_chain {next : ℕ → Outcome ℕ} : ∀ {l : List ℕ}, l.IsChain (fun a b => next a = .ok b) → l.Pairwise (· < ·) →
    l.getLast? = some m → Counts next m l
  | [], _, _, h => by exact nomatch h
  | [_], _, _, h => Option.some.inj h
  | a :: b :: l, hchain, hsorted, hlast => by
    rw [isChain_cons_cons] at hchain
    rw [pairwise_cons] at hsorted
    rw [getLast?_cons_cons] at hlast
    refine ⟨?_, hchain.1, counts_of_chain hchain.2 hsorted.2 hlast⟩
    have hless := hsorted.1 m (mem_of_getLast? hlast)
    exact ne_of_lt hless

/-- Two numbers for each of the old list. -/
theorem isChain_pairs {R R' : ℕ → ℕ → Prop} {l : List ℕ} (h : l.IsChain R) (hin : ∀ t ∈ l, R' (2 * t) (2 * t + 1))
    (hout : ∀ t ∈ l, ∀ t' ∈ l, R t t' → R' (2 * t + 1) (2 * t')) : (l.flatMap fun t => [2 * t, 2 * t + 1]).IsChain R' := by
  induction l with
  | nil => exact .nil
  | cons x l ih =>
    have hrest : (l.flatMap fun t => [2 * t, 2 * t + 1]).IsChain R' := by
      apply ih h.tail
      · exact fun t ht => hin t (mem_cons_of_mem _ ht)
      · exact fun t ht t' ht' => hout t (mem_cons_of_mem _ ht) t' (mem_cons_of_mem _ ht')
    rw [flatMap_cons]
    show List.IsChain R' (2 * x :: (2 * x + 1) :: _)
    rw [isChain_cons_cons]
    refine ⟨hin x mem_cons_self, ?_⟩
    cases l with
    | nil => exact .singleton _
    | cons y l =>
      rw [isChain_cons_cons] at h
      show List.IsChain R' ((2 * x + 1) :: 2 * y :: _)
      rw [isChain_cons_cons]
      exact ⟨hout x mem_cons_self y (mem_cons_of_mem _ mem_cons_self) h.1, hrest⟩

/-! ## The carry -/

theorem ldiff_double_even (c m : ℕ) : Nat.ldiff (2 * c) (2 * m) = 2 * Nat.ldiff c m := by
  apply Nat.eq_of_testBit_eq
  intro i
  rw [Nat.testBit_ldiff]
  cases i with
  | zero => simp only [testBit_double_zero, Bool.false_and]
  | succ i => simp only [testBit_double, Nat.testBit_ldiff]

theorem ldiff_double_odd (c m : ℕ) : Nat.ldiff (2 * c) (2 * m + 1) = 2 * Nat.ldiff c m := by
  apply Nat.eq_of_testBit_eq
  intro i
  rw [Nat.testBit_ldiff]
  cases i with
  | zero => simp only [testBit_double_zero, Bool.false_and]
  | succ i => simp only [testBit_double, testBit_double_succ, Nat.testBit_ldiff]

/-- A submask has no bits outside. -/
theorem ldiff_eq_zero (h : Submask c m) : Nat.ldiff c m = 0 := by
  apply Nat.eq_of_testBit_eq
  intro i
  rw [Nat.testBit_ldiff, Nat.zero_testBit]
  cases hc : c.testBit i with
  | false => rfl
  | true =>
    rw [h i hc]
    rfl

/-- The lowest place is outside of an even mask. -/
theorem ldiff_one (h : Submask t m) : Nat.ldiff (2 * t + 1) (2 * m) = 1 := by
  apply Nat.eq_of_testBit_eq
  intro i
  rw [Nat.testBit_ldiff]
  cases i with
  | zero =>
    rw [testBit_double_succ_zero, testBit_double_zero]
    rfl
  | succ i =>
    have hnone : (Nat.ldiff t m).testBit i = false := by rw [ldiff_eq_zero h, Nat.zero_testBit]
    rw [Nat.testBit_ldiff] at hnone
    rw [testBit_double_succ, testBit_double, hnone, Nat.testBit_succ]
    exact (Nat.zero_testBit i).symm

theorem carry_submask (h : Submask c m) (hfuel : 0 < fuel) : carry m fuel c = .ok c := by
  obtain ⟨fuel, rfl⟩ := Nat.exists_eq_succ_of_ne_zero (Nat.ne_of_gt hfuel)
  rw [carry, if_pos (ldiff_eq_zero h)]

theorem carry_even (h : carry m fuel c = .ok r) : carry (2 * m) fuel (2 * c) = .ok (2 * r) := by
  induction fuel generalizing c with
  | zero => exact nomatch h
  | succ fuel ih =>
    rw [carry] at h ⊢
    rw [ldiff_double_even]
    split at h
    · rename_i hzero
      rw [if_pos (by omega), Except.ok.inj h]
    · rename_i hsome
      rw [if_neg (by omega), ← Nat.mul_add]
      exact ih h

theorem carry_odd (h : carry m fuel c = .ok r) : carry (2 * m + 1) fuel (2 * c) = .ok (2 * r) := by
  induction fuel generalizing c with
  | zero => exact nomatch h
  | succ fuel ih =>
    rw [carry] at h ⊢
    rw [ldiff_double_odd]
    split at h
    · rename_i hzero
      rw [if_pos (by omega), Except.ok.inj h]
    · rename_i hsome
      rw [if_neg (by omega), ← Nat.mul_add]
      exact ih h

theorem low_even (w m : ℕ) : low (w + 1) (2 * m) = 2 * low w m := by
  have hsub : 2 ^ (w + 1) - 2 * m = 2 * (2 ^ w - m) := by
    omega
  rw [low, low, hsub]
  apply Nat.eq_of_testBit_eq
  intro i
  rw [Nat.testBit_and]
  cases i with
  | zero => simp only [testBit_double_zero, Bool.false_and]
  | succ i => simp only [testBit_double, Nat.testBit_and]

theorem low_odd (hm : m < 2 ^ w) : low (w + 1) (2 * m + 1) = 1 := by
  have hsub : 2 ^ (w + 1) - (2 * m + 1) = 2 * (2 ^ w - (m + 1)) + 1 := by
    omega
  rw [low, hsub]
  apply Nat.eq_of_testBit_eq
  intro i
  rw [Nat.testBit_and]
  cases i with
  | zero => simp only [testBit_double_succ_zero]; rfl
  | succ i =>
    rw [testBit_double_succ, testBit_double_succ, Nat.testBit_two_pow_sub_succ hm, Nat.testBit_succ]
    cases m.testBit i
    · exact (Nat.zero_testBit i).symm
    · rw [Bool.not_true, Bool.and_false]
      exact (Nat.zero_testBit i).symm

/-- One place more than a submask, or its lowest bit more: both carry to the next submask. -/
def Carries (n m a b : ℕ) : Prop := ∀ fuel, n ≤ fuel → carry m fuel (a + 1) = .ok b ∧ ∀ w, n ≤ w → carry m fuel (a + low w m) = .ok b

theorem submasks_carries (hm : m < 2 ^ n) : (submasks n m).IsChain (Carries n m) := by
  induction n generalizing m with
  | zero => exact .singleton _
  | succ n ih =>
    have hhalf : m / 2 < 2 ^ n := by omega
    have hsub : ∀ t ∈ submasks n (m / 2), Submask t (m / 2) := fun t ht => (mem_submasks hhalf).1 ht
    rcases even_or_odd m with ⟨heq, -⟩ | ⟨heq, -⟩
    · rw [heq, submasks_even]
      have hchain : (submasks n (m / 2)).IsChain fun a b => Submask a (m / 2) ∧ Carries n (m / 2) a b := by
        apply List.IsChain.imp_of_mem_imp (fun a b ha _ hab => ⟨hsub a ha, hab⟩) (ih hhalf)
      apply isChain_map_of_isChain (2 * ·) _ hchain
      rintro a b ⟨ha, hab⟩ fuel hfuel
      obtain ⟨fuel, rfl⟩ := Nat.exists_eq_succ_of_ne_zero (show fuel ≠ 0 by omega)
      constructor
      · -- the place below the mask carries once
        rw [carry, ldiff_one ha]
        exact carry_even (hab fuel (by omega)).1
      · intro w hw
        obtain ⟨w, rfl⟩ := Nat.exists_eq_succ_of_ne_zero (show w ≠ 0 by omega)
        rw [low_even, ← mul_add]
        exact carry_even ((hab (fuel + 1) (by omega)).2 w (by omega))
    · rw [heq, submasks_odd]
      have hlow : ∀ w, n + 1 ≤ w → low w (2 * (m / 2) + 1) = 1 := by
        intro w hw
        obtain ⟨w, rfl⟩ := Nat.exists_eq_succ_of_ne_zero (show w ≠ 0 by omega)
        exact low_odd (Nat.lt_of_lt_of_le hhalf (Nat.pow_le_pow_right Nat.two_pos (by omega)))
      apply isChain_pairs (ih hhalf)
      · intro t ht fuel hfuel
        have hin : carry (2 * (m / 2) + 1) fuel (2 * t + 1) = .ok (2 * t + 1) := by
          apply carry_submask _ (by omega)
          rw [submask_odd, show (2 * t + 1) / 2 = t by omega]
          exact hsub t ht
        exact ⟨hin, fun w hw => by rw [hlow w hw, hin]⟩
      · intro t _ t' _ htt' fuel hfuel
        have hout : carry (2 * (m / 2) + 1) fuel (2 * t + 1 + 1) = .ok (2 * t') := by
          exact carry_odd (htt' fuel (by omega)).1
        exact ⟨hout, fun w hw => by rw [hlow w hw, hout]⟩

/-- **A counter with carry** goes through the submasks. -/
theorem counts_carry (hm : m < 2 ^ n) (hfuel : n ≤ fuel) (hw : n ≤ w) :
    Counts (fun a => carry m fuel (a + low w m)) m (submasks n m) := by
  apply counts_of_chain _ (submasks_sorted n m) (submasks_last hm)
  exact (submasks_carries hm).imp fun a b h => (h fuel hfuel).2 w hw

/-! ## Adjacent bits -/

/-- The mask of `p` adjacent bits, from place `s` on. -/
def adjacent (p s : ℕ) : ℕ := (2 ^ p - 1) * 2 ^ s

theorem adjacent_succ (p s : ℕ) : adjacent p (s + 1) = 2 * adjacent p s := by
  rw [adjacent, adjacent, pow_succ, ← Nat.mul_assoc, Nat.mul_comm]

theorem adjacent_zero_succ (p : ℕ) : adjacent (p + 1) 0 = 2 * adjacent p 0 + 1 := by
  have hpos := Nat.two_pow_pos p
  rw [adjacent, adjacent, pow_zero]
  omega

/-- With the power written as a sum. -/
theorem adjacent_add (p s : ℕ) : adjacent p s + 2 ^ s = 2 ^ (s + p) := by
  have hpos := Nat.two_pow_pos p
  rw [adjacent, ← Nat.succ_mul, Nat.pow_add, Nat.mul_comm (2 ^ s)]
  congr 1
  omega

theorem submasks_zero (n : ℕ) : submasks n 0 = [0] := by
  induction n with
  | zero => rfl
  | succ n ih => rw [submasks, ih]; rfl

theorem submasks_adjacent (h : s + p ≤ n) : (submasks n (adjacent p s)).IsChain fun a b => b = a + 2 ^ s := by
  induction s generalizing n with
  | zero =>
    induction p generalizing n with
    | zero =>
      have hzero : adjacent 0 0 = 0 := rfl
      rw [hzero, submasks_zero]
      exact .singleton _
    | succ p ih =>
      obtain ⟨n, rfl⟩ := Nat.exists_eq_succ_of_ne_zero (show n ≠ 0 by omega)
      rw [adjacent_zero_succ, submasks_odd]
      apply isChain_pairs (ih (n := n) (by omega))
      · intro t _
        rfl
      · intro t _ t' _ htt'
        omega
  | succ s ih =>
    obtain ⟨n, rfl⟩ := Nat.exists_eq_succ_of_ne_zero (show n ≠ 0 by omega)
    rw [adjacent_succ, submasks_even]
    apply isChain_map_of_isChain (2 * ·) _ (ih (n := n) (by omega))
    rintro a b rfl
    omega

theorem adjacent_lt (h : s + p ≤ n) : adjacent p s < 2 ^ n := by
  have hsum := adjacent_add p s
  have hpos := Nat.two_pow_pos s
  have hle : 2 ^ (s + p) ≤ 2 ^ n := Nat.pow_le_pow_right Nat.two_pos h
  omega

/-- **A counter without carry** goes through the submasks of adjacent bits. -/
theorem counts_adjacent (h : s + p ≤ n) : Counts (fun a => .ok (a + 2 ^ s)) (adjacent p s) (submasks n (adjacent p s)) := by
  apply counts_of_chain _ (submasks_sorted n _) (submasks_last (adjacent_lt h))
  exact (submasks_adjacent h).imp fun a b h => by rw [h]

/-- The numbers without a bit in the mask. -/
theorem and_adjacent_eq_zero (x p s : ℕ) : x &&& adjacent p s = 0 ↔ x % 2 ^ (s + p) < 2 ^ s := by
  have hpos := Nat.two_pow_pos s
  have hand : x &&& adjacent p s = 2 ^ s * (x / 2 ^ s % 2 ^ p) := by
    apply Nat.eq_of_testBit_eq
    intro i
    rw [Nat.testBit_and, adjacent, Nat.mul_comm (2 ^ p - 1), Nat.testBit_two_pow_mul, Nat.testBit_two_pow_mul,
      Nat.testBit_two_pow_sub_one, Nat.testBit_mod_two_pow, Nat.testBit_div_two_pow]
    by_cases hi : s ≤ i
    · rw [Nat.sub_add_cancel hi, Bool.and_comm, Bool.and_assoc]
    · simp only [hi, decide_false, Bool.false_and, Bool.and_false]
  rw [hand, Nat.pow_add, Nat.mod_mul, Nat.mul_eq_zero]
  constructor
  · rintro (h | h)
    · omega
    · rw [h, Nat.mul_zero]
      exact Nat.mod_lt x hpos
  · intro h
    refine .inr (Nat.eq_zero_of_not_pos fun hq => ?_)
    have hmul : 2 ^ s * 1 ≤ 2 ^ s * (x / 2 ^ s % 2 ^ p) := Nat.mul_le_mul_left _ hq
    omega

end Xenia.Lib
