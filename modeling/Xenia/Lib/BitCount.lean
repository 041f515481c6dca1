import Xenia.Lib.SubmaskCounter

/-!
# The numbers with a given count of bits

Of the numbers below `2 ^ n` with `p` bits, the least has its bits at the bottom and the greatest at the top (`le_of_bitCount`,
`bitCount_le_top`). The second least and the second greatest have one bit apart: `second_le` and `le_second`.
-/

namespace Xenia.Lib

variable {n m p s : ℕ}

theorem bitCount_even (n m : ℕ) : bitCount (n + 1) (2 * m) = bitCount n m := by
  have hdiv : 2 * m / 2 = m := by omega
  rw [bitCount, hdiv]
  omega

theorem bitCount_odd (n m : ℕ) : bitCount (n + 1) (2 * m + 1) = bitCount n m + 1 := by
  have hdiv : (2 * m + 1) / 2 = m := by omega
  rw [bitCount, hdiv]
  omega

theorem bitCount_zero (n : ℕ) : bitCount n 0 = 0 := by
  induction n with
  | zero => rfl
  | succ n ih => rw [bitCount, ih]

theorem bitCount_le (n m : ℕ) : bitCount n m ≤ n := by
  induction n generalizing m with
  | zero => exact le_refl 0
  | succ n ih =>
    have hrest := ih (m / 2)
    rw [bitCount]
    omega

theorem bitCount_adjacent (h : s + p ≤ n) : bitCount n (adjacent p s) = p := by
  induction s generalizing n with
  | zero =>
    induction p generalizing n with
    | zero => exact bitCount_zero n
    | succ p ih =>
      obtain ⟨n, rfl⟩ := Nat.exists_eq_succ_of_ne_zero (show n ≠ 0 by omega)
      rw [adjacent_zero_succ, bitCount_odd, ih (by omega)]
  | succ s ih =>
    obtain ⟨n, rfl⟩ := Nat.exists_eq_succ_of_ne_zero (show n ≠ 0 by omega)
    rw [adjacent_succ, bitCount_even, ih (by omega)]

/-- A wider word has no more bits of a number. -/
theorem bitCount_wider {n' : ℕ} (hm : m < 2 ^ n) (h : n ≤ n') : bitCount n' m = bitCount n m := by
  induction n generalizing m n' with
  | zero =>
    obtain rfl : m = 0 := by
      omega
    exact bitCount_zero n'
  | succ n ih =>
    obtain ⟨n', rfl⟩ := Nat.exists_eq_succ_of_ne_zero (show n' ≠ 0 by omega)
    rw [bitCount, bitCount, ih (by omega) (by omega)]

theorem eq_zero_of_bitCount (hm : m < 2 ^ n) (h : bitCount n m = 0) : m = 0 := by
  induction n generalizing m with
  | zero =>
    omega
  | succ n ih =>
    rw [bitCount] at h
    have hhalf := ih (m := m / 2) (by omega) (by omega)
    omega

/-- A single bit stands beside no other. -/
theorem adjacent_of_one (hm : m < 2 ^ n) (h : bitCount n m = 1) : ∃ s, m = adjacent 1 s := by
  induction n generalizing m with
  | zero => exact nomatch h
  | succ n ih =>
    have hhalf : m / 2 < 2 ^ n := by omega
    rcases even_or_odd m with ⟨heq, -⟩ | ⟨heq, -⟩
    · rw [heq, bitCount_even] at h
      obtain ⟨s, hs⟩ := ih hhalf h
      exact ⟨s + 1, by rw [adjacent_succ, ← hs]; exact heq⟩
    · rw [heq, bitCount_odd] at h
      have hzero := eq_zero_of_bitCount hhalf (Nat.succ.inj h)
      exact ⟨0, by rw [heq, hzero]; rfl⟩

/-! ## The least and the greatest -/

/-- The bits at the bottom. -/
theorem le_of_bitCount (hcount : bitCount n m = p) : adjacent p 0 ≤ m := by
  induction n generalizing m p with
  | zero =>
    subst hcount
    exact Nat.zero_le m
  | succ n ih =>
    rcases even_or_odd m with ⟨heq, -⟩ | ⟨heq, -⟩
    · rw [heq, bitCount_even] at hcount
      have hhalf := ih hcount
      omega
    · rw [heq, bitCount_odd] at hcount
      obtain ⟨p, rfl⟩ := Nat.exists_eq_succ_of_ne_zero (show p ≠ 0 by omega)
      have hhalf := ih (m := m / 2) (p := p) (by omega)
      rw [adjacent_zero_succ]
      omega

/-- The bits at the top. -/
theorem bitCount_le_top (hm : m < 2 ^ n) (hcount : bitCount n m = p) : m ≤ adjacent p (n - p) := by
  induction n generalizing m p with
  | zero =>
    omega
  | succ n ih =>
    have hhalf : m / 2 < 2 ^ n := by omega
    rcases even_or_odd m with ⟨heq, -⟩ | ⟨heq, -⟩
    · rw [heq, bitCount_even] at hcount
      have hp := bitCount_le n (m / 2)
      have hle := ih hhalf hcount
      rw [show n + 1 - p = n - p + 1 by omega, adjacent_succ]
      omega
    · rw [heq, bitCount_odd] at hcount
      obtain ⟨p, rfl⟩ := Nat.exists_eq_succ_of_ne_zero (show p ≠ 0 by omega)
      have hle := ih (m := m / 2) (p := p) hhalf (by omega)
      have hold := adjacent_add p (n - p)
      have hnew := adjacent_add (p + 1) (n - p)
      have hpos := Nat.two_pow_pos (n - p)
      rw [← add_assoc] at hnew
      rw [Nat.succ_eq_add_one, show n + 1 - (p + 1) = n - p by omega]
      omega

/-- One bit above a gap of one. -/
theorem second_le (hcount : bitCount n m = p + 1) (hne : m ≠ adjacent (p + 1) 0) : 3 * 2 ^ p - 1 ≤ m := by
  induction n generalizing m p with
  | zero => exact nomatch hcount
  | succ n ih =>
    rcases even_or_odd m with ⟨heq, -⟩ | ⟨heq, -⟩
    · rw [heq, bitCount_even] at hcount
      have hhalf := le_of_bitCount hcount
      have hsum := adjacent_add (p + 1) 0
      rw [zero_add] at hsum
      omega
    · rw [heq, bitCount_odd] at hcount
      cases p with
      | zero =>
        -- a single bit at the bottom is the least
        by_cases hzero : m / 2 = 0
        · rw [heq, hzero] at hne
          exact absurd rfl hne
        · rw [pow_zero]
          omega
      | succ p =>
        have hhalf := ih (m := m / 2) (p := p) (by omega) (by
          intro h
          apply hne
          rw [adjacent_zero_succ, ← h]
          exact heq)
        omega

/-- One bit below a gap of one. -/
theorem le_second (hm : m < 2 ^ n) (hcount : bitCount n m = p + 1) (hp : p + 1 < n) (hne : m ≠ adjacent (p + 1) (n - (p + 1))) :
    m ≤ adjacent p (n - p) + 2 ^ (n - p - 2) := by
  induction n generalizing m p with
  | zero => omega
  | succ n ih =>
    have hhalf : m / 2 < 2 ^ n := by omega
    rcases even_or_odd m with ⟨heq, -⟩ | ⟨heq, -⟩
    · rw [heq, bitCount_even] at hcount
      have hne' : m / 2 ≠ adjacent (p + 1) (n - (p + 1)) := by
        intro h
        apply hne
        rw [show n + 1 - (p + 1) = n - (p + 1) + 1 by omega, adjacent_succ, ← h]
        exact heq
      by_cases hlast : p + 1 < n
      · have hle := ih hhalf hcount hlast hne'
        rw [show n + 1 - p = n - p + 1 by omega, show n - p + 1 - 2 = n - p - 2 + 1 by omega, adjacent_succ]
        omega
      · -- all bits of the half are taken
        have hleast := le_of_bitCount hcount
        have hmost := bitCount_le_top hhalf hcount
        have hn : n = p + 1 := by omega
        rw [hn, Nat.sub_self] at hne' hmost
        exact absurd (le_antisymm hmost hleast) hne'
    · rw [heq, bitCount_odd] at hcount
      have hle := bitCount_le_top (p := p) hhalf (by omega)
      have hpos := Nat.two_pow_pos (n + 1 - p - 2)
      rw [show n + 1 - p = n - p + 1 by omega, adjacent_succ]
      rw [show n + 1 - p = n - p + 1 by omega] at hpos
      omega

end Xenia.Lib
