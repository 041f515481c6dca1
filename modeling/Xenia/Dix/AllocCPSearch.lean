import Xenia.Dix.AllocCPScan

/-!
# What the two searches find

Where `entries` is what is left of the channel beside the mask, a scan finds the first groups of that mask (`scanRuns_spec`,
`scanBits_spec`). So the shifted masks are tried up to the first one with enough groups (`shifted_upto`), and the other masks too
(`sparse_spec`). A mask above the number of entries makes `entries` a very large number, and the scan faults (`scanRuns_faults`).
-/

namespace Xenia.AllocCP

open Xenia.Lib List

variable {c : Channel} {count p s mask x : ℕ}

/-! ## Bounds -/

theorem Channel.entries_lt (c : Channel) : c.colormapEntries < 2 ^ 15 := by
  obtain ⟨e, heq, he, -⟩ := c.entries
  rw [heq]
  exact Nat.pow_lt_pow_right (by omega) he

theorem entriesFor_of_le (h : mask ≤ c.colormapEntries) : entriesFor c mask = c.colormapEntries - mask := by
  have hlt := c.entries_lt
  rw [entriesFor]
  omega

theorem entriesFor_of_lt (h : c.colormapEntries < mask) (hm : mask < 2 ^ 32) :
    entriesFor c mask = c.colormapEntries + 2 ^ 32 - mask := by
  rw [entriesFor]
  omega

/-- A smaller bound that leaves nothing out. -/
theorem hits_bound {q : ℕ → Bool} {b b' : ℕ} (h : ∀ x, q x = true → x < b' → x < b) (hle : b ≤ b') : hits q b 0 = hits q b' 0 := by
  obtain ⟨d, rfl⟩ := Nat.exists_eq_add_of_le hle
  have hrest : (range' b d).filter q = [] := by
    rw [filter_eq_nil_iff]
    intro x hx hq
    rw [mem_range'_1] at hx
    have hlt := h x hq (by omega)
    omega
  have hsplit : range' 0 (b + d) = range' 0 b ++ range' b d := by
    have happend : range' 0 b ++ range' (0 + b) d = range' 0 (b + d) := range'_append_1
    rw [zero_add] at happend
    exact happend.symm
  rw [hits, hits, Nat.sub_zero, Nat.sub_zero, hsplit, List.filter_append, hrest, List.append_nil]

/-- The first groups, if there are enough. -/
def firstGroups (ent : List Entry) (mask count : ℕ) : Option (List ℕ) :=
  if count ≤ (groups ent mask).length then some ((groups ent mask).take count) else none

/-- The pixels beside the mask are all that can have a group. -/
theorem hits_beside (hm : mask < 2 ^ 32) : hits (groupFree c.ent mask) (c.ent.length - mask) 0 = groups c.ent mask := by
  apply hits_bound _ (Nat.sub_le _ _)
  intro x hx _
  have hlt := ((groupFree_iff hm).1 hx).lt
  omega

/-! ## Contiguous planes -/

theorem nextRun_later (mask x : ℕ) : x < nextRun mask x ∧ nextRun mask x ≤ x + 1 + mask := by
  rw [nextRun]
  split <;> omega

theorem add_mod_small {m j : ℕ} (h : x % m + j < m) : (x + j) % m = x % m + j := by
  have hj : j % m = j := Nat.mod_eq_of_lt (by omega)
  rw [Nat.add_mod, hj, Nat.mod_eq_of_lt h]

/-- Where the next pixel has a bit of the mask, this one is the last before the block. -/
theorem last_of_next (hx : x &&& adjacent p s = 0) (hnext : (x + 1) &&& adjacent p s ≠ 0) :
    x % 2 ^ (s + p) + 1 = 2 ^ s ∧ 2 ^ s < 2 ^ (s + p) := by
  rw [and_adjacent_eq_zero] at hx
  rw [Ne, and_adjacent_eq_zero] at hnext
  by_cases hwrap : x % 2 ^ (s + p) + 1 < 2 ^ (s + p)
  · rw [add_mod_small hwrap] at hnext
    omega
  · have hlast : x % 2 ^ (s + p) + 1 = 2 ^ (s + p) := by
      omega
    omega

/-- From pixel to pixel, over the blocks that have bits of the mask. -/
theorem nextRun_steps (ent : List Entry) (p s : ℕ) :
    Steps (nextRun (adjacent p s)) (groupFree ent (adjacent p s)) (· &&& adjacent p s = 0) where
  again := by
    intro x hx
    rw [nextRun]
    split
    · rename_i hnext
      obtain ⟨hlast, -⟩ := last_of_next hx hnext
      have hsum := adjacent_add p s
      rw [and_adjacent_eq_zero]
      have hzero : (x + 1 + adjacent p s) % 2 ^ (s + p) = 0 := by
        rw [Nat.add_assoc, ← Nat.mod_add_mod, show x % 2 ^ (s + p) + (1 + adjacent p s) = 2 ^ (s + p) by omega, Nat.mod_self]
      rw [hzero]
      exact Nat.two_pow_pos s
    · rename_i hnext
      exact not_not.1 hnext
  later := fun x => (nextRun_later _ x).1
  missed := by
    intro x y hx hlt hlty
    have hsome : y &&& adjacent p s ≠ 0 := by
      rw [nextRun] at hlty
      split at hlty
      · rename_i hnext
        obtain ⟨hlast, hless⟩ := last_of_next hx hnext
        have hsum := adjacent_add p s
        obtain ⟨j, rfl⟩ := Nat.exists_eq_add_of_le (Nat.le_of_lt hlt)
        rw [Ne, and_adjacent_eq_zero, add_mod_small (by omega)]
        omega
      · omega
    rw [groupFree, beq_eq_false_iff_ne.2 hsome]
    rfl

/-- **A mask inside a full channel**: its first groups are found. -/
theorem scanRuns_spec (hfull : c.ent.length = c.colormapEntries) (h : s + p ≤ 32) (hle : adjacent p s ≤ c.ent.length)
    (hcount : 0 < count) : scanRuns c count (adjacent p s) (2 ^ s) = .ok (firstGroups c.ent (adjacent p s) count) := by
  have hm := adjacent_lt h
  rw [scanRuns, entriesFor_of_le (by omega), ← hfull, firstGroups, ← hits_beside hm]
  apply scan_spec (nextRun_steps c.ent p s) _ (Nat.zero_and _) hcount
  intro x hx hlt
  exact runFree_spec h hx (by omega)

/-- **A mask above the number of entries**: the scan leaves the channel. -/
theorem scanRuns_faults (h : s + p ≤ 32) (hlt : c.colormapEntries < adjacent p s) (hsmall : adjacent p s < 2 ^ 31) :
    scanRuns c count (adjacent p s) (2 ^ s) = .error .fault := by
  have hlen := c.fits
  have hentries := entriesFor_of_lt hlt (adjacent_lt h)
  apply scan_faults (fun x => (nextRun_later _ x).1) (fun x => (nextRun_later _ x).2)
  · intro x _
    exact runFree_outside h (by omega)
  · exact fun x hx => runFree_beyond hx
  · omega
  · exact Nat.zero_le _
  · omega

/-- A block of the lowest mask ends with the channel, or before. -/
theorem block_inside {n : ℕ} (hp : 2 ^ p ∣ n) (hx : x &&& adjacent p 0 = 0) (hlt : x < n) : x + 1 + adjacent p 0 ≤ n := by
  have hsum := adjacent_add p 0
  rw [and_adjacent_eq_zero, Nat.zero_add, pow_zero, Nat.lt_one_iff] at hx
  rw [Nat.zero_add] at hsum
  obtain ⟨a, rfl⟩ := Nat.dvd_of_mod_eq_zero hx
  obtain ⟨b, rfl⟩ := hp
  have hab : a < b := Nat.lt_of_mul_lt_mul_left hlt
  have hmul : 2 ^ p * (a + 1) ≤ 2 ^ p * b := Nat.mul_le_mul_left _ hab
  rw [mul_add] at hmul
  omega

theorem Channel.length_pos (c : Channel) : 0 < c.ent.length := by
  obtain ⟨k, hk⟩ := c.cells
  rw [hk]
  exact Nat.two_pow_pos k

/-- **The lowest mask in a smaller channel**: it is found, or the scan comes to the end of the channel and faults. -/
theorem scanRuns_lowest (hless : 2 * c.ent.length ≤ c.colormapEntries) (hp : 2 ^ p ∣ c.ent.length) (hle : p ≤ 32)
    (hcount : 0 < count) :
    (count ≤ (groups c.ent (adjacent p 0)).length ∧
      scanRuns c count (adjacent p 0) (2 ^ 0) = .ok (some ((groups c.ent (adjacent p 0)).take count))) ∨
    ((groups c.ent (adjacent p 0)).length < count ∧ scanRuns c count (adjacent p 0) (2 ^ 0) = .error .fault) := by
  have h32 : 0 + p ≤ 32 := by omega
  have hpos := c.length_pos
  have hfit := block_inside hp (Nat.zero_and (adjacent p 0)) hpos
  have htest : ∀ x, x &&& adjacent p 0 = 0 → x < c.ent.length →
      runFree c.ent (adjacent p 0) (2 ^ 0) x = .ok (groupFree c.ent (adjacent p 0) x) := by
    intro x hx hlt
    have hin := block_inside hp hx hlt
    exact runFree_spec h32 hx (by omega)
  have hentries : entriesFor c (adjacent p 0) = c.colormapEntries - adjacent p 0 := entriesFor_of_le (by omega)
  have hstart : ([] : List ℕ).length < count := hcount
  rw [scanRuns]
  generalize entriesFor c (adjacent p 0) = n at hentries ⊢
  have hbound : c.ent.length ≤ n := by omega
  rcases scan_upto (nextRun_steps c.ent p 0) htest hbound (Nat.zero_and _) hstart (show n - 0 < n + 1 by omega) with
    ⟨hmany, heq⟩ | ⟨hfew, x', fuel', hx', hv, hfuel', hwhere, heq⟩
  · rw [nil_append] at hmany heq
    exact .inl ⟨hmany, heq⟩
  · rw [nil_append] at hfew
    refine .inr ⟨hfew, ?_⟩
    have hend : x' ≤ c.ent.length := by
      rcases hwhere with rfl | ⟨y, hy, hlt, rfl⟩
      · omega
      · exact le_trans (nextRun_later _ y).2 (block_inside hp hy hlt)
    obtain ⟨fuel', rfl⟩ := Nat.exists_eq_succ_of_ne_zero (show fuel' ≠ 0 by omega)
    refine heq.trans ?_
    rw [scan, if_pos (by omega), runFree_beyond hx']
    rfl

/-- **The shifted masks**, as long as each finds its first groups: one of them has enough, or the search goes on behind them. -/
theorem shifted_upto {turns j : ℕ} (hj : j ≤ turns)
    (hscan : ∀ i, i < j → scanRuns c count (adjacent p (s + i)) (2 ^ (s + i)) = .ok (firstGroups c.ent (adjacent p (s + i)) count)) :
    (∃ s', s ≤ s' ∧ s' < s + j ∧ count ≤ (groups c.ent (adjacent p s')).length ∧
      shiftedMasks c count turns (adjacent p s) (2 ^ s) =
        .ok (some ⟨adjacent p s', 2 ^ s', (groups c.ent (adjacent p s')).take count⟩)) ∨
    ((∀ s', s ≤ s' → s' < s + j → (groups c.ent (adjacent p s')).length < count) ∧
      shiftedMasks c count turns (adjacent p s) (2 ^ s) =
        shiftedMasks c count (turns - j) (adjacent p (s + j)) (2 ^ (s + j))) := by
  induction j generalizing s turns with
  | zero => exact .inr ⟨fun s' hs hlt => by omega, rfl⟩
  | succ j ih =>
    obtain ⟨turns, rfl⟩ := Nat.exists_eq_succ_of_ne_zero (show turns ≠ 0 by omega)
    have hfirst := hscan 0 (Nat.succ_pos j)
    rw [add_zero] at hfirst
    have hmask : adjacent p s + adjacent p s = adjacent p (s + 1) := by
      rw [adjacent_succ]
      omega
    have hbase : 2 ^ s + 2 ^ s = 2 ^ (s + 1) := by
      omega
    rw [shiftedMasks, hfirst, firstGroups]
    by_cases hmany : count ≤ (groups c.ent (adjacent p s)).length
    · rw [if_pos hmany]
      exact .inl ⟨s, le_refl s, by omega, hmany, rfl⟩
    · rw [if_neg hmany, hmask, hbase]
      have hrest : ∀ i, i < j → scanRuns c count (adjacent p (s + 1 + i)) (2 ^ (s + 1 + i)) =
          .ok (firstGroups c.ent (adjacent p (s + 1 + i)) count) := by
        intro i hi
        have hlater := hscan (i + 1) (Nat.succ_lt_succ hi)
        rwa [show s + (i + 1) = s + 1 + i by omega] at hlater
      rcases ih (Nat.le_of_succ_le_succ hj) hrest with ⟨s', hs, hlt, hgroups, heq⟩ | ⟨hnone, heq⟩
      · exact .inl ⟨s', by omega, by omega, hgroups, heq⟩
      · refine .inr ⟨fun s' hs hlt => ?_, ?_⟩
        · by_cases hsame : s' = s
          · rw [hsame]
            exact Nat.lt_of_not_le hmany
          · exact hnone s' (by omega) (by omega)
        · rw [Nat.succ_sub_succ, show s + (j + 1) = s + 1 + j by omega]
          exact heq

/-! ## Other masks -/

/-- **Another mask inside a full channel**: its first groups are found. -/
theorem scanBits_spec (hfull : c.ent.length = c.colormapEntries) (hm : mask < 2 ^ 32) (hle : mask ≤ c.ent.length)
    (hcount : 0 < count) : scanBits c count mask (low 32 mask) = .ok (firstGroups c.ent mask count) := by
  have hsteps : Steps (· + 1) (groupFree c.ent mask) fun _ => True :=
    ⟨fun _ _ => trivial, fun x => Nat.lt_succ_self x, fun x y _ hlt hlty => by omega⟩
  rw [scanBits, entriesFor_of_le (by omega), ← hfull, firstGroups, ← hits_beside hm]
  apply scan_spec hsteps _ trivial hcount
  intro x _ hlt
  exact bitsFree_spec hm (by omega)

/-- All numbers with `n` more bits, from a place on, have as many ones as were counted. -/
def checkOnes : ℕ → ℕ → ℕ → ℕ → Bool
  | 0, m, _, k => ones m == k
  | n + 1, m, place, k => checkOnes n m (2 * place) k && checkOnes n (m + place) (2 * place) (k + 1)

theorem checkOnes_spec {n m place k : ℕ} (h : checkOnes n m place k = true) {b : ℕ} (hb : b < 2 ^ n) :
    ones (m + place * b) = k + bitCount n b := by
  induction n generalizing m place k b with
  | zero =>
    rw [pow_zero, Nat.lt_one_iff] at hb
    rw [hb]
    exact beq_iff_eq.1 h
  | succ n ih =>
    rw [checkOnes, Bool.and_eq_true] at h
    rcases even_or_odd b with ⟨heq, -⟩ | ⟨heq, -⟩
    · have hsplit : m + place * b = m + 2 * place * (b / 2) := by
        rw [mul_comm 2, mul_assoc, ← heq]
      rw [hsplit, ih h.1 (by omega), heq, bitCount_even, ← heq]
    · have hsplit : m + place * b = m + place + 2 * place * (b / 2) := by
        have hmul : place * (2 * (b / 2) + 1) = 2 * place * (b / 2) + place := by
          rw [mul_add, mul_one, mul_comm 2 place, mul_assoc]
        rw [heq, hmul, ← heq]
        omega
      rw [hsplit, ih h.2 (by omega), heq, bitCount_odd, ← heq]
      omega

/-- The magic statements count the ones. -/
theorem ones_eq (h : mask < 2 ^ 14) : ones mask = bitCount 32 mask := by
  have hcheck : checkOnes 14 0 1 0 = true := by decide +kernel
  have hcount := checkOnes_spec hcheck h
  rwa [zero_add, one_mul, zero_add, ← bitCount_wider h (show 14 ≤ 32 by omega)] at hcount

/-- **The masks in their order**: the first one with enough bits and enough groups is found, or there is none. -/
theorem sparse_spec {turns first : ℕ} (hfull : c.ent.length = c.colormapEntries) (hsmall : first + turns ≤ 2 ^ 14)
    (hle : first + turns ≤ c.ent.length) (hcount : 0 < count) :
    (∃ m, first ≤ m ∧ m < first + turns ∧ bitCount 32 m = p ∧ count ≤ (groups c.ent m).length ∧
      sparseMasks c count p turns first = .ok (some ⟨m, low 32 m, (groups c.ent m).take count⟩)) ∨
    ((∀ m, first ≤ m → m < first + turns → bitCount 32 m = p → (groups c.ent m).length < count) ∧
      sparseMasks c count p turns first = .ok none) := by
  induction turns generalizing first with
  | zero => exact .inr ⟨fun m hm hlt => by omega, rfl⟩
  | succ turns ih =>
    have hrest := @ih (first + 1) (by omega) (by omega)
    rw [sparseMasks, ones_eq (show first < 2 ^ 14 by omega)]
    by_cases hbits : bitCount 32 first = p
    · rw [if_neg (not_not_intro hbits), scanBits_spec hfull (by omega) (by omega) hcount, firstGroups]
      by_cases hmany : count ≤ (groups c.ent first).length
      · rw [if_pos hmany]
        exact .inl ⟨first, le_refl _, by omega, hbits, hmany, rfl⟩
      · rw [if_neg hmany]
        rcases hrest with ⟨m, hm, hlt, hp, hgroups, heq⟩ | ⟨hnone, heq⟩
        · exact .inl ⟨m, by omega, by omega, hp, hgroups, heq⟩
        · refine .inr ⟨fun m hm hlt hp => ?_, heq⟩
          by_cases hsame : m = first
          · rw [hsame]
            exact Nat.lt_of_not_le hmany
          · exact hnone m (by omega) (by omega) hp
    · rw [if_pos hbits]
      rcases hrest with ⟨m, hm, hlt, hp, hgroups, heq⟩ | ⟨hnone, heq⟩
      · exact .inl ⟨m, by omega, by omega, hp, hgroups, heq⟩
      · refine .inr ⟨fun m hm hlt hp => ?_, heq⟩
        by_cases hsame : m = first
        · rw [hsame] at hp
          exact absurd hp hbits
        · exact hnone m (by omega) (by omega) hp

end Xenia.AllocCP
