import Mathlib.Algebra.Order.Ring.Int
import Mathlib.Data.List.Count
import Xenia.Dix.AllocCPCells

/-!
# When an allocation is as it should be

The result of `AllocCP` is as it should be exactly under `Condition` (`allocCP_meets_iff`). In a PseudoColor or GrayScale map the channel has
all `2 ^ nplanes` entries, and every mask that is tried is inside. In a channel of a DirectColor map `nplanes` counts the planes of all three
channels: a search that goes on behind the planes of its own channel takes the number of entries for a very large one, and looks at cells
that are not there (`depthEight_faults`).
-/

namespace Xenia.AllocCP

open Xenia.Lib List

variable {c : Channel} {count planes mask s k e : ℕ} {contig : Bool}

/-! ## What the callers check -/

theorem Channel.freeCells_eq (c : Channel) : c.freeCells = (hits (free c.ent) c.ent.length 0).length := by
  rw [c.counted, hits, Nat.sub_zero, ← range_eq_range', countP_eq_length_filter]

theorem Channel.freeCells_le (c : Channel) : c.freeCells ≤ c.ent.length := by
  rw [c.counted]
  refine le_trans countP_le_length ?_
  rw [length_range]

theorem bmod_small {n m : ℕ} (h : 2 * n < m) : Int.bmod (n : ℤ) m = n := by
  apply Int.bmod_eq_of_le
  · omega
  · omega

/-- The shift does not overflow where the check accepts it. -/
theorem Checked.room (h : Checked c count planes) (hcount : 0 < count) : count * 2 ^ planes ≤ c.freeCells := by
  obtain ⟨hshift, hle, hge⟩ := h
  have hsmall := c.entries_lt
  have hfits := c.fits
  have hfree := c.freeCells_le
  have hdvd : ((2 : ℤ) ^ planes) ∣ npix count planes := by
    have hpow : ((2 : ℤ) ^ planes) ∣ ((2 ^ 32 : ℕ) : ℤ) := by
      exact pow_dvd_pow 2 (Nat.le_of_lt hshift)
    have hdiff : ((2 ^ 32 : ℕ) : ℤ) ∣ npix count planes - count * 2 ^ planes := Int.dvd_bmod_sub_self
    have hprod : ((2 : ℤ) ^ planes) ∣ count * 2 ^ planes := Dvd.intro_left _ rfl
    have hsum := Int.dvd_add (Int.dvd_trans hpow hdiff) hprod
    rwa [Int.sub_add_cancel] at hsum
  have hpos : 0 < npix count planes := by omega
  have hpow := Int.le_of_dvd hpos hdvd
  have hprod : count * 2 ^ planes < 2 ^ 15 * 2 ^ 15 := by
    apply Nat.mul_lt_mul''
    · omega
    · have hlt : (2 : ℤ) ^ planes < 2 ^ 15 := by omega
      exact_mod_cast hlt
  have hexact : npix count planes = ((count * 2 ^ planes : ℕ) : ℤ) := by
    have hcast : (count : ℤ) * 2 ^ planes = ((count * 2 ^ planes : ℕ) : ℤ) := by rw [Nat.cast_mul, Nat.cast_pow, Nat.cast_two]
    calc npix count planes = Int.bmod ((count * 2 ^ planes : ℕ) : ℤ) (2 ^ 32) := congrArg (Int.bmod · (2 ^ 32)) hcast
      _ = _ := bmod_small (by omega)
  omega

/-- The numbers of a channel: `2 ^ k` cells, `2 ^ e` entries. -/
structure Sizes (c : Channel) (k e : ℕ) : Prop where
  cells : c.ent.length = 2 ^ k
  entries : c.colormapEntries = 2 ^ e
  small : e < 15
  le : k ≤ e
  planes : e ≤ c.nplanes

theorem Channel.sizes (c : Channel) : ∃ k e, Sizes c k e := by
  obtain ⟨k, hk⟩ := c.cells
  obtain ⟨e, he, hsmall, hplanes⟩ := c.entries
  have hle := c.fits
  rw [hk, he] at hle
  exact ⟨k, e, hk, he, hsmall, (Nat.pow_le_pow_iff_right (by omega)).1 hle, hplanes⟩

theorem planes_le (hs : Sizes c k e) (hcount : 0 < count) (hroom : count * 2 ^ planes ≤ c.freeCells) : planes ≤ k := by
  have hle : 2 ^ planes ≤ count * 2 ^ planes := Nat.le_mul_of_pos_left _ hcount
  have hfree := c.freeCells_le
  rw [hs.cells] at hfree
  exact (Nat.pow_le_pow_iff_right (by omega)).1 (Nat.le_trans hle (Nat.le_trans hroom hfree))

/-! ## Masks without groups -/

/-- A mask that is not inside the channel has no groups. -/
theorem no_groups_outside (hcount : 0 < count) (h : c.ent.length ≤ mask) : ¬HasGroups c.ent mask count := by
  rintro ⟨l, hl, -, hall⟩
  obtain ⟨x, hx⟩ := exists_mem_of_length_pos (hl.symm ▸ hcount)
  have hlt := (hall x hx).lt
  omega

/-- Adjacent bits inside the channel. -/
theorem adjacent_inside (hp : planes ≠ 0) : adjacent planes s < 2 ^ k ↔ s + planes ≤ k := by
  have hsum := adjacent_add planes s
  constructor
  · intro hlt
    by_contra hout
    obtain ⟨p, rfl⟩ := Nat.exists_eq_add_of_le' (Nat.one_le_iff_ne_zero.2 hp)
    have hpow : 2 ^ s ≤ 2 ^ (s + p) := Nat.pow_le_pow_right Nat.two_pos (Nat.le_add_right s p)
    have hpow' : 2 ^ k ≤ 2 ^ (s + p) := Nat.pow_le_pow_right Nat.two_pos (by omega)
    rw [← add_assoc] at hsum
    omega
  · intro hle
    have hpow : 2 ^ (s + planes) ≤ 2 ^ k := Nat.pow_le_pow_right Nat.two_pos hle
    have hpos := Nat.two_pow_pos s
    omega

/-- No shifted mask has enough groups. -/
def NoneShifted (c : Channel) (count planes : ℕ) : Prop := ∀ s, ¬HasGroups c.ent (adjacent planes s) count

theorem noneShifted_of (hs : Sizes c k e) (hp : planes ≠ 0) (hcount : 0 < count)
    (hnone : ∀ s, s + planes ≤ k → (groups c.ent (adjacent planes s)).length < count) : NoneShifted c count planes := by
  intro s
  by_cases hin : s + planes ≤ k
  · have hsmall := hs.small
    have hle := hs.le
    rw [hasGroups_iff (adjacent_lt (by omega))]
    exact Nat.not_le_of_lt (hnone s hin)
  · apply no_groups_outside hcount
    rw [hs.cells]
    exact Nat.le_of_not_lt fun hlt => hin ((adjacent_inside hp).1 hlt)

/-- All masks of the allowed kind that have groups are inside the channel. -/
theorem refused_of (hs : Sizes c k e) (hcount : 0 < count)
    (hnone : ∀ mask, mask < 2 ^ k → Allowed planes contig mask → ¬HasGroups c.ent mask count) :
    Refused c count planes contig (failed c) := by
  refine ⟨rfl, fun mask hmask => ?_⟩
  by_cases hlt : mask < 2 ^ k
  · exact hnone mask hlt hmask
  · apply no_groups_outside hcount
    rw [hs.cells]
    exact Nat.le_of_not_lt hlt

/-- Where only adjacent bits are allowed, or there is only one bit. -/
theorem refused_adjacent (hs : Sizes c k e) (hcount : 0 < count) (hnone : NoneShifted c count planes)
    (h : contig = true ∨ planes = 1) : Refused c count planes contig (failed c) := by
  apply refused_of hs hcount
  intro mask _ hmask
  obtain ⟨s, rfl⟩ : ∃ s, mask = adjacent planes s := by
    rcases h with h | rfl
    · exact hmask.2.2 h
    · exact adjacent_of_one hmask.1 hmask.2.1
  exact hnone s

/-! ## The call -/

theorem allocCP_eq (hp : planes ≠ 0) (hle : planes ≤ c.nplanes) : allocCP c count planes contig =
    (shiftedMasks c count (c.nplanes + 1 - planes) (adjacent planes 0) (2 ^ 0) >>= fun
      | some f => allocFound c (fun off => .ok (off + f.base)) f
      | none => if contig = true ∨ planes = 1 ∨ c.nplanes < 3 then .ok (failed c) else allocSparse c count planes) := by
  have hturns : c.nplanes - (planes - 1) = c.nplanes + 1 - planes := by omega
  have hmask : (1 <<< planes) - 1 = adjacent planes 0 := by
    rw [Nat.one_shiftLeft, adjacent, pow_zero, Nat.mul_one]
  rw [allocCP, if_neg hp, if_neg (Nat.not_lt_of_le hle), hturns, hmask]
  all_goals rfl

/-- The groups that were found, and the mask they belong to. -/
theorem firstGroups_spec (hm : mask < 2 ^ 32) (h : count ≤ (groups c.ent mask).length) :
    ((groups c.ent mask).take count).length = count ∧ ((groups c.ent mask).take count).Nodup ∧
      ∀ x ∈ (groups c.ent mask).take count, Group c.ent mask x := by
  refine ⟨length_take_of_le h, ?_, fun x hx => (mem_groups hm).1 (mem_of_mem_take hx)⟩
  exact hits_nodup.sublist (take_sublist _ _)

/-- **A shifted mask was found**. -/
theorem meets_of_shifted (hp : planes ≠ 0) (hle : planes ≤ c.nplanes) (hs : s + planes ≤ 32)
    (hgroups : count ≤ (groups c.ent (adjacent planes s)).length)
    (hshift : shiftedMasks c count (c.nplanes + 1 - planes) (adjacent planes 0) (2 ^ 0) =
      .ok (some ⟨adjacent planes s, 2 ^ s, (groups c.ent (adjacent planes s)).take count⟩)) : Meets c count planes contig := by
  have hm := adjacent_lt hs
  have hallowed : Allowed planes contig (adjacent planes s) := ⟨hm, bitCount_adjacent hs, fun _ => ⟨s, rfl⟩⟩
  obtain ⟨hlength, hnodup, hall⟩ := firstGroups_spec hm hgroups
  obtain ⟨r, hr, hok, hdone⟩ := allocFound_spec (2 ^ s) hm hallowed (counts_adjacent hs) hlength hnodup hall
  refine ⟨r, ?_, fun _ => hdone, fun hfalse => ?_⟩
  · rw [allocCP_eq hp hle, hshift]
    exact hr
  · rw [hok] at hfalse
    exact nomatch hfalse

/-- **The shift left the channel**. -/
theorem not_meets_of_fault (hp : planes ≠ 0) (hle : planes ≤ c.nplanes)
    (hshift : shiftedMasks c count (c.nplanes + 1 - planes) (adjacent planes 0) (2 ^ 0) = .error .fault) :
    ¬Meets c count planes contig := by
  rintro ⟨r, hr, -⟩
  rw [allocCP_eq hp hle, hshift] at hr
  exact nomatch hr

theorem meets_of_failed {r : Result} (heq : allocCP c count planes contig = .ok r) (hfail : r.ok = false)
    (hrefused : Refused c count planes contig r) : Meets c count planes contig := by
  refine ⟨r, heq, fun htrue => ?_, fun _ => hrefused⟩
  rw [hfail] at htrue
  exact nomatch htrue

/-- No plane: the first free cells. -/
theorem meets_easy (hroom : count * 2 ^ 0 ≤ c.freeCells) : Meets c count 0 contig := by
  rw [pow_zero, mul_one, c.freeCells_eq] at hroom
  refine ⟨_, ?_, fun _ => easyCase_allocated hroom, fun hfalse => nomatch hfalse⟩
  rw [allocCP, if_pos rfl, easyCase_spec hroom, ok_bind, nil_append]

/-! ## The sparse masks -/

/-- All cells are free: one pixel and all planes are found at once. -/
theorem hasGroups_all (hs : Sizes c k e) (hcount : 0 < count) (hroom : count * 2 ^ k ≤ c.freeCells) :
    HasGroups c.ent (adjacent k 0) count := by
  have hfree := c.freeCells_le
  have hpos := Nat.two_pow_pos k
  have hone : count = 1 := by
    rw [hs.cells] at hfree
    have hmul : count * 2 ^ k ≤ 1 * 2 ^ k := by omega
    have := Nat.le_of_mul_le_mul_right hmul hpos
    omega
  have hall : ∀ i ∈ List.range c.ent.length, free c.ent i = true := by
    apply countP_eq_length.1
    rw [← c.counted, length_range]
    rw [hone, ← hs.cells] at hroom
    omega
  refine ⟨[0], by rw [hone]; rfl, pairwise_singleton _ _, fun x hx => ?_⟩
  rw [mem_singleton] at hx
  rw [hx]
  refine ⟨Nat.zero_and _, fun t ht => hall _ ?_⟩
  have hle := ht.le
  have hlt : adjacent k 0 < 2 ^ k := adjacent_lt (by omega)
  rw [mem_range, Nat.zero_or, hs.cells]
  omega

section

variable (hs : Sizes c k k)
include hs

/-- **The second search**, in a channel with all entries and planes. -/
theorem allocSparse_meets (hk : c.nplanes = k) (hp : 2 ≤ planes) (hle : planes ≤ k) (hcount : 0 < count)
    (hroom : count * 2 ^ planes ≤ c.freeCells) (hnone : NoneShifted c count planes) :
    ∃ r, allocSparse c count planes = .ok r ∧ (r.ok = true → Allocated c count planes false r) ∧
      (r.ok = false → Refused c count planes false r) := by
  have hfull : c.ent.length = c.colormapEntries := by rw [hs.cells, hs.entries]
  have hlt : planes < k := by
    refine lt_of_le_of_ne hle fun heq => ?_
    rw [heq] at hroom hnone
    exact hnone 0 (hasGroups_all hs hcount hroom)
  obtain ⟨p, rfl⟩ := Nat.exists_eq_add_of_le' (show 1 ≤ planes by omega)
  have hsmall : k < 15 := hs.small
  have hcells : 2 ^ k ≤ 2 ^ 14 := Nat.pow_le_pow_right Nat.two_pos (by omega)
  have hfirst : 3 * 2 ^ p - 1 < 2 ^ k := by
    have hpow : 2 ^ (p + 2) ≤ 2 ^ k := Nat.pow_le_pow_right Nat.two_pos (by omega)
    have hpos := Nat.two_pow_pos p
    rw [pow_succ] at hpow
    omega
  have hfinal : adjacent p (k - p) + 2 ^ (k - p - 2) < 2 ^ k := by
    have hsum := adjacent_add p (k - p)
    have hpow : 2 ^ (k - p - 2) < 2 ^ (k - p) := Nat.pow_lt_pow_right (by omega) (by omega)
    rw [Nat.sub_add_cancel (show p ≤ k by omega)] at hsum
    omega
  have heq : allocSparse c count (p + 1) =
      (sparseMasks c count (p + 1) (adjacent p (k - p) + 2 ^ (k - p - 2) + 1 - (3 * 2 ^ p - 1)) (3 * 2 ^ p - 1) >>= fun
        | some f => allocFound c (nextBits f.mask f.base) f
        | none => .ok (failed c)) := by
    rw [allocSparse, if_neg (by omega), hk, Nat.one_shiftLeft, Nat.one_shiftLeft, Nat.shiftLeft_eq, Nat.shiftLeft_eq,
      show k - (p + 1) + 1 = k - p by omega]
    rfl
  rw [heq]
  rcases @sparse_spec _ _ (p + 1) (adjacent p (k - p) + 2 ^ (k - p - 2) + 1 - (3 * 2 ^ p - 1)) (3 * 2 ^ p - 1) hfull
      (by omega) (by rw [hs.cells]; omega) hcount with ⟨m, hm, hmlt, hbits, hmany, hfound⟩ | ⟨hall, hfound⟩
  · have hm32 : m < 2 ^ 32 := by omega
    obtain ⟨hlength, hnodup, hgroups⟩ := firstGroups_spec hm32 hmany
    have hallowed : Allowed (p + 1) false m := ⟨hm32, hbits, fun h => nomatch h⟩
    have hcounts : Counts (nextBits m (low 32 m)) m (submasks 32 m) := counts_carry hm32 (by omega) (by omega)
    obtain ⟨r, hr, hok, hdone⟩ := allocFound_spec (low 32 m) hm32 hallowed hcounts hlength hnodup hgroups
    refine ⟨r, ?_, fun _ => hdone, fun hfalse => ?_⟩
    · rw [hfound]
      exact hr
    · rw [hok] at hfalse
      exact nomatch hfalse
  · refine ⟨failed c, by rw [hfound]; rfl, fun h => (nomatch h), fun _ => ?_⟩
    apply refused_of hs hcount
    intro m hmlt hallowed
    by_cases hadjacent : ∃ s, m = adjacent (p + 1) s
    · obtain ⟨s, rfl⟩ := hadjacent
      exact hnone s
    · have hbits : bitCount k m = p + 1 := by rw [← bitCount_wider hmlt (show k ≤ 32 by omega), hallowed.2.1]
      have hlow := second_le hbits fun h => hadjacent ⟨_, h⟩
      have hhigh := le_second hmlt hbits hlt fun h => hadjacent ⟨_, h⟩
      rw [hasGroups_iff hallowed.1]
      exact Nat.not_le_of_lt (hall m hlow (by omega) hallowed.2.1)

/-! ## The shifted masks -/

/-- **The first search in a full channel**: a mask inside it is found, or the search goes on behind its planes. -/
theorem shifted_full (hp : planes ≠ 0) (hle : planes ≤ k) (hcount : 0 < count) :
    (∃ s, s + planes ≤ 32 ∧ count ≤ (groups c.ent (adjacent planes s)).length ∧
      shiftedMasks c count (c.nplanes + 1 - planes) (adjacent planes 0) (2 ^ 0) =
        .ok (some ⟨adjacent planes s, 2 ^ s, (groups c.ent (adjacent planes s)).take count⟩)) ∨
    (NoneShifted c count planes ∧ shiftedMasks c count (c.nplanes + 1 - planes) (adjacent planes 0) (2 ^ 0) =
      shiftedMasks c count (c.nplanes - k) (adjacent planes (k + 1 - planes)) (2 ^ (k + 1 - planes))) := by
  have hfull : c.ent.length = c.colormapEntries := by rw [hs.cells, hs.entries]
  have hsmall : k < 15 := hs.small
  have hplanes : k ≤ c.nplanes := hs.planes
  have hscan : ∀ i, i < k + 1 - planes → scanRuns c count (adjacent planes (0 + i)) (2 ^ (0 + i)) =
      .ok (firstGroups c.ent (adjacent planes (0 + i)) count) := by
    intro i hi
    apply scanRuns_spec hfull (by omega) _ hcount
    rw [hs.cells]
    exact le_of_lt ((adjacent_inside hp).2 (by omega))
  rcases shifted_upto (show k + 1 - planes ≤ c.nplanes + 1 - planes by omega) hscan with ⟨s, -, hlt, hmany, heq⟩ | ⟨hnone, heq⟩
  · exact .inl ⟨s, by omega, hmany, heq⟩
  · refine .inr ⟨noneShifted_of hs hp hcount fun s hin => hnone s (Nat.zero_le s) (by omega), ?_⟩
    rw [heq, zero_add, show c.nplanes + 1 - planes - (k + 1 - planes) = c.nplanes - k by omega]

/-- **A PseudoColor or GrayScale map**, and a channel as wide as the map. -/
theorem meets_full (hk : c.nplanes = k) (hp : planes ≠ 0) (hle : planes ≤ k) (hcount : 0 < count)
    (hroom : count * 2 ^ planes ≤ c.freeCells) : Meets c count planes contig := by
  have hle' : planes ≤ c.nplanes := hk ▸ hle
  rcases shifted_full hs hp hle hcount with ⟨s, h32, hmany, hshift⟩ | ⟨hnone, hshift⟩
  · exact meets_of_shifted hp hle' h32 hmany hshift
  · have heq : allocCP c count planes contig =
        if contig = true ∨ planes = 1 ∨ c.nplanes < 3 then .ok (failed c) else allocSparse c count planes := by
      rw [allocCP_eq hp hle', hshift, hk, Nat.sub_self, shiftedMasks, ok_bind]
    by_cases hone : contig = true ∨ planes = 1
    · have hstop : contig = true ∨ planes = 1 ∨ c.nplanes < 3 := by tauto
      rw [if_pos hstop] at heq
      exact meets_of_failed heq rfl (refused_adjacent hs hcount hnone hone)
    · have hcontig : contig = false := by
        cases contig with
        | false => rfl
        | true => exact absurd (.inl rfl) hone
      subst hcontig
      obtain ⟨r, hr, hdone, hrefused⟩ := allocSparse_meets hs hk (by omega) hle hcount hroom hnone
      by_cases hfew : c.nplanes < 3
      · -- two bits of two planes are adjacent
        rw [if_pos (.inr (.inr hfew))] at heq
        refine meets_of_failed heq rfl (refused_of hs hcount fun m hm hallowed => ?_)
        have hbits : bitCount k m = planes := by rw [← bitCount_wider hm (show k ≤ 32 by omega), hallowed.2.1]
        have hleast := le_of_bitCount hbits
        have hmost := bitCount_le_top hm hbits
        have hall : k - planes = 0 := by omega
        rw [hall] at hmost
        rw [le_antisymm hmost hleast]
        exact hnone 0
      · have hgo : ¬(false = true ∨ planes = 1 ∨ c.nplanes < 3) := by
          rintro (h | h | h)
          · exact Bool.noConfusion h
          · exact hone (.inr h)
          · exact hfew h
        rw [if_neg hgo] at heq
        exact ⟨r, heq.trans hr, hdone, hrefused⟩

/-- A shifted mask above all entries. -/
theorem shifted_faults {turns : ℕ} (hlt : 2 ^ k < adjacent planes s) (hsum : s + planes ≤ k + 2) :
    shiftedMasks c count (turns + 1) (adjacent planes s) (2 ^ s) = .error .fault := by
  have hsmall : k < 15 := hs.small
  have hentries : c.colormapEntries < adjacent planes s := by rwa [hs.entries]
  have hmask : adjacent planes s < 2 ^ 31 := adjacent_lt (by omega)
  rw [shiftedMasks, scanRuns_faults (by omega) hentries hmask]
  rfl

/-- **More planes than those of the channel**: the first search goes on behind it. A single bit is shifted once to the number of entries
itself, and leaves none; every other mask is above it. -/
theorem shifted_behind {t : ℕ} (hp : planes ≠ 0) (hle : planes ≤ k) (hcount : 0 < count) (hnone : NoneShifted c count planes) :
    shiftedMasks c count (t + 1) (adjacent planes (k + 1 - planes)) (2 ^ (k + 1 - planes)) =
      if planes = 1 ∧ t = 0 then .ok none else .error .fault := by
  have hfull : c.ent.length = c.colormapEntries := by rw [hs.cells, hs.entries]
  have hsmall : k < 15 := hs.small
  by_cases hone : planes = 1
  · have hmask : adjacent planes k = 2 ^ k := by rw [hone, adjacent, pow_one, Nat.one_mul]
    have hscan : scanRuns c count (adjacent planes k) (2 ^ k) = .ok none := by
      rw [scanRuns_spec hfull (by omega) (by rw [hmask, hs.cells]) hcount, firstGroups, if_neg]
      rw [← hasGroups_iff (adjacent_lt (by omega))]
      exact hnone k
    have hnext : adjacent planes k + adjacent planes k = adjacent planes (k + 1) := by
      rw [adjacent_succ]
      omega
    have hbase : 2 ^ k + 2 ^ k = 2 ^ (k + 1) := by
      omega
    have hpos := Nat.two_pow_pos k
    rw [show k + 1 - planes = k by omega, shiftedMasks, hscan, ok_bind, hnext, hbase]
    cases t with
    | zero => rw [if_pos ⟨hone, rfl⟩, shiftedMasks]
    | succ t =>
      rw [if_neg (fun h => Nat.succ_ne_zero t h.2)]
      apply shifted_faults hs _ (by omega)
      omega
  · rw [if_neg fun h => hone h.1]
    apply shifted_faults hs _ (by omega)
    have hsum := adjacent_add planes (k + 1 - planes)
    have hpow : 2 ^ (k + 1 - planes) < 2 ^ k := Nat.pow_lt_pow_right (by omega) (by omega)
    rw [Nat.sub_add_cancel (show planes ≤ k + 1 by omega)] at hsum
    omega

/-- **A full channel of a visual with more planes**. -/
theorem meets_iff_behind (hk : k < c.nplanes) (hp : planes ≠ 0) (hle : planes ≤ k) (hcount : 0 < count) :
    Meets c count planes contig ↔ (planes = 1 ∧ c.nplanes = k + 1) ∨ ∃ s, HasGroups c.ent (adjacent planes s) count := by
  have hle' : planes ≤ c.nplanes := by omega
  obtain ⟨t, ht⟩ : ∃ t, c.nplanes - k = t + 1 := ⟨c.nplanes - k - 1, by omega⟩
  rcases shifted_full hs hp hle hcount with ⟨s, h32, hmany, hshift⟩ | ⟨hnone, hshift⟩
  · constructor
    · intro _
      exact .inr ⟨s, (hasGroups_iff (adjacent_lt h32)).2 hmany⟩
    · intro _
      exact meets_of_shifted hp hle' h32 hmany hshift
  · rw [ht, shifted_behind hs hp hle hcount hnone] at hshift
    by_cases hstop : planes = 1 ∧ t = 0
    · rw [if_pos hstop] at hshift
      have heq : allocCP c count planes contig = .ok (failed c) := by
        rw [allocCP_eq hp hle', hshift]
        exact if_pos (.inr (.inl hstop.1))
      constructor
      · intro _
        exact .inl ⟨hstop.1, by omega⟩
      · intro _
        exact meets_of_failed heq rfl (refused_adjacent hs hcount hnone (.inr hstop.1))
    · rw [if_neg hstop] at hshift
      constructor
      · exact fun h => absurd h (not_meets_of_fault hp hle' hshift)
      · rintro (⟨hone, hnext⟩ | ⟨s, hgroups⟩)
        · exact absurd ⟨hone, by omega⟩ hstop
        · exact absurd hgroups (hnone s)

end

/-- **A channel with fewer cells than the map has entries**. -/
theorem meets_iff_smaller (hs : Sizes c k e) (hlt : k < e) (hp : planes ≠ 0) (hle : planes ≤ k) (hcount : 0 < count) :
    Meets c count planes contig ↔ HasGroups c.ent (adjacent planes 0) count := by
  have hsmall := hs.small
  have hplanes := hs.planes
  have hle' : planes ≤ c.nplanes := by omega
  have hless : 2 * c.ent.length ≤ c.colormapEntries := by
    have hpow : 2 ^ (k + 1) ≤ 2 ^ e := Nat.pow_le_pow_right Nat.two_pos hlt
    rw [hs.cells, hs.entries]
    omega
  have hdvd : 2 ^ planes ∣ c.ent.length := by
    rw [hs.cells]
    exact pow_dvd_pow 2 hle
  have hturns : c.nplanes + 1 - planes = (c.nplanes - planes) + 1 := by omega
  rw [hasGroups_iff (adjacent_lt (by omega))]
  rcases scanRuns_lowest hless hdvd (by omega) hcount with ⟨hmany, hscan⟩ | ⟨hfew, hscan⟩
  · refine iff_of_true (meets_of_shifted (s := 0) hp hle' (by omega) hmany ?_) hmany
    rw [hturns, shiftedMasks, hscan, ok_bind]
  · refine iff_of_false (not_meets_of_fault hp hle' ?_) (Nat.not_le_of_lt hfew)
    rw [hturns, shiftedMasks, hscan]
    rfl

/-- **When an allocation is as it should be**: in a channel with all entries and planes always; in a channel of a visual with more planes if
the first search comes to an end before it leaves the channel. -/
theorem allocCP_meets_iff (c : Channel) (count planes : ℕ) (contig : Bool) (hcount : 0 < count) (h : Checked c count planes) :
    Meets c count planes contig ↔ Condition c count planes := by
  have hroom := h.room hcount
  obtain ⟨k, e, hs⟩ := c.sizes
  have hle := planes_le hs hcount hroom
  have hpow : ∀ {a b : ℕ}, 2 ^ a = 2 ^ b ↔ a = b := fun {a b} => Nat.pow_right_inj (Nat.le_refl 2)
  rw [Condition, hs.cells, hs.entries, hpow, hpow, ← pow_succ', hpow]
  by_cases hp : planes = 0
  · subst hp
    exact iff_of_true (meets_easy hroom) (.inl rfl)
  · by_cases hke : k = e
    · subst hke
      have hirrefl := lt_irrefl (2 ^ k)
      by_cases hk : c.nplanes = k
      · exact iff_of_true (meets_full hs hk hp hle hcount hroom) (.inr (.inl ⟨rfl, .inl hk.symm⟩))
      · have hplanes : k ≤ c.nplanes := hs.planes
        rw [meets_iff_behind hs (by omega) hp hle hcount]
        constructor
        · rintro (⟨hone, hnext⟩ | hgroups)
          · exact .inr (.inl ⟨rfl, .inr (.inl ⟨hone, hnext.symm⟩)⟩)
          · exact .inr (.inl ⟨rfl, .inr (.inr hgroups)⟩)
        · rintro (hzero | ⟨-, hall | ⟨hone, hnext⟩ | hgroups⟩ | ⟨hless, -⟩)
          · exact absurd hzero hp
          · exact absurd hall.symm hk
          · exact .inl ⟨hone, hnext.symm⟩
          · exact .inr hgroups
          · exact absurd hless hirrefl
    · have hlt : k < e := lt_of_le_of_ne hs.le hke
      have hless : 2 ^ k < 2 ^ e := Nat.pow_lt_pow_right (by omega) hlt
      rw [meets_iff_smaller hs hlt hp hle hcount]
      constructor
      · exact fun hgroups => .inr (.inr ⟨hless, hgroups⟩)
      · rintro (hzero | ⟨hsame, -⟩ | ⟨-, hgroups⟩)
        · exact absurd hzero hp
        · exact absurd hsame hke
        · exact hgroups

/-! ## A DirectColor visual of depth eight -/

def used : Entry := ⟨3, false⟩

def unused : Entry := ⟨0, false⟩

/-- The red cells of a visual with three red, three green and two blue planes. Two cells are free, and they are not neighbours in any plane. -/
def depthEight : Channel where
  colormapEntries := 8
  nplanes := 8
  freeCells := 2
  ent := [unused, used, used, unused, used, used, used, used]
  cells := ⟨3, rfl⟩
  entries := ⟨3, rfl, by omega, by omega⟩
  planes := by omega
  fits := Nat.le_refl 8
  counted := rfl

/-- A PseudoColor map with the same cells. -/
def pseudoEight : Channel := { depthEight with nplanes := 3, entries := ⟨3, rfl, by omega, by omega⟩, planes := by omega }

theorem depthEight_checked : Checked depthEight 1 1 := by decide

/-- The first free cell is compared with one sixteen cells further. -/
theorem depthEight_faults : allocCP depthEight 1 1 false = .error .fault := rfl

/-- **Not every accepted allocation is as it should be**. -/
theorem allocCP_leaves_channel : ¬∀ (c : Channel) (count planes : ℕ) (contig : Bool), 0 < count → Checked c count planes →
    Meets c count planes contig := by
  intro h
  obtain ⟨r, hr, -⟩ := h depthEight 1 1 false one_pos depthEight_checked
  exact nomatch hr

theorem pseudoEight_checked : Checked pseudoEight 1 1 := by decide

/-- In the PseudoColor map the same request is refused. -/
theorem allocCP_meets_pseudoEight : Checked pseudoEight 1 1 ∧ (Meets pseudoEight 1 1 false ↔ Condition pseudoEight 1 1) :=
  ⟨pseudoEight_checked, allocCP_meets_iff pseudoEight 1 1 false one_pos pseudoEight_checked⟩

end Xenia.AllocCP
