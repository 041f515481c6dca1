import Mathlib.Data.List.Nodup
import Xenia.Dix.AllocCPSearch

/-!
# What an allocation leaves

The cells of a group are set one after the other (`allocGroup_spec`), and those of all groups (`allocGroups_spec`): they are private then, and
the others are as before (`privateAt`). Since the combinations of different pixels are different, each stands once in the list that is
returned (`allocFound_spec`). In the easy case the cells are the first free ones (`easyCase_spec`).
-/

namespace Xenia.AllocCP

open Xenia.Lib List

variable {c : Channel} {ent : List Entry} {count planes mask x i : ℕ} {next : ℕ → Outcome ℕ} {l bases pixels cells : List ℕ}

/-! ## Cells -/

def privateAt (ent : List Entry) (cells : List ℕ) : List Entry := cells.foldl (fun e i => e.set i ⟨AllocPrivate, false⟩) ent

theorem privateAt_append (ent : List Entry) (a b : List ℕ) : privateAt ent (a ++ b) = privateAt (privateAt ent a) b :=
  foldl_append

theorem privateAt_length (ent : List Entry) (cells : List ℕ) : (privateAt ent cells).length = ent.length := by
  induction cells generalizing ent with
  | nil => rfl
  | cons i cells ih => exact (ih _).trans length_set

theorem privateAt_other (h : i ∉ cells) : (privateAt ent cells)[i]? = ent[i]? := by
  induction cells generalizing ent with
  | nil => rfl
  | cons j cells ih =>
    rw [mem_cons, not_or] at h
    refine (ih h.2).trans ?_
    exact getElem?_set_ne (Ne.symm h.1)

theorem privateAt_cell (h : i ∈ cells) (hlt : i < ent.length) : (privateAt ent cells)[i]? = some ⟨AllocPrivate, false⟩ := by
  induction cells generalizing ent with
  | nil => exact absurd h not_mem_nil
  | cons j cells ih =>
    by_cases hin : i ∈ cells
    · apply ih hin
      rwa [length_set]
    · obtain rfl : i = j := (mem_cons.1 h).resolve_right hin
      refine (privateAt_other hin).trans ?_
      exact getElem?_set_self hlt

theorem allocPrivate_inside (h : i < ent.length) : allocPrivate ent i = .ok (privateAt ent [i]) := by
  rw [allocPrivate, if_pos h]
  rfl

/-! ## Groups -/

theorem allocGroup_spec {off fuel : ℕ} (hcounts : Counts next mask (off :: l)) (hin : ∀ t ∈ off :: l, x + t < ent.length)
    (hfuel : l.length < fuel) : allocGroup next mask x fuel off ent pixels =
      .ok (privateAt ent ((off :: l).map (x + ·)), pixels ++ l.map (x + ·)) := by
  induction l generalizing off fuel ent pixels with
  | nil =>
    obtain ⟨fuel, rfl⟩ := Nat.exists_eq_succ_of_ne_zero (show fuel ≠ 0 by omega)
    have hlast : off = mask := hcounts
    rw [allocGroup, allocPrivate_inside (hin off mem_cons_self), ok_bind, if_pos hlast, map_nil, append_nil]
    rfl
  | cons b l ih =>
    obtain ⟨fuel, rfl⟩ := Nat.exists_eq_succ_of_ne_zero (show fuel ≠ 0 by omega)
    obtain ⟨hne, hnext, hrest⟩ := hcounts
    have hin' : ∀ t ∈ b :: l, x + t < (privateAt ent [x + off]).length := by
      intro t ht
      rw [privateAt_length]
      exact hin t (mem_cons_of_mem _ ht)
    rw [allocGroup, allocPrivate_inside (hin off mem_cons_self), ok_bind, if_neg hne, hnext, ok_bind,
      ih hrest hin' (Nat.lt_of_succ_lt_succ hfuel), append_assoc]
    rfl

theorem allocGroups_spec (hcounts : Counts next mask (0 :: l)) (hlength : l.length ≤ mask)
    (hin : ∀ x ∈ bases, ∀ t ∈ 0 :: l, x + t < ent.length) : allocGroups next mask bases ent pixels =
      .ok (privateAt ent (bases.flatMap fun x => (0 :: l).map (x + ·)), pixels ++ bases.flatMap fun x => l.map (x + ·)) := by
  induction bases generalizing ent pixels with
  | nil =>
    rw [flatMap_nil, flatMap_nil, append_nil]
    rfl
  | cons x bases ih =>
    have hin' : ∀ y ∈ bases, ∀ t ∈ 0 :: l, y + t < (privateAt ent ((0 :: l).map (x + ·))).length := by
      intro y hy t ht
      rw [privateAt_length]
      exact hin y (mem_cons_of_mem _ hy) t ht
    rw [allocGroups, allocGroup_spec hcounts (hin x mem_cons_self) (Nat.lt_succ_of_le hlength), ok_bind, ih hin',
      ← privateAt_append, append_assoc]
    rfl

/-- The combinations of two pixels are different. -/
theorem combination_inj {y t u : ℕ} (hx : x &&& mask = 0) (hy : y &&& mask = 0) (ht : Submask t mask) (hu : Submask u mask)
    (h : x + t = y + u) : x = y ∧ t = u := by
  have htu : t = u := by
    rw [← or_and_mask hx ht, ← or_and_mask hy hu, ← add_eq_or (and_submask hx ht), ← add_eq_or (and_submask hy hu), h]
  exact ⟨by omega, htu⟩

/-- A list as long for each element. -/
theorem length_flatMap_same {f : ℕ → List ℕ} {n : ℕ} (h : ∀ x ∈ bases, (f x).length = n) :
    (bases.flatMap f).length = bases.length * n := by
  induction bases with
  | nil => rw [flatMap_nil, length_nil, zero_mul]
  | cons x bases ih =>
    rw [flatMap_cons, length_append, h x mem_cons_self, ih fun y hy => h y (mem_cons_of_mem _ hy),
      length_cons, Nat.succ_mul, Nat.add_comm]

/-- The list that is returned: the pixels, and behind them their other combinations, from the last pixel on. -/
theorem combinations_nodup (hl : submasks 32 mask = 0 :: l) (hm : mask < 2 ^ 32) (hnodup : bases.Nodup)
    (hbeside : ∀ x ∈ bases, x &&& mask = 0) : (bases ++ bases.reverse.flatMap fun x => l.map (x + ·)).Nodup := by
  have hsub : ∀ t ∈ 0 :: l, Submask t mask := by
    intro t ht
    rw [← hl] at ht
    exact (mem_submasks hm).1 ht
  have hlnodup : (0 :: l).Nodup := by
    rw [← hl]
    exact submasks_nodup 32 mask
  rw [nodup_cons] at hlnodup
  rw [nodup_append]
  refine ⟨hnodup, ?_, ?_⟩
  · rw [nodup_flatMap]
    constructor
    · intro x _
      exact hlnodup.2.map fun a b h => add_left_cancel h
    · refine (nodup_reverse.2 hnodup).imp_of_mem fun {x y} hx hy hxy => ?_
      rw [mem_reverse] at hx hy
      intro q hqx hqy
      obtain ⟨t, ht, rfl⟩ := mem_map.1 hqx
      obtain ⟨u, hu, heq⟩ := mem_map.1 hqy
      have hinj := combination_inj (hbeside y hy) (hbeside x hx) (hsub u (mem_cons_of_mem _ hu))
        (hsub t (mem_cons_of_mem _ ht)) heq
      exact hxy hinj.1.symm
  · intro x hx q hq heq
    obtain ⟨y, hy, hqy⟩ := mem_flatMap.1 hq
    rw [mem_reverse] at hy
    obtain ⟨t, ht, rfl⟩ := mem_map.1 hqy
    have hinj := combination_inj (t := 0) (hbeside x hx) (hbeside y hy) (submask_zero_left mask) (hsub t (mem_cons_of_mem _ ht)) heq
    rw [← hinj.2] at ht
    exact hlnodup.1 ht

/-- **The allocation** of groups that were found. -/
theorem allocFound_spec {contig : Bool} (base : ℕ) (hm : mask < 2 ^ 32) (hallowed : Allowed planes contig mask)
    (hcounts : Counts next mask (submasks 32 mask)) (hlength : bases.length = count) (hnodup : bases.Nodup)
    (hgroups : ∀ x ∈ bases, Group c.ent mask x) :
    ∃ r, allocFound c next ⟨mask, base, bases⟩ = .ok r ∧ r.ok = true ∧ Allocated c count planes contig r := by
  obtain ⟨l, hl⟩ := submasks_head 32 mask
  rw [hl] at hcounts
  have hlle : l.length ≤ mask := by
    have hle := submasks_length_le hm
    rw [hl, length_cons] at hle
    omega
  have hmem : ∀ t, t ∈ 0 :: l ↔ Submask t mask := by
    intro t
    rw [← hl]
    exact mem_submasks hm
  have hbeside : ∀ x ∈ bases, x &&& mask = 0 := fun x hx => (hgroups x hx).1
  have hin : ∀ x ∈ bases.reverse, ∀ t ∈ 0 :: l, x + t < c.ent.length := by
    intro x hx t ht
    rw [mem_reverse] at hx
    have hlt := (hgroups x hx).lt
    have hle := ((hmem t).1 ht).le
    omega
  -- the cells, as combinations of the pixels
  have hcells : ∀ q, q ∈ bases ++ bases.reverse.flatMap (fun x => l.map (x + ·)) ↔ ∃ x ∈ bases, ∃ t, Submask t mask ∧ q = x ||| t := by
    intro q
    rw [mem_append, mem_flatMap]
    constructor
    · rintro (hq | ⟨x, hx, hq⟩)
      · exact ⟨q, hq, 0, submask_zero_left mask, (Nat.or_zero q).symm⟩
      · rw [mem_reverse] at hx
        obtain ⟨t, ht, rfl⟩ := mem_map.1 hq
        have hsub := (hmem t).1 (mem_cons_of_mem _ ht)
        exact ⟨x, hx, t, hsub, add_eq_or (and_submask (hbeside x hx) hsub)⟩
    · rintro ⟨x, hx, t, ht, rfl⟩
      rcases mem_cons.1 ((hmem t).2 ht) with rfl | htl
      · rw [Nat.or_zero]
        exact .inl hx
      · refine .inr ⟨x, mem_reverse.2 hx, mem_map.2 ⟨t, htl, ?_⟩⟩
        exact add_eq_or (and_submask (hbeside x hx) ht)
  have hset : ∀ q, q ∈ bases.reverse.flatMap (fun x => (0 :: l).map (x + ·)) ↔ ∃ x ∈ bases, ∃ t, Submask t mask ∧ q = x ||| t := by
    intro q
    rw [mem_flatMap]
    constructor
    · rintro ⟨x, hx, hq⟩
      rw [mem_reverse] at hx
      obtain ⟨t, ht, rfl⟩ := mem_map.1 hq
      exact ⟨x, hx, t, (hmem t).1 ht, add_eq_or (and_submask (hbeside x hx) ((hmem t).1 ht))⟩
    · rintro ⟨x, hx, t, ht, rfl⟩
      exact ⟨x, mem_reverse.2 hx, mem_map.2 ⟨t, (hmem t).2 ht, add_eq_or (and_submask (hbeside x hx) ht)⟩⟩
  have htake : (bases ++ bases.reverse.flatMap fun x => l.map (x + ·)).take count = bases := by
    rw [← hlength]
    exact take_left
  have hfree : ∀ q, (∃ x ∈ bases, ∃ t, Submask t mask ∧ q = x ||| t) → free c.ent q = true := by
    rintro q ⟨x, hx, t, ht, rfl⟩
    exact (hgroups x hx).2 t ht
  rw [allocFound, allocGroups_spec hcounts hlle hin]
  refine ⟨_, rfl, rfl, hallowed, ?_, combinations_nodup hl hm hnodup hbeside, ?_, ?_, ?_, ?_, ?_⟩
  · have hpow : l.length + 1 = 2 ^ planes := by
      have hcount := submasks_length 32 mask
      rwa [hl, hallowed.2.1] at hcount
    have hmap : ∀ x ∈ bases.reverse, (l.map (x + ·)).length = l.length := fun x _ => length_map _
    rw [length_append, length_flatMap_same hmap, length_reverse, hlength, ← hpow, mul_add, mul_one, add_comm]
  · rw [htake]
    exact hbeside
  · rw [htake]
    exact hcells
  · exact fun q hq => hfree q ((hcells q).1 hq)
  · intro q hq
    have hq' := (hcells q).1 hq
    exact privateAt_cell ((hset q).2 hq') (lt_of_free (hfree q hq'))
  · intro i hi
    exact privateAt_other fun h => hi ((hcells i).2 ((hset i).1 h))

/-! ## The easy case -/

/-- The next free cell. -/
theorem skipUsed_spec {q fuel : ℕ} {rest : List ℕ} (h : hits (free ent) ent.length x = q :: rest) (hfuel : ent.length - x < fuel) :
    skipUsed ent fuel x = .ok q ∧ x ≤ q ∧ free ent q = true ∧ rest = hits (free ent) ent.length (q + 1) := by
  induction fuel generalizing x with
  | zero => omega
  | succ fuel ih =>
    by_cases hlt : x < ent.length
    · rw [skipUsed, isFree_inside hlt]
      cases hx : free ent x with
      | true =>
        rw [hits_hit hlt hx] at h
        obtain ⟨rfl, rfl⟩ := cons.inj h
        exact ⟨rfl, le_refl x, hx, rfl⟩
      | false =>
        rw [hits_miss hx] at h
        obtain ⟨heq, hle, hq, hrest⟩ := ih h (by omega)
        exact ⟨heq, by omega, hq, hrest⟩
    · rw [hits_end (Nat.le_of_not_lt hlt)] at h
      exact nomatch h

/-- A cell that is taken is free no more, and the others are as before. -/
theorem hits_taken {q : ℕ} (hq : free ent q = true) :
    hits (free (privateAt ent [q])) (privateAt ent [q]).length q = hits (free ent) ent.length (q + 1) := by
  have htaken : free (privateAt ent [q]) q = false := by
    rw [free, privateAt_cell (mem_singleton.2 rfl) (lt_of_free hq)]
    rfl
  rw [hits_miss htaken, privateAt_length]
  apply filter_congr
  intro i hi
  rw [mem_range'_1] at hi
  rw [free, privateAt_other (by rw [mem_singleton]; omega)]
  rfl

/-- **The easy case** takes the first free cells. -/
theorem easyCase_spec (h : count ≤ (hits (free ent) ent.length x).length) : easyCase count ent x pixels =
    .ok (privateAt ent ((hits (free ent) ent.length x).take count), pixels ++ (hits (free ent) ent.length x).take count) := by
  induction count generalizing ent x pixels with
  | zero =>
    rw [take_zero, append_nil]
    rfl
  | succ count ih =>
    cases hhits : hits (free ent) ent.length x with
    | nil =>
      rw [hhits] at h
      exact absurd h (Nat.not_succ_le_zero count)
    | cons q rest =>
      obtain ⟨hskip, -, hq, hrest⟩ := skipUsed_spec hhits (show ent.length - x < ent.length + 1 by omega)
      rw [hhits, hrest, ← hits_taken hq] at h
      rw [easyCase, hskip, ok_bind, allocPrivate_inside (lt_of_free hq), ok_bind, ih (Nat.le_of_succ_le_succ h), hits_taken hq,
        ← hrest, append_assoc]
      rfl

/-- The first free cells are as many as asked for, with no planes. -/
theorem easyCase_allocated {contig : Bool} (h : count ≤ (hits (free c.ent) c.ent.length 0).length) :
    Allocated c count 0 contig
      ⟨true, privateAt c.ent ((hits (free c.ent) c.ent.length 0).take count), (hits (free c.ent) c.ent.length 0).take count, 0⟩ := by
  have hfree : ∀ q ∈ (hits (free c.ent) c.ent.length 0).take count, free c.ent q = true :=
    fun q hq => (mem_hits.1 (mem_of_mem_take hq)).2
  refine ⟨⟨Nat.two_pow_pos 32, bitCount_zero 32, fun _ => ⟨0, rfl⟩⟩, ?_, ?_, ?_, ?_, hfree, ?_, ?_⟩
  · rw [length_take_of_le h, pow_zero, mul_one]
  · exact hits_nodup.sublist (take_sublist _ _)
  · exact fun x _ => Nat.and_zero x
  · intro q
    rw [take_take, min_self]
    constructor
    · exact fun hq => ⟨q, hq, 0, submask_zero_left 0, (Nat.or_zero q).symm⟩
    · rintro ⟨x, hx, t, ht, rfl⟩
      rw [submask_zero.1 ht, Nat.or_zero]
      exact hx
  · exact fun q hq => privateAt_cell hq (lt_of_free (hfree q hq))
  · exact fun i hi => privateAt_other hi

end Xenia.AllocCP
