import Xenia.Dix.AllocCP

/-!
# What a search over the pixels finds

A test of a pixel says whether all its combinations are free, as long as they are inside the channel (`runFree_spec`, `bitsFree_spec`). So a
scan that leaves out no such pixel finds the first of them (`scan_spec`), and one that leaves the channel faults (`scan_faults`).
-/

namespace Xenia.AllocCP

open Xenia.Lib List Bool

variable {ent : List Entry} {mask base x i count entries fuel : ℕ}

theorem isFree_inside (h : i < ent.length) : isFree ent i = .ok (free ent i) := by
  rw [isFree, free, getElem?_eq_getElem h]
  rfl

theorem isFree_outside (h : ent.length ≤ i) : isFree ent i = .error .fault := by
  rw [isFree, List.getElem?_eq_none h]
  rfl

theorem lt_of_free (h : free ent i = true) : i < ent.length := by
  by_contra hout
  rw [free, List.getElem?_eq_none (Nat.le_of_not_lt hout)] at h
  exact Bool.false_ne_true h

/-! ## Groups -/

def groupFree (ent : List Entry) (mask x : ℕ) : Bool := (x &&& mask == 0) && (submasks 32 mask).all fun t => free ent (x + t)

theorem groupFree_iff (hm : mask < 2 ^ 32) : groupFree ent mask x = true ↔ Group ent mask x := by
  rw [groupFree, Bool.and_eq_true, beq_iff_eq, all_eq_true]
  constructor
  · rintro ⟨hx, hall⟩
    refine ⟨hx, fun t ht => ?_⟩
    rw [← add_eq_or (and_submask hx ht)]
    exact hall t ((mem_submasks hm).2 ht)
  · rintro ⟨hx, hall⟩
    refine ⟨hx, fun t ht => ?_⟩
    have hsub := (mem_submasks hm).1 ht
    rw [add_eq_or (and_submask hx hsub)]
    exact hall t hsub

/-- A group is inside the channel. -/
theorem Group.lt (h : Group ent mask x) : x + mask < ent.length := by
  rw [add_eq_or h.1]
  exact lt_of_free (h.2 mask (submask_refl mask))

/-- The first pixels of the groups from `x` on, below a bound. -/
def hits (p : ℕ → Bool) (bound x : ℕ) : List ℕ := (List.range' x (bound - x)).filter p

section Hits

variable {p : ℕ → Bool} {bound : ℕ}

theorem hits_end (h : bound ≤ x) : hits p bound x = [] := by
  rw [hits, Nat.sub_eq_zero_of_le h]
  rfl

theorem hits_hit (h : x < bound) (hx : p x = true) : hits p bound x = x :: hits p bound (x + 1) := by
  rw [hits, hits, show bound - x = bound - (x + 1) + 1 by omega, range'_succ, filter_cons_of_pos hx]

theorem hits_miss (hx : p x = false) : hits p bound x = hits p bound (x + 1) := by
  by_cases h : x < bound
  · rw [hits, hits, show bound - x = bound - (x + 1) + 1 by omega, range'_succ,
      filter_cons_of_neg (by rw [hx]; exact false_ne_true)]
  · rw [hits_end (by omega), hits_end (by omega)]

theorem hits_skip {y : ℕ} (hxy : x ≤ y) (h : ∀ z, x ≤ z → z < y → p z = false) : hits p bound x = hits p bound y := by
  obtain ⟨d, rfl⟩ := Nat.exists_eq_add_of_le hxy
  induction d with
  | zero => rfl
  | succ d ih =>
    rw [ih (by omega) (fun z hz hlt => h z hz (by omega)), hits_miss (h (x + d) (by omega) (by omega))]
    rfl

theorem mem_hits : i ∈ hits p bound x ↔ (x ≤ i ∧ i < bound) ∧ p i = true := by
  rw [hits, mem_filter, mem_range'_1]
  constructor
  · rintro ⟨hi, hp⟩
    exact ⟨by omega, hp⟩
  · rintro ⟨hi, hp⟩
    exact ⟨by omega, hp⟩

theorem hits_nodup : (hits p bound x).Nodup := List.Pairwise.filter _ nodup_range'

end Hits

def groups (ent : List Entry) (mask : ℕ) : List ℕ := hits (groupFree ent mask) ent.length 0

theorem mem_groups (hm : mask < 2 ^ 32) : x ∈ groups ent mask ↔ Group ent mask x := by
  rw [groups, mem_hits, groupFree_iff hm]
  constructor
  · exact fun h => h.2
  · intro h
    have hlt := h.lt
    exact ⟨by omega, h⟩

theorem hasGroups_iff (hm : mask < 2 ^ 32) : HasGroups ent mask count ↔ count ≤ (groups ent mask).length := by
  constructor
  · rintro ⟨l, rfl, hnodup, hall⟩
    exact (subperm_of_subset hnodup fun x hx => (mem_groups hm).2 (hall x hx)).length_le
  · intro h
    refine ⟨(groups ent mask).take count, length_take_of_le h, ?_, fun x hx => ?_⟩
    · exact hits_nodup.sublist (take_sublist _ _)
    · exact (mem_groups hm).1 (mem_of_mem_take hx)

/-! ## The tests -/

variable {l : List ℕ} {off : ℕ}

/-- The counter stops at the first combination that is not free. -/
theorem checkBits_spec (hcounts : Counts (nextBits mask base) mask (off :: l))
    (hin : ∀ t ∈ off :: l, x + t < ent.length) (hfuel : l.length < fuel) :
    checkBits ent mask base x fuel off = .ok (((off :: l).find? fun t => !free ent (x + t)).getD mask) := by
  induction l generalizing off fuel with
  | nil =>
    obtain ⟨fuel, rfl⟩ := Nat.exists_eq_succ_of_ne_zero (show fuel ≠ 0 by omega)
    rw [checkBits, isFree_inside (hin off mem_cons_self), find?_cons]
    cases free ent (x + off) with
    | false => rfl
    | true => exact if_pos hcounts ▸ congrArg Except.ok hcounts
  | cons b l ih =>
    obtain ⟨fuel, rfl⟩ := Nat.exists_eq_succ_of_ne_zero (show fuel ≠ 0 by omega)
    obtain ⟨hne, hnext, hrest⟩ := hcounts
    rw [checkBits, isFree_inside (hin off mem_cons_self), ok_bind, find?_cons]
    cases free ent (x + off) with
    | false => rfl
    | true =>
      have hin' : ∀ t ∈ b :: l, x + t < ent.length := fun t ht => hin t (mem_cons_of_mem _ ht)
      have ih' := ih hrest hin' (Nat.lt_of_succ_lt_succ hfuel)
      rw [if_neg hne, hnext, ok_bind, ih']
      rfl

theorem bitsFree_spec (hm : mask < 2 ^ 32) (hin : x + mask < ent.length) :
    bitsFree ent mask (low 32 mask) x = .ok (groupFree ent mask x) := by
  rw [bitsFree, groupFree]
  by_cases hx : x &&& mask = 0
  · obtain ⟨l, hl⟩ := submasks_head 32 mask
    have hcounts : Counts (nextBits mask (low 32 mask)) mask (0 :: l) := by
      rw [← hl]
      exact counts_carry hm (by omega) (by omega)
    have hle : ∀ t ∈ 0 :: l, t ≤ mask := by
      intro t ht
      rw [← hl] at ht
      exact ((mem_submasks hm).1 ht).le
    have hlength := submasks_length_le hm
    rw [hl, length_cons] at hlength
    have hin' : ∀ t ∈ 0 :: l, x + t < ent.length := fun t ht => Nat.lt_of_le_of_lt (Nat.add_le_add_left (hle t ht) x) hin
    have hcheck : checkBits ent mask (low 32 mask) x (mask + 1) 0 = _ := checkBits_spec hcounts hin' (by omega)
    rw [hcheck, ok_bind, hl, hx]
    cases hfind : (0 :: l).find? fun t => !free ent (x + t) with
    | none =>
      -- all are free, the mask itself too
      have hall : (0 :: l).all (fun t => free ent (x + t)) = true := by
        rw [all_eq_true]
        intro t ht
        have hnot := List.find?_eq_none.1 hfind t ht
        simpa only [Bool.not_eq_true', Bool.not_eq_false] using hnot
      have hlast : mask ∈ 0 :: l := by
        rw [← hl]
        exact (mem_submasks hm).2 (submask_refl mask)
      rw [Option.getD_none, if_neg (Nat.lt_irrefl mask), isFree_inside hin, hall]
      rw [all_eq_true] at hall
      rw [hall mask hlast]
      rfl
    | some t =>
      have ht : t ∈ 0 :: l := mem_of_find?_eq_some hfind
      have hused : free ent (x + t) = false := by
        have := List.find?_some hfind
        simpa only [Bool.not_eq_true'] using this
      have hall : (0 :: l).all (fun t => free ent (x + t)) = false := by
        rw [all_eq_false]
        exact ⟨t, ht, by rw [hused]; exact Bool.false_ne_true⟩
      rw [Option.getD_some, hall]
      by_cases hlt : t < mask
      · rw [if_pos hlt]
        rfl
      · obtain rfl : t = mask := Nat.le_antisymm (hle t ht) (Nat.le_of_not_lt hlt)
        rw [if_neg hlt, isFree_inside hin, hused]
        rfl
  · have hbeq : (x &&& mask == 0) = false := beq_eq_false_iff_ne.2 hx
    rw [if_pos hx, hbeq]
    rfl

/-- A run of adjacent bits stops at the first combination that is not free. -/
theorem checkRun_spec (hbase : 0 < base) (hcounts : Counts (fun a => .ok (a + base)) mask (off :: l))
    (hle : ∀ t ∈ off :: l, t ≤ mask) (hin : ∀ t ∈ off :: l, x + t < ent.length) (hfuel : l.length + 1 < fuel) :
    checkRun ent (x + mask + base) base fuel (x + off) =
      .ok (x + ((off :: l).find? fun t => !free ent (x + t)).getD (mask + base)) := by
  induction l generalizing off fuel with
  | nil =>
    obtain ⟨fuel, rfl⟩ := Nat.exists_eq_add_of_le (show 2 ≤ fuel by simp only [length_nil] at hfuel; omega)
    obtain rfl : off = mask := hcounts
    rw [add_comm 2, checkRun, if_neg (by omega), isFree_inside (hin off mem_cons_self), ok_bind, find?_cons]
    cases free ent (x + off) with
    | false => rfl
    | true =>
      rw [if_pos rfl, checkRun, if_pos rfl, add_assoc]
      rfl
  | cons b l ih =>
    obtain ⟨fuel, rfl⟩ := Nat.exists_eq_succ_of_ne_zero (show fuel ≠ 0 by omega)
    obtain ⟨hne, hnext, hrest⟩ := hcounts
    obtain rfl : off + base = b := Except.ok.inj hnext
    have hoff := hle off mem_cons_self
    rw [checkRun, if_neg (by omega), isFree_inside (hin off mem_cons_self), ok_bind, find?_cons]
    cases free ent (x + off) with
    | false => rfl
    | true =>
      have hle' : ∀ t ∈ (off + base) :: l, t ≤ mask := fun t ht => hle t (mem_cons_of_mem _ ht)
      have hin' : ∀ t ∈ (off + base) :: l, x + t < ent.length := fun t ht => hin t (mem_cons_of_mem _ ht)
      have ih' := ih hrest hle' hin' (Nat.lt_of_succ_lt_succ hfuel)
      rw [add_assoc x off base, ih']
      rfl

/-- A run that leaves the channel faults, or stops before. -/
theorem checkRun_outside (hbase : 0 < base) (hcounts : Counts (fun a => .ok (a + base)) mask (off :: l))
    (hle : ∀ t ∈ off :: l, t ≤ mask) (hout : ent.length ≤ x + mask) (hfuel : l.length < fuel) :
    checkRun ent (x + mask + base) base fuel (x + off) = .error .fault ∨
      ∃ t ≤ mask, checkRun ent (x + mask + base) base fuel (x + off) = .ok (x + t) := by
  induction l generalizing off fuel with
  | nil =>
    obtain ⟨fuel, rfl⟩ := Nat.exists_eq_succ_of_ne_zero (show fuel ≠ 0 by omega)
    obtain rfl : off = mask := hcounts
    rw [checkRun, if_neg (by omega), isFree_outside hout]
    exact .inl rfl
  | cons b l ih =>
    obtain ⟨fuel, rfl⟩ := Nat.exists_eq_succ_of_ne_zero (show fuel ≠ 0 by omega)
    obtain ⟨hne, hnext, hrest⟩ := hcounts
    obtain rfl : off + base = b := Except.ok.inj hnext
    have hoff := hle off mem_cons_self
    rw [checkRun, if_neg (by omega)]
    by_cases hin : x + off < ent.length
    · rw [isFree_inside hin, ok_bind]
      cases free ent (x + off) with
      | false => exact .inr ⟨off, hoff, rfl⟩
      | true =>
        rw [add_assoc x off base]
        exact ih hrest (fun t ht => hle t (mem_cons_of_mem _ ht)) (Nat.lt_of_succ_lt_succ hfuel)
    · rw [isFree_outside (Nat.le_of_not_lt hin)]
      exact .inl rfl

section Run

variable {p s : ℕ}

/-- The combinations of adjacent bits, as the run goes through them. -/
theorem run_counts (h : s + p ≤ 32) : ∃ l, submasks 32 (adjacent p s) = 0 :: l ∧
    Counts (fun a => .ok (a + 2 ^ s)) (adjacent p s) (0 :: l) ∧ (∀ t ∈ 0 :: l, t ≤ adjacent p s) ∧ l.length ≤ adjacent p s := by
  have hm := adjacent_lt h
  obtain ⟨l, hl⟩ := submasks_head 32 (adjacent p s)
  have hlength := submasks_length_le hm
  rw [hl, length_cons] at hlength
  refine ⟨l, hl, ?_, fun t ht => ?_, by omega⟩
  · rw [← hl]
    exact counts_adjacent h
  · rw [← hl] at ht
    exact ((mem_submasks hm).1 ht).le

theorem runFree_spec (h : s + p ≤ 32) (hx : x &&& adjacent p s = 0) (hin : x + adjacent p s < ent.length) :
    runFree ent (adjacent p s) (2 ^ s) x = .ok (groupFree ent (adjacent p s) x) := by
  have hpos := Nat.two_pow_pos s
  obtain ⟨l, hl, hcounts, hle, hlength⟩ := run_counts h
  have hin' : ∀ t ∈ 0 :: l, x + t < ent.length := fun t ht => Nat.lt_of_le_of_lt (Nat.add_le_add_left (hle t ht) x) hin
  have hcheck : checkRun ent (x + adjacent p s + 2 ^ s) (2 ^ s) (adjacent p s + 2 ^ s + 1) x = _ :=
    checkRun_spec hpos hcounts hle hin' (by omega)
  rw [runFree, hcheck, ok_bind, groupFree, hx, hl]
  cases hfind : (0 :: l).find? fun t => !free ent (x + t) with
  | none =>
    have hall : (0 :: l).all (fun t => free ent (x + t)) = true := by
      rw [all_eq_true]
      intro t ht
      have hnot := find?_eq_none.1 hfind t ht
      simpa only [not_eq_true', not_eq_false] using hnot
    rw [hall, Option.getD_none, add_assoc, beq_self_eq_true]
    rfl
  | some t =>
    have ht : t ∈ 0 :: l := mem_of_find?_eq_some hfind
    have hle' := hle t ht
    have hused : free ent (x + t) = false := by
      have := find?_some hfind
      simpa only [not_eq_true'] using this
    have hall : (0 :: l).all (fun t => free ent (x + t)) = false := by
      rw [all_eq_false]
      exact ⟨t, ht, by rw [hused]; exact false_ne_true⟩
    have hbeq : (x + t == x + adjacent p s + 2 ^ s) = false := beq_eq_false_iff_ne.2 (by omega)
    rw [hall, Option.getD_some, hbeq]
    rfl

theorem runFree_outside (h : s + p ≤ 32) (hout : ent.length ≤ x + adjacent p s) :
    runFree ent (adjacent p s) (2 ^ s) x = .error .fault ∨ runFree ent (adjacent p s) (2 ^ s) x = .ok false := by
  have hpos := Nat.two_pow_pos s
  obtain ⟨l, -, hcounts, hle, hlength⟩ := run_counts h
  have hcheck : checkRun ent (x + adjacent p s + 2 ^ s) (2 ^ s) (adjacent p s + 2 ^ s + 1) x = .error .fault ∨
      ∃ t ≤ adjacent p s, checkRun ent (x + adjacent p s + 2 ^ s) (2 ^ s) (adjacent p s + 2 ^ s + 1) x = .ok (x + t) :=
    checkRun_outside hpos hcounts hle hout (by omega)
  rw [runFree]
  rcases hcheck with hfault | ⟨t, ht, hok⟩
  · rw [hfault]
    exact .inl rfl
  · have hbeq : (x + t == x + adjacent p s + 2 ^ s) = false := beq_eq_false_iff_ne.2 (by omega)
    rw [hok, ok_bind, hbeq]
    exact .inr rfl

/-- The first cell of the run is outside. -/
theorem runFree_beyond (hout : ent.length ≤ x) : runFree ent (adjacent p s) (2 ^ s) x = .error .fault := by
  have hpos := Nat.two_pow_pos s
  rw [runFree, checkRun, if_neg (by omega), isFree_outside hout]
  rfl

end Run

/-! ## The scan -/

section Scan

variable {test : ℕ → Outcome Bool} {next : ℕ → ℕ} {p : ℕ → Bool} {visited : ℕ → Prop} {bound : ℕ} {found : List ℕ}

/-- The pixels the scan leaves out have no group. -/
structure Steps (next : ℕ → ℕ) (p : ℕ → Bool) (visited : ℕ → Prop) : Prop where
  again : ∀ x, visited x → visited (next x)
  later : ∀ x, x < next x
  missed : ∀ x y, visited x → x < y → y < next x → p y = false

/-- **The scan up to a bound**: it found enough there, or goes on behind it. -/
theorem scan_upto (hsteps : Steps next p visited) (htest : ∀ x, visited x → x < bound → test x = .ok (p x)) (hbound : bound ≤ entries)
    (hx : visited x) (hfound : found.length < count) (hfuel : entries - x < fuel) :
    (count ≤ (found ++ hits p bound x).length ∧
      scan test next count entries fuel x found = .ok (some ((found ++ hits p bound x).take count))) ∨
    ((found ++ hits p bound x).length < count ∧ ∃ x' fuel', bound ≤ x' ∧ visited x' ∧ entries - x' < fuel' ∧
      (x' = x ∨ ∃ y, visited y ∧ y < bound ∧ x' = next y) ∧
      scan test next count entries fuel x found = scan test next count entries fuel' x' (found ++ hits p bound x)) := by
  induction fuel generalizing x found with
  | zero => omega
  | succ fuel ih =>
    by_cases hlt : x < bound
    · have hlater := hsteps.later x
      have hskip : hits p bound (x + 1) = hits p bound (next x) :=
        hits_skip hlater fun z hz hzlt => hsteps.missed x z hx hz hzlt
      rw [scan, if_pos (by omega), htest x hx hlt, ok_bind]
      cases hp : p x with
      | true =>
        have hhits : found ++ hits p bound x = found ++ [x] ++ hits p bound (next x) := by
          rw [hits_hit hlt hp, hskip, append_assoc]
          rfl
        rw [if_pos rfl, hhits]
        by_cases hfull : (found ++ [x]).length = count
        · have htake : (found ++ [x] ++ hits p bound (next x)).take count = found ++ [x] := by
            rw [← hfull, take_left']
            rfl
          refine .inl ⟨?_, ?_⟩
          · rw [length_append, hfull]
            exact Nat.le_add_right _ _
          · rw [if_pos hfull, htake]
        · rw [if_neg hfull]
          have hless : (found ++ [x]).length < count := by
            rw [length_append, length_singleton] at hfull ⊢
            omega
          refine (ih (hsteps.again x hx) hless (by omega)).imp id ?_
          rintro ⟨hfew, x', fuel', hx', hv, hf, hwhere, heq⟩
          refine ⟨hfew, x', fuel', hx', hv, hf, .inr ?_, heq⟩
          rcases hwhere with rfl | hy
          · exact ⟨x, hx, hlt, rfl⟩
          · exact hy
      | false =>
        rw [hits_miss hp, hskip]
        refine (ih (hsteps.again x hx) hfound (by omega)).imp id ?_
        rintro ⟨hfew, x', fuel', hx', hv, hf, hwhere, heq⟩
        refine ⟨hfew, x', fuel', hx', hv, hf, .inr ?_, heq⟩
        rcases hwhere with rfl | hy
        · exact ⟨x, hx, hlt, rfl⟩
        · exact hy
    · rw [hits_end (Nat.le_of_not_lt hlt), append_nil]
      exact .inr ⟨hfound, x, fuel + 1, Nat.le_of_not_lt hlt, hx, hfuel, .inl rfl, rfl⟩

/-- **A scan inside the channel** finds the first groups. -/
theorem scan_spec (hsteps : Steps next p visited) (htest : ∀ x, visited x → x < entries → test x = .ok (p x)) (hx : visited 0)
    (hcount : 0 < count) : scan test next count entries (entries + 1) 0 [] =
      .ok (if count ≤ (hits p entries 0).length then some ((hits p entries 0).take count) else none) := by
  rcases scan_upto hsteps htest (le_refl entries) hx (show ([] : List ℕ).length < count from hcount)
      (Nat.lt_succ_self (entries - 0)) with
    ⟨hmany, heq⟩ | ⟨hfew, x', fuel', hx', -, hfuel', -, heq⟩
  · rw [nil_append] at hmany heq
    rw [if_pos hmany]
    exact heq
  · rw [nil_append] at hfew heq
    rw [if_neg (Nat.not_le_of_lt hfew)]
    obtain ⟨fuel', rfl⟩ := Nat.exists_eq_succ_of_ne_zero (show fuel' ≠ 0 by omega)
    have hend : scan test next count entries (fuel' + 1) x' (hits p entries 0) = .ok none := by
      rw [scan, if_neg (Nat.not_lt_of_le hx')]
    exact heq.trans hend

/-- **A scan that leaves the channel** faults: no pixel ends it before. -/
theorem scan_faults (hlater : ∀ x, x < next x) (hmost : ∀ x, next x ≤ x + 1 + mask)
    (hin : ∀ x, x < bound → test x = .error .fault ∨ test x = .ok false) (hout : ∀ x, bound ≤ x → test x = .error .fault)
    (hentries : bound + mask < entries) (hx : x ≤ bound + mask) (hfuel : entries - x < fuel) :
    scan test next count entries fuel x found = .error .fault := by
  induction fuel generalizing x with
  | zero => omega
  | succ fuel ih =>
    have hnext := hlater x
    have hle := hmost x
    rw [scan, if_pos (by omega)]
    by_cases hlt : x < bound
    · rcases hin x hlt with hfault | hused
      · rw [hfault]
        rfl
      · rw [hused, ok_bind]
        exact ih (by omega) (by omega)
    · rw [hout x (Nat.le_of_not_lt hlt)]
      rfl

end Scan

end Xenia.AllocCP
