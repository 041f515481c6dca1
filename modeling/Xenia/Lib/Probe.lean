import Mathlib.Tactic

/-!
# Open addressing with deleted slots

A search goes through the slots of a table in steps of a fixed width. It ends at a hit, at an empty
slot, or where it comes back to the first deleted slot it saw; in the last two cases it answers with
that deleted slot if there is one. `search_spec` says that it ends when the width has no factor in
common with the size and not all slots are misses, and what it found: a hit, if one can be reached
without crossing an empty slot, and else a free slot that can.
-/

namespace Xenia.Lib

/-- What a search sees in a slot. -/
inductive Probed
  | empty
  | deleted
  | hit
  | miss
  deriving DecidableEq

variable {slot : ℕ → Probed} {size step start fuel i k m : ℕ} {del : Option ℕ}

/-- The slot after `i`. -/
def advance (size step i : ℕ) : ℕ := if i + step ≥ size then i + step - size else i + step

def search (slot : ℕ → Probed) (size step : ℕ) : ℕ → ℕ → Option ℕ → Option ℕ
  | 0, _, _ => none
  | fuel + 1, i, del =>
    match slot i with
    | .empty => some (del.getD i)
    | .hit => some i
    | .miss => search slot size step fuel (advance size step i) del
    | .deleted =>
      match del with
      | none => search slot size step fuel (advance size step i) (some i)
      | some d => if i = d then some d else search slot size step fuel (advance size step i) (some d)

/-- The slot that the search looks at in its turn `k`. -/
def probe (size step start k : ℕ) : ℕ := (start + k * step) % size

theorem probe_lt (h : 0 < size) : probe size step start k < size := Nat.mod_lt _ h

theorem probe_zero (h : start < size) : probe size step start 0 = start := by
  simp [probe, Nat.mod_eq_of_lt h]

theorem advance_probe (hstep : step < size) :
    advance size step (probe size step start k) = probe size step start (k + 1) := by
  have hlt : probe size step start k < size := probe_lt (by omega)
  have hmod : probe size step start (k + 1) = (probe size step start k + step) % size := by
    unfold probe
    rw [Nat.mod_add_mod]
    congr 1
    ring
  rw [hmod]
  unfold advance
  split
  · next hge => rw [Nat.mod_eq_sub_mod hge, Nat.mod_eq_of_lt (by omega)]
  · next hlt => rw [Nat.mod_eq_of_lt (by omega)]

/-- Two turns look at the same slot when they are whole rounds apart, and only then. -/
theorem probe_eq (hc : Nat.Coprime step size) (h : probe size step start k = probe size step start m) :
    k % size = m % size := by
  have hadd : k * step ≡ m * step [MOD size] := Nat.ModEq.add_left_cancel' start h
  exact Nat.ModEq.cancel_right_of_coprime (by rw [Nat.gcd_comm]; exact hc) hadd

variable (start) in
/-- A round looks at every slot. -/
theorem probe_surj (hc : Nat.Coprime step size) (hi : i < size) : ∃ k < size, probe size step start k = i := by
  have hpos : 0 < size := by omega
  let f : Fin size → Fin size := fun k => ⟨probe size step start k, probe_lt hpos⟩
  have hinj : Function.Injective f := by
    intro j k h
    have := probe_eq hc (Fin.mk.inj h)
    rw [Nat.mod_eq_of_lt j.isLt, Nat.mod_eq_of_lt k.isLt] at this
    exact Fin.ext this
  obtain ⟨k, hk⟩ := Finite.surjective_of_injective hinj ⟨i, hi⟩
  exact ⟨k, k.isLt, congrArg Fin.val hk⟩

/-- The slots looked at before turn `k` are not empty. -/
def Crossed (slot : ℕ → Probed) (p : ℕ → ℕ) (k : ℕ) : Prop := ∀ j < k, slot (p j) ≠ .empty

/-- What a search that ends finds: a hit, or a free slot when no hit can be reached. -/
inductive Found (slot : ℕ → Probed) (p : ℕ → ℕ) : ℕ → Prop
  | hit (k : ℕ) (hslot : slot (p k) = .hit) (hpath : Crossed slot p k) : Found slot p (p k)
  | free (k : ℕ) (hslot : slot (p k) = .empty ∨ slot (p k) = .deleted) (hpath : Crossed slot p k)
    (hnone : ∀ m, Crossed slot p m → slot (p m) ≠ .hit) : Found slot p (p k)

/-- The search in its turn `k`: no hit and no empty slot so far, `del` is the first deleted slot and
has not come up again. -/
structure Searching (slot : ℕ → Probed) (p : ℕ → ℕ) (k : ℕ) (del : Option ℕ) : Prop where
  seen : ∀ j < k, slot (p j) = .deleted ∨ slot (p j) = .miss
  fresh : del = none → ∀ j < k, slot (p j) = .miss
  first : ∀ d, del = some d → ∃ j < k, p j = d ∧ slot d = .deleted ∧ (∀ m < j, slot (p m) = .miss) ∧
    ∀ m, j < m → m < k → p m ≠ d

variable {p : ℕ → ℕ} {d : ℕ}

theorem Searching.crossed (h : Searching slot p k del) : Crossed slot p k := by
  intro j hj hempty
  rcases h.seen j hj with hslot | hslot <;> rw [hempty] at hslot <;> cases hslot

/-- Beyond an empty slot nothing is reached, and before it there was no hit. -/
theorem Searching.no_hit (h : Searching slot p k del) (hslot : slot (p k) = .empty) :
    ∀ m, Crossed slot p m → slot (p m) ≠ .hit := by
  intro m hm hhit
  rcases lt_trichotomy m k with hlt | rfl | hgt
  · rcases h.seen m hlt with hseen | hseen <;> rw [hhit] at hseen <;> cases hseen
  · rw [hslot] at hhit
    cases hhit
  · exact hm k hgt hslot

theorem Searching.miss (h : Searching slot p k del) (hslot : slot (p k) = .miss) :
    Searching slot p (k + 1) del := by
  refine ⟨fun j hj => ?_, fun hdel j hj => ?_, fun d hdel => ?_⟩
  · rcases Nat.lt_succ_iff_lt_or_eq.1 hj with hj | rfl
    · exact h.seen j hj
    · exact .inr hslot
  · rcases Nat.lt_succ_iff_lt_or_eq.1 hj with hj | rfl
    · exact h.fresh hdel j hj
    · exact hslot
  · obtain ⟨j, hj, hd, hdeleted, hbefore, hagain⟩ := h.first d hdel
    refine ⟨j, by omega, hd, hdeleted, hbefore, fun m hjm hm heq => ?_⟩
    rcases Nat.lt_succ_iff_lt_or_eq.1 hm with hm | rfl
    · exact hagain m hjm hm heq
    · rw [heq, hdeleted] at hslot
      cases hslot

/-- The first deleted slot. -/
theorem Searching.deleted_first (h : Searching slot p k none) (hslot : slot (p k) = .deleted) :
    Searching slot p (k + 1) (some (p k)) := by
  refine ⟨fun j hj => ?_, fun hdel => (by cases hdel), ?_⟩
  · rcases Nat.lt_succ_iff_lt_or_eq.1 hj with hj | rfl
    · exact h.seen j hj
    · exact .inl hslot
  · rintro d ⟨⟩
    exact ⟨k, by omega, rfl, hslot, h.fresh rfl, fun m hkm hm => by omega⟩

/-- Another one. -/
theorem Searching.deleted_next (h : Searching slot p k (some d)) (hslot : slot (p k) = .deleted) (hne : p k ≠ d) :
    Searching slot p (k + 1) (some d) := by
  refine ⟨fun j hj => ?_, fun hdel => (by cases hdel), ?_⟩
  · rcases Nat.lt_succ_iff_lt_or_eq.1 hj with hj | rfl
    · exact h.seen j hj
    · exact .inl hslot
  · rintro d' ⟨⟩
    obtain ⟨j, hj, hd, hdeleted, hbefore, hagain⟩ := h.first d rfl
    refine ⟨j, by omega, hd, hdeleted, hbefore, fun m hjm hm => ?_⟩
    rcases Nat.lt_succ_iff_lt_or_eq.1 hm with hm | rfl
    · exact hagain m hjm hm
    · exact hne

section

variable (hc : Nat.Coprime step size) (hstep : step < size)

include hc hstep

/-- A deleted slot comes up again after a whole round, when all slots have been seen. -/
theorem Searching.round (h : Searching slot (probe size step start) k (some d))
    (hback : probe size step start k = d) (m : ℕ) : slot (probe size step start m) ≠ .hit := by
  obtain ⟨j, hj, hd, -⟩ := h.first d rfl
  have hmod := probe_eq hc (hback.trans hd.symm)
  have hround : size ≤ k := by
    by_contra hlt
    rw [Nat.mod_eq_of_lt (by omega), Nat.mod_eq_of_lt (by omega)] at hmod
    omega
  have hlt : probe size step start m < size := probe_lt (by omega)
  obtain ⟨n, hn, hsame⟩ := probe_surj start hc hlt
  rw [← hsame]
  intro hhit
  rcases h.seen n (by omega) with hseen | hseen <;> rw [hhit] at hseen <;> cases hseen

/-- The search does not go on for longer than two rounds. -/
theorem Searching.lt (h : Searching slot (probe size step start) k del) (hfree : ∃ i < size, slot i ≠ .miss) :
    k < 2 * size := by
  have hround : ∀ j, probe size step start (j + size) = probe size step start j := by
    intro j
    unfold probe
    rw [Nat.add_mul, ← Nat.add_assoc, Nat.add_mul_mod_self_left]
  obtain ⟨i, hi, hslot⟩ := hfree
  obtain ⟨n, hn, hprobe⟩ := probe_surj start hc hi
  by_contra hle
  cases hdel : del with
  | none => exact hslot (hprobe ▸ h.fresh hdel n (by omega))
  | some d =>
    -- the first deleted slot was seen in the first round, and again in the second
    obtain ⟨j, hj, hd, hdeleted, hbefore, hagain⟩ := h.first d hdel
    by_cases hjn : j < size
    · exact hagain (j + size) (by omega) (by omega) ((hround j).trans hd)
    · have hearlier := hbefore (j - size) (by omega)
      rw [← hround, Nat.sub_add_cancel (by omega), hd, hdeleted] at hearlier
      cases hearlier

/-- **The search ends**, and what it finds. -/
theorem search_found (hfree : ∃ i < size, slot i ≠ .miss) :
    ∀ {fuel k del}, Searching slot (probe size step start) k del → 2 * size ≤ fuel + k →
      ∃ r, search slot size step fuel (probe size step start k) del = some r ∧
        Found slot (probe size step start) r := by
  intro fuel
  induction fuel with
  | zero =>
    intro k del h hfuel
    have := h.lt hc hstep hfree
    omega
  | succ fuel ih =>
    intro k del h hfuel
    unfold search
    rw [advance_probe hstep]
    split
    · next hslot =>
      cases hdel : del with
      | none => exact ⟨_, rfl, .free k (.inl hslot) h.crossed (h.no_hit hslot)⟩
      | some d =>
        obtain ⟨j, hj, hd, hdeleted, -⟩ := h.first d hdel
        refine ⟨_, rfl, ?_⟩
        rw [← hd]
        exact .free j (.inr (hd ▸ hdeleted)) (fun m hm => h.crossed m (by omega)) (h.no_hit hslot)
    · next hslot => exact ⟨_, rfl, .hit k hslot h.crossed⟩
    · next hslot => exact ih (h.miss hslot) (by omega)
    · next hslot =>
      cases del with
      | none => exact ih (h.deleted_first hslot) (by omega)
      | some d =>
        dsimp only
        split
        · next hback =>
          refine ⟨_, rfl, ?_⟩
          rw [← hback]
          exact .free k (.inr hslot) h.crossed fun m _ => h.round hc hstep hback m
        · next hne => exact ih (h.deleted_next hslot hne) (by omega)

theorem search_spec (hstart : start < size) (hfree : ∃ i < size, slot i ≠ .miss) (hfuel : 2 * size ≤ fuel) :
    ∃ r < size, search slot size step fuel start none = some r ∧ Found slot (probe size step start) r := by
  have hinit : Searching slot (probe size step start) 0 none :=
    ⟨fun j hj => by omega, fun _ j hj => by omega, fun d hd => by cases hd⟩
  obtain ⟨r, hr, hfound⟩ := search_found hc hstep hfree hinit hfuel
  rw [probe_zero hstart] at hr
  refine ⟨r, ?_, hr, hfound⟩
  cases hfound <;> exact probe_lt (by omega)

end

end Xenia.Lib
