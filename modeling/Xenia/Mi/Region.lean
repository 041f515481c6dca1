import Xenia.Lib.Tiling

/-!
# Regions

A region is a list of boxes (`RegionRects`); what it stands for is the set of the points in its
boxes. `RegionOps` is a set of region primitives (`RegionUnion`, `RegionSubtract`, `RegionAppend`,
`RegionValidate`) that are exact on these point sets. `bandOps` is one: it unites by concatenation and cuts a
box out of another by bands.
-/

namespace Xenia.Mi

open List

/-- `BoxRec`. -/
structure BoxRec where
  x1 : Int16
  y1 : Int16
  x2 : Int16
  y2 : Int16
deriving DecidableEq, Repr

def BoxRec.points (b : BoxRec) : Set (ℤ × ℤ) :=
  {p | b.x1.toInt ≤ p.1 ∧ p.1 < b.x2.toInt ∧ b.y1.toInt ≤ p.2 ∧ p.2 < b.y2.toInt}

abbrev Region := List BoxRec

def Region.points (r : Region) : Set (ℤ × ℤ) := {p | ∃ b ∈ r, p ∈ b.points}

/-- A box of a region has points in it. -/
def BoxRec.Valid (b : BoxRec) : Prop := b.x1.toInt < b.x2.toInt ∧ b.y1.toInt < b.y2.toInt

def Region.Valid (r : Region) : Prop := ∀ b ∈ r, b.Valid

instance : DecidablePred BoxRec.Valid := fun b =>
  inferInstanceAs (Decidable (b.x1.toInt < b.x2.toInt ∧ b.y1.toInt < b.y2.toInt))

instance (r : Region) : Decidable r.Valid := inferInstanceAs (Decidable (∀ b ∈ r, b.Valid))

/-- The region primitives, exact on point sets. -/
structure RegionOps where
  RegionUnion : Region → Region → Region
  RegionSubtract : Region → Region → Region
  RegionAppend : Region → Region → Region
  RegionValidate : Region → Region
  points_union (r s : Region) : (RegionUnion r s).points = r.points ∪ s.points
  points_subtract (r s : Region) : (RegionSubtract r s).points = r.points \ s.points
  points_append (r s : Region) : (RegionAppend r s).points = r.points ∪ s.points
  points_validate (r : Region) : (RegionValidate r).points = r.points
  valid_union (r s : Region) : r.Valid → s.Valid → (RegionUnion r s).Valid
  valid_subtract (r s : Region) : r.Valid → (RegionSubtract r s).Valid
  valid_append (r s : Region) : r.Valid → s.Valid → (RegionAppend r s).Valid
  valid_validate (r : Region) : r.Valid → (RegionValidate r).Valid

variable {a b : BoxRec} {r s : Region} {p : ℤ × ℤ}

theorem BoxRec.mem_points :
    p ∈ b.points ↔ b.x1.toInt ≤ p.1 ∧ p.1 < b.x2.toInt ∧ b.y1.toInt ≤ p.2 ∧ p.2 < b.y2.toInt := .rfl

@[simp] theorem Region.points_nil : Region.points [] = ∅ := by
  ext p
  simp [Region.points]

@[simp] theorem Region.points_cons : Region.points (b :: r) = b.points ∪ Region.points r := by
  ext p
  simp [Region.points]

@[simp] theorem Region.points_append : Region.points (r ++ s) = Region.points r ∪ Region.points s := by
  ext p
  simp [Region.points, or_and_right, exists_or]

theorem Region.Valid.append (hr : r.Valid) (hs : s.Valid) : Region.Valid (r ++ s) := by
  intro b hb
  rcases mem_append.1 hb with hb | hb
  · exact hr b hb
  · exact hs b hb

theorem Region.valid_singleton (h : b.Valid) : Region.Valid [b] := by
  intro c hc
  rwa [mem_singleton.1 hc]

theorem Region.subset_of_mem (h : b ∈ r) : b.points ⊆ Region.points r := fun _ hp => ⟨b, h, hp⟩

/-! ## Cutting by bands -/

/-- The lesser and the greater of two coordinates. -/
def lesser (x y : Int16) : Int16 := if x.toInt ≤ y.toInt then x else y

def greater (x y : Int16) : Int16 := if x.toInt ≤ y.toInt then y else x

theorem toInt_lesser (x y : Int16) : (lesser x y).toInt = min x.toInt y.toInt := by
  unfold lesser
  split <;> omega

theorem toInt_greater (x y : Int16) : (greater x y).toInt = max x.toInt y.toInt := by
  unfold greater
  split <;> omega

/-- The band of `a` above `b`, the one below it, and what is left and right of `b` between them. -/
def cut (a b : BoxRec) : Region :=
  [⟨a.x1, a.y1, a.x2, lesser a.y2 b.y1⟩,
   ⟨a.x1, greater a.y1 b.y1, lesser a.x2 b.x1, lesser a.y2 b.y2⟩,
   ⟨greater a.x1 b.x2, greater a.y1 b.y1, a.x2, lesser a.y2 b.y2⟩,
   ⟨a.x1, greater a.y1 b.y2, a.x2, a.y2⟩].filter fun c => c.x1.toInt < c.x2.toInt ∧ c.y1.toInt < c.y2.toInt

theorem mem_cut : p ∈ (cut a b).points ↔ p ∈ a.points ∧ p ∉ b.points := by
  have hfilter : ∀ l : Region, p ∈ Region.points (l.filter fun c => c.x1.toInt < c.x2.toInt ∧ c.y1.toInt < c.y2.toInt)
      ↔ p ∈ Region.points l := by
    intro l
    refine ⟨fun ⟨c, hc, hp⟩ => ⟨c, (mem_filter.1 hc).1, hp⟩, fun ⟨c, hc, hp⟩ => ⟨c, ?_, hp⟩⟩
    rw [BoxRec.mem_points] at hp
    exact mem_filter.2 ⟨hc, by simp only [decide_eq_true_eq]; omega⟩
  unfold cut
  rw [hfilter]
  simp only [Region.points_cons, Region.points_nil, Set.mem_union, Set.mem_empty_iff_false, BoxRec.mem_points,
    toInt_lesser, toInt_greater, or_false]
  constructor
  · rintro (h | h | h | h)
    all_goals omega
  · rintro ⟨hin, hout⟩
    omega

/-- The boxes of the second region are cut out one after the other. -/
def cutAll (r s : Region) : Region := s.foldl (fun r b => r.flatMap fun a => cut a b) r

theorem points_cutAll : (cutAll r s).points = r.points \ s.points := by
  unfold cutAll
  induction s generalizing r with
  | nil => simp
  | cons b s ih =>
    rw [foldl_cons, ih]
    have hone : Region.points (r.flatMap fun a => cut a b) = r.points \ b.points := by
      ext p
      constructor
      · rintro ⟨c, hc, hp⟩
        obtain ⟨a, ha, hc⟩ := mem_flatMap.1 hc
        obtain ⟨hin, hout⟩ := mem_cut.1 ⟨c, hc, hp⟩
        exact ⟨⟨a, ha, hin⟩, hout⟩
      · rintro ⟨⟨a, ha, hin⟩, hout⟩
        obtain ⟨c, hc, hp⟩ := mem_cut.2 ⟨hin, hout⟩
        exact ⟨c, mem_flatMap.2 ⟨a, ha, hc⟩, hp⟩
    rw [hone, Region.points_cons, sdiff_sdiff]
    rfl

theorem valid_cutAll (h : r.Valid) : (cutAll r s).Valid := by
  induction s generalizing r with
  | nil => exact h
  | cons b s ih =>
    apply ih
    intro c hc
    obtain ⟨a, _, hc⟩ := mem_flatMap.1 hc
    have hcut := (mem_filter.1 hc).2
    rwa [decide_eq_true_eq] at hcut

def bandOps : RegionOps where
  RegionUnion r s := r ++ s
  RegionSubtract := cutAll
  RegionAppend r s := r ++ s
  RegionValidate r := r
  points_union _ _ := Region.points_append
  points_subtract _ _ := points_cutAll
  points_append _ _ := Region.points_append
  points_validate _ := rfl
  valid_union _ _ := Region.Valid.append
  valid_subtract _ _ := valid_cutAll
  valid_append _ _ := Region.Valid.append
  valid_validate _ := id

end Xenia.Mi
