import Xenia.Hw.OffscreenAreas

/-!
# The offscreen areas tile the offscreen memory

`AreasSound` is what holds in every state of a run: the areas in use and the free boxes tile the
initial boxes, the count is that of the list, and each allocation's area is in use, freed by its
owner or removed, the last with exactly one call of its callback. `areas_sound` proves
it for the runs in which no left edge overflows when it is rounded up to the granularity; in the others an area can
lie outside of the memory (`areas_unsound`).
-/

namespace Xenia.Hw

open Xenia.Lib Xenia.Mi List Option Bool

variable {ops : RegionOps} {offman offman' : FBManager} {req : AreaRequest} {boxp : BoxRec} {link : FBLink}

/-! ## The area in a box -/

/-- Rounding up within an `int` moves the edge to the right, and not out of the range in which the
widths are exact. -/
theorem AreaRequest.left_spec (h : boxp.x1.toInt + req.grain ≤ 2 ^ 31) :
    boxp.x1.toInt ≤ req.left boxp ∧ req.left boxp < 2 ^ 31 ∧ (boxp.x1.toInt ≤ 0 → req.left boxp ≤ 0) := by
  have hlow := boxp.x1.le_toInt
  have hhigh := boxp.x1.toInt_lt
  unfold AreaRequest.left
  by_cases hg : req.grain > 1
  · rw [wrapInt_eq (show -2 ^ 31 ≤ boxp.x1.toInt + req.grain - 1 by omega) (by omega)]
    generalize hn : boxp.x1.toInt + req.grain - 1 = n at *
    generalize req.grain = g at *
    rcases le_or_gt 0 n with hpos | hneg
    · rw [Int.tdiv_eq_ediv_of_nonneg hpos]
      have hmul := Int.mul_ediv_add_emod n g
      have hmod := Int.emod_lt_of_pos n (show 0 < g by omega)
      have hmod' := Int.emod_nonneg n (show g ≠ 0 by omega)
      rw [mul_comm g] at hmul
      rw [wrapInt_eq (by omega) (by omega)]
      refine ⟨by omega, by omega, fun hx => ?_⟩
      rw [Int.ediv_eq_zero_of_lt hpos (by omega)]
      omega
    · -- a numerator below zero is rounded towards zero
      obtain ⟨m, rfl⟩ : ∃ m, n = -m := ⟨-n, by omega⟩
      rw [Int.neg_tdiv, Int.tdiv_eq_ediv_of_nonneg (by omega)]
      have hmul := Int.mul_ediv_add_emod m g
      have hmod := Int.emod_nonneg m (show g ≠ 0 by omega)
      have hdiv : 0 ≤ m / g * g := mul_nonneg (Int.ediv_nonneg (by omega) (by omega)) (by omega)
      rw [mul_comm g] at hmul
      rw [neg_mul, wrapInt_eq (by omega) (by omega)]
      omega
  · rw [if_neg hg]
    omega

theorem toInt_ofInt {x : ℤ} (h : -2 ^ 15 ≤ x) (h' : x < 2 ^ 15) : (Int16.ofInt x).toInt = x :=
  Int16.toInt_ofInt_of_le h h'

/-- The edges of an area that is made in a box with room for it. -/
theorem AreaRequest.areaIn_spec (hvalid : boxp.Valid) (hw : 0 < req.w) (hh : 0 < req.h)
    (hround : boxp.x1.toInt + req.grain ≤ 2 ^ 31) (hfits : req.fits boxp = true) :
    (req.areaIn boxp).box.Valid ∧ (req.areaIn boxp).box.points ⊆ boxp.points := by
  obtain ⟨hle, hlt, hneg⟩ := left_spec hround
  have hx1 := boxp.x1.le_toInt
  have hx2 := boxp.x2.toInt_lt
  have hy1 := boxp.y1.le_toInt
  have hy2 := boxp.y2.toInt_lt
  obtain ⟨hvx, hvy⟩ := hvalid
  unfold AreaRequest.fits at hfits
  rw [not_eq_true', or_eq_false_iff, decide_eq_false_iff_not, decide_eq_false_iff_not] at hfits
  obtain ⟨hroomy, hroomx⟩ := hfits
  rw [wrapInt_eq (by omega) (by omega)] at hroomx
  have e1 : (req.areaIn boxp).box.x1.toInt = req.left boxp := toInt_ofInt (by omega) (by omega)
  have e2 : (req.areaIn boxp).box.x2.toInt = req.left boxp + req.w := toInt_ofInt (by omega) (by omega)
  have e3 : (req.areaIn boxp).box.y1 = boxp.y1 := rfl
  have e4 : (req.areaIn boxp).box.y2.toInt = boxp.y1.toInt + req.h := toInt_ofInt (by omega) (by omega)
  refine ⟨⟨by omega, by rw [e3]; omega⟩, ?_⟩
  intro p hp
  rw [BoxRec.mem_points, e3] at hp
  rw [BoxRec.mem_points]
  omega

variable {area : FBArea} {w : ℤ}

theorem FBArea.cutTo_spec {h : ℤ} (hw : 0 < w) (hh : 0 < h) (hholds : area.holds w h = true) :
    (area.cutTo w h).box.Valid ∧ (area.cutTo w h).box.points ⊆ area.box.points := by
  have hx1 := area.box.x1.le_toInt
  have hx2 := area.box.x2.toInt_lt
  have hy1 := area.box.y1.le_toInt
  have hy2 := area.box.y2.toInt_lt
  unfold FBArea.holds at hholds
  rw [and_eq_true, decide_eq_true_eq, decide_eq_true_eq] at hholds
  have e1 : (area.cutTo w h).box.x1 = area.box.x1 := rfl
  have e2 : (area.cutTo w h).box.x2.toInt = area.box.x1.toInt + w := toInt_ofInt (by omega) (by omega)
  have e3 : (area.cutTo w h).box.y1 = area.box.y1 := rfl
  have e4 : (area.cutTo w h).box.y2.toInt = area.box.y1.toInt + h := toInt_ofInt (by omega) (by omega)
  refine ⟨⟨by rw [e1]; omega, by rw [e3]; omega⟩, ?_⟩
  intro p hp
  rw [BoxRec.mem_points, e1, e3] at hp
  rw [BoxRec.mem_points]
  omega

/-! ## What a state of the manager satisfies -/

/-- The box of the area of a link. -/
def tile (link : FBLink) : Set (ℤ × ℤ) := link.area.box.points

/-- The areas in use and the free boxes tile the initial boxes. -/
structure Layout (offman : FBManager) : Prop where
  free : offman.FreeBoxes.Valid
  used : ∀ link ∈ offman.UsedAreas, link.area.box.Valid
  addresses : (offman.UsedAreas.map (·.address)).Nodup
  tiled : Tiled offman.InitialBoxes.points offman.FreeBoxes.points (offman.UsedAreas.map tile)

/-- Where the allocations' areas have gone. -/
def FBManager.owners (offman : FBManager) : List ℕ :=
  offman.UsedAreas.map (·.owner) ++ (offman.freed ++ offman.removed.map (·.owner))

/-- An area is removed for a request that is not expendable itself, or by a purge. -/
def Removal.Justified (r : Removal) : Prop := r.cause = .request none ∨ r.cause = .purge

/-- The allocations `all` have each one area, in use, freed or removed, and the count is off by `gap`. -/
structure Books (offman : FBManager) (all : List ℕ) (gap : ℤ) : Prop where
  count : offman.NumUsedAreas = offman.UsedAreas.length + gap
  account : offman.owners.Perm all
  causes : ∀ r ∈ offman.removed, r.Justified

structure AreasSound (offman : FBManager) : Prop where
  layout : Layout offman
  books : Books offman (List.range offman.issued) 0

variable {before after : List FBLink} {all : List ℕ} {gap : ℤ} {a owner : ℕ} {calloc : Option ℕ}

/-- One link of the list comes first, as far as the tiling goes. -/
theorem tiles_middle : ((before ++ link :: after).map tile).Perm (tile link :: (before ++ after).map tile) := by
  exact perm_middle.map _

theorem points_singleton (b : BoxRec) : Region.points [b] = b.points := by simp

variable {free' : Region}

/-- The links but one, with that one's memory given back. -/
theorem Layout.drop (h : Layout offman) (hused : offman.UsedAreas = before ++ link :: after)
    (hfree : free'.Valid) (hpoints : free'.points = offman.FreeBoxes.points ∪ link.area.box.points) :
    Layout { offman with UsedAreas := before ++ after, FreeBoxes := free' } where
  free := hfree
  used := by
    intro link' hlink'
    refine h.used link' ?_
    rw [hused]
    exact perm_middle.mem_iff.2 (mem_cons_of_mem _ hlink')
  addresses := by
    have := h.addresses
    rw [hused, (perm_middle.map _).nodup_iff, map_cons, nodup_cons] at this
    exact this.2
  tiled := by
    have htiled := h.tiled
    rw [hused] at htiled
    have := (htiled.perm tiles_middle).release
    rwa [tile, ← hpoints] at this

theorem Layout.valid_link (h : Layout offman) (hused : offman.UsedAreas = before ++ link :: after) :
    link.area.box.Valid := h.used link (by simp [hused])

variable (ops) in
theorem Layout.without (h : Layout offman) (hused : offman.UsedAreas = before ++ link :: after) :
    Layout (offman.without ops before link after) :=
  h.drop hused (ops.valid_union _ _ h.free (Region.valid_singleton (h.valid_link hused)))
    (by rw [ops.points_union, points_singleton])

variable (ops link) in
/-- A new link is put anywhere in the list, with its area taken out of the free boxes. -/
theorem Layout.place {UsedAreas' : List FBLink} (h : Layout offman)
    (hused : UsedAreas'.Perm (link :: offman.UsedAreas)) (hvalid : link.area.box.Valid)
    (hin : link.area.box.points ⊆ offman.FreeBoxes.points) (hfresh : link.address ∉ offman.UsedAreas.map (·.address))
    (hfree : free' = ops.RegionSubtract offman.FreeBoxes [link.area.box]) :
    Layout { offman with UsedAreas := UsedAreas', FreeBoxes := free' } where
  free := by
    rw [hfree]
    exact ops.valid_subtract _ _ h.free
  used := by
    intro link' hlink'
    rcases mem_cons.1 (hused.mem_iff.1 hlink') with rfl | hlink'
    · exact hvalid
    · exact h.used link' hlink'
  addresses := by
    rw [(hused.map _).nodup_iff, map_cons, nodup_cons]
    exact ⟨hfresh, h.addresses⟩
  tiled := by
    refine Tiled.perm ?_ (hused.map tile).symm
    rw [hfree, ops.points_subtract, points_singleton]
    exact h.tiled.place hin

/-! ## Allocation -/

/-- What a successful `AllocateArea` does. -/
structure Allocates (ops : RegionOps) (offman offman' : FBManager) (req : AreaRequest) (owner : ℕ)
    (calloc : Option ℕ) (a : ℕ) : Prop where
  layout : Layout offman'
  books : ∀ {all gap}, Books offman all gap → Books offman' (owner :: all) gap
  link : ∃ link ∈ offman'.UsedAreas, link.address = a ∧ link.owner = owner
  addresses : ∀ link ∈ offman'.UsedAreas, link.address ∈ offman.UsedAreas.map (·.address) ∨ calloc = some link.address
  issued : offman'.issued = offman.issued
  initial : offman'.InitialBoxes = offman.InitialBoxes

theorem AllocateArea_some (h : Layout offman) (hw : 0 < req.w) (hh : 0 < req.h) (hround : req.Roundable offman)
    (hfresh : ∀ b, calloc = some b → b ∉ offman.UsedAreas.map (·.address))
    (hrun : AllocateArea ops offman req owner calloc = (offman', some a)) :
    Allocates ops offman offman' req owner calloc a := by
  unfold AllocateArea at hrun
  unfold AreaRequest.Roundable AreaRequest.picked at hround
  cases hfind : offman.FreeBoxes.find? req.fits with
  | some boxp =>
    rw [hfind] at hrun hround
    have hmem := mem_of_find?_eq_some hfind
    obtain ⟨hvalid, hsub⟩ := AreaRequest.areaIn_spec (h.free boxp hmem) hw hh (hround boxp rfl)
      (find?_some hfind)
    cases calloc with
    | none => exact absurd (congrArg Prod.snd hrun) (by simp)
    | some address =>
      rw [Prod.mk.injEq, some.injEq] at hrun
      obtain ⟨rfl, rfl⟩ := hrun
      have hplace := h.place ops { address := address, owner := owner, area := req.areaIn boxp }
        (List.Perm.refl _) hvalid (hsub.trans (Region.subset_of_mem hmem)) (hfresh address rfl) rfl
      refine ⟨⟨hplace.free, hplace.used, hplace.addresses, hplace.tiled⟩, fun {all gap} hb => ⟨?_, ?_, hb.causes⟩,
        ⟨_, mem_cons_self, rfl, rfl⟩, fun link hlink => ?_, rfl, rfl⟩
      · have := hb.count
        simp only [length_cons]
        omega
      · exact hb.account.cons owner
      · rcases mem_cons.1 hlink with rfl | hlink
        · exact .inr rfl
        · exact .inl (mem_map_of_mem hlink)
  | none =>
    rw [hfind] at hrun hround
    by_cases hcb : req.removeCB.isSome = true
    · rw [if_pos hcb] at hrun
      exact absurd (congrArg Prod.snd hrun) (by simp)
    · rw [if_neg hcb] at hrun hround
      cases hfirst : removeFirst req.evicts offman.UsedAreas with
      | none =>
        rw [hfirst] at hrun
        exact absurd (congrArg Prod.snd hrun) (by simp)
      | some r =>
        obtain ⟨before, link, after⟩ := r
        rw [hfirst] at hrun
        obtain ⟨hused, hevicts, -⟩ := removeFirst_some hfirst
        rw [find?_of_removeFirst hfirst] at hround
        obtain ⟨rfl, rfl⟩ := hrun
        have hlink : link ∈ offman.UsedAreas := by simp [hused]
        obtain ⟨hvalid, hsub⟩ := AreaRequest.areaIn_spec (h.used link hlink) hw hh (hround _ rfl)
          ((and_eq_true _ _).mp hevicts).2
        have haddr := h.addresses
        rw [hused, (perm_middle.map _).nodup_iff, map_cons, nodup_cons] at haddr
        have hplace := (h.without ops hused).place ops
          { link with owner := owner, area := req.areaIn link.area.box }
          perm_middle hvalid (fun p hp => by
            rw [FBManager.without, ops.points_union, points_singleton]
            exact .inr (hsub hp)) haddr.1 rfl
        refine ⟨⟨hplace.free, hplace.used, hplace.addresses, hplace.tiled⟩, fun {all gap} hb => ⟨?_, ?_, ?_⟩,
          ⟨_, mem_append_right _ mem_cons_self, rfl, rfl⟩, fun link' hlink' => ?_, rfl, rfl⟩
        · rw [hb.count, hused]
          simp
        · -- the owner of the evicted area is now among those of the removed ones
          refine List.Perm.trans ?_ (hb.account.cons owner)
          unfold FBManager.owners
          rw [hused]
          simp only [map_append, map_cons, map_nil]
          rw [perm_iff_count]
          simp only [count_append, count_cons, count_nil]
          omega
        · intro r hr
          rcases mem_append.1 hr with hr | hr
          · exact hb.causes r hr
          · rw [mem_singleton.1 hr]
            rw [not_isSome_iff_eq_none] at hcb
            exact .inl (by rw [hcb])
        · rw [hused]
          rcases mem_cons.1 (perm_middle.mem_iff.1 hlink') with rfl | hmem
          · exact .inl (by simp)
          · exact .inl (mem_map_of_mem (perm_middle.mem_iff.2 (mem_cons_of_mem _ hmem)))

theorem AllocateArea_none (hrun : AllocateArea ops offman req owner calloc = (offman', none)) : offman' = offman := by
  unfold AllocateArea at hrun
  split at hrun
  · split at hrun
    · exact (congrArg Prod.fst hrun).symm
    · exact absurd (congrArg Prod.snd hrun) (by simp)
  · split at hrun
    · exact (congrArg Prod.fst hrun).symm
    · split at hrun
      · exact (congrArg Prod.fst hrun).symm
      · exact absurd (congrArg Prod.snd hrun) (by simp)

theorem fresh_spec {b : ℕ} (h : offman.fresh calloc = some b) : b ∉ offman.UsedAreas.map (·.address) := by
  obtain ⟨-, hall⟩ := filter_eq_some_iff.1 h
  intro hmem
  obtain ⟨link, hlink, rfl⟩ := mem_map.1 hmem
  simpa using all_eq_true.1 hall link hlink

/-! ## The operations -/

theorem allocate_sound (h : AreasSound offman) (hw : 0 < req.w) (hh : 0 < req.h) (hround : req.Roundable offman) :
    AreasSound (localAllocateOffscreenArea ops offman req calloc).1 := by
  unfold localAllocateOffscreenArea
  rcases hrun : AllocateArea ops offman req offman.issued (offman.fresh calloc) with ⟨offman', _ | area⟩
  · rwa [AllocateArea_none hrun]
  · obtain ⟨hlayout, hbooks, -, -, hissued, -⟩ :=
      AllocateArea_some h.layout hw hh hround (fun b hb => fresh_spec hb) hrun
    have hb := hbooks h.books
    refine ⟨⟨hlayout.free, hlayout.used, hlayout.addresses, hlayout.tiled⟩, ⟨hb.count, ?_, hb.causes⟩⟩
    refine hb.account.trans ?_
    rw [range_succ]
    exact (perm_append_singleton _ _).symm

theorem free_sound (h : AreasSound offman) : AreasSound (localFreeOffscreenArea ops offman a) := by
  unfold localFreeOffscreenArea
  cases hfirst : removeFirst (isAt a) offman.UsedAreas with
  | none => exact h
  | some r =>
    obtain ⟨hused, -, -⟩ := removeFirst_some hfirst
    have hlayout := h.layout.without ops hused
    refine ⟨⟨hlayout.free, hlayout.used, hlayout.addresses, hlayout.tiled⟩, ?_, ?_, h.books.causes⟩
    · dsimp only
      rw [h.books.count, hused]
      simp only [length_append, length_cons]
      omega
    · refine List.Perm.trans ?_ h.books.account
      unfold FBManager.owners
      rw [hused]
      simp only [map_append, map_cons]
      rw [perm_iff_count]
      simp only [count_append, count_cons, count_nil]
      omega

/-- A used area is replaced by a part of itself, the rest goes back to the free boxes. -/
theorem Layout.shrink (h : Layout offman) (hused : offman.UsedAreas = before ++ link :: after) (hvalid : area.box.Valid)
    (hin : area.box.points ⊆ link.area.box.points) (hfree : free'.Valid)
    (hpoints : free'.points = offman.FreeBoxes.points ∪ (link.area.box.points \ area.box.points)) :
    Layout { offman with UsedAreas := before ++ { link with area := area } :: after, FreeBoxes := free' } where
  free := hfree
  used := by
    intro link' hlink'
    rcases mem_cons.1 (perm_middle.mem_iff.1 hlink') with rfl | hlink'
    · exact hvalid
    · refine h.used link' ?_
      rw [hused]
      exact perm_middle.mem_iff.2 (mem_cons_of_mem _ hlink')
  addresses := by
    have := h.addresses
    rw [hused] at this
    simpa using this
  tiled := by
    have htiled := h.tiled
    rw [hused] at htiled
    have := (htiled.perm tiles_middle).shrink hin
    rw [tile, ← hpoints] at this
    refine this.perm (List.Perm.trans ?_ tiles_middle.symm)
    exact List.Perm.refl _

theorem Books.congr (h : Books offman all gap) (howners : offman'.owners = offman.owners)
    (hlength : offman'.UsedAreas.length = offman.UsedAreas.length)
    (hnum : offman'.NumUsedAreas = offman.NumUsedAreas) (hremoved : offman'.removed = offman.removed) :
    Books offman' all gap where
  count := by rw [hnum, h.count, hlength]
  account := by rw [howners]; exact h.account
  causes := by rw [hremoved]; exact h.causes

variable {height : ℤ}

/-- The area of a link is cut down. -/
theorem shrink_sound (h : AreasSound offman) (hused : offman.UsedAreas = before ++ link :: after)
    (hw : 0 < w) (hh : 0 < height) (hholds : link.area.holds w height = true) :
    AreasSound
        { offman with UsedAreas := before ++ { link with area := link.area.cutTo w height } :: after,
                      FreeBoxes := ops.RegionUnion offman.FreeBoxes
                        (ops.RegionSubtract [link.area.box] [(link.area.cutTo w height).box]) } := by
  obtain ⟨hvalid, hin⟩ := FBArea.cutTo_spec hw hh hholds
  have hfreed := ops.valid_subtract [link.area.box] [(link.area.cutTo w height).box]
    (Region.valid_singleton (h.layout.valid_link hused))
  have hlayout := h.layout.shrink hused hvalid hin (ops.valid_union _ _ h.layout.free hfreed)
    (by rw [ops.points_union, ops.points_subtract, points_singleton, points_singleton])
  refine ⟨hlayout, h.books.congr ?_ ?_ rfl rfl⟩
  · simp [FBManager.owners, hused]
  · simp [hused]

/-- The area of a link is replaced by one that `AllocateArea` has made for it. -/
theorem exchange_sound {newLink pLink : FBLink} {before' after' : List FBLink} (h : Layout offman')
    (hb : Books offman' (range offman'.issued) 1) (hused : offman'.UsedAreas = before' ++ newLink :: after')
    (howner : newLink.owner = pLink.owner)
    (haddr : pLink.address ∉ (before' ++ after').map (·.address)) :
    AreasSound
        { offman' with UsedAreas := { pLink with area := newLink.area } :: (before' ++ after'),
                       NumUsedAreas := offman'.NumUsedAreas - 1 } := by
  have hperm : offman'.UsedAreas.Perm (newLink :: (before' ++ after')) := by
    rw [hused]
    exact perm_middle
  refine ⟨⟨h.free, fun link hlink => ?_, ?_, ?_⟩, ⟨?_, ?_, hb.causes⟩⟩
  · rcases mem_cons.1 hlink with rfl | hlink
    · exact h.used newLink (hperm.mem_iff.2 mem_cons_self)
    · exact h.used link (hperm.mem_iff.2 (mem_cons_of_mem _ hlink))
  · have hnodup := h.addresses
    rw [(hperm.map _).nodup_iff, map_cons, nodup_cons] at hnodup
    rw [map_cons, nodup_cons]
    exact ⟨haddr, hnodup.2⟩
  · exact h.tiled.perm (hperm.map tile)
  · have hcount := hb.count
    rw [hperm.length_eq] at hcount
    rw [hcount]
    simp only [length_cons]
    omega
  · refine List.Perm.trans ?_ hb.account
    refine List.Perm.append_right _ ?_
    refine List.Perm.trans ?_ (hperm.map _).symm
    rw [map_cons, map_cons, howner]

theorem cutTo_eq (hy : (area.cutTo w height).box.y2 = area.box.y2)
    (hx : (area.cutTo w height).box.x2 = area.box.x2) : area.cutTo w height = area := by
  unfold FBArea.cutTo at hy hx ⊢
  dsimp only at hy hx ⊢
  rw [hy, hx]

theorem resize_sound (h : AreasSound offman) (hw : 0 < w) (hh : 0 < height)
    (hround : Roundable ops offman (.resize a w height calloc)) :
    AreasSound (localResizeOffscreenArea ops offman a w height calloc).1 := by
  unfold localResizeOffscreenArea
  cases hfirst : removeFirst (isAt a) offman.UsedAreas with
  | none => exact h
  | some r =>
    obtain ⟨before, pLink, after⟩ := r
    obtain ⟨hused, -, -⟩ := removeFirst_some hfirst
    have hround := hround _ hfirst
    dsimp only at hround ⊢
    by_cases hholds : pLink.area.holds w height = true
    · rw [if_pos hholds]
      split
      next hsame =>
        rw [cutTo_eq hsame.1 hsame.2, ← hused]
        exact h
      next => exact shrink_sound h hused hw hh hholds
    · rw [if_neg hholds]
      have hlayout := h.layout.without ops hused
      have hnodup := h.layout.addresses
      rw [hused, (perm_middle.map _).nodup_iff, map_cons, nodup_cons] at hnodup
      rcases hrun : AllocateArea ops (offman.without ops before pLink after) (pLink.area.request w height) pLink.owner
        (offman.fresh calloc) with ⟨offman', _ | area⟩
      · -- the link is put back in front
        rw [AllocateArea_none hrun]
        have hplace := hlayout.place ops pLink (List.Perm.refl _) (h.layout.valid_link hused)
          (fun p hp => by
            rw [FBManager.without, ops.points_union, points_singleton]
            exact .inr hp) hnodup.1 rfl
        refine ⟨hplace, ⟨?_, ?_, h.books.causes⟩⟩
        · have := h.books.count
          rw [hused, perm_middle.length_eq] at this
          exact this
        · refine List.Perm.trans ?_ h.books.account
          unfold FBManager.owners
          rw [hused]
          exact List.Perm.append_right _ (perm_middle.map _).symm
      · obtain ⟨hlayout', hbooks, ⟨link, hlink, hat, howner⟩, haddr, hissued, -⟩ :=
          AllocateArea_some hlayout hw hh (hround (by simpa using hholds))
            (fun b hb hmem => fresh_spec hb (by
              rw [hused, (perm_middle.map _).mem_iff]
              exact mem_cons_of_mem _ hmem)) hrun
        have hgap : Books (offman.without ops before pLink after)
            ((offman.without ops before pLink after).owners) 1 := by
          refine ⟨?_, List.Perm.refl _, h.books.causes⟩
          have := h.books.count
          rw [hused, perm_middle.length_eq, length_cons] at this
          unfold FBManager.without
          dsimp only
          omega
        have hall : (pLink.owner :: (offman.without ops before pLink after).owners).Perm (range offman.issued) := by
          refine List.Perm.trans ?_ h.books.account
          unfold FBManager.owners
          rw [hused]
          exact List.Perm.append_right _ (perm_middle.map _).symm
        have hbooks' := hbooks hgap
        dsimp only
        cases hfirst' : removeFirst (isAt area) offman'.UsedAreas with
        | none => exact absurd (removeFirst_none hfirst' link hlink) (by simp [isAt, hat])
        | some r' =>
          obtain ⟨before', newLink, after'⟩ := r'
          obtain ⟨hused', hisAt, -⟩ := removeFirst_some hfirst'
          -- the link at the address is the one that has been made
          obtain rfl : newLink = link := by
            refine inj_on_of_nodup_map hlayout'.addresses (by simp [hused']) hlink ?_
            rw [hat]
            simpa [isAt] using hisAt
          refine exchange_sound hlayout' ⟨hbooks'.count, ?_, hbooks'.causes⟩ hused' howner ?_
          · rw [hissued]
            exact hbooks'.account.trans hall
          · intro hmem
            obtain ⟨link', hlink', heq⟩ := mem_map.1 hmem
            have hlink' : link' ∈ offman'.UsedAreas := by
              rw [hused']
              exact perm_middle.mem_iff.2 (mem_cons_of_mem _ hlink')
            rcases haddr link' hlink' with hold | hnew
            · rw [heq] at hold
              exact hnodup.1 hold
            · refine fresh_spec hnew ?_
              rw [heq, hused]
              simp

/-- **A resize that fails leaves every area and the free boxes as they were.** -/
theorem resize_false (h : Layout offman) (hrun : localResizeOffscreenArea ops offman a w height calloc = (offman', false)) :
    offman'.UsedAreas.Perm offman.UsedAreas ∧ offman'.FreeBoxes.points = offman.FreeBoxes.points := by
  unfold localResizeOffscreenArea at hrun
  cases hfirst : removeFirst (isAt a) offman.UsedAreas with
  | none =>
    rw [hfirst, Prod.mk.injEq] at hrun
    rw [← hrun.1]
    exact ⟨List.Perm.refl _, rfl⟩
  | some r =>
    obtain ⟨before, pLink, after⟩ := r
    obtain ⟨hused, -, -⟩ := removeFirst_some hfirst
    rw [hfirst] at hrun
    dsimp only at hrun
    by_cases hholds : pLink.area.holds w height = true
    · rw [if_pos hholds] at hrun
      split at hrun
      · exact absurd (congrArg Prod.snd hrun) (by simp)
      · exact absurd (congrArg Prod.snd hrun) (by simp)
    · rw [if_neg hholds] at hrun
      rcases halloc : AllocateArea ops (offman.without ops before pLink after) (pLink.area.request w height)
        pLink.owner (offman.fresh calloc) with ⟨offman₁, _ | area⟩
      · rw [halloc, Prod.mk.injEq] at hrun
        rw [← hrun.1, AllocateArea_none halloc]
        refine ⟨?_, ?_⟩
        · rw [hused]
          exact perm_middle.symm
        · dsimp only [FBManager.without]
          rw [ops.points_subtract, ops.points_union, points_singleton]
          have htiled := h.tiled
          rw [hused] at htiled
          exact (htiled.perm tiles_middle).restore
      · rw [halloc] at hrun
        dsimp only at hrun
        split at hrun
        · exact absurd (congrArg Prod.snd hrun) (by simp)
        · exact absurd (congrArg Prod.snd hrun) (by simp)

theorem purgeWalk_sound {rest : List FBLink}
    (h : AreasSound { offman with UsedAreas := offman.UsedAreas ++ rest }) : AreasSound (purgeWalk ops offman rest) := by
  induction rest generalizing offman with
  | nil => simpa [purgeWalk] using h
  | cons pLink rest ih =>
    unfold purgeWalk
    cases hcb : pLink.area.RemoveAreaCallback with
    | none =>
      apply ih
      simpa using h
    | some proc =>
      apply ih
      have hfree : Region.Valid (ops.RegionAppend offman.FreeBoxes [pLink.area.box]) :=
        ops.valid_append _ _ h.layout.free (Region.valid_singleton (h.layout.valid_link rfl))
      have hdrop := h.layout.drop rfl hfree (by rw [ops.points_append, points_singleton])
      refine ⟨⟨hdrop.free, hdrop.used, hdrop.addresses, hdrop.tiled⟩, ⟨?_, ?_, ?_⟩⟩
      · have := h.books.count
        simp only [length_append, length_cons] at this ⊢
        omega
      · refine List.Perm.trans ?_ h.books.account
        unfold FBManager.owners
        simp only [map_append, map_cons, map_nil]
        rw [perm_iff_count]
        simp only [count_append, count_cons, count_nil]
        omega
      · intro r hr
        rcases mem_append.1 hr with hr | hr
        · exact h.books.causes r hr
        · rw [mem_singleton.1 hr]
          exact .inr rfl

theorem purge_sound (h : AreasSound offman) : AreasSound (localPurgeUnlockedOffscreenAreas ops offman) := by
  have hwalk : AreasSound (purgeWalk ops { offman with UsedAreas := [] } offman.UsedAreas) := purgeWalk_sound h
  unfold localPurgeUnlockedOffscreenAreas
  dsimp only
  split
  · refine ⟨⟨ops.valid_validate _ hwalk.layout.free, hwalk.layout.used, hwalk.layout.addresses, ?_⟩,
      ⟨hwalk.books.count, hwalk.books.account, hwalk.books.causes⟩⟩
    rw [ops.points_validate]
    exact hwalk.layout.tiled
  · exact hwalk

/-! ## Runs -/

theorem init_sound {initial : Region} (h : initial.Valid) : AreasSound (FBManager.init initial) where
  layout := ⟨h, by simp [FBManager.init], by simp [FBManager.init], Tiled.empty _⟩
  books := ⟨rfl, List.Perm.refl _, by simp [FBManager.init]⟩

theorem areaStep_sound {op : AreaOp} (hop : Admissible ops offman op) (h : AreasSound offman) :
    AreasSound (areaStep ops offman op) := by
  obtain ⟨hpos, hround⟩ := hop
  cases op with
  | allocate req calloc => exact allocate_sound h hpos.1 hpos.2.1 hround
  | free area => exact free_sound h
  | resize area w height calloc => exact resize_sound h hpos.1 hpos.2 hround
  | purge => exact purge_sound h

variable (ops offman req owner calloc) in
theorem AllocateArea_initial : (AllocateArea ops offman req owner calloc).1.InitialBoxes = offman.InitialBoxes := by
  unfold AllocateArea
  split
  · split <;> rfl
  · split
    · rfl
    · split <;> rfl

theorem purgeWalk_initial {rest : List FBLink} : (purgeWalk ops offman rest).InitialBoxes = offman.InitialBoxes := by
  induction rest generalizing offman with
  | nil => rfl
  | cons pLink rest ih =>
    unfold purgeWalk
    split
    · rw [ih]
    · rw [ih]

/-- No operation changes the boxes the manager was given. -/
theorem areaStep_initial (op : AreaOp) : (areaStep ops offman op).InitialBoxes = offman.InitialBoxes := by
  cases op with
  | allocate req calloc =>
    have halloc := AllocateArea_initial ops offman req offman.issued (offman.fresh calloc)
    dsimp only [areaStep, localAllocateOffscreenArea]
    split
    · next h => rw [h] at halloc; exact halloc
    · next h => rw [h] at halloc; exact halloc
  | free area =>
    dsimp only [areaStep, localFreeOffscreenArea]
    split <;> rfl
  | resize area w height calloc =>
    dsimp only [areaStep, localResizeOffscreenArea]
    split
    · rfl
    · split
      · split <;> rfl
      · split
        · next h =>
          have := congrArg (fun r => r.1.InitialBoxes) h
          rw [AllocateArea_initial] at this
          split <;> exact this.symm
        · next h =>
          have := congrArg (fun r => r.1.InitialBoxes) h
          rw [AllocateArea_initial] at this
          exact this.symm
  | purge =>
    dsimp only [areaStep, localPurgeUnlockedOffscreenAreas]
    split
    · exact purgeWalk_initial
    · exact purgeWalk_initial

/-- **The areas tile the offscreen memory** in every run of the manager in which no left edge
overflows when it is rounded up, and a resize that fails changes nothing. -/
theorem areas_sound (ops : RegionOps) (initial : Region) (is : List AreaOp) (hinit : initial.Valid)
    (hrun : AllSteps (areaStep ops) (Admissible ops) (FBManager.init initial) is) :
    let offman := run (areaStep ops) (FBManager.init initial) is
    AreasSound offman ∧ offman.InitialBoxes = initial ∧
      ∀ area w h calloc offman', localResizeOffscreenArea ops offman area w h calloc = (offman', false) →
        offman'.UsedAreas.Perm offman.UsedAreas ∧ offman'.FreeBoxes.points = offman.FreeBoxes.points := by
  have hsound := hrun.invariant (fun _ _ hop h => areaStep_sound hop h) (init_sound hinit)
  refine ⟨hsound, ?_, fun area w h calloc offman' hfail => resize_false hsound.layout hfail⟩
  exact run_invariant (P := fun offman : FBManager => offman.InitialBoxes = initial) (fun _ op h => (areaStep_initial op).trans h) rfl is

/-- Ten by ten pixels; the second area is evicted by the third, which is resized and freed. -/
theorem areas_sound_evict :
    AreasSound (run (areaStep bandOps) (FBManager.init [⟨0, 0, 10, 10⟩])
      [.allocate ⟨10, 4, 1, none, none, 0⟩ (some 1), .allocate ⟨10, 6, 4, none, some 7, 0⟩ (some 2),
       .allocate ⟨5, 3, 8, none, none, 0⟩ (some 3), .allocate ⟨5, 3, 1, none, none, 0⟩ (some 3),
       .resize 2 8 6 (some 4), .free 1, .resize 2 8 6 (some 4), .purge]) :=
  (areas_sound bandOps [⟨0, 0, 10, 10⟩] _ (by decide +kernel) (by decide +kernel)).1

/-- An area whose left edge overflows when it is rounded up lies outside of the memory. -/
theorem areas_unsound :
    ¬ ∀ (ops : RegionOps) (initial : Region) (is : List AreaOp), initial.Valid → (∀ op ∈ is, op.Positive) →
      AreasSound (run (areaStep ops) (FBManager.init initial) is) := by
  intro h
  have hsound := h bandOps [⟨10, 0, 20, 10⟩] [.allocate ⟨5, 5, 2147483647, none, none, 0⟩ (some 1)]
    (by decide +kernel) (by decide +kernel)
  have hcovers := (hsound.layout.tiled.covers (0, 0)).2 (.inr ⟨_, mem_map_of_mem mem_cons_self, ?_⟩)
  · obtain ⟨b, hb, hp⟩ := hcovers
    rw [mem_singleton.1 hb] at hp
    exact absurd hp.1 (by decide +kernel)
  · refine ⟨?_, ?_, ?_, ?_⟩
    all_goals decide +kernel

end Xenia.Hw
