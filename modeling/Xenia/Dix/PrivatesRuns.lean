import Xenia.Dix.PrivatesLayout

/-!
# Private storage over whole runs

`registerKey_spec` is one registration, the `_inv` lemmas the other steps; `exec_spec` collects them
and `privates_laid_out` is the run. Two `xselinux` keys share their bytes: `xselinux_keys_overlap`.
-/

namespace Xenia.Dix.Privates

open Xenia.Lib DevPrivateType List Function Option

variable {s s' : State} {t u : DevPrivateType} {o : Object} {k : DevPrivateKeyRec} {bytes n d : ℕ} {room : ℤ}
  {alloc : Object → Option (ℕ → Byte)} {id num : ℕ} {size : BitVec 32} {f : ScreenRec → ScreenRec}

/-- The keys of an object lie apart from each other and inside its area. -/
structure LaidOut (s : State) (o : Object) : Prop where
  disjoint : (keysOf s o).Pairwise fun k k' =>
    k.offset + k.extent ≤ k'.offset ∨ k'.offset + k'.extent ≤ k.offset
  inside : ∀ k ∈ keysOf s o, 0 ≤ k.offset ∧ k.offset + k.extent ≤ (s.area o).length

/-- Each earlier key of the object is still there, as `f` of what it was, and reads what it read. -/
def Kept (s s' : State) (o : Object) : Prop :=
  ∃ f : DevPrivateKeyRec → DevPrivateKeyRec, (∀ k, (f k).id = k.id ∧ (f k).size = k.size) ∧
    ((keysOf s o).map f).Sublist (keysOf s' o) ∧ ∀ k ∈ keysOf s o, contents s' o (f k) = contents s o k

structure Inv (s : State) : Prop where
  keys : ∃ room, Keys s room
  tables : Tables s
  sized : Sized s

theorem Inv.laidOut (h : Inv s) (ho : o ∈ s.live) : LaidOut s o := by
  obtain ⟨room, hk⟩ := h.keys
  have hpacked := hk.packed (h.tables.typed o ho)
  refine ⟨hpacked.pairwise.imp fun h => .inr h, fun k hmem => ?_⟩
  have := hpacked.within hmem
  have := h.sized o ho
  omega

/-! ### What a step keeps -/

/-- The area of the object holds what it held `d` bytes further, and so do its keys. -/
theorem Keys.kept (hk : Keys s room) (ho : o.type ≠ xselinux) (hfit : areaSize s o + d < 2 ^ 31)
    (hsub : ((keysOf s o).map (shiftKey d)).Sublist (keysOf s' o))
    (hold : HoldsAt (areaSize s o) d (s.area o) (s'.area o)) : Kept s s' o := by
  refine ⟨shiftKey d, fun _ => ⟨rfl, rfl⟩, hsub, fun k hmem => ?_⟩
  have hin := (hk.packed ho).within hmem
  have hoffset : (shiftKey d k).offset = k.offset + d := wrapInt_eq (by omega) (by omega)
  have htoNat : (k.offset + d).toNat = k.offset.toNat + d := by omega
  have hextent : (shiftKey d k).extent = k.extent := rfl
  unfold contents
  rw [hoffset, htoNat]
  exact hold.read (by omega)

/-- The sets and the area of the object are as they were. -/
theorem Keys.kept_same (hk : Keys s room) (ho : o.type ≠ xselinux) (hsub : (keysOf s o).Sublist (keysOf s' o))
    (hold : HoldsAt (areaSize s o) 0 (s.area o) (s'.area o)) : Kept s s' o := by
  refine hk.kept ho (by simpa using hk.areaSize_lt o) ?_ hold
  have hid : (keysOf s o).map (shiftKey 0) = keysOf s o := by
    conv_rhs => rw [← map_id (keysOf s o)]
    refine map_congr_left fun k hmem => ?_
    have hin := (hk.packed ho).within hmem
    have := hk.areaSize_lt o
    exact shiftKey_zero (by omega) (by omega)
  rw [hid]
  exact hsub

/-- Where the sets of the type and of the screen are the same, so are the keys and their space. -/
theorem keysOf_congr (hkeys : ∀ u, u = o.type ∨ u = xselinux → (s'.globalKeys u).key = (s.globalKeys u).key)
    (hscreen : ∀ num, o.screen = some num → s'.screen? num = (s.screen? num).map f)
    (hf : ∀ scr, ((f scr).screenSpecificPrivates o.type).key = (scr.screenSpecificPrivates o.type).key) :
    keysOf s' o = keysOf s o := by
  unfold keysOf
  rw [hkeys _ (.inl rfl), hkeys _ (.inr rfl)]
  congr 2
  cases hscr : o.screen with
  | none => rfl
  | some num =>
    simp only [bind_some]
    rw [hscreen num hscr]
    cases s.screen? num with
    | none => rfl
    | some scr => exact hf scr

theorem areaSize_congr (hoffset : (s'.globalKeys o.type).offset = (s.globalKeys o.type).offset)
    (hscreen : ∀ num, o.screen = some num → s'.screen? num = (s.screen? num).map f)
    (hf : ∀ scr, ((f scr).screenSpecificPrivates o.type).offset = (scr.screenSpecificPrivates o.type).offset) :
    areaSize s' o = areaSize s o := by
  unfold areaSize
  cases hscr : o.screen with
  | none => exact hoffset
  | some num =>
    simp only [bind_some]
    rw [hscreen num hscr]
    cases s.screen? num with
    | none => exact hoffset
    | some scr => exact hf scr

/-! ### Registration -/

theorem requiredSpace_spec (h : size.toNat < 2 ^ 31) (hk : k.size = wrapInt size.toNat) :
    0 < k.extent ∧ k.extent ≤ requiredSpace size := by
  have hwrap : wrapInt size.toNat = size.toNat := wrapInt_eq (by omega) (by omega)
  unfold DevPrivateKeyRec.extent requiredSpace POINTER
  rw [hk]
  by_cases hzero : size = 0
  · subst hzero
    decide
  · have hpos : size.toNat ≠ 0 := fun h => hzero (BitVec.eq_of_toNat_eq (by simpa using h))
    rw [if_neg hzero]
    omega

/-- The types whose areas a key of type `t` is put into. -/
def Affected (t u : DevPrivateType) : Prop := t ≠ xselinux ∧ u = t ∨ t = xselinux ∧ u.xselinuxPrivate

/-- The sets of the type have room for `bytes` more before an `int` overflows. -/
def Fits (s : State) (t : DevPrivateType) (bytes : ℕ) : Prop :=
  (s.globalKeys t).offset + bytes < 2 ^ 31 ∧
    ∀ scr ∈ s.allScreens, (scr.screenSpecificPrivates t).offset + bytes < 2 ^ 31

theorem object_eq (ht : Tables s) (ho : o ∈ s.live) (hty : o.type = t) (hshared : t.screenSpecificPrivate = false)
    (hnum : num = o.num) : ({ type := t, num } : Object) = o := by
  obtain ⟨type, screen, num'⟩ := o
  obtain rfl : type = t := hty
  obtain rfl : num = num' := hnum
  cases screen with
  | none => rfl
  | some n =>
    have := (ht.onScreen _ ho n rfl).1
    rw [hshared] at this
    cases this

/-- Screens and devices are always visited. -/
theorem Tables.visited (ht : Tables s) (h : t ∈ [extension, colormap, client] → Visited s t) : Visited s t := by
  intro o ho hty objects hearly
  cases t <;> cases hearly
  case extension => exact h (by decide) o ho hty _ rfl
  case colormap => exact h (by decide) o ho hty _ rfl
  case client => exact h (by decide) o ho hty _ rfl
  case screen =>
    obtain ⟨scr, hscr, hnum⟩ := ht.screenListed o ho hty
    rw [fixupScreens, List.map_map]
    exact mem_map.2 ⟨scr, hscr, object_eq ht ho hty rfl hnum⟩
  case device =>
    rw [fixupDevices, List.map_map]
    exact mem_map.2 ⟨o.num, ht.deviceListed o ho hty, object_eq ht ho hty rfl rfl⟩

variable {area : Object → List Byte} {ok : Bool}

/-- Only room was made: no key moved. -/
theorem Resized.inv {ts : List DevPrivateType}
    (hr : Resized s ts bytes area ok) (hinv : Inv s) : Inv { s with area } ∧ ∀ o ∈ s.live, Kept s { s with area } o := by
  obtain ⟨⟨room, hk⟩, ht, hs⟩ := hinv
  refine ⟨⟨⟨room, hk.withArea area⟩, (Regrown.withArea area).tables ht, fun o ho => ?_⟩, fun o ho => ?_⟩
  · have := (hr.holds o ho).1
    rwa [zero_add] at this
  · exact hk.kept_same (ht.typed o ho) (.refl _) (hr.holds o ho)

/-- A key on top of the keys of its type. -/
theorem addKey_spec (hk : Keys s room) (ht : Tables s) (hne : t ≠ xselinux) (hfit : Fits s t bytes)
    (hextent : 0 < k.extent ∧ k.extent ≤ bytes) (hoffset : k.offset = (s.globalKeys t).offset)
    (hr : Resized s [t] bytes s'.area true) (hg : Regrown (·.grow t bytes) s s')
    (hset : s'.globalKeys = update s.globalKeys t
      { s.globalKeys t with offset := (s.globalKeys t).offset + bytes, key := k :: (s.globalKeys t).key }) :
    Inv s' ∧ ∀ o ∈ s.live, Kept s s' o := by
  have hsame : ∀ u, u ≠ t → s'.globalKeys u = s.globalKeys u := fun u hu => by rw [hset, update_of_ne hu]
  have hnew : s'.globalKeys t = { s.globalKeys t with
      offset := (s.globalKeys t).offset + bytes, key := k :: (s.globalKeys t).key } := by
    rw [hset, update_self]
  have hgrow : ∀ (scr : ScreenRec) u, u ≠ t →
      (scr.grow t bytes).screenSpecificPrivates u = scr.screenSpecificPrivates u :=
    fun scr u hu => update_of_ne hu _ _
  have hgrown : ∀ scr : ScreenRec,
      (scr.grow t bytes).screenSpecificPrivates t = growPrivateSet bytes (scr.screenSpecificPrivates t) :=
    fun scr => update_self _ _ _
  have hlive : s'.live = s.live := hg.rest.2.2.2.2.1
  -- an object of the type is one of those that can exist early
  have hearly : ∀ o ∈ s.live, o.type = t → o.screen = none := by
    intro o ho hty
    cases hscr : o.screen with
    | none => rfl
    | some num =>
      have hearly := (hr.room rfl o ho (mem_singleton.2 hty)).2
      obtain ⟨objects, hobjects⟩ := isSome_iff_exists.1 hearly
      have hspecific := (ht.onScreen o ho num hscr).1
      rw [allocatedEarly_shared hobjects] at hspecific
      cases hspecific
  have hkeys : Keys s' room := by
    refine ⟨?_, fun u hu => ?_, fun scr' hscr' u => ?_, fun scr' hscr' u hshared => ?_, fun u => ?_, fun scr' hscr' u => ?_⟩
    · rw [hsame xselinux hne.symm]
      exact hk.selinux
    · by_cases hut : u = t
      · subst hut
        rw [hnew]
        exact (hk.global u hu).push hoffset hextent.1 (by push_cast; omega)
      · rw [hsame u hut]
        exact hk.global u hu
    · obtain ⟨scr, hscr, rfl⟩ := hg.mem hscr'
      by_cases hut : u = t
      · subst hut
        rw [hnew, hgrown]
        exact growPrivateSet_packed (hk.perScreen scr hscr u) (by omega) (hfit.2 scr hscr)
      · rw [hsame u hut, hgrow scr u hut]
        exact hk.perScreen scr hscr u
    · obtain ⟨scr, hscr, rfl⟩ := hg.mem hscr'
      by_cases hut : u = t
      · subst hut
        rw [hnew, hgrown, growPrivateSet_offset (hfit.2 scr hscr), hk.shared scr hscr u hshared]
      · rw [hsame u hut, hgrow scr u hut]
        exact hk.shared scr hscr u hshared
    · by_cases hut : u = t
      · subst hut
        rw [hnew]
        exact hfit.1
      · rw [hsame u hut]
        exact hk.small u
    · obtain ⟨scr, hscr, rfl⟩ := hg.mem hscr'
      by_cases hut : u = t
      · subst hut
        rw [hgrown, growPrivateSet_offset (hfit.2 scr hscr)]
        exact hfit.2 scr hscr
      · rw [hgrow scr u hut]
        exact hk.smallScreen scr hscr u
  have hsizeSame : ∀ o : Object, o.type ≠ t → areaSize s' o = areaSize s o := fun o hty =>
    areaSize_congr (by rw [hsame _ hty]) (fun num _ => hg.screen? num) fun scr => by rw [hgrow scr _ hty]
  have hsize : ∀ o ∈ s.live, o.type = t → areaSize s' o = areaSize s o + bytes := by
    intro o ho hty
    unfold areaSize
    rw [hearly o ho hty]
    rw [hty, hnew]
    rfl
  refine ⟨⟨⟨room, hkeys⟩, hg.tables ht, ?_⟩, ?_⟩
  · rw [Sized, hlive]
    intro o ho
    by_cases hty : o.type = t
    · rw [hsize o ho hty]
      exact (hr.room rfl o ho (mem_singleton.2 hty)).1
    · rw [hsizeSame o hty]
      have := (hr.holds o ho).1
      omega
  · intro o ho
    refine hk.kept_same (ht.typed o ho) ?_ (hr.holds o ho)
    by_cases hty : o.type = t
    · unfold keysOf
      rw [hearly o ho hty, hty, hnew, hsame xselinux hne.symm]
      exact (sublist_cons_self _ _)
    · have hkeys : ∀ u, u = o.type ∨ u = xselinux → (s'.globalKeys u).key = (s.globalKeys u).key := by
        rintro u (rfl | rfl)
        · rw [hsame _ hty]
        · rw [hsame _ hne.symm]
      rw [keysOf_congr hkeys (fun num _ => hg.screen? num) fun scr => by rw [hgrow scr _ hty]]

/-- The `xselinux` key, below the keys of every type it applies to. -/
theorem addSelinuxKey_spec {done : List DevPrivateType} (hk : Keys s room) (ht : Tables s)
    (hfit : ∀ u, u.xselinuxPrivate → Fits s u bytes) (hempty : (s.globalKeys xselinux).key = [])
    (hextent : 0 < k.extent ∧ k.extent ≤ bytes) (hoffset : k.offset = 0)
    (hr : Resized s (types.filter (·.xselinuxPrivate)) bytes area true) (hall : ∀ u, u ∈ done)
    (hm : Moved bytes done { s with area } s') :
    Inv (addGlobalKey xselinux k s') ∧ ∀ o ∈ s.live, Kept s (addGlobalKey xselinux k s') o := by
  have hlive : s'.live = s.live := hm.regrown.rest.2.2.2.2.1
  have hkeys : ∀ u, s'.globalKeys u =
      if u.xselinuxPrivate then growPrivateSet bytes (s.globalKeys u) else s.globalKeys u := by
    intro u
    rw [hm.globalKeys u]
    simp only [hall u, true_and]
  have hother : ∀ u ≠ xselinux, (addGlobalKey xselinux k s').globalKeys u = s'.globalKeys u :=
    fun u hu => update_of_ne hu _ _
  have hselinux : ((addGlobalKey xselinux k s').globalKeys xselinux).key = [k] := by
    show k :: (s'.globalKeys xselinux).key = _
    rw [hkeys, if_neg (by decide), hempty]
  have hscreens : ∀ (scr : ScreenRec) u, (growScreens bytes done scr).screenSpecificPrivates u =
      if u.xselinuxPrivate then growPrivateSet bytes (scr.screenSpecificPrivates u)
      else scr.screenSpecificPrivates u := by
    intro scr u
    simp only [growScreens, hall u, true_and]
  have hg : Regrown (growScreens bytes done) s (addGlobalKey xselinux k s') := by
    obtain ⟨hkept, hscr, hgpu, hrest, hcreated⟩ := hm.regrown
    refine ⟨hkept, hscr, hgpu, hrest, fun u => ?_⟩
    rw [← hcreated u]
    by_cases hu : u = xselinux
    · subst hu
      rfl
    · rw [hother u hu]
  have hoff : ∀ u ≠ xselinux, ((addGlobalKey xselinux k s').globalKeys u).offset =
      (s.globalKeys u).offset + if u.xselinuxPrivate then bytes else 0 := by
    intro u hu
    rw [hother u hu, hkeys]
    split
    · next hp => exact growPrivateSet_offset (hfit u hp).1
    · rfl
  have hoffScreen : ∀ scr ∈ s.allScreens, ∀ u, ((growScreens bytes done scr).screenSpecificPrivates u).offset =
      (scr.screenSpecificPrivates u).offset + if u.xselinuxPrivate then bytes else 0 := by
    intro scr hscr u
    rw [hscreens]
    split
    · next hp => exact growPrivateSet_offset ((hfit u hp).2 scr hscr)
    · rfl
  have hselinuxOff : ((addGlobalKey xselinux k s').globalKeys xselinux).offset = (s.globalKeys xselinux).offset := by
    show (s'.globalKeys xselinux).offset = _
    rw [hkeys, if_neg (by decide)]
  have hoffAll : ∀ u, ((addGlobalKey xselinux k s').globalKeys u).offset =
      (s.globalKeys u).offset + if u.xselinuxPrivate then bytes else 0 := by
    intro u
    by_cases hu : u = xselinux
    · subst hu
      exact hselinuxOff
    · exact hoff u hu
  have hK : Keys (addGlobalKey xselinux k s') (room + bytes) := by
    refine ⟨?_, fun u hu => ?_, fun scr' hscr' u => ?_, fun scr' hscr' u hshared => ?_, fun u => ?_, fun scr' hscr' u => ?_⟩
    · rw [hselinux]
      have := hk.room_nonneg
      exact ⟨by omega, hextent.1, by rw [hoffset]; exact le_refl (0 : ℤ)⟩
    · rw [hother u hu, hkeys]
      unfold base
      split
      · next hp =>
        have := hk.global u hu
        rw [base, if_pos hp] at this
        exact growPrivateSet_packed this hk.room_nonneg (hfit u hp).1
      · next hp =>
        have := hk.global u hu
        rwa [base, if_neg hp] at this
    · obtain ⟨scr, hscr, rfl⟩ := hg.mem hscr'
      rw [hoffAll, hscreens]
      split
      · next hp =>
        have := growPrivateSet_packed (hk.perScreen scr hscr u) (by omega) ((hfit u hp).2 scr hscr)
        rwa [← Nat.cast_add] at this
      · exact hk.perScreen scr hscr u
    · obtain ⟨scr, hscr, rfl⟩ := hg.mem hscr'
      rw [hoffAll, hoffScreen scr hscr, hk.shared scr hscr u hshared]
    · rw [hoffAll]
      split
      · next hp => exact (hfit u hp).1
      · exact hk.small u
    · obtain ⟨scr, hscr, rfl⟩ := hg.mem hscr'
      rw [hoffScreen scr hscr]
      split
      · next hp => exact (hfit u hp).2 scr hscr
      · exact hk.smallScreen scr hscr u
  have hsize : ∀ o ∈ s.live, areaSize (addGlobalKey xselinux k s') o =
      areaSize s o + if o.type.xselinuxPrivate then bytes else 0 := by
    intro o ho
    unfold areaSize
    cases hscr : o.screen with
    | none => exact hoff _ (ht.typed o ho)
    | some num =>
      simp only [bind_some]
      rw [hg.screen? num]
      cases hfound : s.screen? num with
      | none => exact hoff _ (ht.typed o ho)
      | some scr => exact hoffScreen scr (screen?_mem hfound).1 _
  -- what an object's area holds now, and where
  have hold : ∀ o ∈ s.live,
      HoldsAt (areaSize s o) (if o.type.xselinuxPrivate then bytes else 0) (s.area o) (s'.area o) := by
    intro o ho
    split
    · next hp => exact (hr.holds o ho).trans (hm.moved o ho (hall _) hp)
    · next hp =>
      have hsame : s'.area o = area o := hm.frame o ho fun h => hp h.2
      rw [hsame]
      exact hr.holds o ho
  refine ⟨⟨⟨room + bytes, hK⟩, hg.tables ht, ?_⟩, ?_⟩
  · intro o ho
    have ho : o ∈ s.live := hlive ▸ ho
    rw [hsize o ho]
    have := (hold o ho).1
    show _ ≤ (s'.area o).length
    omega
  · intro o ho
    have hty := ht.typed o ho
    by_cases hp : o.type.xselinuxPrivate
    · have hold := hold o ho
      rw [if_pos hp] at hold
      have hlt := hK.areaSize_lt o
      rw [hsize o ho, if_pos hp] at hlt
      refine hk.kept hty hlt ?_ hold
      have hglobal : ((addGlobalKey xselinux k s').globalKeys o.type).key =
          (s.globalKeys o.type).key.map (shiftKey bytes) := by
        rw [hother _ hty, hkeys, if_pos hp, growPrivateSet_key]
      unfold keysOf
      rw [hglobal, hempty]
      cases hscr : o.screen with
      | none => simp [hp]
      | some num =>
        simp only [bind_some]
        rw [hg.screen? num]
        cases s.screen? num with
        | none => simp [hp]
        | some scr => simp [hp, hscreens, growPrivateSet_key]
    · have hold := hold o ho
      rw [if_neg hp] at hold
      refine hk.kept_same hty ?_ hold
      have hglobal : (addGlobalKey xselinux k s').globalKeys o.type = s.globalKeys o.type := by
        rw [hother _ hty, hkeys, if_neg hp]
      unfold keysOf
      rw [hglobal]
      cases hscr : o.screen with
      | none => simp [hp]
      | some num =>
        simp only [bind_some]
        rw [hg.screen? num]
        cases s.screen? num with
        | none => simp [hp]
        | some scr => simp [hp, hscreens]

/-- The state after a registration for which there is room. -/
theorem addRegistered_spec (hk : Keys s room) (ht : Tables s) (hne : t ≠ xselinux)
    (hfit : Fits s t (requiredSpace size)) (hsize : size.toNat < 2 ^ 31) (hr : Resized s [t] (requiredSpace size) area true) :
    let s₁ : State := { s with area }
    let set : DevPrivateSetRec :=
      { s₁.globalKeys t with offset := ((s₁.globalKeys t).offset + requiredSpace size) % 2 ^ 32 }
    let s₂ := growScreenSpecificSet t (requiredSpace size) { s₁ with globalKeys := update s₁.globalKeys t set }
    let s₃ := addGlobalKey t
      { id, offset := wrapInt (s₁.globalKeys t).offset, size := wrapInt size.toNat, type := t } s₂
    Inv s₃ ∧ ∀ o ∈ s.live, Kept s s₃ o := by
  intro s₁ set s₂ s₃
  have hmod : ((s.globalKeys t).offset + requiredSpace size) % 2 ^ 32 = (s.globalKeys t).offset + requiredSpace size :=
    Nat.mod_eq_of_lt (by have := hfit.1; omega)
  have hwrap : wrapInt ((s.globalKeys t).offset : ℤ) = (s.globalKeys t).offset :=
    wrapInt_eq (by omega) (by have := hk.small t; omega)
  let k : DevPrivateKeyRec := { id, offset := wrapInt (s.globalKeys t).offset, size := wrapInt size.toNat, type := t }
  have hset : s₃.globalKeys = update s.globalKeys t { s.globalKeys t with
      offset := (s.globalKeys t).offset + requiredSpace size, key := k :: (s.globalKeys t).key } := by
    have hself : update s.globalKeys t set t = set := update_self _ _ _
    have hall : s₃.globalKeys = update (update s.globalKeys t set) t
      { update s.globalKeys t set t with key := k :: (update s.globalKeys t set t).key } := rfl
    rw [hall, update_idem, hself, ← hmod]
  have hextent : 0 < k.extent ∧ k.extent ≤ requiredSpace size := requiredSpace_spec hsize (by simp only [k])
  have hoffset : k.offset = (s.globalKeys t).offset := by
    simp only [k]
    exact hwrap
  refine addKey_spec hk ht hne hfit hextent hoffset hr ?_ hset
  refine ⟨fun scr => ⟨rfl, rfl, fun u => ?_⟩, rfl, rfl, ⟨rfl, rfl, rfl, rfl, rfl, rfl⟩, fun u => ?_⟩
  · show (update scr.screenSpecificPrivates t _ u).created = _
    by_cases hu : u = t
    · subst hu
      rw [update_self]
      rfl
    · rw [update_of_ne hu]
  · rw [hset]
    by_cases hu : u = t
    · subst hu
      rw [update_self]
    · rw [update_of_ne hu]

/-- **A registration keeps the layout and what every earlier key reads.** -/
theorem registerKey_spec {r : State × Bool} (hinv : Inv s) (hsize : size.toNat < 2 ^ 31)
    (hfirst : t = xselinux → (s.globalKeys xselinux).key = [])
    (hfit : ∀ u, Affected t u → Fits s u (requiredSpace size))
    (hv : ∀ u, Affected t u → u ∈ [extension, colormap, client] → Visited s u) (hfresh : s.registered id = none)
    (h : dixRegisterPrivateKey alloc id t size s = some r) : Inv r.1 ∧ ∀ o ∈ s.live, Kept s r.1 o := by
  obtain ⟨⟨room, hk⟩, ht, hs⟩ := hinv
  have hv : ∀ u, Affected t u → Visited s u := fun u hu => ht.visited (hv u hu)
  unfold dixRegisterPrivateKey at h
  simp only [hfresh] at h
  by_cases hsel : t = xselinux
  · subst hsel
    have haff : ∀ u, u.xselinuxPrivate → Affected xselinux u := fun u hu => .inr ⟨rfl, hu⟩
    rw [if_pos rfl] at h
    split at h
    · cases h
    · next s₁ hs₁ =>
      cases h
      obtain ⟨area, rfl, hr⟩ := resizeXselinux_spec nodup_types hk ht hs (fun u hu => (hfit u (haff u hu)).1)
        (fun u hu => hv u (haff u hu)) hs₁
      exact hr.inv ⟨⟨room, hk⟩, ht, hs⟩
    · next s₁ hs₁ =>
      cases h
      obtain ⟨area, harea, hr⟩ := resizeXselinux_spec nodup_types hk ht hs (fun u hu => (hfit u (haff u hu)).1)
        (fun u hu => hv u (haff u hu)) hs₁
      subst harea
      have hgrown := Regrown.withArea (s := s) area
      have hroom : ∀ o ∈ s.live, o.type.xselinuxPrivate →
          areaSize s o + requiredSpace size ≤ (area o).length ∧ (allocatedEarly o.type).isSome :=
        fun o ho hp => hr.room rfl o ho (mem_filter.2 ⟨mem_types _, hp⟩)
      obtain ⟨done, hall, hm⟩ := Moved.moveTypes (s := { s with area }) (hk.withArea area)
        (hgrown.tables ht) (fun u hu => (hfit u (haff u hu)).1) (fun u hu => hgrown.visited (hv u (haff u hu))) hroom
        types [] nodup_types (Moved.nil _)
      let k : DevPrivateKeyRec := { id, offset := 0, size := wrapInt size.toNat, type := xselinux }
      have hextent : 0 < k.extent ∧ k.extent ≤ requiredSpace size := requiredSpace_spec hsize (by simp only [k])
      exact addSelinuxKey_spec (k := k) hk ht (fun u hu => hfit u (haff u hu)) (hfirst rfl) hextent rfl hr
        (fun u => hall u (mem_types u)) hm
  · have haff : Affected t t := .inl ⟨hsel, rfl⟩
    have hfit := hfit t haff
    rw [if_neg hsel] at h
    split at h
    · cases h
    · next s₁ hs₁ =>
      cases h
      obtain ⟨area, rfl, hr⟩ := resizeType_spec hk ht hs hsel hfit.1 (hv t haff) hs₁
      exact hr.inv ⟨⟨room, hk⟩, ht, hs⟩
    · next s₁ hs₁ =>
      cases h
      obtain ⟨area, harea, hr⟩ := resizeType_spec hk ht hs hsel hfit.1 (hv t haff) hs₁
      subst harea
      exact addRegistered_spec hk ht hsel hfit hsize hr

variable {scr : ScreenRec}

theorem State.screen?_of_mem (ht : Tables s) {scr' : ScreenRec} (h : s.screen? num = some scr)
    (hscr' : scr' ∈ s.allScreens) (hnum : scr'.num = num) : scr' = scr := by
  obtain ⟨hscr, hnum'⟩ := screen?_mem h
  exact inj_on_of_nodup_map ht.numbers.screenNums hscr' hscr (hnum.trans hnum'.symm)

/-- A change to one screen that leaves what the tables say about it. -/
theorem updateScreen_regrown (hf : ∀ scr, (f scr).num = scr.num ∧ (f scr).defColormap = scr.defColormap ∧
      ∀ u, ((f scr).screenSpecificPrivates u).created = (scr.screenSpecificPrivates u).created) :
    Regrown (fun scr => if scr.num = num then f scr else scr) s (s.updateScreen num f) := by
  refine ⟨fun scr => ?_, rfl, rfl, ⟨rfl, rfl, rfl, rfl, rfl, rfl⟩, fun _ => rfl⟩
  split
  · exact hf scr
  · exact ⟨rfl, rfl, fun _ => rfl⟩

theorem ScreenRec.addKey_other (hu : u ≠ t) :
    (scr.addKey id t size).screenSpecificPrivates u = scr.screenSpecificPrivates u := update_of_ne hu _ _

variable (id) in
theorem ScreenRec.addKey_self (hsize : size.toNat < 2 ^ 31)
    (hfit : (scr.screenSpecificPrivates t).offset + requiredSpace size < 2 ^ 31) :
    ∃ k : DevPrivateKeyRec, k.offset = (scr.screenSpecificPrivates t).offset ∧ 0 < k.extent ∧
      k.extent ≤ requiredSpace size ∧ (scr.addKey id t size).screenSpecificPrivates t =
        { scr.screenSpecificPrivates t with
          offset := (scr.screenSpecificPrivates t).offset + requiredSpace size
          key := k :: (scr.screenSpecificPrivates t).key } := by
  have hmod : ((scr.screenSpecificPrivates t).offset + requiredSpace size) % 2 ^ 32 =
      (scr.screenSpecificPrivates t).offset + requiredSpace size := Nat.mod_eq_of_lt (by omega)
  have hwrap : wrapInt ((scr.screenSpecificPrivates t).offset : ℤ) = (scr.screenSpecificPrivates t).offset :=
    wrapInt_eq (by omega) (by omega)
  let k : DevPrivateKeyRec :=
    { id, offset := wrapInt (scr.screenSpecificPrivates t).offset, size := wrapInt size.toNat, type := t }
  have hextent : 0 < k.extent ∧ k.extent ≤ requiredSpace size := requiredSpace_spec hsize (by simp only [k])
  refine ⟨k, by simp only [k]; exact hwrap, hextent.1, hextent.2, ?_⟩
  rw [← hmod]
  exact update_self _ _ _

/-- **A key for one screen keeps the layout too**: there are no objects of the type on the screen. -/
theorem registerScreenKey_spec (hinv : Inv s) (hsize : size.toNat < 2 ^ 31)
    (hfit : ∀ scr, s.screen? num = some scr → (scr.screenSpecificPrivates t).offset + requiredSpace size < 2 ^ 31)
    (h : dixRegisterScreenSpecificPrivateKey num id t size s = some s') : Inv s' ∧ ∀ o ∈ s.live, Kept s s' o := by
  obtain ⟨⟨room, hk⟩, ht, hs⟩ := hinv
  have hsame : Inv s ∧ ∀ o ∈ s.live, Kept s s o :=
    ⟨⟨⟨room, hk⟩, ht, hs⟩, fun o ho => hk.kept_same (ht.typed o ho) (.refl _) (.refl (hs o ho))⟩
  unfold dixRegisterScreenSpecificPrivateKey at h
  by_cases hspecific : t.screenSpecificPrivate = true
  swap
  · rw [if_pos (by simpa using hspecific)] at h
    cases h
  rw [if_neg (by simp [hspecific])] at h
  split at h
  · split at h
    · cases h
      exact hsame
    · cases h
  split at h
  · cases h
    exact hsame
  next scr hscr =>
  split at h
  · cases h
  next hfree =>
  cases h
  have hg : Regrown (fun scr => if scr.num = num then scr.addKey id t size else scr) s
      (s.updateScreen num (·.addKey id t size)) := by
    refine updateScreen_regrown fun scr => ⟨rfl, rfl, fun u => ?_⟩
    by_cases hu : u = t
    · subst hu
      show (update scr.screenSpecificPrivates u _ u).created = _
      rw [update_self]
    · rw [ScreenRec.addKey_other hu]
  have hmem := (screen?_mem hscr).1
  obtain ⟨k, hoffset, hpos, hextent, hself⟩ := ScreenRec.addKey_self id hsize (hfit scr hscr)
  -- the sets of the screens: only one changed
  have hset : ∀ scr' ∈ s.allScreens, ∀ u, (scr'.num = num ∧ u = t ∧ scr' = scr) ∨
      (if scr'.num = num then scr'.addKey id t size else scr').screenSpecificPrivates u =
        scr'.screenSpecificPrivates u := by
    intro scr' hscr' u
    by_cases hnum : scr'.num = num
    · by_cases hu : u = t
      · exact .inl ⟨hnum, hu, State.screen?_of_mem ht hscr hscr' hnum⟩
      · right
        rw [if_pos hnum, ScreenRec.addKey_other hu]
    · right
      rw [if_neg hnum]
  have hkeys : Keys (s.updateScreen num (·.addKey id t size)) room := by
    refine ⟨hk.selinux, hk.global, fun scr₁ hscr₁ u => ?_, fun scr₁ hscr₁ u hshared => ?_, hk.small, fun scr₁ hscr₁ u => ?_⟩
    · obtain ⟨scr', hscr', rfl⟩ := hg.mem hscr₁
      rcases hset scr' hscr' u with ⟨hnum, rfl, rfl⟩ | hset
      · rw [if_pos hnum, hself]
        exact (hk.perScreen scr' hmem u).push hoffset hpos (by push_cast; omega)
      · rw [hset]
        exact hk.perScreen scr' hscr' u
    · obtain ⟨scr', hscr', rfl⟩ := hg.mem hscr₁
      rcases hset scr' hscr' u with ⟨-, rfl, -⟩ | hset
      · rw [hspecific] at hshared
        cases hshared
      · rw [hset]
        exact hk.shared scr' hscr' u hshared
    · obtain ⟨scr', hscr', rfl⟩ := hg.mem hscr₁
      rcases hset scr' hscr' u with ⟨hnum, rfl, rfl⟩ | hset
      · rw [if_pos hnum, hself]
        exact hfit scr' hscr
      · rw [hset]
        exact hk.smallScreen scr' hscr' u
  -- no live object sees the changed set
  have hview : ∀ o ∈ s.live, keysOf (s.updateScreen num (·.addKey id t size)) o = keysOf s o ∧
      areaSize (s.updateScreen num (·.addKey id t size)) o = areaSize s o := by
    intro o ho
    unfold keysOf areaSize
    cases hscreen : o.screen with
    | none => exact ⟨rfl, rfl⟩
    | some num' =>
      simp only [bind_some]
      rw [hg.screen? num']
      cases hfound : s.screen? num' with
      | none => exact ⟨rfl, rfl⟩
      | some scr' =>
        obtain ⟨hscr', hnum'⟩ := screen?_mem hfound
        have hsame : (if scr'.num = num then scr'.addKey id t size else scr').screenSpecificPrivates o.type =
            scr'.screenSpecificPrivates o.type := by
          rcases hset scr' hscr' o.type with ⟨-, hty, rfl⟩ | hset
          · have := (ht.screenCreated scr' hscr' t).2 o ho hty (by rw [hscreen, hnum'])
            omega
          · exact hset
        simp only [map_some, elim_some, hsame]
        exact ⟨rfl, trivial⟩
  refine ⟨⟨⟨room, hkeys⟩, hg.tables ht, fun o ho => ?_⟩, fun o ho => ?_⟩
  · rw [(hview o ho).2]
    exact hs o ho
  · exact hk.kept_same (ht.typed o ho) (by rw [(hview o ho).1]) (.refl (hs o ho))

/-! ### New objects -/

/-- The sets of keys are as they were, but for the sets of new screens, which are empty. -/
theorem Keys.congr (hk : Keys s room) (hkey : ∀ u, (s'.globalKeys u).key = (s.globalKeys u).key)
    (hoffset : ∀ u, (s'.globalKeys u).offset = (s.globalKeys u).offset)
    (hscreens : ∀ scr' ∈ s'.allScreens,
      (∃ scr ∈ s.allScreens, ∀ u, (scr'.screenSpecificPrivates u).key = (scr.screenSpecificPrivates u).key ∧
        (scr'.screenSpecificPrivates u).offset = (scr.screenSpecificPrivates u).offset) ∨
      ∀ u, (scr'.screenSpecificPrivates u).key = [] ∧
        (scr'.screenSpecificPrivates u).offset = (s.globalKeys u).offset) : Keys s' room := by
  refine ⟨?_, fun u hu => ?_, fun scr' hscr' u => ?_, fun scr' hscr' u hshared => ?_, fun u => ?_, fun scr' hscr' u => ?_⟩
  · rw [hkey]
    exact hk.selinux
  · rw [hkey, hoffset]
    exact hk.global u hu
  · rw [hoffset]
    rcases hscreens scr' hscr' with ⟨scr, hscr, hsame⟩ | hnew
    · rw [(hsame u).1, (hsame u).2]
      exact hk.perScreen scr hscr u
    · rw [(hnew u).1, (hnew u).2]
      exact le_rfl
  · rw [hoffset]
    rcases hscreens scr' hscr' with ⟨scr, hscr, hsame⟩ | hnew
    · rw [(hsame u).2]
      exact hk.shared scr hscr u hshared
    · exact (hnew u).2
  · rw [hoffset]
    exact hk.small u
  · rcases hscreens scr' hscr' with ⟨scr, hscr, hsame⟩ | hnew
    · rw [(hsame u).2]
      exact hk.smallScreen scr hscr u
    · rw [(hnew u).2]
      exact hk.small u

/-- A new object `o`, the tables holding at least what they held. -/
structure Added (o : Object) (s s' : State) : Prop where
  live : s'.live = o :: s.live
  next : s'.next = s.next + 1
  num : o.num = s.next
  typed : o.type ≠ xselinux
  counted : ∀ u, (s'.globalKeys u).created = (countCreated 1 o.type s.globalKeys u).created
  key : ∀ u, (s'.globalKeys u).key = (s.globalKeys u).key
  offset : ∀ u, (s'.globalKeys u).offset = (s.globalKeys u).offset
  numbers : Numbers s'
  area : s'.area = Function.update s.area o (List.replicate (areaSize s' o) 0)
  onScreen : ∀ num, o.screen = some num → o.type.screenSpecificPrivate ∧ ∃ scr ∈ s'.allScreens, scr.num = num
  screenListed : o.type = screen → ∃ scr ∈ s'.allScreens, scr.num = o.num
  deviceListed : o.type = device → o.num ∈ s'.devices ++ s'.offDevices
  devices : ∀ num ∈ s.devices ++ s.offDevices, num ∈ s'.devices ++ s'.offDevices

/-- Each screen is one of before, with one more object of it counted if that is what `o` is, or a new one. -/
structure ScreensKept (o : Object) (s s' : State) : Prop where
  found : ∀ num, num < s.next → ∃ g : ScreenRec → ScreenRec, s'.screen? num = (s.screen? num).map g ∧
    ∀ scr u, ((g scr).screenSpecificPrivates u).key = (scr.screenSpecificPrivates u).key ∧
      ((g scr).screenSpecificPrivates u).offset = (scr.screenSpecificPrivates u).offset
  listed : ∀ scr ∈ s.allScreens, ∃ scr' ∈ s'.allScreens, scr'.num = scr.num
  known : ∀ scr' ∈ s'.allScreens,
    (∃ scr ∈ s.allScreens, scr'.num = scr.num ∧ ∀ u,
      (scr'.screenSpecificPrivates u).key = (scr.screenSpecificPrivates u).key ∧
      (scr'.screenSpecificPrivates u).offset = (scr.screenSpecificPrivates u).offset ∧
      (scr.screenSpecificPrivates u).created ≤ (scr'.screenSpecificPrivates u).created ∧
      (o.type = u → o.screen = some scr.num → 0 < (scr'.screenSpecificPrivates u).created)) ∨
    scr'.num = s.next ∧ o.screen = none ∧ ∀ u, (scr'.screenSpecificPrivates u).key = [] ∧
      (scr'.screenSpecificPrivates u).offset = (s.globalKeys u).offset ∧
      (scr'.screenSpecificPrivates u).created = 0

theorem Added.spec (ha : Added o s s') (hscr : ScreensKept o s s') (hinv : Inv s)
    (hfit : (s.globalKeys o.type).created + 1 < 2 ^ 31) : Inv s' ∧ ∀ o' ∈ s.live, Kept s s' o' := by
  obtain ⟨⟨room, hk⟩, ht, hs⟩ := hinv
  have hnew : o ∉ s.live := fun ho => absurd (ht.fresh o ho) (by rw [ha.num]; exact lt_irrefl _)
  have hk' : Keys s' room := by
    refine hk.congr ha.key ha.offset fun scr' hscr' => ?_
    rcases hscr.known scr' hscr' with ⟨scr, hmem, -, hsame⟩ | ⟨-, -, hempty⟩
    · exact .inl ⟨scr, hmem, fun u => ⟨(hsame u).1, (hsame u).2.1⟩⟩
    · exact .inr fun u => ⟨(hempty u).1, (hempty u).2.1⟩
  have hview : ∀ o' ∈ s.live, keysOf s' o' = keysOf s o' ∧ areaSize s' o' = areaSize s o' := by
    intro o' ho'
    cases hnum : o'.screen with
    | none =>
      have hvac : ∀ num, o'.screen = some num → s'.screen? num = (s.screen? num).map id := by
        rw [hnum]
        intro num h
        cases h
      exact ⟨keysOf_congr (fun u _ => ha.key u) hvac fun _ => rfl, areaSize_congr (ha.offset _) hvac fun _ => rfl⟩
    | some num =>
      obtain ⟨-, scr, hmem, rfl⟩ := ht.onScreen o' ho' num hnum
      obtain ⟨g, hg, hsame⟩ := hscr.found scr.num (ht.numbers.screenFresh scr hmem)
      have hfound : ∀ num, o'.screen = some num → s'.screen? num = (s.screen? num).map g := by
        rw [hnum]
        rintro num ⟨⟩
        exact hg
      exact ⟨keysOf_congr (fun u _ => ha.key u) hfound fun scr => (hsame scr _).1,
        areaSize_congr (ha.offset _) hfound fun scr => (hsame scr _).2⟩
  have harea : ∀ o' ∈ s.live, s'.area o' = s.area o' := by
    intro o' ho'
    have hne : o' ≠ o := fun h => hnew (h ▸ ho')
    rw [ha.area, update_of_ne hne]
  refine ⟨⟨⟨room, hk'⟩, ?_, ?_⟩, fun o' ho' => ?_⟩
  · refine ⟨ha.numbers, ?_, ?_, ?_, ?_, ?_, ?_, ?_, ?_⟩
    · rw [ha.live, ha.next]
      rintro o' (_ | ⟨_, ho'⟩)
      · rw [ha.num]
        omega
      · exact Nat.lt_succ_of_lt (ht.fresh o' ho')
    · rw [ha.live]
      exact nodup_cons.2 ⟨hnew, ht.nodup⟩
    · rw [ha.live]
      rintro o' (_ | ⟨_, ho'⟩)
      · exact ha.typed
      · exact ht.typed o' ho'
    · rw [ha.live]
      rintro o' (_ | ⟨_, ho'⟩) num hnum
      · exact ha.onScreen num hnum
      · obtain ⟨hty, scr, hmem, hnum⟩ := ht.onScreen o' ho' num hnum
        obtain ⟨scr', hscr', hnum'⟩ := hscr.listed scr hmem
        exact ⟨hty, scr', hscr', hnum'.trans hnum⟩
    · rw [ha.live]
      rintro o' (_ | ⟨_, ho'⟩) hty
      · exact ha.screenListed hty
      · obtain ⟨scr, hmem, hnum⟩ := ht.screenListed o' ho' hty
        obtain ⟨scr', hscr', hnum'⟩ := hscr.listed scr hmem
        exact ⟨scr', hscr', hnum'.trans hnum⟩
    · rw [ha.live]
      rintro o' (_ | ⟨_, ho'⟩) hty
      · exact ha.deviceListed hty
      · exact ha.devices _ (ht.deviceListed o' ho' hty)
    · intro u hu
      rw [ha.counted, ha.live]
      unfold countCreated
      by_cases htype : u = o.type
      · subst htype
        have hcount := ht.created _ hu
        rw [hcount, wrapInt_eq (by omega) (by omega)]
        simp
      · rw [if_neg (by simp [htype, hu]), ht.created u hu]
        simp [Ne.symm htype]
    · intro scr' hscr' u
      rw [ha.live]
      rcases hscr.known scr' hscr' with ⟨scr, hmem, hnum, hsame⟩ | ⟨hnum, hnone, hempty⟩
      · obtain ⟨h0, hpos⟩ := ht.screenCreated scr hmem u
        refine ⟨le_trans h0 (hsame u).2.2.1, ?_⟩
        rintro o' (_ | ⟨_, ho'⟩) hty hon
        · exact (hsame u).2.2.2 hty (by rw [← hnum]; exact hon)
        · exact lt_of_lt_of_le (hpos o' ho' hty (by rw [← hnum]; exact hon)) (hsame u).2.2.1
      · refine ⟨(hempty u).2.2.ge, ?_⟩
        rintro o' (_ | ⟨_, ho'⟩) hty hon
        · rw [hnone] at hon
          cases hon
        · obtain ⟨-, scr, hmem, hnum'⟩ := ht.onScreen o' ho' _ hon
          have := ht.numbers.screenFresh scr hmem
          omega
  · rw [Sized, ha.live]
    rintro o' (_ | ⟨_, ho'⟩)
    · rw [ha.area, update_self, length_replicate]
    · rw [(hview o' ho').2, harea o' ho']
      exact hs o' ho'
  · refine hk.kept_same (ht.typed o' ho') (by rw [(hview o' ho').1]) ?_
    rw [harea o' ho']
    exact .refl (hs o' ho')

theorem countCreated_key (d : ℤ) (t u : DevPrivateType) (g : DevPrivateType → DevPrivateSetRec) :
    (countCreated d t g u).key = (g u).key ∧ (countCreated d t g u).offset = (g u).offset := by
  unfold countCreated
  split <;> exact ⟨rfl, rfl⟩

theorem dixAllocatePrivates_some (h : dixAllocatePrivates t ok s = some s') :
    s' = addObject { type := t, num := s.next } (s.globalKeys t).offset s := by
  unfold dixAllocatePrivates at h
  dsimp only at h
  split at h
  · cases h
    rfl
  · cases h

/-- The screens are the same, and the new object is on none. -/
theorem ScreensKept.same (hscreens : s'.allScreens = s.allScreens) (ho : o.screen = none) : ScreensKept o s s' := by
  refine ⟨fun num _ => ⟨id, ?_, fun _ _ => ⟨rfl, rfl⟩⟩, fun scr hscr => ⟨scr, hscreens ▸ hscr, rfl⟩, fun scr hscr => ?_⟩
  · rw [State.screen?, hscreens, Option.map_id_fun]
    rfl
  · refine .inl ⟨scr, hscreens ▸ hscr, rfl, fun u => ⟨rfl, rfl, le_rfl, fun _ hon => ?_⟩⟩
    rw [ho] at hon
    cases hon

/-- An object on no screen, in a state whose tables hold at least what they held. -/
theorem Added.of_none (hty : t ≠ xselinux) (hlive : s'.live = { type := t, num := s.next } :: s.live)
    (hnext : s'.next = s.next + 1) (hkeys : s'.globalKeys = countCreated 1 t s.globalKeys) (hn : Numbers s')
    (harea : s'.area = update s.area { type := t, num := s.next }
      (replicate (s.globalKeys t).offset 0))
    (hscreen : t = screen → ∃ scr ∈ s'.allScreens, scr.num = s.next)
    (hdevice : t = device → s.next ∈ s'.devices ++ s'.offDevices)
    (hdevices : ∀ num ∈ s.devices ++ s.offDevices, num ∈ s'.devices ++ s'.offDevices) :
    Added { type := t, num := s.next } s s' := by
  refine ⟨hlive, hnext, rfl, hty, fun u => by rw [hkeys], fun u => ?_, fun u => ?_, hn, ?_, (fun num h => by cases h),
    hscreen, hdevice, hdevices⟩
  · rw [hkeys]
    exact (countCreated_key 1 t u _).1
  · rw [hkeys]
    exact (countCreated_key 1 t u _).2
  · rw [harea]
    congr 2
    show _ = (s'.globalKeys t).offset
    rw [hkeys]
    exact (countCreated_key 1 t t _).2.symm

theorem addObject_spec (hinv : Inv s) (hty : t ≠ xselinux) (hscreen : t ≠ screen) (hdevice : t ≠ device)
    (hfit : (s.globalKeys t).created + 1 < 2 ^ 31) :
    Inv (addObject { type := t, num := s.next } (s.globalKeys t).offset s) ∧
      ∀ o ∈ s.live, Kept s (addObject { type := t, num := s.next } (s.globalKeys t).offset s) o := by
  have hn : Numbers (addObject { type := t, num := s.next } (s.globalKeys t).offset s) := hinv.tables.numbers.mono rfl rfl
    rfl (Nat.le_succ _)
  exact (Added.of_none hty rfl rfl rfl hn rfl (fun h => absurd h hscreen) (fun h => absurd h hdevice)
    fun _ h => h).spec (.same rfl rfl) hinv hfit

/-- Nothing that an object sees has changed. -/
theorem Inv.keep (hinv : Inv s) : Inv s ∧ ∀ o ∈ s.live, Kept s s o := by
  obtain ⟨room, hk⟩ := hinv.keys
  exact ⟨hinv, fun o ho => hk.kept_same (hinv.tables.typed o ho) (.refl _) (.refl (hinv.sized o ho))⟩

theorem AddScreen_spec (gpu ok : Bool) (hinv : Inv s) (hfit : (s.globalKeys screen).created + 1 < 2 ^ 31) :
    Inv (AddScreen gpu ok s) ∧ ∀ o ∈ s.live, Kept s (AddScreen gpu ok s) o := by
  unfold AddScreen
  by_cases hfull : (if gpu then s.gpuScreens else s.screens).length = MAXSCREENS
  · simp only [if_pos hfull]
    exact hinv.keep
  simp only [if_neg hfull]
  cases halloc : dixAllocatePrivates screen ok s with
  | none => exact hinv.keep
  | some s₁ =>
    obtain rfl := dixAllocatePrivates_some halloc
    dsimp only
    set scr : ScreenRec := { num := s.next, screenSpecificPrivates := fun t => { offset := (s.globalKeys t).offset } }
      with hscr
    set s₁ := addObject { type := screen, num := s.next } (s.globalKeys screen).offset s with hs₁
    -- the new screen goes to the end of its list
    have hadd : ∀ s' : State, (∃ pre post, s.allScreens = pre ++ post ∧ s'.allScreens = pre ++ scr :: post) →
        s'.live = s₁.live → s'.next = s₁.next → s'.globalKeys = s₁.globalKeys → s'.area = s₁.area →
        s'.devices = s.devices → s'.offDevices = s.offDevices → s'.extensions = s.extensions →
        Inv s' ∧ ∀ o ∈ s.live, Kept s s' o := by
      rintro s' ⟨pre, post, hold, hnew⟩ hlive hnext hkeys harea hdev hoff hext
      have hperm : s'.allScreens.Perm (scr :: s.allScreens) := by
        rw [hold, hnew]
        exact perm_middle
      have hmem : ∀ scr', scr' ∈ s'.allScreens ↔ scr' = scr ∨ scr' ∈ s.allScreens := fun scr' => by
        rw [hperm.mem_iff, mem_cons]
      have hnums := hinv.tables.numbers
      have hn : Numbers s' := by
        have hentry : ∀ i, GetExtensionEntry s' i = GetExtensionEntry s i := by
          intro i
          rw [GetExtensionEntry, hext, GetExtensionEntry]
        have hsucc : s'.next = s.next + 1 := hnext
        constructor
        · refine (hperm.map _).nodup_iff.2 (nodup_cons.2 ⟨fun hin => ?_, hnums.screenNums⟩)
          obtain ⟨scr', hscr', hnum⟩ := mem_map.1 hin
          have := hnums.screenFresh scr' hscr'
          rw [hnum] at this
          exact lt_irrefl _ this
        · intro scr' hscr'
          rw [hsucc]
          rcases (hmem scr').1 hscr' with rfl | hscr'
          · exact Nat.lt_succ_self _
          · exact Nat.lt_succ_of_lt (hnums.screenFresh scr' hscr')
        · rw [hdev, hoff]
          exact hnums.deviceNums
        · rw [hdev, hoff, hsucc]
          exact fun num hnum => Nat.lt_succ_of_lt (hnums.deviceFresh num hnum)
        · intro i j num hi hj
          rw [hentry] at hi hj
          exact hnums.extensionNums i j num hi hj
        · intro i num hi
          rw [hentry] at hi
          rw [hsucc]
          exact Nat.lt_succ_of_lt (hnums.extensionFresh i num hi)
        · refine (hperm.filterMap _).nodup_iff.2 ?_
          exact hnums.colormapNums
        · intro scr' hscr' num hnum
          rw [hsucc]
          rcases (hmem scr').1 hscr' with rfl | hscr'
          · cases hnum
          · exact Nat.lt_succ_of_lt (hnums.colormapFresh scr' hscr' num hnum)
      have ha : Added { type := screen, num := s.next } s s' :=
        .of_none (by decide) hlive hnext hkeys hn harea (fun _ => ⟨scr, (hmem scr).2 (.inl rfl), rfl⟩)
          (fun h => by cases h) fun num hnum => by rw [hdev, hoff]; exact hnum
      refine ha.spec ⟨fun num hlt => ⟨id, ?_, fun _ _ => ⟨rfl, rfl⟩⟩, ?_, ?_⟩ hinv hfit
      · have hne : scr.num ≠ num := ne_of_gt hlt
        unfold State.screen?
        rw [hnew, hold, find?_append, find?_append, find?_cons_of_neg (by simpa using hne),
          Option.map_id_fun]
        rfl
      · exact fun scr' hscr' => ⟨scr', (hmem scr').2 (.inr hscr'), rfl⟩
      · intro scr' hscr'
        rcases (hmem scr').1 hscr' with rfl | hscr'
        · exact .inr ⟨rfl, rfl, fun u => ⟨rfl, rfl, rfl⟩⟩
        · exact .inl ⟨scr', hscr', rfl, fun u => ⟨rfl, rfl, le_rfl, fun _ h => by cases h⟩⟩
    split
    · exact hadd _ ⟨s.screens ++ s.gpuScreens, [], by simp [State.allScreens], by simp [State.allScreens, hs₁, addObject]⟩
        rfl rfl rfl rfl rfl rfl rfl
    · exact hadd _ ⟨s.screens, s.gpuScreens, rfl, by simp [State.allScreens, hs₁, addObject]⟩
        rfl rfl rfl rfl rfl rfl rfl

theorem createServerClient_spec (ok : Bool) (hinv : Inv s) (hfit : (s.globalKeys client).created + 1 < 2 ^ 31) :
    Inv (createServerClient ok s) ∧ ∀ o ∈ s.live, Kept s (createServerClient ok s) o := by
  unfold createServerClient
  split
  · exact hinv.keep
  cases halloc : dixAllocatePrivates client ok s with
  | none => exact hinv.keep
  | some s₁ =>
    obtain rfl := dixAllocatePrivates_some halloc
    let s' : State := { addObject { type := client, num := s.next } (s.globalKeys client).offset s with
      serverClient := some s.next }
    have hn : Numbers s' := hinv.tables.numbers.mono rfl rfl rfl (Nat.le_succ _)
    have ha : Added { type := client, num := s.next } s s' :=
      .of_none (by decide) rfl rfl rfl hn rfl (fun h => by cases h) (fun h => by cases h) fun _ h => h
    exact ha.spec (.same rfl rfl) hinv hfit

theorem AddExtension_spec (slot : Option ℕ) (ok : Bool) (hinv : Inv s)
    (hfit : (s.globalKeys extension).created + 1 < 2 ^ 31) :
    Inv (AddExtension slot ok s) ∧ ∀ o ∈ s.live, Kept s (AddExtension slot ok s) o := by
  unfold AddExtension
  cases halloc : dixAllocatePrivates extension ok s with
  | none => exact hinv.keep
  | some s₁ =>
    obtain rfl := dixAllocatePrivates_some halloc
    have hnums := hinv.tables.numbers
    -- the table holds what it held and the new entry, at most once each
    have hadd : ∀ ext : List (Option ℕ), (∃ i, ∀ j num, (ext[j]?).join = some num →
        j = i ∧ num = s.next ∨ j ≠ i ∧ GetExtensionEntry s j = some num) →
        let s' := { addObject { type := extension, num := s.next } (s.globalKeys extension).offset s with
          extensions := ext }
        Inv s' ∧ ∀ o ∈ s.live, Kept s s' o := by
      rintro ext ⟨i, hentry⟩ s'
      have hn : Numbers { s with next := s.next + 1 } := hnums.mono rfl rfl rfl (Nat.le_succ _)
      have hn' : Numbers s' := by
        refine ⟨hn.1, hn.2, hn.3, hn.4, ?_, ?_, hn.7, hn.8⟩
        · intro j j' num hj hj'
          rcases hentry j num hj with ⟨rfl, rfl⟩ | ⟨-, hj⟩ <;> rcases hentry j' _ hj' with ⟨rfl, hnum⟩ | ⟨-, hj'⟩
          · rfl
          · exact absurd (hnums.extensionFresh j' _ hj') (lt_irrefl _)
          · exact absurd (hnums.extensionFresh j _ hj) (by rw [hnum]; exact lt_irrefl _)
          · exact hnums.extensionNums j j' num hj hj'
        · intro j num hj
          rcases hentry j num hj with ⟨-, rfl⟩ | ⟨-, hj⟩
          · exact Nat.lt_succ_self _
          · exact Nat.lt_succ_of_lt (hnums.extensionFresh j num hj)
      exact (Added.of_none (t := extension) (by decide) rfl rfl rfl hn' rfl (fun h => by cases h)
        (fun h => by cases h) fun _ h => h).spec (.same rfl rfl) hinv hfit
    cases slot with
    | none =>
      refine hadd _ ⟨s.extensions.length, fun j num hj => ?_⟩
      rcases lt_trichotomy j s.extensions.length with hlt | rfl | hgt
      · rw [getElem?_append_left hlt] at hj
        exact .inr ⟨hlt.ne, hj⟩
      · rw [List.getElem?_append_right le_rfl, Nat.sub_self] at hj
        cases hj
        exact .inl ⟨rfl, rfl⟩
      · rw [getElem?_eq_none (by simp; omega)] at hj
        cases hj
    | some i =>
      refine hadd _ ⟨i, fun j num hj => ?_⟩
      by_cases hji : j = i
      · subst hji
        rw [getElem?_set_self'] at hj
        cases hfound : s.extensions[j]? with
        | none =>
          rw [hfound] at hj
          cases hj
        | some _ =>
          rw [hfound] at hj
          cases hj
          exact .inl ⟨rfl, rfl⟩
      · rw [getElem?_set_ne (Ne.symm hji)] at hj
        exact .inr ⟨hji, hj⟩

theorem AddInputDevice_spec (ok : Bool) (hinv : Inv s) (hfit : (s.globalKeys device).created + 1 < 2 ^ 31) :
    Inv (AddInputDevice ok s) ∧ ∀ o ∈ s.live, Kept s (AddInputDevice ok s) o := by
  unfold AddInputDevice
  cases halloc : dixAllocatePrivates device ok s with
  | none => exact hinv.keep
  | some s₁ =>
    obtain rfl := dixAllocatePrivates_some halloc
    have hnums := hinv.tables.numbers
    have hn : Numbers { s with next := s.next + 1 } := hnums.mono rfl rfl rfl (Nat.le_succ _)
    set s' : State := { addObject { type := device, num := s.next } (s.globalKeys device).offset s with
      offDevices := s.offDevices ++ [s.next] } with hs'
    have hdevices : s'.devices ++ s'.offDevices = (s.devices ++ s.offDevices) ++ [s.next] :=
      (append_assoc _ _ _).symm
    have hn' : Numbers s' := by
      refine ⟨hn.1, hn.2, ?_, ?_, hn.5, hn.6, hn.7, hn.8⟩
      · rw [hdevices]
        refine nodup_append.2 ⟨hnums.deviceNums, nodup_singleton _, fun num hnum num' hnum' => ?_⟩
        obtain rfl := mem_singleton.1 hnum'
        exact ne_of_lt (hnums.deviceFresh num hnum)
      · rw [hdevices]
        intro num hnum
        rcases mem_append.1 hnum with hnum | hnum
        · exact Nat.lt_succ_of_lt (hnums.deviceFresh num hnum)
        · rw [mem_singleton.1 hnum]
          exact Nat.lt_succ_self _
    refine (Added.of_none (t := device) (by decide) rfl rfl rfl hn' rfl (fun h => by cases h) (fun _ => ?_) ?_).spec
      (.same rfl rfl) hinv hfit
    · rw [hdevices]
      simp
    · rw [hdevices]
      exact fun num hnum => mem_append_left _ hnum

theorem screen?_updateScreen (hf : ∀ scr, (f scr).num = scr.num) (num' : ℕ) :
    (s.updateScreen num f).screen? num' = (s.screen? num').map fun scr => if scr.num = num then f scr else scr := by
  unfold State.screen? State.updateScreen State.mapScreens State.allScreens
  rw [← map_append, find?_map]
  congr 2
  funext scr
  simp only [comp_apply]
  split
  · rw [hf]
  · rfl

theorem mem_updateScreen {scr' : ScreenRec} :
    scr' ∈ (s.updateScreen num f).allScreens ↔ ∃ scr ∈ s.allScreens, (if scr.num = num then f scr else scr) = scr' := by
  unfold State.updateScreen State.mapScreens State.allScreens
  rw [← List.map_append, List.mem_map]

/-- A new object, and a change to one screen that keeps the sets of keys. -/
theorem ScreensKept.update {s₁ : State} (hscreens : s₁.allScreens = s.allScreens)
    (hf : ∀ scr, (f scr).num = scr.num) (hkeys : ∀ scr u,
      ((f scr).screenSpecificPrivates u).key = (scr.screenSpecificPrivates u).key ∧
      ((f scr).screenSpecificPrivates u).offset = (scr.screenSpecificPrivates u).offset)
    (hcreated : ∀ scr ∈ s.allScreens, scr.num = num → ∀ u,
      (scr.screenSpecificPrivates u).created ≤ ((f scr).screenSpecificPrivates u).created ∧
      (o.type = u → o.screen.isSome → 0 < ((f scr).screenSpecificPrivates u).created))
    (hon : ∀ n, o.screen = some n → n = num) : ScreensKept o s (s₁.updateScreen num f) := by
  have hfound : ∀ num', s₁.screen? num' = s.screen? num' := fun num' => by rw [State.screen?, hscreens, State.screen?]
  refine ⟨fun num' _ => ⟨fun scr => if scr.num = num then f scr else scr, ?_, fun scr u => ?_⟩, fun scr hscr => ?_,
    fun scr' hscr' => ?_⟩
  · rw [screen?_updateScreen hf, hfound]
  · dsimp only
    split
    · exact hkeys scr u
    · exact ⟨rfl, rfl⟩
  · refine ⟨_, mem_updateScreen.2 ⟨scr, hscreens ▸ hscr, rfl⟩, ?_⟩
    split
    · exact hf scr
    · rfl
  · obtain ⟨scr, hscr, rfl⟩ := mem_updateScreen.1 hscr'
    rw [hscreens] at hscr
    refine .inl ⟨scr, hscr, ?_, fun u => ?_⟩
    · split
      · exact hf scr
      · rfl
    · by_cases hnum : scr.num = num
      · rw [if_pos hnum]
        obtain ⟨hle, hpos⟩ := hcreated scr hscr hnum u
        exact ⟨(hkeys scr u).1, (hkeys scr u).2, hle, fun hty hscreen => hpos hty (by rw [hscreen]; rfl)⟩
      · rw [if_neg hnum]
        exact ⟨rfl, rfl, le_rfl, fun _ hscreen => absurd (hon _ hscreen) hnum⟩

variable (num) in
theorem createDefColormap_spec (ok : Bool) (hinv : Inv s) (hfit : (s.globalKeys colormap).created + 1 < 2 ^ 31) :
    Inv (createDefColormap num ok s) ∧ ∀ o ∈ s.live, Kept s (createDefColormap num ok s) o := by
  unfold createDefColormap
  cases hscr : s.screen? num with
  | none => exact hinv.keep
  | some scr =>
  dsimp only
  by_cases hsome : scr.defColormap.isSome
  · rw [if_pos hsome]
    exact hinv.keep
  rw [if_neg hsome]
  cases halloc : dixAllocatePrivates colormap ok s with
  | none => exact hinv.keep
  | some s₁ =>
    obtain rfl := dixAllocatePrivates_some halloc
    have hnums := hinv.tables.numbers
    let f : ScreenRec → ScreenRec := fun scr => { scr with defColormap := some s.next }
    let s' := (addObject { type := colormap, num := s.next } (s.globalKeys colormap).offset s).updateScreen num f
    have hall : s'.allScreens = s.allScreens.map fun scr => if scr.num = num then f scr else scr :=
      (map_append ..).symm
    have hn : Numbers s' := by
      have hn : Numbers { s with next := s.next + 1 } := hnums.mono rfl rfl rfl (Nat.le_succ _)
      refine ⟨?_, ?_, hn.3, hn.4, hn.5, hn.6, ?_, ?_⟩
      · have : (s.allScreens.map fun scr => if scr.num = num then f scr else scr).map (·.num) =
            s.allScreens.map (·.num) := by
          rw [List.map_map]
          refine map_congr_left fun scr _ => ?_
          simp only [comp_apply]
          split <;> rfl
        rw [hall, this]
        exact hnums.screenNums
      · intro scr' hscr'
        obtain ⟨scr', hmem, rfl⟩ := mem_updateScreen.1 hscr'
        have := hn.screenFresh scr' hmem
        split
        · exact this
        · exact this
      · -- one screen now has the new colormap, which no other has
        have hdiff := pairwise_filterMap.1 hnums.colormapNums
        have hne := pairwise_map.1 hnums.screenNums
        rw [hall, filterMap_map]
        refine pairwise_filterMap.2 ((hdiff.and hne).imp_of_mem ?_)
        rintro scr₁ scr₂ hmem₁ hmem₂ ⟨hdiff, hne⟩ n₁ h₁ n₂ h₂
        simp only [comp_apply] at h₁ h₂
        split at h₁ <;> split at h₂
        · next heq₁ heq₂ => exact absurd (heq₁.trans heq₂.symm) hne
        · cases h₁
          exact ne_of_gt (hnums.colormapFresh scr₂ hmem₂ n₂ h₂)
        · cases h₂
          exact ne_of_lt (hnums.colormapFresh scr₁ hmem₁ n₁ h₁)
        · exact hdiff n₁ h₁ n₂ h₂
      · intro scr' hscr' n hn'
        obtain ⟨scr', hmem, rfl⟩ := mem_updateScreen.1 hscr'
        split at hn'
        · cases hn'
          exact Nat.lt_succ_self _
        · exact hn.colormapFresh scr' hmem n hn'
    have ha : Added { type := colormap, num := s.next } s s' :=
      .of_none (by decide) rfl rfl rfl hn rfl (fun h => by cases h) (fun h => by cases h) fun _ h => h
    exact ha.spec (.update rfl (fun _ => rfl) (fun _ _ => ⟨rfl, rfl⟩) (fun _ _ _ _ => ⟨le_rfl, fun _ h => by cases h⟩)
      fun _ h => by cases h) hinv hfit

theorem dixAllocateObjectWithPrivates_spec (ok : Bool) (hinv : Inv s) (hfit : (s.globalKeys t).created + 1 < 2 ^ 31) :
    Inv (dixAllocateObjectWithPrivates t ok s) ∧ ∀ o ∈ s.live, Kept s (dixAllocateObjectWithPrivates t ok s) o := by
  unfold dixAllocateObjectWithPrivates
  split
  · next h =>
    refine addObject_spec hinv ?_ ?_ ?_ hfit <;> rintro rfl <;> exact absurd h.1 (by decide)
  · exact hinv.keep

theorem dixAllocateScreenObjectWithPrivates_spec {pScreen : Option ℕ} (hinv : Inv s) (hfit : (s.globalKeys t).created + 1 < 2 ^ 31)
    (hfitScreen : ∀ scr ∈ s.allScreens, (scr.screenSpecificPrivates t).created + 1 < 2 ^ 31)
    (h : dixAllocateScreenObjectWithPrivates pScreen t ok s = some s') : Inv s' ∧ ∀ o ∈ s.live, Kept s s' o := by
  unfold dixAllocateScreenObjectWithPrivates at h
  by_cases hspecific : t.screenSpecificPrivate = true
  swap
  · rw [if_pos (by simpa using hspecific)] at h
    cases h
  have hne : t ≠ xselinux ∧ t ≠ screen ∧ t ≠ device := by
    refine ⟨?_, ?_, ?_⟩ <;> rintro rfl <;> cases hspecific
  rw [if_neg (by simp [hspecific])] at h
  split at h
  · cases h
    exact hinv.keep
  cases pScreen with
  | none =>
    cases h
    exact addObject_spec hinv hne.1 hne.2.1 hne.2.2 hfit
  | some num =>
    dsimp only at h
    cases hscr : s.screen? num with
    | none =>
      rw [hscr] at h
      cases h
      exact hinv.keep
    | some scr =>
      rw [hscr] at h
      cases h
      obtain ⟨hmem, hnum⟩ := screen?_mem hscr
      set o : Object := { type := t, screen := some num, num := s.next } with ho
      set s₁ := addObject o (scr.screenSpecificPrivates t).offset s with hs₁
      have hcount : ∀ scr ∈ s.allScreens, ∀ u,
          (scr.screenSpecificPrivates u).created ≤ ((scr.countCreated t).screenSpecificPrivates u).created ∧
            (u = t → 0 < ((scr.countCreated t).screenSpecificPrivates u).created) := by
        intro scr' hscr' u
        by_cases hu : u = t
        · subst hu
          have hself : ((scr'.countCreated u).screenSpecificPrivates u).created =
              wrapInt ((scr'.screenSpecificPrivates u).created + 1) := by
            show (update scr'.screenSpecificPrivates u _ u).created = _
            rw [update_self]
          have h0 := (hinv.tables.screenCreated scr' hscr' u).1
          rw [hself, wrapInt_eq (by omega) (hfitScreen scr' hscr')]
          exact ⟨by omega, fun _ => by omega⟩
        · have hother : (scr'.countCreated t).screenSpecificPrivates u = scr'.screenSpecificPrivates u :=
            update_of_ne hu _ _
          rw [hother]
          exact ⟨le_rfl, fun h => absurd h hu⟩
      have hkeep : ∀ (scr : ScreenRec) u,
          ((scr.countCreated t).screenSpecificPrivates u).key = (scr.screenSpecificPrivates u).key ∧
          ((scr.countCreated t).screenSpecificPrivates u).offset = (scr.screenSpecificPrivates u).offset := by
        intro scr' u
        show (update scr'.screenSpecificPrivates t _ u).key = _ ∧
          (update scr'.screenSpecificPrivates t _ u).offset = _
        by_cases hu : u = t
        · subst hu
          rw [update_self]
          exact ⟨rfl, rfl⟩
        · rw [update_of_ne hu]
          exact ⟨rfl, rfl⟩
      have hkept : ScreensKept o s (s₁.updateScreen num (·.countCreated t)) :=
        .update rfl (fun _ => rfl) hkeep
          (fun scr' hscr' _ u => ⟨(hcount scr' hscr' u).1, fun hty _ => (hcount scr' hscr' u).2 hty.symm⟩)
          fun n hn => (some_inj.1 hn).symm
      have hn : Numbers (s₁.updateScreen num (·.countCreated t)) := by
        refine hinv.tables.numbers.map (f := fun scr => if scr.num = num then scr.countCreated t else scr)
          (fun scr => ?_) (List.map_append ..).symm rfl rfl (Nat.le_succ _)
        split <;> exact ⟨rfl, rfl⟩
      have hsize : areaSize (s₁.updateScreen num (·.countCreated t)) o = (scr.screenSpecificPrivates t).offset := by
        unfold areaSize
        have hfound : (s₁.updateScreen num (·.countCreated t)).screen? num = some (scr.countCreated t) := by
          rw [screen?_updateScreen (f := (·.countCreated t)) (fun _ => rfl) num]
          show (s.screen? num).map _ = _
          rw [hscr, map_some, if_pos hnum]
        have hbind : (some num).bind (s₁.updateScreen num (·.countCreated t)).screen? = some (scr.countCreated t) := hfound
        simp only [o, hbind]
        exact (hkeep scr t).2
      have ha : Added o s (s₁.updateScreen num (·.countCreated t)) := by
        refine ⟨rfl, rfl, rfl, hne.1, fun _ => rfl, fun u => (countCreated_key 1 t u _).1,
          fun u => (countCreated_key 1 t u _).2, hn, ?_, ?_, fun h => absurd h hne.2.1, fun h => absurd h hne.2.2,
          fun _ h => h⟩
        · rw [hsize]
          rfl
        · rintro n ⟨⟩
          exact ⟨hspecific, scr.countCreated t, mem_updateScreen.2 ⟨scr, hmem, if_pos hnum⟩, hnum⟩
      exact ha.spec hkept hinv hfit

/-! ### Other steps -/

/-- A state that differs in what no object sees. -/
theorem Inv.unseen (hinv : Inv s) (ht : Tables s') (hlive : ∀ o ∈ s'.live, o ∈ s.live)
    (hkey : ∀ u, (s'.globalKeys u).key = (s.globalKeys u).key)
    (hoffset : ∀ u, (s'.globalKeys u).offset = (s.globalKeys u).offset) (hscreens : s'.allScreens = s.allScreens)
    (harea : ∀ o ∈ s.live, (s'.area o).length = (s.area o).length) : Inv s' := by
  obtain ⟨⟨room, hk⟩, -, hs⟩ := hinv
  refine ⟨⟨room, hk.congr hkey hoffset fun scr hscr => .inl ⟨scr, hscreens ▸ hscr, fun _ => ⟨rfl, rfl⟩⟩⟩, ht, ?_⟩
  intro o ho
  have hsize : areaSize s' o = areaSize s o := by
    refine areaSize_congr (f := id) (hoffset _) (fun num _ => ?_) fun _ => rfl
    rw [State.screen?, hscreens, Option.map_id_fun]
    rfl
  rw [hsize, harea o (hlive o ho)]
  exact hs o (hlive o ho)

theorem EnableDevice_spec (hinv : Inv s) : Inv (EnableDevice num s) ∧ ∀ o ∈ s.live, Kept s (EnableDevice num s) o := by
  unfold EnableDevice
  split
  swap
  · exact hinv.keep
  next hoff =>
  have ht := hinv.tables
  have hperm : (s.devices ++ [num] ++ s.offDevices.erase num).Perm (s.devices ++ s.offDevices) := by
    rw [append_assoc]
    exact (perm_cons_erase hoff).symm.append_left s.devices
  have hn : Numbers { s with devices := s.devices ++ [num], offDevices := s.offDevices.erase num } := by
    have hn := ht.numbers
    exact ⟨hn.1, hn.2, hperm.nodup_iff.2 hn.3, fun n hn' => hn.4 n (hperm.subset hn'), hn.5, hn.6, hn.7, hn.8⟩
  have ht' : Tables { s with devices := s.devices ++ [num], offDevices := s.offDevices.erase num } :=
    ⟨hn, ht.fresh, ht.nodup, ht.typed, ht.onScreen, ht.screenListed,
      fun o ho hty => hperm.symm.subset (ht.deviceListed o ho hty), ht.created, ht.screenCreated⟩
  obtain ⟨room, hk⟩ := hinv.keys
  exact ⟨hinv.unseen ht' (fun _ h => h) (fun _ => rfl) (fun _ => rfl) rfl fun _ _ => rfl,
    fun o ho => hk.kept_same (ht.typed o ho) (.refl _) (.refl (hinv.sized o ho))⟩

theorem dixFreeObjectWithPrivates_spec (hinv : Inv s) (hfit : (s.globalKeys o.type).created < 2 ^ 31) :
    Inv (dixFreeObjectWithPrivates o s) ∧ ∀ o' ∈ s.live, Kept s (dixFreeObjectWithPrivates o s) o' := by
  unfold dixFreeObjectWithPrivates
  split
  swap
  · exact hinv.keep
  next h =>
  have ht := hinv.tables
  obtain ⟨hlive, -⟩ := h
  have hsub : ∀ o' ∈ s.live.erase o, o' ∈ s.live := fun _ h => mem_of_mem_erase h
  set s' : State := { s with globalKeys := countCreated (-1) o.type s.globalKeys, live := s.live.erase o } with hs'
  have hkey : ∀ u, (s'.globalKeys u).key = (s.globalKeys u).key := fun u => (countCreated_key (-1) o.type u _).1
  have hoffset : ∀ u, (s'.globalKeys u).offset = (s.globalKeys u).offset :=
    fun u => (countCreated_key (-1) o.type u _).2
  have ht' : Tables s' := by
    have hn := ht.numbers
    refine ⟨⟨hn.1, hn.2, hn.3, hn.4, hn.5, hn.6, hn.7, hn.8⟩, fun o' ho' => ht.fresh o' (hsub o' ho'),
      ht.nodup.erase o, fun o' ho' => ht.typed o' (hsub o' ho'), fun o' ho' => ht.onScreen o' (hsub o' ho'),
      fun o' ho' => ht.screenListed o' (hsub o' ho'), fun o' ho' => ht.deviceListed o' (hsub o' ho'), ?_, ?_⟩
    · intro u hu
      have hcount := (perm_cons_erase hlive).countP_eq (fun o' => decide (o'.type = u))
      rw [countP_cons] at hcount
      show (countCreated (-1) o.type s.globalKeys u).created = ((s.live.erase o).countP _ : ℕ)
      unfold countCreated
      by_cases htype : u = o.type
      · subst htype
        have hcreated := ht.created _ hu
        simp only [decide_true, if_true] at hcount
        rw [if_pos (.inl rfl)]
        show wrapInt ((s.globalKeys o.type).created + -1) = _
        rw [wrapInt_eq (by omega) (by omega)]
        omega
      · rw [if_neg (by simp [htype, hu]), ht.created u hu]
        simp only [Ne.symm htype] at hcount
        simpa using hcount
    · intro scr hscr u
      obtain ⟨h0, hpos⟩ := ht.screenCreated scr hscr u
      exact ⟨h0, fun o' ho' => hpos o' (hsub o' ho')⟩
  obtain ⟨room, hk⟩ := hinv.keys
  refine ⟨hinv.unseen ht' hsub hkey hoffset rfl fun _ _ => rfl, fun o' ho' => ?_⟩
  refine hk.kept_same (ht.typed o' ho') ?_ (.refl (hinv.sized o' ho'))
  rw [keysOf_congr (s := s) (f := id) (fun u _ => hkey u) (fun num _ => ?_) fun _ => rfl]
  rw [Option.map_id_fun]
  rfl

/-- A store through a key changes no length. -/
theorem setPrivate_inv {bytes : List Byte} (hinv : Inv s) : Inv (setPrivate o id bytes s) := by
  unfold setPrivate
  split
  · exact hinv
  next k hfind =>
  split
  swap
  · exact hinv
  next hlen =>
  have ht := hinv.tables
  have hn := ht.numbers
  refine hinv.unseen ⟨⟨hn.1, hn.2, hn.3, hn.4, hn.5, hn.6, hn.7, hn.8⟩, ht.2, ht.3, ht.4, ht.5, ht.6, ht.7, ht.8, ht.9⟩
    (fun _ h => h) (fun _ => rfl) (fun _ => rfl) rfl fun o' ho' => ?_
  dsimp only
  by_cases ho : o' = o
  · subst ho
    obtain ⟨room, hk⟩ := hinv.keys
    have hin := (hk.packed (ht.typed o' ho')).within (mem_of_find?_eq_some hfind)
    have hsize := hinv.sized o' ho'
    rw [update_self, length_memWrite (by omega)]
  · rw [update_of_ne ho]

/-! ### Runs -/

/-- What a step has to find. An `xselinux` key is the first of its kind: the set of these keys is not
one that is moved, so that a second one gets the offset of the first. The fixups of the types that are
affected go through all their objects: there is no unused slot in front of an extension, and no client
and no colormap but the server client and the default colormaps of screens that are not GPU screens. The
rest are the ranges of the C types. -/
def Sound (s : State) : Op → Prop
  | .registerKey _ id t size => s.registered id = none →
      size.toNat < 2 ^ 31 ∧ (t = xselinux → (s.globalKeys xselinux).key = []) ∧
      ∀ u, Affected t u → Fits s u (requiredSpace size) ∧ (u ∈ [extension, colormap, client] → Visited s u)
  | .registerScreenKey num _ t size => size.toNat < 2 ^ 31 ∧
      ∀ scr, s.screen? num = some scr → (scr.screenSpecificPrivates t).offset + requiredSpace size < 2 ^ 31
  | .addScreen _ _ => (s.globalKeys screen).created + 1 < 2 ^ 31
  | .serverClient _ => (s.globalKeys client).created + 1 < 2 ^ 31
  | .addExtension _ _ => (s.globalKeys extension).created + 1 < 2 ^ 31
  | .addDevice _ => (s.globalKeys device).created + 1 < 2 ^ 31
  | .defColormap _ _ => (s.globalKeys colormap).created + 1 < 2 ^ 31
  | .allocate t _ => (s.globalKeys t).created + 1 < 2 ^ 31
  | .allocateOnScreen _ t _ => (s.globalKeys t).created + 1 < 2 ^ 31 ∧
      ∀ scr ∈ s.allScreens, (scr.screenSpecificPrivates t).created + 1 < 2 ^ 31
  | .free o => (s.globalKeys o.type).created < 2 ^ 31
  | .enableDevice _ | .write _ _ _ => True

/-- A store changes what is read, on purpose. -/
def Op.isWrite : Op → Bool
  | .write _ _ _ => true
  | _ => false

theorem exec_spec {op : Op} (hinv : Inv s) (hop : Sound s op) (h : exec s op = some s') :
    Inv s' ∧ (op.isWrite = false → ∀ o ∈ s.live, Kept s s' o) := by
  cases op with
  | registerKey alloc id t size =>
    obtain ⟨r, hr, rfl⟩ := map_eq_some_iff.1 h
    cases hreg : s.registered id with
    | some k =>
      unfold dixRegisterPrivateKey at hr
      simp only [hreg] at hr
      split at hr
      · cases hr
        exact ⟨hinv, fun _ => hinv.keep.2⟩
      · cases hr
    | none =>
      obtain ⟨hsize, hfirst, haff⟩ := hop hreg
      obtain ⟨hinv', hkept⟩ := registerKey_spec hinv hsize hfirst (fun u hu => (haff u hu).1)
        (fun u hu => (haff u hu).2) hreg hr
      exact ⟨hinv', fun _ => hkept⟩
  | registerScreenKey num id t size =>
    obtain ⟨hinv', hkept⟩ := registerScreenKey_spec hinv hop.1 hop.2 h
    exact ⟨hinv', fun _ => hkept⟩
  | addScreen gpu ok =>
    cases h
    obtain ⟨hinv', hkept⟩ := AddScreen_spec gpu ok hinv hop
    exact ⟨hinv', fun _ => hkept⟩
  | serverClient ok =>
    cases h
    obtain ⟨hinv', hkept⟩ := createServerClient_spec ok hinv hop
    exact ⟨hinv', fun _ => hkept⟩
  | addExtension slot ok =>
    cases h
    obtain ⟨hinv', hkept⟩ := AddExtension_spec slot ok hinv hop
    exact ⟨hinv', fun _ => hkept⟩
  | addDevice ok =>
    cases h
    obtain ⟨hinv', hkept⟩ := AddInputDevice_spec ok hinv hop
    exact ⟨hinv', fun _ => hkept⟩
  | enableDevice num =>
    cases h
    exact ⟨(EnableDevice_spec hinv).1, fun _ => (EnableDevice_spec hinv).2⟩
  | defColormap num ok =>
    cases h
    obtain ⟨hinv', hkept⟩ := createDefColormap_spec num ok hinv hop
    exact ⟨hinv', fun _ => hkept⟩
  | allocate t ok =>
    cases h
    obtain ⟨hinv', hkept⟩ := dixAllocateObjectWithPrivates_spec ok hinv hop
    exact ⟨hinv', fun _ => hkept⟩
  | allocateOnScreen pScreen t ok =>
    obtain ⟨hinv', hkept⟩ := dixAllocateScreenObjectWithPrivates_spec hinv hop.1 hop.2 h
    exact ⟨hinv', fun _ => hkept⟩
  | free o =>
    cases h
    obtain ⟨hinv', hkept⟩ := dixFreeObjectWithPrivates_spec (o := o) hinv hop
    exact ⟨hinv', fun _ => hkept⟩
  | write o id bytes =>
    cases h
    exact ⟨setPrivate_inv hinv, fun h => by cases h⟩

theorem inv_init : Inv {} := by
  refine ⟨⟨0, ?_⟩, ⟨?_, ?_, .nil, ?_, ?_, ?_, ?_, fun _ _ => rfl, ?_⟩, ?_⟩
  · refine ⟨le_rfl, fun t _ => ?_, ?_, ?_, fun _ => Nat.two_pow_pos 31, ?_⟩
    · show base 0 t ≤ 0
      unfold base
      split <;> exact le_rfl
    all_goals
      intro scr hscr
      cases hscr
  · refine ⟨.nil, ?_, .nil, ?_, ?_, ?_, .nil, ?_⟩
    · intro scr hscr
      cases hscr
    · intro num hnum
      cases hnum
    · intro i j num hi
      rw [GetExtensionEntry, getElem?_replicate] at hi
      split at hi <;> cases hi
    · intro i num hi
      rw [GetExtensionEntry, getElem?_replicate] at hi
      split at hi <;> cases hi
    · intro scr hscr
      cases hscr
  all_goals
    intro o ho
    cases ho

/-- The keys of every live object are laid out, and no step but a store changes what is read. -/
def Sane (s : State) : Prop :=
  (∀ o ∈ s.live, LaidOut s o) ∧
    ∀ op s', Sound s op → op.isWrite = false → exec s op = some s' → ∀ o ∈ s.live, Kept s s' o

/-- **Private storage is laid out, and late registration keeps what is stored**, in every state that
a server reaches by steps that meet `Sound`. -/
theorem privates_laid_out {ops : List Op} (h : AllSteps step (fun s op => ∀ s', s = some s' → Sound s' op) (some {}) ops)
    (hs : run step (some {}) ops = some s) : Sane s := by
  have hinv : ∀ s', run step (some {}) ops = some s' → Inv s' := by
    refine AllSteps.invariant (P := fun s => ∀ s', s = some s' → Inv s') ?_ h ?_
    · intro s op hop hinv s' hs'
      obtain ⟨s₀, rfl, hexec⟩ := bind_eq_some_iff.1 hs'
      exact (exec_spec (hinv s₀ rfl) (hop s₀ rfl) hexec).1
    · rintro s' ⟨⟩
      exact inv_init
  have hinv := hinv s hs
  exact ⟨fun o ho => hinv.laidOut ho, fun op s' hop hwrite hexec => (exec_spec hinv hop hexec).2 hwrite⟩

/-- A client registers a key late; its area grows. -/
theorem privates_laid_out_client :
    ∃ s, run step (some {}) [.serverClient true, .registerKey (fun _ => some fun _ => 1) 7 client 4,
      .write { type := client, num := 0 } 7 [1, 2, 3, 4]] = some s ∧ Sane s := by
  suffices hsound : AllSteps step (fun s op => ∀ s', s = some s' → Sound s' op) (some {}) [.serverClient true,
      .registerKey (fun _ => some fun _ => 1) 7 client 4, .write { type := client, num := 0 } 7 [1, 2, 3, 4]] from
    ⟨_, rfl, privates_laid_out hsound rfl⟩
  refine ⟨?_, ?_, ?_, trivial⟩
  · rintro s ⟨⟩
    show (0 : ℤ) + 1 < 2 ^ 31
    decide
  · rintro s ⟨⟩ -
    refine ⟨by decide, (fun h => by cases h), ?_⟩
    rintro u (⟨-, rfl⟩ | ⟨h, -⟩)
    · refine ⟨⟨by decide, fun scr hscr => by cases hscr⟩, ?_⟩
      rintro - o ho - objects ⟨⟩
      exact ho
    · cases h
  · rintro s ⟨⟩
    trivial

/-- Two `xselinux` keys of eight bytes: both get the offset 0. And an extension in a reserved slot behind
an unused one: its area does not grow when a key is registered late. -/
theorem xselinux_keys_overlap :
    (∃ s, run step (some {}) [.registerKey (fun _ => some fun _ => 0) 0 xselinux 8,
        .registerKey (fun _ => some fun _ => 0) 1 xselinux 8, .serverClient true] = some s ∧
      ∃ o ∈ s.live, ¬LaidOut s o) ∧
    ∃ s, run step (some {}) [.addExtension (some 1) true,
        .registerKey (fun _ => some fun _ => 0) 0 extension 8] = some s ∧
      ∃ o ∈ s.live, ¬LaidOut s o := by
  refine ⟨⟨_, rfl, { type := client, num := 0 }, mem_singleton.2 rfl, fun h => ?_⟩,
    ⟨_, rfl, { type := extension, num := 0 }, mem_singleton.2 rfl, fun h => ?_⟩⟩
  · exact absurd (rel_of_pairwise_cons h.disjoint mem_cons_self) (by decide)
  · exact absurd (h.inside _ mem_cons_self).2 (by decide)

end Xenia.Dix.Privates
