import Xenia.Dix.Privates

/-!
# The layout of private areas

`Keys` says how the sets of keys share the areas: the `xselinux` key at the start, the keys of the
type above it, the keys of the screen above those; so the keys of an object are packed from 0 up to
`areaSize` (`Keys.packed`). `Tables` is about the tables of objects that registration goes through.
The two halves of a registration: `resizeType_spec`, `resizeXselinux_spec` make room in the areas of
the live objects, and `Moved.moveTypes` moves what they hold.
-/

namespace Xenia.Dix.Privates

open Xenia.Lib DevPrivateType List Function Option

variable {s s' : State} {t u : DevPrivateType} {o : Object} {k : DevPrivateKeyRec} {bytes n d : ℕ} {room : ℤ}

/-! ### What is read after an area grew or moved -/

/-- The first `n` bytes of `old` are at `d` in `new`. -/
def HoldsAt (n d : ℕ) (old new : List Byte) : Prop := d + n ≤ new.length ∧ (new.drop d).take n = old.take n

variable {old : List Byte}

theorem HoldsAt.refl (h : n ≤ old.length) : HoldsAt n 0 old old := ⟨by omega, by simp⟩

variable {new : List Byte}

theorem HoldsAt.trans {mid : List Byte} {d' : ℕ} (h : HoldsAt n 0 old mid) (h' : HoldsAt n d' mid new) :
    HoldsAt n d' old new := ⟨h'.1, by rw [h'.2]; simpa using h.2⟩

/-- A range inside the first `n` bytes reads the same, `d` bytes further. -/
theorem HoldsAt.read (h : HoldsAt n d old new) {i len : ℕ} (hle : i + len ≤ n) :
    (new.drop (i + d)).take len = (old.drop i).take len := by
  have hold : (old.drop i).take len = ((old.take n).drop i).take len := by
    rw [drop_take, take_take, min_eq_left (by omega)]
  rw [hold, ← h.2, drop_take, take_take, min_eq_left (by omega), drop_drop, add_comm d i]

theorem dixReallocPrivates_spec {alloc : Object → Option (ℕ → Byte)}
    (h : dixReallocPrivates alloc o old n bytes = some new) (hn : n ≤ old.length) (hfit : n + bytes < 2 ^ 32) :
    new.length = n + bytes ∧ HoldsAt n 0 old new := by
  obtain ⟨mid, hmid, rfl⟩ := map_eq_some_iff.1 h
  rw [Nat.mod_eq_of_lt hfit] at hmid
  obtain ⟨hlen, htake⟩ := grow_some hmid
  have hwrite : (memWrite mid n (replicate bytes 0)).length = n + bytes := by
    rw [length_memWrite (by simp [hlen]), hlen]
  refine ⟨hwrite, by omega, ?_⟩
  rw [drop_zero, take_memWrite_le le_rfl (by omega)]
  exact htake n hn (by omega)

theorem dixMovePrivates_spec (hlen : n + bytes ≤ old.length) (hfit : n + bytes < 2 ^ 32) :
    ∃ new, dixMovePrivates o old (n + bytes) bytes = some new ∧ new.length = old.length ∧
      HoldsAt n bytes old new := by
  have hcount : (n + bytes + 2 ^ 32 - bytes) % 2 ^ 32 = n := by omega
  have htake : (old.take n).length = n := by rw [length_take]; omega
  have hmoved : (memWrite old bytes (old.take n)).length = old.length := length_memWrite (by omega)
  have hcleared : (memWrite (memWrite old bytes (old.take n)) 0 (replicate bytes 0)).length = old.length := by
    rw [length_memWrite (by rw [length_replicate]; omega), hmoved]
  refine ⟨_, by rw [dixMovePrivates, hcount], hcleared, by omega, ?_⟩
  -- the bytes that were cleared are the ones in front of the moved ones
  simp only [memWrite]
  rw [drop_append_of_le_length (by simp), drop_of_length_le (by simp), nil_append,
    append_assoc, drop_append_of_le_length (by simp; omega), drop_of_length_le (by simp),
    nil_append, take_append_of_le_length (by simp; omega), take_take, min_self]

/-! ### The sets of keys -/

abbrev PackedKeys := Packed DevPrivateKeyRec.offset DevPrivateKeyRec.extent

/-- Where the keys of the type start, above `room` bytes for the `xselinux` key. -/
def base (room : ℤ) (t : DevPrivateType) : ℤ := if t.xselinuxPrivate then room else 0

structure Keys (s : State) (room : ℤ) : Prop where
  selinux : PackedKeys 0 room (s.globalKeys xselinux).key
  global : ∀ t ≠ xselinux, PackedKeys (base room t) (s.globalKeys t).offset (s.globalKeys t).key
  perScreen : ∀ scr ∈ s.allScreens, ∀ t, PackedKeys (s.globalKeys t).offset (scr.screenSpecificPrivates t).offset
    (scr.screenSpecificPrivates t).key
  shared : ∀ scr ∈ s.allScreens, ∀ t, t.screenSpecificPrivate = false →
    (scr.screenSpecificPrivates t).offset = (s.globalKeys t).offset
  small : ∀ t, (s.globalKeys t).offset < 2 ^ 31
  smallScreen : ∀ scr ∈ s.allScreens, ∀ t, (scr.screenSpecificPrivates t).offset < 2 ^ 31

theorem Keys.room_nonneg (h : Keys s room) : 0 ≤ room := h.selinux.le

/-- The space the sets give to an object. -/
def areaSize (s : State) (o : Object) : ℕ :=
  match o.screen.bind s.screen? with
  | none => (s.globalKeys o.type).offset
  | some scr => (scr.screenSpecificPrivates o.type).offset

theorem screen?_mem {num : ℕ} {scr : ScreenRec} (h : s.screen? num = some scr) : scr ∈ s.allScreens ∧ scr.num = num :=
  ⟨mem_of_find?_eq_some h, by simpa using find?_some h⟩

/-- **The keys of an object are packed into its space.** -/
theorem Keys.packed (h : Keys s room) (ho : o.type ≠ xselinux) : PackedKeys 0 (areaSize s o) (keysOf s o) := by
  have hselinux : PackedKeys 0 (base room o.type)
      (if o.type.xselinuxPrivate then (s.globalKeys xselinux).key else []) := by
    unfold base
    split
    · exact h.selinux
    · exact le_rfl
  have hglobal := (h.global o.type ho).append hselinux
  unfold keysOf areaSize
  cases hscr : o.screen.bind s.screen? with
  | none => simpa using hglobal
  | some scr =>
    obtain ⟨num, -, hnum⟩ := bind_eq_some_iff.1 hscr
    have hscreen := h.perScreen scr (screen?_mem hnum).1 o.type
    simpa [append_assoc] using hscreen.append hglobal

theorem Keys.areaSize_lt (h : Keys s room) (o : Object) : areaSize s o < 2 ^ 31 := by
  unfold areaSize
  split
  · exact h.small _
  · next scr hscr =>
    obtain ⟨num, -, hnum⟩ := bind_eq_some_iff.1 hscr
    exact h.smallScreen scr (screen?_mem hnum).1 _

/-- A key moved up. -/
def shiftKey (bytes : ℕ) (k : DevPrivateKeyRec) : DevPrivateKeyRec := { k with offset := wrapInt (k.offset + bytes) }

theorem shiftKey_zero (h0 : 0 ≤ k.offset) (h : k.offset < 2 ^ 31) : shiftKey 0 k = k := by
  unfold shiftKey
  rw [Nat.cast_zero, add_zero, wrapInt_eq (by omega) h]

theorem growPrivateSet_key (bytes : ℕ) (set : DevPrivateSetRec) :
    (growPrivateSet bytes set).key = set.key.map (shiftKey bytes) := rfl

variable {set : DevPrivateSetRec}

theorem growPrivateSet_offset (hfit : set.offset + bytes < 2 ^ 31) :
    (growPrivateSet bytes set).offset = set.offset + bytes := Nat.mod_eq_of_lt (by omega)

theorem shiftKey_offset {lo : ℤ} (h : PackedKeys lo set.offset set.key) (hlo : 0 ≤ lo)
    (hfit : set.offset + bytes < 2 ^ 31) (hk : k ∈ set.key) : (shiftKey bytes k).offset = k.offset + bytes := by
  have := h.within hk
  exact wrapInt_eq (by omega) (by omega)

theorem growPrivateSet_packed {lo : ℤ} (h : PackedKeys lo set.offset set.key) (hlo : 0 ≤ lo) (hfit : set.offset + bytes < 2 ^ 31) :
    PackedKeys (lo + bytes) (growPrivateSet bytes set).offset (growPrivateSet bytes set).key := by
  rw [growPrivateSet_offset hfit]
  exact h.shift (fun k hk => shiftKey_offset h hlo hfit hk) fun k _ => rfl

/-! ### The tables of objects -/

/-- The numbers in the tables are those of different objects. -/
structure Numbers (s : State) : Prop where
  screenNums : (s.allScreens.map (·.num)).Nodup
  screenFresh : ∀ scr ∈ s.allScreens, scr.num < s.next
  deviceNums : (s.devices ++ s.offDevices).Nodup
  deviceFresh : ∀ num ∈ s.devices ++ s.offDevices, num < s.next
  extensionNums : ∀ i j num, GetExtensionEntry s i = some num → GetExtensionEntry s j = some num → i = j
  extensionFresh : ∀ i num, GetExtensionEntry s i = some num → num < s.next
  colormapNums : (s.allScreens.filterMap (·.defColormap)).Nodup
  colormapFresh : ∀ scr ∈ s.allScreens, ∀ num, scr.defColormap = some num → num < s.next

/-- The live objects: how many there are, and which of them the tables hold. -/
structure Tables (s : State) : Prop where
  numbers : Numbers s
  fresh : ∀ o ∈ s.live, o.num < s.next
  nodup : s.live.Nodup
  typed : ∀ o ∈ s.live, o.type ≠ xselinux
  onScreen : ∀ o ∈ s.live, ∀ num, o.screen = some num →
    o.type.screenSpecificPrivate ∧ ∃ scr ∈ s.allScreens, scr.num = num
  screenListed : ∀ o ∈ s.live, o.type = screen → ∃ scr ∈ s.allScreens, scr.num = o.num
  deviceListed : ∀ o ∈ s.live, o.type = device → o.num ∈ s.devices ++ s.offDevices
  created : ∀ t ≠ xselinux, (s.globalKeys t).created = s.live.countP (·.type = t)
  screenCreated : ∀ scr ∈ s.allScreens, ∀ t, 0 ≤ (scr.screenSpecificPrivates t).created ∧
    ∀ o ∈ s.live, o.type = t → o.screen = some scr.num → 0 < (scr.screenSpecificPrivates t).created

/-- Only sets of keys and areas differ; `f` is what became of each screen. -/
structure Regrown (f : ScreenRec → ScreenRec) (s s' : State) : Prop where
  kept : ∀ scr, (f scr).num = scr.num ∧ (f scr).defColormap = scr.defColormap ∧
    ∀ t, ((f scr).screenSpecificPrivates t).created = (scr.screenSpecificPrivates t).created
  screens : s'.screens = s.screens.map f
  gpuScreens : s'.gpuScreens = s.gpuScreens.map f
  rest : s'.serverClient = s.serverClient ∧ s'.extensions = s.extensions ∧ s'.devices = s.devices ∧
    s'.offDevices = s.offDevices ∧ s'.live = s.live ∧ s'.next = s.next
  created : ∀ t, (s'.globalKeys t).created = (s.globalKeys t).created

variable {f : ScreenRec → ScreenRec}

theorem Regrown.allScreens (h : Regrown f s s') : s'.allScreens = s.allScreens.map f := by
  rw [State.allScreens, h.screens, h.gpuScreens, ← map_append]
  rfl

theorem Regrown.screen? (h : Regrown f s s') (num : ℕ) : s'.screen? num = (s.screen? num).map f := by
  unfold State.screen?
  rw [h.allScreens, find?_map]
  congr 2
  funext scr
  simp [(h.kept scr).1]

theorem Regrown.mem (h : Regrown f s s') {scr' : ScreenRec} (hscr' : scr' ∈ s'.allScreens) :
    ∃ scr ∈ s.allScreens, scr' = f scr := by
  rw [h.allScreens] at hscr'
  obtain ⟨scr, hscr, rfl⟩ := mem_map.1 hscr'
  exact ⟨scr, hscr, rfl⟩

/-- The tables of numbers hold what they held, and fresh numbers stay fresh. -/
theorem Numbers.map (hn : Numbers s) (hf : ∀ scr, (f scr).num = scr.num ∧ (f scr).defColormap = scr.defColormap)
    (hscreens : s'.allScreens = s.allScreens.map f)
    (hdevices : s'.devices ++ s'.offDevices = s.devices ++ s.offDevices) (hext : s'.extensions = s.extensions)
    (hnext : s.next ≤ s'.next) : Numbers s' := by
  have hentry : ∀ i, GetExtensionEntry s' i = GetExtensionEntry s i := by
    intro i
    rw [GetExtensionEntry, hext, GetExtensionEntry]
  have hmem : ∀ scr' ∈ s'.allScreens, ∃ scr ∈ s.allScreens, f scr = scr' := by
    rw [hscreens]
    exact fun scr' hscr' => mem_map.1 hscr'
  constructor
  · have : (s.allScreens.map f).map (·.num) = s.allScreens.map (·.num) := by
      rw [List.map_map]
      exact map_congr_left fun scr _ => (hf scr).1
    rw [hscreens, this]
    exact hn.screenNums
  · intro scr' hscr'
    obtain ⟨scr, hscr, rfl⟩ := hmem scr' hscr'
    rw [(hf scr).1]
    exact lt_of_lt_of_le (hn.screenFresh scr hscr) hnext
  · rw [hdevices]
    exact hn.deviceNums
  · rw [hdevices]
    exact fun num hnum => lt_of_lt_of_le (hn.deviceFresh num hnum) hnext
  · intro i j num hi hj
    rw [hentry] at hi hj
    exact hn.extensionNums i j num hi hj
  · intro i num hi
    rw [hentry] at hi
    exact lt_of_lt_of_le (hn.extensionFresh i num hi) hnext
  · have : (s.allScreens.map f).filterMap (·.defColormap) = s.allScreens.filterMap (·.defColormap) := by
      rw [filterMap_map]
      exact filterMap_congr fun scr _ => (hf scr).2
    rw [hscreens, this]
    exact hn.colormapNums
  · intro scr' hscr' num hnum
    obtain ⟨scr, hscr, rfl⟩ := hmem scr' hscr'
    rw [(hf scr).2] at hnum
    exact lt_of_lt_of_le (hn.colormapFresh scr hscr num hnum) hnext

theorem Numbers.mono (hn : Numbers s) (hscreens : s'.allScreens = s.allScreens)
    (hdevices : s'.devices ++ s'.offDevices = s.devices ++ s.offDevices) (hext : s'.extensions = s.extensions)
    (hnext : s.next ≤ s'.next) : Numbers s' :=
  hn.map (f := id) (fun _ => ⟨rfl, rfl⟩) (by rw [hscreens, List.map_id]) hdevices hext hnext

theorem Regrown.numbers (h : Regrown f s s') (hn : Numbers s) : Numbers s' := by
  obtain ⟨-, hext, hdev, hoff, -, hnext⟩ := h.rest
  exact hn.map (fun scr => ⟨(h.kept scr).1, (h.kept scr).2.1⟩) h.allScreens (by rw [hdev, hoff]) hext hnext.ge

theorem Regrown.tables (h : Regrown f s s') (ht : Tables s) : Tables s' := by
  obtain ⟨-, -, hdev, hoff, hlive, hnext⟩ := h.rest
  have hback : ∀ num, (∃ scr ∈ s.allScreens, scr.num = num) → ∃ scr ∈ s'.allScreens, scr.num = num := by
    rintro num ⟨scr, hscr, hnum⟩
    exact ⟨f scr, by rw [h.allScreens]; exact mem_map_of_mem hscr, by rw [(h.kept scr).1, hnum]⟩
  refine ⟨h.numbers ht.numbers, ?_, ?_, ?_, ?_, ?_, ?_, ?_, ?_⟩
  · rw [hlive, hnext]
    exact ht.fresh
  · rw [hlive]
    exact ht.nodup
  · rw [hlive]
    exact ht.typed
  · rw [hlive]
    exact fun o ho num hnum => ⟨(ht.onScreen o ho num hnum).1, hback num (ht.onScreen o ho num hnum).2⟩
  · rw [hlive]
    exact fun o ho hty => hback _ (ht.screenListed o ho hty)
  · rw [hdev, hoff, hlive]
    exact ht.deviceListed
  · intro t hty
    rw [h.created, hlive]
    exact ht.created t hty
  · intro scr' hscr' t
    obtain ⟨scr, hscr, rfl⟩ := h.mem hscr'
    rw [(h.kept scr).2.2, (h.kept scr).1, hlive]
    exact ht.screenCreated scr hscr t

/-! ### The objects a fixup goes through -/

variable {objects : State → List (Object × ℕ)} {alloc : Object → Option (ℕ → Byte)}

/-- The fixup of the type goes through every live object of the type. -/
def Visited (s : State) (t : DevPrivateType) : Prop :=
  ∀ o ∈ s.live, o.type = t → ∀ objects, allocatedEarly t = some objects → o ∈ (objects s).map Prod.fst

/-- A type that can have objects early has no keys for single screens. -/
theorem allocatedEarly_shared (h : allocatedEarly t = some objects) : t.screenSpecificPrivate = false := by
  cases t <;> first | rfl | cases h

theorem allocatedEarly_visit (h : allocatedEarly t = some objects)
    (hshared : ∀ scr ∈ s.allScreens, (scr.screenSpecificPrivates t).offset = (s.globalKeys t).offset)
    {p : Object × ℕ} (hp : p ∈ objects s) : p.1.type = t ∧ p.1.screen = none ∧ p.2 = (s.globalKeys t).offset := by
  cases t <;> cases h
  case colormap =>
    obtain ⟨scr, hscr, hp⟩ := mem_filterMap.1 hp
    obtain ⟨num, -, rfl⟩ := map_eq_some_iff.1 hp
    exact ⟨rfl, rfl, hshared scr (mem_append_left _ hscr)⟩
  all_goals
    obtain ⟨x, -, rfl⟩ := mem_map.1 hp
    exact ⟨rfl, rfl, rfl⟩

theorem GetExtensionEntry_nodup (ht : Tables s) (n : ℕ) :
    (((range n).map (GetExtensionEntry s)).takeWhile isSome).reduceOption.Nodup := by
  have hsub := ((takeWhile_sublist isSome (l := (range n).map (GetExtensionEntry s))).filterMap id)
  refine List.Nodup.sublist hsub ?_
  rw [filterMap_map]
  refine List.Nodup.filterMap ?_ nodup_range
  intro i j num hi hj
  exact ht.numbers.extensionNums i j num hi hj

theorem allocatedEarly_nodup (h : allocatedEarly t = some objects) (ht : Tables s) :
    ((objects s).map Prod.fst).Nodup := by
  have hinj : ∀ t : DevPrivateType, Function.Injective fun num : ℕ => ({ type := t, num } : Object) :=
    fun t a b hab => congrArg Object.num hab
  cases t <;> cases h
  case screen =>
    have := ht.numbers.screenNums.map (hinj screen)
    rw [List.map_map] at this
    rw [fixupScreens, List.map_map]
    exact this
  case client =>
    unfold fixupServerClient
    cases s.serverClient <;> simp
  case extension =>
    rw [fixupExtensions, List.map_map]
    exact (GetExtensionEntry_nodup ht 128).map (hinj extension)
  case device =>
    rw [fixupDevices, List.map_map]
    exact ht.numbers.deviceNums.map (hinj device)
  case colormap =>
    have hsub : (s.screens.filterMap (·.defColormap)).Nodup :=
      ht.numbers.colormapNums.sublist ((sublist_append_left _ _).filterMap _)
    have := hsub.map (hinj colormap)
    rw [map_filterMap] at this
    rw [fixupDefaultColormaps, map_filterMap]
    simp only [Option.map_map]
    exact this

/-- One answer of the fixup for each object, up to the first failure. -/
theorem fixupEach_spec {fixup : FixupFunc} : ∀ {os : List (Object × ℕ)} {area area' : Object → List Byte} {ok : Bool},
    fixupEach fixup bytes os area = (area', ok) → (os.map Prod.fst).Nodup →
      (∀ o, o ∉ os.map Prod.fst → area' o = area o) ∧
      ∀ p ∈ os, fixup p.1 (area p.1) p.2 bytes = some (area' p.1) ∨ ok = false ∧ area' p.1 = area p.1 := by
  intro os
  induction os with
  | nil =>
    intro area area' ok h _
    cases h
    exact ⟨fun _ _ => rfl, by simp⟩
  | cons p os ih =>
    obtain ⟨o, offset⟩ := p
    intro area area' ok h hnd
    obtain ⟨hout, hnd⟩ := nodup_cons.1 hnd
    unfold fixupEach at h
    split at h
    · cases h
      exact ⟨fun _ _ => rfl, fun _ _ => .inr ⟨rfl, rfl⟩⟩
    · next privates hfix =>
      obtain ⟨hframe, hdone⟩ := ih h hnd
      refine ⟨?_, ?_⟩
      · intro o' ho'
        simp only [map_cons, mem_cons, not_or] at ho'
        rw [hframe o' ho'.2, update_of_ne ho'.1]
      · intro p hp
        rcases mem_cons.1 hp with rfl | hp
        · left
          rw [hframe o hout, update_self]
          exact hfix
        · have hne : p.1 ≠ o := fun heq => hout (mem_map.2 ⟨p, hp, heq⟩)
          have := hdone p hp
          rwa [update_of_ne hne] at this

theorem areaSize_early (ht : Tables s) (h : allocatedEarly o.type = some objects) (ho : o ∈ s.live) :
    areaSize s o = (s.globalKeys o.type).offset := by
  unfold areaSize
  cases hscr : o.screen with
  | none => rfl
  | some num =>
    have := (ht.onScreen o ho num hscr).1
    rw [allocatedEarly_shared h] at this
    cases this

/-- A type without live objects is the only one that can do without a fixup. -/
theorem no_objects (ht : Tables s) (h : (s.globalKeys t).created = 0) (hne : t ≠ xselinux) :
    ∀ o ∈ s.live, o.type ≠ t := by
  intro o ho hty
  rw [ht.created t hne] at h
  have hpos : 0 < s.live.countP (·.type = t) := countP_pos_iff.2 ⟨o, ho, by simp [hty]⟩
  omega

/-- The areas that `resizeType` leaves: what they held is still there, and after a success those of
the type have room for `bytes` more. -/
structure Resized (s : State) (ts : List DevPrivateType) (bytes : ℕ) (area : Object → List Byte) (ok : Bool) :
    Prop where
  holds : ∀ o ∈ s.live, HoldsAt (areaSize s o) 0 (s.area o) (area o)
  room : ok = true → ∀ o ∈ s.live, o.type ∈ ts →
    areaSize s o + bytes ≤ (area o).length ∧ (allocatedEarly o.type).isSome
  frame : ∀ o ∈ s.live, o.type ∉ ts → area o = s.area o

def Sized (s : State) : Prop := ∀ o ∈ s.live, areaSize s o ≤ (s.area o).length

theorem resizeType_spec {r : State × Bool} (hk : Keys s room) (ht : Tables s) (hs : Sized s) (hne : t ≠ xselinux)
    (hfit : (s.globalKeys t).offset + bytes < 2 ^ 31) (hv : Visited s t) (h : resizeType alloc bytes t s = some r) :
    ∃ area, r.1 = { s with area } ∧ Resized s [t] bytes area r.2 := by
  unfold resizeType at h
  cases hearly : allocatedEarly t with
  | none =>
    simp only [hearly] at h
    split at h
    · next hzero =>
      cases h
      refine ⟨s.area, rfl, fun o ho => .refl (hs o ho), fun _ o ho hty => ?_, fun _ _ _ => rfl⟩
      exact absurd (mem_singleton.1 hty) (no_objects ht hzero hne o ho)
    · cases h
  | some objects =>
    simp only [hearly] at h
    cases hfix : fixupEach (dixReallocPrivates alloc) bytes (objects s) s.area with
    | mk area ok =>
      rw [hfix] at h
      cases h
      obtain ⟨hframe, hdone⟩ := fixupEach_spec hfix (allocatedEarly_nodup hearly ht)
      -- an object that was reached
      have hreached : ∀ o ∈ s.live, o ∈ (objects s).map Prod.fst → o.type = t ∧
          ((area o).length = areaSize s o + bytes ∧ HoldsAt (areaSize s o) 0 (s.area o) (area o) ∨
            ok = false ∧ area o = s.area o) := by
        intro o ho hin
        obtain ⟨p, hp, rfl⟩ := mem_map.1 hin
        obtain ⟨hty, -, hoff⟩ :=
          allocatedEarly_visit hearly (fun scr hscr => hk.shared scr hscr t (allocatedEarly_shared hearly)) hp
        have hsize : areaSize s p.1 = p.2 := by rw [areaSize_early ht (hty ▸ hearly) ho, hoff, hty]
        refine ⟨hty, ?_⟩
        rcases hdone p hp with hdone | hkept
        · left
          rw [hsize]
          exact dixReallocPrivates_spec hdone (by rw [← hsize]; exact hs _ ho) (by omega)
        · exact .inr hkept
      refine ⟨area, rfl, fun o ho => ?_, fun hok o ho hty => ?_, fun o ho hty => ?_⟩
      · by_cases hin : o ∈ (objects s).map Prod.fst
        · rcases (hreached o ho hin).2 with ⟨-, hold⟩ | ⟨-, hsame⟩
          · exact hold
          · rw [hsame]
            exact .refl (hs o ho)
        · rw [hframe o hin]
          exact .refl (hs o ho)
      · rcases (hreached o ho (hv o ho (mem_singleton.1 hty) objects hearly)).2 with ⟨hlen, -⟩ | ⟨hfail, -⟩
        · exact ⟨by omega, by rw [mem_singleton.1 hty, hearly]; rfl⟩
        · cases hok.symm.trans hfail
      · exact hframe o fun hin => hty (mem_singleton.2 (hreached o ho hin).1)

theorem Keys.withArea (hk : Keys s room) (area : Object → List Byte) : Keys { s with area } room :=
  ⟨hk.selinux, hk.global, hk.perScreen, hk.shared, hk.small, hk.smallScreen⟩

theorem Regrown.withArea (area : Object → List Byte) : Regrown id s { s with area } :=
  ⟨fun _ => ⟨rfl, rfl, fun _ => rfl⟩, (map_id _).symm, (map_id _).symm, ⟨rfl, rfl, rfl, rfl, rfl, rfl⟩,
    fun _ => rfl⟩

/-- A fixup goes through the same objects. -/
theorem Regrown.visits (h : Regrown f s s') (hearly : allocatedEarly t = some objects) :
    (objects s').map Prod.fst = (objects s).map Prod.fst := by
  obtain ⟨hclient, hext, hdev, hoff, -, -⟩ := h.rest
  cases t <;> cases hearly
  case screen =>
    simp only [fixupScreens, h.allScreens, List.map_map]
    refine List.map_congr_left fun scr _ => ?_
    simp only [comp_apply, (h.kept scr).1]
  case client => simp [fixupServerClient, hclient]
  case extension =>
    have hentry : GetExtensionEntry s' = GetExtensionEntry s := by
      funext i
      rw [GetExtensionEntry, hext, GetExtensionEntry]
    simp [fixupExtensions, hentry]
  case device =>
    simp only [fixupDevices, hdev, hoff, List.map_map]
    rfl
  case colormap =>
    simp only [fixupDefaultColormaps, h.screens, List.map_filterMap, List.filterMap_map, Option.map_map]
    refine List.filterMap_congr fun scr _ => ?_
    simp only [Function.comp_apply, (h.kept scr).2.1, Option.map_map]
    rfl

theorem Regrown.visited (h : Regrown f s s') (hv : Visited s t) : Visited s' t := by
  intro o ho hty objects hearly
  rw [h.rest.2.2.2.2.1] at ho
  rw [h.visits hearly]
  exact hv o ho hty objects hearly

/-! ### Room for an `xselinux` key -/

theorem xselinuxPrivate_ne (h : t.xselinuxPrivate) : t ≠ xselinux := by
  rintro rfl
  cases h

theorem resizeXselinux_spec : ∀ {ts : List DevPrivateType} {s : State} {r : State × Bool}, ts.Nodup →
    Keys s room → Tables s → Sized s → (∀ t, t.xselinuxPrivate → (s.globalKeys t).offset + bytes < 2 ^ 31) →
    (∀ t, t.xselinuxPrivate → Visited s t) → resizeXselinux alloc bytes ts s = some r →
      ∃ area, r.1 = { s with area } ∧ Resized s (ts.filter (·.xselinuxPrivate)) bytes area r.2 := by
  intro ts
  induction ts with
  | nil =>
    intro s r _ _ _ hs _ _ h
    cases h
    exact ⟨s.area, rfl, fun o ho => .refl (hs o ho), (fun _ o _ hty => by cases hty), fun _ _ _ => rfl⟩
  | cons t ts ih =>
    intro s r hnd hk ht hs hfit hv h
    obtain ⟨hlater, hnd⟩ := nodup_cons.1 hnd
    unfold resizeXselinux at h
    by_cases hprivate : t.xselinuxPrivate
    · rw [if_pos hprivate] at h
      rw [filter_cons_of_pos hprivate]
      split at h
      · cases h
      · next s₁ hresize =>
        cases h
        obtain ⟨area, hs₁, hr⟩ :=
          resizeType_spec hk ht hs (xselinuxPrivate_ne hprivate) (hfit t hprivate) (hv t hprivate) hresize
        refine ⟨area, hs₁, hr.holds, (fun hok => by cases hok), fun o ho hty => hr.frame o ho fun hin => hty ?_⟩
        exact mem_cons.2 (.inl (mem_singleton.1 hin))
      · next s₁ hresize =>
        obtain ⟨area, hs₁, hr⟩ :=
          resizeType_spec hk ht hs (xselinuxPrivate_ne hprivate) (hfit t hprivate) (hv t hprivate) hresize
        subst hs₁
        have hgrown := Regrown.withArea (s := s) area
        have hsized : Sized { s with area } := fun o ho => by
          have := (hr.holds o ho).1
          rwa [zero_add] at this
        obtain ⟨area', hr', hr''⟩ := ih hnd (hk.withArea area) (hgrown.tables ht) hsized hfit
          (fun u hu => hgrown.visited (hv u hu)) h
        refine ⟨area', hr', fun o ho => (hr.holds o ho).trans (hr''.holds o ho), ?_, ?_⟩
        · intro hok o ho hty
          rcases mem_cons.1 hty with hty | hty
          · -- no later type touches the area again
            obtain ⟨hroom, hearly⟩ := hr.room rfl o ho (mem_singleton.2 hty)
            have hsame := hr''.frame o ho fun hin => hlater (hty ▸ mem_of_mem_filter hin)
            exact ⟨by rw [hsame]; exact hroom, hearly⟩
          · exact hr''.room hok o ho hty
        · intro o ho hty
          rw [mem_cons, not_or] at hty
          rw [hr''.frame o ho hty.2]
          exact hr.frame o ho fun hin => hty.1 (mem_singleton.1 hin)
    · rw [if_neg hprivate] at h
      rw [filter_cons_of_neg hprivate]
      exact ih hnd hk ht hs hfit hv h

/-- The screens after the keys of the types `done` were moved. -/
def growScreens (bytes : ℕ) (done : List DevPrivateType) (scr : ScreenRec) : ScreenRec :=
  { scr with
    screenSpecificPrivates := fun u =>
      if u ∈ done ∧ u.xselinuxPrivate then growPrivateSet bytes (scr.screenSpecificPrivates u)
      else scr.screenSpecificPrivates u }

/-- The keys of the types `done` were moved, and the areas with them. -/
structure Moved (bytes : ℕ) (done : List DevPrivateType) (s s' : State) : Prop where
  regrown : Regrown (growScreens bytes done) s s'
  globalKeys : ∀ u, s'.globalKeys u =
    if u ∈ done ∧ u.xselinuxPrivate then growPrivateSet bytes (s.globalKeys u) else s.globalKeys u
  moved : ∀ o ∈ s.live, o.type ∈ done → o.type.xselinuxPrivate →
    HoldsAt (areaSize s o) bytes (s.area o) (s'.area o)
  frame : ∀ o ∈ s.live, ¬(o.type ∈ done ∧ o.type.xselinuxPrivate) → s'.area o = s.area o

theorem growScreens_kept (bytes : ℕ) (done : List DevPrivateType) (scr : ScreenRec) :
    (growScreens bytes done scr).num = scr.num ∧ (growScreens bytes done scr).defColormap = scr.defColormap ∧
      ∀ t, ((growScreens bytes done scr).screenSpecificPrivates t).created =
        (scr.screenSpecificPrivates t).created := by
  refine ⟨rfl, rfl, fun t => ?_⟩
  unfold growScreens
  dsimp only
  split <;> rfl

theorem Moved.nil (s : State) : Moved bytes [] s s := by
  have hid : growScreens bytes [] = id := by
    funext scr
    simp [growScreens]
  refine ⟨⟨growScreens_kept bytes [], ?_, ?_, ⟨rfl, rfl, rfl, rfl, rfl, rfl⟩, fun _ => rfl⟩, fun u => by simp, ?_, ?_⟩
  · rw [hid, List.map_id]
  · rw [hid, List.map_id]
  · intro o _ hty
    cases hty
  · exact fun _ _ _ => rfl

theorem fixupEach_move (bytes : ℕ) : ∀ (os : List (Object × ℕ)) (area : Object → List Byte),
    (fixupEach dixMovePrivates bytes os area).2 = true := by
  intro os
  induction os with
  | nil => exact fun _ => rfl
  | cons p os ih => exact fun area => ih _

variable {done : List DevPrivateType}

theorem ScreenRec.grow_growScreens (ht : t ∉ done) (hprivate : t.xselinuxPrivate)
    (scr : ScreenRec) : (growScreens bytes done scr).grow t bytes = growScreens bytes (t :: done) scr := by
  unfold ScreenRec.grow growScreens
  congr 1
  funext u
  by_cases hu : u = t
  · subst hu
    simp [ht, hprivate]
  · simp [hu]

/-- One more type is moved. -/
theorem Moved.moveType (hm : Moved bytes done s s') (htodo : t ∉ done) (hk : Keys s room)
    (ht : Tables s) (hfit : t.xselinuxPrivate → (s.globalKeys t).offset + bytes < 2 ^ 31) (hv : t.xselinuxPrivate → Visited s t)
    (hroom : ∀ o ∈ s.live, o.type = t → t.xselinuxPrivate →
      areaSize s o + bytes ≤ (s.area o).length ∧ (allocatedEarly o.type).isSome) :
    Moved bytes (t :: done) s (moveType bytes t s') := by
  unfold Privates.moveType
  by_cases hprivate : t.xselinuxPrivate
  swap
  · -- a type without `xselinux` keys: nothing moves
    have hsame : growScreens bytes (t :: done) = growScreens bytes done := by
      funext scr
      unfold growScreens
      congr 1
      funext u
      by_cases hu : u = t
      · subst hu
        simp [hprivate]
      · simp [hu]
    rw [if_neg hprivate]
    refine ⟨hsame ▸ hm.regrown, fun u => ?_, fun o ho hty hp => ?_, fun o ho hn => ?_⟩
    · rw [hm.globalKeys u]
      by_cases hu : u = t
      · subst hu
        simp [hprivate]
      · simp [hu]
    · rcases mem_cons.1 hty with rfl | hty
      · exact absurd hp hprivate
      · exact hm.moved o ho hty hp
    · exact hm.frame o ho fun h => hn ⟨mem_cons_of_mem _ h.1, h.2⟩
  rw [if_pos hprivate]
  have hgrown : Regrown (growScreens bytes (t :: done)) s (growScreenSpecificSet t bytes (growGlobalSet t bytes s')) := by
    obtain ⟨hkept, hscreens, hgpu, hrest, hcreated⟩ := hm.regrown
    refine ⟨growScreens_kept bytes _, ?_, ?_, hrest, fun u => ?_⟩
    · show s'.screens.map _ = _
      rw [hscreens, List.map_map]
      exact map_congr_left fun scr _ => ScreenRec.grow_growScreens htodo hprivate scr
    · show s'.gpuScreens.map _ = _
      rw [hgpu, List.map_map]
      exact map_congr_left fun scr _ => ScreenRec.grow_growScreens htodo hprivate scr
    · rw [← hcreated u]
      show (update s'.globalKeys t _ u).created = _
      by_cases hu : u = t
      · subst hu
        rw [update_self]
        rfl
      · rw [update_of_ne hu]
  have hkeys : ∀ u, (growScreenSpecificSet t bytes (growGlobalSet t bytes s')).globalKeys u =
      if u ∈ t :: done ∧ u.xselinuxPrivate then growPrivateSet bytes (s.globalKeys u) else s.globalKeys u := by
    intro u
    show update s'.globalKeys t _ u = _
    by_cases hu : u = t
    · subst hu
      rw [update_self, hm.globalKeys]
      simp [htodo, hprivate]
    · rw [update_of_ne hu, hm.globalKeys]
      simp [hu]
  -- the areas are those of `s'` until the fixup
  cases hearly : allocatedEarly t with
  | none =>
    dsimp only
    refine ⟨hgrown, hkeys, fun o ho hty hp => ?_, fun o ho hn => ?_⟩
    · rcases mem_cons.1 hty with hty | hty
      · have := (hroom o ho hty hprivate).2
        rw [hty, hearly] at this
        cases this
      · exact hm.moved o ho hty hp
    · exact hm.frame o ho fun h => hn ⟨mem_cons_of_mem _ h.1, h.2⟩
  | some objects =>
    dsimp only
    set mid := growScreenSpecificSet t bytes (growGlobalSet t bytes s') with hmid
    have hmidArea : mid.area = s'.area := rfl
    have hok := fixupEach_move bytes (objects mid) mid.area
    cases hfix : fixupEach dixMovePrivates bytes (objects mid) mid.area with
    | mk area ok =>
      rw [hfix] at hok
      dsimp only at hok ⊢
      subst hok
      obtain ⟨hframe, hdone⟩ := fixupEach_spec hfix (allocatedEarly_nodup hearly (hgrown.tables ht))
      have hshared : ∀ scr ∈ mid.allScreens, (scr.screenSpecificPrivates t).offset = (mid.globalKeys t).offset := by
        intro scr' hscr'
        rw [hgrown.allScreens] at hscr'
        obtain ⟨scr, hscr, rfl⟩ := mem_map.1 hscr'
        rw [hkeys]
        simp only [growScreens, mem_cons_self, hprivate, and_self, if_true]
        simp only [growPrivateSet, hk.shared scr hscr t (allocatedEarly_shared hearly)]
      have hoffset : (mid.globalKeys t).offset = (s.globalKeys t).offset + bytes := by
        rw [hkeys, if_pos ⟨mem_cons_self, hprivate⟩, growPrivateSet_offset (hfit hprivate)]
      have htype : ∀ o ∈ (objects mid).map Prod.fst, o.type = t := by
        intro o hin
        obtain ⟨p, hp, rfl⟩ := mem_map.1 hin
        exact (allocatedEarly_visit hearly hshared hp).1
      refine ⟨?_, hkeys, fun o ho hty hp => ?_, fun o ho hn => ?_⟩
      · exact ⟨hgrown.kept, hgrown.screens, hgrown.gpuScreens, hgrown.rest, hgrown.created⟩
      · rcases mem_cons.1 hty with hty | hty
        · -- an object of the type: it was visited, and its area still is what it was in `s`
          have hin : o ∈ (objects mid).map Prod.fst := by
            rw [hgrown.visits hearly]
            exact hv hprivate o ho hty objects hearly
          obtain ⟨p, hp', rfl⟩ := mem_map.1 hin
          have hsame : mid.area p.1 = s.area p.1 := by
            rw [hmidArea]
            exact hm.frame _ ho fun h => htodo (hty ▸ h.1)
          have hsize : areaSize s p.1 = (s.globalKeys t).offset := by
            rw [areaSize_early ht (hty ▸ hearly) ho, hty]
          have hlen := (hroom p.1 ho hty hprivate).1
          rw [hsize] at hlen ⊢
          obtain ⟨new, hnew, -, hold⟩ := dixMovePrivates_spec (o := p.1) hlen (by have := hfit hprivate; omega)
          rcases hdone p hp' with hdone | ⟨hfail, -⟩
          · rw [(allocatedEarly_visit hearly hshared hp').2.2, hoffset, hsame, hnew] at hdone
            cases hdone
            exact hold
          · cases hfail
        · have hout : o ∉ (objects mid).map Prod.fst := fun hin => htodo (htype o hin ▸ hty)
          show HoldsAt _ _ _ (area o)
          rw [hframe o hout]
          exact hm.moved o ho hty hp
      · have hout : o ∉ (objects mid).map Prod.fst := fun hin =>
          hn ⟨mem_cons.2 (.inl (htype o hin)), by rw [htype o hin]; exact hprivate⟩
        show area o = _
        rw [hframe o hout]
        exact hm.frame o ho fun h => hn ⟨mem_cons_of_mem _ h.1, h.2⟩

/-- The loop over the types moves each of them. -/
theorem Moved.moveTypes (hk : Keys s room) (ht : Tables s)
    (hfit : ∀ t, t.xselinuxPrivate → (s.globalKeys t).offset + bytes < 2 ^ 31)
    (hv : ∀ t, t.xselinuxPrivate → Visited s t)
    (hroom : ∀ o ∈ s.live, o.type.xselinuxPrivate →
      areaSize s o + bytes ≤ (s.area o).length ∧ (allocatedEarly o.type).isSome) :
    ∀ (ts done : List DevPrivateType) {s' : State}, (done ++ ts).Nodup → Moved bytes done s s' →
      ∃ done', (∀ t ∈ done ++ ts, t ∈ done') ∧
        Moved bytes done' s (ts.foldl (fun s t => Privates.moveType bytes t s) s') := by
  intro ts
  induction ts with
  | nil => exact fun {done _} _ hm => ⟨done, fun t h => by simpa using h, hm⟩
  | cons t ts ih =>
    intro done s' hnd hm
    have htodo : t ∉ done := fun h => (nodup_append.1 hnd).2.2 t h t mem_cons_self rfl
    have hstep := hm.moveType htodo hk ht (hfit t) (hv t) fun o ho hty hp => hroom o ho (hty ▸ hp)
    have hperm : (done ++ t :: ts).Perm (t :: done ++ ts) := perm_middle
    obtain ⟨done', hall, hm'⟩ := ih _ (hperm.nodup hnd) hstep
    exact ⟨done', fun u hu => hall u (hperm.subset hu), hm'⟩

end Xenia.Dix.Privates
