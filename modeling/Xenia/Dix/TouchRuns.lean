import Xenia.Dix.TouchListeners

/-!
# Touch points over runs

`Book` is what holds of the touch points of a device between two steps. `touchStep_book` says
that a step keeps it and writes within the arrays, where it meets `TouchStepOk`; the conditions are
that no copy is missing, that an array there is no memory for is not written to, and that a touch
which ends has no copies in the half of the array the loop does not get to.
-/

namespace Xenia.Dix

open Xenia.Lib List Function Option

/-- The copies that the listeners of a touch point have. -/
def TouchDevice.heldBy (dev : TouchDevice) (i : ℕ) : List ℕ := (dev.touches[i]?).elim [] TouchPoint.held

structure Book (dev : TouchDevice) : Prop where
  touch : ∀ (i : ℕ) (ti : TouchPoint), dev.touches[i]? = some ti → ti.Ok
  copies : dev.copies.Sound dev.heldBy

section Device

variable {dev : TouchDevice} {index : ℕ} {ti : TouchPoint}

theorem heldBy_set (ti' : TouchPoint) (h : dev.touches[index]? = some ti) (copies : Copies) :
    TouchDevice.heldBy { dev with touches := dev.touches.set index ti', copies := copies } =
      Function.update dev.heldBy index ti'.held := by
  have hlt := (List.getElem?_eq_some_iff.1 h).1
  funext i
  unfold TouchDevice.heldBy
  by_cases hi : i = index
  · subst hi
    rw [update_self, getElem?_set_self hlt]
    rfl
  · rw [update_of_ne hi, getElem?_set_ne (Ne.symm hi)]

theorem Book.slot (h : Book dev) (hti : dev.touches[index]? = some ti) :
    SlotOk dev.heldBy index ⟨ti, dev.copies⟩ := by
  have hself : dev.heldBy index = ti.held := by
    unfold TouchDevice.heldBy
    rw [hti]
    rfl
  refine ⟨h.touch index ti hti, ?_⟩
  rw [← hself, update_eq_self]
  exact h.copies

variable (index) in
/-- **Work on one touch point** keeps the book of all if it does for this one. -/
theorem onTouch_spec (h : Book dev) {f : TouchSlot → Outcome TouchSlot}
    (hf : ∀ ti, dev.touches[index]? = some ti → ∃ s', f ⟨ti, dev.copies⟩ = .ok s' ∧ SlotOk dev.heldBy index s') :
    ∃ dev', onTouch index f dev = .ok dev' ∧ Book dev' ∧ (∀ j ≠ index, dev'.touches[j]? = dev.touches[j]?) ∧
      dev'.clientMask = dev.clientMask := by
  unfold onTouch
  cases hti : dev.touches[index]? with
  | none => exact ⟨dev, rfl, h, fun _ _ => rfl, rfl⟩
  | some ti =>
    obtain ⟨s', hrun, hok⟩ := hf ti hti
    dsimp only
    rw [hrun]
    refine ⟨_, rfl, ⟨?_, ?_⟩, fun j hj => getElem?_set_ne (Ne.symm hj), rfl⟩
    · intro i ti' hi
      by_cases hi' : i = index
      · subst hi'
        rw [List.getElem?_set_self (List.getElem?_eq_some_iff.1 hti).1] at hi
        rw [← some.inj hi]
        exact hok.touch
      · rw [getElem?_set_ne (Ne.symm hi')] at hi
        exact h.touch i ti' hi
    · rw [heldBy_set _ hti]
      exact hok.copies

/-! ### The beginning of a touch -/

theorem held_of_no_listeners (h : ti.numListeners = 0) : ti.held = [] := by
  unfold TouchPoint.held TouchPoint.entries
  rw [h]
  rfl

variable (index) in
theorem beginAt_book (h : Book dev) (hti : dev.touches[index]? = some ti) (hno : ti.active = false)
    (sourceid : ℕ) (touchid : UInt32) (emulatePointer : Bool) :
    Book (beginAt index sourceid touchid emulatePointer dev) ∧
      ∃ ti', (beginAt index sourceid touchid emulatePointer dev).touches[index]? = some ti' ∧ ti'.active = true ∧
        ti'.numListeners = 0 := by
  have hok := h.touch index ti hti
  have hzero := hok.inactive hno
  unfold beginAt
  have hself : (dev.touches.modify index fun ti => { ti with
      active := true, clientId := touchid, sourceid := sourceid, emulatePointer := emulatePointer })[index]? =
        some { ti with active := true, clientId := touchid, sourceid := sourceid, emulatePointer := emulatePointer } := by
    rw [getElem?_modify_eq, hti]
    rfl
  refine ⟨⟨?_, ?_⟩, _, hself, rfl, hzero⟩
  · intro i ti' hi
    by_cases hi' : i = index
    · subst hi'
      rw [hself] at hi
      rw [← some.inj hi]
      exact ⟨hok.fits, hok.grabs, fun h => (nomatch h), hok.valuators⟩
    · rw [getElem?_modify_ne _ _ (Ne.symm hi')] at hi
      exact h.touch i ti' hi
  · have hheld : TouchDevice.heldBy { dev with touches := dev.touches.modify index fun ti => { ti with
        active := true, clientId := touchid, sourceid := sourceid, emulatePointer := emulatePointer } } = dev.heldBy := by
      funext i
      unfold TouchDevice.heldBy
      by_cases hi : i = index
      · subst hi
        rw [hself, hti]
        rfl
      · dsimp only
        rw [getElem?_modify_ne _ _ (Ne.symm hi)]
    rw [hheld]
    exact h.copies

theorem newTouchPoint_ok : newTouchPoint.Ok := ⟨le_refl _, rfl, fun _ => rfl, rfl⟩

/-- There is memory where a new touch point is needed, and there are not too many. -/
structure GrowOk (a : GrowAnswers) (dev : TouchDevice) : Prop where
  memory : a.array = true → a.touchPoint = true
  room : dev.touches.length ≠ 0xffff

theorem append_book (h : Book dev) : Book { dev with touches := dev.touches ++ [newTouchPoint] } := by
  refine ⟨?_, ?_⟩
  · intro i ti hi
    rcases mem_append.1 (mem_of_getElem? hi) with hmem | hmem
    · obtain ⟨j, hj⟩ := mem_iff_getElem?.1 hmem
      exact h.touch j ti hj
    · rw [mem_singleton.1 hmem]
      exact newTouchPoint_ok
  · have hheld : TouchDevice.heldBy { dev with touches := dev.touches ++ [newTouchPoint] } = dev.heldBy := by
      funext i
      unfold TouchDevice.heldBy
      rw [getElem?_append]
      split
      · rfl
      · rw [getElem?_eq_none (l := dev.touches) (by omega)]
        cases hnew : [newTouchPoint][i - dev.touches.length]? with
        | none => rfl
        | some ti =>
          rw [mem_singleton.1 (mem_of_getElem? hnew)]
          rfl
    rw [hheld]
    exact h.copies

/-- **A touch point is taken** that has no listeners, if any. -/
theorem touchBeginTouch_spec (h : Book dev) {a : GrowAnswers} (ha : GrowOk a dev) (sourceid : ℕ) (touchid : UInt32)
    (emulatePointer : Bool) :
    ∃ dev' found, touchBeginTouch sourceid touchid emulatePointer a dev = .ok (dev', found) ∧ Book dev' ∧
      ∀ index, found = some index → ∃ ti, dev'.touches[index]? = some ti ∧ ti.active = true ∧ ti.numListeners = 0 := by
  unfold touchBeginTouch
  split
  · exact ⟨dev, none, rfl, h, fun _ hno => nomatch hno⟩
  split
  · rename_i index hfind
    obtain ⟨hlt, hno, -⟩ := findIdx?_eq_some_iff_getElem.1 hfind
    obtain ⟨hbook, hti⟩ := beginAt_book _ h (getElem?_eq_getElem hlt) (by simpa using hno) sourceid touchid
      emulatePointer
    refine ⟨_, _, rfl, hbook, fun i hi => ?_⟩
    cases hi
    exact hti
  split
  · exact ⟨dev, none, rfl, h, fun _ hno => nomatch hno⟩
  · rename_i harray
    have htouch := ha.memory (by simpa using harray)
    rw [if_neg ha.room, if_neg (by simp [htouch])]
    have hsame : ({ newTouchPoint with valuators := a.touchPoint } : TouchPoint) = newTouchPoint := by
      rw [htouch]
      rfl
    rw [hsame]
    obtain ⟨hbook, hti⟩ := beginAt_book dev.touches.length (append_book h)
      (show (dev.touches ++ [newTouchPoint])[dev.touches.length]? = some newTouchPoint by simp) rfl sourceid touchid
      emulatePointer
    refine ⟨_, _, rfl, hbook, fun i hi => ?_⟩
    cases hi
    exact hti

/-- The touch point gets a trace and an array. -/
structure SpriteBuilt (build : BuildAnswers) (dev : TouchDevice) : Prop where
  listeners : build.listeners = true
  trace : (dev.direct = true → build.trace ≠ []) ∧
    (dev.direct = false → build.copy = true ∧ ∃ trace, dependentTrace build dev = some trace ∧ trace ≠ [])

theorem buildTrace_fields (build : BuildAnswers) (dev : TouchDevice) (ti : TouchPoint) :
    ∃ trace, (buildTrace build dev ti).1 = { ti with spriteTrace := trace } := by
  unfold buildTrace
  split
  · exact ⟨_, rfl⟩
  split
  · exact ⟨ti.spriteTrace, rfl⟩
  split
  · exact ⟨_, rfl⟩
  · exact ⟨_, rfl⟩

variable {build : BuildAnswers}

theorem buildTrace_built (h : SpriteBuilt build dev) (ti : TouchPoint) :
    (buildTrace build dev ti).2 = true ∧ (buildTrace build dev ti).1.spriteTrace ≠ [] := by
  unfold buildTrace
  cases hdirect : dev.direct with
  | true => exact ⟨rfl, h.trace.1 hdirect⟩
  | false =>
    obtain ⟨hcopy, trace, htrace, hne⟩ := h.trace.2 hdirect
    rw [if_neg (by decide), htrace]
    dsimp only
    rw [if_neg (by simp [hcopy])]
    exact ⟨rfl, hne⟩

variable {held : ℕ → List ℕ} {s : TouchSlot}

/-- **The array is allocated** for a touch point without listeners. -/
theorem touchBuildSprite_spec (h : SlotOk held index s)
    (hactive : s.ti.active = true) (hzero : s.ti.numListeners = 0) (build : BuildAnswers) (dev : TouchDevice) :
    ∃ ti built, touchBuildSprite build dev s.ti = .ok (ti, built) ∧ SlotOk held index { s with ti := ti } ∧
      ti.active = true ∧
      (built = true → ti.numListeners + ti.spriteTrace.length + 2 ≤ (ti.listeners.getD []).length) ∧
      (SpriteBuilt build dev → built = true) := by
  have hheld := held_of_no_listeners hzero
  have hgrabs := h.touch.grabs
  have hcopies := h.copies
  rw [hheld] at hgrabs hcopies
  -- a touch point without listeners stays one, whatever its trace and its array are
  have hok : ∀ trace listeners, SlotOk held index
      { s with ti := { s.ti with spriteTrace := trace, listeners := listeners, numListeners := 0 } } := by
    intro trace listeners
    refine ⟨⟨Nat.zero_le _, ?_, fun _ => rfl, h.touch.valuators⟩, ?_⟩
    · rw [held_of_no_listeners rfl]
      exact hgrabs
    · rw [held_of_no_listeners rfl]
      exact hcopies
  have hsame : ∀ trace listeners, SlotOk held index
      { s with ti := { s.ti with spriteTrace := trace, listeners := listeners } } := by
    intro trace listeners
    have := hok trace listeners
    rwa [← hzero] at this
  obtain ⟨trace, htrace⟩ := buildTrace_fields build dev s.ti
  have hbuilt := fun hb : SpriteBuilt build dev => buildTrace_built hb s.ti
  unfold touchBuildSprite
  rw [if_neg (by simp [h.touch.valuators])]
  obtain ⟨⟨ti, built⟩, hbuild⟩ : ∃ r, buildTrace build dev s.ti = r := ⟨_, rfl⟩
  rw [hbuild] at htrace hbuilt
  rw [hbuild]
  dsimp only at htrace hbuilt ⊢
  subst htrace
  split
  · rename_i hno
    refine ⟨_, _, rfl, hsame trace s.ti.listeners, hactive, fun h => (nomatch h), fun hb => ?_⟩
    rw [(hbuilt hb).1] at hno
    nomatch hno
  split
  · rename_i hempty
    exact ⟨_, _, rfl, hsame trace s.ti.listeners, hactive, fun h => (nomatch h),
      fun hb => absurd (length_eq_zero_iff.1 hempty) (hbuilt hb).2⟩
  split
  · rename_i hno
    refine ⟨_, _, rfl, hsame [] none, hactive, fun h => (nomatch h), fun hb => ?_⟩
    rw [hb.listeners] at hno
    nomatch hno
  · refine ⟨_, _, rfl, hok trace _, hactive, fun _ => ?_, fun _ => rfl⟩
    simp

/-- The listeners of a touch that begins. -/
theorem buildAndSetup_spec (h : SlotOk held index s)
    (hactive : s.ti.active = true) (hzero : s.ti.numListeners = 0) {env : SetupEnv} (hmem : ∀ k, env.memory k = true)
    {touchBegin : Bool} (hbuild : touchBegin = false → SpriteBuilt build dev) :
    ∃ s', buildAndSetup index touchBegin build env dev s = .ok s' ∧ SlotOk held index s' := by
  obtain ⟨ti, built, hrun, hok, hactive', hroom, hbuilt⟩ := touchBuildSprite_spec h hactive hzero build dev
  unfold buildAndSetup
  rw [hrun, ok_bind]
  dsimp only
  split
  · exact ⟨_, rfl, hok⟩
  · rename_i hno
    have hb : built = true := by
      cases touchBegin with
      | true => simpa using hno
      | false => exact hbuilt (hbuild rfl)
    exact touchSetupListeners_spec hmem hok hactive' (hroom hb)

/-- The trace of a touch point is not changed when it is taken. -/
theorem find?_modify_map {α β : Type} {p : α → Bool} {g : α → β} {f : α → α} (hp : ∀ a, p (f a) = p a)
    (hg : ∀ a, g (f a) = g a) : ∀ (l : List α) (i : ℕ), ((l.modify i f).find? p).map g = (l.find? p).map g := by
  intro l
  induction l with
  | nil => exact fun i => by cases i <;> rfl
  | cons a l ih =>
    intro i
    cases i with
    | zero =>
      rw [modify_zero_cons, find?_cons, find?_cons, hp]
      cases p a with
      | true => exact congrArg some (hg a)
      | false => rfl
    | succ i =>
      rw [modify_succ_cons, find?_cons, find?_cons]
      cases p a with
      | true => rfl
      | false => exact ih i

theorem dependentTrace_eq (build : BuildAnswers) (dev : TouchDevice) : dependentTrace build dev =
    ((dev.touches.find? fun ti => !ti.pendingFinish && 0 < ti.spriteTrace.length).map TouchPoint.spriteTrace).or
      build.sprite := by
  unfold dependentTrace
  cases dev.touches.find? fun ti => !ti.pendingFinish && 0 < ti.spriteTrace.length with
  | none => rfl
  | some ti => rfl

theorem beginAt_dependentTrace (build : BuildAnswers) (dev : TouchDevice) (sourceid : ℕ) (touchid : UInt32)
    (emulatePointer : Bool) :
    dependentTrace build (beginAt index sourceid touchid emulatePointer dev) = dependentTrace build dev := by
  rw [dependentTrace_eq, dependentTrace_eq]
  unfold beginAt
  congr 1
  apply find?_modify_map
  · intro ti
    rfl
  · intro ti
    rfl

theorem touchBeginTouch_built {a : GrowAnswers} {sourceid : ℕ} {touchid : UInt32} {emulatePointer : Bool}
    {dev' : TouchDevice} {found : Option ℕ} (ha : GrowOk a dev)
    (h : touchBeginTouch sourceid touchid emulatePointer a dev = .ok (dev', found))
    (hbuild : SpriteBuilt build dev) : SpriteBuilt build dev' := by
  have hkeep : dev'.direct = dev.direct ∧ dependentTrace build dev' = dependentTrace build dev := by
    unfold touchBeginTouch at h
    split at h
    · cases h
      exact ⟨rfl, rfl⟩
    split at h
    · cases h
      exact ⟨rfl, beginAt_dependentTrace _ _ _ _ _⟩
    split at h
    · cases h
      exact ⟨rfl, rfl⟩
    · rename_i harray
      have htouch := ha.memory (by simpa using harray)
      rw [if_neg ha.room, if_neg (by simp [htouch])] at h
      cases h
      refine ⟨rfl, (beginAt_dependentTrace _ _ _ _ _).trans ?_⟩
      rw [dependentTrace_eq, dependentTrace_eq, find?_append]
      congr 2
      exact or_none
  refine ⟨hbuild.listeners, ?_, ?_⟩
  · rw [hkeep.1]
    exact hbuild.trace.1
  · rw [hkeep.1, hkeep.2]
    exact hbuild.trace.2

/-! ### Grabs that become active -/

/-- The touch point is not one whose event selection leads to an implicit grab. -/
def NoImplicitGrab (ti : TouchPoint) : Prop :=
  ti.numListeners = 0 ∨ ((ti.listeners.getD []).getD (ti.numListeners - 1) .zero).type ≠ .pointerRegular

/-- An active touch has an array, and if its first listener is of the client that grabs the
device, this has a copy and there is memory for the new one. -/
structure ExplicitOk (clientMask : XID) (grab : TouchGrab) (memory : Bool) (ti : TouchPoint) : Prop where
  listeners : ti.listeners ≠ none
  first : ((ti.listeners.getD []).getD 0 .zero).listener &&& clientMask = grab.resource →
    0 < ti.numListeners ∧ ((ti.listeners.getD []).getD 0 .zero).grab ≠ none ∧ memory = true

/-- The first listener becomes that of the grab. -/
theorem updateTouchForGrab_spec (h : SlotOk held index s) {clientMask : XID}
    {grab : TouchGrab} {memory : Bool} (hexplicit : s.ti.active = true → ExplicitOk clientMask grab memory s.ti) :
    ∃ s', updateTouchForGrab index clientMask grab memory s = .ok s' ∧ SlotOk held index s' := by
  unfold updateTouchForGrab
  split
  · exact ⟨s, rfl, h⟩
  · rename_i hactive
    obtain ⟨hlisteners, hfirst⟩ := hexplicit (by simpa using hactive)
    cases hblock : s.ti.listeners with
    | none => exact absurd hblock hlisteners
    | some block =>
      rw [hblock] at hfirst
      dsimp only
      split
      · exact ⟨s, rfl, h⟩
      · rename_i hclient
        obtain ⟨hpos, hgrab, hmem⟩ := hfirst (not_not.1 hclient)
        have hfits := h.touch.fits
        have hgrabs := h.touch.grabs
        rw [hblock, getD_some] at hfits
        obtain ⟨g, hg⟩ := ne_none_iff_exists'.1 hgrab
        -- the copies of the others
        obtain ⟨first, rest, hcons⟩ : ∃ first rest, block = first :: rest := by
          cases block with
          | nil =>
            rw [length_nil] at hfits
            omega
          | cons first rest => exact ⟨first, rest, rfl⟩
        subst hcons
        obtain ⟨n, hn⟩ : ∃ n, s.ti.numListeners = n + 1 := ⟨s.ti.numListeners - 1, by omega⟩
        have hheld : s.ti.held = g :: (rest.take n).filterMap fun l => l.grab := by
          unfold TouchPoint.held TouchPoint.entries
          rw [hblock, getD_some, hn]
          exact filterMap_cons_some hg
        have hfree := h.copies.free index (l := (rest.take n).filterMap fun l => l.grab) (g := g) (by
          rw [update_self, hheld])
        rw [update_idem] at hfree
        have halloc := hfree.alloc index
          (l := s.copies.made.length :: (rest.take n).filterMap fun l => l.grab) (by
            rw [update_self]
            exact List.Perm.refl _)
        rw [update_idem] at halloc
        obtain ⟨ti', hti'⟩ : ∃ ti' : TouchPoint, ti' = { s.ti with listeners := some ({ first with
            type := if grab.grabtype = .xi2 ∧ grab.xi2mask .touchBegin = true then .grab else .pointerGrab
            listener := grab.resource
            level := grab.grabtype
            window := grab.window
            state := .isOwner
            grab := some s.copies.made.length } :: rest) } := ⟨_, rfl⟩
        have hheld' : ti'.held = s.copies.made.length :: (rest.take n).filterMap fun l => l.grab := by
          unfold TouchPoint.held TouchPoint.entries
          rw [hti']
          rw [getD_some, hn]
          rfl
        subst hmem
        refine ⟨⟨ti', ((s.copies.freeGrab (some g)).allocGrab index true).1⟩, ?_, ⟨⟨?_, ?_, ?_, ?_⟩, ?_⟩⟩
        · rw [hti', show ((first :: rest).getD 0 .zero).grab = some g from hg]
          rfl
        · rw [hti']
          exact hfits
        · have hcount : ti'.numGrabs = s.ti.numGrabs := by rw [hti']
          rw [hheld', length_cons, hcount, hgrabs, hheld, length_cons]
        · intro hno
          rw [hti'] at hno
          rw [hno] at hactive
          exact absurd rfl hactive
        · rw [hti']
          exact h.touch.valuators
        · dsimp only
          rw [hheld']
          exact halloc

/-- The loop over the touch points. -/
theorem updateTouchesForGrab_spec {clientMask : XID} {grab : TouchGrab} {memory : ℕ → Bool} : ∀ (l : List ℕ)
    (dev : TouchDevice), Book dev → dev.clientMask = clientMask → l.Nodup →
    (∀ i ∈ l, ∀ ti, dev.touches[i]? = some ti → ti.active = true → ExplicitOk clientMask grab (memory i) ti) →
    ∃ dev', updateTouchesForGrab grab memory l dev = .ok dev' ∧ Book dev' := by
  intro l
  induction l with
  | nil => exact fun dev h _ _ _ => ⟨dev, rfl, h⟩
  | cons i rest ih =>
    intro dev h hmask hnodup hl
    obtain ⟨hi, hrest⟩ := nodup_cons.1 hnodup
    obtain ⟨dev₁, hrun, hbook, hothers, hmask₁⟩ := onTouch_spec i h
      (f := updateTouchForGrab i dev.clientMask grab (memory i)) fun ti hti => by
        refine updateTouchForGrab_spec (h.slot hti) fun hactive => ?_
        rw [hmask]
        exact hl i mem_cons_self ti hti hactive
    obtain ⟨dev', hrun', hbook'⟩ := ih dev₁ hbook (hmask₁.trans hmask) hrest fun j hj ti hti => by
      rw [hothers j fun h => hi (h ▸ hj)] at hti
      exact hl j (mem_cons_of_mem _ hj) ti hti
    unfold updateTouchesForGrab
    rw [hrun]
    exact ⟨dev', hrun', hbook'⟩

/-! ### The end of the device -/

variable (index) in
theorem touchFreeTouchPoint_spec (held : ℕ → List ℕ) (h : SlotOk held index s) (hend : s.ti.active = true → EndOk s.ti) :
    ∃ s', touchFreeTouchPoint s = .ok s' ∧ s'.ti.held = [] ∧ s'.copies.Sound (update held index []) := by
  obtain ⟨s₁, hrun, hok, hno⟩ : ∃ s₁, (if s.ti.active then touchEndTouch s else (pure s : Outcome TouchSlot)) = .ok s₁ ∧
      SlotOk held index s₁ ∧ s₁.ti.active = false := by
    cases hactive : s.ti.active with
    | true => exact touchEndTouch_spec h (hend hactive)
    | false => exact ⟨s, rfl, h, hactive⟩
  have hzero := hok.touch.inactive hno
  have hcopies := hok.copies
  rw [held_of_no_listeners hzero] at hcopies
  have hloop : removeFirst s₁.ti.numListeners 0 s₁ = .ok s₁ := by
    rw [hzero]
    rfl
  refine ⟨{ s₁ with ti := { s₁.ti with valuators := false, spriteTrace := [], listeners := none, history := false } },
    ?_, ?_, hcopies⟩
  · have hbind : touchFreeTouchPoint s = ((if s.ti.active then touchEndTouch s else (pure s : Outcome TouchSlot)) >>=
        fun s => removeFirst s.ti.numListeners 0 s >>= fun s => pure { s with ti := { s.ti with
          valuators := false, spriteTrace := [], listeners := none, history := false } }) := by
      unfold touchFreeTouchPoint
      cases s.ti.active <;> rfl
    rw [hbind, hrun, ok_bind, hloop]
    rfl
  · exact held_of_no_listeners hzero

/-- The loop over the touch points, after some of them. -/
theorem freeTouchPoints_spec : ∀ (l : List ℕ) (dev : TouchDevice), l.Nodup → dev.copies.Sound dev.heldBy →
    (∀ i ∈ l, ∀ ti, dev.touches[i]? = some ti → ti.Ok ∧ (ti.active = true → EndOk ti)) →
    (∀ i, i ∉ l → dev.heldBy i = []) →
    ∃ dev', freeTouchPoints l dev = .ok dev' ∧ dev'.copies.Sound fun _ => [] := by
  intro l
  induction l with
  | nil =>
    intro dev _ h _ hothers
    have hnone : dev.heldBy = fun _ => [] := funext fun i => hothers i (not_mem_nil)
    rw [hnone] at h
    exact ⟨dev, rfl, h⟩
  | cons i rest ih =>
    intro dev hnodup h hl hothers
    obtain ⟨hi, hrest⟩ := nodup_cons.1 hnodup
    unfold freeTouchPoints
    cases hti : dev.touches[i]? with
    | none =>
      have hrun : onTouch i touchFreeTouchPoint dev = .ok dev := by
        unfold onTouch
        rw [hti]
      rw [hrun]
      refine ih dev hrest h (fun j hj => hl j (mem_cons_of_mem _ hj)) fun j hj => ?_
      by_cases hji : j = i
      · subst hji
        unfold TouchDevice.heldBy
        rw [hti]
        rfl
      · exact hothers j fun hmem => (mem_cons.1 hmem).elim hji hj
    | some ti =>
      obtain ⟨hok, hend⟩ := hl i mem_cons_self ti hti
      have hself : dev.heldBy i = ti.held := by
        unfold TouchDevice.heldBy
        rw [hti]
        rfl
      obtain ⟨s', hrun, hheld, hsound⟩ := touchFreeTouchPoint_spec i dev.heldBy
        (s := ⟨ti, dev.copies⟩) ⟨hok, by
          rw [← hself, update_eq_self]
          exact h⟩ hend
      have hstep : onTouch i touchFreeTouchPoint dev =
          .ok { dev with touches := dev.touches.set i s'.ti, copies := s'.copies } := by
        unfold onTouch
        rw [hti]
        dsimp only
        rw [hrun]
        rfl
      rw [hstep]
      have hheldBy := heldBy_set s'.ti hti s'.copies
      rw [hheld] at hheldBy
      refine ih _ hrest ?_ ?_ ?_
      · rw [hheldBy]
        exact hsound
      · intro j hj ti' hti'
        rw [getElem?_set_ne (show i ≠ j from fun h => hi (h ▸ hj))] at hti'
        exact hl j (mem_cons_of_mem _ hj) ti' hti'
      · intro j hj
        rw [hheldBy]
        by_cases hji : j = i
        · rw [hji, update_self]
        · rw [update_of_ne hji]
          exact hothers j fun hmem => (mem_cons.1 hmem).elim hji hj

/-! ### Runs -/

/-- What a step must be like. -/
inductive TouchStepOk (dev : TouchDevice) : TouchOp → Prop
  | touchBegin {sourceid : ℕ} {touchid : UInt32} {emulatePointer : Bool} {grow : GrowAnswers} {build : BuildAnswers}
      {env : SetupEnv} (hgrow : GrowOk grow dev) (hmem : ∀ k, env.memory k = true) :
      TouchStepOk dev (.touchBegin sourceid touchid emulatePointer grow build env)
  | grabbedTouch {sourceid : ℕ} {touchid : UInt32} {grow : GrowAnswers} {build : BuildAnswers} {env : SetupEnv}
      (hgrow : GrowOk grow dev) (hmem : ∀ k, env.memory k = true) (hbuild : SpriteBuilt build dev) :
      TouchStepOk dev (.grabbedTouch sourceid touchid grow build env)
  | removeListener {index : ℕ} {resource : XID} : TouchStepOk dev (.removeListener index resource)
  | endTouch {index : ℕ} (h : ∀ ti, dev.touches[index]? = some ti → EndOk ti) : TouchStepOk dev (.endTouch index)
  | implicitGrab {index : ℕ} {grab : TouchGrab} {memory : Bool}
      (h : ∀ ti, dev.touches[index]? = some ti → NoImplicitGrab ti) : TouchStepOk dev (.implicitGrab index grab memory)
  | explicitGrab {grab : TouchGrab} {memory : ℕ → Bool}
      (h : ∀ (i : ℕ) (ti : TouchPoint), dev.touches[i]? = some ti → ti.active = true →
        ExplicitOk dev.clientMask grab (memory i) ti) : TouchStepOk dev (.explicitGrab grab memory)
  | freeTouchPoints (h : ∀ ti ∈ dev.touches, ti.active = true → EndOk ti) : TouchStepOk dev .freeTouchPoints

/-- **A step** writes within the arrays and keeps the book. -/
theorem touchStep_book (h : Book dev) {op : TouchOp} (hop : TouchStepOk dev op) :
    ∃ dev', touchStep (.ok dev) op = .ok dev' ∧ Book dev' := by
  cases hop with
  | @touchBegin sourceid touchid emulatePointer grow build env hgrow hmem =>
    obtain ⟨dev₁, found, hrun, hbook, hfound⟩ := touchBeginTouch_spec h hgrow sourceid touchid emulatePointer
    unfold touchStep processTouchBegin
    rw [ok_bind]
    dsimp only
    rw [hrun]
    cases found with
    | none => exact ⟨dev₁, rfl, hbook⟩
    | some index =>
      obtain ⟨ti, hti, hactive, hzero⟩ := hfound index rfl
      obtain ⟨dev', hrun', hbook', -⟩ := onTouch_spec index hbook
        (f := buildAndSetup index true build env dev₁) fun ti' hti' => by
          cases hti.symm.trans hti'
          exact buildAndSetup_spec (hbook.slot hti) hactive hzero hmem fun h => nomatch h
      exact ⟨dev', hrun', hbook'⟩
  | @grabbedTouch sourceid touchid grow build env hgrow hmem hbuild =>
    obtain ⟨dev₁, found, hrun, hbook, hfound⟩ := touchBeginTouch_spec h hgrow sourceid touchid true
    have hbuild₁ := touchBeginTouch_built hgrow hrun hbuild
    unfold touchStep processGrabbedTouch
    rw [ok_bind]
    dsimp only
    rw [hrun]
    cases found with
    | none => exact ⟨dev₁, rfl, hbook⟩
    | some index =>
      obtain ⟨ti, hti, hactive, hzero⟩ := hfound index rfl
      obtain ⟨dev', hrun', hbook', -⟩ := onTouch_spec index hbook
        (f := buildAndSetup index false build env dev₁) fun ti' hti' => by
          cases hti.symm.trans hti'
          exact buildAndSetup_spec (hbook.slot hti) hactive hzero hmem fun _ => hbuild₁
      exact ⟨dev', hrun', hbook'⟩
  | @removeListener index resource =>
    obtain ⟨dev', hrun, hbook, -⟩ := onTouch_spec index h
      (f := fun s => return (← touchRemoveListener resource s).1) fun ti hti => by
        obtain ⟨s', b, hrun, hok, -⟩ := touchRemoveListener_spec (h.slot hti) resource
        rw [hrun]
        exact ⟨s', rfl, hok⟩
    exact ⟨dev', hrun, hbook⟩
  | @endTouch index hend =>
    obtain ⟨dev', hrun, hbook, -⟩ := onTouch_spec index h (f := touchEndTouch) fun ti hti => by
      obtain ⟨s', hrun, hok, -⟩ := touchEndTouch_spec (h.slot hti) (hend ti hti)
      exact ⟨s', hrun, hok⟩
    exact ⟨dev', hrun, hbook⟩
  | @implicitGrab index grab memory hno =>
    obtain ⟨dev', hrun, hbook, -⟩ := onTouch_spec index h (f := implicitGrab index grab memory)
      fun ti hti => ⟨_, if_pos (hno ti hti), h.slot hti⟩
    exact ⟨dev', hrun, hbook⟩
  | @explicitGrab grab memory hexplicit =>
    exact updateTouchesForGrab_spec (range dev.touches.length) dev h rfl nodup_range
      fun i _ ti hti => hexplicit i ti hti
  | freeTouchPoints hend =>
    obtain ⟨dev', hrun, hsound⟩ := freeTouchPoints_spec (range dev.touches.length) dev nodup_range h.copies
      (fun i _ ti hti => ⟨h.touch i ti hti, hend ti (mem_of_getElem? hti)⟩) fun i hi => by
        unfold TouchDevice.heldBy
        rw [getElem?_eq_none (by simpa using hi)]
        rfl
    unfold touchStep
    rw [ok_bind]
    rw [hrun]
    exact ⟨_, rfl, fun i ti hti => (nomatch hti), hsound⟩

end Device

theorem newTouchDevice_book (maxTouches : ℕ) (direct : Bool) (clientMask : XID) :
    Book (newTouchDevice maxTouches direct clientMask) := by
  have hnew : ∀ (i : ℕ) (ti : TouchPoint), (newTouchDevice maxTouches direct clientMask).touches[i]? = some ti →
      ti = newTouchPoint := fun i ti hti => (mem_replicate.1 (mem_of_getElem? hti)).2
  have hheld : ∀ i, (newTouchDevice maxTouches direct clientMask).heldBy i = [] := by
    intro i
    unfold TouchDevice.heldBy
    cases hti : (newTouchDevice maxTouches direct clientMask).touches[i]? with
    | none => rfl
    | some ti =>
      rw [hnew i ti hti]
      rfl
  refine ⟨fun i ti hti => ?_, fun c i hc => ?_, fun i c hc => ?_, fun c hc => nomatch hc⟩
  · rw [hnew i ti hti]
    exact newTouchPoint_ok
  · nomatch hc
  · rw [hheld] at hc
    nomatch hc

/-- **The listeners of touch points**, over every run whose steps are as they must be: it never
writes outside an array, `num_grabs` is the number of listeners with a copy of a grab, and of the
copies made for a touch point each was freed exactly once, or is with one listener of the touch
that is still active. -/
theorem touch_bookkeeping {maxTouches : ℕ} {direct : Bool} {clientMask : XID} {ops : List TouchOp}
    (hops : AllSteps touchStep (fun s op => ∀ dev, s = .ok dev → TouchStepOk dev op)
      (.ok (newTouchDevice maxTouches direct clientMask)) ops) :
    ∃ dev, run touchStep (.ok (newTouchDevice maxTouches direct clientMask)) ops = .ok dev ∧
      (∀ ti ∈ dev.touches, ti.numListeners ≤ (ti.listeners.getD []).length ∧ ti.numGrabs = ti.held.length) ∧
      ∀ c index, dev.copies.made[c]? = some index →
        dev.copies.freed.count c + (dev.heldBy index).count c = 1 ∧
          ((∀ ti, dev.touches[index]? = some ti → ti.active = false) → dev.copies.freed.count c = 1) := by
  obtain ⟨dev, hrun, h⟩ := hops.invariant (P := fun s => ∃ dev, s = .ok dev ∧ Book dev) (by
      rintro s op hC ⟨dev, rfl, h⟩
      exact touchStep_book h (hC dev rfl))
    ⟨_, rfl, newTouchDevice_book maxTouches direct clientMask⟩
  refine ⟨dev, hrun, fun ti hti => ?_, fun c index hc => ⟨h.copies.once c index hc, fun hno => ?_⟩⟩
  · obtain ⟨i, hi⟩ := mem_iff_getElem?.1 hti
    exact ⟨(h.touch i ti hi).fits, (h.touch i ti hi).grabs⟩
  · have honce := h.copies.once c index hc
    have hnone : dev.heldBy index = [] := by
      unfold TouchDevice.heldBy
      cases hti : dev.touches[index]? with
      | none => rfl
      | some ti => exact held_of_no_listeners ((h.touch index ti hti).inactive (hno ti hti))
    rw [hnone] at honce
    simpa using honce

/-! ### What goes wrong -/

/-- A grab of touches. -/
def touchGrab (resource : XID) (window : ℕ) : TouchGrab := ⟨resource, .xi2, fun type => type = .touchBegin, window⟩

/-- Three windows with a grab each: of touches, of a button, and of touches. -/
def threeGrabs : SetupEnv where
  master := true
  activeGrab := none
  windows win := ⟨0, fun _ => some (match win with
      | 0 => touchGrab 0x200001 0
      | 1 => ⟨0x400001, .core, fun _ => false, 1⟩
      | _ => touchGrab 0x600001 2),
    ⟨false, false, false, false⟩, ⟨false, false, false, false⟩, [], false, []⟩
  history := true
  memory _ := true

def enoughToGrow : GrowAnswers := ⟨true, true⟩

def inChild : BuildAnswers := ⟨[0, 1, 2], none, true, true⟩

/-- One touch begins on a device with one touch point, and ends. -/
theorem touch_bookkeeping_one :
    ∃ dev, run touchStep (.ok (newTouchDevice 1 true 0x1fe00000))
        [.touchBegin 2 1 false enoughToGrow ⟨[0], none, true, true⟩ threeGrabs, .endTouch 0] = .ok dev ∧
      (∀ ti ∈ dev.touches, ti.numListeners ≤ (ti.listeners.getD []).length ∧ ti.numGrabs = ti.held.length) ∧
      ∀ c index, dev.copies.made[c]? = some index →
        dev.copies.freed.count c + (dev.heldBy index).count c = 1 ∧
          ((∀ ti, dev.touches[index]? = some ti → ti.active = false) → dev.copies.freed.count c = 1) :=
  touch_bookkeeping ⟨fun dev hdev => by
    cases hdev
    exact .touchBegin ⟨fun _ => rfl, by decide⟩ fun _ => rfl, fun dev hdev => by
    cases hdev
    refine .endTouch fun ti hti => ?_
    cases hti
    decide, trivial⟩

/-- **The copy of the third grab is never freed**: the first client rejects the touch, and it ends
while the grab of the button waits for an older touch. And where there is no memory for the array,
a listener is written to it all the same. -/
theorem touch_bookkeeping_fails :
    (∃ dev, run touchStep (.ok (newTouchDevice 1 true 0x1fe00000))
        [.touchBegin 2 1 true enoughToGrow inChild threeGrabs, .removeListener 0 0x200001, .endTouch 0] = .ok dev ∧
      dev.copies = ⟨[0, 0, 0], [0, 1]⟩ ∧ ∀ ti ∈ dev.touches, ti.active = false) ∧
    run touchStep (.ok (newTouchDevice 1 true 0x1fe00000))
      [.grabbedTouch 2 1 enoughToGrow ⟨[0], none, true, false⟩ { threeGrabs with activeGrab := some (touchGrab 0x200000 0) }] =
        .error .fault :=
  ⟨⟨_, rfl, rfl, by decide⟩, rfl⟩

end Xenia.Dix
