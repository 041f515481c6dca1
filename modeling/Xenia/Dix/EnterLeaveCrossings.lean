import Xenia.Dix.EnterLeave
import Xenia.Lib.Run

/-!
# Crossings of a window

`inside` says whether a pointer is in a window or below it. `doEnterLeaveEvents_spec`: of the
events that are not Inferior, a window gets an EnterNotify exactly where this becomes true by a
move, and a LeaveNotify exactly where it becomes false. So over a run they alternate
(`crossings_alternate`).
-/

namespace Xenia.Dix

open Xenia.Lib List Function Option Bool

/-! ### The tree -/

section Tree

variable {a b c w : TreeWindow}

/-- `p` is the window `w` or below it. -/
def inWindow (w p : TreeWindow) : Bool := p = w || windowIsParent w p

def TreeWindow.depth : TreeWindow → ℕ
  | .root _ => 0
  | .child parent _ => parent.depth + 1

theorem windowIsParent_child (w p : TreeWindow) (n : ℕ) : windowIsParent w (.child p n) = inWindow w p := rfl

theorem inWindow_iff : inWindow w a = true ↔ a = w ∨ windowIsParent w a = true := by
  unfold inWindow
  rw [or_eq_true, decide_eq_true_eq]

theorem depth_lt (h : windowIsParent a b = true) : a.depth < b.depth := by
  induction b with
  | root s => nomatch h
  | child p n ih =>
    rw [windowIsParent_child, inWindow_iff] at h
    rcases h with rfl | h
    · exact Nat.lt_succ_self _
    · exact lt_trans (ih h) (Nat.lt_succ_self _)

theorem windowIsParent_self (a : TreeWindow) : windowIsParent a a = false := by
  by_contra h
  have := depth_lt (eq_true_of_not_eq_false h)
  omega

theorem windowIsParent_asymm (h : windowIsParent a b = true) : inWindow b a = false := by
  by_contra hno
  have hlt := depth_lt h
  rcases inWindow_iff.1 (eq_true_of_not_eq_false hno) with rfl | hba
  · omega
  · have := depth_lt hba
    omega

theorem windowIsParent_trans (h : windowIsParent a b = true) (h' : windowIsParent b c = true) :
    windowIsParent a c = true := by
  induction c with
  | root s => nomatch h'
  | child p n ih =>
    rw [windowIsParent_child, inWindow_iff] at h' ⊢
    rcases h' with rfl | h'
    · exact .inr h
    · exact .inr (ih h')

theorem inWindow_trans (h : inWindow w a = true) (h' : windowIsParent a b = true) : windowIsParent w b = true := by
  rcases inWindow_iff.1 h with rfl | h
  · exact h'
  · exact windowIsParent_trans h h'

/-- The windows above both are those above the common ancestor, or it. -/
theorem commonAncestor_spec (a b w : TreeWindow) :
    (commonAncestor a b).any (inWindow w) = (windowIsParent w a && windowIsParent w b) := by
  induction b with
  | root s => exact (Bool.and_false _).symm
  | child p n ih =>
    unfold commonAncestor
    rw [windowIsParent_child]
    split
    · rename_i hp
      rw [any_some]
      cases hin : inWindow w p with
      | false => rw [Bool.and_false]
      | true => rw [inWindow_trans hin hp, Bool.and_true]
    · rename_i hp
      rw [ih]
      unfold inWindow
      by_cases hpw : p = w
      · subst hpw
        rw [eq_false_of_not_eq_true hp]
        rfl
      · rw [decide_eq_false hpw, Bool.false_or]

end Tree

/-! ### Pointers -/

/-- A pointer is in the window or below. -/
def inside (pointers : PointerWindows) (w : TreeWindow) : Bool :=
  (List.finRange MAXDEVICES).any fun i => (pointers i).any (inWindow w)

section Pointers

variable {pointers : PointerWindows} {dev : PointerDevice} {w p : TreeWindow}

theorem inside_iff : inside pointers w = true ↔ ∃ i p, pointers i = some p ∧ inWindow w p = true := by
  unfold inside
  rw [List.any_eq_true]
  constructor
  · rintro ⟨i, -, h⟩
    cases hp : pointers i with
    | none =>
      rw [hp] at h
      nomatch h
    | some p =>
      rw [hp] at h
      exact ⟨i, p, hp, h⟩
  · rintro ⟨i, p, hp, hin⟩
    exact ⟨i, mem_finRange i, by rw [hp]; exact hin⟩

/-- Where there is a pointer below a window, there is one below those above it. -/
theorem inside_of_inWindow (h : inside pointers p = true) (hw : inWindow w p = true) : inside pointers w = true := by
  obtain ⟨i, q, hq, hin⟩ := inside_iff.1 h
  refine inside_iff.2 ⟨i, q, hq, ?_⟩
  rcases inWindow_iff.1 hin with rfl | hpq
  · exact hw
  · exact inWindow_iff.2 (.inr (inWindow_trans hw hpq))

theorem hasPointer_iff (hgrab : dev.grabbed = false) (win : Option TreeWindow) :
    hasPointer pointers dev win = true ↔ ∃ i, pointers i = win := by
  unfold hasPointer
  rw [if_neg (by rw [hgrab]; decide), List.any_eq_true]
  constructor
  · rintro ⟨i, -, h⟩
    exact ⟨i, of_decide_eq_true h⟩
  · rintro ⟨i, h⟩
    exact ⟨i, mem_finRange i, decide_eq_true h⟩

theorem firstPointerChild_isSome_iff :
    (firstPointerChild pointers w).isSome = true ↔ ∃ i p, pointers i = some p ∧ windowIsParent w p = true := by
  unfold firstPointerChild
  rw [findSome?_isSome_iff]
  constructor
  · rintro ⟨i, -, h⟩
    obtain ⟨p, hp⟩ := isSome_iff_exists.1 h
    obtain ⟨hmem, hparent⟩ := filter_eq_some_iff.1 hp
    exact ⟨i, p, hmem, hparent⟩
  · rintro ⟨i, p, hp, hparent⟩
    exact ⟨i, mem_finRange i, by rw [hp, filter_some_pos hparent]; rfl⟩

variable (pointers) in
theorem noPointer_eq (hgrab : dev.grabbed = false) (w : TreeWindow) :
    noPointer pointers dev w = !inside pointers w := by
  unfold noPointer
  rw [← not_isSome, ← Bool.not_or]
  congr 1
  rw [Bool.eq_iff_iff, Bool.or_eq_true, hasPointer_iff hgrab, firstPointerChild_isSome_iff, inside_iff]
  constructor
  · rintro (⟨i, h⟩ | ⟨i, p, hp, hparent⟩)
    · exact ⟨i, w, h, inWindow_iff.2 (.inl rfl)⟩
    · exact ⟨i, p, hp, inWindow_iff.2 (.inr hparent)⟩
  · rintro ⟨i, p, hp, hin⟩
    rcases inWindow_iff.1 hin with rfl | hparent
    · exact .inl ⟨i, hp⟩
    · exact .inr ⟨i, p, hp, hparent⟩

variable (pointers) in
/-- With the pointer of a device taken out, or put into a window. -/
theorem inside_update (dev : PointerDevice) (win : Option TreeWindow) (w : TreeWindow) :
    inside (Function.update pointers dev.id win) w = (inside (leaveWindow dev pointers) w || win.any (inWindow w)) := by
  unfold leaveWindow
  rw [Bool.eq_iff_iff, Bool.or_eq_true, inside_iff, inside_iff]
  constructor
  · rintro ⟨i, p, hp, hin⟩
    by_cases hi : i = dev.id
    · subst hi
      rw [update_self] at hp
      exact .inr (by rw [hp]; exact hin)
    · rw [update_of_ne hi] at hp
      exact .inl ⟨i, p, by rw [update_of_ne hi]; exact hp, hin⟩
  · rintro (⟨i, p, hp, hin⟩ | h)
    · by_cases hi : i = dev.id
      · subst hi
        rw [update_self] at hp
        nomatch hp
      · rw [update_of_ne hi] at hp
        exact ⟨i, p, by rw [update_of_ne hi]; exact hp, hin⟩
    · cases win with
      | none => nomatch h
      | some p => exact ⟨dev.id, p, update_self _ _ _, h⟩

end Pointers

/-! ### The events of a move -/

/-- The events for a window that are not Inferior. -/
def crossingsAt (w : TreeWindow) (events : List CrossingEvent) : List CrossingType :=
  (events.filter fun e => e.window = w && e.detail ≠ .inferior).map CrossingEvent.type

/-- What is to be said where a statement was `before` and is `after`. -/
def change (before after : Bool) : List CrossingType :=
  match before, after with
  | false, true => [.enterNotify]
  | true, false => [.leaveNotify]
  | _, _ => []

section Moves

variable {pointers : PointerWindows} {dev : PointerDevice} {mode : CrossingMode} {detail : CrossingDetail}
  {ancestor : Option TreeWindow} {w : TreeWindow}

theorem crossingsAt_append (events events' : List CrossingEvent) :
    crossingsAt w (events ++ events') = crossingsAt w events ++ crossingsAt w events' := by
  unfold crossingsAt
  rw [filter_append, map_append]

theorem crossingsAt_singleton (type : CrossingType) (hdetail : detail ≠ .inferior) (win : TreeWindow)
    (child : Option TreeWindow) :
    crossingsAt w [⟨type, mode, detail, win, child⟩] = if win = w then [type] else [] := by
  unfold crossingsAt
  by_cases hw : win = w
  · simp [hw, hdetail]
  · simp [hw]

theorem crossingsAt_inferior (type : CrossingType) (win : TreeWindow) :
    crossingsAt w (inferiorEvent pointers dev mode type win) = [] := by
  unfold inferiorEvent
  split
  · rfl
  · simp [crossingsAt]

theorem crossingsAt_crossingEvent (hgrab : dev.grabbed = false) (type : CrossingType) (hdetail : detail ≠ .inferior)
    (win : TreeWindow) :
    crossingsAt w (crossingEvent pointers dev mode type detail win) =
      if win = w ∧ inside pointers w = false then [type] else [] := by
  have hno := noPointer_eq pointers hgrab win
  unfold noPointer at hno
  unfold crossingEvent
  split
  · rename_i hhas
    rw [hhas] at hno
    rw [if_neg]
    · rfl
    · rintro ⟨rfl, hinside⟩
      rw [hinside] at hno
      nomatch hno
  · rename_i hhas
    rw [eq_false_of_not_eq_true hhas] at hno
    split
    · rename_i hchild
      rw [← not_isSome, hchild] at hno
      rw [if_neg]
      · simp [crossingsAt]
      · rintro ⟨rfl, hinside⟩
        rw [hinside] at hno
        nomatch hno
    · rename_i hchild
      rw [← not_isSome, eq_false_of_not_eq_true hchild] at hno
      rw [crossingsAt_singleton type hdetail]
      by_cases hw : win = w
      · subst hw
        have hinside : inside pointers win = false := by simpa using hno
        rw [if_pos rfl, if_pos ⟨rfl, hinside⟩]
      · rw [if_neg hw, if_neg fun h => hw h.1]

/-- `ancestor` is above `child`, or there is none. -/
def Above (ancestor : Option TreeWindow) (child : TreeWindow) : Prop := ∀ a ∈ ancestor, windowIsParent a child = true

/-- `w` is on the way from `child` up to `ancestor`. -/
def onWay (ancestor : Option TreeWindow) (child w : TreeWindow) : Bool :=
  windowIsParent w child && !ancestor.any (inWindow w)

theorem onWay_parent {p : TreeWindow} (n : ℕ) (h : Above ancestor (.child p n)) (hne : ancestor ≠ some p) :
    Above ancestor p ∧ onWay ancestor (.child p n) w = (decide (p = w) || onWay ancestor p w) ∧
      (p = w → onWay ancestor p w = false) := by
  have habove : Above ancestor p := by
    intro a ha
    have := h a ha
    rw [windowIsParent_child, inWindow_iff] at this
    rcases this with rfl | hparent
    · exact absurd ha hne
    · exact hparent
  refine ⟨habove, ?_, ?_⟩
  · unfold onWay
    rw [windowIsParent_child]
    by_cases hpw : p = w
    · subst hpw
      have hno : ancestor.any (inWindow p) = false := by
        cases hancestor : ancestor with
        | none => rfl
        | some a => exact windowIsParent_asymm (habove a hancestor)
      rw [hno, decide_eq_true rfl, inWindow_iff.2 (.inl rfl)]
      rfl
    · unfold inWindow
      rw [decide_eq_false hpw, Bool.false_or, Bool.false_or]
  · rintro rfl
    unfold onWay
    rw [windowIsParent_self]
    rfl

variable {child : TreeWindow}

variable (pointers mode detail) in
/-- The windows on the way get an EnterNotify if there is no pointer below. -/
theorem coreEnterNotifies_spec (hgrab : dev.grabbed = false) (hdetail : detail ≠ .inferior) (h : Above ancestor child) :
    ∃ events, coreEnterNotifies pointers dev mode detail ancestor child = .ok events ∧
      ∀ w, crossingsAt w events =
        if onWay ancestor child w = true ∧ inside pointers w = false then [.enterNotify] else [] := by
  induction child with
  | root s =>
    cases hancestor : ancestor with
    | none => exact ⟨[], rfl, fun w => rfl⟩
    | some a => nomatch h a hancestor
  | child p n ih =>
    unfold coreEnterNotifies
    by_cases hp : ancestor = some p
    · refine ⟨[], if_pos hp, fun w => ?_⟩
      have hno : onWay ancestor (.child p n) w = false := by
        unfold onWay
        rw [hp, any_some, windowIsParent_child, Bool.and_not_self]
      rw [hno]
      rfl
    · obtain ⟨habove, -, -⟩ := onWay_parent (w := p) n h hp
      obtain ⟨events, hrun, hevents⟩ := ih habove
      rw [if_neg hp, hrun, noPointer_eq _ hgrab]
      by_cases hinside : inside pointers p = true
      · refine ⟨events, if_neg (by simp [hinside]), fun w => ?_⟩
        obtain ⟨-, hway, -⟩ := onWay_parent (w := w) n h hp
        rw [hevents, hway]
        by_cases hpw : p = w
        · subst hpw
          rw [if_neg (by simp [hinside]), if_neg (by simp [hinside])]
        · rw [decide_eq_false hpw, Bool.false_or]
      · refine ⟨_, if_pos (by simp [hinside]), fun w => ?_⟩
        obtain ⟨-, hway, hself⟩ := onWay_parent (w := w) n h hp
        rw [crossingsAt_append, hevents, hway, crossingsAt_singleton _ hdetail]
        by_cases hpw : p = w
        · subst hpw
          have hno : inside pointers p = false := eq_false_of_not_eq_true hinside
          rw [hself rfl, hno]
          simp
        · rw [if_neg hpw, decide_eq_false hpw, Bool.false_or, append_nil]

/-- The windows on the way get a LeaveNotify if there is no pointer below. The first one where
there is ends the loop, and there is one below all that are left. -/
theorem leaveNotifiesLoop_spec (hgrab : dev.grabbed = false) (hdetail : detail ≠ .inferior) (h : Above ancestor child) :
    ∃ events, leaveNotifiesLoop pointers dev mode detail ancestor child = .ok events ∧
      ∀ w, crossingsAt w events =
        if onWay ancestor child w = true ∧ inside pointers w = false then [.leaveNotify] else [] := by
  induction child with
  | root s =>
    cases hancestor : ancestor with
    | none => exact ⟨[], rfl, fun w => rfl⟩
    | some a => nomatch h a hancestor
  | child p n ih =>
    unfold leaveNotifiesLoop
    by_cases hp : ancestor = some p
    · refine ⟨[], if_pos hp, fun w => ?_⟩
      have hno : onWay ancestor (.child p n) w = false := by
        unfold onWay
        rw [hp, any_some, windowIsParent_child, Bool.and_not_self]
      rw [hno]
      rfl
    · rw [if_neg hp, noPointer_eq _ hgrab]
      by_cases hinside : inside pointers p = true
      · refine ⟨[], if_pos (by simp [hinside]), fun w => ?_⟩
        rw [if_neg]
        · rfl
        · rintro ⟨hway, hno⟩
          unfold onWay at hway
          rw [and_eq_true] at hway
          rw [inside_of_inWindow hinside hway.1] at hno
          nomatch hno
      · obtain ⟨habove, -, -⟩ := onWay_parent (w := p) n h hp
        obtain ⟨events, hrun, hevents⟩ := ih habove
        rw [if_neg (by simp [hinside]), hrun]
        refine ⟨_, rfl, fun w => ?_⟩
        obtain ⟨-, hway, hself⟩ := onWay_parent (w := w) n h hp
        rw [← singleton_append, crossingsAt_append, hevents, hway, crossingsAt_singleton _ hdetail]
        by_cases hpw : p = w
        · subst hpw
          have hno : inside pointers p = false := eq_false_of_not_eq_true hinside
          rw [hself rfl, hno]
          simp
        · rw [if_neg hpw, decide_eq_false hpw, Bool.false_or, nil_append]

variable (pointers mode detail) in
theorem coreLeaveNotifies_spec (hgrab : dev.grabbed = false) (hdetail : detail ≠ .inferior) (h : Above ancestor child) :
    ∃ events, coreLeaveNotifies pointers dev mode detail child ancestor = .ok events ∧
      ∀ w, crossingsAt w events =
        if onWay ancestor child w = true ∧ inside pointers w = false then [.leaveNotify] else [] := by
  unfold coreLeaveNotifies
  rw [if_neg]
  · exact leaveNotifiesLoop_spec hgrab hdetail h
  · intro hself
    have := h child hself
    rw [windowIsParent_self] at this
    nomatch this

/-! ### The three cases -/

variable {A B : TreeWindow}

theorem toDescendant_spec (hgrab : dev.grabbed = false) (hAB : windowIsParent A B = true) :
    ∃ events, coreEnterLeaveToDescendant pointers dev mode A B = .ok events ∧ ∀ w, crossingsAt w events =
      change (inside pointers w || inWindow w A) (inside pointers w || inWindow w B) := by
  have habove : Above (some A) B := fun a ha => some.inj ha ▸ hAB
  obtain ⟨enter, hrun, henter⟩ := coreEnterNotifies_spec pointers mode .virtual hgrab (by decide) habove
  unfold coreEnterLeaveToDescendant
  rw [hrun]
  refine ⟨_, rfl, fun w => ?_⟩
  rw [crossingsAt_append, crossingsAt_append, crossingsAt_inferior, henter,
    crossingsAt_crossingEvent hgrab _ (by decide)]
  unfold onWay
  rw [any_some]
  cases hinside : inside pointers w with
  | true => simp [change]
  | false =>
    by_cases hBw : B = w
    · -- the window the pointer comes to is not above the one it comes from
      subst hBw
      rw [windowIsParent_self, windowIsParent_asymm hAB, inWindow_iff.2 (.inl rfl)]
      simp [change]
    · have hin : inWindow w B = windowIsParent w B := by
        unfold inWindow
        rw [decide_eq_false hBw, Bool.false_or]
      rw [hin]
      cases hA : inWindow w A with
      | true => simp [inWindow_trans hA hAB, hBw, change]
      | false => cases hB : windowIsParent w B <;> simp [hBw, change]

theorem toAncestor_spec (hgrab : dev.grabbed = false) (hBA : windowIsParent B A = true) :
    ∃ events, coreEnterLeaveToAncestor pointers dev mode A B = .ok events ∧ ∀ w, crossingsAt w events =
      change (inside pointers w || inWindow w A) (inside pointers w || inWindow w B) := by
  have habove : Above (some B) A := fun a ha => some.inj ha ▸ hBA
  obtain ⟨leave, hrun, hleave⟩ := coreLeaveNotifies_spec pointers mode .virtual hgrab (by decide) habove
  unfold coreEnterLeaveToAncestor
  rw [hrun]
  refine ⟨_, rfl, fun w => ?_⟩
  rw [crossingsAt_append, crossingsAt_append, crossingsAt_inferior, hleave,
    crossingsAt_crossingEvent hgrab _ (by decide)]
  unfold onWay
  rw [any_some]
  cases hinside : inside pointers w with
  | true => simp [change]
  | false =>
    by_cases hAw : A = w
    · subst hAw
      rw [windowIsParent_self, windowIsParent_asymm hBA, inWindow_iff.2 (.inl rfl)]
      simp [change]
    · have hin : inWindow w A = windowIsParent w A := by
        unfold inWindow
        rw [decide_eq_false hAw, Bool.false_or]
      rw [hin]
      cases hB : inWindow w B with
      | true => simp [inWindow_trans hB hBA, hAw, change]
      | false => cases hA : windowIsParent w A <;> simp [hAw, change]

theorem nonLinear_spec (hgrab : dev.grabbed = false) (hne : A ≠ B) (hAB : windowIsParent A B = false)
    (hBA : windowIsParent B A = false) :
    ∃ events, coreEnterLeaveNonLinear pointers dev mode A B = .ok events ∧ ∀ w, crossingsAt w events =
      change (inside pointers w || inWindow w A) (inside pointers w || inWindow w B) := by
  -- the common ancestor is above both
  have habove : Above (commonAncestor A B) A ∧ Above (commonAncestor A B) B := by
    have hX : ∀ a ∈ commonAncestor A B, windowIsParent a A = true ∧ windowIsParent a B = true := by
      intro a ha
      have hspec := commonAncestor_spec A B a
      rw [show commonAncestor A B = some a from ha, any_some, inWindow_iff.2 (.inl rfl)] at hspec
      exact (and_eq_true _ _).mp hspec.symm
    exact ⟨fun a ha => (hX a ha).1, fun a ha => (hX a ha).2⟩
  obtain ⟨leave, hrun, hleave⟩ := coreLeaveNotifies_spec pointers mode .nonlinearVirtual hgrab (by decide) habove.1
  obtain ⟨enter, hrun', henter⟩ := coreEnterNotifies_spec pointers mode .nonlinearVirtual hgrab (by decide) habove.2
  unfold coreEnterLeaveNonLinear
  dsimp only
  rw [hrun, hrun']
  refine ⟨_, rfl, fun w => ?_⟩
  rw [crossingsAt_append, crossingsAt_append, crossingsAt_append, hleave, henter,
    crossingsAt_crossingEvent hgrab _ (by decide), crossingsAt_crossingEvent hgrab _ (by decide)]
  unfold onWay
  rw [commonAncestor_spec]
  cases hinside : inside pointers w with
  | true => simp [change]
  | false =>
    by_cases hAw : A = w
    · subst hAw
      have hno : inWindow A B = false := by
        unfold inWindow
        rw [hAB, decide_eq_false (Ne.symm hne)]
        rfl
      rw [windowIsParent_self, hAB, hno, inWindow_iff.2 (.inl rfl)]
      simp [change, Ne.symm hne]
    by_cases hBw : B = w
    · subst hBw
      have hno : inWindow B A = false := by
        unfold inWindow
        rw [hBA, decide_eq_false hne]
        rfl
      rw [windowIsParent_self, hBA, hno, inWindow_iff.2 (.inl rfl)]
      simp [change, hne]
    · unfold inWindow
      cases hA : windowIsParent w A <;> cases hB : windowIsParent w B <;> simp [hAw, hBw, change]

variable (pointers mode) in
theorem enterLeaveCases_spec (hgrab : dev.grabbed = false) (hne : A ≠ B) :
    ∃ events, enterLeaveCases pointers dev mode A B = .ok events ∧ ∀ w, crossingsAt w events =
      change (inside pointers w || inWindow w A) (inside pointers w || inWindow w B) := by
  unfold enterLeaveCases
  split
  · rename_i hAB
    exact toDescendant_spec hgrab hAB
  rename_i hAB
  split
  · rename_i hBA
    exact toAncestor_spec hgrab hBA
  · rename_i hBA
    exact nonLinear_spec hgrab hne (eq_false_of_not_eq_true hAB) (eq_false_of_not_eq_true hBA)

end Moves

/-! ### Runs -/

/-- The device has no grab, and its pointer is where the move is reported to begin. -/
structure MoveOk (pointers : PointerWindows) (m : PointerMove) : Prop where
  grabbed : m.dev.grabbed = false
  fromWin : m.dev.isPointer = true → m.dev.isMaster = true → m.mode ≠ .passiveGrab → m.mode ≠ .passiveUngrab →
    m.fromWin ≠ m.toWin → pointers m.dev.id = some m.fromWin

/-- **The events of a move**: an EnterNotify for each window that now has a pointer in it or
below, and a LeaveNotify for each that has none any more. -/
theorem doEnterLeaveEvents_spec {pointers : PointerWindows} {m : PointerMove} (h : MoveOk pointers m) :
    ∃ pointers' events, doEnterLeaveEvents pointers m.dev m.mode m.fromWin m.toWin = .ok (pointers', events) ∧
      ∀ w, crossingsAt w events = change (inside pointers w) (inside pointers' w) := by
  have hsame : ∀ b : Bool, change b b = [] := fun b => by cases b <;> rfl
  have hnothing : ∃ pointers' events, (Except.ok (pointers, []) : Outcome (PointerWindows × List CrossingEvent)) =
      .ok (pointers', events) ∧ ∀ w, crossingsAt w events = change (inside pointers w) (inside pointers' w) :=
    ⟨pointers, [], rfl, fun w => (hsame _).symm⟩
  unfold doEnterLeaveEvents
  split
  · exact hnothing
  rename_i hpointer
  split
  · exact hnothing
  rename_i hne
  split
  · rename_i hmode
    unfold coreEnterLeaveEvents
    split
    · exact hnothing
    rename_i hmaster
    have hfrom := h.fromWin (by simpa using hpointer) (by simpa using hmaster) hmode.1 hmode.2 hne
    have hbefore : ∀ w, inside pointers w = (inside (leaveWindow m.dev pointers) w || inWindow w m.fromWin) := by
      intro w
      have := inside_update pointers m.dev (some m.fromWin) w
      rwa [← hfrom, update_eq_self, hfrom] at this
    have hafter : ∀ w, inside (enterWindow m.dev m.toWin (leaveWindow m.dev pointers)) w =
        (inside (leaveWindow m.dev pointers) w || inWindow w m.toWin) := by
      intro w
      have := inside_update (leaveWindow m.dev pointers) m.dev (some m.toWin) w
      rw [any_some] at this
      unfold enterWindow
      rw [this]
      unfold leaveWindow
      rw [update_idem]
    obtain ⟨events, hrun, hevents⟩ := enterLeaveCases_spec (leaveWindow m.dev pointers) m.mode
      h.grabbed hne
    rw [hrun]
    refine ⟨_, events, rfl, fun w => ?_⟩
    rw [hevents, hbefore, hafter]
  · exact hnothing

/-- The types alternate; `inside` is whether an EnterNotify came last. -/
def Alternate : Bool → List CrossingType → Bool → Prop
  | inside, [], after => inside = after
  | inside, .enterNotify :: types, after => inside = false ∧ Alternate true types after
  | inside, .leaveNotify :: types, after => inside = true ∧ Alternate false types after

theorem alternate_append {types' : List CrossingType} {middle after : Bool} : ∀ {types : List CrossingType}
    {before : Bool}, Alternate before types middle → Alternate middle types' after →
      Alternate before (types ++ types') after := by
  intro types
  induction types with
  | nil =>
    intro before h h'
    cases h
    exact h'
  | cons type types ih =>
    intro before h h'
    cases type with
    | enterNotify => exact ⟨h.1, ih h.2 h'⟩
    | leaveNotify => exact ⟨h.1, ih h.2 h'⟩

theorem alternate_change (before after : Bool) : Alternate before (change before after) after := by
  cases before <;> cases after <;> simp [change, Alternate]

/-- **Crossings alternate**, for each window, over every run of moves that are reported from where
the pointers are: an EnterNotify comes first if there was no pointer in the window and below it.
And in each move a window gets an EnterNotify exactly if the first pointer comes, a LeaveNotify
exactly if the last one goes. -/
theorem crossings_alternate {pointers : PointerWindows} {moves : List PointerMove}
    (hmoves : AllSteps moveStep (fun run m => ∀ s, run = .ok s → MoveOk s.pointers m) (.ok ⟨pointers, []⟩) moves) :
    ∃ s, run moveStep (.ok ⟨pointers, []⟩) moves = .ok s ∧
      (∀ w, Alternate (inside pointers w) (crossingsAt w s.events) (inside s.pointers w)) ∧
      ∀ m, MoveOk s.pointers m →
        ∃ pointers' events, doEnterLeaveEvents s.pointers m.dev m.mode m.fromWin m.toWin = .ok (pointers', events) ∧
          ∀ w, crossingsAt w events = change (inside s.pointers w) (inside pointers' w) := by
  obtain ⟨s, hrun, h⟩ := hmoves.invariant (P := fun run => ∃ s : CrossingState, run = .ok s ∧
      ∀ w, Alternate (inside pointers w) (crossingsAt w s.events) (inside s.pointers w)) (by
    rintro run m hC ⟨s, rfl, h⟩
    obtain ⟨pointers', events, hrun, hevents⟩ := doEnterLeaveEvents_spec (hC s rfl)
    refine ⟨⟨pointers', s.events ++ events⟩, ?_, fun w => ?_⟩
    · unfold moveStep
      rw [ok_bind, hrun]
      rfl
    · rw [crossingsAt_append, hevents]
      exact alternate_append (h w) (alternate_change _ _)) ⟨⟨pointers, []⟩, rfl, fun w => rfl⟩
  exact ⟨s, hrun, h, fun m hm => doEnterLeaveEvents_spec hm⟩

/-- Two pointers that are in the root window of a screen. -/
def twoPointers : PointerWindows := fun i => if i.val = 2 ∨ i.val = 4 then some (.root 0) else none

def pointerDevice (id : Fin MAXDEVICES) : PointerDevice := ⟨id, true, true, false⟩

/-- One of them moves to a window. -/
theorem crossings_alternate_one :
    ∃ s, run moveStep (.ok ⟨twoPointers, []⟩)
        [⟨pointerDevice ⟨2, by decide⟩, .normal, .root 0, .child (.root 0) 1⟩] = .ok s ∧
      (∀ w, Alternate (inside twoPointers w) (crossingsAt w s.events) (inside s.pointers w)) ∧
      ∀ m, MoveOk s.pointers m →
        ∃ pointers' events, doEnterLeaveEvents s.pointers m.dev m.mode m.fromWin m.toWin = .ok (pointers', events) ∧
          ∀ w, crossingsAt w events = change (inside s.pointers w) (inside pointers' w) :=
  crossings_alternate ⟨fun s hs => by
    cases hs
    exact ⟨rfl, fun _ _ _ _ _ => rfl⟩, trivial⟩

/-- **A LeaveNotify comes first** for the root window that the pointers are put into without an
event, when one of them goes to another screen. And for a window that no pointer is in, if a move
is reported from there. -/
theorem crossings_leave_first :
    (∃ s, run moveStep (.ok ⟨fun i => if i.val = 2 then some (.root 0) else none, []⟩)
        [⟨pointerDevice ⟨2, by decide⟩, .normal, .root 0, .root 1⟩] = .ok s ∧
      crossingsAt (.root 0) s.events = [.leaveNotify]) ∧
    ∃ s, run moveStep (.ok ⟨fun _ => none, []⟩)
        [⟨pointerDevice ⟨2, by decide⟩, .normal, .child (.root 0) 1, .root 0⟩] = .ok s ∧
      crossingsAt (.child (.root 0) 1) s.events = [.leaveNotify] :=
  ⟨⟨_, rfl, by decide +kernel⟩, _, rfl, by decide +kernel⟩

end Xenia.Dix
