import Xenia.Dix.PointerEvents
import Xenia.Xi.BarrierCounts

/-!
# The bound of the event array

`pointer_events_fit`: the array holds the events of each call, in every run whose calls meet `Fits`: there are
at most 93 barriers on the screen that the pointer has hit or is released from, or at most 89 where scroll increments are
crossed, and then the pointer stays in one place in the later rounds. Each of the barriers can give a leave event, for
which nothing leaves room: with 99 of them one motion writes 101 events (`pointer_events_overflow`).
-/

namespace Xenia.Dix.PointerEvents

open Xenia.Lib Xenia.Xi.Barriers List

variable {blocking : PointerBarrier → ℤ → ℤ → ℤ → ℤ → Option ℚ} {call : PointerCall} {s : BarrierState}

/-! ## The condition -/

/-- The barriers on the call's screen that the master pointer has hit or is released from. -/
def PointerCall.touched (call : PointerCall) (master : ℕ) (s : BarrierState) : ℕ :=
  (onScreen (call.motion 0).screen s.barriers).countP (Xi.Barriers.touched master)

/-- The path of every round after the first. -/
structure PointerCall.StaysAt (call : PointerCall) (path : Path) : Prop where
  rounds : ∀ round, 1 ≤ round → call.paths.getD round default = path
  screen : path.screen = (call.motion 0).screen
  x : path.current_x = path.dest_x
  y : path.current_y = path.dest_y

/-- No scroll increment is crossed. -/
def PointerCall.Smooth (call : PointerCall) : Prop := ∀ turns ∈ call.crossed, turns.1 = 0

instance : Decidable call.Smooth := inferInstanceAs (Decidable (∀ turns ∈ call.crossed, turns.1 = 0))

/-- The master pointer has hit or is released from at most that many barriers on the call's screen. -/
def PointerCall.AtMost (call : PointerCall) (n : ℕ) (s : BarrierState) : Prop :=
  ∀ master ∈ call.pDev.master, call.touched master s ≤ n

instance (n : ℕ) (s : BarrierState) : Decidable (call.AtMost n s) :=
  inferInstanceAs (Decidable (∀ master ∈ call.pDev.master, call.touched master s ≤ n))

def PointerCall.Fits (call : PointerCall) (s : BarrierState) : Prop :=
  (call.AtMost 93 s ∧ call.Smooth) ∨ (call.AtMost 89 s ∧ ∃ path, call.StaysAt path)

/-! ## A round -/

/-- The barriers that a pointer at the end of the path leaves. -/
def leavable (call : PointerCall) (path : Path) (s : BarrierState) : ℕ :=
  if call.pDev.numAxes < 2 then 0
  else
    match call.pDev.master with
    | none => 0
    | some master => (onScreen path.screen s.barriers).countP (away master path.dest_x path.dest_y)

/-- The rounds of a call: none yet, or some, after which few events are written or no barrier is left to be left. -/
structure Room (call : PointerCall) (path : Path) (s : BarrierState) (n : ℕ) (st : Filling) : Prop where
  regular : Regular st.barriers
  events : (st.rounds = 0 ∧ st.events.length ≤ 1 ∧ st.barriers = s) ∨
    (1 ≤ st.rounds ∧ (st.events.length + leavable call path st.barriers ≤ 96 ∨
      (st.events.length ≤ n ∧ leavable call path st.barriers = 0)))

variable {path : Path} {st : Filling} {n : ℕ}

theorem Room.mono {n' : ℕ} (hst : Room call path s n st) (hle : n ≤ n') : Room call path s n' st :=
  ⟨hst.regular, hst.events.imp_right fun ⟨hrounds, hevents⟩ =>
    ⟨hrounds, hevents.imp_right fun ⟨hlength, hzero⟩ => ⟨hlength.trans hle, hzero⟩⟩⟩

/-- Fewer events have been written than the room there is. -/
theorem Room.low {n' : ℕ} (hst : Room call path s n st) (hlow : st.events.length ≤ n') : Room call path s n' st :=
  ⟨hst.regular, hst.events.imp_right fun ⟨hrounds, hevents⟩ =>
    ⟨hrounds, hevents.imp_right fun ⟨_, hzero⟩ => ⟨hlow, hzero⟩⟩⟩

theorem fill_pointer_events_le (type : EventType) (buttons : ℕ) (flags : BitVec 32) (mask : Option (List Bool)) :
    st.events.length ≤ (fill_pointer_events blocking call type buttons flags mask st).events.length := by
  unfold fill_pointer_events
  split
  · exact le_rfl
  · simp only [length_append]
    omega

variable (blocking st) in
/-- What a round that is accepted writes. -/
theorem fill_pointer_events_length (type : EventType) (buttons : ℕ) (flags : BitVec 32) (mask : Option (List Bool))
    (haccepted : accepted call type buttons mask = true) :
    (fill_pointer_events blocking call type buttons flags mask st).events.length ≤
      st.events.length + 2 + (positionSprite blocking call (flags &&& POINTER_ABSOLUTE != 0) st).2.length := by
  unfold fill_pointer_events
  rw [haccepted]
  simp only [Bool.not_true, Bool.false_eq_true, if_false, List.length_append]
  split <;> split <;> simp only [List.length_nil, List.length_singleton] <;> omega

variable (blocking st) in
theorem fill_pointer_events_barriers (type : EventType) (buttons : ℕ) (flags : BitVec 32) (mask : Option (List Bool))
    (haccepted : accepted call type buttons mask = true) :
    (fill_pointer_events blocking call type buttons flags mask st).barriers =
        (positionSprite blocking call (flags &&& POINTER_ABSOLUTE != 0) st).1 ∧
      (fill_pointer_events blocking call type buttons flags mask st).rounds = st.rounds + 1 := by
  unfold fill_pointer_events
  rw [haccepted]
  exact ⟨rfl, rfl⟩

theorem fill_pointer_events_rejected (type : EventType) (buttons : ℕ) (flags : BitVec 32) (mask : Option (List Bool))
    (haccepted : accepted call type buttons mask = false) :
    fill_pointer_events blocking call type buttons flags mask st = st := by
  unfold fill_pointer_events
  rw [haccepted]
  rfl

theorem positionSprite_regular (halong : Along blocking) (absolute : Bool) (hs : Regular st.barriers) :
    Regular (positionSprite blocking call absolute st).1 := by
  unfold positionSprite
  split
  · exact hs
  · exact (motion_count _ halong hs).1

/-- The first round: the hits and the leaves of a motion among the barriers as they were. -/
theorem positionSprite_first (halong : Along blocking) (absolute : Bool) (hs : Regular s) (hbarriers : st.barriers = s)
    (hrounds : st.rounds = 0) (hscreen : path.screen = (call.motion 0).screen)
    (hfew : call.AtMost n s) :
    (positionSprite blocking call absolute st).2.length +
      leavable call path (positionSprite blocking call absolute st).1 ≤ n + 4 := by
  unfold positionSprite leavable
  rw [hbarriers, hrounds]
  by_cases haxes : call.pDev.numAxes < 2
  · simp [haxes]
  · rw [if_neg haxes]
    cases hmaster : call.pDev.master with
    | none =>
      have hnone : (call.motion 0).master = none := hmaster
      have hnothing : input_constrain_cursor blocking s (call.motion 0) =
          (s, ((call.motion 0).dest_x, (call.motion 0).dest_y), []) := by
        unfold input_constrain_cursor
        rw [hnone]
      simp only [hnothing, map_nil]
      split <;> simp
    | some master =>
      have htouched : (onScreen (call.motion 0).screen s.barriers).countP (Xi.Barriers.touched master) ≤ n :=
        hfew master hmaster
      dsimp only
      rw [hscreen]
      split
      · have h1 := away_le_held master (onScreen (call.motion 0).screen s.barriers) path.dest_x path.dest_y
        have h2 := held_le_touched master (onScreen (call.motion 0).screen s.barriers)
        simp only [length_nil]
        omega
      · have hcount := (motion_count (call.motion 0) halong hs).2 master hmaster
        have h1 := away_le_held master
          (onScreen (call.motion 0).screen (input_constrain_cursor blocking s (call.motion 0)).1.barriers)
          path.dest_x path.dest_y
        simp only [length_map]
        omega

variable (blocking) in
/-- A later round: the pointer stays. -/
theorem positionSprite_stays (hs : Regular st.barriers) (hrounds : 1 ≤ st.rounds) (hstays : call.StaysAt path) :
    (positionSprite blocking call false st).2.length ≤ leavable call path st.barriers ∧
      leavable call path (positionSprite blocking call false st).1 = 0 := by
  have hmotion : call.paths.getD st.rounds default = path := hstays.rounds _ hrounds
  unfold positionSprite leavable
  by_cases haxes : call.pDev.numAxes < 2
  · simp [haxes]
  · rw [if_neg haxes]
    simp only [haxes, false_or, Bool.false_eq_true, if_false, List.length_map]
    cases hmaster : call.pDev.master with
    | none =>
      have hnone : (call.motion st.rounds).master = none := hmaster
      unfold input_constrain_cursor
      rw [hnone]
      simp
    | some master =>
      have hx : (call.motion st.rounds).current_x = (call.motion st.rounds).dest_x := by
        simp only [PointerCall.motion, hmotion, hstays.x]
      have hy : (call.motion st.rounds).current_y = (call.motion st.rounds).dest_y := by
        simp only [PointerCall.motion, hmotion, hstays.y]
      have hcount := stay_count blocking hs hx hy master hmaster
      simpa only [PointerCall.motion, hmotion] using hcount

/-- A round of the scroll emulation. -/
theorem room_round (halong : Along blocking) (hs : Regular s) (hstays : call.StaysAt path)
    (hfew : call.AtMost 89 s) (type : EventType) (buttons : ℕ)
    {flags : BitVec 32} (hflags : (flags &&& POINTER_ABSOLUTE != 0) = false) (hn : 96 ≤ n)
    (hst : Room call path s n st) :
    Room call path s (n + 2) (fill_pointer_events blocking call type buttons flags none st) := by
  cases haccepted : accepted call type buttons none with
  | false =>
    rw [fill_pointer_events_rejected _ _ _ _ haccepted]
    exact hst.mono (Nat.le_add_right n 2)
  | true =>
    have hlength := fill_pointer_events_length blocking st type buttons flags none haccepted
    obtain ⟨hbarriers, hrounds⟩ :=
      fill_pointer_events_barriers blocking st type buttons flags none haccepted
    rw [hflags] at hlength hbarriers
    refine ⟨?_, .inr ⟨by omega, ?_⟩⟩
    · rw [hbarriers]
      exact positionSprite_regular halong _ hst.regular
    · rw [hbarriers]
      obtain ⟨hfirst, hone, hsame⟩ | ⟨hlater, hevents⟩ := hst.events
      · have := positionSprite_first halong false hs hsame hfirst hstays.screen hfew
        exact .inl (by omega)
      · obtain ⟨hleaves, hzero⟩ := positionSprite_stays blocking hst.regular hlater hstays
        exact .inr ⟨by omega, hzero⟩

/-! ## A call -/

section emulation

variable (halong : Along blocking) (hs : Regular s) (hstays : call.StaysAt path)
  (hfew : call.AtMost 89 s)

include halong hs hstays hfew

/-- A turn is made while there is room for four more events. -/
theorem emulateTurn_room (type : EventType) (b : ℕ) {flags : BitVec 32} (hflags : (flags &&& POINTER_ABSOLUTE != 0) = false)
    {start : ℕ} (hst : Room call path s 100 st) (hstart : start ≤ st.events.length) :
    Room call path s 100 (emulateTurn blocking call type b flags start (GetMaximumEventsNum - start) st) ∧
      start ≤ (emulateTurn blocking call type b flags start (GetMaximumEventsNum - start) st).events.length := by
  unfold emulateTurn
  split
  next hroom =>
    have hlow : st.events.length ≤ 96 := by
      unfold GetMaximumEventsNum at hroom
      omega
    have hbefore : Room call path s 96 st := hst.low hlow
    generalize hpressed : (if type ≠ .ButtonRelease then
      fill_pointer_events blocking call .ButtonPress b flags none st else st) = pressed
    have hpress : Room call path s 98 pressed ∧ st.events.length ≤ pressed.events.length := by
      rw [← hpressed]
      split
      · exact ⟨room_round halong hs hstays hfew _ _ hflags le_rfl hbefore, fill_pointer_events_le _ _ _ _⟩
      · exact ⟨hbefore.mono (by omega), le_rfl⟩
    dsimp only
    split
    · refine ⟨room_round halong hs hstays hfew _ _ hflags (by omega) hpress.1, ?_⟩
      exact (hstart.trans hpress.2).trans (fill_pointer_events_le _ _ _ _)
    · exact ⟨hpress.1.mono (by omega), hstart.trans hpress.2⟩
  · exact ⟨hst, hstart⟩

theorem emulate_scroll_room (type : EventType) (axis : ℕ) (scroll : Option ScrollInfo) (hst : Room call path s 100 st) :
    Room call path s 100 (emulate_scroll_button_events blocking call type axis scroll st) := by
  unfold emulate_scroll_button_events
  split
  · exact hst
  · split
    · exact hst
    · dsimp only
      generalize hflags : (if type ≠ .ButtonPress ∧ type ≠ .ButtonRelease then POINTER_EMULATED else 0) = flags
      have hrelative : (flags &&& POINTER_ABSOLUTE != 0) = false := by
        rw [← hflags]
        split <;> decide
      refine (Function.Iterate.rec (fun st' : Filling =>
        Room call path s 100 st' ∧ st.events.length ≤ st'.events.length) ⟨hst, le_rfl⟩ ?_ _).1
      exact fun st' ⟨hst', hstart⟩ => emulateTurn_room halong hs hstays hfew type _ hrelative hst' hstart

theorem emulateAxes_room (type : EventType) (axis : ℕ) (axes : List (Bool × Option ScrollInfo))
    (hst : Room call path s 100 st) : Room call path s 100 (emulateAxes blocking call type axis axes st) := by
  induction axes generalizing axis st with
  | nil => exact hst
  | cons a rest ih =>
    obtain ⟨isset, scroll⟩ := a
    unfold emulateAxes
    refine ih (axis + 1) ?_
    split
    · exact emulate_scroll_room halong hs hstays hfew type axis scroll hst
    · exact hst

end emulation

/-- Where no increment is crossed no button is emulated. -/
theorem emulateAxes_smooth (hsmooth : call.Smooth) (type : EventType) (axis : ℕ) (axes : List (Bool × Option ScrollInfo)) :
    emulateAxes blocking call type axis axes st = st := by
  have hnone : ∀ axis, (call.crossed.getD axis (0, true)).1 = 0 := by
    intro axis
    rw [getD_eq_getElem?_getD]
    cases hget : call.crossed[axis]? with
    | none => rfl
    | some turns => exact hsmooth turns (mem_of_getElem? hget)
  induction axes generalizing axis with
  | nil => rfl
  | cons a rest ih =>
    obtain ⟨isset, scroll⟩ := a
    unfold emulateAxes
    have hsame : emulate_scroll_button_events blocking call type axis scroll st = st := by
      unfold emulate_scroll_button_events
      split
      · rfl
      · split
        · rfl
        · dsimp only
          rw [hnone axis]
          rfl
    rw [hsame, ite_self]
    exact ih (axis + 1)

variable (path) in
/-- The first round has not been made, or made this many events at the most. -/
theorem firstRound_count (halong : Along blocking) (hs : Regular s) (hscreen : path.screen = (call.motion 0).screen)
    (hfew : call.AtMost n s) :
    Regular (firstRound blocking call s).barriers ∧
      (((firstRound blocking call s).rounds = 0 ∧ (firstRound blocking call s).events.length ≤ 1 ∧
          (firstRound blocking call s).barriers = s) ∨
        (1 ≤ (firstRound blocking call s).rounds ∧ (firstRound blocking call s).events.length +
          leavable call path (firstRound blocking call s).barriers ≤ n + 7)) := by
  have hround : ∀ (type : EventType) (buttons : ℕ) (flags : BitVec 32) (mask : Option (List Bool)) (st : Filling),
      st.rounds = 0 → st.events.length ≤ 1 → st.barriers = s →
      let st' := fill_pointer_events blocking call type buttons flags mask st
      Regular st'.barriers ∧ ((st'.rounds = 0 ∧ st'.events.length ≤ 1 ∧ st'.barriers = s) ∨
        (1 ≤ st'.rounds ∧ st'.events.length + leavable call path st'.barriers ≤ n + 7)) := by
    intro type buttons flags mask st hrounds hone hsame
    cases haccepted : accepted call type buttons mask with
    | false =>
      rw [fill_pointer_events_rejected _ _ _ _ haccepted]
      exact ⟨hsame ▸ hs, .inl ⟨hrounds, hone, hsame⟩⟩
    | true =>
      have hlength := fill_pointer_events_length blocking st type buttons flags mask haccepted
      obtain ⟨hbarriers, hnext⟩ :=
        fill_pointer_events_barriers blocking st type buttons flags mask haccepted
      have := positionSprite_first halong (flags &&& POINTER_ABSOLUTE != 0) hs hsame hrounds hscreen hfew
      refine ⟨?_, .inr ⟨by omega, ?_⟩⟩
      · rw [hbarriers]
        exact positionSprite_regular halong _ (hsame ▸ hs)
      · rw [hbarriers]
        omega
  unfold firstRound
  have hchanged : (if call.pDev.master.isSome && call.pDev.slaveSwitch then [InternalEvent.changed] else []).length ≤ 1 := by
    split <;> simp
  dsimp only
  split
  · exact hround _ _ _ _ _ rfl hchanged rfl
  · exact hround _ _ _ _ _ rfl hchanged rfl

theorem Room.length_le (hst : Room call path s 100 st) : st.events.length ≤ 100 := by
  obtain ⟨-, hone, -⟩ | ⟨-, hevents⟩ := hst.events
  · omega
  · omega

/-- The array holds the events of a call that fits. -/
theorem GetPointerEvents_length (halong : Along blocking) (hs : Regular s) (hfits : call.Fits s) :
    (GetPointerEvents blocking call s).2.length ≤ 100 := by
  unfold GetPointerEvents
  split
  · exact Nat.zero_le _
  · dsimp only
    obtain ⟨hfew, hsmooth⟩ | ⟨hfew, path, hstays⟩ := hfits
    · rw [emulateAxes_smooth hsmooth]
      obtain ⟨-, ⟨-, hone, -⟩ | ⟨-, hevents⟩⟩ :=
        firstRound_count { (default : Path) with screen := (call.motion 0).screen } halong hs rfl hfew
      · omega
      · omega
    · obtain ⟨hregular, hevents⟩ := firstRound_count path halong hs hstays.screen hfew
      have hroom : Room call path s 100 (firstRound blocking call s) :=
        ⟨hregular, hevents.imp_right fun ⟨hrounds, hlength⟩ => ⟨hrounds, .inl hlength⟩⟩
      exact (emulateAxes_room halong hs hstays hfew _ _ _ hroom).length_le

/-! ## Runs -/

inductive PointerOp
  | barrier (op : BarrierOp)
  | events (call : PointerCall)
deriving DecidableEq, Repr

variable (blocking) in
def pointerStep (s : BarrierState) : PointerOp → BarrierState
  | .barrier op => barrierStep blocking s op
  | .events call => (GetPointerEvents blocking call s).1

/-- A call fits; the other operations write no events. -/
def PointerOp.Fits (s : BarrierState) : PointerOp → Prop
  | .barrier _ => True
  | .events call => call.Fits s

section

variable (halong : Along blocking)
include halong

theorem fill_pointer_events_regular (type : EventType) (buttons : ℕ) (flags : BitVec 32)
    (mask : Option (List Bool)) (hst : Regular st.barriers) :
    Regular (fill_pointer_events blocking call type buttons flags mask st).barriers := by
  cases haccepted : accepted call type buttons mask with
  | false =>
    rw [fill_pointer_events_rejected _ _ _ _ haccepted]
    exact hst
  | true =>
    rw [(fill_pointer_events_barriers _ _ _ _ _ _ haccepted).1]
    exact positionSprite_regular halong _ hst

theorem emulateTurn_regular (type : EventType) (b : ℕ) (flags : BitVec 32) (start : ℕ) (max_events : ℤ) (hst : Regular st.barriers) :
    Regular (emulateTurn blocking call type b flags start max_events st).barriers := by
  unfold emulateTurn
  split
  · dsimp only
    have hpress : Regular (if type ≠ .ButtonRelease then
        fill_pointer_events blocking call .ButtonPress b flags none st else st).barriers := by
      split
      · exact fill_pointer_events_regular halong _ _ _ _ hst
      · exact hst
    split
    · exact fill_pointer_events_regular halong _ _ _ _ hpress
    · exact hpress
  · exact hst

theorem emulateAxes_regular (type : EventType) (axis : ℕ) (axes : List (Bool × Option ScrollInfo))
    (hst : Regular st.barriers) : Regular (emulateAxes blocking call type axis axes st).barriers := by
  induction axes generalizing axis st with
  | nil => exact hst
  | cons a rest ih =>
    obtain ⟨isset, scroll⟩ := a
    unfold emulateAxes
    refine ih (axis + 1) ?_
    split
    · unfold emulate_scroll_button_events
      split
      · exact hst
      · split
        · exact hst
        · exact Function.Iterate.rec (fun st' : Filling => Regular st'.barriers) hst
            (fun st' hst' => emulateTurn_regular halong _ _ _ _ _ hst') _
    · exact hst

theorem GetPointerEvents_regular (hs : Regular s) :
    Regular (GetPointerEvents blocking call s).1 := by
  unfold GetPointerEvents
  split
  · exact hs
  · refine emulateAxes_regular halong _ _ _ ?_
    unfold firstRound
    dsimp only
    split
    · exact fill_pointer_events_regular halong _ _ _ _ hs
    · exact fill_pointer_events_regular halong _ _ _ _ hs

theorem pointerStep_regular (op : PointerOp) (hs : Regular s) :
    Regular (pointerStep blocking s op) := by
  cases op with
  | barrier op => exact barrierStep_regular halong hs
  | events call => exact GetPointerEvents_regular halong hs

end

/-- **The event array holds the events of every call** that fits, whatever has happened to the barriers before: motions,
release requests, barriers and pointers that come and go, and other calls. -/
theorem pointer_events_fit (blocking : PointerBarrier → ℤ → ℤ → ℤ → ℤ → Option ℚ) (halong : Along blocking)
    (past : List PointerOp) (call : PointerCall)
    (hrun : AllSteps (pointerStep blocking) (fun s op => op.Fits s) noBarriers (past ++ [.events call])) :
    ((GetPointerEvents blocking call (run (pointerStep blocking) noBarriers past)).2.length : ℤ) ≤ GetMaximumEventsNum := by
  rw [allSteps_append] at hrun
  have hregular : Regular (run (pointerStep blocking) noBarriers past) :=
    run_invariant (fun _ op hs => pointerStep_regular halong op hs) noBarriers_regular past
  have := GetPointerEvents_length halong hregular hrun.2.1
  unfold GetMaximumEventsNum
  omega

/-! ## Too many barriers -/

theorem levelBlocking_along : Along levelBlocking := by
  intro barrier x1 y1 x2 y2 distance hblocking
  unfold levelBlocking at hblocking
  split at hblocking
  next hcond =>
    rw [if_pos hcond.1]
    obtain ⟨-, -, -, -, hright | hleft⟩ := hcond
    · omega
    · omega
  · exact absurd hblocking (by simp)

/-- A slave pointer of the master pointer 2 with two axes. -/
def mouse : PointerDevice :=
  { id := 6, enabled := true, hasScreen := true, master := some 2, slaveSwitch := false, button := true,
    valuator := some { axes := [none, none], h_scroll_axis := none, v_scroll_axis := none } }

/-- A motion along a row, across the column of `theBarrier`. -/
def across : PointerCall :=
  { pDev := mouse, type := .MotionNotify, buttons := 0, flags := 0, mask := some [true], ms := 0,
    paths := [{ screen := 0, root := 1, current_x := 5, current_y := 5, dest_x := 15, dest_y := 5 }], crossed := [] }

/-- The pointer hits a barrier and is stopped, and is released and passes. -/
theorem pointer_events_fit_released :
    ((GetPointerEvents levelBlocking across (run (pointerStep levelBlocking) noBarriers
      ((oneBarrier.map .barrier) ++ [.events across, .barrier (.release 1 [⟨2, theBarrier, 1⟩])]))).2.length : ℤ) ≤
      GetMaximumEventsNum :=
  pointer_events_fit levelBlocking levelBlocking_along _ across
    ⟨trivial, trivial, .inl ⟨by decide +kernel, by decide⟩, trivial, .inl ⟨by decide +kernel, by decide⟩, trivial⟩

/-- Barriers in one place, with the pointer released from each. -/
def released (n : ℕ) : List PointerOp :=
  .barrier (.addDevice 2 .masterPointer []) ::
    (List.range n).flatMap fun i =>
      [.barrier (.create
        { barrier := theBarrier + i, window := 1, screen := 0, x1 := 10, y1 := 0, x2 := 10, y2 := 20, directions := 0,
          devices := [], calloc := true, pbdCallocs := [], addResource := true }),
       .barrier (.release 1 [⟨2, theBarrier + i, 1⟩])]

/-- With 99 barriers there is a leave event for each, and the array is too small. -/
theorem pointer_events_overflow :
    Along levelBlocking ∧ ((GetPointerEvents levelBlocking across
      (run (pointerStep levelBlocking) noBarriers (released 99))).2.length : ℤ) > GetMaximumEventsNum :=
  ⟨levelBlocking_along, by decide +kernel⟩

end Xenia.Dix.PointerEvents
