import Xenia.Xi.BarrierRuns

/-!
# Pointer events

`GetPointerEvents` writes the events for a motion or a button into an array whose size is
`GetMaximumEventsNum`: an event for the change of the slave device, a raw event, the barrier events of the motion and the
device event, and then a press and a release for each scroll increment that is crossed, as long as there is room
for four more events.

What is worked out in floating point is an argument of the call: where the pointer moves from and to in each round of
`fill_pointer_events`, and how many increments each scroll axis crosses in which direction.
-/

namespace Xenia.Dix.PointerEvents

open Xenia.Lib Xenia.Xi.Barriers

inductive EventType
  | MotionNotify
  | ButtonPress
  | ButtonRelease
  | other
deriving DecidableEq, Repr

/-- What the event array holds, as far as it matters here. -/
inductive InternalEvent
  | changed
  | raw (type : EventType) (detail : ℕ) (emulated : Bool)
  | device (type : EventType) (detail : ℕ) (emulated : Bool)
  | barrier (ev : BarrierEvent)
deriving DecidableEq, Repr

def GetMaximumEventsNum : ℤ := 100

def MAX_BUTTONS : ℕ := 256

def POINTER_ABSOLUTE : BitVec 32 := 1 <<< 2
def POINTER_NORAW : BitVec 32 := 1 <<< 5
def POINTER_EMULATED : BitVec 32 := 1 <<< 6
def POINTER_RAWONLY : BitVec 32 := 1 <<< 8

/-- A scroll axis of a device. -/
structure ScrollInfo where
  vertical : Bool
  increment : ℚ
deriving DecidableEq, Repr

structure ValuatorClass where
  axes : List (Option ScrollInfo)
  h_scroll_axis : Option ℕ
  v_scroll_axis : Option ℕ
deriving DecidableEq, Repr

/-- A device, with its master pointer if it has one and whether that got its last event from another device. -/
structure PointerDevice where
  id : ℕ
  enabled : Bool
  hasScreen : Bool
  master : Option ℕ
  slaveSwitch : Bool
  button : Bool
  valuator : Option ValuatorClass
deriving DecidableEq, Repr

def PointerDevice.numAxes (pDev : PointerDevice) : ℕ := (pDev.valuator.map (·.axes.length)).getD 0

/-- Where the pointer moves in a round. -/
structure Path where
  screen : ℕ
  root : ℕ
  current_x : ℤ
  current_y : ℤ
  dest_x : ℤ
  dest_y : ℤ
deriving DecidableEq, Repr, Inhabited

/-- The arguments of `GetPointerEvents`, and what is worked out in floating point: the paths of the rounds and, for
each axis, the number of increments crossed and whether downwards. -/
structure PointerCall where
  pDev : PointerDevice
  type : EventType
  buttons : ℕ
  flags : BitVec 32
  mask : Option (List Bool)
  ms : UInt32
  paths : List Path
  crossed : List (ℕ × Bool)
deriving DecidableEq, Repr

/-- The motion of a round. -/
def PointerCall.motion (call : PointerCall) (round : ℕ) : Motion :=
  let path := call.paths.getD round default
  { dev := call.pDev.id, master := call.pDev.master, screen := path.screen, root := path.root,
    current_x := path.current_x, current_y := path.current_y, dest_x := path.dest_x, dest_y := path.dest_y,
    ms := call.ms }

/-- The barriers, the events written so far and the number of rounds. -/
structure Filling where
  barriers : BarrierState
  events : List InternalEvent
  rounds : ℕ
deriving DecidableEq, Repr

variable (blocking : PointerBarrier → ℤ → ℤ → ℤ → ℤ → Option ℚ) (call : PointerCall)

/-- `positionSprite`: only relative motions are constrained by barriers. -/
def positionSprite (absolute : Bool) (st : Filling) : BarrierState × List InternalEvent :=
  if call.pDev.numAxes < 2 ∨ absolute then (st.barriers, [])
  else
    let r := input_constrain_cursor blocking st.barriers (call.motion st.rounds)
    (r.1, r.2.2.map .barrier)

/-- The checks of `fill_pointer_events`. -/
def accepted (type : EventType) (buttons : ℕ) (mask : Option (List Bool)) : Bool :=
  match type with
  | .MotionNotify => call.pDev.valuator.isSome && (mask.getD []).any id
  | .ButtonPress | .ButtonRelease =>
    call.pDev.button && decide (buttons ≠ 0) && !((mask.getD []).any id && call.pDev.valuator.isNone)
  | .other => false

/-- `fill_pointer_events`. -/
def fill_pointer_events (type : EventType) (buttons : ℕ) (flags : BitVec 32) (mask : Option (List Bool)) (st : Filling) :
    Filling :=
  if !accepted call type buttons mask then st else
  let emulated := flags &&& POINTER_EMULATED != 0
  let raw := if flags &&& POINTER_NORAW = 0 then [InternalEvent.raw type buttons emulated] else []
  let (barriers, barrierEvents) := positionSprite blocking call (flags &&& POINTER_ABSOLUTE != 0) st
  let device := if flags &&& POINTER_RAWONLY = 0 then [InternalEvent.device type buttons emulated] else []
  { barriers := barriers, events := st.events ++ (raw ++ barrierEvents ++ device), rounds := st.rounds + 1 }

/-- The turn of the scroll loop for one increment. -/
def emulateTurn (type : EventType) (b : ℕ) (flags : BitVec 32) (start : ℕ) (max_events : ℤ) (st : Filling) : Filling :=
  if ((st.events.length - start : ℕ) : ℤ) + 4 < max_events then
    let st := if type ≠ .ButtonRelease then fill_pointer_events blocking call .ButtonPress b flags none st else st
    if type ≠ .ButtonPress then fill_pointer_events blocking call .ButtonRelease b flags none st else st
  else st

/-- `emulate_scroll_button_events`, for an axis of the device. -/
def emulate_scroll_button_events (type : EventType) (axis : ℕ) (scroll : Option ScrollInfo) (st : Filling) : Filling :=
  match scroll with
  | none => st
  | some ax =>
    if ax.increment = 0 then st else
    let (turns, down) := call.crossed.getD axis (0, true)
    let b := if ax.vertical then 5 else 7
    let b := if down then b else b - 1
    let flags := if type ≠ .ButtonPress ∧ type ≠ .ButtonRelease then POINTER_EMULATED else 0
    (emulateTurn blocking call type b flags st.events.length (GetMaximumEventsNum - st.events.length))^[turns] st

/-- The loop over the axes of the mask. -/
def emulateAxes (type : EventType) : ℕ → List (Bool × Option ScrollInfo) → Filling → Filling
  | _, [], st => st
  | axis, (isset, scroll) :: rest, st =>
    emulateAxes type (axis + 1) rest
      (if isset then emulate_scroll_button_events blocking call type axis scroll st else st)

/-- A bit of a mask is set. -/
def setAxis (mask : List Bool) (axis : ℕ) : List Bool :=
  (mask ++ List.replicate (axis + 1 - mask.length) false).set axis true

/-- A press of a scroll button is a motion of its axis. -/
def scrollAxis (valuator : Option ValuatorClass) (type : EventType) (buttons : ℕ) : Option ℕ :=
  if type = .ButtonPress then
    match valuator with
    | none => none
    | some v =>
      if buttons = 4 ∨ buttons = 5 then v.v_scroll_axis
      else if buttons = 6 ∨ buttons = 7 then v.h_scroll_axis
      else none
  else none

/-- The first round of a call: the event itself, with smooth scrolling. -/
def firstRound (s : BarrierState) : Filling :=
  let events := if call.pDev.master.isSome && call.pDev.slaveSwitch then [InternalEvent.changed] else []
  let st : Filling := { barriers := s, events := events, rounds := 0 }
  match scrollAxis call.pDev.valuator call.type call.buttons with
  | some axis =>
    fill_pointer_events blocking call .MotionNotify 0 (call.flags ||| POINTER_EMULATED)
      (some (setAxis (call.mask.getD []) axis)) st
  | none => fill_pointer_events blocking call call.type call.buttons call.flags (some (call.mask.getD [])) st

/-- The mask that the scroll emulation walks over. -/
def scrollMask : List Bool :=
  match scrollAxis call.pDev.valuator call.type call.buttons with
  | some axis => setAxis (call.mask.getD []) axis
  | none => call.mask.getD []

/-- Events are made for an enabled device on a screen. -/
def PointerCall.served : Bool := !decide (call.buttons ≥ MAX_BUTTONS) && call.pDev.enabled && call.pDev.hasScreen

/-- `GetPointerEvents`; the barriers and the events written. -/
def GetPointerEvents (s : BarrierState) : BarrierState × List InternalEvent :=
  if !call.served then (s, []) else
  let st := firstRound blocking call s
  let axes := (call.pDev.valuator.map (·.axes)).getD []
  let st := emulateAxes blocking call call.type 0 ((scrollMask call).zip axes) st
  (st.barriers, st.events)

end Xenia.Dix.PointerEvents
