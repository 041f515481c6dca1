import Xenia.Lib.Outcome
import Mathlib.Data.List.FinRange

/-!
# Core enter and leave events

For every device the server keeps the window its pointer is in. When a pointer moves from one
window to another, core clients get EnterNotify and LeaveNotify events for the windows on the
way, except where other pointers make them wrong. `doEnterLeaveEvents` gives the events that are
passed to `CoreEnterLeaveEvent`, in order.
-/

namespace Xenia.Dix

open Xenia.Lib

/-! ### Windows -/

/-- A window, as the way to it from the root window of a screen. -/
inductive TreeWindow
  | root (screen : ℕ)
  | child (parent : TreeWindow) (n : ℕ)
  deriving DecidableEq

def TreeWindow.parent : TreeWindow → Option TreeWindow
  | .root _ => none
  | .child parent _ => some parent

/-- `a` is the parent of `b`, or its parent, and so on. -/
def windowIsParent (a : TreeWindow) : TreeWindow → Bool
  | .root _ => false
  | .child parent _ => parent = a || windowIsParent a parent

def commonAncestor (a : TreeWindow) : TreeWindow → Option TreeWindow
  | .root _ => none
  | .child parent _ => if windowIsParent parent a then some parent else commonAncestor a parent

/-! ### Events -/

inductive CrossingType
  | enterNotify
  | leaveNotify
  deriving DecidableEq

inductive CrossingDetail
  | ancestor
  | virtual
  | inferior
  | nonlinear
  | nonlinearVirtual
  deriving DecidableEq

inductive CrossingMode
  | normal
  | grab
  | ungrab
  | whileGrabbed
  | passiveGrab
  | passiveUngrab
  deriving DecidableEq

structure CrossingEvent where
  type : CrossingType
  mode : CrossingMode
  detail : CrossingDetail
  window : TreeWindow
  child : Option TreeWindow
  deriving DecidableEq

/-! ### Where the pointers are -/

def MAXDEVICES : ℕ := 256

/-- `grabbed` is whether the device has a grab. -/
structure PointerDevice where
  id : Fin MAXDEVICES
  isPointer : Bool
  isMaster : Bool
  grabbed : Bool

abbrev PointerWindows := Fin MAXDEVICES → Option TreeWindow

def enterWindow (dev : PointerDevice) (win : TreeWindow) (pointers : PointerWindows) : PointerWindows :=
  Function.update pointers dev.id (some win)

def leaveWindow (dev : PointerDevice) (pointers : PointerWindows) : PointerWindows :=
  Function.update pointers dev.id none

section Events

variable (pointers : PointerWindows) (dev : PointerDevice) (mode : CrossingMode)

/-- `win` may be a null pointer. -/
def hasPointer (win : Option TreeWindow) : Bool :=
  if dev.grabbed then false else (List.finRange MAXDEVICES).any fun i => pointers i = win

def firstPointerChild (win : TreeWindow) : Option TreeWindow :=
  (List.finRange MAXDEVICES).findSome? fun i => (pointers i).filter (windowIsParent win)

/-- There is no pointer in the window or below. -/
def noPointer (win : TreeWindow) : Bool :=
  !hasPointer pointers dev (some win) && (firstPointerChild pointers win).isNone

/-- From below `ancestor` down to the parent of the window. -/
def coreEnterNotifies (detail : CrossingDetail) (ancestor : Option TreeWindow) :
    TreeWindow → Outcome (List CrossingEvent)
  | .root _ => if ancestor = none then .ok [] else .error .fault
  | .child parent n =>
    if ancestor = some parent then .ok []
    else do
      let events ← coreEnterNotifies detail ancestor parent
      if noPointer pointers dev parent then
        return events ++ [⟨.enterNotify, mode, detail, parent, some (.child parent n)⟩]
      else return events

/-- The loop of `CoreLeaveNotifies`. -/
def leaveNotifiesLoop (detail : CrossingDetail) (ancestor : Option TreeWindow) :
    TreeWindow → Outcome (List CrossingEvent)
  | .root _ =>
    if ancestor = none then .ok []
    -- a null window is that of any device whose pointer is nowhere
    else if hasPointer pointers dev none then .ok []
    else .error .fault
  | .child parent n =>
    if ancestor = some parent then .ok []
    else if !noPointer pointers dev parent then .ok []
    else do
      let events ← leaveNotifiesLoop detail ancestor parent
      return ⟨.leaveNotify, mode, detail, parent, some (.child parent n)⟩ :: events

def coreLeaveNotifies (detail : CrossingDetail) (child : TreeWindow) (ancestor : Option TreeWindow) :
    Outcome (List CrossingEvent) :=
  if ancestor = some child then .ok [] else leaveNotifiesLoop pointers dev mode detail ancestor child

/-- An event for a window itself: none if there is another pointer in it, and with detail Inferior
if there is one below. -/
def crossingEvent (type : CrossingType) (detail : CrossingDetail) (win : TreeWindow) : List CrossingEvent :=
  if hasPointer pointers dev (some win) then []
  else if (firstPointerChild pointers win).isSome then [⟨type, mode, .inferior, win, none⟩]
  else [⟨type, mode, detail, win, none⟩]

/-- The event is Inferior in any case. -/
def inferiorEvent (type : CrossingType) (win : TreeWindow) : List CrossingEvent :=
  if hasPointer pointers dev (some win) then [] else [⟨type, mode, .inferior, win, none⟩]

def coreEnterLeaveNonLinear (A B : TreeWindow) : Outcome (List CrossingEvent) := do
  let X := commonAncestor A B
  let leave ← coreLeaveNotifies pointers dev mode .nonlinearVirtual A X
  let enter ← coreEnterNotifies pointers dev mode .nonlinearVirtual X B
  return crossingEvent pointers dev mode .leaveNotify .nonlinear A ++ leave ++ enter ++
    crossingEvent pointers dev mode .enterNotify .nonlinear B

def coreEnterLeaveToAncestor (A B : TreeWindow) : Outcome (List CrossingEvent) := do
  let leave ← coreLeaveNotifies pointers dev mode .virtual A (some B)
  return crossingEvent pointers dev mode .leaveNotify .ancestor A ++ leave ++
    inferiorEvent pointers dev mode .enterNotify B

def coreEnterLeaveToDescendant (A B : TreeWindow) : Outcome (List CrossingEvent) := do
  let enter ← coreEnterNotifies pointers dev mode .virtual (some A) B
  return inferiorEvent pointers dev mode .leaveNotify A ++ enter ++
    crossingEvent pointers dev mode .enterNotify .ancestor B

/-- The three cases of `CoreEnterLeaveEvents`. -/
def enterLeaveCases (fromWin toWin : TreeWindow) : Outcome (List CrossingEvent) :=
  if windowIsParent fromWin toWin then coreEnterLeaveToDescendant pointers dev mode fromWin toWin
  else if windowIsParent toWin fromWin then coreEnterLeaveToAncestor pointers dev mode fromWin toWin
  else coreEnterLeaveNonLinear pointers dev mode fromWin toWin

def coreEnterLeaveEvents (fromWin toWin : TreeWindow) : Outcome (PointerWindows × List CrossingEvent) :=
  if !dev.isMaster then .ok (pointers, [])
  else do
    let events ← enterLeaveCases (leaveWindow dev pointers) dev mode fromWin toWin
    return (enterWindow dev toWin (leaveWindow dev pointers), events)

/-- The core part of `DoEnterLeaveEvents`. -/
def doEnterLeaveEvents (fromWin toWin : TreeWindow) : Outcome (PointerWindows × List CrossingEvent) :=
  if !dev.isPointer then .ok (pointers, [])
  else if fromWin = toWin then .ok (pointers, [])
  else if mode ≠ .passiveGrab ∧ mode ≠ .passiveUngrab then coreEnterLeaveEvents pointers dev mode fromWin toWin
  else .ok (pointers, [])

end Events

/-! ### Runs -/

structure PointerMove where
  dev : PointerDevice
  mode : CrossingMode
  fromWin : TreeWindow
  toWin : TreeWindow

/-- The pointers, and the events so far. -/
structure CrossingState where
  pointers : PointerWindows
  events : List CrossingEvent

def moveStep (run : Outcome CrossingState) (m : PointerMove) : Outcome CrossingState := do
  let s ← run
  let (pointers, events) ← doEnterLeaveEvents s.pointers m.dev m.mode m.fromWin m.toWin
  return ⟨pointers, s.events ++ events⟩

end Xenia.Dix
