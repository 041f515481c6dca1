import Xenia.Dix.Grabs

/-!
# Touch points and their listeners

A touch point has an array of listeners: grabs and event selections that get its events. The
array is allocated once, by `TouchBuildSprite`; `TouchSetupListeners` fills it and
`TouchRemoveListener` closes the gap where it takes one out. For each grab there is a copy of its
own. `TouchOp` is what happens to the touch points of a device, in the order the callers have it.
-/

namespace Xenia.Dix

open Xenia.Lib

abbrev XID := UInt32

/-- The events of XI2 a touch point looks for in masks. -/
inductive XI2Type
  | touchBegin
  | touchOwnership
  | buttonPress
  deriving DecidableEq

inductive TouchListenerType
  | regular
  | grab
  | pointerRegular
  | pointerGrab
  deriving DecidableEq

inductive TouchListenerState
  | awaitingBegin
  | awaitingOwner
  | earlyAccept
  | isOwner
  | hasAccepted
  | hasEnd
  deriving DecidableEq

inductive ResourceType
  | none
  | inputClient
  | window
  | otherClient
  deriving DecidableEq

/-- What of a grab the touch points look at. -/
structure TouchGrab where
  resource : XID
  grabtype : InputLevel
  xi2mask : XI2Type → Bool
  window : ℕ

/-- `grab` is the copy made by `AllocGrab`. -/
structure TouchListener where
  listener : XID
  resourceType : ResourceType
  type : TouchListenerType
  state : TouchListenerState
  level : InputLevel
  window : ℕ
  grab : Option ℕ
  deriving DecidableEq

/-- An entry of a new array. -/
def TouchListener.zero : TouchListener := ⟨0, .none, .regular, .awaitingBegin, .core, 0, none⟩

/-- `spriteTrace` are the windows down to the one the touch is in. `valuators` is whether there
was memory when the touch point was initialised, and `history` whether events are recorded. -/
structure TouchPoint where
  clientId : UInt32
  sourceid : ℕ
  active : Bool
  pendingFinish : Bool
  spriteTrace : List ℕ
  valuators : Bool
  listeners : Option (List TouchListener)
  numListeners : ℕ
  numGrabs : ℤ
  emulatePointer : Bool
  history : Bool
  deriving DecidableEq

/-- The copies of grabs: for which touch point each was made, and those freed. -/
structure Copies where
  made : List ℕ
  freed : List ℕ
  deriving DecidableEq

def Copies.allocGrab (copies : Copies) (index : ℕ) (memory : Bool) : Copies × Option ℕ :=
  if memory then ({ copies with made := copies.made ++ [index] }, some copies.made.length) else (copies, none)

def Copies.freeGrab (copies : Copies) (grab : Option ℕ) : Copies :=
  match grab with
  | none => copies
  | some grab => { copies with freed := copies.freed ++ [grab] }

/-- A touch point that is worked on. -/
structure TouchSlot where
  ti : TouchPoint
  copies : Copies
  deriving DecidableEq

/-! ### Listeners -/

/-- The ID of the listener, its level and so on are in `l`; `memory` is for the copy. -/
def touchAddListener (index : ℕ) (l : TouchListener) (grab : Option TouchGrab) (memory : Bool) (s : TouchSlot) :
    Outcome TouchSlot :=
  let (copies, g) := if grab.isSome then s.copies.allocGrab index memory else (s.copies, none)
  let block := s.ti.listeners.getD []
  if s.ti.numListeners < block.length then
    .ok {
      copies := copies
      ti := { s.ti with
        listeners := some (block.set s.ti.numListeners { l with grab := g })
        numGrabs := if grab.isSome then s.ti.numGrabs + 1 else s.ti.numGrabs
        numListeners := s.ti.numListeners + 1 } }
  else .error .fault

/-- `listeners[j] = listeners[j + 1]`, `count` times from `j = i` on. -/
def shiftDown (block : List TouchListener) (i : ℕ) : ℕ → List TouchListener
  | 0 => block
  | count + 1 => shiftDown (block.set i (block.getD (i + 1) .zero)) (i + 1) count

/-- The loop of `TouchRemoveListener` that looks for the listener. -/
def findListener (block : List TouchListener) (resource : XID) : Option ℕ :=
  block.findIdx? fun l => l.listener = resource

def touchRemoveListener (resource : XID) (s : TouchSlot) : Outcome (TouchSlot × Bool) :=
  let block := s.ti.listeners.getD []
  if block.length < s.ti.numListeners then .error .fault
  else
    match findListener (block.take s.ti.numListeners) resource with
    | none => .ok (s, false)
    | some i =>
      let grab := (block.getD i .zero).grab
      let shifted := shiftDown block i (s.ti.numListeners - 1 - i)
      let last := shifted.getD (s.ti.numListeners - 1) .zero
      .ok ({
        copies := s.copies.freeGrab grab
        ti := { s.ti with
          listeners := some (shifted.set (s.ti.numListeners - 1) { last with listener := 0, state := .awaitingBegin })
          numGrabs := if grab.isSome then s.ti.numGrabs - 1 else s.ti.numGrabs
          numListeners := s.ti.numListeners - 1 } }, true)

/-! ### Which listeners there are -/

/-- The bits `EventIsDeliverable` gives. -/
structure EventMasks where
  core : Bool
  xi1 : Bool
  xi2 : Bool
  dontPropagate : Bool

def EventMasks.any (mask : EventMasks) : Bool := mask.core || mask.xi1 || mask.xi2 || mask.dontPropagate

/-- `mask` is whether the mask of XI for the device has the event. -/
structure InputClient where
  resource : XID
  xi2mask : XI2Type → Bool
  mask : Bool

/-- `mask` is whether the core mask has the event. -/
structure OtherClient where
  resource : XID
  mask : Bool

/-- What is known of a window: the grab `CheckPassiveGrabsOnWindow` finds, with core grabs or
without, what `EventIsDeliverable` says of a touch and of the event of a pointer, and who selects
events. -/
structure TouchWindow where
  id : XID
  passiveGrab : Bool → Option TouchGrab
  touchEvents : EventMasks
  pointerEvents : EventMasks
  inputClients : List InputClient
  eventMask : Bool
  otherClients : List OtherClient

/-- `activeGrab` is a grab of the device that was not a passive one. There may be memory for the
history, and for each copy of a grab. -/
structure SetupEnv where
  master : Bool
  activeGrab : Option TouchGrab
  windows : ℕ → TouchWindow
  history : Bool
  memory : ℕ → Bool

def touchEventHistoryAllocate (env : SetupEnv) (s : TouchSlot) : TouchSlot :=
  { s with ti := { s.ti with history := s.ti.history || env.history } }

section Setup

variable (index : ℕ) (env : SetupEnv)

def touchAddGrabListener (grab : TouchGrab) (s : TouchSlot) : Outcome TouchSlot :=
  let ownership := grab.grabtype = .xi2 ∧ grab.xi2mask .touchOwnership = true
  let type : TouchListenerType := if grab.grabtype = .xi2 ∧ grab.xi2mask .touchBegin = true then .grab else .pointerGrab
  let s := if ownership then s else touchEventHistoryAllocate env s
  touchAddListener index ⟨grab.resource, .none, type, .awaitingBegin, grab.grabtype, grab.window, none⟩ (some grab)
    (env.memory s.ti.numListeners) s

def touchAddPassiveGrabListener (win : ℕ) (s : TouchSlot) : Outcome TouchSlot :=
  match (env.windows win).passiveGrab (env.master && s.ti.emulatePointer) with
  | none => .ok s
  | some grab => touchAddGrabListener index env grab s

/-- The listener for the events that are selected on a window, and whether the history is not
needed. -/
def regularListener (emulatePointer : Bool) (win : ℕ) : Option (TouchListener × Bool) :=
  let w := env.windows win
  let touch := w.touchEvents.any
  if !touch && !emulatePointer then none
  else
    let mask := if touch then w.touchEvents else w.pointerEvents
    let evtype : XI2Type := if touch then .touchBegin else .buttonPress
    let type : TouchListenerType := if touch then .regular else .pointerRegular
    match if mask.xi2 then w.inputClients.find? (fun c => c.xi2mask evtype) else none with
    | some c => some (⟨c.resource, .inputClient, type, .awaitingBegin, .xi2, win, none⟩, c.xi2mask .touchOwnership)
    | none =>
      match if mask.xi1 then w.inputClients.find? (fun c => c.mask) else none with
      | some c => some (⟨c.resource, .inputClient, .pointerRegular, .awaitingBegin, .xi, win, none⟩, false)
      | none =>
        if !mask.core then none
        else if env.master && w.eventMask then
          some (⟨w.id, .window, .pointerRegular, .awaitingBegin, .core, win, none⟩, false)
        else
          (w.otherClients.find? fun c => c.mask).map fun c =>
            (⟨c.resource, .otherClient, type, .awaitingBegin, .core, win, none⟩, false)

def touchAddRegularListener (win : ℕ) (s : TouchSlot) : Outcome (TouchSlot × Bool) :=
  match regularListener env s.ti.emulatePointer win with
  | none => .ok (s, false)
  | some (l, ownership) => do
    let s := if ownership then s else touchEventHistoryAllocate env s
    return (← touchAddListener index l none true s, true)

def touchAddActiveGrabListener (grab : TouchGrab) (s : TouchSlot) : Outcome TouchSlot :=
  if !s.ti.emulatePointer ∧ (grab.grabtype = .core ∨ grab.grabtype = .xi) then .ok s
  else if !s.ti.emulatePointer ∧ grab.grabtype = .xi2 ∧ !grab.xi2mask .touchBegin then .ok s
  else touchAddGrabListener index env grab s

/-- From the root down to the deepest window. -/
def addPassiveGrabs : List ℕ → TouchSlot → Outcome TouchSlot
  | [], s => .ok s
  | win :: rest, s => do addPassiveGrabs rest (← touchAddPassiveGrabListener index env win s)

/-- From the deepest window up, until one of them has a listener. -/
def addRegular : List ℕ → TouchSlot → Outcome TouchSlot
  | [], s => .ok s
  | win :: rest, s => do
    let (s, delivered) ← touchAddRegularListener index env win s
    if delivered then return s else addRegular rest s

def addActiveGrab (s : TouchSlot) : Outcome TouchSlot :=
  match env.activeGrab with
  | none => .ok s
  | some grab => touchAddActiveGrabListener index env grab s

/-- `touchBegin` is whether the event is a TouchBegin. -/
def touchSetupListeners (touchBegin : Bool) (s : TouchSlot) : Outcome TouchSlot := do
  let s ← addActiveGrab index env s
  if !touchBegin then return s
  else addRegular index env s.ti.spriteTrace.reverse (← addPassiveGrabs index env s.ti.spriteTrace s)

end Setup

/-! ### The end of a touch -/

/-- The loop that removes the first listener, whose bound is read anew in every round; there are
at most as many rounds as there were listeners. -/
def removeFirst : ℕ → ℕ → TouchSlot → Outcome TouchSlot
  | 0, _, s => .ok s
  | rounds + 1, i, s =>
    if i < s.ti.numListeners then do
      let (s, _) ← touchRemoveListener (((s.ti.listeners.getD []).getD 0 .zero).listener) s
      removeFirst rounds (i + 1) s
    else .ok s

/-- What `DeactivateGrab` does before to the touch points are steps of their own. -/
def touchEndTouch (s : TouchSlot) : Outcome TouchSlot := do
  let s ← removeFirst s.ti.numListeners 0 s
  -- `valuator_mask_zero`
  if !s.ti.valuators then .error .fault
  else return { s with ti := { s.ti with
    active := false
    pendingFinish := false
    spriteTrace := []
    listeners := none
    numListeners := 0
    numGrabs := 0
    clientId := 0
    history := false } }

def touchFreeTouchPoint (s : TouchSlot) : Outcome TouchSlot := do
  let s ← if s.ti.active then touchEndTouch s else pure s
  let s ← removeFirst s.ti.numListeners 0 s
  return { s with ti := { s.ti with valuators := false, spriteTrace := [], listeners := none, history := false } }

/-! ### The touch points of a device -/

/-- `clientMask` are the bits of an ID that say which client it belongs to. -/
structure TouchDevice where
  touches : List TouchPoint
  copies : Copies
  direct : Bool
  clientMask : XID
  deriving DecidableEq

def newTouchPoint : TouchPoint := ⟨0xffffffff, 0, false, false, [], true, none, 0, 0, false, false⟩

/-- `InitTouchClassDeviceStruct`, where there is memory. -/
def newTouchDevice (maxTouches : ℕ) (direct : Bool) (clientMask : XID) : TouchDevice :=
  ⟨List.replicate maxTouches newTouchPoint, ⟨[], []⟩, direct, clientMask⟩

/-- Whether there is memory to enlarge the array of touch points, and for the new one. -/
structure GrowAnswers where
  array : Bool
  touchPoint : Bool

def touchFindByClientID (dev : TouchDevice) (clientId : UInt32) : Option ℕ :=
  dev.touches.findIdx? fun ti => ti.active ∧ ti.clientId = clientId

/-- The touch point is taken. -/
def beginAt (index : ℕ) (sourceid : ℕ) (touchid : UInt32) (emulatePointer : Bool) (dev : TouchDevice) : TouchDevice :=
  { dev with touches := dev.touches.modify index fun ti =>
      { ti with active := true, clientId := touchid, sourceid := sourceid, emulatePointer := emulatePointer } }

/-- The number of touch points is an `ushort`. -/
def touchBeginTouch (sourceid : ℕ) (touchid : UInt32) (emulatePointer : Bool) (a : GrowAnswers) (dev : TouchDevice) :
    Outcome (TouchDevice × Option ℕ) :=
  if (touchFindByClientID dev touchid).isSome then .ok (dev, none)
  else
    match dev.touches.findIdx? fun ti => !ti.active with
    | some index => .ok (beginAt index sourceid touchid emulatePointer dev, some index)
    | none =>
      if !a.array then .ok (dev, none)
      -- the index of the new one is -1
      else if dev.touches.length = 0xffff then .error .fault
      else
        let dev' := { dev with touches := dev.touches ++ [{ newTouchPoint with valuators := a.touchPoint }] }
        if !a.touchPoint then .ok (dev', none)
        else .ok (beginAt dev.touches.length sourceid touchid emulatePointer dev', some dev.touches.length)

/-- The windows `XYToWindow` finds, the trace of the device's sprite, and whether there is memory
for the trace and for the array of listeners. -/
structure BuildAnswers where
  trace : List ℕ
  sprite : Option (List ℕ)
  copy : Bool
  listeners : Bool

/-- The trace of another touch point, else of the device. -/
def dependentTrace (a : BuildAnswers) (dev : TouchDevice) : Option (List ℕ) :=
  match dev.touches.find? fun ti => !ti.pendingFinish && 0 < ti.spriteTrace.length with
  | some ti => some ti.spriteTrace
  | none => a.sprite

/-- The trace is put into the touch point; `none` if this fails. -/
def buildTrace (a : BuildAnswers) (dev : TouchDevice) (ti : TouchPoint) : TouchPoint × Bool :=
  if dev.direct then ({ ti with spriteTrace := a.trace }, true)
  else
    match dependentTrace a dev with
    | none => (ti, false)
    | some trace =>
      if !a.copy then ({ ti with spriteTrace := [] }, false) else ({ ti with spriteTrace := trace }, true)

def touchBuildSprite (a : BuildAnswers) (dev : TouchDevice) (ti : TouchPoint) : Outcome (TouchPoint × Bool) :=
  -- `spriteTrace[0] = root`
  if dev.direct && !ti.valuators then .error .fault
  else
    let (ti, built) := buildTrace a dev ti
    if !built then .ok (ti, false)
    else if ti.spriteTrace.length = 0 then .ok (ti, false)
    else if !a.listeners then .ok ({ ti with spriteTrace := [], listeners := none }, false)
    else
      .ok ({ ti with
        listeners := some (List.replicate (ti.spriteTrace.length + 2) .zero)
        numListeners := 0 }, true)

/-- Work on one of the touch points. -/
def onTouch (index : ℕ) (f : TouchSlot → Outcome TouchSlot) (dev : TouchDevice) : Outcome TouchDevice :=
  match dev.touches[index]? with
  | none => .ok dev
  | some ti => do
    let s ← f ⟨ti, dev.copies⟩
    return { dev with touches := dev.touches.set index s.ti, copies := s.copies }

/-- `TouchBuildSprite` and `TouchSetupListeners`. For a TouchBegin the touch is left without
listeners where the former fails; for other events what it returns is not looked at. -/
def buildAndSetup (index : ℕ) (touchBegin : Bool) (build : BuildAnswers) (env : SetupEnv) (dev : TouchDevice)
    (s : TouchSlot) : Outcome TouchSlot := do
  let (ti, built) ← touchBuildSprite build dev s.ti
  if touchBegin && !built then return { s with ti := ti }
  else touchSetupListeners index env touchBegin { s with ti := ti }

/-- A touch begins, in `ProcessTouchEvent` and `DeliverTouchEvents`. -/
def processTouchBegin (sourceid : ℕ) (touchid : UInt32) (emulatePointer : Bool) (grow : GrowAnswers)
    (build : BuildAnswers) (env : SetupEnv) (dev : TouchDevice) : Outcome TouchDevice := do
  match ← touchBeginTouch sourceid touchid emulatePointer grow dev with
  | (dev, none) => return dev
  | (dev, some index) => onTouch index (buildAndSetup index true build env dev) dev

/-- An event for a touch there is no record of, while there is an explicit grab of the pointer:
`ProcessTouchEvent` makes a record. -/
def processGrabbedTouch (sourceid : ℕ) (touchid : UInt32) (grow : GrowAnswers) (build : BuildAnswers) (env : SetupEnv)
    (dev : TouchDevice) : Outcome TouchDevice := do
  match ← touchBeginTouch sourceid touchid true grow dev with
  | (dev, none) => return dev
  | (dev, some index) => onTouch index (buildAndSetup index false build env dev) dev

/-- `DeliverTouchEmulatedEvent`: an event selection led to an implicit grab, which takes its
place. -/
def implicitGrab (index : ℕ) (grab : TouchGrab) (memory : Bool) (s : TouchSlot) : Outcome TouchSlot :=
  let block := s.ti.listeners.getD []
  let last := block.getD (s.ti.numListeners - 1) .zero
  if s.ti.numListeners = 0 ∨ last.type ≠ .pointerRegular then .ok s
  else if !memory then .error .fault
  else
    let (copies, g) := s.copies.allocGrab index memory
    let l := { last with listener := grab.resource, grab := g, type :=
      if grab.grabtype ≠ .xi2 ∨ !grab.xi2mask .touchBegin then .pointerGrab else .grab }
    .ok { copies := copies, ti := { s.ti with listeners := some (block.set (s.ti.numListeners - 1) l) } }

/-- `UpdateTouchesForGrab`, for one touch point. -/
def updateTouchForGrab (index : ℕ) (clientMask : XID) (grab : TouchGrab) (memory : Bool) (s : TouchSlot) :
    Outcome TouchSlot :=
  if !s.ti.active then .ok s
  else
    match s.ti.listeners with
    | none => .error .fault
    | some block =>
      let first := block.getD 0 .zero
      if first.listener &&& clientMask ≠ grab.resource then .ok s
      else
        let (copies, g) := (s.copies.freeGrab first.grab).allocGrab index memory
        let l := { first with
          type := if grab.grabtype = .xi2 ∧ grab.xi2mask .touchBegin = true then .grab else .pointerGrab
          listener := grab.resource
          level := grab.grabtype
          window := grab.window
          state := .isOwner
          grab := g }
        .ok { copies := copies, ti := { s.ti with listeners := some (block.set 0 l) } }

/-- The loop of `UpdateTouchesForGrab`. -/
def updateTouchesForGrab (grab : TouchGrab) (memory : ℕ → Bool) : List ℕ → TouchDevice → Outcome TouchDevice
  | [], dev => .ok dev
  | index :: rest, dev => do
    updateTouchesForGrab grab memory rest
      (← onTouch index (updateTouchForGrab index dev.clientMask grab (memory index)) dev)

/-- Every touch point is freed. -/
def freeTouchPoints : List ℕ → TouchDevice → Outcome TouchDevice
  | [], dev => .ok dev
  | index :: rest, dev => do freeTouchPoints rest (← onTouch index touchFreeTouchPoint dev)

inductive TouchOp
  | touchBegin (sourceid : ℕ) (touchid : UInt32) (emulatePointer : Bool) (grow : GrowAnswers) (build : BuildAnswers)
      (env : SetupEnv)
  | grabbedTouch (sourceid : ℕ) (touchid : UInt32) (grow : GrowAnswers) (build : BuildAnswers) (env : SetupEnv)
  | removeListener (index : ℕ) (resource : XID)
  | endTouch (index : ℕ)
  | implicitGrab (index : ℕ) (grab : TouchGrab) (memory : Bool)
  | explicitGrab (grab : TouchGrab) (memory : ℕ → Bool)
  | freeTouchPoints

def touchStep (run : Outcome TouchDevice) (op : TouchOp) : Outcome TouchDevice := do
  let dev ← run
  match op with
  | .touchBegin sourceid touchid emulatePointer grow build env =>
    processTouchBegin sourceid touchid emulatePointer grow build env dev
  | .grabbedTouch sourceid touchid grow build env => processGrabbedTouch sourceid touchid grow build env dev
  | .removeListener index resource => onTouch index (fun s => return (← touchRemoveListener resource s).1) dev
  | .endTouch index => onTouch index touchEndTouch dev
  | .implicitGrab index grab memory => onTouch index (implicitGrab index grab memory) dev
  | .explicitGrab grab memory => updateTouchesForGrab grab memory (List.range dev.touches.length) dev
  -- the class is freed with them
  | .freeTouchPoints => return { ← freeTouchPoints (List.range dev.touches.length) dev with touches := [] }

end Xenia.Dix
