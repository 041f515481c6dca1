import Xenia.Lib.Run
import Mathlib.Tactic

/-!
# Pointer barriers

A barrier has a record for each master pointer, with the id of the running episode of events
(`barrier_event_id`), the id for which the pointer was last released and two flags.
`input_constrain_cursor` clamps a motion to the barriers in its way and makes the hit and leave events;
requests release the pointer, and barriers and master pointers come and go.

Which barriers are in the way, and how far, is worked out in floating point in the source: it
is the parameter `blocking` here (`barrier_is_blocking`, with no answer where the distance is
not a number). Each record carries a number of its own (`serial`), under which `log` keeps what
happens to the pair: its events, the contacts with which the pointer passes and the release requests that take effect.
-/

namespace Xenia.Xi.Barriers

open Xenia.Lib

/-! ## Data -/

structure PointerBarrier where
  x1 : ℤ
  x2 : ℤ
  y1 : ℤ
  y2 : ℤ
  directions : BitVec 32
deriving DecidableEq, Repr

/-- A barrier's record of a master pointer. -/
structure PointerBarrierDevice where
  serial : ℕ
  deviceid : ℕ
  last_timestamp : UInt32
  barrier_event_id : Int32
  release_event_id : Int32
  hit : Bool
  seen : Bool
deriving DecidableEq, Repr

structure PointerBarrierClient where
  id : ℕ
  pScreen : ℕ
  window : ℕ
  barrier : PointerBarrier
  device_ids : List ℕ
  per_device : List PointerBarrierDevice
deriving DecidableEq, Repr

inductive BarrierEventType
  | ET_BarrierHit
  | ET_BarrierLeave
deriving DecidableEq, Repr

/-- `BarrierEvent`, less the root coordinates, which are filled in later. -/
structure BarrierEvent where
  type : BarrierEventType
  time : UInt32
  deviceid : ℕ
  sourceid : ℕ
  barrierid : ℕ
  window : ℕ
  root : ℕ
  dx : ℤ
  dy : ℤ
  dt : Int16
  event_id : Int32
  flags : UInt32
deriving DecidableEq, Repr

def XIBarrierPointerReleased : UInt32 := 1

/-- What happens to a barrier and a pointer. -/
inductive Happening
  | event (ev : BarrierEvent)
  | pass (event_id : Int32)
  | release (event_id : Int32)
deriving DecidableEq, Repr

inductive DeviceKind
  | masterPointer
  | masterKeyboard
  | slave
deriving DecidableEq, Repr

structure BarrierState where
  devices : List (ℕ × DeviceKind)
  barriers : List PointerBarrierClient
  nextSerial : ℕ
  log : List (ℕ × Happening)
deriving DecidableEq, Repr

/-- `inputInfo.devices`, those that are master pointers. -/
def BarrierState.masters (s : BarrierState) : List ℕ :=
  (s.devices.filter fun d => d.2 == .masterPointer).map (·.1)

/-! ## Geometry -/

def BarrierPositiveX : BitVec 32 := 1
def BarrierPositiveY : BitVec 32 := 2
def BarrierNegativeX : BitVec 32 := 4
def BarrierNegativeY : BitVec 32 := 8

def barrier_is_horizontal (barrier : PointerBarrier) : Bool := barrier.y1 == barrier.y2

def barrier_is_vertical (barrier : PointerBarrier) : Bool := barrier.x1 == barrier.x2

def barrier_get_direction (x1 y1 x2 y2 : ℤ) : BitVec 32 :=
  (if x2 > x1 then BarrierPositiveX else 0) ||| (if x2 < x1 then BarrierNegativeX else 0) |||
    (if y2 > y1 then BarrierPositiveY else 0) ||| (if y2 < y1 then BarrierNegativeY else 0)

def barrier_is_blocking_direction (barrier : PointerBarrier) (direction : BitVec 32) : Bool :=
  barrier.directions &&& direction != direction

def HIT_EDGE_EXTENTS : ℤ := 2

def barrier_inside_hit_box (barrier : PointerBarrier) (x y : ℤ) : Bool :=
  let dir := ~~~barrier.directions
  let x1 := if barrier_is_vertical barrier && dir &&& BarrierPositiveX != 0 then barrier.x1 - HIT_EDGE_EXTENTS else barrier.x1
  let x2 := if barrier_is_vertical barrier && dir &&& BarrierNegativeX != 0 then barrier.x2 + HIT_EDGE_EXTENTS else barrier.x2
  let y1 := if barrier_is_horizontal barrier && dir &&& BarrierPositiveY != 0 then barrier.y1 - HIT_EDGE_EXTENTS else barrier.y1
  let y2 := if barrier_is_horizontal barrier && dir &&& BarrierNegativeY != 0 then barrier.y2 + HIT_EDGE_EXTENTS else barrier.y2
  decide (x ≥ x1) && decide (x ≤ x2) && decide (y ≥ y1) && decide (y ≤ y2)

def barrier_clamp_to_barrier (barrier : PointerBarrier) (dir : BitVec 32) (x y : ℤ) : ℤ × ℤ :=
  let x :=
    if barrier_is_vertical barrier then
      let x := if (dir &&& BarrierNegativeX) &&& ~~~barrier.directions != 0 then barrier.x1 else x
      if (dir &&& BarrierPositiveX) &&& ~~~barrier.directions != 0 then barrier.x1 - 1 else x
    else x
  let y :=
    if barrier_is_horizontal barrier then
      let y := if (dir &&& BarrierNegativeY) &&& ~~~barrier.directions != 0 then barrier.y1 else y
      if (dir &&& BarrierPositiveY) &&& ~~~barrier.directions != 0 then barrier.y1 - 1 else y
    else y
  (x, y)

/-! ## Records -/

def GetBarrierDevice (c : PointerBarrierClient) (deviceid : ℕ) : Option PointerBarrierDevice :=
  c.per_device.find? fun p => p.deviceid == deviceid

/-- The record written back. -/
def PointerBarrierDevice.over (pbd p : PointerBarrierDevice) : PointerBarrierDevice :=
  if p.serial = pbd.serial then pbd else p

def PointerBarrierClient.put (c : PointerBarrierClient) (pbd : PointerBarrierDevice) : PointerBarrierClient :=
  { c with per_device := c.per_device.map pbd.over }

def XIAllDevices : ℕ := 0
def XIAllMasterDevices : ℕ := 1

/-- `barrier_blocks_device`, for a master pointer. -/
def barrier_blocks_device (client : PointerBarrierClient) (master_id : ℕ) : Bool :=
  client.device_ids.isEmpty ||
    client.device_ids.any fun device_id =>
      device_id == XIAllDevices || device_id == XIAllMasterDevices || device_id == master_id

/-! ## A motion -/

/-- A motion of a device on a screen. `master` is the master pointer it is attached to, none for a floating device. -/
structure Motion where
  dev : ℕ
  master : Option ℕ
  screen : ℕ
  root : ℕ
  current_x : ℤ
  current_y : ℤ
  dest_x : ℤ
  dest_y : ℤ
  ms : UInt32
deriving DecidableEq, Repr

/-- The variables of `input_constrain_cursor`, and what it has changed. -/
structure Moving where
  barriers : List PointerBarrierClient
  log : List (ℕ × Happening)
  barrier_events : List BarrierEvent
  current_x : ℤ
  current_y : ℤ
  x : ℤ
  y : ℤ
  dir : BitVec 32
deriving DecidableEq, Repr

variable (blocking : PointerBarrier → ℤ → ℤ → ℤ → ℤ → Option ℚ)

def INT_MAX : ℚ := 2147483647

/-- The turn of `barrier_find_nearest` for one barrier; the nearest one so far, with the distance. -/
def nearer (dev : ℕ) (dir : BitVec 32) (x1 y1 x2 y2 : ℤ)
    (nearest : Option (PointerBarrierClient × PointerBarrierDevice) × ℚ) (c : PointerBarrierClient) :
    Option (PointerBarrierClient × PointerBarrierDevice) × ℚ :=
  match GetBarrierDevice c dev with
  | none => nearest
  | some pbd =>
    if pbd.seen then nearest
    else if !barrier_is_blocking_direction c.barrier dir then nearest
    else if !barrier_blocks_device c dev then nearest
    else
      match blocking c.barrier x1 y1 x2 y2 with
      | none => nearest
      | some distance => if nearest.2 > distance then (some (c, pbd), distance) else nearest

/-- `barrier_find_nearest`, with the barrier's record of the device. -/
def barrier_find_nearest (barriers : List PointerBarrierClient) (dev : ℕ) (dir : BitVec 32) (x1 y1 x2 y2 : ℤ) :
    Option (PointerBarrierClient × PointerBarrierDevice) :=
  (barriers.foldl (nearer blocking dev dir x1 y1 x2 y2) (none, INT_MAX)).1

/-- The barriers of a screen. -/
def onScreen (screen : ℕ) (barriers : List PointerBarrierClient) : List PointerBarrierClient :=
  barriers.filter fun c => c.pScreen == screen

/-- An event of the motion, for a barrier and a record of it. -/
def Motion.event (mv : Motion) (c : PointerBarrierClient) (pbd : PointerBarrierDevice) (type : BarrierEventType)
    (flags : UInt32) (dt : Int16) : BarrierEvent :=
  { type := type, time := mv.ms, deviceid := mv.dev, sourceid := mv.dev, barrierid := c.id, window := c.window,
    root := mv.root, dx := mv.dest_x - mv.current_x, dy := mv.dest_y - mv.current_y, dt := dt,
    event_id := pbd.barrier_event_id, flags := flags }

/-- The time since the last event of the pair. -/
def since (ms : UInt32) (pbd : PointerBarrierDevice) : Int16 := (ms - pbd.last_timestamp).toUInt16.toInt16

/-- A turn of the loop that clamps the motion, when it is not the last. -/
def hitTurn (mv : Motion) (master : ℕ) (m : Moving) : Option Moving :=
  if m.dir = 0 then none else
  match barrier_find_nearest blocking (onScreen mv.screen m.barriers) master m.dir m.current_x m.current_y m.x m.y with
  | none => none
  | some (c, pbd) =>
    let new_sequence := !pbd.hit
    if pbd.barrier_event_id = pbd.release_event_id then
      some { m with
        barriers := m.barriers.map (·.put { pbd with seen := true, hit := true })
        log := m.log ++ [(pbd.serial, .pass pbd.barrier_event_id)] }
    else
      let (x, y) := barrier_clamp_to_barrier c.barrier m.dir m.x m.y
      let ev := mv.event c pbd .ET_BarrierHit 0 (if new_sequence then 0 else since mv.ms pbd)
      let vertical := barrier_is_vertical c.barrier
      let horizontal := !vertical && barrier_is_horizontal c.barrier
      some
        { barriers := m.barriers.map (·.put { pbd with seen := true, hit := true, last_timestamp := mv.ms })
          log := m.log ++ [(pbd.serial, .event ev)]
          barrier_events := m.barrier_events ++ [ev]
          current_x := if vertical then x else m.current_x
          current_y := if horizontal then y else m.current_y
          x := x
          y := y
          dir :=
            if vertical then m.dir &&& ~~~(BarrierNegativeX ||| BarrierPositiveX)
            else if horizontal then m.dir &&& ~~~(BarrierNegativeY ||| BarrierPositiveY)
            else m.dir }

/-- The loop that clamps the motion; each turn marks one more barrier as seen. -/
def hitLoop (mv : Motion) (master : ℕ) : ℕ → Moving → Moving
  | 0, m => m
  | turns + 1, m =>
    match hitTurn blocking mv master m with
    | none => m
    | some m' => hitLoop mv master turns m'

/-- The turn of the second loop for one barrier: the pointer has left it. -/
def leaveTurn (mv : Motion) (master : ℕ) (m : Moving) (c : PointerBarrierClient) : Moving :=
  match GetBarrierDevice c master with
  | none => m
  | some pbd =>
    if !pbd.hit || barrier_inside_hit_box c.barrier m.x m.y then
      { m with barriers := m.barriers.map (·.put { pbd with seen := false }) }
    else
      let flags := if pbd.barrier_event_id = pbd.release_event_id then XIBarrierPointerReleased else 0
      let ev := mv.event c pbd .ET_BarrierLeave flags (since mv.ms pbd)
      { m with
        barriers := m.barriers.map (·.put { pbd with
          seen := false, hit := false, last_timestamp := mv.ms, barrier_event_id := pbd.barrier_event_id + 1 })
        log := m.log ++ [(pbd.serial, .event ev)]
        barrier_events := m.barrier_events ++ [ev] }

/-- The motion before it has met a barrier. -/
def Motion.start (mv : Motion) (s : BarrierState) : Moving :=
  { barriers := s.barriers, log := s.log, barrier_events := [], current_x := mv.current_x, current_y := mv.current_y,
    x := mv.dest_x, y := mv.dest_y,
    dir := barrier_get_direction mv.current_x mv.current_y mv.dest_x mv.dest_y }

/-- The state, the motion's end and its events. -/
def input_constrain_cursor (s : BarrierState) (mv : Motion) : BarrierState × (ℤ × ℤ) × List BarrierEvent :=
  match mv.master, onScreen mv.screen s.barriers with
  | none, _ => (s, (mv.dest_x, mv.dest_y), [])
  | _, [] => (s, (mv.dest_x, mv.dest_y), [])
  | some master, _ :: _ =>
    let hits := hitLoop blocking mv master (s.barriers.length + 1) (mv.start s)
    let m := (onScreen mv.screen hits.barriers).foldl (leaveTurn mv master) hits
    ({ s with barriers := m.barriers, log := m.log }, (m.x, m.y), m.barrier_events)

/-! ## Requests -/

inductive BarrierError
  | BadAlloc
  | BadValue
  | BadAccess
  | BadDevice (errorValue : ℕ)
  | BadBarrier (errorValue : ℕ)
deriving DecidableEq, Repr

/-- `xXIBarrierReleasePointerInfo`. -/
structure ReleaseInfo where
  deviceid : ℕ
  barrier : ℕ
  eventid : UInt32
deriving DecidableEq, Repr

/-- `dixClientIdForXID`: the bits above the 21 of a client's own numbers. -/
def dixClientIdForXID (xid : ℕ) : ℕ := xid / 2 ^ 21

/-- `ProcXIBarrierReleasePointer`, one entry after the other up to the first with an error. -/
def ProcXIBarrierReleasePointer (client : ℕ) : BarrierState → List ReleaseInfo → BarrierState × Option BarrierError
  | s, [] => (s, none)
  | s, info :: rest =>
    if !s.devices.any (·.1 == info.deviceid) then (s, some (.BadDevice info.deviceid)) else
    match s.barriers.find? (·.id == info.barrier) with
    | none => (s, some (.BadBarrier info.barrier))
    | some barrier =>
      if dixClientIdForXID info.barrier != client then (s, some .BadAccess) else
      match GetBarrierDevice barrier info.deviceid with
      | none => (s, some (.BadDevice info.deviceid))
      | some pbd =>
        if pbd.barrier_event_id.toUInt32 = info.eventid then
          ProcXIBarrierReleasePointer client
            { s with
              barriers := s.barriers.map (·.put { pbd with release_event_id := info.eventid.toInt32 })
              log := s.log ++ [(pbd.serial, .release info.eventid.toInt32)] } rest
        else ProcXIBarrierReleasePointer client s rest

/-- `xXFixesCreatePointerBarrierReq`, with the window's screen and the allocators' answers. -/
structure CreateRequest where
  barrier : ℕ
  window : ℕ
  screen : ℕ
  x1 : ℤ
  y1 : ℤ
  x2 : ℤ
  y2 : ℤ
  directions : BitVec 32
  devices : List ℕ
  calloc : Bool
  pbdCallocs : List Bool
  addResource : Bool
deriving DecidableEq, Repr

def sort_min_max (a b : ℤ) : ℤ × ℤ := if a < 0 ∨ b < 0 then (a, b) else (min a b, max a b)

def AllocBarrierDevice (serial deviceid : ℕ) : PointerBarrierDevice :=
  { serial := serial, deviceid := deviceid, last_timestamp := 0, barrier_event_id := 1, release_event_id := 0,
    hit := false, seen := false }

/-- One record per master pointer, the last one first; none when an allocation fails. -/
def allocDevices (serial : ℕ) (answers : List Bool) : List ℕ → List PointerBarrierDevice → Option (List PointerBarrierDevice)
  | [], per_device => some per_device
  | deviceid :: masters, per_device =>
    if answers.headD true then
      allocDevices (serial + 1) answers.tail masters (AllocBarrierDevice serial deviceid :: per_device)
    else none

def CreateRequest.toBarrier (stuff : CreateRequest) : PointerBarrier :=
  let (x1, x2) := sort_min_max stuff.x1 stuff.x2
  let (y1, y2) := sort_min_max stuff.y1 stuff.y2
  let directions := stuff.directions &&& 0x0f
  let directions := if y1 = y2 then directions &&& ~~~(BarrierPositiveX ||| BarrierNegativeX) else directions
  let directions := if x1 = x2 then directions &&& ~~~(BarrierPositiveY ||| BarrierNegativeY) else directions
  { x1 := x1, x2 := x2, y1 := y1, y2 := y2, directions := directions }

/-- The first device of the request that is unknown or not a master. -/
def CreateRequest.badDevice (stuff : CreateRequest) (s : BarrierState) : Option ℕ :=
  stuff.devices.find? fun device_id => !s.devices.any fun d => d.1 == device_id && d.2 != .slave

def CreatePointerBarrierClient (s : BarrierState) (stuff : CreateRequest) : Except BarrierError PointerBarrierClient :=
  if !stuff.calloc then .error .BadAlloc else
  match stuff.badDevice s with
  | some device_id => .error (.BadDevice device_id)
  | none =>
    match allocDevices s.nextSerial stuff.pbdCallocs s.masters [] with
    | none => .error .BadAlloc
    | some per_device =>
      .ok { id := stuff.barrier, pScreen := stuff.screen, window := stuff.window, barrier := stuff.toBarrier,
            device_ids := stuff.devices, per_device := per_device }

/-- A horizontal or a vertical line, of some length, and finite on the axis it is at right angles to. -/
def CreateRequest.isLine (stuff : CreateRequest) : Bool :=
  let horizontal := stuff.y1 == stuff.y2
  let vertical := stuff.x1 == stuff.x2
  (horizontal || vertical) && !(horizontal && vertical) &&
    !(horizontal && (decide (stuff.y1 < 0) || decide (stuff.y2 < 0))) &&
    !(vertical && (decide (stuff.x1 < 0) || decide (stuff.x2 < 0)))

/-- `XICreatePointerBarrier`. A barrier that cannot be added to the resources is freed again, which has no
effect: no pointer has hit it. -/
def XICreatePointerBarrier (s : BarrierState) (stuff : CreateRequest) : BarrierState × Option BarrierError :=
  if !stuff.isLine then (s, some .BadValue) else
  match CreatePointerBarrierClient s stuff with
  | .error err => (s, some err)
  | .ok ret =>
    let s := { s with nextSerial := s.nextSerial + s.masters.length }
    if stuff.addResource then ({ s with barriers := ret :: s.barriers }, none) else (s, some .BadAlloc)

/-! ## Barriers and masters go -/

/-- The leave event for a pair that is torn apart. -/
def tornEvent (ms : UInt32) (root : ℕ) (c : PointerBarrierClient) (pbd : PointerBarrierDevice) : BarrierEvent :=
  { type := .ET_BarrierLeave, time := ms, deviceid := pbd.deviceid, sourceid := 0, barrierid := c.id, window := c.window,
    root := root, dx := 0, dy := 0, dt := since ms pbd, event_id := pbd.barrier_event_id,
    flags := XIBarrierPointerReleased }

/-- What is put in the event queue for a master pointer whose record goes. -/
def torn (ms : UInt32) (root : ℕ) (c : PointerBarrierClient) (deviceid : ℕ) : Option (ℕ × Happening) :=
  match GetBarrierDevice c deviceid with
  | none => none
  | some pbd => if pbd.hit then some (pbd.serial, .event (tornEvent ms root c pbd)) else none

/-- `BarrierFreeBarrier`, for the barrier with the id. -/
def BarrierFreeBarrier (s : BarrierState) (id : ℕ) (root : ℕ) (ms : UInt32) : BarrierState :=
  match s.barriers.find? (·.id == id) with
  | none => s
  | some c =>
    { s with
      barriers := s.barriers.eraseP (·.id == id)
      log := s.log ++ s.masters.filterMap (torn ms root c) }

/-- `remove_master_func`. -/
def remove_master_func (deviceid : ℕ) (c : PointerBarrierClient) : PointerBarrierClient :=
  { c with per_device := c.per_device.eraseP (·.deviceid == deviceid) }

/-- The removal of a master pointer: its records go from all barriers, then the device. -/
def removeMaster (s : BarrierState) (deviceid : ℕ) (root : ℕ) (ms : UInt32) : BarrierState :=
  if (deviceid, DeviceKind.masterPointer) ∈ s.devices then
    { s with
      barriers := s.barriers.map (remove_master_func deviceid)
      log := s.log ++ s.barriers.filterMap fun c => torn ms root c deviceid
      devices := s.devices.eraseP (·.1 == deviceid) }
  else s

/-- `add_master_func` for the barriers in turn; a record that cannot be allocated is left out. -/
def add_master_func (deviceid : ℕ) :
    ℕ → List Bool → List PointerBarrierClient → List PointerBarrierClient
  | _, _, [] => []
  | serial, answers, c :: rest =>
    let c := if answers.headD true then { c with per_device := AllocBarrierDevice serial deviceid :: c.per_device } else c
    c :: add_master_func deviceid (serial + 1) answers.tail rest

/-- A device is added; barriers get a record for a master pointer. -/
def addDevice (s : BarrierState) (deviceid : ℕ) (kind : DeviceKind) (answers : List Bool) : BarrierState :=
  if s.devices.any (·.1 == deviceid) then s
  else if kind = .masterPointer then
    { s with
      devices := s.devices ++ [(deviceid, kind)]
      barriers := add_master_func deviceid s.nextSerial answers s.barriers
      nextSerial := s.nextSerial + s.barriers.length }
  else { s with devices := s.devices ++ [(deviceid, kind)] }

/-! ## Runs -/

inductive BarrierOp
  | move (mv : Motion)
  | release (client : ℕ) (infos : List ReleaseInfo)
  | create (stuff : CreateRequest)
  | destroy (id : ℕ) (root : ℕ) (ms : UInt32)
  | addDevice (deviceid : ℕ) (kind : DeviceKind) (answers : List Bool)
  | removeMaster (deviceid : ℕ) (root : ℕ) (ms : UInt32)
deriving DecidableEq, Repr

def barrierStep (s : BarrierState) : BarrierOp → BarrierState
  | .move mv => (input_constrain_cursor blocking s mv).1
  | .release client infos => (ProcXIBarrierReleasePointer client s infos).1
  | .create stuff => (XICreatePointerBarrier s stuff).1
  | .destroy id root ms => BarrierFreeBarrier s id root ms
  | .addDevice deviceid kind answers => addDevice s deviceid kind answers
  | .removeMaster deviceid root ms => removeMaster s deviceid root ms

def noBarriers : BarrierState := { devices := [], barriers := [], nextSerial := 0, log := [] }

end Xenia.Xi.Barriers
