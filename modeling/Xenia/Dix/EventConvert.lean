import Xenia.Dix.Swap
import Xenia.Lib.Buffer

/-!
# Converting internal events to wire events

Each converter first counts the bytes that a wire event takes, allocates them, and then fills them through running pointers. A wire event
is the fixed part, a structure, and the bytes after it, the buffer that the pointers run through.

Axis values are of any type `α`: `double_to_fp3232` and the conversion to `int` are arguments, and so are the root coordinates in their
wire form and the state of the device.
-/

namespace Xenia.Dix.EventConvert

open Xenia.Lib

def Success : ℕ := 0
def BadMatch : ℕ := 8
def BadAlloc : ℕ := 11
def BadImplementation : ℕ := 17

def MAX_VALUATORS : ℕ := 36
def MAX_BUTTONS : ℕ := 256
def MORE_EVENTS : CARD8 := 0x80
def GenericEvent : ℕ := 35

def bits_to_bytes (bits : ℕ) : ℕ := (bits + 7) >>> 3
def bytes_to_int32 (bytes : ℕ) : ℕ := (bytes + 3) >>> 2
def pad_to_int32 (bytes : ℕ) : ℕ := (bytes + 3) / 4 * 4

inductive EventType
  | ET_KeyPress
  | ET_KeyRelease
  | ET_ButtonPress
  | ET_ButtonRelease
  | ET_Motion
  | ET_TouchBegin
  | ET_TouchUpdate
  | ET_TouchEnd
  | ET_ProximityIn
  | ET_ProximityOut
  | ET_RawKeyPress
  | ET_RawKeyRelease
  | ET_RawButtonPress
  | ET_RawButtonRelease
  | ET_RawMotion
  | ET_RawTouchBegin
  | ET_RawTouchUpdate
  | ET_RawTouchEnd
deriving DecidableEq, Repr

/-- The types that the converters here are called with; those without an equivalent have 0. -/
def GetXI2Type : EventType → ℕ
  | .ET_KeyPress => 2
  | .ET_KeyRelease => 3
  | .ET_ButtonPress => 4
  | .ET_ButtonRelease => 5
  | .ET_Motion => 6
  | .ET_RawKeyPress => 13
  | .ET_RawKeyRelease => 14
  | .ET_RawButtonPress => 15
  | .ET_RawButtonRelease => 16
  | .ET_RawMotion => 17
  | .ET_TouchBegin => 18
  | .ET_TouchUpdate => 19
  | .ET_TouchEnd => 20
  | .ET_RawTouchBegin => 22
  | .ET_RawTouchUpdate => 23
  | .ET_RawTouchEnd => 24
  | .ET_ProximityIn => 0
  | .ET_ProximityOut => 0

def IsTouchEvent : EventType → Bool
  | .ET_TouchBegin => true
  | .ET_TouchUpdate => true
  | .ET_TouchEnd => true
  | _ => false

structure FP3232 where
  integral : CARD32
  frac : CARD32
deriving DecidableEq, Repr

def FP3232.bytes (value : FP3232) : List Byte := leBytes 4 value.integral ++ leBytes 4 value.frac

/-- The set bits of a byte, one shift at a time. -/
def countByte (x : ℕ) : ℕ := if x = 0 then 0 else x % 2 + countByte (x / 2)

def count_bits (ptr : List Byte) : ℕ := (ptr.map fun x => countByte x.toNat).sum

/-- The masks of an event are `(MAX_BUTTONS + 7) / 8` and `(MAX_VALUATORS + 7) / 8` bytes, and the server sets only the bits of axes. -/
structure DeviceEvent (α : Type) where
  type : EventType
  time : CARD32
  deviceid : ℕ
  sourceid : ℕ
  button : CARD32
  touchid : CARD32
  root_x : CARD32
  root_y : CARD32
  buttons : List Byte
  mask : List Byte
  data : ℕ → α
  mods : CARD32 × CARD32 × CARD32 × CARD32
  group : CARD8 × CARD8 × CARD8 × CARD8
  root : CARD32
  corestate : CARD16
  key_repeat : Bool
  flags : CARD32
  buttons_size : buttons.length = (MAX_BUTTONS + 7) / 8
  mask_size : mask.length = (MAX_VALUATORS + 7) / 8
  axes : ∀ i, MAX_VALUATORS ≤ i → bitIsOn mask i = false

/-! ## Device events -/

def sizeof_xEvent : ℕ := 32
def sizeof_xXIDeviceEvent : ℕ := 80
def sizeof_FP3232 : ℕ := 8

/-- `tail` are the bytes from `&xde[1]` on. -/
structure xXIDeviceEvent where
  type : ℕ
  evtype : ℕ
  time : CARD32
  length : ℕ
  detail : CARD32
  root : CARD32
  buttons_len : ℕ
  valuators_len : ℕ
  deviceid : ℕ
  sourceid : ℕ
  root_x : CARD32
  root_y : CARD32
  flags : CARD32
  mods : CARD32 × CARD32 × CARD32 × CARD32
  group : CARD8 × CARD8 × CARD8 × CARD8
  tail : Buffer

def XIKeyRepeat : CARD32 := 1 <<< 16
def XITouchPendingEnd : CARD32 := 1 <<< 16
def XITouchEmulatingPointer : CARD32 := 1 <<< 17
def TOUCH_PENDING_END : CARD32 := 1 <<< 2
def TOUCH_POINTER_EMULATED : CARD32 := 1 <<< 5

/-- The flags of the wire event. -/
def deviceFlags {α : Type} (ev : DeviceEvent α) : CARD32 :=
  if IsTouchEvent ev.type then
    (if ev.type = .ET_TouchUpdate ∧ ev.flags &&& TOUCH_PENDING_END ≠ 0 then XITouchPendingEnd else 0) |||
      (if ev.flags &&& TOUCH_POINTER_EMULATED ≠ 0 then XITouchEmulatingPointer else 0)
  else ev.flags ||| (if ev.key_repeat then XIKeyRepeat else 0)

/-- The loop over the buttons. -/
def setButtons (buttons : List Byte) (ptr : ℕ) (b : Buffer) : Buffer :=
  (List.range (8 * buttons.length)).foldl (fun b i => if bitIsOn buttons i then b.setBit ptr i else b) b

/-- The loop over the axes: the bit of each axis that is set goes to the mask at `ptr` and its value to where `axisval` points. -/
def setAxes (mask : List Byte) (ptr : ℕ) (value : ℕ → FP3232) (b : Buffer) (axisval : ℕ) : Buffer × ℕ :=
  (List.range MAX_VALUATORS).foldl (fun (s : Buffer × ℕ) i =>
    if bitIsOn mask i then ((s.1.setBit ptr i).store s.2 (value i).bytes, s.2 + sizeof_FP3232) else s) (b, axisval)

def eventToDeviceEvent {α : Type} (double_to_fp3232 : α → FP3232) (alloc : Bool) (ev : DeviceEvent α) : Option xXIDeviceEvent :=
  let btlen := bytes_to_int32 (bits_to_bytes MAX_BUTTONS)
  let vallen := bytes_to_int32 (bits_to_bytes MAX_VALUATORS)
  let len := sizeof_xXIDeviceEvent + btlen * 4 + count_bits ev.mask * 2 * 4 + vallen * 4
  if alloc = false then none
  else
    let buttons := setButtons ev.buttons 0 (.calloc (len - sizeof_xXIDeviceEvent))
    let ptr := btlen * 4
    let axes := setAxes ev.mask ptr (fun i => double_to_fp3232 (ev.data i)) buttons (ptr + vallen * 4)
    some
      { type := GenericEvent
        evtype := GetXI2Type ev.type
        time := ev.time
        length := bytes_to_int32 (len - sizeof_xEvent)
        detail := if IsTouchEvent ev.type then ev.touchid else ev.button
        root := ev.root
        buttons_len := btlen
        valuators_len := vallen
        deviceid := ev.deviceid
        sourceid := ev.sourceid
        root_x := ev.root_x
        root_y := ev.root_y
        flags := deviceFlags ev
        mods := ev.mods
        group := ev.group
        tail := axes.1 }

/-! ## Raw events -/

structure RawDeviceEvent (α : Type) where
  type : EventType
  time : CARD32
  deviceid : ℕ
  sourceid : ℕ
  button : CARD32
  mask : List Byte
  data : ℕ → α
  data_raw : ℕ → α
  flags : CARD32
  mask_size : mask.length = (MAX_VALUATORS + 7) / 8
  axes : ∀ i, MAX_VALUATORS ≤ i → bitIsOn mask i = false

def sizeof_xXIRawEvent : ℕ := 32

structure xXIRawEvent where
  type : ℕ
  evtype : ℕ
  time : CARD32
  length : ℕ
  detail : CARD32
  deviceid : ℕ
  sourceid : ℕ
  valuators_len : ℕ
  flags : CARD32
  tail : Buffer

/-- The loop over the axes of a raw event, with a pointer for the values and one for the raw values. -/
def setRawAxes (mask : List Byte) (ptr : ℕ) (value raw : ℕ → FP3232) (b : Buffer) (axisval axisval_raw : ℕ) : Buffer × ℕ × ℕ :=
  (List.range MAX_VALUATORS).foldl (fun (s : Buffer × ℕ × ℕ) i =>
    if bitIsOn mask i then
      (((s.1.setBit ptr i).store s.2.1 (value i).bytes).store s.2.2 (raw i).bytes, s.2.1 + sizeof_FP3232, s.2.2 + sizeof_FP3232)
    else s) (b, axisval, axisval_raw)

def eventToRawEvent {α : Type} (double_to_fp3232 : α → FP3232) (alloc : Bool) (ev : RawDeviceEvent α) : Option xXIRawEvent :=
  let nvals := count_bits ev.mask
  let vallen := bytes_to_int32 (bits_to_bytes MAX_VALUATORS)
  let len := sizeof_xXIRawEvent + nvals * (sizeof_FP3232 * 2) + vallen * 4
  if alloc = false then none
  else
    let axisval := vallen * 4
    let axes := setRawAxes ev.mask 0 (fun i => double_to_fp3232 (ev.data i)) (fun i => double_to_fp3232 (ev.data_raw i))
      (.calloc (len - sizeof_xXIRawEvent)) axisval (axisval + nvals * sizeof_FP3232)
    some
      { type := GenericEvent
        evtype := GetXI2Type ev.type
        time := ev.time
        length := bytes_to_int32 (len - sizeof_xEvent)
        detail := ev.button
        deviceid := ev.deviceid
        sourceid := ev.sourceid
        valuators_len := vallen
        flags := ev.flags
        tail := axes.1 }

/-! ## Device changed events -/

inductive ScrollType
  | SCROLL_TYPE_NONE
  | SCROLL_TYPE_VERTICAL
  | SCROLL_TYPE_HORIZONTAL
deriving DecidableEq, Repr

structure ScrollInfo (α : Type) where
  type : ScrollType
  increment : α
  dontEmulate : Bool
  preferred : Bool

structure Valuator (α : Type) where
  min : CARD32
  max : CARD32
  value : α
  resolution : CARD32
  mode : CARD8
  name : CARD32
  scroll : ScrollInfo α

/-- `names` and `valuators` are the entries in use. A device has at most the buttons and axes there is room for, and its keycodes are
those of its keymap. -/
structure DeviceChangedEvent (α : Type) where
  time : CARD32
  deviceid : ℕ
  sourceid : CARD16
  deviceChange : Bool
  names : List CARD32
  valuators : List (Valuator α)
  min_keycode : ℕ
  max_keycode : ℕ
  buttons_ok : names.length ≤ MAX_BUTTONS
  valuators_ok : valuators.length ≤ MAX_VALUATORS
  keys_ok : min_keycode ≤ max_keycode ∧ max_keycode ≤ 255

def sizeof_xXIDeviceChangedEvent : ℕ := 32
def sizeof_xXIButtonInfo : ℕ := 8
def sizeof_xXIKeyInfo : ℕ := 8
def sizeof_xXIValuatorInfo : ℕ := 44
def sizeof_xXIScrollInfo : ℕ := 24
def sizeof_Atom : ℕ := 4
def sizeof_CARD32 : ℕ := 4

def XIKeyClass : CARD16 := 0
def XIButtonClass : CARD16 := 1
def XIValuatorClass : CARD16 := 2
def XIScrollClass : CARD16 := 3

structure xXIDeviceChangedEvent where
  type : ℕ
  evtype : ℕ
  time : CARD32
  length : ℕ
  deviceid : ℕ
  sourceid : CARD16
  reason : ℕ
  num_classes : ℕ
  tail : Buffer

/-- A `CARD16` field. -/
def card16 (x : ℕ) : List Byte := leBytes 2 (BitVec.ofNat 16 x)

/-- The part that all classes begin with. -/
def classHeader (type : CARD16) (length : ℕ) (sourceid : CARD16) (last : ℕ) : List Byte :=
  leBytes 2 type ++ card16 length ++ leBytes 2 sourceid ++ card16 last

/-- The number of key codes. -/
def nkeys {α : Type} (dce : DeviceChangedEvent α) : ℕ :=
  if dce.max_keycode > 0 then dce.max_keycode - dce.min_keycode + 1 else 0

/-- Each `append` stores at `ptr` and returns how far the pointer moves, the length it wrote times four. -/
def appendKeyInfo {α : Type} (dce : DeviceChangedEvent α) (ptr : ℕ) (b : Buffer) : Buffer × ℕ :=
  let num_keycodes := (dce.max_keycode - dce.min_keycode + 1) % 2 ^ 16
  let length := (sizeof_xXIKeyInfo / 4 + num_keycodes) % 2 ^ 16
  let b := b.store ptr (classHeader XIKeyClass length dce.sourceid num_keycodes)
  let s := (List.range num_keycodes).foldl (fun (s : Buffer × ℕ) i =>
    (s.1.store s.2 (leBytes 4 (BitVec.ofNat 32 (i + dce.min_keycode))), s.2 + 4)) (b, ptr + sizeof_xXIKeyInfo)
  (s.1, length * 4)

def appendButtonInfo {α : Type} (dce : DeviceChangedEvent α) (ptr : ℕ) (b : Buffer) : Buffer × ℕ :=
  let num_buttons := dce.names.length
  let mask_len := bytes_to_int32 (bits_to_bytes num_buttons)
  let length := (bytes_to_int32 sizeof_xXIButtonInfo + num_buttons + mask_len) % 2 ^ 16
  let b := b.store ptr (classHeader XIButtonClass length dce.sourceid num_buttons)
  let bits := ptr + sizeof_xXIButtonInfo
  let b := b.store bits (List.replicate (mask_len * 4) 0)
  let b := b.store (bits + mask_len * 4) (dce.names.flatMap (leBytes 4))
  (b, length * 4)

def appendValuatorInfo {α : Type} (double_to_fp3232 : α → FP3232) (dce : DeviceChangedEvent α) (axisnumber : ℕ) (v : Valuator α)
    (ptr : ℕ) (b : Buffer) : Buffer × ℕ :=
  let length := sizeof_xXIValuatorInfo / 4
  let b := b.store ptr
    (classHeader XIValuatorClass length dce.sourceid axisnumber ++ leBytes 4 v.name ++ (FP3232.mk v.min 0).bytes ++
      (FP3232.mk v.max 0).bytes ++ (double_to_fp3232 v.value).bytes ++ leBytes 4 v.resolution ++ leBytes 1 v.mode ++ [0, 0, 0])
  (b, length * 4)

def XIScrollFlagNoEmulation : CARD32 := 1 <<< 0
def XIScrollFlagPreferred : CARD32 := 1 <<< 1

def scrollType : ScrollType → ℕ
  | .SCROLL_TYPE_VERTICAL => 1
  | .SCROLL_TYPE_HORIZONTAL => 2
  | .SCROLL_TYPE_NONE => 0

def scrollFlags {α : Type} (s : ScrollInfo α) : CARD32 :=
  (if s.dontEmulate then XIScrollFlagNoEmulation else 0) ||| (if s.preferred then XIScrollFlagPreferred else 0)

def appendScrollInfo {α : Type} (double_to_fp3232 : α → FP3232) (dce : DeviceChangedEvent α) (axisnumber : ℕ) (v : Valuator α)
    (ptr : ℕ) (b : Buffer) : Buffer × ℕ :=
  if v.scroll.type = .SCROLL_TYPE_NONE then (b, 0)
  else
    let length := sizeof_xXIScrollInfo / 4
    let b := b.store ptr
      (classHeader XIScrollClass length dce.sourceid axisnumber ++ card16 (scrollType v.scroll.type) ++ [0, 0] ++
        leBytes 4 (scrollFlags v.scroll) ++ (double_to_fp3232 v.scroll.increment).bytes)
    (b, length * 4)

/-- What is being filled: the buffer, the pointer and the number of classes. -/
structure Filling where
  buffer : Buffer
  ptr : ℕ
  num_classes : ℕ

/-- An append at the pointer, which moves on. -/
def Filling.append (s : Filling) (classes : ℕ) (append : ℕ → Buffer → Buffer × ℕ) : Filling :=
  let r := append s.ptr s.buffer
  { buffer := r.1, ptr := s.ptr + r.2, num_classes := s.num_classes + classes }

/-- The bytes that `eventToDeviceChanged` counts. -/
def deviceChangedLen {α : Type} (dce : DeviceChangedEvent α) : ℕ :=
  let num_buttons := dce.names.length
  sizeof_xXIDeviceChangedEvent +
    (if num_buttons ≠ 0 then sizeof_xXIButtonInfo + num_buttons * sizeof_Atom + pad_to_int32 (bits_to_bytes num_buttons) else 0) +
    (if dce.valuators.length ≠ 0 then
      sizeof_xXIValuatorInfo * dce.valuators.length +
        (dce.valuators.map fun v => if v.scroll.type ≠ .SCROLL_TYPE_NONE then sizeof_xXIScrollInfo else 0).sum
    else 0) +
    (if nkeys dce > 0 then sizeof_xXIKeyInfo + sizeof_CARD32 * nkeys dce else 0)

/-- The classes are appended: buttons, keys, all axes, and the axes that scroll. -/
def fillClasses {α : Type} (double_to_fp3232 : α → FP3232) (dce : DeviceChangedEvent α) (s : Filling) : Filling :=
  let s := if dce.names.length ≠ 0 then s.append 1 (appendButtonInfo dce) else s
  let s := if nkeys dce ≠ 0 then s.append 1 (appendKeyInfo dce) else s
  let s := dce.valuators.zipIdx.foldl (fun s v => s.append 1 (appendValuatorInfo double_to_fp3232 dce v.2 v.1)) s
  dce.valuators.zipIdx.foldl (fun s v =>
    if v.1.scroll.type ≠ .SCROLL_TYPE_NONE then s.append 1 (appendScrollInfo double_to_fp3232 dce v.2 v.1) else s) s

def eventToDeviceChanged {α : Type} (double_to_fp3232 : α → FP3232) (alloc : Bool) (dce : DeviceChangedEvent α) :
    Option xXIDeviceChangedEvent :=
  let len := deviceChangedLen dce
  if alloc = false then none
  else
    let s := fillClasses double_to_fp3232 dce
      { buffer := .calloc (len - sizeof_xXIDeviceChangedEvent), ptr := 0, num_classes := 0 }
    some
      { type := GenericEvent
        evtype := 1
        time := dce.time
        length := bytes_to_int32 (len - sizeof_xEvent)
        deviceid := dce.deviceid
        sourceid := dce.sourceid
        reason := if dce.deviceChange then 2 else 1
        num_classes := s.num_classes
        tail := s.buffer }

/-! ## XI 1 events -/

/-- Six values; those that are not in use are zero. -/
structure deviceValuator where
  first_valuator : CARD8
  num_valuators : CARD8
  deviceid : CARD8
  device_state : CARD16
  valuators : List CARD32
deriving DecidableEq, Repr

structure deviceKeyButtonPointer where
  type : EventType
  detail : CARD8
  sequenceNumber : Bool
  time : CARD32
  root : CARD32
  deviceid : CARD8
  state : CARD16
deriving DecidableEq, Repr

/-- The first and the last axis that are set. -/
def firstLast (mask : List Byte) : Option (ℕ × ℕ) :=
  (List.range (8 * mask.length)).foldl (fun (s : Option (ℕ × ℕ)) i =>
    if bitIsOn mask i then
      match s with
      | none => some (i, i)
      | some (first, _) => some (first, i)
    else s) none

/-- The number of axes from the first to the last that is set, and the first. -/
def countValuators (mask : List Byte) : ℕ × ℕ :=
  match firstLast mask with
  | none => (0, 0)
  | some (first, last) => (last - first + 1, first)

/-- The loop over the records, from the axis `first + i` on. -/
def valuatorRecords (value : ℕ → CARD32) (deviceid : CARD8) (state : CARD16) (first num : ℕ) (i : ℕ) : List deviceValuator :=
  if i < num then
    let num_valuators := if num - i > 6 then 6 else num - i
    let first_valuator := BitVec.ofNat 8 (first + i)
    { first_valuator := first_valuator
      num_valuators := BitVec.ofNat 8 num_valuators
      deviceid := if i + 6 < num then deviceid ||| MORE_EVENTS else deviceid
      device_state := state
      valuators := ((List.range num_valuators).map fun j => value (first_valuator.toNat + j)) ++ List.replicate (6 - num_valuators) 0 }
      :: valuatorRecords value deviceid state first num (i + 6)
  else []
termination_by num - i

def getValuatorEvents {α : Type} (toInt : α → CARD32) (state : CARD16) (ev : DeviceEvent α) : List deviceValuator :=
  let num := countValuators ev.mask
  valuatorRecords (fun i => toInt (ev.data i)) (BitVec.ofNat 8 ev.deviceid) state num.2 num.1 0

/-- The event and its records, with the number that was allocated. `none` for the event is a count of zero. -/
structure XI1Events where
  rc : ℕ
  count : ℕ
  event : Option deviceKeyButtonPointer
  records : List deviceValuator

/-- What an event without axes is converted to. -/
def withoutAxes : EventType → ℕ
  | .ET_KeyPress => Success
  | .ET_KeyRelease => Success
  | .ET_ButtonPress => Success
  | .ET_ButtonRelease => Success
  | .ET_Motion => BadMatch
  | .ET_ProximityIn => BadMatch
  | .ET_ProximityOut => BadMatch
  | _ => BadImplementation

def eventToKeyButtonPointer {α : Type} (toInt : α → CARD32) (state : CARD16) (alloc : Bool) (ev : DeviceEvent α) : XI1Events :=
  if ev.button > 0xFF ∨ ev.deviceid ≥ 0x80 then { rc := Success, count := 0, event := none, records := [] }
  else
    let valuatorEvents := ((countValuators ev.mask).1 + 5) / 6
    if valuatorEvents = 0 ∧ withoutAxes ev.type ≠ Success then
      { rc := withoutAxes ev.type, count := 0, event := none, records := [] }
    else
      let num_events := valuatorEvents + 1
      if alloc = false then { rc := BadAlloc, count := 0, event := none, records := [] }
      else
        let deviceid := BitVec.ofNat 8 ev.deviceid
        { rc := Success
          count := num_events
          event := some
            { type := ev.type
              detail := ev.button.setWidth 8
              sequenceNumber := decide (ev.type = .ET_KeyPress) && ev.key_repeat
              time := ev.time
              root := ev.root
              deviceid := if num_events > 1 then deviceid ||| MORE_EVENTS else deviceid
              state := ev.corestate }
          records := if num_events > 1 then getValuatorEvents toInt state ev else [] }

end Xenia.Dix.EventConvert
