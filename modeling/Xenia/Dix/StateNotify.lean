import Mathlib.Tactic

/-!
# The state of a device on focus

`DeliverStateNotifyEvent` tells a client the state of a device in several events of 32 bytes:
one with the first part of the keys, buttons and axes, one with the other buttons, one with the
other keys, and one for every 6 further axes. The events are written into an array on the
stack; how many are sent is worked out before.

A byte of the stack that nothing was written to is `none`.
-/

namespace Xenia.Dix.StateNotify

def MAX_VALUATORS : ℕ := 36
def DOWN_LENGTH : ℕ := 32
def MORE_EVENTS : UInt8 := 0x80

def KeyClass : ℕ := 0
def ButtonClass : ℕ := 1
def ValuatorClass : ℕ := 2
def ModeBitsShift : ℕ := 6

/-! ### The device -/

structure KeyClassRec where
  min_key_code : UInt8
  max_key_code : UInt8
  /-- the bytes of the bit field of the keys that are down -/
  down : ℕ → UInt8

structure ButtonClassRec where
  numButtons : UInt8
  down : ℕ → UInt8

/-- The axes; their values are rounded. -/
structure ValuatorClassRec where
  numAxes : ℕ
  axisVal : ℕ → ℤ
  mode : UInt8
  one_le : 1 ≤ numAxes
  le_max : numAxes ≤ MAX_VALUATORS

structure Device where
  id : UInt8
  key : Option KeyClassRec
  button : Option ButtonClassRec
  valuator : Option ValuatorClassRec

/-! ### The events -/

structure DeviceStateNotify where
  deviceid : UInt8
  classes_reported : UInt8
  num_keys : UInt8
  num_buttons : UInt8
  num_valuators : UInt8
  buttons : Option (List UInt8)
  keys : Option (List UInt8)
  valuators : List ℤ

/-- An event of the array. -/
inductive SevRec
  | stateNotify (e : DeviceStateNotify)
  | buttonState (deviceid : UInt8) (buttons : List UInt8)
  | keyState (deviceid : UInt8) (keys : List UInt8)
  | valuator (deviceid num_valuators first_valuator : UInt8) (valuators : List ℤ)

def SevRec.deviceid : SevRec → UInt8
  | stateNotify e => e.deviceid
  | buttonState deviceid _ => deviceid
  | keyState deviceid _ => deviceid
  | valuator deviceid _ _ _ => deviceid

/-- `deviceid |= MORE_EVENTS`. -/
def SevRec.setMore : SevRec → SevRec
  | stateNotify e => stateNotify { e with deviceid := e.deviceid ||| MORE_EVENTS }
  | buttonState deviceid buttons => buttonState (deviceid ||| MORE_EVENTS) buttons
  | keyState deviceid keys => keyState (deviceid ||| MORE_EVENTS) keys
  | valuator deviceid num first valuators => valuator (deviceid ||| MORE_EVENTS) num first valuators

/-- `FixDeviceValuator`: up to 6 axes from `first` on. -/
def fixDeviceValuator (dev : Device) (v : ValuatorClassRec) (first : ℕ) : SevRec :=
  let nval : ℤ := v.numAxes - first
  let num_valuators := UInt8.ofNat (if nval < 6 then nval else 6).toNat
  .valuator dev.id num_valuators (UInt8.ofNat first)
    ((List.range num_valuators.toNat).map fun i => v.axisVal (first + i))

/-- The bits of a class in `classes_reported`. -/
def classBit (c : ℕ) : UInt8 := 1 <<< UInt8.ofNat c

/-- `FixDeviceStateNotify`. -/
def fixDeviceStateNotify (dev : Device) (k : Option KeyClassRec) (b : Option ButtonClassRec)
    (v : Option ValuatorClassRec) (first : ℕ) : SevRec :=
  let num_valuators : UInt8 := v.elim 0 fun v =>
    let nval : ℤ := v.numAxes - first
    UInt8.ofNat (if nval < 3 then nval else 3).toNat
  .stateNotify {
    deviceid := dev.id
    classes_reported := b.elim 0 (fun _ => classBit ButtonClass) ||| k.elim 0 (fun _ => classBit KeyClass) |||
      v.elim 0 fun v => classBit ValuatorClass ||| v.mode <<< UInt8.ofNat ModeBitsShift
    num_keys := k.elim 0 fun k => k.max_key_code - k.min_key_code
    num_buttons := b.elim 0 ButtonClassRec.numButtons
    num_valuators := num_valuators
    buttons := b.map fun b => (List.range 4).map b.down
    keys := k.map fun k => (List.range 4).map k.down
    valuators := v.elim [] fun v => (List.range num_valuators.toNat).map fun i => v.axisVal (first + i) }

/-! ### Filling the array -/

/-- The array `sev` and the index of `ev` in it. -/
structure Sev where
  recs : ℕ → Option SevRec
  ev : ℕ

/-- The size of the array. -/
def sevSize : ℕ := 3 + (MAX_VALUATORS + 6) / 6

/-- The first event. -/
def Sev.start (r : SevRec) : Sev := ⟨Function.update (fun _ => none) 0 (some r), 0⟩

/-- One event more: the one before it gets `MORE_EVENTS`. -/
def Sev.next (s : Sev) (r : SevRec) : Sev where
  recs := Function.update (Function.update s.recs s.ev ((s.recs s.ev).map SevRec.setMore)) (s.ev + 1) (some r)
  ev := s.ev + 1

/-- The loop over the axes from `first` on; `fuel` bounds its turns. -/
def valuatorLoop (dev : Device) (v : ValuatorClassRec) : ℕ → ℤ → ℕ → Sev → Sev
  | 0, _, _, s => s
  | fuel + 1, nval, first, s =>
    if 0 < nval then valuatorLoop dev v fuel (nval - 6) (first + 6) (s.next (fixDeviceValuator dev v first)) else s

/-- The number of keys as the code counts them. -/
def KeyClassRec.nkeys (k : KeyClassRec) : ℤ := k.max_key_code.toNat - k.min_key_code.toNat

/-- The other buttons, in an event of their own. -/
def fillButtons (dev : Device) (s : Sev) : Sev :=
  match dev.button with
  | some b =>
    if 32 < b.numButtons then
      s.next (.buttonState dev.id ((List.range (DOWN_LENGTH - 4)).map fun i => b.down (4 + i)))
    else s
  | none => s

/-- The other keys, in an event of their own. -/
def fillKeys (dev : Device) (s : Sev) : Sev :=
  match dev.key with
  | some k =>
    if 32 < k.nkeys then s.next (.keyState dev.id ((List.range 28).map fun i => k.down (4 + i))) else s
  | none => s

/-- The other axes. -/
def fillAxes (dev : Device) (s : Sev) : Sev :=
  match dev.valuator with
  | some v => valuatorLoop dev v v.numAxes (v.numAxes - 3) 3 s
  | none => s

def fillEvents (dev : Device) : Sev :=
  fillAxes dev (fillKeys dev (fillButtons dev
    (.start (fixDeviceStateNotify dev dev.key dev.button dev.valuator 0))))

/-- The number of events to send. -/
def evcount (dev : Device) : ℤ :=
  1 + (dev.button.elim 0 fun b => if 32 < b.numButtons then 1 else 0) +
    (dev.key.elim 0 fun k => if 32 < k.nkeys then 1 else 0) +
    dev.valuator.elim 0 fun v => (((v.numAxes : ℤ) - 3) + 6).tdiv 6

/-- `DeliverStateNotifyEvent`: the events sent, if the window asks for them (`selected`). -/
def deliverStateNotifyEvent (dev : Device) (selected : Bool) : Option (List (Option SevRec)) :=
  if !selected then none
  else if evcount dev > sevSize then none
  else some ((List.range (evcount dev).toNat).map (fillEvents dev).recs)

/-! ### What the events carry -/

/-- The values of a list with their places, from `first` on. -/
def placed {α : Type} (first : ℕ) (l : List α) : List (ℕ × α) := l.zipIdx.map fun (x, i) => (first + i, x)

/-- The axes an event carries, with their values. -/
def SevRec.axes : SevRec → List (ℕ × ℤ)
  | stateNotify e => placed 0 e.valuators
  | valuator _ _ first valuators => placed first.toNat valuators
  | _ => []

/-- The bytes of the keys an event carries. -/
def SevRec.keyBytes : SevRec → List (ℕ × UInt8)
  | stateNotify e => placed 0 (e.keys.getD [])
  | keyState _ keys => placed 4 keys
  | _ => []

/-- The bytes of the buttons an event carries. -/
def SevRec.buttonBytes : SevRec → List (ℕ × UInt8)
  | stateNotify e => placed 0 (e.buttons.getD [])
  | buttonState _ buttons => placed 4 buttons
  | _ => []

/-- The events carry bit `n` of a bit field exactly once, with its byte as it is in the field. -/
def CarriesBit (bytes : List (ℕ × UInt8)) (down : ℕ → UInt8) (n : ℕ) : Prop :=
  bytes.filter (fun x => x.1 = n / 8) = [(n / 8, down (n / 8))]

/-- What is asked of the events sent for a device: each was written in this call, all but the
last have `MORE_EVENTS`, and they carry every axis, every key and every button once. -/
structure Complete (dev : Device) (sent : List (Option SevRec)) : Prop where
  filled : ∀ e ∈ sent, e.isSome
  more : ∀ e ∈ sent.dropLast, ∃ r, e = some r ∧ r.deviceid &&& MORE_EVENTS ≠ 0
  axes : ∀ v, dev.valuator = some v →
    (sent.filterMap id).flatMap SevRec.axes = (List.range v.numAxes).map fun i => (i, v.axisVal i)
  keys : ∀ k, dev.key = some k → ∀ n, k.min_key_code.toNat ≤ n → n ≤ k.max_key_code.toNat →
    CarriesBit ((sent.filterMap id).flatMap SevRec.keyBytes) k.down n
  buttons : ∀ b, dev.button = some b → ∀ n, 1 ≤ n → n ≤ b.numButtons.toNat →
    CarriesBit ((sent.filterMap id).flatMap SevRec.buttonBytes) b.down n

end Xenia.Dix.StateNotify
