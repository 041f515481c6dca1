import Mathlib.Data.List.FinRange
import Xenia.Dix.Protocol

/-!
# Changing the modifier map

`change_modmap` of `inpututils.d`: a request lists the keys of each modifier, and the keyboard
and those attached to it get the map from keys to modifiers that says the same. A device
refuses while a key that is a modifier in the new map or in its old one is down.

A device is known by its pointer, which is a number. The answers of access control are an
argument. What the change does beyond the modifier map (actions, indicators, events) is left
out.
-/

namespace Xenia.Dix.ModifierMap

def MappingBusy : Status := 1

abbrev MAP_LENGTH : ℕ := 256

instance mapLengthNeZero : @NeZero ℕ Zero.ofOfNat0 MAP_LENGTH := ⟨by decide⟩

abbrev KeyCode := Fin MAP_LENGTH

/-! ### Devices -/

/-- What the change looks at of a keyboard: `XkbDescRec` and the keys that are down. -/
structure KeyClass where
  min_key_code : KeyCode
  max_key_code : KeyCode
  /-- the modifiers of each key -/
  modmap : KeyCode → UInt8
  /-- the symbols of each key -/
  syms : KeyCode → List UInt32
  down : KeyCode → Bool
  postdown : KeyCode → Bool

inductive DeviceType
  | MASTER_POINTER
  | MASTER_KEYBOARD
  | SLAVE
  deriving DecidableEq

structure Device where
  type : DeviceType
  key : Option KeyClass
  /-- the master a slave is attached to; none for a floating slave -/
  master : Option ℕ
  /-- the other device of a pair of masters -/
  paired : Option ℕ
  /-- the slave the last event of a master came from -/
  lastSlave : Option ℕ

/-- The devices, the list of those that are on, and the error value of the client. -/
structure State where
  devs : ℕ → Device
  devices : List ℕ
  errorValue : ℕ

/-- `InputDevIsMaster`. -/
def Device.isMaster (d : Device) : Bool := d.type = .MASTER_POINTER || d.type = .MASTER_KEYBOARD

/-- `GetMaster` for `MASTER_KEYBOARD`. -/
def getMaster (devs : ℕ → Device) (dev : ℕ) : Option ℕ :=
  match if (devs dev).isMaster then some dev else (devs dev).master with
  | none => none
  | some master => if (devs master).type ≠ .MASTER_KEYBOARD then (devs master).paired else some master

/-- `InputDevIsFloating`. -/
def isFloating (devs : ℕ → Device) (dev : ℕ) : Bool := !(devs dev).isMaster && (getMaster devs dev).isNone

/-- `key_is_down` for `KEY_POSTED | KEY_PROCESSED`. -/
def KeyClass.isDown (key : KeyClass) (k : KeyCode) : Bool := key.down k || key.postdown k

/-! ### The check -/

/-- What one turn of a loop of the check returns, if it returns: the status and the error value. -/
def busyKey (key : KeyClass) (i : KeyCode) : Option (Status × ℕ) :=
  if key.isDown i then some (MappingBusy, i) else none

/-- A turn of the loop over the new map. -/
def checkNewKey (key : KeyClass) (modmap : KeyCode → UInt8) (i : KeyCode) : Option (Status × ℕ) :=
  if modmap i = 0 then none
  else if i < key.min_key_code ∨ key.max_key_code < i then some (BadValue, i)
  else busyKey key i

/-- A turn of the loop over the old map. -/
def checkOldKey (key : KeyClass) (i : KeyCode) : Option (Status × ℕ) :=
  if key.modmap i = 0 then none else busyKey key i

/-- The keys of the loop over the old map, which ends before `max_key_code`. -/
def KeyClass.oldKeys (key : KeyClass) : List KeyCode :=
  (List.finRange MAP_LENGTH).filter fun i => key.min_key_code ≤ i ∧ i < key.max_key_code

/-- `check_modmap_change`: the status and the error value it leaves. -/
def checkModmapChange (access : Status) (errorValue : ℕ) (dev : Device) (modmap : KeyCode → UInt8) : Status × ℕ :=
  if access ≠ Success then (access, errorValue)
  else match dev.key with
    | none => (BadMatch, errorValue)
    | some key =>
      (((List.finRange MAP_LENGTH).findSome? (checkNewKey key modmap)).or
        (key.oldKeys.findSome? (checkOldKey key))).getD (Success, errorValue)

/-- The loops of `check_modmap_change_slave` over the symbols of the new modifiers. -/
def sameSyms (slave master : KeyClass) (modmap : KeyCode → UInt8) : Bool :=
  (List.finRange MAP_LENGTH).all fun i =>
    modmap i = 0 || ((slave.syms i).zip (master.syms i)).all fun (s, m) => s = m

/-- `check_modmap_change_slave`: whether the slave follows, and the error value. -/
def checkModmapChangeSlave (access : Status) (errorValue : ℕ) (master slave : Device)
    (modmap : KeyCode → UInt8) : Bool × ℕ :=
  match slave.key, master.key with
  | some slaveKey, some masterKey =>
    if slaveKey.min_key_code ≠ masterKey.min_key_code ∨ slaveKey.max_key_code ≠ masterKey.max_key_code then
      (false, errorValue)
    else if !sameSyms slaveKey masterKey modmap then (false, errorValue)
    else
      let (ret, errorValue) := checkModmapChange access errorValue slave modmap
      (ret = Success, errorValue)
  | _, _ => (false, errorValue)

/-! ### The change -/

/-- A device with another modifier map. -/
def Device.withModmap (d : Device) (modmap : KeyCode → UInt8) : Device :=
  { d with key := d.key.map fun key => { key with modmap := modmap } }

/-- `do_modmap_change`. -/
def doModmapChange (dev : ℕ) (modmap : KeyCode → UInt8) (s : State) : State :=
  { s with devs := Function.update s.devs dev ((s.devs dev).withModmap modmap) }

/-- The loop of `build_modmap_from_modkeymap` over the places `is`; `none` is `BadValue`. -/
def buildModmap (modkeymap : ℕ → KeyCode) (max_keys_per_mod : ℕ) :
    List ℕ → (KeyCode → UInt8) → Option (KeyCode → UInt8)
  | [], modmap => some modmap
  | i :: is, modmap =>
    if modkeymap i = 0 then buildModmap modkeymap max_keys_per_mod is modmap
    else if modmap (modkeymap i) ≠ 0 then none
    else buildModmap modkeymap max_keys_per_mod is
      (Function.update modmap (modkeymap i) (UInt8.ofNat (1 <<< (i / max_keys_per_mod))))

/-- `build_modmap_from_modkeymap`. -/
def buildModmapFromModkeymap (modkeymap : ℕ → KeyCode) (max_keys_per_mod : ℕ) : Option (KeyCode → UInt8) :=
  buildModmap modkeymap max_keys_per_mod (List.range (max_keys_per_mod * 8)) fun _ => 0

/-- A turn of the loop over the slaves of a master. -/
def changeSlave (access : ℕ → Status) (dev : ℕ) (modmap : KeyCode → UInt8) (s : State) (tmp : ℕ) : State :=
  if !(s.devs tmp).isMaster ∧ getMaster s.devs tmp = some dev then
    let (follows, errorValue) :=
      checkModmapChangeSlave (access tmp) s.errorValue (s.devs dev) (s.devs tmp) modmap
    let s := { s with errorValue := errorValue }
    if follows then doModmapChange tmp modmap s else s
  else s

/-- The change of the master of the device, whose last event came from it. -/
def changeMaster (access : ℕ → Status) (dev : ℕ) (modmap : KeyCode → UInt8) (s : State) : State :=
  if !isFloating s.devs dev ∧ ((getMaster s.devs dev).bind fun m => (s.devs m).lastSlave) = some dev then
    match (s.devs dev).master with
    | none => s
    | some master =>
      let (ret, errorValue) := checkModmapChange (access master) s.errorValue (s.devs master) modmap
      let s := { s with errorValue := errorValue }
      if ret = Success then doModmapChange master modmap s else s
  else s

def changeModmap (access : ℕ → Status) (dev : ℕ) (modkeymap : ℕ → KeyCode) (max_keys_per_mod : ℕ) (s : State) :
    State × Status :=
  match buildModmapFromModkeymap modkeymap max_keys_per_mod with
  | none => (s, BadValue)
  | some modmap =>
    let (ret, errorValue) := checkModmapChange (access dev) s.errorValue (s.devs dev) modmap
    let s := { s with errorValue := errorValue }
    if ret ≠ Success then (s, ret)
    else
      let s := doModmapChange dev modmap s
      if (s.devs dev).isMaster then (s.devices.foldl (changeSlave access dev modmap) s, Success)
      else (changeMaster access dev modmap s, Success)

end Xenia.Dix.ModifierMap
