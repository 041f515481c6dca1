import Xenia.Dix.GrabIndices

/-!
# The requests to grab and ungrab

The requests of the core protocol, of XI and of XI2 that put passive grabs on a window and take them
off, with the checks each makes of its details and modifiers. The answers of the lookups and of access
control are arguments.

`indices_below`: the bits of masks that the requests use are bits of a mask, if no request of XI2 asks
for modifiers that it does not check. `beyond_the_mask` is a run where one does.
-/

namespace Xenia.Dix

open Xenia.Lib Xenia.Lib.Logged List

/-! ### The checks -/

def GrabModeSync : UInt32 := 0
def GrabModeAsync : UInt32 := 1
def XIGrabModeTouch : UInt32 := 2

/-- `ShiftMask` to `Mod5Mask`. -/
def AllModifiersMask : UInt32 := 0xff

/-- The bits of `PointerGrabMask`. -/
def PointerGrabMask : UInt32 := 0x7ffc

def checkGrabValues (param : GrabParameters) : Status :=
  if param.thisDeviceMode ≠ GrabModeSync ∧ param.thisDeviceMode ≠ GrabModeAsync ∧
      param.thisDeviceMode ≠ XIGrabModeTouch then BadValue
  else if param.otherDevicesMode ≠ GrabModeSync ∧ param.otherDevicesMode ≠ GrabModeAsync ∧
      param.otherDevicesMode ≠ XIGrabModeTouch then BadValue
  else if param.modifiers.toNat ≠ AnyModifier ∧ param.modifiers.toNat ≠ XIAnyModifier ∧
      param.modifiers &&& ~~~AllModifiersMask ≠ 0 then BadValue
  else if param.ownerEvents ≠ 0 ∧ param.ownerEvents ≠ 1 then BadValue
  else Success

/-- `min_key_code` and `max_key_code` of a device with keys. -/
structure KeyCodes where
  min : UInt8
  max : UInt8

def KeyCodes.outside (codes : KeyCodes) (key : UInt8) : Bool :=
  (key > codes.max ∨ key < codes.min) ∧ key.toNat ≠ AnyKey

/-- For one grab: the key codes of the device, the answer of the lookups and of access control,
whether there is memory for the grab, and the answers of `AddPassiveGrabToList`. -/
structure GrabAnswers where
  keyCodes : Option KeyCodes
  lookups : Status
  memory : Bool
  add : AddAnswers

/-- What is asked for has been checked. The window, the cursor and access are looked up, and the grab
is created and added. -/
def grabChecked (check : Status) (r : GrabRequest) (a : GrabAnswers) (st : GrabState) :
    Logged ℕ (GrabState × Status) :=
  if check ≠ Success then pure (st, check)
  else if a.lookups ≠ Success then pure (st, a.lookups)
  else Indexed.procGrab r a.memory a.add st

/-! ### Grabs of XI and XI2 -/

def XI_KeyPress : UInt8 := 2
def XI_ButtonPress : UInt8 := 4
def XI_Enter : UInt8 := 7
def XI_FocusIn : UInt8 := 9
def XI_TouchBegin : UInt8 := 18
def XI_GesturePinchBegin : UInt8 := 27
def XI_GestureSwipeBegin : UInt8 := 30

/-- The events of XI are numbered from the event base that the extension is given. -/
def DeviceKeyPress (eventBase : UInt8) : UInt8 := eventBase + 1
def DeviceButtonPress (eventBase : UInt8) : UInt8 := eventBase + 3

def grabButton (eventBase : UInt8) (r : GrabRequest) (a : GrabAnswers) (st : GrabState) : Logged ℕ (GrabState × Status) :=
  let type := if r.grabtype = .xi then DeviceButtonPress eventBase else XI_ButtonPress
  grabChecked (checkGrabValues r.param) { r with type := type } a st

/-- The checks of `GrabKey`. -/
def checkKey (r : GrabRequest) (keyCodes : Option KeyCodes) : Status :=
  if checkGrabValues r.param ≠ Success then checkGrabValues r.param
  else if (r.device ≠ .all ∧ r.device ≠ .allMaster) ∧ keyCodes.isNone then BadMatch
  else if r.grabtype = .xi ∧ keyCodes.any fun codes => codes.outside r.detail then BadValue
  else Success

def grabKey (eventBase : UInt8) (r : GrabRequest) (a : GrabAnswers) (st : GrabState) : Logged ℕ (GrabState × Status) :=
  let type := if r.grabtype = .xi then DeviceKeyPress eventBase else XI_KeyPress
  grabChecked (checkKey r a.keyCodes) { r with type := type, confineTo := none, cursor := none } a st

def XIGrabtypeButton : UInt8 := 0
def XIGrabtypeKeycode : UInt8 := 1
def XIGrabtypeEnter : UInt8 := 2
def XIGrabtypeFocusIn : UInt8 := 3
def XIGrabtypeTouchBegin : UInt8 := 4
def XIGrabtypeGesturePinchBegin : UInt8 := 5
def XIGrabtypeGestureSwipeBegin : UInt8 := 6

def grabWindow (type : UInt8) (r : GrabRequest) (a : GrabAnswers) (st : GrabState) : Logged ℕ (GrabState × Status) :=
  let eventType := if type = XIGrabtypeEnter then XI_Enter else XI_FocusIn
  grabChecked (checkGrabValues r.param)
    { r with modDevice := r.device, grabtype := .xi2, type := eventType, detail := 0, confineTo := none } a st

def grabTouchOrGesture (type : UInt8) (r : GrabRequest) (a : GrabAnswers) (st : GrabState) :
    Logged ℕ (GrabState × Status) :=
  grabChecked (checkGrabValues r.param)
    { r with grabtype := .xi2, type := type, detail := 0, confineTo := none, cursor := none } a st

/-! ### Keys and buttons of the core protocol and of XI -/

/-- A request to grab a key or a button, with the devices it is about and what it selects of them. -/
structure PressGrabReq where
  client : ℕ
  device : Device
  modDevice : Device
  mask : UInt32
  ownerEvents : UInt8
  thisDeviceMode : UInt8
  otherDevicesMode : UInt8
  modifiers : UInt16
  detail : UInt8
  confineTo : Option ℕ
  cursor : Option ℕ

def PressGrabReq.param (stuff : PressGrabReq) : GrabParameters where
  ownerEvents := stuff.ownerEvents.toUInt32
  thisDeviceMode := stuff.thisDeviceMode.toUInt32
  otherDevicesMode := stuff.otherDevicesMode.toUInt32
  modifiers := stuff.modifiers.toUInt32

/-- `KeyPressMask | KeyReleaseMask`. -/
def keyMask : BitVec 32 := 3

def procGrabKey (stuff : PressGrabReq) (codes : KeyCodes) (a : GrabAnswers) (st : GrabState) :
    Logged ℕ (GrabState × Status) :=
  let check :=
    if checkGrabValues stuff.param ≠ Success then checkGrabValues stuff.param
    else if codes.outside stuff.detail then BadValue
    else Success
  grabChecked check ⟨stuff.client, stuff.device, stuff.device, .core, keyMask, fun _ => 0, stuff.param, 2, stuff.detail,
    none, none⟩ a st

/-- The request makes the checks of `CheckGrabValues` itself, and does not know of touches. -/
def checkGrabButton (stuff : PressGrabReq) : Status :=
  if stuff.param.otherDevicesMode ≠ GrabModeSync ∧ stuff.param.otherDevicesMode ≠ GrabModeAsync then BadValue
  else if stuff.param.thisDeviceMode ≠ GrabModeSync ∧ stuff.param.thisDeviceMode ≠ GrabModeAsync then BadValue
  else if stuff.modifiers.toNat ≠ AnyModifier ∧ stuff.modifiers.toUInt32 &&& ~~~AllModifiersMask ≠ 0 then BadValue
  else if stuff.ownerEvents ≠ 0 ∧ stuff.ownerEvents ≠ 1 then BadValue
  else if stuff.mask &&& ~~~PointerGrabMask ≠ 0 then BadValue
  else Success

def procGrabButton (stuff : PressGrabReq) (a : GrabAnswers) (st : GrabState) : Logged ℕ (GrabState × Status) :=
  grabChecked (checkGrabButton stuff) ⟨stuff.client, stuff.device, stuff.modDevice, .core, stuff.mask.toBitVec, fun _ => 0,
    stuff.param, 4, stuff.detail, stuff.confineTo, stuff.cursor⟩ a st

/-- What `GrabKey` and `GrabButton` are called with. -/
def PressGrabReq.deviceRequest (stuff : PressGrabReq) : GrabRequest :=
  ⟨stuff.client, stuff.device, stuff.modDevice, .xi, stuff.mask.toBitVec, fun _ => 0, stuff.param, 0, stuff.detail, none,
    none⟩

/-- `found` is the answer of the lookups of the devices and the event classes. -/
def procXGrabDeviceKey (eventBase : UInt8) (stuff : PressGrabReq) (found : Status) (a : GrabAnswers) (st : GrabState) :
    Logged ℕ (GrabState × Status) :=
  if found ≠ Success then pure (st, found) else grabKey eventBase stuff.deviceRequest a st

def procXGrabDeviceButton (eventBase : UInt8) (stuff : PressGrabReq) (found : Status) (a : GrabAnswers) (st : GrabState) :
    Logged ℕ (GrabState × Status) :=
  if found ≠ Success then pure (st, found) else grabButton eventBase stuff.deviceRequest a st

/-- A request to ungrab a key or a button. -/
structure PressUngrabReq where
  client : ℕ
  device : Device
  modDevice : Device
  modifiers : UInt16
  detail : UInt8

/-- The answer of the lookups, whether there is memory for the temporary grab, and the answers of
`DeletePassiveGrabFromList`. -/
structure UngrabAnswers where
  found : Status
  memory : Bool
  delete : DeleteAnswers

/-- What the requests to ungrab a key or a button have in common. Only those of the core protocol look
at whether the grab could be taken out. -/
def ungrabPress (stuff : PressUngrabReq) (grabtype : InputLevel) (type : UInt8) (outside : Bool) (a : UngrabAnswers)
    (st : GrabState) : Logged ℕ (GrabState × Status) := do
  if a.found ≠ Success then return (st, a.found)
  else if outside then return (st, BadValue)
  else if stuff.modifiers.toNat ≠ AnyModifier ∧ stuff.modifiers.toUInt32 &&& ~~~AllModifiersMask ≠ 0 then
    return (st, BadValue)
  else if !a.memory then return (st, BadAlloc)
  else
    let tempGrab : UngrabRequest :=
      ⟨stuff.client, stuff.device, stuff.modDevice, grabtype, type, stuff.detail, stuff.modifiers.toUInt32⟩
    let (st, deleted) ← Indexed.deletePassiveGrabFromList tempGrab.tempGrab a.delete st
    return (st, if grabtype = .core ∧ !deleted then BadAlloc else Success)

def procUngrabKey (stuff : PressUngrabReq) (codes : KeyCodes) (a : UngrabAnswers) (st : GrabState) :
    Logged ℕ (GrabState × Status) :=
  ungrabPress { stuff with modDevice := stuff.device } .core 2 (codes.outside stuff.detail) a st

def procUngrabButton (stuff : PressUngrabReq) (a : UngrabAnswers) (st : GrabState) : Logged ℕ (GrabState × Status) :=
  ungrabPress stuff .core 4 false a st

def procXUngrabDeviceKey (eventBase : UInt8) (stuff : PressUngrabReq) (codes : KeyCodes) (a : UngrabAnswers)
    (st : GrabState) : Logged ℕ (GrabState × Status) :=
  ungrabPress stuff .xi (DeviceKeyPress eventBase) (codes.outside stuff.detail) a st

def procXUngrabDeviceButton (eventBase : UInt8) (stuff : PressUngrabReq) (a : UngrabAnswers) (st : GrabState) :
    Logged ℕ (GrabState × Status) :=
  ungrabPress stuff .xi (DeviceButtonPress eventBase) false a st

/-! ### Passive grabs of XI2 -/

/-- A request to grab, with the devices it is about. The event masks are already those of the device. -/
structure PassiveGrabReq where
  client : ℕ
  device : Device
  modDevice : Device
  isKeyboard : Bool
  grabType : UInt8
  detail : UInt32
  grabMode : UInt8
  pairedDeviceMode : UInt8
  ownerEvents : UInt8
  xi2mask : XI2Mask
  cursor : Option ℕ

def PassiveGrabReq.param (stuff : PassiveGrabReq) (modifiers : UInt32) : GrabParameters where
  ownerEvents := stuff.ownerEvents.toUInt32
  thisDeviceMode := if stuff.isKeyboard then stuff.grabMode.toUInt32 else stuff.pairedDeviceMode.toUInt32
  otherDevicesMode := if stuff.isKeyboard then stuff.pairedDeviceMode.toUInt32 else stuff.grabMode.toUInt32
  modifiers := modifiers

def XIAlreadyGrabbed : Status := 1

/-- The `switch` over the types of grabs. -/
def PassiveGrabReq.grab (stuff : PassiveGrabReq) (eventBase : UInt8) (modifiers : UInt32) (a : GrabAnswers)
    (st : GrabState) : Logged ℕ (GrabState × Status) :=
  let request : GrabRequest := ⟨stuff.client, stuff.device, stuff.modDevice, .xi2, 0, stuff.xi2mask,
    stuff.param modifiers, 0, stuff.detail.toUInt8, none, stuff.cursor⟩
  if stuff.grabType = XIGrabtypeButton then grabButton eventBase request a st
  else if stuff.grabType = XIGrabtypeKeycode then grabKey eventBase request a st
  else if stuff.grabType = XIGrabtypeEnter ∨ stuff.grabType = XIGrabtypeFocusIn then
    grabWindow stuff.grabType request a st
  else if stuff.grabType = XIGrabtypeTouchBegin then grabTouchOrGesture XI_TouchBegin request a st
  else if stuff.grabType = XIGrabtypeGesturePinchBegin then grabTouchOrGesture XI_GesturePinchBegin request a st
  else if stuff.grabType = XIGrabtypeGestureSwipeBegin then grabTouchOrGesture XI_GestureSwipeBegin request a st
  else pure (st, Success)

/-- The loop over the modifiers, each with the answers for its grab. `reply` lists those that could not
be grabbed. -/
def grabModifiers (stuff : PassiveGrabReq) (eventBase : UInt8) : List (UInt32 × GrabAnswers) →
    List (UInt32 × Status) → GrabState → Logged ℕ (GrabState × Except Status (List (UInt32 × Status)))
  | [], reply, st => pure (st, .ok reply)
  | (modifiers, a) :: rest, reply, st =>
    -- with XKB there are no keycodes above 255
    if stuff.detail > 255 then grabModifiers stuff eventBase rest (reply ++ [(modifiers, XIAlreadyGrabbed)]) st
    else if checkGrabValues (stuff.param modifiers) ≠ Success then
      pure (st, .error (checkGrabValues (stuff.param modifiers)))
    else do
      let (st, status) ← stuff.grab eventBase modifiers a st
      grabModifiers stuff eventBase rest (if status ≠ Success then reply ++ [(modifiers, status)] else reply) st

def procXIPassiveGrabDevice (eventBase : UInt8) (stuff : PassiveGrabReq) (modifiers : List (UInt32 × GrabAnswers))
    (device found : Status) (st : GrabState) : Logged ℕ (GrabState × Except Status (List (UInt32 × Status))) :=
  if device ≠ Success then pure (st, .error device)
  else if stuff.grabType > XIGrabtypeGestureSwipeBegin then pure (st, .error BadValue)
  else if stuff.grabType ≥ XIGrabtypeEnter ∧ stuff.detail ≠ 0 then pure (st, .error BadValue)
  else if stuff.grabType = XIGrabtypeTouchBegin ∧
      (stuff.grabMode.toUInt32 ≠ XIGrabModeTouch ∨ stuff.pairedDeviceMode.toUInt32 ≠ GrabModeAsync) then
    pure (st, .error BadValue)
  -- the bits of the event mask, the memory for it, the cursor and the window
  else if found ≠ Success then pure (st, .error found)
  else if checkGrabValues (stuff.param 0) ≠ Success then pure (st, .error (checkGrabValues (stuff.param 0)))
  else grabModifiers stuff eventBase modifiers [] st

/-- A request to ungrab. -/
structure PassiveUngrabReq where
  client : ℕ
  device : Device
  modDevice : Device
  grabType : UInt8
  detail : UInt32

/-- The event type of a type of grab. -/
def eventTypeOf (grabType : UInt8) : UInt8 :=
  if grabType = XIGrabtypeButton then XI_ButtonPress
  else if grabType = XIGrabtypeKeycode then XI_KeyPress
  else if grabType = XIGrabtypeEnter then XI_Enter
  else if grabType = XIGrabtypeFocusIn then XI_FocusIn
  else if grabType = XIGrabtypeTouchBegin then XI_TouchBegin
  else if grabType = XIGrabtypeGesturePinchBegin then XI_GesturePinchBegin
  else XI_GestureSwipeBegin

/-- The loop over the modifiers, each with the answers for the grab that is taken out. -/
def ungrabModifiers (stuff : PassiveUngrabReq) : List (UInt32 × DeleteAnswers) → GrabState → Logged ℕ GrabState
  | [], st => pure st
  | (modifiers, a) :: rest, st => do
    let tempGrab : UngrabRequest :=
      ⟨stuff.client, stuff.device, stuff.modDevice, .xi2, eventTypeOf stuff.grabType, stuff.detail.toUInt8, modifiers⟩
    ungrabModifiers stuff rest (← Indexed.deletePassiveGrabFromList tempGrab.tempGrab a st).1

def procXIPassiveUngrabDevice (stuff : PassiveUngrabReq) (modifiers : List (UInt32 × DeleteAnswers))
    (device found : Status) (memory : Bool) (st : GrabState) : Logged ℕ (GrabState × Status) := do
  if device ≠ Success then return (st, device)
  else if stuff.grabType > XIGrabtypeGestureSwipeBegin then return (st, BadValue)
  -- the gestures are not among the types without a detail
  else if stuff.grabType ≥ XIGrabtypeEnter ∧ stuff.grabType ≤ XIGrabtypeTouchBegin ∧ stuff.detail ≠ 0 then
    return (st, BadValue)
  else if stuff.detail > 255 then return (st, BadValue)
  else if found ≠ Success then return (st, found)
  else if !memory then return (st, BadAlloc)
  else return (← ungrabModifiers stuff modifiers st, Success)

/-! ### Runs -/

/-- A request, with the answers it gets. A client that exits takes its grabs with it. -/
inductive GrabCall
  | grabKey (stuff : PressGrabReq) (codes : KeyCodes) (a : GrabAnswers)
  | grabButton (stuff : PressGrabReq) (a : GrabAnswers)
  | grabDeviceKey (stuff : PressGrabReq) (found : Status) (a : GrabAnswers)
  | grabDeviceButton (stuff : PressGrabReq) (found : Status) (a : GrabAnswers)
  | ungrabKey (stuff : PressUngrabReq) (codes : KeyCodes) (a : UngrabAnswers)
  | ungrabButton (stuff : PressUngrabReq) (a : UngrabAnswers)
  | ungrabDeviceKey (stuff : PressUngrabReq) (codes : KeyCodes) (a : UngrabAnswers)
  | ungrabDeviceButton (stuff : PressUngrabReq) (a : UngrabAnswers)
  | passiveGrab (stuff : PassiveGrabReq) (modifiers : List (UInt32 × GrabAnswers)) (device found : Status)
  | passiveUngrab (stuff : PassiveUngrabReq) (modifiers : List (UInt32 × DeleteAnswers)) (device found : Status)
      (memory : Bool)
  | freeResource (resource : ResourceId)

def GrabCall.proc (eventBase : UInt8) (call : GrabCall) (st : GrabState) : Logged ℕ GrabState :=
  match call with
  | .grabKey stuff codes a => return (← procGrabKey stuff codes a st).1
  | .grabButton stuff a => return (← procGrabButton stuff a st).1
  | .grabDeviceKey stuff found a => return (← procXGrabDeviceKey eventBase stuff found a st).1
  | .grabDeviceButton stuff found a => return (← procXGrabDeviceButton eventBase stuff found a st).1
  | .ungrabKey stuff codes a => return (← procUngrabKey stuff codes a st).1
  | .ungrabButton stuff a => return (← procUngrabButton stuff a st).1
  | .ungrabDeviceKey stuff codes a => return (← procXUngrabDeviceKey eventBase stuff codes a st).1
  | .ungrabDeviceButton stuff a => return (← procXUngrabDeviceButton eventBase stuff a st).1
  | .passiveGrab stuff modifiers device found =>
    return (← procXIPassiveGrabDevice eventBase stuff modifiers device found st).1
  | .passiveUngrab stuff modifiers device found memory =>
    return (← procXIPassiveUngrabDevice stuff modifiers device found memory st).1
  | .freeResource resource =>
    pure { st with passiveGrabs := st.passiveGrabs.filter fun grab => grab.resource ≠ resource }

def callStep (eventBase : UInt8) (run : Logged ℕ GrabState) (call : GrabCall) : Logged ℕ GrabState :=
  run >>= call.proc eventBase

/-- No XI2 request asks for modifiers that its checks let pass and that are neither any modifiers nor
bits of a mask: to grab, the wildcard of the other levels; to ungrab, what is not checked at all. -/
def GrabCall.InRange : GrabCall → Prop
  | .passiveGrab _ modifiers _ _ => ∀ m ∈ modifiers, m.1.toNat ≠ AnyModifier
  | .passiveUngrab _ modifiers _ _ _ => ∀ m ∈ modifiers, m.1.toNat = XIAnyModifier ∨ m.1.toNat < 256
  | _ => True

/-! ### The indices are bits of a mask -/

/-- The bits used are bits of a mask, and the list is left in order. -/
abbrev Safe {α : Type} (st : α → GrabState) (x : Logged ℕ α) : Prop := x.Keeps (· < 256) fun a => (st a).Ok

section Requests

variable {st : GrabState} {eventBase : UInt8}

theorem le_of_and_not (x mask : UInt32) (h : x &&& ~~~mask = 0) : x.toNat ≤ mask.toNat := by
  have hmask : x = x &&& mask := by
    apply UInt32.toBitVec_inj.1
    apply BitVec.eq_of_getLsbD_eq
    intro i hi
    have hbit := congrArg (fun y : UInt32 => y.toBitVec.getLsbD i) h
    simpa [hi] using hbit
  rw [hmask]
  exact Nat.and_le_right

theorem lt_of_unmasked {m : UInt32} (h : ¬m &&& ~~~AllModifiersMask ≠ 0) : m.toNat < 256 :=
  Nat.lt_succ_of_le (le_of_and_not m AllModifiersMask (not_not.1 h))

variable {param : GrabParameters}

/-- The modifiers that `CheckGrabValues` lets pass: also the wildcard of another level. -/
theorem checkGrabValues_modifiers (h : checkGrabValues param = Success) :
    param.modifiers.toNat = AnyModifier ∨ param.modifiers.toNat = XIAnyModifier ∨ param.modifiers.toNat < 256 := by
  unfold checkGrabValues at h
  split at h
  · nomatch h
  split at h
  · nomatch h
  split at h
  · nomatch h
  rename_i hmod
  by_cases hany : param.modifiers.toNat = AnyModifier
  · exact .inl hany
  by_cases hxi : param.modifiers.toNat = XIAnyModifier
  · exact .inr (.inl hxi)
  · exact .inr (.inr (lt_of_unmasked fun hbits => hmod ⟨hany, hxi, hbits⟩))

/-- The modifiers of 16 bits that the requests of the core protocol and XI let pass. -/
theorem modifiers16_checked {m : UInt16}
    (h : ¬(m.toNat ≠ AnyModifier ∧ m.toUInt32 &&& ~~~AllModifiersMask ≠ 0)) :
    m.toUInt32.toNat = AnyModifier ∨ m.toUInt32.toNat < 256 := by
  by_cases hany : m.toNat = AnyModifier
  · exact .inl hany
  · have hlt := lt_of_unmasked fun hbits => h ⟨hany, hbits⟩
    exact .inr hlt

theorem modifiers16_lt (m : UInt16) : m.toUInt32.toNat ≠ XIAnyModifier := by
  have hlt : m.toNat < 2 ^ 16 := m.toNat_lt
  rw [UInt16.toNat_toUInt32]
  unfold XIAnyModifier
  omega

variable {r : GrabRequest}

theorem procGrab_safe (hst : st.Ok) (hmod : ModifiersOk (r.grab st.nextId)) (memory : Bool)
    (a : AddAnswers) : Safe Prod.fst (Indexed.procGrab r memory a st) := by
  refine ⟨Indexed.procGrab_uses hst hmod memory a, fun result h => ?_⟩
  rw [Indexed.procGrab_result] at h
  exact (procGrab_result hst h).1

theorem delete_safe (hst : st.Ok) {m : Grab} (hm : m.Plain) (hmod : ModifiersOk m) (a : DeleteAnswers) :
    Safe Prod.fst (Indexed.deletePassiveGrabFromList m a st) := by
  refine ⟨Indexed.deletePassiveGrabFromList_uses hm hmod a st, fun result h => ?_⟩
  rw [Indexed.deletePassiveGrabFromList_result] at h
  exact (delete_result hst hm h).1

theorem grabChecked_safe (hst : st.Ok) {check : Status} (hmod : check = Success → ModifiersOk (r.grab st.nextId)) (a : GrabAnswers) :
    Safe Prod.fst (grabChecked check r a st) := by
  unfold grabChecked
  split
  · exact keeps_pure hst
  rename_i hcheck
  split
  · exact keeps_pure hst
  · exact procGrab_safe hst (hmod (not_not.1 hcheck)) a.memory a.add

/-- Where the modifiers have 16 bits, `CheckGrabValues` lets no wildcard of XI2 pass. -/
theorem checked_modifiersOk {m : UInt16} (hm : r.param.modifiers = m.toUInt32)
    (hlevel : r.grabtype ≠ .xi2) (id : ℕ) (h : checkGrabValues r.param = Success) : ModifiersOk (r.grab id) := by
  have hany : anyModifier r.grabtype = AnyModifier := by
    unfold anyModifier
    split
    · exact absurd ‹_› hlevel
    · rfl
  unfold ModifiersOk GrabRequest.grab
  rw [hany]
  rcases checkGrabValues_modifiers h with h | h | h
  · exact .inl h
  · rw [hm] at h
    exact absurd h (modifiers16_lt m)
  · exact .inr h

/-- In XI2, it lets the wildcard of the other levels pass. -/
theorem checked_modifiersOk_xi2 (hm : param.modifiers.toNat ≠ AnyModifier)
    (h : checkGrabValues param = Success) (hlevel : r.grabtype = .xi2) (hparam : r.param = param)
    (id : ℕ) : ModifiersOk (r.grab id) := by
  unfold GrabRequest.grab
  rw [hlevel, hparam]
  exact (checkGrabValues_modifiers h).resolve_left hm

theorem checkKey_values {keyCodes : Option KeyCodes} (h : checkKey r keyCodes = Success) :
    checkGrabValues r.param = Success := by
  unfold checkKey at h
  split at h
  · exact h
  · rename_i hcheck
    exact not_not.1 hcheck

/-! ### The requests of the core protocol and of XI -/

section

variable (hst : st.Ok)
include hst

theorem procGrabKey_safe (stuff : PressGrabReq) (codes : KeyCodes) (a : GrabAnswers) :
    Safe Prod.fst (procGrabKey stuff codes a st) := by
  refine grabChecked_safe hst (fun hcheck => ?_) a
  refine checked_modifiersOk (m := stuff.modifiers) rfl (by simp) _ ?_
  split at hcheck
  · exact hcheck
  · exact not_not.1 ‹_›

theorem procGrabButton_safe (stuff : PressGrabReq) (a : GrabAnswers) :
    Safe Prod.fst (procGrabButton stuff a st) := by
  refine grabChecked_safe hst (fun hcheck => ?_) a
  unfold checkGrabButton at hcheck
  split at hcheck
  · nomatch hcheck
  split at hcheck
  · nomatch hcheck
  split at hcheck
  · nomatch hcheck
  rename_i hmod
  exact modifiers16_checked hmod

/-- `GrabButton` and `GrabKey` make the checks of `CheckGrabValues`. -/
theorem grabButton_safe (hmod : checkGrabValues r.param = Success → ModifiersOk (r.grab st.nextId)) (a : GrabAnswers) :
    Safe Prod.fst (grabButton eventBase r a st) := by
  unfold grabButton
  refine grabChecked_safe hst (fun hcheck => ?_) a
  exact hmod hcheck

theorem grabKey_safe (hmod : checkGrabValues r.param = Success → ModifiersOk (r.grab st.nextId)) (a : GrabAnswers) :
    Safe Prod.fst (grabKey eventBase r a st) := by
  unfold grabKey
  refine grabChecked_safe hst (fun hcheck => ?_) a
  exact hmod (checkKey_values hcheck)

theorem procXGrabDeviceKey_safe (stuff : PressGrabReq) (found : Status) (a : GrabAnswers) :
    Safe Prod.fst (procXGrabDeviceKey eventBase stuff found a st) := by
  unfold procXGrabDeviceKey
  split
  · exact keeps_pure hst
  · exact grabKey_safe hst (checked_modifiersOk (m := stuff.modifiers) rfl (by simp [PressGrabReq.deviceRequest]) _) a

theorem procXGrabDeviceButton_safe (stuff : PressGrabReq) (found : Status) (a : GrabAnswers) :
    Safe Prod.fst (procXGrabDeviceButton eventBase stuff found a st) := by
  unfold procXGrabDeviceButton
  split
  · exact keeps_pure hst
  · exact grabButton_safe hst (checked_modifiersOk (m := stuff.modifiers) rfl (by simp [PressGrabReq.deviceRequest]) _) a

theorem ungrabPress_safe (stuff : PressUngrabReq) {grabtype : InputLevel} (hlevel : grabtype ≠ .xi2)
    (type : UInt8) (outside : Bool) (a : UngrabAnswers) :
    Safe Prod.fst (ungrabPress stuff grabtype type outside a st) := by
  unfold ungrabPress
  split
  · exact keeps_pure hst
  split
  · exact keeps_pure hst
  split
  · exact keeps_pure hst
  rename_i hmod
  split
  · exact keeps_pure hst
  have hany : anyModifier grabtype = AnyModifier := by
    unfold anyModifier
    split
    · exact absurd rfl hlevel
    · rfl
  refine (delete_safe hst (tempGrab_plain _) ?_ a.delete).bind fun result hok => keeps_pure hok
  unfold ModifiersOk UngrabRequest.tempGrab
  rw [hany]
  exact modifiers16_checked hmod

/-! ### The requests of XI2 -/

theorem PassiveGrabReq.grab_safe (stuff : PassiveGrabReq) {modifiers : UInt32} (hm : modifiers.toNat ≠ AnyModifier) (a : GrabAnswers) :
    Safe Prod.fst (stuff.grab eventBase modifiers a st) := by
  have hmod : checkGrabValues (stuff.param modifiers) = Success → ∀ {r : GrabRequest}, r.grabtype = .xi2 →
      r.param = stuff.param modifiers → ModifiersOk (r.grab st.nextId) :=
    fun hcheck r hlevel hparam => checked_modifiersOk_xi2 hm hcheck hlevel hparam _
  unfold PassiveGrabReq.grab
  split
  · exact grabButton_safe hst (fun hcheck => hmod hcheck rfl rfl) a
  split
  · exact grabKey_safe hst (fun hcheck => hmod hcheck rfl rfl) a
  split
  · exact grabChecked_safe hst (fun hcheck => hmod hcheck rfl rfl) a
  split
  · exact grabChecked_safe hst (fun hcheck => hmod hcheck rfl rfl) a
  split
  · exact grabChecked_safe hst (fun hcheck => hmod hcheck rfl rfl) a
  split
  · exact grabChecked_safe hst (fun hcheck => hmod hcheck rfl rfl) a
  · exact keeps_pure hst

end

/-- The loop over the modifiers keeps the list in order. -/
theorem grabModifiers_safe (stuff : PassiveGrabReq) (modifiers : List (UInt32 × GrabAnswers)) :
    (∀ m ∈ modifiers, m.1.toNat ≠ AnyModifier) → ∀ (reply : List (UInt32 × Status)) {st : GrabState}, st.Ok →
      Safe Prod.fst (grabModifiers stuff eventBase modifiers reply st) := by
  induction modifiers with
  | nil => exact fun _ _ _ hst => keeps_pure hst
  | cons m rest ih =>
    intro hrange reply st hst
    have hrest := ih fun m hm => hrange m (mem_cons_of_mem _ hm)
    unfold grabModifiers
    split
    · exact hrest _ hst
    split
    · exact keeps_pure hst
    · refine (stuff.grab_safe hst (hrange m mem_cons_self) m.2).bind fun result hok => ?_
      exact hrest _ hok

theorem procXIPassiveGrabDevice_safe (hst : st.Ok) (stuff : PassiveGrabReq) {modifiers : List (UInt32 × GrabAnswers)}
    (hrange : ∀ m ∈ modifiers, m.1.toNat ≠ AnyModifier) (device found : Status) :
    Safe Prod.fst (procXIPassiveGrabDevice eventBase stuff modifiers device found st) := by
  unfold procXIPassiveGrabDevice
  split
  · exact keeps_pure hst
  split
  · exact keeps_pure hst
  split
  · exact keeps_pure hst
  split
  · exact keeps_pure hst
  split
  · exact keeps_pure hst
  split
  · exact keeps_pure hst
  · exact grabModifiers_safe stuff modifiers hrange [] hst

theorem ungrabModifiers_safe (stuff : PassiveUngrabReq) (modifiers : List (UInt32 × DeleteAnswers)) :
    (∀ m ∈ modifiers, m.1.toNat = XIAnyModifier ∨ m.1.toNat < 256) → ∀ {st : GrabState}, st.Ok →
      Safe id (ungrabModifiers stuff modifiers st) := by
  induction modifiers with
  | nil => exact fun _ _ hst => keeps_pure hst
  | cons m rest ih =>
    intro hrange st hst
    have hmod (r : UngrabRequest) (hlevel : r.grabtype = .xi2) (hr : r.modifiers = m.1) : ModifiersOk r.tempGrab := by
      unfold UngrabRequest.tempGrab
      rw [hlevel, hr]
      exact hrange m mem_cons_self
    refine (delete_safe hst (tempGrab_plain _) (hmod _ rfl rfl) m.2).bind fun result hok => ?_
    exact ih (fun m hm => hrange m (mem_cons_of_mem _ hm)) hok

theorem procXIPassiveUngrabDevice_safe (hst : st.Ok) (stuff : PassiveUngrabReq)
    {modifiers : List (UInt32 × DeleteAnswers)} (hrange : ∀ m ∈ modifiers, m.1.toNat = XIAnyModifier ∨ m.1.toNat < 256)
    (device found : Status) (memory : Bool) :
    Safe Prod.fst (procXIPassiveUngrabDevice stuff modifiers device found memory st) := by
  unfold procXIPassiveUngrabDevice
  split
  · exact keeps_pure hst
  split
  · exact keeps_pure hst
  split
  · exact keeps_pure hst
  split
  · exact keeps_pure hst
  split
  · exact keeps_pure hst
  split
  · exact keeps_pure hst
  · exact (ungrabModifiers_safe stuff modifiers hrange hst).bind fun _ hok => keeps_pure hok

/-! ### Runs of requests -/

theorem Keeps.state {α : Type} {x : Logged ℕ (GrabState × α)} (h : Safe Prod.fst x) :
    Safe id (do return (← x).1) := h.bind fun _ hok => keeps_pure hok

/-- **One request.** -/
theorem GrabCall.proc_safe (hst : st.Ok) {call : GrabCall} (hrange : call.InRange) : Safe id (call.proc eventBase st) := by
  cases call with
  | grabKey stuff codes a => exact Keeps.state (procGrabKey_safe hst stuff codes a)
  | grabButton stuff a => exact Keeps.state (procGrabButton_safe hst stuff a)
  | grabDeviceKey stuff found a => exact Keeps.state (procXGrabDeviceKey_safe hst stuff found a)
  | grabDeviceButton stuff found a => exact Keeps.state (procXGrabDeviceButton_safe hst stuff found a)
  | ungrabKey stuff codes a => exact Keeps.state (ungrabPress_safe hst _ (by decide) _ _ a)
  | ungrabButton stuff a => exact Keeps.state (ungrabPress_safe hst _ (by decide) _ _ a)
  | ungrabDeviceKey stuff codes a => exact Keeps.state (ungrabPress_safe hst _ (by decide) _ _ a)
  | ungrabDeviceButton stuff a => exact Keeps.state (ungrabPress_safe hst _ (by decide) _ _ a)
  | passiveGrab stuff modifiers device found =>
    exact Keeps.state (procXIPassiveGrabDevice_safe hst stuff hrange device found)
  | passiveUngrab stuff modifiers device found memory =>
    exact Keeps.state (procXIPassiveUngrabDevice_safe hst stuff hrange device found memory)
  | freeResource resource => exact keeps_pure (freeResource_ok hst resource)

end Requests

/-- The list of a window no client has grabbed anything on. -/
def noPassiveGrabs : Logged ℕ GrabState := pure ⟨[], 1⟩

/-- **The indices are bits of a mask**, in every run of requests that are all in range. -/
theorem indices_below (eventBase : UInt8) {calls : List GrabCall} (hrange : ∀ call ∈ calls, call.InRange) :
    (run (callStep eventBase) noPassiveGrabs calls).Uses (· < 256) := by
  have hinit : Safe id noPassiveGrabs :=
    keeps_pure ⟨fun g hg => (nomatch hg), nodup_nil, fun g hg => nomatch hg⟩
  have hall : AllSteps (callStep eventBase) (fun _ call => call.InRange) noPassiveGrabs calls := by
    generalize noPassiveGrabs = s
    induction calls generalizing s with
    | nil => trivial
    | cons call calls ih =>
      exact ⟨hrange call mem_cons_self, ih (fun c hc => hrange c (mem_cons_of_mem _ hc)) _⟩
  refine (hall.invariant (P := Safe id) (fun s call hcall hs => ?_) hinit).1
  exact hs.bind fun st hok => call.proc_safe hok hcall

/-! ### Modifiers beyond the mask -/

/-- Client 1 grabs key 38 with any modifiers, or ungrabs it. -/
def grabKey38 (modifiers : UInt32) : GrabCall :=
  .passiveGrab ⟨1, .one someDevice, .one someDevice, true, XIGrabtypeKeycode, 38, 1, 1, 0, fun _ => 0, none⟩
    [(modifiers, ⟨some ⟨8, 255⟩, Success, true, enoughToAdd⟩)] Success Success

def ungrabKey38 (modifiers : UInt32) : GrabCall :=
  .passiveUngrab ⟨1, .one someDevice, .one someDevice, XIGrabtypeKeycode, 38⟩ [(modifiers, enoughToAdd.delete)] Success
    Success true

/-- The key is grabbed with any modifiers, and ungrabbed with one of the modifiers of a device. -/
theorem indices_below_one : (run (callStep 64) noPassiveGrabs [grabKey38 0x80000000, ungrabKey38 5]).Uses (· < 256) :=
  indices_below 64 (by
    intro call hcall
    rcases mem_cons.1 hcall with rfl | hcall
    · exact forall_mem_singleton.2 (by decide)
    · rw [mem_singleton.1 hcall]
      exact forall_mem_singleton.2 (by decide))

/-- **A bit beyond the mask** is cleared when the key is ungrabbed with modifiers that no check refuses,
and one is read when the key is grabbed with the wildcard of the other levels. -/
theorem beyond_the_mask :
    (run (callStep 64) noPassiveGrabs [grabKey38 0x80000000, ungrabKey38 256]).log = [256] ∧
    ∃ i ∈ (run (callStep 64) noPassiveGrabs [grabKey38 0x80000000, ungrabKey38 5, grabKey38 0x8000]).log, ¬i < 256 := by
  decide +kernel

end Xenia.Dix
