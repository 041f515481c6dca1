import Mathlib.Tactic
import Xenia.Lib.Run
import Xenia.Lib.Outcome
import Xenia.Dix.Protocol

/-!
# Passive grabs

The passive grabs on a window: comparing two grabs, adding one to the list and taking one out of
the grabs on it. A detail is one value, or any value but those whose bit is not set in its mask.
A mask has 256 bits, and reading or writing a bit beyond them ends in `fault`, as does following
a pointer to event masks that is not one.

The answers of the allocator and of access control are arguments. The window is left out, since
all grabs of a list are on it.
-/

namespace Xenia.Dix

open Xenia.Lib

/-! ### Data -/

/-- The levels of input. -/
inductive InputLevel
  | core
  | xi
  | xi2
  deriving DecidableEq

/-- A device there is. Only a slave may be floating. -/
inductive RealDevice
  | master (id : ℕ)
  | slave (id : ℕ)
  deriving DecidableEq

/-- `inputInfo.all_devices`, `inputInfo.all_master_devices`, or a device there is. -/
inductive Device
  | all
  | allMaster
  | one (dev : RealDevice)
  deriving DecidableEq

def inputDevIsMaster : Device → Bool
  | .one (.master _) => true
  | _ => false

abbrev DetailMask := BitVec 256

/-- An exact detail has no mask. -/
structure DetailRec where
  exact : ℕ
  pMask : Option DetailMask

def AnyKey : ℕ := 0
def XIAnyKeycode : ℕ := 0
def AnyModifier : ℕ := 2 ^ 15
def XIAnyModifier : ℕ := 2 ^ 31

/-- The event masks of XI2, one for each device. -/
abbrev XI2Mask := ℕ → BitVec 40

def xi2maskMerge (dest source : XI2Mask) : XI2Mask := fun dev => dest dev ||| source dev

/-- The ID of a resource, with the client it belongs to. -/
structure ResourceId where
  client : ℕ
  id : ℕ
  deriving DecidableEq

structure Grab where
  resource : ResourceId
  device : Device
  ownerEvents : BitVec 1
  keyboardMode : BitVec 1
  pointerMode : BitVec 1
  grabtype : InputLevel
  type : UInt8
  modifiersDetail : DetailRec
  modifierDevice : Device
  detail : DetailRec
  confineTo : Option ℕ
  cursor : Option ℕ
  eventMask : BitVec 32
  deviceMask : BitVec 32
  xi2mask : XI2Mask

/-- The parameters of a grab. -/
structure GrabParameters where
  ownerEvents : UInt32
  thisDeviceMode : UInt32
  otherDevicesMode : UInt32
  modifiers : UInt32

/-- The union `GrabMask`, as what it holds in its first four bytes and where it points to. -/
structure GrabMask where
  core : BitVec 32
  xi2mask : Option XI2Mask

def anyModifier : InputLevel → ℕ
  | .xi2 => XIAnyModifier
  | _ => AnyModifier

def anyKey : InputLevel → ℕ
  | .xi2 => XIAnyKeycode
  | _ => AnyKey

/-! ### Creating a grab -/

/-- `memory` is for the grab and its event masks. -/
def createGrab (resource : ResourceId) (device modDevice : Device) (grabtype : InputLevel) (mask : GrabMask)
    (param : GrabParameters) (eventType keybut : UInt8) (confineTo cursor : Option ℕ) (memory : Bool) :
    Outcome (Option Grab) :=
  if !memory then .ok none
  else
    let grab : Grab := {
      resource := resource
      device := device
      ownerEvents := .ofNat 1 param.ownerEvents.toNat
      keyboardMode := .ofNat 1 param.thisDeviceMode.toNat
      pointerMode := .ofNat 1 param.otherDevicesMode.toNat
      grabtype := grabtype
      type := eventType
      modifiersDetail := ⟨param.modifiers.toNat, none⟩
      modifierDevice := modDevice
      detail := ⟨keybut.toNat, none⟩
      confineTo := confineTo
      cursor := cursor
      eventMask := if grabtype = .core ∨ grabtype = .xi then mask.core else 0
      deviceMask := 0
      xi2mask := fun _ => 0 }
    if grabtype = .xi2 then
      match mask.xi2mask with
      | none => .error .fault
      | some source => .ok (some { grab with xi2mask := xi2maskMerge grab.xi2mask source })
    else .ok (some grab)

/-! ### Details -/

def getBit (mask : DetailMask) (i : ℕ) : Outcome Bool :=
  if i < 256 then .ok (mask.getLsbD i) else .error .fault

def deleteDetailFromMask (pDetailMask : Option DetailMask) (detail : ℕ) (memory : Bool) :
    Outcome (Option DetailMask) :=
  if !memory then .ok none
  else if detail < 256 then .ok (some (pDetailMask.getD (BitVec.allOnes 256) &&& ~~~BitVec.twoPow 256 detail))
  else .error .fault

def isInGrabMask (firstDetail secondDetail : DetailRec) (exception : ℕ) : Outcome Bool :=
  if firstDetail.exact = exception then
    match firstDetail.pMask with
    | none => .ok true
    | some mask => if secondDetail.exact = exception then .ok false else getBit mask secondDetail.exact
  else .ok false

def identicalExactDetails (firstExact secondExact exception : ℕ) : Bool :=
  if firstExact = exception ∨ secondExact = exception then false else firstExact = secondExact

def detailSupersedesSecond (firstDetail secondDetail : DetailRec) (exception : ℕ) : Outcome Bool :=
  isInGrabMask firstDetail secondDetail exception <||>
    .ok (identicalExactDetails firstDetail.exact secondDetail.exact exception)

def grabSupersedesSecond (pFirstGrab pSecondGrab : Grab) : Outcome Bool :=
  detailSupersedesSecond pFirstGrab.modifiersDetail pSecondGrab.modifiersDetail (anyModifier pFirstGrab.grabtype) <&&>
    detailSupersedesSecond pFirstGrab.detail pSecondGrab.detail AnyKey

/-- The comparison of the devices in `GrabMatchesSecond`. -/
def devicesMatch (pFirstGrab pSecondGrab : Grab) (ignoreDevice : Bool) : Bool :=
  if pFirstGrab.grabtype = .xi2 then
    if pFirstGrab.device = .all ∨ pSecondGrab.device = .all then true
    else if pFirstGrab.device = .allMaster then
      pSecondGrab.device = .allMaster ∨ inputDevIsMaster pSecondGrab.device
    else if pSecondGrab.device = .allMaster then
      pFirstGrab.device = .allMaster ∨ inputDevIsMaster pFirstGrab.device
    else pSecondGrab.device = pFirstGrab.device
  else ignoreDevice ∨ pFirstGrab.device = pSecondGrab.device ∧ pFirstGrab.modifierDevice = pSecondGrab.modifierDevice

def grabMatchesSecond (pFirstGrab pSecondGrab : Grab) (ignoreDevice : Bool) : Outcome Bool :=
  let any_modifier := anyModifier pFirstGrab.grabtype
  if pFirstGrab.grabtype ≠ pSecondGrab.grabtype then .ok false
  else if !devicesMatch pFirstGrab pSecondGrab ignoreDevice then .ok false
  else if pFirstGrab.type ≠ pSecondGrab.type then .ok false
  else
    grabSupersedesSecond pFirstGrab pSecondGrab <||> grabSupersedesSecond pSecondGrab pFirstGrab <||>
      (detailSupersedesSecond pSecondGrab.detail pFirstGrab.detail AnyKey <&&>
        detailSupersedesSecond pFirstGrab.modifiersDetail pSecondGrab.modifiersDetail any_modifier) <||>
      (detailSupersedesSecond pFirstGrab.detail pSecondGrab.detail AnyKey <&&>
        detailSupersedesSecond pSecondGrab.modifiersDetail pFirstGrab.modifiersDetail any_modifier)

def grabsAreIdentical (pFirstGrab pSecondGrab : Grab) : Outcome Bool :=
  let any_modifier := anyModifier pFirstGrab.grabtype
  if pFirstGrab.grabtype ≠ pSecondGrab.grabtype then .ok false
  else if pFirstGrab.device ≠ pSecondGrab.device ∨ pFirstGrab.modifierDevice ≠ pSecondGrab.modifierDevice ∨
      pFirstGrab.type ≠ pSecondGrab.type then .ok false
  else
    detailSupersedesSecond pFirstGrab.detail pSecondGrab.detail AnyKey <&&>
      detailSupersedesSecond pSecondGrab.detail pFirstGrab.detail AnyKey <&&>
      detailSupersedesSecond pFirstGrab.modifiersDetail pSecondGrab.modifiersDetail any_modifier <&&>
      detailSupersedesSecond pSecondGrab.modifiersDetail pFirstGrab.modifiersDetail any_modifier

/-! ### Taking a grab out of a list -/

/-- The list of the window, and the next ID of `FakeClientID`. -/
structure GrabState where
  passiveGrabs : List Grab
  nextId : ℕ

/-- Which mask of a grab is changed. -/
inductive DetailField
  | modifiers
  | detail
  deriving DecidableEq

def Grab.field (grab : Grab) : DetailField → DetailRec
  | .modifiers => grab.modifiersDetail
  | .detail => grab.detail

def Grab.setMask (grab : Grab) (field : DetailField) (mask : DetailMask) : Grab :=
  match field with
  | .modifiers => { grab with modifiersDetail := { grab.modifiersDetail with pMask := some mask } }
  | .detail => { grab with detail := { grab.detail with pMask := some mask } }

/-- For a grab on the list: whether there is memory for the changed mask, for a grab that is
split off, for its mask, for the optional part of the window and for the resource. -/
structure SplitAnswers where
  update : Bool
  grab : Bool
  mask : Bool
  optional : Bool
  resource : Bool

/-- Whether there is memory for the four arrays, and for each grab on the list. -/
structure DeleteAnswers where
  arrays : Bool
  split : ResourceId → SplitAnswers

/-- What `DeletePassiveGrabFromList` has gathered, to be able to back out. -/
structure Staged where
  deletes : List ResourceId
  adds : List Grab
  updates : List (ResourceId × DetailField × DetailMask)
  nextId : ℕ
  ok : Bool

/-- The macro `UPDATE`. -/
def Staged.update (staged : Staged) (grab : Grab) (field : DetailField) (exact : ℕ) (memory : Bool) :
    Outcome Staged := do
  match ← deleteDetailFromMask (grab.field field).pMask exact memory with
  | none => return { staged with ok := false }
  | some mask => return { staged with updates := staged.updates ++ [(grab.resource, field, mask)] }

/-- The pointer to `eventMask` that is passed on as a `GrabMask`: its bytes are `eventMask` and
`deviceMask`, which are no pointer to event masks of XI2. -/
def Grab.eventMaskAsGrabMask (grab : Grab) : GrabMask := ⟨grab.eventMask, none⟩

/-- The grab without any modifiers excepted that takes over the detail of the minuend. -/
def splitGrab (pMinuendGrab grab : Grab) (nextId : ℕ) (memory : Bool) : Outcome (Option Grab) :=
  let param : GrabParameters := {
    ownerEvents := .ofNat grab.ownerEvents.toNat
    thisDeviceMode := .ofNat grab.keyboardMode.toNat
    otherDevicesMode := .ofNat grab.pointerMode.toNat
    modifiers := .ofNat (anyModifier pMinuendGrab.grabtype) }
  createGrab ⟨grab.resource.client, nextId⟩ grab.device grab.modifierDevice grab.grabtype grab.eventMaskAsGrabMask
    param grab.type (.ofNat pMinuendGrab.detail.exact) grab.confineTo grab.cursor memory

/-- The branch of `DeletePassiveGrabFromList` that splits a grab. -/
def Staged.split (staged : Staged) (pMinuendGrab grab : Grab) (a : SplitAnswers) : Outcome Staged := do
  let staged ← staged.update grab .detail pMinuendGrab.detail.exact a.update
  match ← splitGrab pMinuendGrab grab staged.nextId a.grab with
  | none => return { staged with ok := false }
  | some pNewGrab =>
    let staged := { staged with nextId := staged.nextId + 1 }
    match ← deleteDetailFromMask grab.modifiersDetail.pMask pMinuendGrab.modifiersDetail.exact a.mask with
    | none => return { staged with ok := false }
    | some mask =>
      if !a.optional || !a.resource then return { staged with ok := false }
      else return { staged with adds := staged.adds ++ [pNewGrab.setMask .modifiers mask] }

/-- The loop of `DeletePassiveGrabFromList`, for one grab. -/
def Staged.grab (staged : Staged) (pMinuendGrab grab : Grab) (a : SplitAnswers) : Outcome Staged := do
  let any_modifier := anyModifier pMinuendGrab.grabtype
  let any_key := anyKey pMinuendGrab.grabtype
  if grab.resource.client ≠ pMinuendGrab.resource.client then return staged
  else if !(← grabMatchesSecond grab pMinuendGrab (grab.grabtype = .core)) then return staged
  else if ← grabSupersedesSecond pMinuendGrab grab then
    return { staged with deletes := staged.deletes ++ [grab.resource] }
  else if grab.detail.exact = any_key ∧ grab.modifiersDetail.exact ≠ any_modifier then
    staged.update grab .detail pMinuendGrab.detail.exact a.update
  else if grab.modifiersDetail.exact = any_modifier ∧ grab.detail.exact ≠ any_key then
    staged.update grab .modifiers pMinuendGrab.modifiersDetail.exact a.update
  else if pMinuendGrab.detail.exact ≠ any_key ∧ pMinuendGrab.modifiersDetail.exact ≠ any_modifier then
    staged.split pMinuendGrab grab a
  else if pMinuendGrab.detail.exact = any_key then
    staged.update grab .modifiers pMinuendGrab.modifiersDetail.exact a.update
  else staged.update grab .detail pMinuendGrab.detail.exact a.update

def stageGrabs (pMinuendGrab : Grab) (a : DeleteAnswers) : List Grab → Staged → Outcome Staged
  | [], staged => .ok staged
  | grab :: rest, staged =>
    if !staged.ok then .ok staged
    else do
      let staged ← staged.grab pMinuendGrab grab (a.split grab.resource)
      stageGrabs pMinuendGrab a rest staged

/-- `*updates[j] = details[j]`. -/
def applyUpdate (grabs : List Grab) (update : ResourceId × DetailField × DetailMask) : List Grab :=
  grabs.map fun grab => if grab.resource = update.1 then grab.setMask update.2.1 update.2.2 else grab

/-- What is gathered is put into effect. -/
def Staged.commit (staged : Staged) (grabs : List Grab) : List Grab :=
  let grabs := grabs.filter fun grab => !staged.deletes.contains grab.resource
  let grabs := staged.adds.reverse ++ grabs
  staged.updates.foldl applyUpdate grabs

def deletePassiveGrabFromList (pMinuendGrab : Grab) (a : DeleteAnswers) (st : GrabState) :
    Outcome (GrabState × Bool) :=
  if st.passiveGrabs = [] then .ok (st, true)
  else if !a.arrays then .ok (st, false)
  else do
    let staged ← stageGrabs pMinuendGrab a st.passiveGrabs ⟨[], [], [], st.nextId, true⟩
    if staged.ok then return (⟨staged.commit st.passiveGrabs, staged.nextId⟩, true)
    else return ({ st with nextId := staged.nextId }, false)

/-! ### Adding a grab to a list -/

/-- The verdict of access control, the answers for the grab that is taken out, and whether there
is memory for the optional part of the window and for the resource. -/
structure AddAnswers where
  access : Status
  delete : DeleteAnswers
  optional : Bool
  resource : Bool

/-- Whether a grab of another client matches. -/
def grabDenied (pGrab : Grab) : List Grab → Outcome Bool
  | [] => .ok false
  | grab :: rest => do
    if (← grabMatchesSecond pGrab grab (pGrab.grabtype = .core)) && pGrab.resource.client ≠ grab.resource.client then
      return true
    else grabDenied pGrab rest

/-- The first grab that is identical. -/
def findIdentical (pGrab : Grab) : List Grab → Outcome (Option Grab)
  | [] => .ok none
  | grab :: rest => do
    if ← grabsAreIdentical pGrab grab then return some grab else findIdentical pGrab rest

/-- The grab that is identical is taken out; whether that succeeds is not looked at. -/
def deleteIdentical (pGrab : Grab) (a : DeleteAnswers) (st : GrabState) : Outcome GrabState := do
  match ← findIdentical pGrab st.passiveGrabs with
  | none => return st
  | some grab => return (← deletePassiveGrabFromList grab a st).1

def addPassiveGrabToList (pGrab : Grab) (a : AddAnswers) (st : GrabState) : Outcome (GrabState × Status) := do
  if ← grabDenied pGrab st.passiveGrabs then return (st, BadAccess)
  else if a.access ≠ Success then return (st, a.access)
  else
    let st ← deleteIdentical pGrab a.delete st
    if !a.optional then return (st, BadAlloc)
    -- a grab whose resource cannot be added is taken off the list again
    else if !a.resource then return (st, BadAlloc)
    else return ({ st with passiveGrabs := pGrab :: st.passiveGrabs }, Success)

/-! ### Runs -/

/-- What a request to grab asks for; `mask` is for the core and XI levels. -/
structure GrabRequest where
  client : ℕ
  device : Device
  modDevice : Device
  grabtype : InputLevel
  mask : BitVec 32
  xi2mask : XI2Mask
  param : GrabParameters
  type : UInt8
  detail : UInt8
  confineTo : Option ℕ
  cursor : Option ℕ

/-- What a request to ungrab asks for. -/
structure UngrabRequest where
  client : ℕ
  device : Device
  modDevice : Device
  grabtype : InputLevel
  type : UInt8
  detail : UInt8
  modifiers : UInt32

/-- The temporary grab of a request to ungrab. -/
def UngrabRequest.tempGrab (r : UngrabRequest) : Grab where
  resource := ⟨r.client, 0⟩
  device := r.device
  ownerEvents := 0
  keyboardMode := 0
  pointerMode := 0
  grabtype := r.grabtype
  type := r.type
  modifiersDetail := ⟨r.modifiers.toNat, none⟩
  modifierDevice := r.modDevice
  detail := ⟨r.detail.toNat, none⟩
  confineTo := none
  cursor := none
  eventMask := 0
  deviceMask := 0
  xi2mask := fun _ => 0

/-- A request to grab: `CreateGrab` and `AddPassiveGrabToList`. -/
def procGrab (r : GrabRequest) (memory : Bool) (a : AddAnswers) (st : GrabState) : Outcome (GrabState × Status) := do
  match ← createGrab ⟨r.client, st.nextId⟩ r.device r.modDevice r.grabtype ⟨r.mask, some r.xi2mask⟩ r.param r.type
    r.detail r.confineTo r.cursor memory with
  | none => return (st, BadAlloc)
  | some grab => addPassiveGrabToList grab a { st with nextId := st.nextId + 1 }

/-- A client that exits takes its grabs with it. -/
inductive GrabOp
  | grab (r : GrabRequest) (memory : Bool) (a : AddAnswers)
  | ungrab (r : UngrabRequest) (a : DeleteAnswers)
  | freeResource (resource : ResourceId)

def grabStep (run : Outcome GrabState) (op : GrabOp) : Outcome GrabState := do
  let st ← run
  match op with
  | .grab r memory a => return (← procGrab r memory a st).1
  | .ungrab r a => return (← deletePassiveGrabFromList r.tempGrab a st).1
  | .freeResource resource =>
    return { st with passiveGrabs := st.passiveGrabs.filter fun grab => grab.resource ≠ resource }

def noGrabs : Outcome GrabState := .ok ⟨[], 1⟩

end Xenia.Dix
