import Xenia.Lib.Blocks
import Xenia.Lib.Mem
import Xenia.Lib.Run

/-!
# Private storage of objects

Drivers and extensions register keys; each key is a range of bytes in the private area of every
object of the key's type. The offsets come from one counter for each type (`globalKeys`) and, for
the types of which a screen can have keys of its own, one for each screen and type
(`screenSpecificPrivates`). Keys of the type `xselinux` lie at the start of the areas of many
types. Registering a key late grows, and for `xselinux` moves, the areas of the objects that
exist: `dixRegisterPrivateKey`.

A private key record is the list element that carries it; its handle is `id`. An area is the list
of its bytes (the null pointer is the empty area). `none` is a failed assertion or a fatal error.
-/

namespace Xenia.Dix.Privates

open Xenia.Lib

inductive DevPrivateType
  | xselinux
  -- these can have objects created before all of the keys are registered
  | screen | extension | colormap | device
  -- these cannot have any objects before all relevant keys are registered
  | client | property | selection | window | pixmap | gc | cursor | cursorBits
  -- extension privates
  | glyph | glyphset | picture | syncFence
  deriving DecidableEq

namespace DevPrivateType

/-- In the order of the enumeration. -/
def types : List DevPrivateType :=
  [xselinux, screen, extension, colormap, device, client, property, selection, window, pixmap, gc, cursor,
    cursorBits, glyph, glyphset, picture, syncFence]

theorem mem_types (t : DevPrivateType) : t ∈ types := by cases t <;> decide

theorem nodup_types : types.Nodup := by decide

/-- The types whose areas start with the keys of type `xselinux`. -/
def xselinuxPrivate (t : DevPrivateType) : Bool :=
  t ∈ [screen, client, window, pixmap, gc, cursor, colormap, device, extension, selection, property, picture,
    glyphset]

def screenSpecificPrivate (t : DevPrivateType) : Bool := t ∈ [window, pixmap, gc, picture]

/-- The types whose objects `dixAllocateObjectWithPrivates` allocates. -/
def looseType (t : DevPrivateType) : Bool :=
  t ∈ [client, property, selection, cursor, cursorBits, colormap, glyph, glyphset, syncFence]

end DevPrivateType

open DevPrivateType

/-! ### Keys, sets of keys, objects -/

structure DevPrivateKeyRec where
  id : ℕ
  offset : ℤ
  size : ℤ
  type : DevPrivateType

/-- The size of a pointer. -/
def POINTER : ℕ := 8

/-- The bytes a key is read and written with: its own storage, or one pointer. -/
def DevPrivateKeyRec.extent (k : DevPrivateKeyRec) : ℤ := if k.size = 0 then POINTER else k.size

structure DevPrivateSetRec where
  key : List DevPrivateKeyRec := []
  offset : ℕ := 0
  created : ℤ := 0

/-- A screen; `num` is the number of its object. -/
structure ScreenRec where
  num : ℕ
  screenSpecificPrivates : DevPrivateType → DevPrivateSetRec
  defColormap : Option ℕ := none

/-- An object with a private area. `screen` is the number of the screen that the areas of the
screen specific types are laid out for. -/
structure Object where
  type : DevPrivateType
  screen : Option ℕ := none
  num : ℕ
  deriving DecidableEq

/-- `RESERVED_EXTENSIONS`. -/
def RESERVED_EXTENSIONS : ℕ := 37

structure State where
  globalKeys : DevPrivateType → DevPrivateSetRec := fun _ => {}
  screens : List ScreenRec := []
  gpuScreens : List ScreenRec := []
  serverClient : Option ℕ := none
  extensions : List (Option ℕ) := List.replicate RESERVED_EXTENSIONS none
  devices : List ℕ := []
  offDevices : List ℕ := []
  live : List Object := []
  area : Object → List Byte := fun _ => []
  next : ℕ := 0

def State.allScreens (s : State) : List ScreenRec := s.screens ++ s.gpuScreens

def State.screen? (s : State) (num : ℕ) : Option ScreenRec := s.allScreens.find? (·.num = num)

def State.mapScreens (s : State) (f : ScreenRec → ScreenRec) : State :=
  { s with screens := s.screens.map f, gpuScreens := s.gpuScreens.map f }

/-- What is done to the screen of a number. -/
def State.updateScreen (s : State) (num : ℕ) (f : ScreenRec → ScreenRec) : State :=
  s.mapScreens fun scr => if scr.num = num then f scr else scr

/-- Every key record, in the sets of the types and of the screens. -/
def State.allKeys (s : State) : List DevPrivateKeyRec :=
  types.flatMap (fun t => (s.globalKeys t).key) ++
    s.allScreens.flatMap fun scr => types.flatMap fun t => (scr.screenSpecificPrivates t).key

/-- `key.initialized`: the record has been registered. -/
def State.registered (s : State) (id : ℕ) : Option DevPrivateKeyRec := s.allKeys.find? (·.id = id)

/-! ### Growing and moving areas -/

/-- What is done to the area of an object, given an offset and a number of bytes. -/
abbrev FixupFunc := Object → List Byte → ℕ → ℕ → Option (List Byte)

/-- `realloc` by `alloc`, which answers once for each object, and zeros in the new bytes. -/
def dixReallocPrivates (alloc : Object → Option (ℕ → Byte)) : FixupFunc := fun o privates oldOffset bytes =>
  (grow (alloc o) privates ((oldOffset + bytes) % 2 ^ 32)).map fun newPrivates =>
    memWrite newPrivates oldOffset (List.replicate bytes 0)

/-- Everything moves up by `bytes`. -/
def dixMovePrivates : FixupFunc := fun _ privates newOffset bytes =>
  let moved := memWrite privates bytes (privates.take ((newOffset + 2 ^ 32 - bytes) % 2 ^ 32))
  some (memWrite moved 0 (List.replicate bytes 0))

/-- The fixup of one object after the other, up to the first that fails. -/
def fixupEach (fixup : FixupFunc) (bytes : ℕ) :
    List (Object × ℕ) → (Object → List Byte) → (Object → List Byte) × Bool
  | [], area => (area, true)
  | (o, offset) :: os, area =>
    match fixup o (area o) offset bytes with
    | none => (area, false)
    | some privates => fixupEach fixup bytes os (Function.update area o privates)

/-- Screens, then GPU screens. -/
def fixupScreens (s : State) : List (Object × ℕ) :=
  s.allScreens.map fun scr => ({ type := screen, num := scr.num }, (s.globalKeys screen).offset)

def fixupServerClient (s : State) : List (Object × ℕ) :=
  s.serverClient.toList.map fun num => ({ type := client, num }, (s.globalKeys client).offset)

def GetExtensionEntry (s : State) (slot : ℕ) : Option ℕ := (s.extensions[slot]?).join

/-- From `EXTENSION_BASE` on up to the first major opcode without an entry, which is past 255 at the
latest: the `ubyte` wraps round to an opcode below `EXTENSION_BASE`. -/
def fixupExtensions (s : State) : List (Object × ℕ) :=
  (((List.range 128).map (GetExtensionEntry s)).takeWhile Option.isSome).reduceOption.map
    fun num => ({ type := extension, num }, (s.globalKeys extension).offset)

/-- The default colormaps of the screens that are not GPU screens. -/
def fixupDefaultColormaps (s : State) : List (Object × ℕ) :=
  s.screens.filterMap fun scr => scr.defColormap.map fun num =>
    ({ type := colormap, num }, (scr.screenSpecificPrivates colormap).offset)

def fixupDevices (s : State) : List (Object × ℕ) :=
  (s.devices ++ s.offDevices).map fun num => ({ type := device, num }, (s.globalKeys device).offset)

/-- The objects of a type that can have objects before all keys are registered, each with the
offset its fixup is called with. -/
def allocatedEarly (t : DevPrivateType) : Option (State → List (Object × ℕ)) :=
  match t with
  | screen => some fixupScreens
  | client => some fixupServerClient
  | extension => some fixupExtensions
  | colormap => some fixupDefaultColormaps
  | device => some fixupDevices
  | _ => none

/-! ### Registration -/

def growPrivateSet (bytes : ℕ) (set : DevPrivateSetRec) : DevPrivateSetRec :=
  { set with
    key := set.key.map fun k => { k with offset := wrapInt (k.offset + bytes) }
    offset := (set.offset + bytes) % 2 ^ 32 }

def ScreenRec.grow (t : DevPrivateType) (bytes : ℕ) (scr : ScreenRec) : ScreenRec :=
  { scr with
    screenSpecificPrivates := Function.update scr.screenSpecificPrivates t
      (growPrivateSet bytes (scr.screenSpecificPrivates t)) }

def growScreenSpecificSet (t : DevPrivateType) (bytes : ℕ) (s : State) : State := s.mapScreens (·.grow t bytes)

/-- The space for a key, in whole pointers. -/
def requiredSpace (size : BitVec 32) : ℕ :=
  ((if size = 0 then POINTER else size.toNat) + POINTER - 1) % 2 ^ 32 / POINTER * POINTER

/-- Resize if we can, or make sure nothing's allocated if we can't. -/
def resizeType (alloc : Object → Option (ℕ → Byte)) (bytes : ℕ) (t : DevPrivateType) (s : State) :
    Option (State × Bool) :=
  match allocatedEarly t with
  | none => if (s.globalKeys t).created = 0 then some (s, true) else none
  | some objects =>
    let (area, ok) := fixupEach (dixReallocPrivates alloc) bytes (objects s) s.area
    some ({ s with area }, ok)

def resizeXselinux (alloc : Object → Option (ℕ → Byte)) (bytes : ℕ) :
    List DevPrivateType → State → Option (State × Bool)
  | [], s => some (s, true)
  | t :: ts, s =>
    if t.xselinuxPrivate then
      match resizeType alloc bytes t s with
      | none => none
      | some (s, false) => some (s, false)
      | some (s, true) => resizeXselinux alloc bytes ts s
    else resizeXselinux alloc bytes ts s

def growGlobalSet (t : DevPrivateType) (bytes : ℕ) (s : State) : State :=
  { s with globalKeys := Function.update s.globalKeys t (growPrivateSet bytes (s.globalKeys t)) }

/-- Move all existing keys of a type up to make room for a new `xselinux` key. -/
def moveType (bytes : ℕ) (t : DevPrivateType) (s : State) : State :=
  if t.xselinuxPrivate then
    let s := growScreenSpecificSet t bytes (growGlobalSet t bytes s)
    match allocatedEarly t with
    | none => s
    | some objects => { s with area := (fixupEach dixMovePrivates bytes (objects s) s.area).1 }
  else s

/-- Setup this key. -/
def addGlobalKey (t : DevPrivateType) (k : DevPrivateKeyRec) (s : State) : State :=
  { s with globalKeys := Function.update s.globalKeys t { s.globalKeys t with key := k :: (s.globalKeys t).key } }

def dixRegisterPrivateKey (alloc : Object → Option (ℕ → Byte)) (id : ℕ) (t : DevPrivateType)
    (size : BitVec 32) (s : State) : Option (State × Bool) :=
  match s.registered id with
  | some k => if k.size = wrapInt size.toNat then some (s, true) else none
  | none =>
    let bytes := requiredSpace size
    if t = xselinux then
      match resizeXselinux alloc bytes types s with
      | none => none
      | some (s, false) => some (s, false)
      | some (s, true) =>
        let s := types.foldl (fun s t => moveType bytes t s) s
        some (addGlobalKey t { id, offset := 0, size := wrapInt size.toNat, type := t } s, true)
    else
      match resizeType alloc bytes t s with
      | none => none
      | some (s, false) => some (s, false)
      | some (s, true) =>
        let offset := (s.globalKeys t).offset
        let set := { s.globalKeys t with offset := (offset + bytes) % 2 ^ 32 }
        let s := growScreenSpecificSet t bytes { s with globalKeys := Function.update s.globalKeys t set }
        some (addGlobalKey t { id, offset := wrapInt offset, size := wrapInt size.toNat, type := t } s, true)

def ScreenRec.addKey (id : ℕ) (t : DevPrivateType) (size : BitVec 32) (scr : ScreenRec) : ScreenRec :=
  let set := scr.screenSpecificPrivates t
  let k := { id, offset := wrapInt set.offset, size := wrapInt size.toNat, type := t }
  { scr with
    screenSpecificPrivates := Function.update scr.screenSpecificPrivates t
      { set with offset := (set.offset + requiredSpace size) % 2 ^ 32, key := k :: set.key } }

/-- A key for the objects of one screen. -/
def dixRegisterScreenSpecificPrivateKey (num id : ℕ) (t : DevPrivateType) (size : BitVec 32) (s : State) :
    Option State :=
  if !t.screenSpecificPrivate then none
  else match s.registered id with
  | some k => if k.size = wrapInt size.toNat then some s else none
  | none =>
    match s.screen? num with
    | none => some s
    | some scr =>
      if (allocatedEarly t).isSome ∨ (scr.screenSpecificPrivates t).created ≠ 0 then none
      else some (s.updateScreen num (·.addKey id t size))

/-! ### Objects -/

/-- One more object of the type, which the `xselinux` keys apply to as well. -/
def countCreated (d : ℤ) (t : DevPrivateType) (globalKeys : DevPrivateType → DevPrivateSetRec) :
    DevPrivateType → DevPrivateSetRec := fun u =>
  if u = t ∨ u = xselinux ∧ t.xselinuxPrivate then
    { globalKeys u with created := wrapInt ((globalKeys u).created + d) }
  else globalKeys u

/-- The new object, its area of `size` bytes cleared. -/
def addObject (o : Object) (size : ℕ) (s : State) : State :=
  { s with
    globalKeys := countCreated 1 o.type s.globalKeys
    live := o :: s.live
    area := Function.update s.area o (List.replicate size 0)
    next := s.next + 1 }

/-- `dixAllocatePrivates`, or an object allocated together with its area. Only an area of no bytes
needs no memory. -/
def dixAllocatePrivates (t : DevPrivateType) (ok : Bool) (s : State) : Option State :=
  let size := (s.globalKeys t).offset
  if size = 0 ∨ ok then some (addObject { type := t, num := s.next } size s) else none

/-- `MAXSCREENS` and `MAXGPUSCREENS`. -/
def MAXSCREENS : ℕ := 16

/-- `AddScreen` and `AddGPUScreen`. -/
def AddScreen (gpu ok : Bool) (s : State) : State :=
  let scr : ScreenRec := { num := s.next, screenSpecificPrivates := fun t => { offset := (s.globalKeys t).offset } }
  if (if gpu then s.gpuScreens else s.screens).length = MAXSCREENS then s
  else
    match dixAllocatePrivates screen ok s with
    | none => s
    | some s =>
      if gpu then { s with gpuScreens := s.gpuScreens ++ [scr] } else { s with screens := s.screens ++ [scr] }

def createServerClient (ok : Bool) (s : State) : State :=
  if s.serverClient.isSome then s
  else
    match dixAllocatePrivates client ok s with
    | none => s
    | some s' => { s' with serverClient := some s.next }

/-- `slot` is the reserved slot of the extension, if it has one. -/
def AddExtension (slot : Option ℕ) (ok : Bool) (s : State) : State :=
  match dixAllocatePrivates extension ok s with
  | none => s
  | some s' =>
    match slot with
    | none => { s' with extensions := s.extensions ++ [some s.next] }
    | some i => { s' with extensions := s.extensions.set i (some s.next) }

def AddInputDevice (ok : Bool) (s : State) : State :=
  match dixAllocatePrivates device ok s with
  | none => s
  | some s' => { s' with offDevices := s.offDevices ++ [s.next] }

/-- A device goes from the list of devices that are off to the end of the other list. -/
def EnableDevice (num : ℕ) (s : State) : State :=
  if num ∈ s.offDevices then { s with devices := s.devices ++ [num], offDevices := s.offDevices.erase num } else s

/-- The default colormap of a screen, which is made once. -/
def createDefColormap (num : ℕ) (ok : Bool) (s : State) : State :=
  match s.screen? num with
  | none => s
  | some scr =>
    if scr.defColormap.isSome then s
    else
      match dixAllocatePrivates colormap ok s with
      | none => s
      | some s' => s'.updateScreen num fun scr => { scr with defColormap := some s.next }

/-- `_dixAllocateObjectWithPrivates`, for the types whose objects are allocated so. -/
def dixAllocateObjectWithPrivates (t : DevPrivateType) (ok : Bool) (s : State) : State :=
  if t.looseType ∧ ok then addObject { type := t, num := s.next } (s.globalKeys t).offset s else s

def ScreenRec.countCreated (t : DevPrivateType) (scr : ScreenRec) : ScreenRec :=
  let set := scr.screenSpecificPrivates t
  { scr with
    screenSpecificPrivates := Function.update scr.screenSpecificPrivates t
      { set with created := wrapInt (set.created + 1) } }

/-- `_dixAllocateScreenObjectWithPrivates`; the screen is null for pictures without a drawable. -/
def dixAllocateScreenObjectWithPrivates (pScreen : Option ℕ) (t : DevPrivateType) (ok : Bool) (s : State) :
    Option State :=
  if !t.screenSpecificPrivate then none
  else if !ok then some s
  else
    match pScreen with
    | none => some (addObject { type := t, num := s.next } (s.globalKeys t).offset s)
    | some num =>
      match s.screen? num with
      | none => some s
      | some scr =>
        let s' := addObject { type := t, screen := some num, num := s.next } (scr.screenSpecificPrivates t).offset s
        some (s'.updateScreen num (·.countCreated t))

/-- `dixFreeObjectWithPrivates`, of an object that no table of the server holds. -/
def dixFreeObjectWithPrivates (o : Object) (s : State) : State :=
  if o ∈ s.live ∧ (o.type.looseType ∨ o.type.screenSpecificPrivate) ∧ s.serverClient ≠ some o.num ∧
      (∀ scr ∈ s.allScreens, scr.defColormap ≠ some o.num) then
    { s with globalKeys := countCreated (-1) o.type s.globalKeys, live := s.live.erase o }
  else s

/-! ### Reading and writing -/

/-- The keys that apply to an object. -/
def keysOf (s : State) (o : Object) : List DevPrivateKeyRec :=
  ((o.screen.bind s.screen?).elim [] fun scr => (scr.screenSpecificPrivates o.type).key) ++
    (s.globalKeys o.type).key ++ if o.type.xselinuxPrivate then (s.globalKeys xselinux).key else []

/-- What is read through a key. -/
def contents (s : State) (o : Object) (k : DevPrivateKeyRec) : List Byte :=
  ((s.area o).drop k.offset.toNat).take k.extent.toNat

/-- The owner of a key stores into its range. -/
def setPrivate (o : Object) (id : ℕ) (bytes : List Byte) (s : State) : State :=
  match (keysOf s o).find? (·.id = id) with
  | none => s
  | some k =>
    if bytes.length = k.extent.toNat then
      { s with area := Function.update s.area o (memWrite (s.area o) k.offset.toNat bytes) }
    else s

/-! ### Runs -/

inductive Op
  | registerKey (alloc : Object → Option (ℕ → Byte)) (id : ℕ) (t : DevPrivateType) (size : BitVec 32)
  | registerScreenKey (num id : ℕ) (t : DevPrivateType) (size : BitVec 32)
  | addScreen (gpu ok : Bool)
  | serverClient (ok : Bool)
  | addExtension (slot : Option ℕ) (ok : Bool)
  | addDevice (ok : Bool)
  | enableDevice (num : ℕ)
  | defColormap (num : ℕ) (ok : Bool)
  | allocate (t : DevPrivateType) (ok : Bool)
  | allocateOnScreen (pScreen : Option ℕ) (t : DevPrivateType) (ok : Bool)
  | free (o : Object)
  | write (o : Object) (id : ℕ) (bytes : List Byte)

def exec (s : State) : Op → Option State
  | .registerKey alloc id t size => (dixRegisterPrivateKey alloc id t size s).map Prod.fst
  | .registerScreenKey num id t size => dixRegisterScreenSpecificPrivateKey num id t size s
  | .addScreen gpu ok => some (AddScreen gpu ok s)
  | .serverClient ok => some (createServerClient ok s)
  | .addExtension slot ok => some (AddExtension slot ok s)
  | .addDevice ok => some (AddInputDevice ok s)
  | .enableDevice num => some (EnableDevice num s)
  | .defColormap num ok => some (createDefColormap num ok s)
  | .allocate t ok => some (dixAllocateObjectWithPrivates t ok s)
  | .allocateOnScreen pScreen t ok => dixAllocateScreenObjectWithPrivates pScreen t ok s
  | .free o => some (dixFreeObjectWithPrivates o s)
  | .write o id bytes => some (setPrivate o id bytes s)

/-- A server whose assertion failed makes no more steps. -/
def step (s : Option State) (op : Op) : Option State := s.bind fun s => exec s op

end Xenia.Dix.Privates
