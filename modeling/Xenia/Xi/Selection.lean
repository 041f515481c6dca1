import Mathlib.Tactic
import Xenia.Lib.Run
import Xenia.Dix.Protocol

/-!
# Selecting extension events

What clients of the input extension select on windows: `SelectForWindow`,
`DeviceEventSuppressForWindow` and `XISetEventMask`, the summary that
`RecalculateDeviceDeliverableEvents` keeps for each window, and `InputClientGone`, which the
resource manager calls for each record of a client that exits. The answers of the allocator
are arguments; a step that touches memory that was freed, or that does not come back, has no
result.
-/

namespace Xenia.Xi

open Xenia.Lib Xenia.Dix

abbrev Mask := BitVec 32

def EMASKSIZE : ℕ := 256 + 2

instance : NeZero EMASKSIZE := ⟨by decide⟩

abbrev DeviceId := Fin EMASKSIZE

abbrev WindowId := ℕ

/-! ### Window trees -/

/-- A window and its children, from the first to the last. -/
inductive WindowTree
  | node (id : WindowId) (children : List WindowTree)

mutual

/-- The windows of a tree, each before its children, with the windows above it from its
parent on. -/
def WindowTree.preorder (above : List WindowId) : WindowTree → List (WindowId × List WindowId)
  | .node id children => (id, above) :: preorderAll (id :: above) children

def preorderAll (above : List WindowId) : List WindowTree → List (WindowId × List WindowId)
  | [] => []
  | t :: ts => t.preorder above ++ preorderAll above ts

end

def WindowTree.windows (tree : WindowTree) : List WindowId := (tree.preorder []).map Prod.fst

/-- A window of the tree. -/
abbrev WindowTree.Window (tree : WindowTree) := { w : WindowId // w ∈ tree.windows }

/-- The windows a walk from `pWin` comes to, over `firstChild`, `nextSib` and `parent`. -/
def WindowTree.walk (tree : WindowTree) (pWin : WindowId) : List (WindowId × List WindowId) :=
  (tree.preorder []).filter fun x => x.1 = pWin ∨ pWin ∈ x.2

/-! ### Masks -/

/-- A resource ID: the bits of the client, and the others. -/
structure XID where
  client : ℕ
  serial : ℕ
  deriving DecidableEq

abbrev XI2Mask := DeviceId → BitVec 40

structure InputClients where
  resource : XID
  mask : DeviceId → Mask
  xi2mask : XI2Mask

structure OtherInputMasks where
  deliverableEvents : DeviceId → Mask
  inputEvents : DeviceId → Mask
  dontPropagateMask : DeviceId → Mask
  inputClients : List InputClients
  xi2mask : XI2Mask

/-- `wOtherInputMasks` of each window. -/
abbrev WindowMasks := WindowId → Option OtherInputMasks

/-- What the functions here look at of a device: its number, whether it has valuators and
whether it is grabbed. -/
structure Device where
  id : DeviceId
  valuator : Bool
  grab : Bool

structure InputState where
  masks : WindowMasks
  motionHintWindow : DeviceId → Option WindowId
  /-- the next ID of `FakeClientID`, for each client; the server is client 0 -/
  fakeID : ℕ → ℕ

/-- The answers to `AddExtensionClient`: whether there is memory for the optional part of the
window, the record, the masks of the window, their XI2 masks, the XI2 masks of the record and
the entry of the resource manager. -/
structure AllocAnswers where
  optional : Bool
  inputClient : Bool
  inputMasks : Bool
  xi2mask : Bool
  resource : Bool

def XIPropagateMask : Mask := 0x4f
def DevicePointerMotionHintMask : Mask := 0x80

/-- One window of the walk. -/
def recalculateWindow (masks : WindowMasks) (x : WindowId × List WindowId) : WindowMasks :=
  match masks x.1 with
  | none => masks
  | some inputMasks =>
    -- the old summary is the start of the new one
    let inputEvents i :=
      inputMasks.inputClients.foldl (fun e others => e ||| others.mask i) (inputMasks.inputEvents i)
    let deliverableEvents i := x.2.foldl (fun e tmp =>
      match masks tmp with
      | none => e
      | some above =>
        e ||| (above.deliverableEvents i &&& ~~~inputMasks.dontPropagateMask i &&& XIPropagateMask))
      (inputEvents i)
    Function.update masks x.1 (some { inputMasks with
      inputEvents := inputEvents
      deliverableEvents := deliverableEvents
      xi2mask := fun i => inputMasks.inputClients.foldl (fun e others => e ||| others.xi2mask i) 0 })

def recalculateDeviceDeliverableEvents (tree : WindowTree) (pWin : WindowId) (st : InputState) :
    InputState :=
  { st with masks := (tree.walk pWin).foldl recalculateWindow st.masks }

def shouldFreeInputMasks (inputMasks : OtherInputMasks) (ignoreSelectedEvents : Bool) : Bool :=
  decide (∀ i, inputMasks.dontPropagateMask i = 0 ∧
    (ignoreSelectedEvents = false → inputMasks.inputEvents i = 0))

def setMasks (pWin : WindowId) (inputMasks : Option OtherInputMasks) (st : InputState) : InputState :=
  { st with masks := Function.update st.masks pWin inputMasks }

def inputClientGone (tree : WindowTree) (pWin : WindowId) (id : XID) (st : InputState) :
    Option InputState :=
  match st.masks pWin with
  | none => some st
  | some mask =>
    if mask.inputClients.any fun other => other.resource = id then
      some <| recalculateDeviceDeliverableEvents tree pWin <|
        match mask.inputClients with
        | [other] =>
          if shouldFreeInputMasks mask true then setMasks pWin none st
          else
            -- the record stays, under an ID of the server
            { setMasks pWin (some { mask with
                inputClients := [{ other with resource := ⟨0, st.fakeID 0⟩ }] }) st with
              fakeID := Function.update st.fakeID 0 (st.fakeID 0 + 1) }
        | others => setMasks pWin (some { mask with
            inputClients := others.eraseP fun other => other.resource = id }) st
    else none

/-- A new `OtherInputMasks`, as `MakeInputMasks` leaves it. -/
def newInputMasks : OtherInputMasks := ⟨fun _ => 0, fun _ => 0, fun _ => 0, [], fun _ => 0⟩

def addExtensionClient (pWin : WindowId) (client : ℕ) (mask : Mask) (mskidx : DeviceId) (a : AllocAnswers)
    (st : InputState) : Option (InputState × Status) :=
  if !a.optional then some (st, BadAlloc)
  else if !a.inputClient then some (st, BadAlloc)
  else if (st.masks pWin).isNone && !a.inputMasks then some (st, BadAlloc)
  else
    let inputMasks := (st.masks pWin).getD newInputMasks
    if !a.xi2mask then some (setMasks pWin (some inputMasks) st, BadAlloc)
    -- `AddResource` has freed the record or kept it, and it is freed here once more
    else if !a.resource then none
    else
      let others : InputClients :=
        ⟨⟨client, st.fakeID client⟩, Function.update (fun _ => 0) mskidx mask, fun _ => 0⟩
      some ({ setMasks pWin (some { inputMasks with inputClients := others :: inputMasks.inputClients }) st with
        fakeID := Function.update st.fakeID client (st.fakeID client + 1) }, Success)

/-- The first record of the client is changed. -/
def updateClient (client : ℕ) (f : InputClients → InputClients) : List InputClients → List InputClients
  | [] => []
  | others :: rest =>
    if others.resource.client = client then f others :: rest else others :: updateClient client f rest

def InputClients.setMask (mskidx : DeviceId) (mask : Mask) (others : InputClients) : InputClients :=
  { others with mask := Function.update others.mask mskidx mask }

def InputClients.setXi2Mask (dev : DeviceId) (mask : BitVec 40) (others : InputClients) : InputClients :=
  { others with xi2mask := Function.update others.xi2mask dev mask }

/-- The end of `SelectForWindow`. -/
def maskSet (tree : WindowTree) (dev : Device) (pWin : WindowId) (mask check : Mask) (st : InputState) :
    InputState :=
  recalculateDeviceDeliverableEvents tree pWin <|
    if dev.valuator ∧ st.motionHintWindow dev.id = some pWin ∧ mask &&& DevicePointerMotionHintMask ≠ 0 ∧
        check &&& DevicePointerMotionHintMask = 0 ∧ ¬dev.grab then
      { st with motionHintWindow := Function.update st.motionHintWindow dev.id none }
    else st

def selectForWindow (tree : WindowTree) (dev : Device) (pWin : WindowId) (client : ℕ) (mask exclusivemasks : Mask)
    (a : AllocAnswers) (st : InputState) : Option (InputState × Status) :=
  let mskidx := dev.id
  let check := mask &&& exclusivemasks
  match st.masks pWin with
  | none => add mskidx
  | some inputMasks =>
    if check &&& inputMasks.inputEvents mskidx ≠ 0 ∧ inputMasks.inputClients.any fun others =>
        others.resource.client ≠ client ∧ check &&& others.mask mskidx ≠ 0 then some (st, BadAccess)
    else
      match inputMasks.inputClients.find? fun others => others.resource.client = client with
      | none => add mskidx
      | some others =>
        let st := setMasks pWin (some { inputMasks with
          inputClients := updateClient client (InputClients.setMask mskidx mask) inputMasks.inputClients }) st
        if mask = 0 ∧ ∀ i, i ≠ mskidx → others.mask i = 0 then
          let st := recalculateDeviceDeliverableEvents tree pWin st
          if (st.masks pWin).any fun inputMasks => shouldFreeInputMasks inputMasks false then
            (inputClientGone tree pWin others.resource st).map fun st => (st, Success)
          else some (st, Success)
        else some (maskSet tree dev pWin mask (others.mask mskidx) st, Success)
where
  add (mskidx : DeviceId) : Option (InputState × Status) :=
    (addExtensionClient pWin client mask mskidx a st).map fun (st, ret) =>
      if ret ≠ Success then (st, ret) else (maskSet tree dev pWin mask 0 st, Success)

def deviceEventSuppressForWindow (tree : WindowTree) (pWin : WindowId) (client : ℕ) (mask : Mask)
    (maskndx : DeviceId) (a : AllocAnswers) (st : InputState) : Option (InputState × Status) :=
  if mask &&& ~~~XIPropagateMask ≠ 0 then some (st, BadValue)
  else
    let added := if mask ≠ 0 ∧ (st.masks pWin).isNone then addExtensionClient pWin client 0 0 a st
      else some (st, Success)
    added.bind fun (st, ret) =>
      if ret ≠ Success then some (st, ret)
      else
        let st := setMasks pWin ((st.masks pWin).map fun inputMasks =>
          { inputMasks with dontPropagateMask := Function.update inputMasks.dontPropagateMask maskndx mask }) st
        let st := recalculateDeviceDeliverableEvents tree pWin st
        match st.masks pWin with
        -- `ShouldFreeInputMasks` follows the null pointer
        | none => none
        | some inputMasks =>
          if shouldFreeInputMasks inputMasks false then
            match inputMasks.inputClients with
            | [] => some (st, BadImplementation)
            | others :: _ => (inputClientGone tree pWin others.resource st).map fun st => (st, Success)
          else some (st, Success)

/-- `mask` is empty where the request gives none. -/
def xiSetEventMask (tree : WindowTree) (dev : DeviceId) (win : WindowId) (client : ℕ) (mask : Option (BitVec 40))
    (a : AllocAnswers) (st : InputState) : Option (InputState × Status) :=
  let has := (st.masks win).any fun masks =>
    masks.inputClients.any fun others => others.resource.client = client
  let added := if mask.isSome ∧ ¬has then addExtensionClient win client 0 0 a st else some (st, Success)
  added.map fun (st, ret) =>
    if ret ≠ Success then (st, BadAlloc)
    else
      let st := setMasks win ((st.masks win).map fun masks =>
        { masks with
          inputClients := updateClient client (InputClients.setXi2Mask dev (mask.getD 0)) masks.inputClients }) st
      (recalculateDeviceDeliverableEvents tree win st, Success)

/-! ### Runs -/

inductive InputOp (tree : WindowTree)
  | select (dev : Device) (pWin : tree.Window) (client : ℕ) (mask exclusivemasks : Mask) (a : AllocAnswers)
  | suppress (pWin : tree.Window) (client : ℕ) (mask : Mask) (maskndx : DeviceId) (a : AllocAnswers)
  | setEventMask (dev : DeviceId) (win : tree.Window) (client : ℕ) (mask : Option (BitVec 40))
      (a : AllocAnswers)
  | clientGone (pWin : tree.Window) (id : XID)

/-- What each client selects at present, by window and device: what it asked for last, with
success, until it exits. -/
abbrev Selected := WindowId → ℕ → DeviceId → Mask

def Selected.select (sel : Selected) (w : WindowId) (client : ℕ) (dev : DeviceId) (mask : Mask) : Selected :=
  fun w' c i => if w' = w ∧ c = client ∧ i = dev then mask else sel w' c i

def Selected.gone (sel : Selected) (w : WindowId) (client : ℕ) : Selected :=
  fun w' c i => if w' = w ∧ c = client then 0 else sel w' c i

abbrev SelectionRun := Option (InputState × Selected)

def selectionStep {tree : WindowTree} (run : SelectionRun) (op : InputOp tree) : SelectionRun :=
  run.bind fun (st, sel) =>
    match op with
    | .select dev pWin client mask exclusivemasks a =>
      (selectForWindow tree dev pWin client mask exclusivemasks a st).map fun (st', ret) =>
        (st', if ret = Success then sel.select pWin client dev.id mask else sel)
    | .suppress pWin client mask maskndx a =>
      (deviceEventSuppressForWindow tree pWin client mask maskndx a st).map fun (st', _) => (st', sel)
    | .setEventMask dev win client mask a =>
      (xiSetEventMask tree dev win client mask a st).map fun (st', _) => (st', sel)
    | .clientGone pWin id => (inputClientGone tree pWin id st).map fun st' => (st', sel.gone pWin id.client)

/-- No window has masks, and nothing is selected. -/
def noSelection : SelectionRun := some (⟨fun _ => none, fun _ => none, fun _ => 0⟩, fun _ _ _ => 0)

end Xenia.Xi
