import Xenia.Dix.Protocol
import Xenia.Dix.WindowStack
import Xenia.Mi.Region

/-!
# Configuring a window

`ConfigureWindow` reads a list of values that a mask announces, says where in the stack the window is to stand, asks those who may take the
request over, and then moves the window, sends the event and changes the geometry. The children of one parent are a `Children`: their
stack, and what is read of each of them. `whereDoIGoInTheStack` answers the window that the window is to stand above.

The answers of other parts of the server are fields of `ConfigEnv`: the regions of shaped windows, the lookup of a window, and whether
somebody takes an event. A hook of the screen has the effect of its default (`miMoveWindow`, `miResizeWindow`, `miChangeBorderWidth`).
-/

namespace Xenia.WindowStack

open Xenia.Lib Xenia.Dix
open Xenia.Mi (BoxRec)

/-- The bits of the mask. -/
def CWX : ℕ := 0
def CWY : ℕ := 1
def CWWidth : ℕ := 2
def CWHeight : ℕ := 3
def CWBorderWidth : ℕ := 4
def CWSibling : ℕ := 5
def CWStackMode : ℕ := 6

inductive StackMode where
  | Above
  | Below
  | TopIf
  | BottomIf
  | Opposite
deriving DecidableEq, Repr

def StackMode.ofValue (v : UInt8) : Option StackMode :=
  match v.toNat with
  | 0 => some .Above
  | 1 => some .Below
  | 2 => some .TopIf
  | 3 => some .BottomIf
  | 4 => some .Opposite
  | _ => none

def StackMode.value : StackMode → UInt8
  | .Above => 0
  | .Below => 1
  | .TopIf => 2
  | .BottomIf => 3
  | .Opposite => 4

/-- The place of the inner corner on the screen, the size and the border. -/
structure Drawable where
  x : Int16
  y : Int16
  width : UInt16
  height : UInt16
  borderWidth : UInt16
deriving DecidableEq, Repr

/-- The children of a parent. -/
structure Children (ν : Type) where
  stack : DList ν
  drawable : ν → Drawable
  mapped : ν → Bool
  parentX : Int16
  parentY : Int16

structure ConfigureRequest (ν : Type) where
  window : ν
  sibling : UInt32
  x : Int16
  y : Int16
  width : UInt16
  height : UInt16
  borderWidth : UInt16
  valueMask : UInt16
  detail : UInt8

structure ConfigureNotify (ν : Type) where
  window : ν
  aboveSibling : Option ν
  x : Int16
  y : Int16
  width : UInt16
  height : UInt16
  borderWidth : UInt16
  overrideRedirect : Bool
deriving DecidableEq

inductive Action where
  | RESTACK_WIN
  | MOVE_WIN
  | RESIZE_WIN
  | REBORDER_WIN
deriving DecidableEq, Repr

/-- What the list of values asks for; what it does not name is as it is. -/
structure Request (ν : Type) where
  x : Int16
  y : Int16
  w : UInt16
  h : UInt16
  bw : UInt16
  sibwid : UInt32
  pSib : Option ν
  smode : StackMode
  action : Action

structure ConfigEnv (ν : Type) where
  /-- Bounds the walks over the stack. -/
  fuel : ℕ
  /-- `RealChildHead(pWin.parent)`: the children down to it stay on top. -/
  pHead : Option ν
  /-- `ShapeOverlap`, which is true where neither of them is shaped. -/
  shapeOverlap : ν → BoxRec → ν → BoxRec → Bool
  /-- `RegionContainsRect(&pSib.borderSize, &box) != rgnOUT`. -/
  borderMeets : ν → BoxRec → Bool
  /-- `dixLookupWindow`; `none` is a window that is not a child of this parent. -/
  lookupWindow : UInt32 → Except Status (Option ν)
  inputOnly : Bool
  overrideRedirect : Bool
  /-- `RedirectSend(pParent)`, and whether the event was taken. -/
  redirectSend : Bool
  deliverRequest : ConfigureRequest ν → Bool
  /-- Whether `ResizeRedirectMask` is selected, and whether the event was taken. -/
  resizeRedirect : Bool
  deliverResize : UInt16 → UInt16 → Bool
  /-- The hook `ConfigNotify`; `Success` if there is none. -/
  configNotify : Request ν → Option ν → Status
  /-- `SubStrSend(pWin, pParent)`: somebody has selected the event. -/
  subStrSend : Bool

variable {ν : Type} [DecidableEq ν]

/-! ## Where to stand -/

/-- The walk of `IsSiblingAboveMe` from the top. -/
def isSiblingAboveMe (l : DList ν) (pMe pSib : ν) : ℕ → Option ν → Outcome StackMode
  | 0, _ => .error .hang
  | _ + 1, none => .ok .Below
  | fuel + 1, some pWin =>
    if pWin = pSib then .ok .Above
    else if pWin = pMe then .ok .Below
    else isSiblingAboveMe l pMe pSib fuel (l.next pWin)

def windowExtents (c : Children ν) (pWin : ν) : BoxRec :=
  let d := c.drawable pWin
  { x1 := d.x - d.borderWidth.toInt16
    y1 := d.y - d.borderWidth.toInt16
    x2 := d.x + d.width.toInt16 + d.borderWidth.toInt16
    y2 := d.y + d.height.toInt16 + d.borderWidth.toInt16 }

def BOXES_OVERLAP (b1 b2 : BoxRec) : Bool :=
  !(b1.x2 ≤ b2.x1 || b1.x1 ≥ b2.x2 || b1.y2 ≤ b2.y1 || b1.y1 ≥ b2.y2)

/-- The test of the two walks below. -/
def overlaps (env : ConfigEnv ν) (c : Children ν) (pWin : ν) (box : BoxRec) (pSib : ν) : Bool :=
  c.mapped pSib && BOXES_OVERLAP (windowExtents c pSib) box && env.shapeOverlap pWin box pSib (windowExtents c pSib)

/-- The walk of `AnyWindowOverlapsMe` from the sibling above up to the head. -/
def anyWindowOverlapsMe (meets : ν → Bool) (l : DList ν) (pHead : Option ν) : ℕ → Option ν → Outcome Bool
  | 0, _ => .error .hang
  | fuel + 1, pSib =>
    if pSib = pHead then .ok false
    else do
      let s ← deref pSib
      if meets s then .ok true else anyWindowOverlapsMe meets l pHead fuel (l.prev s)

/-- The walk of `IOverlapAnyWindow` from the sibling below. -/
def iOverlapAnyWindow (meets : ν → Bool) (l : DList ν) : ℕ → Option ν → Outcome Bool
  | 0, _ => .error .hang
  | _ + 1, none => .ok false
  | fuel + 1, some pSib => if meets pSib then .ok true else iOverlapAnyWindow meets l fuel (l.next pSib)

/-- The first of the children that are not held on top. -/
def pFirst (env : ConfigEnv ν) (c : Children ν) : Option ν :=
  match env.pHead with
  | some pHead => c.stack.next pHead
  | none => c.stack.first

/-- The window that the window is to stand above. -/
def whereDoIGoInTheStack (env : ConfigEnv ν) (c : Children ν) (pWin : ν) (pSib : Option ν) (box : BoxRec) (smode : StackMode) :
    Outcome (Option ν) :=
  let l := c.stack
  if l.first = some pWin ∧ l.last = some pWin then .ok none
  else
    match smode, pSib with
    | .Above, some s => .ok (some s)
    | .Above, none => .ok (if pFirst env c = some pWin then l.next pWin else pFirst env c)
    | .Below, some s => .ok (if l.next s ≠ some pWin then l.next s else l.next pWin)
    | .Below, none => .ok none
    | .TopIf, some s => do
      if !c.mapped pWin || !c.mapped s then .ok (l.next pWin)
      else do
        let side ← isSiblingAboveMe l pWin s env.fuel l.first
        .ok (if side = .Above ∧ env.borderMeets s box = true then pFirst env c else l.next pWin)
    | .TopIf, none => do
      if !c.mapped pWin then .ok (l.next pWin)
      else do
        let covered ← anyWindowOverlapsMe (overlaps env c pWin box) l env.pHead env.fuel (l.prev pWin)
        .ok (if covered then pFirst env c else l.next pWin)
    | .BottomIf, some s => do
      if !c.mapped pWin || !c.mapped s then .ok (l.next pWin)
      else do
        let side ← isSiblingAboveMe l pWin s env.fuel l.first
        .ok (if side = .Below ∧ env.borderMeets s box = true then none else l.next pWin)
    | .BottomIf, none => do
      if !c.mapped pWin then .ok (l.next pWin)
      else do
        let covers ← iOverlapAnyWindow (overlaps env c pWin box) l env.fuel (l.next pWin)
        .ok (if covers then none else l.next pWin)
    | .Opposite, some s => do
      if !c.mapped pWin || !c.mapped s then .ok (l.next pWin)
      else if env.borderMeets s box then do
        let side ← isSiblingAboveMe l pWin s env.fuel l.first
        .ok (if side = .Above then pFirst env c else none)
      else .ok (l.next pWin)
    | .Opposite, none => do
      if !c.mapped pWin then .ok (l.next pWin)
      else do
        let covered ← anyWindowOverlapsMe (overlaps env c pWin box) l env.pHead env.fuel (l.prev pWin)
        if covered then .ok (pFirst env c)
        else do
          let covers ← iOverlapAnyWindow (overlaps env c pWin box) l env.fuel (l.next pWin)
          .ok (if covers then none else l.next pWin)

/-! ## The list of values -/

/-- A status, and `client.errorValue` if it is set. -/
abbrev Refusal := Status × Option UInt32

/-- `GET_INT16`, with the place in the list. -/
def getInt16 (mask : BitVec 32) (vlist : ℕ → UInt32) (bit : ℕ) (f : Int16) (i : ℕ) : Int16 × ℕ :=
  if mask.getLsbD bit then ((vlist i).toUInt16.toInt16, i + 1) else (f, i)

/-- `GET_CARD16`, with the place in the list. -/
def getCard16 (mask : BitVec 32) (vlist : ℕ → UInt32) (bit : ℕ) (f : UInt16) (i : ℕ) : UInt16 × ℕ :=
  if mask.getLsbD bit then ((vlist i).toUInt16, i + 1) else (f, i)

/-- The corner of the border, seen from the parent. -/
def outerX (c : Children ν) (pWin : ν) : Int16 := (c.drawable pWin).x - c.parentX - (c.drawable pWin).borderWidth.toInt16

def outerY (c : Children ν) (pWin : ν) : Int16 := (c.drawable pWin).y - c.parentY - (c.drawable pWin).borderWidth.toInt16

/-- The values of the place and of the size, which come first. -/
def firstValues (c : Children ν) (pWin : ν) (mask : BitVec 32) (vlist : ℕ → UInt32) : Except Refusal (Request ν × ℕ) :=
  let d := c.drawable pWin
  let r : Request ν :=
    { x := outerX c pWin, y := outerY c pWin, w := d.width, h := d.height, bw := d.borderWidth, sibwid := 0, pSib := none,
      smode := .Above, action := .RESTACK_WIN }
  let placed := mask.getLsbD CWX || mask.getLsbD CWY
  let sized := mask.getLsbD CWHeight || mask.getLsbD CWWidth
  if placed && !sized then
    let x := getInt16 mask vlist CWX r.x 0
    let y := getInt16 mask vlist CWY r.y x.2
    .ok ({ r with x := x.1, y := y.1, action := .MOVE_WIN }, y.2)
  else if placed || sized then
    let x := getInt16 mask vlist CWX r.x 0
    let y := getInt16 mask vlist CWY r.y x.2
    let w := getCard16 mask vlist CWWidth r.w y.2
    let h := getCard16 mask vlist CWHeight r.h w.2
    if w.1 = 0 ∨ h.1 = 0 then .error (BadValue, some 0)
    else .ok ({ r with x := x.1, y := y.1, w := w.1, h := h.1, action := .RESIZE_WIN }, h.2)
  else .ok (r, 0)

/-- A turn of the loop over `tmask`. -/
def laterValue (env : ConfigEnv ν) (pWin : ν) (mask : BitVec 32) (vlist : ℕ → UInt32) (v : Request ν × ℕ) (index2 : ℕ) :
    Except Refusal (Request ν × ℕ) :=
  if index2 = CWBorderWidth then .ok ({ v.1 with bw := (vlist v.2).toUInt16 }, v.2 + 1)
  else if index2 = CWSibling then
    match env.lookupWindow (vlist v.2) with
    | .error rc => .error (rc, some (vlist v.2))
    | .ok none => .error (BadMatch, none)
    | .ok (some s) =>
      if s = pWin then .error (BadMatch, none) else .ok ({ v.1 with sibwid := vlist v.2, pSib := some s }, v.2 + 1)
  else if index2 = CWStackMode then
    match StackMode.ofValue (vlist v.2).toUInt8 with
    | none => .error (BadValue, some (vlist v.2).toUInt8.toUInt32)
    | some smode => .ok ({ v.1 with smode := smode }, v.2 + 1)
  else .error (BadValue, some (UInt32.ofBitVec mask))

/-- The bits of `mask & ~ChangeMask`, from the lowest on. -/
def laterBits (mask : BitVec 32) : List ℕ := (List.range 32).filter fun i => mask.getLsbD i && decide (CWHeight < i)

/-- The checks, and the values of the list. -/
def readValues (env : ConfigEnv ν) (c : Children ν) (pWin : ν) (mask : BitVec 32) (vlist : ℕ → UInt32) :
    Except Refusal (Request ν) :=
  if env.inputOnly && mask.getLsbD CWBorderWidth then .error (BadMatch, none)
  else if mask.getLsbD CWSibling && !mask.getLsbD CWStackMode then .error (BadMatch, none)
  else do
    let first ← firstValues c pWin mask vlist
    let v ← (laterBits mask).foldlM (laterValue env pWin mask vlist) first
    .ok v.1

/-! ## The effect of the hooks -/

def miMoveWindow (fuel : ℕ) (c : Children ν) (pWin : ν) (x y : Int16) (pNextSib : Option ν) : Outcome (Children ν) := do
  let d := c.drawable pWin
  let d := { d with x := c.parentX + x + d.borderWidth.toInt16, y := c.parentY + y + d.borderWidth.toInt16 }
  let moved ← moveWindowInStack fuel c.stack pWin pNextSib
  .ok { c with stack := moved.1, drawable := Function.update c.drawable pWin d }

def miResizeWindow (fuel : ℕ) (c : Children ν) (pWin : ν) (x y : Int16) (w h : UInt16) (pSib : Option ν) : Outcome (Children ν) := do
  let d := c.drawable pWin
  let d := { d with
    x := c.parentX + x + d.borderWidth.toInt16, y := c.parentY + y + d.borderWidth.toInt16, width := w, height := h }
  let moved ← moveWindowInStack fuel c.stack pWin pSib
  .ok { c with stack := moved.1, drawable := Function.update c.drawable pWin d }

def setBorderWidth (c : Children ν) (pWin : ν) (bw : UInt16) : Children ν :=
  { c with drawable := Function.update c.drawable pWin { c.drawable pWin with borderWidth := bw } }

def miChangeBorderWidth (c : Children ν) (pWin : ν) (width : UInt16) : Children ν :=
  if (c.drawable pWin).borderWidth = width then c else setBorderWidth c pWin width

def reflectStackChange (fuel : ℕ) (c : Children ν) (pWin : ν) (pSib : Option ν) : Outcome (Children ν) := do
  let moved ← moveWindowInStack fuel c.stack pWin pSib
  .ok { c with stack := moved.1 }

/-! ## The request -/

/-- The answer to the request; `redirected` if another client has got it instead. -/
structure Configured (ν : Type) where
  status : Status
  errorValue : Option UInt32
  redirected : Bool
  events : List (ConfigureNotify ν)
  children : Children ν

/-- The corners for which the stack is searched. -/
def requestBox (c : Children ν) (r : Request ν) : BoxRec :=
  let x := c.parentX + r.x
  let y := c.parentY + r.y
  { x1 := x, y1 := y, x2 := x + (r.w + (r.bw <<< 1)).toInt16, y2 := y + (r.h + (r.bw <<< 1)).toInt16 }

def redirects (env : ConfigEnv ν) (pWin : ν) (mask : BitVec 32) (r : Request ν) : Bool :=
  !env.overrideRedirect && env.redirectSend && env.deliverRequest
    { window := pWin
      sibling := if mask.getLsbD CWSibling then r.sibwid else 0
      x := r.x
      y := r.y
      width := r.w
      height := r.h
      borderWidth := r.bw
      valueMask := UInt16.ofBitVec (mask.setWidth 16)
      detail := if mask.getLsbD CWStackMode then r.smode.value else StackMode.Above.value }

/-- Whether the client that selected `ResizeRedirectMask` has got the new size instead. -/
def intercepts (env : ConfigEnv ν) (c : Children ν) (pWin : ν) (r : Request ν) : Bool :=
  (r.w != (c.drawable pWin).width || r.h != (c.drawable pWin).height) && env.resizeRedirect && env.deliverResize r.w r.h

/-- A new size that is none, or is not to be, is another action; `none` if nothing is left to do. -/
def reclassify (env : ConfigEnv ν) (c : Children ν) (pWin : ν) (mask : BitVec 32) (r : Request ν) : Option (Request ν) :=
  if r.action = .RESIZE_WIN then
    let d := c.drawable pWin
    let size_change := r.w != d.width || r.h != d.height
    if size_change && !intercepts env c pWin r then some r
    else
      let r := if intercepts env c pWin r then { r with w := d.width, h := d.height } else r
      if mask.getLsbD CWX || mask.getLsbD CWY then some { r with action := .MOVE_WIN }
      else if mask.getLsbD CWStackMode || mask.getLsbD CWBorderWidth then some { r with action := .RESTACK_WIN }
      else none
  else some r

/-- The tests before `ActuallyDoSomething`. With a stack mode there is no test left: the jump stands behind the one on the sibling too. -/
def somethingToDo (c : Children ν) (pWin : ν) (mask : BitVec 32) (r : Request ν) : Bool :=
  r.action = .RESIZE_WIN || (mask.getLsbD CWX && r.x != outerX c pWin) || (mask.getLsbD CWY && r.y != outerY c pWin) ||
    (mask.getLsbD CWBorderWidth && r.bw != (c.drawable pWin).borderWidth) || mask.getLsbD CWStackMode

/-- The border goes first: it makes the action another one, or is changed in place. -/
def reborder (c : Children ν) (pWin : ν) (mask : BitVec 32) (r : Request ν) : Children ν × Action :=
  if mask.getLsbD CWBorderWidth then
    let bw := (c.drawable pWin).borderWidth
    if r.action = .RESTACK_WIN then (setBorderWidth c pWin r.bw, .MOVE_WIN)
    else if r.action = .MOVE_WIN ∧ (outerX c pWin).toInt + bw.toNat = r.x.toInt + r.bw.toNat ∧
        (outerY c pWin).toInt + bw.toNat = r.y.toInt + r.bw.toNat then
      (miChangeBorderWidth c pWin r.bw, .REBORDER_WIN)
    else (setBorderWidth c pWin r.bw, r.action)
  else (c, r.action)

/-- The window changes. -/
def change (fuel : ℕ) (c : Children ν) (pWin : ν) (mask : BitVec 32) (r : Request ν) (pSib : Option ν) : Outcome (Children ν) :=
  let (c, action) := reborder c pWin mask r
  if action = .MOVE_WIN then miMoveWindow fuel c pWin r.x r.y pSib
  else if action = .RESIZE_WIN then miResizeWindow fuel c pWin r.x r.y r.w r.h pSib
  else if mask.getLsbD CWStackMode then reflectStackChange fuel c pWin pSib
  else .ok c

def refused (c : Children ν) (e : Refusal) : Configured ν := ⟨e.1, e.2, false, [], c⟩

def unchanged (c : Children ν) (redirected : Bool) : Configured ν := ⟨Success, none, redirected, [], c⟩

/-- From the `ResizeRequest` on. -/
def configure (env : ConfigEnv ν) (c : Children ν) (pWin : ν) (mask : BitVec 32) (r : Request ν) (pSib : Option ν) :
    Outcome (Configured ν) :=
  match reclassify env c pWin mask r with
  | none => .ok (unchanged c false)
  | some r =>
    if !somethingToDo c pWin mask r then .ok (unchanged c false)
    else if env.configNotify r pSib ≠ Success then .ok (refused c (env.configNotify r pSib, some 0))
    else do
      let event : ConfigureNotify ν :=
        { window := pWin, aboveSibling := pSib, x := r.x, y := r.y, width := r.w, height := r.h, borderWidth := r.bw,
          overrideRedirect := env.overrideRedirect }
      let c ← change env.fuel c pWin mask r pSib
      .ok { status := Success, errorValue := none, redirected := false, events := if env.subStrSend then [event] else [], children := c }

def ConfigureWindow (env : ConfigEnv ν) (c : Children ν) (pWin : ν) (mask : BitVec 32) (vlist : ℕ → UInt32) : Outcome (Configured ν) :=
  match readValues env c pWin mask vlist with
  | .error e => .ok (refused c e)
  | .ok r => do
    let pSib ←
      if mask.getLsbD CWStackMode then whereDoIGoInTheStack env c pWin r.pSib (requestBox c r) r.smode
      else .ok (c.stack.next pWin)
    if redirects env pWin mask r then .ok (unchanged c true)
    else configure env c pWin mask r pSib

end Xenia.WindowStack
