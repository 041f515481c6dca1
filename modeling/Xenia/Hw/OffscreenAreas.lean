import Xenia.Lib.Mem
import Xenia.Lib.Run
import Xenia.Mi.Region

/-!
# The offscreen area manager

The manager keeps the free part of a screen's offscreen memory as a region and the areas in use as
a list. `AllocateArea` places an area in the first free box with room for it, or in place of the
first removable area with room; `localFreeOffscreenArea`, `localResizeOffscreenArea` and
`localPurgeUnlockedOffscreenAreas` give areas back, move them and drop the removable ones.

The region primitives are a parameter. The allocator's answer is an argument of the operations that
call it; it is an address that no link has. Each area handed out carries the number of
the allocation that made it (`owner`), which the source does not have: it tells the allocations
apart that reuse one link, and `removed` lists the callbacks that have run with it.
-/

namespace Xenia.Hw

open Xenia.Lib Xenia.Mi

/-- `FBArea`, less its screen. The callbacks are named by numbers. -/
structure FBArea where
  box : BoxRec
  granularity : ℤ
  MoveAreaCallback : Option ℕ
  RemoveAreaCallback : Option ℕ
  devPrivate : ℕ
deriving DecidableEq, Repr

/-- `FBLink`; `address` is that of the area in it, which is what callers hold. -/
structure FBLink where
  address : ℕ
  owner : ℕ
  area : FBArea
deriving DecidableEq, Repr

/-- Who had an area removed: an allocation, with its own remove callback, or a purge. -/
inductive Cause
  | request (removeCB : Option ℕ)
  | purge
deriving DecidableEq, Repr

/-- A call of a remove callback. -/
structure Removal where
  owner : ℕ
  proc : ℕ
  cause : Cause
deriving DecidableEq, Repr

structure FBManager where
  InitialBoxes : Region
  FreeBoxes : Region
  UsedAreas : List FBLink
  NumUsedAreas : ℤ
  removed : List Removal
  freed : List ℕ
  issued : ℕ
deriving DecidableEq, Repr

def FBManager.init (initial : Region) : FBManager :=
  { InitialBoxes := initial, FreeBoxes := initial, UsedAreas := [], NumUsedAreas := 0,
    removed := [], freed := [], issued := 0 }

/-- The arguments of `AllocateArea`. -/
structure AreaRequest where
  w : ℤ
  h : ℤ
  granularity : ℤ
  moveCB : Option ℕ
  removeCB : Option ℕ
  privData : ℕ
deriving DecidableEq, Repr

namespace AreaRequest

variable (req : AreaRequest)

/-- The granularity, with 0 for none. -/
def grain : ℤ := if req.granularity ≤ 1 then 0 else req.granularity

/-- Where an area in the box starts: its left edge, rounded up in `int` arithmetic. -/
def left (boxp : BoxRec) : ℤ :=
  if req.grain > 1 then
    wrapInt ((wrapInt (boxp.x1.toInt + req.grain - 1)).tdiv req.grain * req.grain)
  else boxp.x1.toInt

/-- The box has room for the area. -/
def fits (boxp : BoxRec) : Bool :=
  !(decide (boxp.y2.toInt - boxp.y1.toInt < req.h) || decide (wrapInt (boxp.x2.toInt - req.left boxp) < req.w))

/-- The area that is made in the box. -/
def areaIn (boxp : BoxRec) : FBArea :=
  { box :=
      { x1 := Int16.ofInt (req.left boxp)
        x2 := Int16.ofInt (req.left boxp + req.w)
        y1 := boxp.y1
        y2 := Int16.ofInt (boxp.y1.toInt + req.h) }
    granularity := req.grain
    MoveAreaCallback := req.moveCB
    RemoveAreaCallback := req.removeCB
    devPrivate := req.privData }

/-- The area can be removed and has room for this one. -/
def evicts (link : FBLink) : Bool := link.area.RemoveAreaCallback.isSome && req.fits link.area.box

end AreaRequest

variable (ops : RegionOps)

/-- `AllocateArea`, with the allocator's answer; the address of the area. -/
def AllocateArea (offman : FBManager) (req : AreaRequest) (owner : ℕ) (calloc : Option ℕ) : FBManager × Option ℕ :=
  match offman.FreeBoxes.find? req.fits with
  | some boxp =>
    match calloc with
    | none => (offman, none)
    | some address =>
      let area := req.areaIn boxp
      ({ offman with
          UsedAreas := { address := address, owner := owner, area := area } :: offman.UsedAreas
          NumUsedAreas := offman.NumUsedAreas + 1
          FreeBoxes := ops.RegionSubtract offman.FreeBoxes [area.box] }, some address)
  | none =>
    -- only a request that is not expendable itself boots another area out
    if req.removeCB.isSome then (offman, none) else
    match removeFirst req.evicts offman.UsedAreas with
    | none => (offman, none)
    | some (before, link, after) =>
      let area := req.areaIn link.area.box
      let FreeBoxes := ops.RegionUnion offman.FreeBoxes [link.area.box]
      ({ offman with
          UsedAreas := before ++ { link with owner := owner, area := area } :: after
          FreeBoxes := ops.RegionSubtract FreeBoxes [area.box]
          removed := offman.removed ++
            [{ owner := link.owner, proc := link.area.RemoveAreaCallback.getD 0, cause := .request req.removeCB }] },
        some link.address)

/-- The allocator does not hand out the address of a link in use. -/
def FBManager.fresh (offman : FBManager) (calloc : Option ℕ) : Option ℕ :=
  calloc.filter fun a => offman.UsedAreas.all fun link => link.address != a

def localAllocateOffscreenArea (offman : FBManager) (req : AreaRequest) (calloc : Option ℕ) :
    FBManager × Option ℕ :=
  match AllocateArea ops offman req offman.issued (offman.fresh calloc) with
  | (offman', some area) => ({ offman' with issued := offman.issued + 1 }, some area)
  | (offman', none) => (offman', none)

def isAt (area : ℕ) (link : FBLink) : Bool := link.address == area

def localFreeOffscreenArea (offman : FBManager) (area : ℕ) : FBManager :=
  match removeFirst (isAt area) offman.UsedAreas with
  | none => offman
  | some (before, pLink, after) =>
    { offman with
      FreeBoxes := ops.RegionUnion offman.FreeBoxes [pLink.area.box]
      UsedAreas := before ++ after
      NumUsedAreas := offman.NumUsedAreas - 1
      freed := offman.freed ++ [pLink.owner] }

/-- The area cut down in place. -/
def FBArea.cutTo (resize : FBArea) (w h : ℤ) : FBArea :=
  { resize with
    box := { resize.box with x2 := Int16.ofInt (resize.box.x1.toInt + w), y2 := Int16.ofInt (resize.box.y1.toInt + h) } }

/-- The request for an area of the new size in place of `resize`. -/
def FBArea.request (resize : FBArea) (w h : ℤ) : AreaRequest :=
  { w := w, h := h, granularity := resize.granularity, moveCB := resize.MoveAreaCallback,
    removeCB := resize.RemoveAreaCallback, privData := resize.devPrivate }

def FBArea.holds (resize : FBArea) (w h : ℤ) : Bool :=
  decide (w ≤ resize.box.x2.toInt - resize.box.x1.toInt) && decide (h ≤ resize.box.y2.toInt - resize.box.y1.toInt)

/-- The manager with an area's memory given back and its link taken out of the list. -/
def FBManager.without (offman : FBManager) (before : List FBLink) (pLink : FBLink) (after : List FBLink) :
    FBManager :=
  { offman with
    FreeBoxes := ops.RegionUnion offman.FreeBoxes [pLink.area.box]
    UsedAreas := before ++ after }

def localResizeOffscreenArea (offman : FBManager) (resize : ℕ) (w h : ℤ) (calloc : Option ℕ) : FBManager × Bool :=
  match removeFirst (isAt resize) offman.UsedAreas with
  | none => (offman, false)
  | some (before, pLink, after) =>
    let OrigArea := pLink.area.box
    if pLink.area.holds w h then
      -- if it's smaller, this is easy
      let area := pLink.area.cutTo w h
      let UsedAreas := before ++ { pLink with area := area } :: after
      if area.box.y2 = OrigArea.y2 ∧ area.box.x2 = OrigArea.x2 then
        ({ offman with UsedAreas := UsedAreas }, true)
      else
        let FreedReg := ops.RegionSubtract [OrigArea] [area.box]
        ({ offman with UsedAreas := UsedAreas, FreeBoxes := ops.RegionUnion offman.FreeBoxes FreedReg }, true)
    else
      let removed := offman.without ops before pLink after
      match AllocateArea ops removed (pLink.area.request w h) pLink.owner (offman.fresh calloc) with
      | (offman', some area) =>
        match removeFirst (isAt area) offman'.UsedAreas with
        -- the new area is always in the list (`AllocateArea_some`)
        | none => (offman', true)
        | some (before', newLink, after') =>
          ({ offman' with
              UsedAreas := { pLink with area := newLink.area } :: (before' ++ after')
              NumUsedAreas := offman'.NumUsedAreas - 1 }, true)
      | (offman', none) =>
        -- reinstate the old region
        ({ offman' with
            FreeBoxes := ops.RegionSubtract offman'.FreeBoxes [OrigArea]
            UsedAreas := pLink :: offman'.UsedAreas }, false)

/-- The walk of a purge over the links; `UsedAreas` is the part of the list it has kept. -/
def purgeWalk (offman : FBManager) : List FBLink → FBManager
  | [] => offman
  | pLink :: rest =>
    match pLink.area.RemoveAreaCallback with
    | some proc =>
      purgeWalk
        { offman with
          FreeBoxes := ops.RegionAppend offman.FreeBoxes [pLink.area.box]
          NumUsedAreas := offman.NumUsedAreas - 1
          removed := offman.removed ++ [{ owner := pLink.owner, proc := proc, cause := .purge }] } rest
    | none => purgeWalk { offman with UsedAreas := offman.UsedAreas ++ [pLink] } rest

def localPurgeUnlockedOffscreenAreas (offman : FBManager) : FBManager :=
  let anyUsed := offman.UsedAreas.any fun link => link.area.RemoveAreaCallback.isSome
  let offman' := purgeWalk ops { offman with UsedAreas := [] } offman.UsedAreas
  if anyUsed then { offman' with FreeBoxes := ops.RegionValidate offman'.FreeBoxes } else offman'

/-- What a client of the manager asks for. -/
inductive AreaOp
  | allocate (req : AreaRequest) (calloc : Option ℕ)
  | free (area : ℕ)
  | resize (area : ℕ) (w h : ℤ) (calloc : Option ℕ)
  | purge
deriving DecidableEq, Repr

def areaStep (offman : FBManager) : AreaOp → FBManager
  | .allocate req calloc => (localAllocateOffscreenArea ops offman req calloc).1
  | .free area => localFreeOffscreenArea ops offman area
  | .resize area w h calloc => (localResizeOffscreenArea ops offman area w h calloc).1
  | .purge => localPurgeUnlockedOffscreenAreas ops offman

/-- The sizes and the granularity that are asked for are positive. -/
def AreaOp.Positive : AreaOp → Prop
  | .allocate req _ => 0 < req.w ∧ 0 < req.h ∧ 0 < req.granularity
  | .resize _ w h _ => 0 < w ∧ 0 < h
  | _ => True

/-- The box in which a request is placed: the first free one with room, or that of the first area
it can evict. -/
def AreaRequest.picked (req : AreaRequest) (offman : FBManager) : Option BoxRec :=
  match offman.FreeBoxes.find? req.fits with
  | some boxp => some boxp
  | none => if req.removeCB.isSome then none else (offman.UsedAreas.find? req.evicts).map (·.area.box)

/-- The left edge of the box a request is placed in can be rounded up within an `int`. -/
def AreaRequest.Roundable (req : AreaRequest) (offman : FBManager) : Prop :=
  ∀ boxp ∈ req.picked offman, boxp.x1.toInt + req.grain ≤ 2 ^ 31

/-- No rounding of the step overflows. -/
def Roundable (offman : FBManager) : AreaOp → Prop
  | .allocate req _ => req.Roundable offman
  | .resize area w h _ =>
    ∀ r ∈ removeFirst (isAt area) offman.UsedAreas, r.2.1.area.holds w h = false →
      (r.2.1.area.request w h).Roundable (offman.without ops r.1 r.2.1 r.2.2)
  | _ => True

/-- What a step has to meet: it asks for positive sizes, and no rounding overflows. -/
def Admissible (offman : FBManager) (op : AreaOp) : Prop := op.Positive ∧ Roundable ops offman op

instance AreaOp.Positive.decidable : (op : AreaOp) → Decidable op.Positive
  | .allocate req _ => inferInstanceAs (Decidable (0 < req.w ∧ 0 < req.h ∧ 0 < req.granularity))
  | .resize _ w h _ => inferInstanceAs (Decidable (0 < w ∧ 0 < h))
  | .free _ => inferInstanceAs (Decidable True)
  | .purge => inferInstanceAs (Decidable True)

instance AreaRequest.Roundable.decidable (req : AreaRequest) (offman : FBManager) : Decidable (req.Roundable offman) :=
  inferInstanceAs (Decidable (∀ boxp ∈ req.picked offman, boxp.x1.toInt + req.grain ≤ 2 ^ 31))

instance Roundable.decidable (offman : FBManager) : (op : AreaOp) → Decidable (Roundable ops offman op)
  | .allocate req _ => inferInstanceAs (Decidable (req.Roundable offman))
  | .resize area w h _ =>
    inferInstanceAs (Decidable (∀ r ∈ removeFirst (isAt area) offman.UsedAreas, r.2.1.area.holds w h = false →
      (r.2.1.area.request w h).Roundable (offman.without ops r.1 r.2.1 r.2.2)))
  | .free _ => inferInstanceAs (Decidable True)
  | .purge => inferInstanceAs (Decidable True)

instance (offman : FBManager) (op : AreaOp) : Decidable (Admissible ops offman op) :=
  inferInstanceAs (Decidable (op.Positive ∧ Roundable ops offman op))

end Xenia.Hw
