import Mathlib.Tactic
import Xenia.Lib.Run
import Xenia.Dix.Protocol

/-!
# Selections

The list of selections and the requests that read and change their owners. An extension may
filter a request and an event before it is handled: it is called with a record of parameters
that it can rewrite, and it can ask to skip what follows. What the filter does, the answers of
access control and of the allocator, and the clock are arguments.

A client and a window are known by their pointers, which are numbers; client 0 is the server.
-/

namespace Xenia.Dix.Selections

open Xenia.Lib

/-! ### Time -/

structure TimeStamp where
  months : UInt32
  milliseconds : UInt32
  deriving DecidableEq

inductive Comparison
  | EARLIER
  | SAMETIME
  | LATER
  deriving DecidableEq

def compareTimeStamps (a b : TimeStamp) : Comparison :=
  if a.months < b.months then .EARLIER
  else if a.months > b.months then .LATER
  else if a.milliseconds < b.milliseconds then .EARLIER
  else if a.milliseconds > b.milliseconds then .LATER
  else .SAMETIME

def CurrentTime : UInt32 := 0

/-- The constant is the `int` value `1<<31`, which is negative, as an `ulong`. -/
def HALFMONTH : UInt64 := 0xFFFFFFFF80000000

def clientTimeToServerTime (currentTime : TimeStamp) (c : UInt32) : TimeStamp :=
  if c = CurrentTime then currentTime
  else
    let ts : TimeStamp := ⟨currentTime.months, c⟩
    if c > currentTime.milliseconds then
      if c.toUInt64 - currentTime.milliseconds.toUInt64 > HALFMONTH then { ts with months := ts.months - 1 }
      else ts
    else if c < currentTime.milliseconds then
      if currentTime.milliseconds.toUInt64 - c.toUInt64 > HALFMONTH then { ts with months := ts.months + 1 }
      else ts
    else ts

/-! ### Data -/

def None : ℕ := 0

def serverClient : ℕ := 0

structure Selection where
  selection : ℕ
  lastTimeChanged : TimeStamp
  window : ℕ
  pWin : Option ℕ
  client : Option ℕ
  deriving DecidableEq

inductive FilterOp
  | GETOWNER
  | SETOWNER
  | CONVERT
  | EV_REQUEST
  | EV_CLEAR
  deriving DecidableEq

structure SelectionFilterParam where
  op : FilterOp
  skip : Bool
  status : Status
  selection : ℕ
  client : ℕ
  recvClient : Option ℕ
  time : UInt32
  requestor : ℕ
  owner : ℕ
  property : ℕ
  target : ℕ
  deriving DecidableEq

/-- The record that a handler starts from, with the fields it does not name. -/
def SelectionFilterParam.zero (op : FilterOp) (client selection : ℕ) : SelectionFilterParam where
  op := op
  skip := false
  status := Success
  selection := selection
  client := client
  recvClient := none
  time := 0
  requestor := None
  owner := None
  property := None
  target := None

inductive SelectionEvent
  | selectionClear (time : UInt32) (window atom : ℕ)
  | selectionRequest (owner : ℕ) (time : UInt32) (requestor selection target property : ℕ)
  | selectionNotify (time : UInt32) (requestor selection target property : ℕ)
  deriving DecidableEq

inductive SelectionCallbackKind
  | selectionSetOwner
  | selectionWindowDestroy
  | selectionClientClose
  deriving DecidableEq

/-- What a step sends: the events given to `WriteEventsToClient`, the replies, and the records
given to `SelectionCallback`. -/
inductive Output
  | event (client : Option ℕ) (e : SelectionEvent)
  | reply (client : ℕ) (owner : ℕ)
  | callback (selection : Selection) (client : Option ℕ) (kind : SelectionCallbackKind)
  deriving DecidableEq

inductive Drawable
  | window (pWin : ℕ)
  | pixmap
  deriving DecidableEq

structure State where
  selections : List Selection
  currentTime : TimeStamp
  drawables : ℕ → Option Drawable
  clientGone : ℕ → Bool
  errorValue : ℕ → ℕ

/-- What the rest of the server answers during a step. `filter` is told how often it has been
called in the step. -/
structure Answers where
  filter : ℕ → SelectionFilterParam → SelectionFilterParam
  windowAccess : Status
  selectionAccess : Status
  memory : Bool
  validAtom : ℕ → Bool
  clock : UInt32
  inputTime : Option TimeStamp

structure Result where
  state : State
  out : List Output
  status : Status

namespace State

variable (s : State)

def setError (client value : ℕ) : State := { s with errorValue := Function.update s.errorValue client value }

/-- `UpdateCurrentTime`; `inputTime` is the time that pending input sets. -/
def updateCurrentTime (a : Answers) : State :=
  let systime : TimeStamp := ⟨s.currentTime.months, a.clock⟩
  let systime := if systime.milliseconds < s.currentTime.milliseconds then
    { systime with months := systime.months + 1 } else systime
  let now := a.inputTime.getD s.currentTime
  { s with currentTime := if compareTimeStamps systime now = .LATER then systime else now }

/-- `dixLookupWindow`: the window of an id, or the error that says why not. -/
def lookupWindow (id client : ℕ) (access : Status) : Except Status ℕ × State :=
  let s := s.setError client id
  match s.drawables id with
  | none => (.error BadWindow, s)
  | some d =>
    if access ≠ Success then
      (.error (if access = BadMatch ∨ access = BadValue ∨ access = BadDrawable then BadWindow else access), s)
    else match d with
      | .window pWin => (.ok pWin, s)
      | .pixmap => (.error BadWindow, s)

end State

/-! ### The list -/

/-- The record that `dixLookupSelection` creates. -/
def Selection.blank (selectionName : ℕ) : Selection := ⟨selectionName, ⟨0, 0⟩, None, none, none⟩

/-- `dixLookupSelection`; a missing record is made and stays, whatever access control says. -/
def dixLookupSelection (selectionName client : ℕ) (a : Answers) (s : State) : Except Status Selection × State :=
  let s := s.setError client selectionName
  match s.selections.find? fun r => r.selection = selectionName with
  | some pSel => (if a.selectionAccess = Success then .ok pSel else .error a.selectionAccess, s)
  | none =>
    if a.memory then
      (if a.selectionAccess = Success then .ok (.blank selectionName) else .error a.selectionAccess,
        { s with selections := .blank selectionName :: s.selections })
    else (.error BadAlloc, s)

/-- Writing through the pointer to the record of `name`. -/
def modifyFirst (name : ℕ) (f : Selection → Selection) : List Selection → List Selection
  | [] => []
  | r :: rs => if r.selection = name then f r :: rs else r :: modifyFirst name f rs

def Selection.disown (r : Selection) : Selection := { r with pWin := none, window := None, client := none }

/-- The loop of both functions below: the records that satisfy `p` lose their owner. -/
def disownWhere (p : Selection → Bool) (kind : SelectionCallbackKind) (s : State) : Result where
  state := { s with selections := s.selections.map fun pSel => if p pSel then pSel.disown else pSel }
  out := (s.selections.filter p).map fun pSel => .callback pSel none kind
  status := Success

def deleteWindowFromAnySelections (pWin : ℕ) : State → Result :=
  disownWhere (fun pSel => pSel.pWin = some pWin) .selectionWindowDestroy

def deleteClientFromAnySelections (client : ℕ) : State → Result :=
  disownWhere (fun pSel => pSel.client = some client) .selectionClientClose

/-! ### The requests -/

structure SetSelectionOwnerReq where
  window : ℕ
  selection : ℕ
  time : UInt32

structure ConvertSelectionReq where
  requestor : ℕ
  selection : ℕ
  target : ℕ
  property : ℕ
  time : UInt32

/-- What the filter makes of a request to set the owner. -/
def setOwnerParam (client : ℕ) (stuff : SetSelectionOwnerReq) (a : Answers) : SelectionFilterParam :=
  a.filter 0 { SelectionFilterParam.zero .SETOWNER client stuff.selection with owner := stuff.window }

/-- What it makes of the event that tells the old owner. -/
def clearParam (client : ℕ) (stuff : SetSelectionOwnerReq) (pSel : Selection) (a : Answers) : SelectionFilterParam :=
  a.filter 1 { SelectionFilterParam.zero .EV_CLEAR client stuff.selection with
    recvClient := pSel.client
    owner := pSel.window }

/-- A request that the filter wants skipped ends with the status it sets. -/
def skipped (param : SelectionFilterParam) (client selection : ℕ) (s : State) : Result :=
  ⟨if param.status ≠ Success then s.setError client selection else s, [], param.status⟩

/-- The end of `ProcSetSelectionOwner`, from the comparison with the last change on. -/
def replaceOwner (client : ℕ) (stuff : SetSelectionOwnerReq) (time : TimeStamp) (param : SelectionFilterParam)
    (pWin : Option ℕ) (pSel : Selection) (a : Answers) (s : State) : Result :=
  if compareTimeStamps time pSel.lastTimeChanged = .EARLIER then ⟨s, [], Success⟩
  else
    let clear : List Output :=
      if pSel.client.isSome ∧ (pWin = none ∨ pSel.client ≠ some client) then
        let eventParam := clearParam client stuff pSel a
        -- the source tests `param`, the record of the request, not `eventParam`
        if !param.skip then
          [.event eventParam.recvClient
            (.selectionClear time.milliseconds eventParam.owner eventParam.selection)]
        else []
      else []
    let new : Selection :=
      { pSel with
        lastTimeChanged := time
        window := param.owner
        pWin := pWin
        client := if pWin.isSome then some client else none }
    ⟨{ s with selections := modifyFirst pSel.selection (fun _ => new) s.selections },
      clear ++ [.callback new (some client) .selectionSetOwner], Success⟩

/-- `ProcSetSelectionOwner` once the window is known. -/
def setOwnerOf (client : ℕ) (stuff : SetSelectionOwnerReq) (time : TimeStamp) (param : SelectionFilterParam)
    (pWin : Option ℕ) (a : Answers) (s : State) : Result :=
  if !a.validAtom param.selection then ⟨s.setError client stuff.selection, [], BadAtom⟩
  else match dixLookupSelection param.selection client a s with
    | (.error rc, s) => ⟨s.setError client stuff.selection, [], rc⟩
    | (.ok pSel, s) => replaceOwner client stuff time param pWin pSel a s

def procSetSelectionOwner (client : ℕ) (stuff : SetSelectionOwnerReq) (a : Answers) (s : State) : Result :=
  let s := s.updateCurrentTime a
  let time := clientTimeToServerTime s.currentTime stuff.time
  if compareTimeStamps time s.currentTime = .LATER then ⟨s, [], Success⟩
  else
    let param := setOwnerParam client stuff a
    if param.skip then skipped param client stuff.selection s
    else if param.owner ≠ None then
      match s.lookupWindow param.owner client a.windowAccess with
      | (.error rc, s) => ⟨s, [], rc⟩
      | (.ok pWin, s) => setOwnerOf client stuff time param (some pWin) a s
    else setOwnerOf client stuff time param none a s

def procGetSelectionOwner (client id : ℕ) (a : Answers) (s : State) : Result :=
  let fail (status : Status) (s : State) : Result :=
    ⟨if status ≠ Success then s.setError client id else s, [], status⟩
  let param := a.filter 0 (.zero .GETOWNER client id)
  if param.skip then fail param.status s
  else if !a.validAtom param.selection then fail BadAtom s
  else match dixLookupSelection param.selection param.client a s with
    | (.ok pSel, s) => ⟨s, [.reply client pSel.window], Success⟩
    | (.error rc, s) => if rc = BadMatch then ⟨s, [.reply client None], Success⟩ else fail rc s

/-- The events at the end of `ProcConvertSelection`: a request to the owner, or the answer that
there is none. -/
def convertFor (client : ℕ) (stuff : ConvertSelectionReq) (param : SelectionFilterParam)
    (owner : Option Selection) (a : Answers) (s : State) : Result :=
  let live := owner.filter fun pSel =>
    pSel.window ≠ None && pSel.client.any fun c => c ≠ serverClient && !s.clientGone c
  match live with
  | some pSel =>
    let evParam := a.filter 1 { SelectionFilterParam.zero .EV_REQUEST client stuff.selection with
      owner := pSel.window
      requestor := stuff.requestor
      property := stuff.property
      target := stuff.target
      time := stuff.time
      recvClient := pSel.client }
    if evParam.skip then skipped evParam client stuff.selection s
    else ⟨s, [.event evParam.recvClient (.selectionRequest evParam.owner evParam.time evParam.requestor
      evParam.selection evParam.target evParam.property)], Success⟩
  | none =>
    let param := a.filter 1 { param with property := None }
    if param.skip then skipped param client stuff.selection s
    else ⟨s, [.event (some client) (.selectionNotify param.time param.requestor param.selection
      param.target param.property)], Success⟩

/-- `ProcConvertSelection` from the look at the clock on. -/
def convertNow (client : ℕ) (stuff : ConvertSelectionReq) (param : SelectionFilterParam) (a : Answers)
    (s : State) : Result :=
  let s := if stuff.time = CurrentTime then s.updateCurrentTime a else s
  match dixLookupSelection param.selection client a s with
  | (.ok pSel, s) => convertFor client stuff param (some pSel) a s
  | (.error rc, s) => if rc = BadMatch then convertFor client stuff param none a s else ⟨s, [], rc⟩

/-- What the filter makes of a request to convert a selection. -/
def convertParam (client : ℕ) (stuff : ConvertSelectionReq) (a : Answers) : SelectionFilterParam :=
  a.filter 0 { SelectionFilterParam.zero .CONVERT client stuff.selection with
    requestor := stuff.requestor
    property := stuff.property
    target := stuff.target
    time := stuff.time }

def procConvertSelection (client : ℕ) (stuff : ConvertSelectionReq) (a : Answers) (s : State) : Result :=
  let param := convertParam client stuff a
  if param.skip then skipped param client stuff.selection s
  else match s.lookupWindow param.requestor client a.windowAccess with
    | (.error rc, s) => ⟨s, [], rc⟩
    | (.ok _, s) =>
      if a.validAtom param.selection && a.validAtom param.target &&
          (param.property = None || a.validAtom param.property) then
        convertNow client stuff param a s
      else ⟨s.setError client stuff.property, [], BadAtom⟩

/-! ### Steps -/

inductive Op
  | setSelectionOwner (client : ℕ) (stuff : SetSelectionOwnerReq)
  | getSelectionOwner (client id : ℕ)
  | convertSelection (client : ℕ) (stuff : ConvertSelectionReq)
  | createDrawable (id : ℕ) (d : Drawable)
  /-- The window of an id is destroyed, or the pixmap freed. -/
  | destroyDrawable (id : ℕ)
  | closeDownClient (client : ℕ)
  /-- The time of the server changes outside of these requests. -/
  | noticeTime (time : TimeStamp)

/-- A request is handled while its client is connected. -/
def perform (op : Op) (a : Answers) (s : State) : Result :=
  match op with
  | .setSelectionOwner client stuff =>
    if s.clientGone client then ⟨s, [], Success⟩ else procSetSelectionOwner client stuff a s
  | .getSelectionOwner client id =>
    if s.clientGone client then ⟨s, [], Success⟩ else procGetSelectionOwner client id a s
  | .convertSelection client stuff =>
    if s.clientGone client then ⟨s, [], Success⟩ else procConvertSelection client stuff a s
  | .createDrawable id d =>
    if id = None ∨ (s.drawables id).isSome then ⟨s, [], Success⟩
    else ⟨{ s with drawables := Function.update s.drawables id (some d) }, [], Success⟩
  | .destroyDrawable id =>
    let gone := { s with drawables := Function.update s.drawables id none }
    match s.drawables id with
    | some (.window pWin) => deleteWindowFromAnySelections pWin gone
    | _ => ⟨gone, [], Success⟩
  | .closeDownClient client =>
    if s.clientGone client then ⟨s, [], Success⟩
    else
      deleteClientFromAnySelections client { s with clientGone := Function.update s.clientGone client true }
  | .noticeTime time => ⟨{ s with currentTime := time }, [], Success⟩

def step (s : State) (i : Op × Answers) : State := (perform i.1 i.2 s).state

end Xenia.Dix.Selections
