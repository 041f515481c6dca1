import Xenia.Lib.Run
import Xenia.Lib.Heap
import Xenia.Dix.Protocol

/-!
# Window properties

The property list of a window and the requests that write to it: `ProcChangeProperty` with
the checks before the change, `dixChangeWindowProperty` and `DeleteProperty`. The values lie
in blocks of a heap; a record points to its block. The answers of the allocator and of the
access control hooks, and what a property filter makes of a request, are arguments.

An operation without a result has touched memory that is not its own.
-/

namespace Xenia.Dix

open Xenia.Lib

inductive PropMode
  | replace
  | prepend
  | append
  deriving DecidableEq

def propMode : ℕ → Option PropMode
  | 0 => some .replace
  | 1 => some .prepend
  | 2 => some .append
  | _ => none

inductive PropertyState
  | newValue
  | delete
  deriving DecidableEq

/-! ### State -/

/-- `PropertyRec`; the records of a list stand in their order. -/
structure PropertyRec where
  propertyName : ℕ
  type : ℕ
  format : ℕ
  size : ℕ
  data : Option ℕ

/-- The property list of a window, the memory, the error value of the client and the
`PropertyNotify` events delivered so far. -/
structure PropState where
  properties : List PropertyRec
  heap : Heap
  errorValue : ℕ
  events : List (PropertyState × ℕ)

namespace PropState

/-- The record of this name. -/
def lookup (s : PropState) (name : ℕ) : Option PropertyRec :=
  s.properties.find? fun p => p.propertyName = name

/-- The record of this name overwritten in its place. -/
def store (s : PropState) (pProp : PropertyRec) : PropState :=
  { s with properties := s.properties.replaceF fun p =>
      if p.propertyName = pProp.propertyName then some pProp else none }

/-- The record of this name taken out of the list. -/
def unlink (s : PropState) (name : ℕ) : PropState :=
  { s with properties := s.properties.eraseP fun p => p.propertyName = name }

def deliverPropertyNotifyEvent (s : PropState) (state : PropertyState) (name : ℕ) : PropState :=
  { s with events := s.events ++ [(state, name)] }

end PropState

/-- `dixLookupProperty`; `verdict` is what the access control hook says of a property found. -/
def dixLookupProperty (name : ℕ) (verdict : Status) (s : PropState) :
    PropState × Option PropertyRec × Status :=
  let s := { s with errorValue := name }
  match s.lookup name with
  | none => (s, none, BadMatch)
  | some pProp => (s, some pProp, verdict)

/-! ### Changing a property -/

/-- The arguments of `dixChangeWindowProperty`: the caller has a value of `len` units. -/
structure ChangeCall where
  property : ℕ
  type : ℕ
  format : ℕ
  mode : PropMode
  len : ℕ
  value : List Byte
  sendevent : Bool
  enough : len * (format >>> 3) ≤ value.length

/-- The answers to `dixChangeWindowProperty`: of the access control to the lookup and to
the new content, and of the allocator. -/
structure ChangeAnswers where
  lookup : Status
  content : Status
  optional : Bool
  record : Bool
  data : Bool

def ChangeCall.sizeInBytes (c : ChangeCall) : ℕ := c.format >>> 3

/-- `cast(int)(len * sizeInBytes)` -/
def ChangeCall.totalSize (c : ChangeCall) : ℤ := wrapInt (c.len * c.sizeInBytes)

/-- A block with the value of the call in it. -/
def valueBlock (c : ChangeCall) (granted : Bool) (h : Heap) : Option (Except Status (Heap × Option ℕ)) :=
  let (h', data) := h.calloc granted (toSize c.totalSize)
  if c.totalSize ≠ 0 then
    if data = none then some (.error BadAlloc)
    else (h'.memcpy data 0 c.value c.totalSize).map fun h => .ok (h, data)
  else some (.ok (h', data))

/-- The new content of a record that is there. -/
def newContent (c : ChangeCall) (granted : Bool) (pProp : PropertyRec) (h : Heap) :
    Option (Except Status (Heap × PropertyRec)) :=
  -- the unit counts are added in 64 bits, the byte counts below are 32 bits wide
  let oldSize : ℕ := pProp.size * c.sizeInBytes % 2 ^ 32
  let size : ℕ := (pProp.size + c.len) % 2 ^ 32
  match c.mode with
  | .replace =>
    (valueBlock c granted h).map fun
      | .error rc => .error rc
      | .ok (h, data) => .ok (h, { pProp with
          data := data, size := c.len % 2 ^ 32, type := c.type, format := c.format })
  | .append =>
    if c.len = 0 then some (.ok (h, pProp))
    else
      let (h', data) := h.calloc granted ((pProp.size + c.len) * c.sizeInBytes)
      if data = none then some (.error BadAlloc)
      else do
        let h' ← h'.memcpy data 0 (h.load pProp.data) oldSize
        let h' ← h'.memcpy data oldSize c.value c.totalSize
        some (.ok (h', { pProp with data := data, size := size }))
  | .prepend =>
    if c.len = 0 then some (.ok (h, pProp))
    else
      let (h', data) := h.calloc granted ((c.len + pProp.size) * c.sizeInBytes)
      if data = none then some (.error BadAlloc)
      else do
        let h' ← h'.memcpy data c.totalSize (h.load pProp.data) oldSize
        let h' ← h'.memcpy data 0 c.value c.totalSize
        some (.ok (h', { pProp with data := data, size := size }))

/-- A property that is not there yet. -/
def createProperty (c : ChangeCall) (a : ChangeAnswers) (s : PropState) : Option (PropState × Status) :=
  if !a.optional then some (s, BadAlloc)
  else if !a.record then some (s, BadAlloc)
  else
    match valueBlock c a.data s.heap with
    | none => none
    | some (.error rc) => some (s, rc)
    | some (.ok (h, data)) =>
      if a.content ≠ Success then
        (h.free data).map fun h => ({ s with heap := h, errorValue := c.property }, a.content)
      else
        let pProp : PropertyRec := ⟨c.property, c.type, c.format, c.len % 2 ^ 32, data⟩
        some ({ s with heap := h, properties := pProp :: s.properties }, Success)

/-- A property that is there: the new content is put in place, shown to the access control,
and taken back if it is not allowed. -/
def overwriteProperty (c : ChangeCall) (a : ChangeAnswers) (savedProp : PropertyRec) (s : PropState) :
    Option (PropState × Status) :=
  if c.format ≠ savedProp.format ∧ c.mode ≠ .replace then some (s, BadMatch)
  else if savedProp.type ≠ c.type ∧ c.mode ≠ .replace then some (s, BadMatch)
  else
    match newContent c a.data savedProp s.heap with
    | none => none
    | some (.error rc) => some (s, rc)
    | some (.ok (h, pProp)) =>
      let s := { s with heap := h }.store pProp
      if a.content = Success then
        if savedProp.data ≠ pProp.data then
          (s.heap.free savedProp.data).map fun h => ({ s with heap := h }, Success)
        else some (s, Success)
      else if savedProp.data ≠ pProp.data then
        (s.heap.free pProp.data).map fun h => ({ s with heap := h }.store savedProp, a.content)
      else some (s.store savedProp, a.content)

def dixChangeWindowProperty (c : ChangeCall) (a : ChangeAnswers) (s : PropState) :
    Option (PropState × Status) :=
  let (s, found, rc) := dixLookupProperty c.property a.lookup s
  let changed :=
    if rc = BadMatch then createProperty c a s
    else if rc = Success then found.bind fun pProp => overwriteProperty c a pProp s
    else some (s, rc)
  changed.map fun (s, rc) =>
    if rc = Success ∧ c.sendevent then (s.deliverPropertyNotifyEvent .newValue c.property, rc)
    else (s, rc)

/-! ### The request -/

/-- `xChangePropertyReq` as received: `reqLen` units with the header, `body` after it. -/
structure ChangeReq where
  property : ℕ
  type : ℕ
  format : ℕ
  mode : ℕ
  nUnits : ℕ
  reqLen : ℕ
  body : List Byte
  length_body : body.length = 4 * reqLen - 24

/-- What `ProcChangeProperty` asks of the rest of the server: which atoms there are, what the
property filters make of the call, and whether the window is there (if not, the status and
the error value). -/
structure ChangeEnv where
  validAtom : ℕ → Bool
  filter : ChangeCall → Except Status ChangeCall
  lookupWindow : Except (Status × ℕ) Unit

/-- The checks of `ProcChangeProperty`: the call it makes, or its status and, where it sets
one, the error value. -/
def checkChange (e : ChangeEnv) (r : ChangeReq) : Except (Status × Option ℕ) ChangeCall :=
  match propMode r.mode with
  | none => .error (BadValue, some r.mode)
  | some mode =>
    if r.format ≠ 8 ∧ r.format ≠ 16 ∧ r.format ≠ 32 then .error (BadValue, some r.format)
    else if r.nUnits > (0xffffffff - 24 + 3) >>> 2 then .error (BadLength, none)
    else
      let totalSize := r.nUnits * (r.format >>> 3)
      if h : 24 >>> 2 > r.reqLen ∨ totalSize >>> 2 ≥ r.reqLen ∨ (24 + totalSize + 3) >>> 2 ≠ r.reqLen then
        .error (BadLength, none)
      else if !e.validAtom r.property then .error (BadAtom, some r.property)
      else if !e.validAtom r.type then .error (BadAtom, some r.type)
      else
        have henough : r.nUnits * (r.format >>> 3) ≤ r.body.length := by
          have := r.length_body
          simp only [Nat.shiftRight_eq_div_pow, totalSize] at h ⊢
          omega
        match e.filter ⟨r.property, r.type, r.format, mode, r.nUnits, r.body, true, henough⟩ with
        | .error rc => .error (rc, none)
        | .ok c =>
          match e.lookupWindow with
          | .error (rc, value) => .error (rc, some value)
          | .ok () => .ok c

def procChangeProperty (e : ChangeEnv) (r : ChangeReq) (a : ChangeAnswers) (s : PropState) :
    Option (PropState × Status) :=
  match checkChange e r with
  | .error (rc, value) => some ({ s with errorValue := value.getD s.errorValue }, rc)
  | .ok c => dixChangeWindowProperty c a s

/-! ### Deleting a property -/

def deleteProperty (name : ℕ) (verdict : Status) (s : PropState) : Option (PropState × Status) :=
  let (s, found, rc) := dixLookupProperty name verdict s
  if rc = BadMatch then some (s, Success)
  else if rc = Success then
    found.bind fun pProp =>
      let s := (s.unlink name).deliverPropertyNotifyEvent .delete name
      (s.heap.free pProp.data).map fun h => ({ s with heap := h }, rc)
  else some (s, rc)

/-! ### Runs -/

inductive PropOp
  | change (c : ChangeCall) (a : ChangeAnswers)
  | request (e : ChangeEnv) (r : ChangeReq) (a : ChangeAnswers)
  | delete (name : ℕ) (verdict : Status)

def PropOp.exec : PropOp → PropState → Option (PropState × Status)
  | .change c a => dixChangeWindowProperty c a
  | .request e r a => procChangeProperty e r a
  | .delete name verdict => deleteProperty name verdict

end Xenia.Dix
