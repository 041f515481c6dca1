import Xenia.Lib.Run
import Xenia.Xext.PropertyValue

/-!
# Output properties

A property of an output has two values. A change goes to the pending one when the request and the property both say so, and
`RRPostPendingProperties` copies the pending values of an output to the current ones when a flag of the output says that there are any.

The answers of the driver and of the allocator are arguments of the requests. Requests that a driver makes while it is asked for a
property are requests of their own.
-/

namespace Xenia.Xext.OutputProperty

open Xenia.Lib

def Success : ℕ := 0
def BadValue : ℕ := 2
def BadAtom : ℕ := 5
def BadMatch : ℕ := 8
def BadAccess : ℕ := 10
def BadAlloc : ℕ := 11

def AnyPropertyType : ℕ := 0
def XA_INTEGER : ℕ := 19

abbrev RRPropertyValueRec := PropertyValue

/-- `valid_values` has `num_valid` entries. -/
structure RRPropertyRec where
  propertyName : ℕ
  is_pending : Bool
  range : Bool
  immutable_ : Bool
  valid_values : List ℤ
  current : RRPropertyValueRec
  pending : RRPropertyValueRec
deriving DecidableEq, Repr

structure RROutputRec where
  id : ℕ
  properties : List RRPropertyRec
  pendingProperties : Bool
  nonDesktop : Bool
deriving DecidableEq, Repr

inductive NotifyState
  | PropertyNewValue
  | PropertyDelete
deriving DecidableEq, Repr

structure xRROutputPropertyNotifyEvent where
  output : ℕ
  atom : ℕ
  state : NotifyState
deriving DecidableEq, Repr

/-- What a function returns, the output it leaves, and the events it delivers. -/
structure Returned (ρ : Type) where
  ret : ρ
  output : RROutputRec
  events : List xRROutputPropertyNotifyEvent
deriving DecidableEq, Repr

def RRCreateOutputProperty (property : ℕ) : RRPropertyRec :=
  { propertyName := property
    is_pending := false
    range := false
    immutable_ := false
    valid_values := []
    current := initialValue
    pending := initialValue }

def RRQueryOutputProperty (output : RROutputRec) (property : ℕ) : Option RRPropertyRec :=
  output.properties.find? (·.propertyName == property)

/-- The event of `RRDeleteProperty`; the id of the output goes through a `ubyte`. -/
def RRDeleteProperty (output : RROutputRec) (prop : RRPropertyRec) : xRROutputPropertyNotifyEvent :=
  { output := output.id % 2 ^ 8, atom := prop.propertyName, state := .PropertyDelete }

def unlink (property : ℕ) (output : RROutputRec) : RROutputRec :=
  { output with properties := output.properties.eraseP (·.propertyName == property) }

def RRDeleteOutputProperty (output : RROutputRec) (property : ℕ) : Returned Unit :=
  match RRQueryOutputProperty output property with
  | none => { ret := (), output := output, events := [] }
  | some prop => { ret := (), output := unlink property output, events := [RRDeleteProperty output prop] }

/-- `non_desktop_prop` is the atom of `RR_PROPERTY_NON_DESKTOP`. -/
def RRNoticePropertyChange (non_desktop_prop : ℕ) (output : RROutputRec) (property : ℕ) (value : RRPropertyValueRec) : RROutputRec :=
  if property = non_desktop_prop ∧ value.type = XA_INTEGER ∧ value.format = 32 ∧ value.size ≥ 1 then
    { output with nonDesktop := (value.data.take 4).any (· != 0) }
  else output

/-- The arguments of `RRChangeOutputProperty`, with the answers of `rrOutputSetProperty` if the driver has one. -/
structure RRChange extends ValueRequest where
  property : ℕ
  mode : PropMode
  sendevent : Bool
  pending : Bool
  rrOutputSetProperty : Option (ℕ → RRPropertyValueRec → Bool)
  /-- The allocation of a new property. -/
  allocProperty : Bool

/-- The property is put where it was, or is added. -/
def putProperty (add : Bool) (prop : RRPropertyRec) (output : RROutputRec) : RROutputRec :=
  { output with
    properties :=
      if add then prop :: output.properties
      else output.properties.map fun p => if p.propertyName = prop.propertyName then prop else p }

/-- What `RRChangeOutputProperty` does when the property has its value. -/
def finishChange (non_desktop_prop : ℕ) (output : RROutputRec) (request : RRChange) (add onPending : Bool) (prop : RRPropertyRec) :
    Returned ℕ :=
  let output := putProperty add prop output
  let output := if onPending then { output with pendingProperties := true } else output
  let output := if onPending then output else RRNoticePropertyChange non_desktop_prop output prop.propertyName prop.current
  { ret := Success
    output := output
    events :=
      if request.sendevent then [{ output := output.id, atom := prop.propertyName, state := .PropertyNewValue }] else [] }

def RRChangeOutputProperty (non_desktop_prop : ℕ) (output : RROutputRec) (request : RRChange) : Returned ℕ :=
  let found := RRQueryOutputProperty output request.property
  if found.isNone ∧ request.allocProperty = false then { ret := BadAlloc, output := output, events := [] }
  else
    let add := found.isNone
    let mode := if add then PropMode.Replace else request.mode
    let prop := found.getD (RRCreateOutputProperty request.property)
    let onPending := request.pending && prop.is_pending
    let prop_value := if onPending then prop.pending else prop.current
    if request.format ≠ prop_value.format ∧ mode ≠ .Replace then { ret := BadMatch, output := output, events := [] }
    else if prop_value.type ≠ request.type ∧ mode ≠ .Replace then { ret := BadMatch, output := output, events := [] }
    else if mode = .Replace ∨ request.len > 0 then
      match newValue request.toValueRequest mode prop_value with
      | none => { ret := BadAlloc, output := output, events := [] }
      | some new_value =>
        if request.pending ∧ (request.rrOutputSetProperty.map (· prop.propertyName new_value)) = some false then
          { ret := BadValue, output := output, events := [] }
        else
          finishChange non_desktop_prop output request add onPending
            (if onPending then { prop with pending := new_value } else { prop with current := new_value })
    else finishChange non_desktop_prop output request add onPending prop

/-- The comparison of `RRPostPendingProperties`; `memcmp` looks at the bytes of the pending value. -/
def sameValue (pending_value current_value : RRPropertyValueRec) : Bool :=
  let bytes := toSize (pending_value.size * pending_value.format.tdiv 8)
  pending_value.type == current_value.type && pending_value.format == current_value.format &&
    pending_value.size == current_value.size && pending_value.data.take bytes == current_value.data.take bytes

/-- The request by which a pending value becomes the current one. -/
def postRequest (alloc : ℕ → Bool) (property : RRPropertyRec) : RRChange :=
  { type := property.pending.type
    format := property.pending.format
    len := property.pending.size
    value := property.pending.data
    allocValue := alloc property.propertyName
    property := property.propertyName
    mode := .Replace
    sendevent := true
    pending := false
    rrOutputSetProperty := none
    allocProperty := true }

/-- The loop of `RRPostPendingProperties`: a request writes to the property it is made for, so that the later ones are as they were. -/
def postLoop (non_desktop_prop : ℕ) (alloc : ℕ → Bool) : List RRPropertyRec → Returned Bool → Returned Bool
  | [], r => r
  | property :: rest, r =>
    if property.is_pending = false then postLoop non_desktop_prop alloc rest r
    else if sameValue property.pending property.current then postLoop non_desktop_prop alloc rest r
    else
      let change := RRChangeOutputProperty non_desktop_prop r.output (postRequest alloc property)
      postLoop non_desktop_prop alloc rest
        { ret := r.ret && change.ret == Success, output := change.output, events := r.events ++ change.events }

/-- `alloc` says for each property whether there is memory for its value. -/
def RRPostPendingProperties (non_desktop_prop : ℕ) (output : RROutputRec) (alloc : ℕ → Bool) : Returned Bool :=
  if output.pendingProperties = false then { ret := true, output := output, events := [] }
  else
    postLoop non_desktop_prop alloc output.properties
      { ret := true, output := { output with pendingProperties := false }, events := [] }

/-- The arguments of `RRConfigureOutputProperty`, and the answers of the allocator. -/
structure RRConfigure where
  property : ℕ
  pending : Bool
  range : Bool
  immutable_ : Bool
  values : List ℤ
  allocProperty : Bool
  allocValues : Bool

def RRConfigureOutputProperty (output : RROutputRec) (request : RRConfigure) : Returned ℕ :=
  let found := RRQueryOutputProperty output request.property
  if found.isNone ∧ request.allocProperty = false then { ret := BadAlloc, output := output, events := [] }
  else
    let add := found.isNone
    let prop := found.getD (RRCreateOutputProperty request.property)
    if add = false ∧ prop.immutable_ ∧ request.immutable_ = false then { ret := BadAccess, output := output, events := [] }
    else if request.range ∧ request.values.length % 2 = 1 then { ret := BadMatch, output := output, events := [] }
    else if request.values.length ≠ 0 ∧ request.allocValues = false then { ret := BadAlloc, output := output, events := [] }
    else
      { ret := Success
        output :=
          putProperty add
            { prop with
              pending := if prop.is_pending ∧ request.pending = false then initialValue else prop.pending
              is_pending := request.pending
              range := request.range
              immutable_ := request.immutable_
              valid_values := request.values } output
        events := [] }

def RRGetOutputProperty (output : RROutputRec) (property : ℕ) (pending : Bool) : Option RRPropertyValueRec :=
  (RRQueryOutputProperty output property).map fun prop => if pending && prop.is_pending then prop.pending else prop.current

/-- The fields of `xRRGetOutputPropertyReq`, and whether there is memory for the bytes of the reply. -/
structure xRRGetOutputPropertyReq where
  property : ℕ
  type : ℕ
  longOffset : ℕ
  longLength : ℕ
  delete_ : ℕ
  pending : Bool
  alloc : Bool
deriving DecidableEq, Repr

structure xRRGetOutputPropertyReply where
  format : ℕ
  propertyType : ℕ
  bytesAfter : ℕ
  nItems : ℕ
  data : List Byte
deriving DecidableEq, Repr

def noReply : xRRGetOutputPropertyReply := { format := 0, propertyType := 0, bytesAfter := 0, nItems := 0, data := [] }

/-- The size of a property in bytes. -/
def propertyBytes (value : RRPropertyValueRec) : ℕ := toSize (value.format.tdiv 8 * value.size)

/-- `longOffset << 2` on 32 bits. -/
def replyOffset (stuff : xRRGetOutputPropertyReq) : ℕ := stuff.longOffset * 4 % 2 ^ 32

/-- The number of bytes that a reply takes from a property. -/
def replyLength (value : RRPropertyValueRec) (stuff : xRRGetOutputPropertyReq) : ℕ :=
  min (propertyBytes value - replyOffset stuff) (4 * stuff.longLength % 2 ^ 32)

/-- The field of the reply that says how many bytes are left. -/
def replyBytesAfter (value : RRPropertyValueRec) (stuff : xRRGetOutputPropertyReq) : ℕ :=
  (propertyBytes value - (replyOffset stuff + replyLength value stuff)) % 2 ^ 32

def otherType (value : RRPropertyValueRec) (stuff : xRRGetOutputPropertyReq) : Bool :=
  stuff.type != value.type && stuff.type != AnyPropertyType

/-- The part of `ProcRRGetOutputProperty` after `sendout`. -/
def sendout (output : RROutputRec) (stuff : xRRGetOutputPropertyReq) (reply : xRRGetOutputPropertyReply)
    (events : List xRROutputPropertyNotifyEvent) : Returned (ℕ × xRRGetOutputPropertyReply) :=
  { ret := (Success, reply)
    output := if stuff.delete_ = 1 ∧ reply.bytesAfter = 0 then unlink stuff.property output else output
    events := events }

def ProcRRGetOutputProperty (ValidAtom : ℕ → Bool) (output : RROutputRec) (stuff : xRRGetOutputPropertyReq) :
    Returned (ℕ × xRRGetOutputPropertyReply) :=
  if ValidAtom stuff.property = false then { ret := (BadAtom, noReply), output := output, events := [] }
  else if stuff.delete_ ≠ 1 ∧ stuff.delete_ ≠ 0 then { ret := (BadValue, noReply), output := output, events := [] }
  else if stuff.type ≠ AnyPropertyType ∧ ValidAtom stuff.type = false then { ret := (BadAtom, noReply), output := output, events := [] }
  else
    match RRQueryOutputProperty output stuff.property with
    | none => { ret := (Success, noReply), output := output, events := [] }
    | some prop =>
      if prop.immutable_ ∧ stuff.delete_ = 1 then { ret := (BadAccess, noReply), output := output, events := [] }
      else
        match RRGetOutputProperty output stuff.property stuff.pending with
        | none => { ret := (BadAtom, noReply), output := output, events := [] }
        | some prop_value =>
          if otherType prop_value stuff then
            sendout output stuff
              { format := (prop_value.format % 2 ^ 8).toNat
                propertyType := prop_value.type
                bytesAfter := prop_value.size % 2 ^ 32
                nItems := 0
                data := [] } []
          else if propertyBytes prop_value < replyOffset stuff then { ret := (BadValue, noReply), output := output, events := [] }
          else
            let len := replyLength prop_value stuff
            let format := (prop_value.format % 2 ^ 8).toNat
            let unit := if format = 32 then 4 else if format = 16 then 2 else 1
            let bytesAfter := replyBytesAfter prop_value stuff
            let events : List xRROutputPropertyNotifyEvent :=
              if stuff.delete_ = 1 ∧ bytesAfter = 0 then
                [{ output := output.id, atom := prop.propertyName, state := .PropertyDelete }]
              else []
            -- the event is on its way when the reply cannot be built
            if len ≠ 0 ∧ stuff.alloc = false then { ret := (BadAlloc, noReply), output := output, events := events }
            else
              sendout output stuff
                { format := format
                  propertyType := prop_value.type
                  bytesAfter := bytesAfter
                  nItems := len / (prop_value.format.tdiv 8).toNat
                  data := (prop_value.data.drop (replyOffset stuff)).take (len / unit * unit) } events

/-! ## Runs -/

/-- A request to change a property. `value` has the bytes of `len` units. -/
structure ChangeRequest extends RRChange where
  fits : toValueRequest.Fits

inductive PropertyRequest
  | configure (request : RRConfigure)
  | change (request : ChangeRequest)
  | delete (property : ℕ)
  | post (alloc : ℕ → Bool)
  | get (stuff : xRRGetOutputPropertyReq)

/-- What is the same for all outputs: which atoms there are, and the one of the property that says that an output is no desktop. -/
structure Atoms where
  ValidAtom : ℕ → Bool
  non_desktop_prop : ℕ

/-- A request, and whether it succeeds. -/
def outcome (atoms : Atoms) (output : RROutputRec) : PropertyRequest → Returned Bool
  | .configure request =>
    let r := RRConfigureOutputProperty output request
    { ret := r.ret == Success, output := r.output, events := r.events }
  | .change request =>
    let r := RRChangeOutputProperty atoms.non_desktop_prop output request.toRRChange
    { ret := r.ret == Success, output := r.output, events := r.events }
  | .delete property =>
    let r := RRDeleteOutputProperty output property
    { ret := true, output := r.output, events := r.events }
  | .post alloc => RRPostPendingProperties atoms.non_desktop_prop output alloc
  | .get stuff =>
    let r := ProcRRGetOutputProperty atoms.ValidAtom output stuff
    { ret := r.ret.1 == Success, output := r.output, events := r.events }

end Xenia.Xext.OutputProperty
