import Xenia.Lib.Run
import Xenia.Xext.PropertyValue

/-!
# Device properties

`XIChangeDeviceProperty` builds the new value aside, shows it to every handler of the device twice (first with `checkonly`, when each
may reject it) and then installs it. `XIDeleteDeviceProperty` asks every handler first.

A request carries the handlers that are registered when it comes, as functions of what they are shown, and the answers of the
allocator. What is sent to clients and which handler was called are results of the request.
-/

namespace Xenia.Xi.DeviceProperty

open Xenia.Lib Xenia.Xext

def Success : ℕ := 0
def BadAtom : ℕ := 5
def BadMatch : ℕ := 8
def BadAccess : ℕ := 10
def BadAlloc : ℕ := 11

abbrev XIPropertyValue := PropertyValue

structure XIProperty where
  propertyName : ℕ
  value : XIPropertyValue
  deletable : Bool
deriving DecidableEq, Repr

/-- What `XIPropertyEvent` says has happened. -/
inductive What
  | XIPropertyDeleted
  | XIPropertyCreated
  | XIPropertyModified
deriving DecidableEq, Repr

/-- A handler; each function may be missing. -/
structure XIPropertyHandler where
  SetProperty : Option (ℕ → XIPropertyValue → Bool → ℕ)
  DeleteProperty : Option (ℕ → ℕ)

/-- A handler that was called with a value: its number, `checkonly` and what it returned. -/
structure HandlerCall where
  handler : ℕ
  checkonly : Bool
  rc : ℕ
deriving DecidableEq, Repr

structure Outcome where
  rc : ℕ
  properties : List XIProperty
  sent : Option (What × ℕ)
  calls : List HandlerCall
deriving DecidableEq, Repr

structure ChangeRequest extends ValueRequest where
  property : ℕ
  mode : PropMode
  sendevent : Bool
  handlers : List XIPropertyHandler
  /-- The allocation of a new property. -/
  allocProperty : Bool
  fits : toValueRequest.Fits

def XICreateDeviceProperty (property : ℕ) : XIProperty :=
  { propertyName := property, value := initialValue, deletable := true }

def XIFetchDeviceProperty (properties : List XIProperty) (property : ℕ) : Option XIProperty :=
  properties.find? (·.propertyName == property)

/-- A pass over the handlers; with `checkonly` it ends at the first that rejects. -/
def setPass (property : ℕ) (value : XIPropertyValue) (checkonly : Bool) : ℕ → List XIPropertyHandler → List HandlerCall × Option ℕ
  | _, [] => ([], none)
  | i, handler :: rest =>
    match handler.SetProperty with
    | none => setPass property value checkonly (i + 1) rest
    | some SetProperty =>
      let rc := SetProperty property value checkonly
      let call : HandlerCall := { handler := i, checkonly := checkonly, rc := rc }
      if checkonly ∧ rc ≠ Success then ([call], some rc)
      else
        let r := setPass property value checkonly (i + 1) rest
        (call :: r.1, r.2)

/-- The value of a property of the list is written over. -/
def install (property : ℕ) (value : XIPropertyValue) (properties : List XIProperty) : List XIProperty :=
  properties.map fun p => if p.propertyName = property then { p with value := value } else p

def XIChangeDeviceProperty (properties : List XIProperty) (request : ChangeRequest) : Outcome :=
  let found := XIFetchDeviceProperty properties request.property
  if found.isNone ∧ request.allocProperty = false then
    { rc := BadAlloc, properties := properties, sent := none, calls := [] }
  else
    let add := found.isNone
    let mode := if add then PropMode.Replace else request.mode
    let prop := found.getD (XICreateDeviceProperty request.property)
    if request.format ≠ prop.value.format ∧ mode ≠ .Replace then
      { rc := BadMatch, properties := properties, sent := none, calls := [] }
    else if prop.value.type ≠ request.type ∧ mode ≠ .Replace then
      { rc := BadMatch, properties := properties, sent := none, calls := [] }
    else
      let sent := if request.sendevent then some (if add then What.XIPropertyCreated else .XIPropertyModified, request.property) else none
      if mode = .Replace ∨ request.len > 0 then
        match newValue request.toValueRequest mode prop.value with
        | none => { rc := BadAlloc, properties := properties, sent := none, calls := [] }
        | some new_value =>
          let check := setPass request.property new_value true 0 request.handlers
          match check.2 with
          | some rc => { rc := rc, properties := properties, sent := none, calls := check.1 }
          | none =>
            -- what the handlers return now does not matter
            let commit := setPass request.property new_value false 0 request.handlers
            { rc := Success
              properties :=
                if add then { prop with value := new_value } :: properties
                else install request.property new_value properties
              sent := sent
              calls := check.1 ++ commit.1 }
      else
        { rc := Success, properties := if add then prop :: properties else properties, sent := sent, calls := [] }

/-- The handlers are asked whether a property may be deleted; the first that says no decides. -/
def askDelete (property : ℕ) : List XIPropertyHandler → ℕ
  | [] => Success
  | handler :: rest =>
    let rc := (handler.DeleteProperty.map (· property)).getD Success
    if rc ≠ Success then rc else askDelete property rest

def XIDeleteDeviceProperty (properties : List XIProperty) (property : ℕ) (fromClient : Bool)
    (handlers : List XIPropertyHandler) : Outcome :=
  match XIFetchDeviceProperty properties property with
  | none => { rc := Success, properties := properties, sent := none, calls := [] }
  | some prop =>
    if fromClient ∧ prop.deletable = false then { rc := BadAccess, properties := properties, sent := none, calls := [] }
    else
      let rc := askDelete prop.propertyName handlers
      if rc ≠ Success then { rc := rc, properties := properties, sent := none, calls := [] }
      else
        { rc := Success
          properties := properties.eraseP (·.propertyName == property)
          sent := some (.XIPropertyDeleted, prop.propertyName)
          calls := [] }

def XISetDevicePropertyDeletable (properties : List XIProperty) (property : ℕ) (deletable : Bool) : Outcome :=
  match XIFetchDeviceProperty properties property with
  | none => { rc := BadAtom, properties := properties, sent := none, calls := [] }
  | some _ =>
    { rc := Success
      properties := properties.map fun p => if p.propertyName = property then { p with deletable := deletable } else p
      sent := none
      calls := [] }

inductive PropertyRequest
  | change (request : ChangeRequest)
  | delete (property : ℕ) (fromClient : Bool) (handlers : List XIPropertyHandler)
  | setDeletable (property : ℕ) (deletable : Bool)

def outcome (properties : List XIProperty) : PropertyRequest → Outcome
  | .change request => XIChangeDeviceProperty properties request
  | .delete property fromClient handlers => XIDeleteDeviceProperty properties property fromClient handlers
  | .setDeletable property deletable => XISetDevicePropertyDeletable properties property deletable

def propertyStep (properties : List XIProperty) (request : PropertyRequest) : List XIProperty := (outcome properties request).properties

end Xenia.Xi.DeviceProperty
