import Mathlib.Tactic
import Xenia.Lib.Run
import Xenia.Lib.Outcome
import Xenia.Dix.Protocol

/-!
# Counters, alarms and awaits

The counters of the synchronization extension, with the triggers that watch them. A trigger is
part of an alarm or is a condition of an await; each counter has a list of nodes that point to
triggers. A node is known by its number: a node that is in no list was freed, and a trigger
whose alarm or await is gone was freed with it. A step that follows a pointer to freed memory
ends in `fault`, and a loop that does not come to an end in `hang`.

Fences, and the brackets kept for system counters, are left out. The answers of the allocator,
of access control and of system counters are arguments.
-/

namespace Xenia.Xext

open Xenia.Lib Xenia.Dix

/-! ### Data -/

/-- A pointer to a trigger: that of an alarm, or that of a condition of an await. -/
inductive TriggerRef
  | alarm (id : ℕ)
  | await (id i : ℕ)
  deriving DecidableEq

def XSyncPositiveTransition : ℕ := 0
def XSyncNegativeTransition : ℕ := 1
def XSyncPositiveComparison : ℕ := 2
def XSyncNegativeComparison : ℕ := 3

def XSyncAbsolute : ℕ := 0
def XSyncRelative : ℕ := 1

/-- The functions for `CheckTrigger`. -/
inductive CheckTrigger
  | positiveTransition
  | negativeTransition
  | positiveComparison
  | negativeComparison
  deriving DecidableEq

structure SyncTrigger where
  pSync : Option ℕ
  waitValue : Int64
  valueType : ℕ
  testType : ℕ
  testValue : Int64
  checkTrigger : CheckTrigger

structure TriggerNode where
  id : ℕ
  pTrigger : TriggerRef

/-- A counter without a client is a system counter. -/
structure SyncCounter where
  client : Option ℕ
  value : Int64
  triglist : List TriggerNode
  beingDestroyed : Bool

inductive AlarmState
  | active
  | inactive
  | destroyed
  deriving DecidableEq

structure SyncAlarm where
  trigger : SyncTrigger
  client : ℕ
  delta : Int64
  events : Bool
  state : AlarmState
  eventClients : List ℕ

structure SyncAwait where
  trigger : SyncTrigger
  eventThreshold : Int64

structure SyncAwaitUnion where
  client : ℕ
  waitconditions : List SyncAwait

/-- The events that are sent. -/
inductive SyncNotify
  | alarm (clients : List ℕ) (id : ℕ) (counterValue alarmValue : Int64) (state : AlarmState)
  | counter (client counter : ℕ) (waitValue counterValue : Int64) (count : ℕ) (destroyed : Bool)

structure SyncState where
  counters : ℕ → Option SyncCounter
  alarms : ℕ → Option SyncAlarm
  awaits : ℕ → Option SyncAwaitUnion
  nextNode : ℕ
  nextAwait : ℕ
  sent : List SyncNotify
  errorBase : Status

def SyncState.setCounter (st : SyncState) (c : ℕ) (k : Option SyncCounter) : SyncState :=
  { st with counters := Function.update st.counters c k }

def SyncState.setAlarm (st : SyncState) (id : ℕ) (alarm : Option SyncAlarm) : SyncState :=
  { st with alarms := Function.update st.alarms id alarm }

def SyncState.setAwait (st : SyncState) (id : ℕ) (await : Option SyncAwaitUnion) : SyncState :=
  { st with awaits := Function.update st.awaits id await }

/-- The trigger a pointer points to, unless it was freed. -/
def triggerOf (st : SyncState) : TriggerRef → Option SyncTrigger
  | .alarm id => (st.alarms id).map SyncAlarm.trigger
  | .await id i => (st.awaits id).bind fun await => await.waitconditions[i]?.map SyncAwait.trigger

/-- What a request gets from outside: whether access control denies the counter, the value of a
system counter, whether there is memory for the alarm or await, for its resource and for an
event client, and whether there is memory for the events of an await that fires. -/
structure SyncAnswers where
  denied : Option Status
  query : ℕ → Int64
  object : Bool
  resource : Bool
  eventClient : Bool
  events : ℕ → Bool

def XSyncCACounter : BitVec 32 := 0x01
def XSyncCAValueType : BitVec 32 := 0x02
def XSyncCAValue : BitVec 32 := 0x04
def XSyncCATestType : BitVec 32 := 0x08
def XSyncCADelta : BitVec 32 := 0x10
def XSyncCAEvents : BitVec 32 := 0x20
def XSyncCAAllTrigger : BitVec 32 := XSyncCACounter ||| XSyncCAValueType ||| XSyncCAValue ||| XSyncCATestType

/-- Whether the mask has a bit of `bits`. -/
def has (mask bits : BitVec 32) : Bool := mask &&& bits ≠ 0

/-! ### Trigger lists -/

def syncDeleteTriggerFromSyncObject (pTrigger : TriggerRef) (pSync : Option ℕ) (st : SyncState) :
    Outcome SyncState :=
  match pSync with
  | none => .ok st
  | some c =>
    match st.counters c with
    | none => .error .fault
    | some k => .ok (st.setCounter c (some { k with
        triglist := k.triglist.eraseP fun pCur => pCur.pTrigger = pTrigger }))

def syncAddTriggerToSyncObject (pTrigger : TriggerRef) (pSync : Option ℕ) (st : SyncState) :
    Outcome SyncState :=
  match pSync with
  | none => .ok st
  | some c =>
    match st.counters c with
    | none => .error .fault
    | some k =>
      if k.triglist.any fun pCur => pCur.pTrigger = pTrigger then .ok st
      else .ok { st.setCounter c (some { k with triglist := ⟨st.nextNode, pTrigger⟩ :: k.triglist }) with
        nextNode := st.nextNode + 1 }

/-! ### Checking a trigger -/

def CheckTrigger.holds (check : CheckTrigger) (value testValue oldval : Int64) : Bool :=
  match check with
  | .positiveComparison => value ≥ testValue
  | .negativeComparison => value ≤ testValue
  | .positiveTransition => oldval < testValue && value ≥ testValue
  | .negativeTransition => oldval > testValue && value ≤ testValue

/-- A trigger without a counter is true. -/
def checkTrigger (pTrigger : SyncTrigger) (oldval : Int64) (st : SyncState) : Outcome Bool :=
  match pTrigger.pSync with
  | none => .ok true
  | some c =>
    match st.counters c with
    | none => .error .fault
    | some k => .ok (pTrigger.checkTrigger.holds k.value pTrigger.testValue oldval)

def checkedInt64Add (a b : Int64) : Int64 × Bool :=
  let result := a + b
  (result, decide (a < 0) == decide (b < 0) && decide (a < 0) != decide (result < 0))

def checkedInt64Subtract (a b : Int64) : Int64 × Bool :=
  let result := a - b
  (result, decide (a < 0) != decide (b < 0) && decide (a < 0) != decide (result < 0))

/-- The function for a test type. -/
def selectCheckTrigger (testType : ℕ) : Option CheckTrigger :=
  if testType = XSyncPositiveTransition then some .positiveTransition
  else if testType = XSyncNegativeTransition then some .negativeTransition
  else if testType = XSyncPositiveComparison then some .positiveComparison
  else if testType = XSyncNegativeComparison then some .negativeComparison
  else none

/-! ### Initializing a trigger -/

def XSyncBadCounter : Status := 0
def XSyncBadAlarm : Status := 1

def lookupCounter (id : ℕ) (denied : Option Status) (st : SyncState) : Except Status ℕ :=
  match st.counters id with
  | none => .error (st.errorBase + XSyncBadCounter)
  | some _ =>
    match denied with
    | some rc => .error rc
    | none => .ok id

/-- The value of the counter, asked for if it is a system counter. -/
def queryCounter (pSync : Option ℕ) (a : SyncAnswers) (st : SyncState) :
    Outcome (SyncState × Option Int64) :=
  match pSync with
  | none => .ok (st, none)
  | some c =>
    match st.counters c with
    | none => .error .fault
    | some k =>
      if k.client.isNone then .ok (st.setCounter c (some { k with value := a.query c }), some (a.query c))
      else .ok (st, some k.value)

/-- The test value of `SyncInitTrigger`, and the error where there is one. -/
def initTestValue (pTrigger : SyncTrigger) (value : Option Int64) (changes : BitVec 32) :
    SyncTrigger × Option Status :=
  if has changes (XSyncCAValueType ||| XSyncCAValue) then
    if pTrigger.valueType = XSyncAbsolute then ({ pTrigger with testValue := pTrigger.waitValue }, none)
    else
      match value with
      | none => (pTrigger, some BadMatch)
      | some value =>
        let (testValue, overflow) := checkedInt64Add value pTrigger.waitValue
        ({ pTrigger with testValue := testValue }, if overflow then some BadValue else none)
  else (pTrigger, none)

/-- The counter for the trigger: the one that is asked for, or the one it has. -/
def triggerCounter (pTrigger : SyncTrigger) (syncObject : ℕ) (changes : BitVec 32) (denied : Option Status)
    (st : SyncState) : Except Status (Option ℕ) :=
  if has changes XSyncCACounter then
    if syncObject = 0 then .ok none else (lookupCounter syncObject denied st).map some
  else .ok pTrigger.pSync

/-- The function for the trigger. -/
def triggerCheck (pTrigger : SyncTrigger) (changes : BitVec 32) : Option CheckTrigger :=
  if has changes XSyncCATestType then selectCheckTrigger pTrigger.testType else some pTrigger.checkTrigger

/-- The end of `SyncInitTrigger`. -/
def setTriggerCounter (ptr : TriggerRef) (pTrigger : SyncTrigger) (pSync : Option ℕ) (changes : BitVec 32)
    (st : SyncState) : Outcome (SyncState × SyncTrigger × Except Status Unit) :=
  if has changes XSyncCACounter ∧ pSync ≠ pTrigger.pSync then do
    let st ← syncDeleteTriggerFromSyncObject ptr pTrigger.pSync st
    let st ← syncAddTriggerToSyncObject ptr pSync st
    return (st, { pTrigger with pSync := pSync }, .ok ())
  else .ok (st, pTrigger, .ok ())

/-- `ptr` is where the trigger `pTrigger` is; the trigger is changed also where there is an
error. -/
def syncInitTrigger (ptr : TriggerRef) (pTrigger : SyncTrigger) (syncObject : ℕ) (changes : BitVec 32)
    (a : SyncAnswers) (st : SyncState) : Outcome (SyncState × SyncTrigger × Except Status Unit) :=
  match triggerCounter pTrigger syncObject changes a.denied st with
  | .error rc => .ok (st, pTrigger, .error rc)
  | .ok pSync => do
    let (st, value) ← queryCounter pSync a st
    if has changes XSyncCAValueType ∧ pTrigger.valueType ≠ XSyncRelative ∧ pTrigger.valueType ≠ XSyncAbsolute then
      .ok (st, pTrigger, .error BadValue)
    else
      match initTestValue pTrigger value changes with
      | (pTrigger, some rc) => .ok (st, pTrigger, .error rc)
      | (pTrigger, none) =>
        match triggerCheck pTrigger changes with
        | none => .ok (st, pTrigger, .error BadValue)
        | some check => setTriggerCounter ptr { pTrigger with checkTrigger := check } pSync changes st

/-! ### Alarms that fire -/

def syncSendAlarmNotifyEvents (id : ℕ) (pAlarm : SyncAlarm) (st : SyncState) : Outcome SyncState :=
  let clients := (if pAlarm.events then [pAlarm.client] else []) ++ pAlarm.eventClients
  let send (value : Int64) : SyncState :=
    { st with sent := st.sent ++ [.alarm clients id value pAlarm.trigger.testValue pAlarm.state] }
  match pAlarm.trigger.pSync with
  | none => .ok (send 0)
  | some c =>
    match st.counters c with
    | none => .error .fault
    | some k => .ok (send k.value)

/-- The loop of `SyncAlarmTriggerFired`: the value it stops at, and whether it overflowed. -/
def alarmLoop (check : Int64 → Bool) (delta : Int64) : ℕ → Int64 → Option (Int64 × Bool)
  | 0, _ => none
  | fuel + 1, testValue =>
    let (testValue, overflow) := checkedInt64Add testValue delta
    if !overflow && check testValue then alarmLoop check delta fuel testValue
    else some (testValue, overflow)

def isComparison (testType : ℕ) : Bool :=
  testType = XSyncPositiveComparison || testType = XSyncNegativeComparison

/-- The state and the test value of an alarm that goes off. -/
def updatedAlarm (pAlarm : SyncAlarm) (value : Option Int64) : Outcome (AlarmState × Int64) :=
  let trigger := pAlarm.trigger
  match value with
  | none => .ok (.inactive, trigger.testValue)
  | some value =>
    if pAlarm.delta = 0 && isComparison trigger.testType then .ok (.inactive, trigger.testValue)
    else
      match alarmLoop (fun testValue => trigger.checkTrigger.holds value testValue value) pAlarm.delta (2 ^ 64)
        trigger.testValue with
      | none => .error .hang
      | some (_, true) => .ok (.inactive, trigger.testValue)
      | some (testValue, false) => .ok (.active, testValue)

def counterValue (pSync : Option ℕ) (st : SyncState) : Outcome (Option Int64) :=
  match pSync with
  | none => .ok none
  | some c =>
    match st.counters c with
    | none => .error .fault
    | some k => .ok (some k.value)

def syncAlarmTriggerFired (id : ℕ) (st : SyncState) : Outcome SyncState :=
  match st.alarms id with
  | none => .error .fault
  | some pAlarm =>
    if pAlarm.state ≠ .active then .ok st
    else do
      let value ← counterValue pAlarm.trigger.pSync st
      let (state, newTestValue) ← updatedAlarm pAlarm value
      -- the event has the new state, and the old test value
      let pAlarm := { pAlarm with state := state }
      let st ← syncSendAlarmNotifyEvents id pAlarm st
      return st.setAlarm id (some { pAlarm with trigger := { pAlarm.trigger with testValue := newTestValue } })

def syncAlarmCounterDestroyed (id : ℕ) (st : SyncState) : Outcome SyncState :=
  match st.alarms id with
  | none => .error .fault
  | some pAlarm => do
    let pAlarm := { pAlarm with state := .inactive }
    let st ← syncSendAlarmNotifyEvents id pAlarm st
    return st.setAlarm id (some { pAlarm with trigger := { pAlarm.trigger with pSync := none } })

/-! ### Awaits that fire -/

/-- The conditions an event is sent for, each with its counter. -/
def awaitEvents (st : SyncState) : List SyncAwait → Outcome (List (ℕ × SyncCounter × SyncAwait))
  | [] => .ok []
  | pAwait :: rest =>
    match pAwait.trigger.pSync with
    | none => .error .fault
    | some c =>
      match st.counters c with
      | none => .error .fault
      | some k => do
        let events ← awaitEvents st rest
        let (diff, overflow) := checkedInt64Subtract k.value pAwait.trigger.testValue
        let testType := pAwait.trigger.testType
        let positive : Bool := testType = XSyncPositiveComparison || testType = XSyncPositiveTransition
        let negative : Bool := testType = XSyncNegativeComparison || testType = XSyncNegativeTransition
        return if k.beingDestroyed || !overflow && (positive && diff ≥ pAwait.eventThreshold ||
            negative && diff ≤ pAwait.eventThreshold) then (c, k, pAwait) :: events else events

/-- Each event says how many come after it. -/
def counterNotifyEvents (client : ℕ) : List (ℕ × SyncCounter × SyncAwait) → List SyncNotify
  | [] => []
  | (c, k, pAwait) :: rest =>
    .counter client c pAwait.trigger.testValue k.value rest.length k.beingDestroyed ::
      counterNotifyEvents client rest

/-- The loop of `FreeAwait`: a counter that is being destroyed keeps its nodes. -/
def deleteTriggers (id : ℕ) : ℕ → List SyncAwait → SyncState → Outcome SyncState
  | _, [], st => .ok st
  | i, pAwait :: rest, st =>
    match pAwait.trigger.pSync with
    | none => deleteTriggers id (i + 1) rest st
    | some c =>
      match st.counters c with
      | none => .error .fault
      | some k =>
        if k.beingDestroyed then deleteTriggers id (i + 1) rest st
        else do
          let st ← syncDeleteTriggerFromSyncObject (.await id i) (some c) st
          deleteTriggers id (i + 1) rest st

def freeAwait (id : ℕ) (st : SyncState) : Outcome SyncState :=
  match st.awaits id with
  | none => .ok st
  | some pAwaitUnion => do
    let st ← deleteTriggers id 0 pAwaitUnion.waitconditions st
    return st.setAwait id none

def syncAwaitTriggerFired (id : ℕ) (memory : Bool) (st : SyncState) : Outcome SyncState :=
  match st.awaits id with
  | none => .error .fault
  | some pAwaitUnion =>
    if memory then do
      let events ← awaitEvents st pAwaitUnion.waitconditions
      freeAwait id { st with sent := st.sent ++ counterNotifyEvents pAwaitUnion.client events }
    else freeAwait id st

/-! ### Counters that change and go -/

def triggerFired (pTrigger : TriggerRef) (a : SyncAnswers) (st : SyncState) : Outcome SyncState :=
  match pTrigger with
  | .alarm id => syncAlarmTriggerFired id st
  | .await id _ => syncAwaitTriggerFired id (a.events id) st

def counterDestroyed (pTrigger : TriggerRef) (a : SyncAnswers) (st : SyncState) : Outcome SyncState :=
  match pTrigger with
  | .alarm id => syncAlarmCounterDestroyed id st
  | .await id _ => syncAwaitTriggerFired id (a.events id) st

/-- The node with this number, and the number of the next one. -/
def followNode : List TriggerNode → ℕ → Option (TriggerNode × Option ℕ)
  | [], _ => none
  | node :: rest, ptl => if node.id = ptl then some (node, rest.head?.map TriggerNode.id) else followNode rest ptl

/-- The node `ptl` of a counter's list and the one after it, if both the counter and the node
are there. -/
def nodeAt (c ptl : ℕ) (st : SyncState) : Outcome (TriggerNode × Option ℕ) :=
  match (st.counters c).bind fun k => followNode k.triglist ptl with
  | none => .error .fault
  | some r => .ok r

/-- The loop of `SyncChangeCounter`, with the triggers it has fired. -/
def changeWalk (c : ℕ) (oldval : Int64) (a : SyncAnswers) :
    ℕ → Option ℕ → SyncState → Outcome (SyncState × List TriggerRef)
  | _, none, st => .ok (st, [])
  | 0, some _, _ => .error .hang
  | fuel + 1, some ptl, st => do
    let (node, pnext) ← nodeAt c ptl st
    match triggerOf st node.pTrigger with
    | none => .error .fault
    | some pTrigger =>
      let fires ← checkTrigger pTrigger oldval st
      if fires then
        let st ← triggerFired node.pTrigger a st
        let (st, fired) ← changeWalk c oldval a fuel pnext st
        return (st, node.pTrigger :: fired)
      else changeWalk c oldval a fuel pnext st

def syncChangeCounter (c : ℕ) (newval : Int64) (a : SyncAnswers) (st : SyncState) :
    Outcome (SyncState × List TriggerRef) :=
  match st.counters c with
  | none => .error .fault
  | some k => changeWalk c k.value a k.triglist.length (k.triglist.head?.map TriggerNode.id)
      (st.setCounter c (some { k with value := newval }))

/-- The loop of `FreeCounter`, with the triggers whose `CounterDestroyed` it has called. -/
def destroyWalk (c : ℕ) (a : SyncAnswers) :
    ℕ → Option ℕ → SyncState → Outcome (SyncState × List TriggerRef)
  | _, none, st => .ok (st, [])
  | 0, some _, _ => .error .hang
  | fuel + 1, some ptl, st => do
    let (node, _) ← nodeAt c ptl st
    match triggerOf st node.pTrigger with
    | none => .error .fault
    | some _ =>
      let st ← counterDestroyed node.pTrigger a st
      let (_, pnext) ← nodeAt c ptl st
      -- the node is freed
      let st := st.setCounter c ((st.counters c).map fun k =>
        { k with triglist := k.triglist.eraseP fun pCur => pCur.id = ptl })
      let (st, called) ← destroyWalk c a fuel pnext st
      return (st, node.pTrigger :: called)

def freeCounter (c : ℕ) (a : SyncAnswers) (st : SyncState) : Outcome (SyncState × List TriggerRef) :=
  match st.counters c with
  | none => .ok (st, [])
  | some k => do
    let st := st.setCounter c (some { k with beingDestroyed := true })
    let (st, called) ← destroyWalk c a k.triglist.length (k.triglist.head?.map TriggerNode.id) st
    return (st.setCounter c none, called)

/-! ### Changing an alarm -/

structure AlarmAttributes where
  counter : ℕ
  trigger : SyncTrigger
  delta : Int64
  events : Option Bool

def toInt64 (hi lo : UInt32) : Int64 := (hi.toUInt64 <<< 32 ||| lo.toUInt64).toInt64

/-- One turn of the loop of `SyncChangeAlarmAttributes`, for the lowest bit left in the mask. -/
def changeAttribute (bit : ℕ) (values : List UInt32) (attributes : AlarmAttributes) :
    Except Status (List UInt32 × AlarmAttributes) :=
  let trigger := attributes.trigger
  let value := values.headD 0
  let value' := values.tail.headD 0
  match bit with
  | 0 => .ok (values.tail, { attributes with counter := value.toNat })
  | 1 => .ok (values.tail, { attributes with trigger := { trigger with valueType := value.toNat } })
  | 2 => .ok (values.tail.tail, { attributes with trigger := { trigger with waitValue := toInt64 value value' } })
  | 3 => .ok (values.tail, { attributes with trigger := { trigger with testType := value.toNat } })
  | 4 => .ok (values.tail.tail, { attributes with delta := toInt64 value value' })
  | 5 =>
    if value ≠ 1 && value ≠ 0 then .error BadValue
    else .ok (values.tail, { attributes with events := some (value = 1) })
  | _ => .error BadValue

def changeAttributes : List ℕ → List UInt32 → AlarmAttributes → Except Status AlarmAttributes
  | [], _, attributes => .ok attributes
  | bit :: bits, values, attributes =>
    match changeAttribute bit values attributes with
    | .error rc => .error rc
    | .ok (values, attributes) => changeAttributes bits values attributes

/-- The bits of a mask, from the lowest on. -/
def maskBits (mask : BitVec 32) : List ℕ := (List.range 32).filter mask.getLsbD

def syncEventSelectForAlarm (pAlarm : SyncAlarm) (client : ℕ) (wantevents memory : Bool) : Except Status SyncAlarm :=
  if client = pAlarm.client then .ok { pAlarm with events := wantevents }
  else if pAlarm.eventClients.contains client then
    .ok (if wantevents then pAlarm else { pAlarm with eventClients := pAlarm.eventClients.erase client })
  else if !wantevents then .ok pAlarm
  else if !memory then .error BadAlloc
  else .ok { pAlarm with eventClients := client :: pAlarm.eventClients }

/-- The events that a change of an alarm asks for. -/
def selectEvents (pAlarm : SyncAlarm) (client : ℕ) (events : Option Bool) (memory : Bool) : Except Status SyncAlarm :=
  match events with
  | none => .ok pAlarm
  | some wantevents => syncEventSelectForAlarm pAlarm client wantevents memory

def wrongSign (testType : ℕ) (delta : Int64) : Bool :=
  (testType = XSyncPositiveComparison || testType = XSyncPositiveTransition) && delta < 0 ||
    (testType = XSyncNegativeComparison || testType = XSyncNegativeTransition) && delta > 0

/-- The alarm is changed also where there is an error. -/
def syncChangeAlarmAttributes (client id : ℕ) (pAlarm : SyncAlarm) (mask : BitVec 32) (values : List UInt32)
    (a : SyncAnswers) (st : SyncState) : Outcome (SyncState × SyncAlarm × Except Status Unit) :=
  match changeAttributes (maskBits mask) values
    ⟨pAlarm.trigger.pSync.getD 0, pAlarm.trigger, pAlarm.delta, none⟩ with
  | .error rc => .ok (st, pAlarm, .error rc)
  | .ok attributes =>
    match selectEvents pAlarm client attributes.events a.eventClient with
    | .error rc => .ok (st, pAlarm, .error rc)
    | .ok pAlarm =>
      if has mask (XSyncCADelta ||| XSyncCATestType) && wrongSign attributes.trigger.testType attributes.delta then
        .ok (st, pAlarm, .error BadMatch)
      else do
        let pAlarm := { pAlarm with delta := attributes.delta, trigger := attributes.trigger }
        let (st, trigger, status) ← syncInitTrigger (.alarm id) pAlarm.trigger attributes.counter
          (mask &&& XSyncCAAllTrigger) a st
        let pAlarm := { pAlarm with trigger := trigger }
        match status with
        | .error rc => return (st, pAlarm, .error rc)
        | .ok () => return (st, { pAlarm with state := .active }, .ok ())

/-! ### Requests -/

/-- The number of values that go with a mask. -/
def valueCount (mask : BitVec 32) : ℕ :=
  (maskBits mask).length + (maskBits (mask &&& (XSyncCAValue ||| XSyncCADelta))).length

def procSyncCreateCounter (client : Option ℕ) (cid : ℕ) (initial : Int64) (st : SyncState) : SyncState × Status :=
  if cid = 0 ∨ (st.counters cid).isSome ∨ (st.alarms cid).isSome then (st, BadIDChoice)
  else (st.setCounter cid (some ⟨client, initial, [], false⟩), Success)

/-- `CheckTrigger` with the counter's value, and `TriggerFired` if it is true. -/
def fireIfTrue (ptr : TriggerRef) (pTrigger : SyncTrigger) (a : SyncAnswers) (st : SyncState) : Outcome (SyncState × Bool) :=
  match pTrigger.pSync with
  | none => do return (← triggerFired ptr a st, true)
  | some c =>
    match st.counters c with
    | none => .error .fault
    | some k => do
      let fires ← checkTrigger pTrigger k.value st
      if fires then return (← triggerFired ptr a st, true) else return (st, false)

/-- `FreeAlarm`, for an alarm that was taken from the resources. -/
def freeAlarm (id : ℕ) (pAlarm : SyncAlarm) (st : SyncState) : Outcome SyncState := do
  let st ← syncSendAlarmNotifyEvents id { pAlarm with state := .destroyed } st
  syncDeleteTriggerFromSyncObject (.alarm id) pAlarm.trigger.pSync st

/-- The defaults of `ProcSyncCreateAlarm`. -/
def newAlarm (client : ℕ) (trigger : SyncTrigger) : SyncAlarm := ⟨trigger, client, 1, true, .inactive, []⟩

def newTrigger : SyncTrigger := ⟨none, 0, XSyncAbsolute, XSyncPositiveComparison, 0, .positiveComparison⟩

def procSyncCreateAlarm (client id : ℕ) (valueMask : BitVec 32) (values : List UInt32) (a : SyncAnswers)
    (st : SyncState) : Outcome (SyncState × Status) :=
  if id = 0 ∨ (st.counters id).isSome ∨ (st.alarms id).isSome then .ok (st, BadIDChoice)
  else if values.length ≠ valueCount valueMask then .ok (st, BadLength)
  else if !a.object then .ok (st, BadAlloc)
  else do
    let (st, trigger, status) ← syncInitTrigger (.alarm id) newTrigger 0 XSyncCAAllTrigger a st
    match status with
    | .error rc => return (st, rc)
    | .ok () =>
      let (st, pAlarm, status) ← syncChangeAlarmAttributes client id (newAlarm client trigger) valueMask values a st
      match status with
      | .error rc => return (st, rc)
      | .ok () =>
        if !a.resource then return (← freeAlarm id pAlarm st, BadAlloc)
        else if pAlarm.trigger.pSync.isNone then
          return (st.setAlarm id (some { pAlarm with state := .inactive }), Success)
        else
          let (st, _) ← fireIfTrue (.alarm id) pAlarm.trigger a (st.setAlarm id (some pAlarm))
          return (st, Success)

def procSyncChangeAlarm (client id : ℕ) (valueMask : BitVec 32) (values : List UInt32) (a : SyncAnswers)
    (st : SyncState) : Outcome (SyncState × Status) :=
  match st.alarms id with
  | none => .ok (st, st.errorBase + XSyncBadAlarm)
  | some pAlarm =>
    if values.length ≠ valueCount valueMask then .ok (st, BadLength)
    else do
      let (st, pAlarm, status) ← syncChangeAlarmAttributes client id pAlarm valueMask values a st
      let st := st.setAlarm id (some pAlarm)
      match status with
      | .error rc => return (st, rc)
      | .ok () =>
        let (st, _) ← fireIfTrue (.alarm id) pAlarm.trigger a st
        return (st, Success)

def procSyncDestroyAlarm (id : ℕ) (st : SyncState) : Outcome SyncState :=
  match st.alarms id with
  | none => .ok st
  | some pAlarm => do
    let st ← freeAlarm id pAlarm st
    return st.setAlarm id none

structure WaitCondition where
  counter : ℕ
  valueType : ℕ
  waitValue : Int64
  testType : ℕ
  eventThreshold : Int64

/-- The loop of `ProcSyncAwait`; on an error the await is freed. -/
def initConditions (id client : ℕ) (a : SyncAnswers) :
    List SyncAwait → List WaitCondition → SyncState → Outcome (SyncState × Except Status Unit)
  | _, [], st => .ok (st, .ok ())
  | done, cond :: conds, st =>
    if cond.counter = 0 then do
      let rc := st.errorBase + XSyncBadCounter
      return (← freeAwait id st, .error rc)
    else do
      let trigger : SyncTrigger := ⟨none, cond.waitValue, cond.valueType, cond.testType, 0, .positiveComparison⟩
      let (st, trigger, status) ← syncInitTrigger (.await id done.length) trigger cond.counter XSyncCAAllTrigger a st
      match status with
      | .error rc => return (← freeAwait id st, .error rc)
      | .ok () =>
        let done := done ++ [⟨trigger, cond.eventThreshold⟩]
        initConditions id client a done conds (st.setAwait id (some ⟨client, done⟩))

/-- The loop of `SyncAwaitEpilogue`: the first condition that is true fires. -/
def awaitEpilogue (id : ℕ) (a : SyncAnswers) : ℕ → List SyncAwait → SyncState → Outcome SyncState
  | _, [], st => .ok st
  | i, pAwait :: rest, st => do
    let (st, fired) ← fireIfTrue (.await id i) pAwait.trigger a st
    if fired then return st else awaitEpilogue id a (i + 1) rest st

def procSyncAwait (client : ℕ) (conds : List WaitCondition) (a : SyncAnswers) (st : SyncState) :
    Outcome (SyncState × Status) :=
  if conds = [] then .ok (st, BadValue)
  else if !a.object || !a.resource then .ok (st, BadAlloc)
  else do
    let id := st.nextAwait
    let st := { st.setAwait id (some ⟨client, []⟩) with nextAwait := id + 1 }
    let (st, status) ← initConditions id client a [] conds st
    match status with
    | .error rc => return (st, rc)
    | .ok () =>
      match st.awaits id with
      | none => .error .fault
      | some pAwaitUnion => return (← awaitEpilogue id a 0 pAwaitUnion.waitconditions st, Success)

/-! ### Runs -/

/-- A client that exits destroys its counters, alarms and awaits one by one. -/
inductive SyncOp
  | createCounter (client : Option ℕ) (cid : ℕ) (initial : Int64)
  | createAlarm (client id : ℕ) (valueMask : BitVec 32) (values : List UInt32) (a : SyncAnswers)
  | changeAlarm (client id : ℕ) (valueMask : BitVec 32) (values : List UInt32) (a : SyncAnswers)
  | destroyAlarm (id : ℕ)
  | await (client : ℕ) (conds : List WaitCondition) (a : SyncAnswers)
  | freeAwait (id : ℕ)
  | changeCounter (c : ℕ) (newval : Int64) (a : SyncAnswers)
  | destroyCounter (c : ℕ) (a : SyncAnswers)

/-- The state, and for each walk over a list the triggers it has called. -/
abbrev SyncRun := Outcome (SyncState × List (List TriggerRef))

def syncOp (op : SyncOp) (st : SyncState) : Outcome (SyncState × List (List TriggerRef)) :=
  match op with
  | .createCounter client cid initial => .ok ((procSyncCreateCounter client cid initial st).1, [])
  | .createAlarm client id valueMask values a => do
    return ((← procSyncCreateAlarm client id valueMask values a st).1, [])
  | .changeAlarm client id valueMask values a => do
    return ((← procSyncChangeAlarm client id valueMask values a st).1, [])
  | .destroyAlarm id => do return (← procSyncDestroyAlarm id st, [])
  | .await client conds a => do return ((← procSyncAwait client conds a st).1, [])
  | .freeAwait id => do return (← freeAwait id st, [])
  | .changeCounter c newval a =>
    if (st.counters c).isSome then do
      let (st, fired) ← syncChangeCounter c newval a st
      return (st, [fired])
    else .ok (st, [])
  | .destroyCounter c a => do
    let (st, called) ← freeCounter c a st
    return (st, [called])

def syncStep (run : SyncRun) (op : SyncOp) : SyncRun := do
  let (st, walks) ← run
  let (st, new) ← syncOp op st
  return (st, walks ++ new)

def noSync (errorBase : Status) : SyncState := ⟨fun _ => none, fun _ => none, fun _ => none, 0, 0, [], errorBase⟩

end Xenia.Xext
