import Xenia.Lib.Run
import Xenia.Lib.Mem

/-!
# The input event queue

The ring buffer between the drivers and the server: `mieqEnqueue`, `mieqGrowQueue` and the
loop of `mieqProcessInputEvents`. A slot holds a pointer to the storage of its event, the
device the event came from and a screen. Storage is allocated when the queue grows and
stays with its slot; storage that was freed reads as `none`, and a step that touches it has
no result. The answers of the allocator are arguments.
-/

namespace Xenia.Mi

open Xenia.Lib

def QUEUE_INITIAL_SIZE : ℕ := 512

/-- What the queue looks at of a device: its number, and the screen its events are for. -/
structure Device where
  id : ℕ
  enqueueScreen : ℕ
  deriving DecidableEq

/-- `InternalEvent`; `body` is what the queue only copies. -/
structure InternalEvent (β : Type) where
  isMotion : Bool
  time : ℕ
  body : β
  deriving DecidableEq

structure EventRec where
  events : ℕ
  pScreen : Option ℕ
  pDev : Option Device

structure EventQueue (β : Type) where
  head : ℤ
  tail : ℤ
  lastEventTime : ℕ
  lastMotion : ℕ
  events : ℕ → EventRec
  nevents : ℕ
  dropped : ℕ
  /-- the storage of events -/
  storage : ℕ → Option (InternalEvent β)
  nextStorage : ℕ

/-- An event as a driver hands it over: one of motion comes from a device. -/
structure Incoming (β : Type) where
  pDev : Option Device
  event : InternalEvent β
  device : event.isMotion = true → pDev.isSome

/-- The answers to `mieqGrowQueue`: whether there is memory for the array, and the first new
slot for whose event there is none. -/
structure GrowAnswers where
  array : Bool
  firstFailed : Option ℕ

/-- Conversion to `uint`. -/
def toUint (x : ℤ) : ℕ := (x % 2 ^ 32).toNat

variable {β : Type} [Inhabited β]

/-- A new event of `InitEventList`. -/
def blankEvent : InternalEvent β := ⟨false, 0, default⟩

def mieqNumEnqueued (q : EventQueue β) : ℕ :=
  if q.nevents ≠ 0 then
    let n_enqueued := toSize (wrapInt (q.tail - q.head) + q.nevents)
    if n_enqueued ≥ q.nevents then n_enqueued - q.nevents else n_enqueued
  else 0

/-- The old slots in the new array: first those from the head on, then the others. -/
def copiedEvents (q : EventQueue β) (i : ℕ) : EventRec :=
  let first_hunk := q.nevents - q.head.toNat
  if i < first_hunk then q.events (q.head.toNat + i) else q.events (i - first_hunk)

def mieqGrowQueue (a : GrowAnswers) (new_nevents : ℕ) (q : EventQueue β) : EventQueue β × Bool :=
  if new_nevents ≤ q.nevents then (q, false)
  else if !a.array then (q, false)
  else
    let n_enqueued := mieqNumEnqueued q
    let failed := a.firstFailed.any fun k => q.nevents + k < new_nevents
    if failed then
      -- all events of the new array are freed, and those of the old slots are among them
      ({ q with storage := fun p =>
          if (List.range q.nevents).any fun j => (copiedEvents q j).events = p then none
          else q.storage p }, false)
    else
      ({ q with
          tail := wrapInt n_enqueued
          head := 0
          nevents := new_nevents
          events := fun i =>
            if i < q.nevents then copiedEvents q i else ⟨q.nextStorage + (i - q.nevents), none, none⟩
          storage := fun p =>
            if q.nextStorage ≤ p ∧ p < q.nextStorage + (new_nevents - q.nevents) then some blankEvent
            else q.storage p
          nextStorage := q.nextStorage + (new_nevents - q.nevents) }, true)

/-- The end of `mieqEnqueue`: the event goes into slot `oldtail`. -/
def storeEvent (x : Incoming β) (isMotion oldtail : ℕ) (q : EventQueue β) : Option (EventQueue β) :=
  let evt := (q.events oldtail).events
  match q.storage evt with
  | none => none
  | some _ => some { q with
      storage := Function.update q.storage evt (some x.event)
      lastEventTime := x.event.time
      events := Function.update q.events oldtail ⟨evt, x.pDev.map Device.enqueueScreen, x.pDev⟩
      lastMotion := isMotion
      tail := wrapInt ((oldtail + 1) % q.nevents : ℕ) }

/-- The number of the device of a motion event, and 0 for any other event. -/
def Incoming.motionId (x : Incoming β) : ℕ := if x.event.isMotion then x.pDev.elim 0 Device.id else 0

def mieqEnqueue (a : GrowAnswers) (x : Incoming β) (q : EventQueue β) : Option (EventQueue β) :=
  let oldtail := toUint q.tail
  let n_enqueued := mieqNumEnqueued q
  let isMotion := x.motionId
  if isMotion ≠ 0 ∧ isMotion = q.lastMotion ∧ oldtail ≠ toUint q.head then
    storeEvent x isMotion ((oldtail + 2 ^ 32 - 1) % 2 ^ 32 % q.nevents) q
  else if n_enqueued + 1 = q.nevents then
    let (q, grown) := mieqGrowQueue a (q.nevents <<< 1) q
    if !grown then some { q with dropped := q.dropped + 1 }
    else storeEvent x isMotion (toUint q.tail) q
  else storeEvent x isMotion oldtail q

/-- What the loop of `mieqProcessInputEvents` takes out of a slot. -/
structure Item (β : Type) where
  event : InternalEvent β
  pScreen : Option ℕ
  pDev : Option Device
  deriving DecidableEq

def itemAt (q : EventQueue β) (i : ℕ) : Option (Item β) :=
  (q.storage (q.events i).events).map fun e => ⟨e, (q.events i).pScreen, (q.events i).pDev⟩

/-- One turn of the loop, up to where the lock is given back. -/
def dequeue (q : EventQueue β) : Option (EventQueue β × Option (Item β)) :=
  if q.head ≠ q.tail then
    (itemAt q q.head.toNat).map fun e =>
      ({ q with head := wrapInt ((q.head + 1) % q.nevents) }, some e)
  else some (q, none)

/-- The queue before `mieqInit`, and after it. -/
def noQueue (time : ℕ) : EventQueue β where
  head := 0
  tail := 0
  lastEventTime := time
  lastMotion := 0
  events _ := ⟨0, none, none⟩
  nevents := 0
  dropped := 0
  storage _ := none
  nextStorage := 0

def mieqInit (time : ℕ) : EventQueue β :=
  (mieqGrowQueue ⟨true, none⟩ QUEUE_INITIAL_SIZE (noQueue time)).1

/-! ### Runs -/

/-- The events may come in at any time; the loop starts, and takes one event after the other. -/
inductive QueueOp (β : Type)
  | enqueue (x : Incoming β) (a : GrowAnswers)
  | resume
  | dequeue

/-- What the drivers handed over and the queue took, and what the loop has been given. -/
structure QueueLog (β : Type) where
  taken : List (Item β)
  given : List (Item β)

def Incoming.item (x : Incoming β) : Item β := ⟨x.event, x.pDev.map Device.enqueueScreen, x.pDev⟩

/-- A motion event of the device with this number, which is not 0. -/
def Item.motionOf (y : Item β) (id : ℕ) : Bool := y.event.isMotion && y.pDev.any fun d => d.id = id

/-- An event comes in after the others; a motion event takes the place of one of the same
device right before it, while that is still waiting. -/
def QueueLog.take (log : QueueLog β) (x : Incoming β) : QueueLog β :=
  if x.motionId ≠ 0 ∧ log.given.length < log.taken.length ∧
      log.taken.getLast?.any fun y => y.motionOf x.motionId then
    { log with taken := log.taken.dropLast ++ [x.item] }
  else { log with taken := log.taken ++ [x.item] }

abbrev QueueRun (β : Type) := Option (EventQueue β × QueueLog β)

def queueStep (st : QueueRun β) (op : QueueOp β) : QueueRun β :=
  st.bind fun (q, log) =>
    match op with
    | .enqueue x a => (mieqEnqueue a x q).map fun q' =>
        (q', if q'.dropped = q.dropped then log.take x else log)
    | .resume => some ({ q with dropped := 0 }, log)
    | .dequeue => (dequeue q).map fun (q', y) => (q', { log with given := log.given ++ y.toList })

end Xenia.Mi
