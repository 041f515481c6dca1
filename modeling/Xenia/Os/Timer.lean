import Xenia.Lib.Clock
import Xenia.Lib.Links

/-!
# Timers

The timers of the main loop are nodes of one list, sorted by the time they expire. Expiring,
forcing and even setting a timer can run a callback, and a callback may call any of the
functions again. So the server is a machine with a call stack: a frame for each callback that
runs and for each loop that waits for one.

A step is a call, the return of the callback on top of the stack, or the next turn of the loop
on top of it. It carries the time that the code reads from the clock during the step. A node
is `some t` for the list field of timer `t` and `none` for the head `timers`.
-/

namespace Xenia.Os.Timer

open Xenia.Lib Xenia.Lib.Clock

/-! ### Data -/

def TimerAbsolute : UInt32 := 1
def TimerForceOld : UInt32 := 2

structure OsTimerRec where
  expires : UInt32
  delta : UInt32
  callback : ℕ
  arg : ℕ

/-- What a function returns to its caller. -/
inductive Answer
  | timer (t : Option ℕ)
  | pending (b : Bool)
  | timeout (ms : ℤ)
  deriving DecidableEq

inductive Frame
  /-- `DoTimer` waits for the callback of `t`. -/
  | doTimer (t : ℕ)
  /-- `TimerSet` waits for the old callback of `t`. -/
  | timerSet (t : ℕ) (flags millis : UInt32) (func arg : ℕ) (now : UInt32)
  | doTimers (now : UInt32)
  | checkAllTimers
  | answer (a : Answer)
  deriving DecidableEq

/-- What happened, as callers and callbacks can tell. -/
inductive TimerEvent
  | armed (t : ℕ)
  | disarmed (t : ℕ)
  | called (t callback : ℕ) (now : UInt32) (arg : ℕ)
  /-- `DoTimers(now)` has returned. -/
  | expired (now : UInt32)
  | answered (a : Answer)
  deriving DecidableEq

structure TimerState where
  links : Links (Option ℕ)
  timers : ℕ → OsTimerRec
  allocated : ℕ → Bool
  next : ℕ
  stack : List Frame
  log : List TimerEvent
  /-- A traversal of the list does not come to an end. -/
  hung : Bool

namespace TimerState

/-- Before the first call: the list is empty. -/
def init : TimerState where
  links := ⟨some, some⟩
  timers := fun _ => ⟨0, 0, 0, 0⟩
  allocated := fun _ => false
  next := 0
  stack := []
  log := []
  hung := false

variable (s : TimerState)

def expires (t : ℕ) : UInt32 := (s.timers t).expires

def push (f : Frame) : TimerState := { s with stack := f :: s.stack }

def record (e : TimerEvent) : TimerState := { s with log := s.log ++ [e] }

/-- `calloc` and `xorg_list_init` of a new timer. -/
def alloc : TimerState :=
  { s with
    links := s.links.init (some s.next)
    timers := Function.update s.timers s.next ⟨0, 0, 0, 0⟩
    allocated := Function.update s.allocated s.next true
    next := s.next + 1 }

/-- `xorg_list_del` of a timer. -/
def unlink (t : ℕ) : TimerState := { s with links := s.links.del (some t) }

/-- The first timer in the list that satisfies `p`, `none` when there is none. A search that
is longer than there are timers does not end. -/
def search (p : ℕ → Bool) : Option (Option ℕ) :=
  s.links.find none (fun n => n.any p) (s.next + 1) (s.links.next none)

end TimerState

/-! ### The functions -/

def firstTimer (s : TimerState) : Option ℕ := (s.links.next none).join

def timerPending (s : TimerState) (t : ℕ) : Bool := !s.links.isEmpty (some t)

/-- `DoTimer`, up to the call of the callback. -/
def doTimer (t : ℕ) (now : UInt32) (s : TimerState) : TimerState :=
  let s := s.unlink t
  (s.record (.called t (s.timers t).callback now (s.timers t).arg)).push (.doTimer t)

/-- The timer goes before the first one that expires later, and runs if it is due. -/
def sortIntoList (t : ℕ) (millis now : UInt32) (s : TimerState) : TimerState :=
  match s.search fun existing => 0 < ahead (s.expires existing) millis with
  | none => { s with hung := true }
  | some existing =>
    let s := { s with links := s.links.append (some t) existing }.record (.armed t)
    if ahead millis now ≤ 0 then doTimer t now s else s

/-- `TimerSet` once the timer is no longer pending. -/
def timerSetFields (t : ℕ) (flags millis : UInt32) (func arg : ℕ) (now : UInt32) (s : TimerState) :
    TimerState :=
  if millis = 0 then s
  else
    let delta := if flags &&& TimerAbsolute ≠ 0 then millis - now else millis
    let expires := if flags &&& TimerAbsolute ≠ 0 then millis else millis + now
    sortIntoList t expires now { s with timers := Function.update s.timers t ⟨expires, delta, func, arg⟩ }

/-- `TimerSet`; `memory` is the answer of the allocator. -/
def timerSet (timer : Option ℕ) (flags millis : UInt32) (func arg : ℕ) (now : UInt32) (memory : Bool)
    (s : TimerState) : TimerState :=
  match timer with
  | none =>
    if memory then
      timerSetFields s.next flags millis func arg now (s.alloc.push (.answer (.timer (some s.next))))
    else s.push (.answer (.timer none))
  | some t =>
    let s := s.push (.answer (.timer (some t)))
    if timerPending s t then
      let s := s.unlink t
      if flags &&& TimerForceOld ≠ 0 then
        (s.record (.called t (s.timers t).callback now (s.timers t).arg)).push
          (.timerSet t flags millis func arg now)
      else timerSetFields t flags millis func arg now (s.record (.disarmed t))
    else timerSetFields t flags millis func arg now s

def timerForce (t : ℕ) (now : UInt32) (s : TimerState) : TimerState :=
  if timerPending s t then doTimer t now (s.push (.answer (.pending true)))
  else s.push (.answer (.pending false))

def timerCancel (timer : Option ℕ) (s : TimerState) : TimerState :=
  match timer with
  | none => s
  | some t => (s.unlink t).record (.disarmed t)

def timerFree (timer : Option ℕ) (s : TimerState) : TimerState :=
  match timer with
  | none => s
  | some t =>
    let s := timerCancel (some t) s
    { s with allocated := Function.update s.allocated t false }

/-- `check_timers`; the loops it starts are on the stack, above its own answer. -/
def checkTimers (now : UInt32) (s : TimerState) : TimerState :=
  match firstTimer s with
  | none => s.push (.answer (.timeout (-1)))
  | some timer =>
    let timeout := ahead (s.expires timer) now
    if timeout ≤ 0 then (s.push (.answer (.timeout 0))).push (.doTimers now)
    else if s.expires timer - now < (s.timers timer).delta + 250 then s.push (.answer (.timeout timeout))
    else (s.push (.answer (.timeout 0))).push .checkAllTimers

/-- One turn of the loop of `DoTimers`. -/
def doTimersTurn (now : UInt32) (rest : List Frame) (s : TimerState) : TimerState :=
  match firstTimer s with
  | none => { s with stack := rest }.record (.expired now)
  | some timer =>
    if 0 < ahead (s.expires timer) now then { s with stack := rest }.record (.expired now)
    else doTimer timer now s

/-- One turn of `CheckAllTimers`, from the label `start` on. -/
def checkAllTimersTurn (now : UInt32) (rest : List Frame) (s : TimerState) : TimerState :=
  match s.search fun timer => s.expires timer - now > (s.timers timer).delta + 250 with
  | none => { s with hung := true }
  | some none => { s with stack := rest }
  | some (some timer) => doTimer timer now s

/-! ### The machine -/

inductive TimerCall
  | set (timer : Option ℕ) (flags millis : UInt32) (func arg : ℕ) (memory : Bool)
  | cancel (timer : Option ℕ)
  | force (timer : ℕ)
  | free (timer : Option ℕ)
  | doTimers (now : UInt32)
  | checkAllTimers
  | checkTimers

/-- The timer that a call is about. -/
def TimerCall.timer : TimerCall → Option ℕ
  | .set timer .. | .cancel timer | .free timer => timer
  | .force timer => some timer
  | .doTimers _ | .checkAllTimers | .checkTimers => none

def enter (c : TimerCall) (clock : UInt32) (s : TimerState) : TimerState :=
  match c with
  | .set timer flags millis func arg memory => timerSet timer flags millis func arg clock memory s
  | .cancel timer => timerCancel timer s
  | .force timer => timerForce timer clock s
  | .free timer => timerFree timer s
  | .doTimers now => s.push (.doTimers now)
  | .checkAllTimers => s.push .checkAllTimers
  | .checkTimers => checkTimers clock s

/-- The callback on top of the stack returns `v`. -/
def callbackReturns (v clock : UInt32) (s : TimerState) : TimerState :=
  match s.stack with
  | .doTimer t :: rest =>
    let s := { s with stack := rest }
    if v ≠ 0 then timerSet (some t) 0 v (s.timers t).callback (s.timers t).arg clock true s else s
  | .timerSet t flags millis func arg now :: rest =>
    timerSetFields t flags millis func arg now { s with stack := rest }
  | _ => s

/-- The function on top of the stack goes on. -/
def goOn (clock : UInt32) (s : TimerState) : TimerState :=
  match s.stack with
  | .doTimers now :: rest => doTimersTurn now rest s
  | .checkAllTimers :: rest => checkAllTimersTurn clock rest s
  | .answer a :: rest => { s with stack := rest }.record (.answered a)
  | _ => s

/-- Control is with the main loop or with a callback. -/
def callerRuns : List Frame → Bool
  | [] | .doTimer _ :: _ | .timerSet .. :: _ => true
  | .doTimers _ :: _ | .checkAllTimers :: _ | .answer _ :: _ => false

inductive TimerInput
  | call (c : TimerCall) (clock : UInt32)
  | ret (v clock : UInt32)
  | goOn (clock : UInt32)

/-- One step; what control is not ready for does nothing. -/
def step (s : TimerState) (i : TimerInput) : TimerState :=
  if s.hung then s
  else match i with
    | .call c clock => if callerRuns s.stack then enter c clock s else s
    | .ret v clock => callbackReturns v clock s
    | .goOn clock => goOn clock s

/-! ### What callers know -/

/-- Whether `t` is pending after `e`, when `b` says whether it was before. -/
def TimerEvent.pending (t : ℕ) (b : Bool) : TimerEvent → Bool
  | .armed u => b || u = t
  | .disarmed u | .called u _ _ _ => b && u ≠ t
  | .expired _ | .answered _ => b

/-- A timer is pending from its arming until it is disarmed or its callback is called. -/
def pendingIn (log : List TimerEvent) (t : ℕ) : Bool := log.foldl (TimerEvent.pending t) false

/-- `a` is when a pending timer expires. -/
def Expiry (s : TimerState) (a : UInt32) : Prop := ∃ t, pendingIn s.log t ∧ s.expires t = a

/-- Every callback was called for a timer that was pending: there is an arming for each call,
and no call after a timer is disarmed. -/
def CallsPending (log : List TimerEvent) : Prop :=
  ∀ past t callback now arg future,
    log = past ++ .called t callback now arg :: future → pendingIn past t

end Xenia.Os.Timer
