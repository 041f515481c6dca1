import Xenia.Lib.Run

/-!
# Block and wakeup handlers

The registry of functions that the server calls before and after it waits. `BlockHandler` and
`WakeupHandler` go through an array of them; a handler that is called may register and remove
handlers, and run the handlers again. While a pass is on, removing a handler only marks it; the
end of a pass takes the marked ones out.

A step is a call, the return of the handler that is running, or the next turn of the loop of the
pass on top of the stack. A registration has a number of its own, which tells it from others of
the same functions; the source does not keep it.
-/

namespace Xenia.Dix.BlockHandlers

open Xenia.Lib

/-! ### Data -/

structure Handler where
  blockHandler : ℕ
  wakeupHandler : ℕ
  blockData : ℕ
  deriving DecidableEq

structure BlockHandlerRec where
  handler : Handler
  deleted : Bool
  number : ℕ
  deriving DecidableEq

/-- A registration: its number and its functions. -/
abbrev Registration := ℕ × Handler

def BlockHandlerRec.key (e : BlockHandlerRec) : Registration := (e.number, e.handler)

inductive RegistryEvent
  | registered (r : Registration)
  | remove (h : Handler)
  | called (r : Registration)
  /-- A pass ends, which began with the registrations `start` and has called `calls`. -/
  | passed (start calls : List Registration)
  deriving DecidableEq

/-- A pass, or a handler that it runs. `screens` are the handlers of screens still to be called;
`start` and `calls` are kept for the event at the end of the pass. -/
inductive Frame
  | block (i screens : ℕ) (start calls : List Registration)
  | blockScreens (screens : ℕ) (start calls : List Registration)
  | wakeupScreens (screens : ℕ) (start : List Registration)
  | wakeup (i : ℕ) (start calls : List Registration)
  | running

/-- `handlers` is the array as it is allocated; the first `numHandlers` elements are in use. -/
structure RegistryState where
  handlers : List BlockHandlerRec
  numHandlers : ℕ
  inHandler : ℕ
  handlerDeleted : Bool
  next : ℕ
  stack : List Frame
  log : List RegistryEvent

/-- The registrations that were made and not removed. A removal is of the oldest of its
functions. -/
def RegistryEvent.account (rs : List Registration) : RegistryEvent → List Registration
  | .registered r => rs ++ [r]
  | .remove h => rs.eraseP fun r => r.2 = h
  | .called _ | .passed _ _ => rs

def registeredIn (log : List RegistryEvent) : List Registration := log.foldl RegistryEvent.account []

namespace RegistryState

def init : RegistryState := ⟨[], 0, 0, false, 0, [], []⟩

variable (s : RegistryState)

def used : List BlockHandlerRec := s.handlers.take s.numHandlers

def record (e : RegistryEvent) : RegistryState := { s with log := s.log ++ [e] }

/-- `for (j = i; j < numHandlers - 1; j++) handlers[j] = handlers[j + 1]; numHandlers--;`
The last element in use stays where it is. -/
def takeOut (i : ℕ) : RegistryState :=
  { s with
    handlers := s.used.eraseIdx i ++ s.handlers.drop (s.numHandlers - 1)
    numHandlers := s.numHandlers - 1 }

/-- The loop that takes out the marked elements, from `i` on, with `fuel` turns. -/
def compactFrom : ℕ → ℕ → RegistryState → RegistryState
  | 0, _, s => s
  | fuel + 1, i, s =>
    if i < s.numHandlers then
      if s.handlers[i]?.any (·.deleted) then compactFrom fuel i (s.takeOut i) else compactFrom fuel (i + 1) s
    else s

end RegistryState

/-! ### The functions -/

/-- `memory` is the answer of `realloc`, should it be asked. -/
def registerBlockAndWakeupHandlers (h : Handler) (memory : Bool) (s : RegistryState) : RegistryState :=
  let new : BlockHandlerRec := ⟨h, false, s.next⟩
  let add (handlers : List BlockHandlerRec) : RegistryState :=
    { s with
      handlers := handlers
      numHandlers := s.numHandlers + 1
      next := s.next + 1 }.record (.registered (s.next, h))
  if s.numHandlers ≥ s.handlers.length then
    if memory then add (s.handlers.take s.numHandlers ++ [new]) else s
  else add (s.handlers.set s.numHandlers new)

/-- The element that a removal finds: the first of these functions, marked or not. -/
def find (h : Handler) (s : RegistryState) : Option ℕ := s.used.findIdx? fun e => e.handler = h

def removeBlockAndWakeupHandlers (h : Handler) (s : RegistryState) : RegistryState :=
  let s := s.record (.remove h)
  match find h s with
  | none => s
  | some i =>
    if s.inHandler ≠ 0 then
      { s with
        handlerDeleted := true
        handlers := s.handlers.modify i fun e => { e with deleted := true } }
    else s.takeOut i

/-- The end of a pass. -/
def finish (start calls : List Registration) (rest : List Frame) (s : RegistryState) : RegistryState :=
  let s := if s.handlerDeleted then
    { s.compactFrom (s.numHandlers + 1) 0 with handlerDeleted := false } else s
  { s with
    inHandler := s.inHandler - 1
    stack := rest }.record (.passed start calls)

/-- A pass begins. -/
def begin (f : Frame) (s : RegistryState) : RegistryState :=
  { s with
    inHandler := s.inHandler + 1
    stack := f :: s.stack }

/-- The call of a handler by the pass, which goes on as `f`. -/
def call (e : BlockHandlerRec) (f : Frame) (rest : List Frame) (s : RegistryState) : RegistryState :=
  { s with stack := .running :: f :: rest }.record (.called e.key)

/-- One turn of the loop of `BlockHandler`. -/
def blockTurn (i screens : ℕ) (start calls : List Registration) (rest : List Frame) (s : RegistryState) :
    RegistryState :=
  if i < s.numHandlers then
    match s.handlers[i]? with
    | none => s
    | some e =>
      if e.deleted then { s with stack := .block (i + 1) screens start calls :: rest }
      else call e (.block (i + 1) screens start (calls ++ [e.key])) rest s
  else { s with stack := .blockScreens screens start calls :: rest }

/-- One turn of the loop of `WakeupHandler`, which goes down. -/
def wakeupTurn (i : ℕ) (start calls : List Registration) (rest : List Frame) (s : RegistryState) :
    RegistryState :=
  match i with
  | 0 => finish start calls rest s
  | i + 1 =>
    match s.handlers[i]? with
    | none => s
    | some e =>
      if e.deleted then { s with stack := .wakeup i start calls :: rest }
      else call e (.wakeup i start (calls ++ [e.key])) rest s

/-- The pass on top of the stack goes on. -/
def goOn (s : RegistryState) : RegistryState :=
  match s.stack with
  | .block i screens start calls :: rest => blockTurn i screens start calls rest s
  | .blockScreens 0 start calls :: rest => finish start calls rest s
  | .blockScreens (n + 1) start calls :: rest =>
    { s with stack := .running :: .blockScreens n start calls :: rest }
  | .wakeupScreens 0 start :: rest => { s with stack := .wakeup s.numHandlers start [] :: rest }
  | .wakeupScreens (n + 1) start :: rest => { s with stack := .running :: .wakeupScreens n start :: rest }
  | .wakeup i start calls :: rest => wakeupTurn i start calls rest s
  | .running :: _ | [] => s

/-! ### The machine -/

inductive RegistryInput
  | register (h : Handler) (memory : Bool)
  | remove (h : Handler)
  | blockHandler (screens : ℕ)
  | wakeupHandler (screens : ℕ)
  | ret
  | goOn

/-- Control is with the server or with a handler. -/
def callerRuns : List Frame → Bool
  | [] | .running :: _ => true
  | _ => false

/-- One step; what control is not ready for does nothing. -/
def step (s : RegistryState) (i : RegistryInput) : RegistryState :=
  match i with
  | .register h memory => if callerRuns s.stack then registerBlockAndWakeupHandlers h memory s else s
  | .remove h => if callerRuns s.stack then removeBlockAndWakeupHandlers h s else s
  | .blockHandler screens =>
    if callerRuns s.stack then begin (.block 0 screens (registeredIn s.log) []) s else s
  | .wakeupHandler screens =>
    if callerRuns s.stack then begin (.wakeupScreens screens (registeredIn s.log)) s else s
  | .ret =>
    match s.stack with
    | .running :: rest => { s with stack := rest }
    | _ => s
  | .goOn => goOn s

/-! ### What is asked of a run -/

/-- A handler is called while it is registered. -/
def CallsRegistered (log : List RegistryEvent) : Prop :=
  ∀ past r future, log = past ++ .called r :: future → r ∈ registeredIn past

/-- A pass calls every registration that lasts from its beginning to its end exactly once. -/
def PassesComplete (log : List RegistryEvent) : Prop :=
  ∀ past start calls future, log = past ++ .passed start calls :: future →
    ∀ r ∈ start, r ∈ registeredIn past → calls.count r = 1

end Xenia.Dix.BlockHandlers
