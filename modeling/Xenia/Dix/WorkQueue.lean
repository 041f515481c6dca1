import Xenia.Lib.Chain
import Xenia.Lib.Run

/-!
# The work queue

Functions that the server calls before it waits for input. The queue is a singly linked list;
`workQueueLast` points to the link that the next entry goes into. `ProcessWorkQueue`,
`ProcessWorkQueueZombies` and `ClearWorkQueue` walk along the links, and the functions that the
first two call may queue more.

A step is a call, the return of the function that is running, or the next turn of the loop. An
entry is known by its address; addresses are not used twice. A step that reads, writes or frees
an entry that was freed sets `fault`.
-/

namespace Xenia.Dix.WorkQueue

open Xenia.Lib

/-! ### Data -/

structure WorkQueueRec where
  function : ℕ
  client : Option ℕ
  closure : ℕ
  deriving DecidableEq

/-- An entry with its address. -/
structure Item where
  address : ℕ
  work : WorkQueueRec
  deriving DecidableEq

inductive Walk
  | processWorkQueue
  | processWorkQueueZombies
  | clearWorkQueue
  deriving DecidableEq

inductive WorkEvent
  | queued (q : Item)
  /-- The server finds that a client is gone. -/
  | gone (client : ℕ)
  | began (w : Walk)
  | called (q : Item)
  /-- The function of an entry returns; `done` says that the walk takes the entry out. -/
  | returned (q : Item) (done : Bool)
  /-- An entry is taken out and was not called. -/
  | dropped (q : Item)
  | ended
  deriving DecidableEq

/-- A walk: the local variable `p`, and the entry whose function is running. -/
structure Cursor where
  walk : Walk
  p : Link ℕ
  running : Option ℕ

structure WorkState where
  links : Link ℕ → Option ℕ
  workQueueLast : Link ℕ
  entries : ℕ → WorkQueueRec
  allocated : ℕ → Bool
  next : ℕ
  clientGone : ℕ → Bool
  cursor : Option Cursor
  log : List WorkEvent
  fault : Bool

namespace WorkState

def init : WorkState where
  links := fun _ => none
  workQueueLast := .head
  entries := fun _ => ⟨0, none, 0⟩
  allocated := fun _ => false
  next := 0
  clientGone := fun _ => false
  cursor := none
  log := []
  fault := false

variable (s : WorkState)

def item (q : ℕ) : Item := ⟨q, s.entries q⟩

def record (e : WorkEvent) : WorkState := { s with log := s.log ++ [e] }

/-- The link is the variable `workQueue` or lies in an entry that was not freed. -/
def valid : Link ℕ → Bool
  | .head => true
  | .next q => s.allocated q

end WorkState

/-! ### The functions -/

/-- `QueueWorkProc`; `memory` is the answer of the allocator. -/
def queueWorkProc (w : WorkQueueRec) (memory : Bool) (s : WorkState) : WorkState :=
  if !memory then s
  else if !s.valid s.workQueueLast then { s with fault := true }
  else
    let q := s.next
    let links := Function.update s.links (.next q) none
    { s with
      links := Function.update links s.workQueueLast (some q)
      workQueueLast := .next q
      entries := Function.update s.entries q w
      allocated := Function.update s.allocated q true
      next := q + 1
      log := s.log ++ [.queued ⟨q, w⟩] }

/-- The walk begins at the head. -/
def begin (w : Walk) (s : WorkState) : WorkState :=
  { s with cursor := some ⟨w, .head, none⟩ }.record (.began w)

/-- `*p = q.next; free(q);` -/
def takeOut (c : Cursor) (q : ℕ) (s : WorkState) : WorkState :=
  if !s.valid c.p || !s.allocated q then { s with fault := true }
  else
    { s with
      links := Function.update s.links c.p (s.links (.next q))
      allocated := Function.update s.allocated q false
      cursor := some { c with running := none } }

/-- The test at the top of the loop, and its body up to the call of the function. -/
def turn (c : Cursor) (s : WorkState) : WorkState :=
  if !s.valid c.p then { s with fault := true }
  else match s.links c.p with
    | none => { s with workQueueLast := c.p, cursor := none }.record .ended
    | some q =>
      if !s.allocated q then { s with fault := true }
      else
        let call := { s with cursor := some { c with running := some q } }.record (.called (s.item q))
        match c.walk with
        | .processWorkQueue => call
        | .processWorkQueueZombies =>
          if (s.entries q).client.any s.clientGone then call
          else { s with cursor := some { c with p := .next q } }
        | .clearWorkQueue => takeOut c q (s.record (.dropped (s.item q)))

/-- The function of `q` returns `b`; the walk over the clients that are gone does not look at it. -/
def functionReturns (c : Cursor) (q : ℕ) (b : Bool) (s : WorkState) : WorkState :=
  let done := c.walk = .processWorkQueueZombies || b
  let s := s.record (.returned (s.item q) done)
  if done then takeOut c q s else { s with cursor := some { c with p := .next q, running := none } }

/-! ### The machine -/

inductive WorkInput
  | queue (w : WorkQueueRec) (memory : Bool)
  | walk (w : Walk)
  | clientGone (client : ℕ)
  | ret (b : Bool)
  | goOn

/-- One step. Entries are queued at any time, by the functions that are called as well; a walk
begins, and a client goes, when no walk is on. What does not fit does nothing. -/
def step (s : WorkState) (i : WorkInput) : WorkState :=
  if s.fault then s
  else match i, s.cursor with
    | .queue w memory, none => queueWorkProc w memory s
    | .queue w memory, some ⟨_, _, some _⟩ => queueWorkProc w memory s
    | .walk w, none => begin w s
    | .clientGone client, none =>
      { s with clientGone := Function.update s.clientGone client true }.record (.gone client)
    | .ret b, some ⟨w, p, some q⟩ => functionReturns ⟨w, p, some q⟩ q b s
    | .goOn, some ⟨w, p, none⟩ => turn ⟨w, p, none⟩ s
    | _, _ => s

/-! ### What is asked of a run -/

/-- The entries queued and not taken out yet, in the order of queueing. -/
def WorkEvent.pending (queue : List Item) : WorkEvent → List Item
  | .queued q => queue ++ [q]
  | .returned q done => if done then queue.erase q else queue
  | .dropped q => queue.erase q
  | .gone _ | .began _ | .called _ | .ended => queue

def pendingIn (log : List WorkEvent) : List Item := log.foldl WorkEvent.pending []

def queuedIn (log : List WorkEvent) : List Item :=
  log.filterMap fun e => match e with
    | .queued q => some q
    | _ => none

def calledIn (log : List WorkEvent) : List Item :=
  log.filterMap fun e => match e with
    | .called q => some q
    | _ => none

/-- The walk has to call this entry, after the events `past`. -/
def wanted (past : List WorkEvent) (w : Walk) (q : Item) : Bool :=
  match w with
  | .processWorkQueue | .clearWorkQueue => true
  | .processWorkQueueZombies => q.work.client.any fun client => .gone client ∈ past

/-- A walk has called, each once and in the order of the queue, the entries it has to call: those
that were pending when it began and those queued since. -/
def WalksInOrder (log : List WorkEvent) : Prop :=
  ∀ past w during future, log = past ++ .began w :: (during ++ .ended :: future) →
    (∀ w', .began w' ∉ during) →
    calledIn during = (pendingIn past ++ queuedIn during).filter (wanted past w)

/-- An entry is called while it is pending: never after it was taken out. -/
def CallsPending (log : List WorkEvent) : Prop :=
  ∀ past q future, log = past ++ .called q :: future → q ∈ pendingIn past

end Xenia.Dix.WorkQueue
