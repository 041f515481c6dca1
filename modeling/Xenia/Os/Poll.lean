import Xenia.Lib.SortedTable
import Xenia.Os.PollTable

/-!
# The poll table with poll

Two arrays side by side: the one given to `poll`, with the events listened for and those reported, and one with the rest of each
entry. The loop of `ospoll_wait` goes through the arrays by index, and stops after a callback that has put an entry in or taken one
out. An edge is found by comparing with the events reported before.
-/

namespace Xenia.Os.Ospoll

open Xenia.Lib

/-- `struct pollfd`. -/
structure PollFd where
  fd : ℤ
  events : Events
  revents : Events
deriving DecidableEq, Repr, Inhabited

/-- `struct ospollfd`. -/
structure PollEntry where
  trigger : Trigger
  callback : ℕ
  data : ℕ
  revents : Events
deriving DecidableEq, Repr, Inhabited

/-- Where `ospoll_wait` is: not in its loop, before an index, or in the callback of one. -/
inductive Place
  | idle
  | before (f : ℕ)
  | inside (f : ℕ)
deriving DecidableEq, Repr

structure Poll where
  fds : List PollFd
  osfds : List PollEntry
  size : ℕ
  changed : Bool
  place : Place
deriving DecidableEq, Repr

namespace Poll

def MAXCLIENTS : ℕ := 2048

variable (s : Poll)

def ospoll_find (fd : ℤ) : ℤ := bsearch PollFd.fd s.fds fd

def grow (size : ℕ) : ℕ := if size ≠ 0 then size * 2 else MAXCLIENTS * 2

/-- The entry at a position, whether it is new or not. -/
def setEntry (pos : ℕ) (trigger : Trigger) (callback data : ℕ) : Poll :=
  { s with osfds := s.osfds.modify pos fun o => { o with trigger := trigger, callback := callback, data := data } }

def ospoll_add (fd : ℤ) (trigger : Trigger) (callback data : ℕ) (resources : Resources) : Poll × Bool :=
  let pos := ospoll_find s fd
  if pos < 0 then
    -- both arrays must grow, and the size is only noted when they have
    if s.fds.length = s.size ∧ (resources.array = false ∨ resources.second = false) then (s, false)
    else
      let s := if s.fds.length = s.size then { s with size := grow s.size } else s
      let pos := (-pos - 1).toNat
      let s :=
        { s with
          fds := s.fds.insertIdx pos { fd := fd, events := Events.none, revents := Events.none }
          osfds := s.osfds.insertIdx pos { trigger := trigger, callback := callback, data := data, revents := Events.none }
          changed := true }
      (setEntry s pos trigger callback data, true)
  else (setEntry s pos.toNat trigger callback data, true)

def ospoll_remove (fd : ℤ) : Poll :=
  let pos := ospoll_find s fd
  if pos ≥ 0 then
    { s with fds := s.fds.eraseIdx pos.toNat, osfds := s.osfds.eraseIdx pos.toNat, changed := true }
  else s

/-- What is listened for anew counts as not reported before. -/
def ospoll_listen (fd : ℤ) (xevents : Events) : Poll :=
  let pos := ospoll_find s fd
  if pos ≥ 0 then
    { s with
      fds := s.fds.modify pos.toNat fun p => { p with events := p.events.union xevents.inOut }
      osfds := s.osfds.modify pos.toNat fun o => { o with revents := o.revents.diff xevents.inOut } }
  else s

def ospoll_mute (fd : ℤ) (xevents : Events) : Poll :=
  let pos := ospoll_find s fd
  if pos ≥ 0 then
    { s with fds := s.fds.modify pos.toNat fun p => { p with events := p.events.diff xevents.inOut } }
  else s

def ospoll_reset_events (fd : ℤ) : Poll :=
  let pos := ospoll_find s fd
  if pos ≥ 0 then { s with osfds := s.osfds.modify pos.toNat fun o => { o with revents := Events.none } } else s

/-- `xserver_poll`: events of some of the descriptors in the array. -/
def wait (reported : List (ℤ × Events)) : Poll :=
  match s.place with
  | .idle =>
    let fds := s.fds.map fun p => { p with revents := ((reported.find? (·.1 == p.fd)).map (·.2)).getD Events.none }
    -- with nothing ready the loop is not entered
    { s with fds := fds, changed := false, place := if fds.any (·.revents != Events.none) then .before 0 else .idle }
  | _ => s

/-- A turn of the loop of `ospoll_wait`, and what is called in it. -/
def turn : Poll × Option Call :=
  match s.place with
  | .idle => (s, none)
  | .inside f => ({ s with place := if s.changed then .idle else .before (f + 1) }, none)
  | .before f =>
    match s.fds[f]?, s.osfds[f]? with
    | some p, some o =>
      let s' := { s with osfds := s.osfds.modify f fun o => { o with revents := p.revents.inOut } }
      let revents := if o.trigger = .edge then p.revents.diff o.revents else p.revents
      if revents ≠ Events.none then
        ({ s' with place := .inside f }, some { fd := p.fd, xevents := revents, callback := o.callback, data := o.data })
      else ({ s' with place := .before (f + 1) }, none)
    | _, _ => ({ s with place := .idle }, none)

/-- `ospoll_create`. -/
def created : Poll := { fds := [], osfds := [], size := 0, changed := false, place := .idle }

def step (s : Poll) : Op → Poll
  | .add fd trigger callback data resources => (ospoll_add s fd trigger callback data resources).1
  | .remove fd => ospoll_remove s fd
  | .listen fd xevents => ospoll_listen s fd xevents
  | .mute fd xevents => ospoll_mute s fd xevents
  | .reset_events fd => ospoll_reset_events s fd
  | .wait reported => wait s reported
  | .turn => (turn s).1

/-- The answer of `ospoll_add`. -/
def added (s : Poll) : Op → Bool
  | .add fd trigger callback data resources => (ospoll_add s fd trigger callback data resources).2
  | _ => false

end Poll

end Xenia.Os.Ospoll
