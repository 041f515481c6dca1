import Xenia.Lib.SortedTable
import Xenia.Os.PollTable

/-!
# The poll table with epoll

Entries are allocated one by one and the table is an array of pointers to them; the kernel holds the pointer of each descriptor and
gives it back with the events. An entry that is removed while a batch of events is delivered loses its callback and is put on a
list, and `ospoll_wait` frees the list after the batch.
-/

namespace Xenia.Os.Ospoll

open Xenia.Lib

/-- `struct ospollfd`; a removed entry has no callback. -/
structure Ospollfd where
  fd : ℤ
  xevents : Events
  trigger : Trigger
  callback : Option ℕ
  data : ℕ
deriving DecidableEq, Repr, Inhabited

/-- What the kernel keeps for a descriptor. -/
structure EpollEvent where
  read : Bool
  write : Bool
  edge : Bool
  ptr : ℕ
deriving DecidableEq, Repr

structure Epoll where
  heap : ℕ → Option Ospollfd
  fds : List ℕ
  size : ℕ
  deleted : List ℕ
  kernel : ℤ → Option EpollEvent
  /-- The events that `ospoll_wait` has yet to deliver. -/
  batch : Option (List (ℕ × Events))
  /-- Freed memory has been used. -/
  fault : Bool

namespace Epoll

def MAXCLIENTS : ℕ := 2048

variable (s : Epoll)

/-- The descriptor of an entry. -/
def fdOf (heap : ℕ → Option Ospollfd) (p : ℕ) : ℤ := ((heap p).getD default).fd

def ospoll_find (fd : ℤ) : ℤ := bsearch (fdOf s.heap) s.fds fd

/-- `calloc` of an entry: memory that is not in use. -/
def calloc (answer : Option ℕ) : Option ℕ := answer.filter fun p => (s.heap p).isNone

/-- A write to an entry. -/
def modify (p : ℕ) (f : Ospollfd → Ospollfd) : ℕ → Option Ospollfd := Function.update s.heap p ((s.heap p).map f)

def grow (size : ℕ) : ℕ := if size ≠ 0 then size * 2 else MAXCLIENTS * 2

def ospoll_add (fd : ℤ) (trigger : Trigger) (callback data : ℕ) (resources : Resources) : Epoll × Bool :=
  let pos := ospoll_find s fd
  if pos < 0 then
    match calloc s resources.entry with
    | none => (s, false)
    | some osfd =>
      -- the entry is freed again when there is no room for it
      if s.fds.length ≥ s.size ∧ resources.array = false then (s, false)
      else
        let s := if s.fds.length ≥ s.size then { s with size := grow s.size } else s
        if resources.ctl = false then (s, false)
        else
          let entry : Ospollfd :=
            { fd := fd, xevents := Events.none, trigger := trigger, callback := some callback, data := data }
          ({ s with
             heap := Function.update s.heap osfd (some entry)
             kernel := Function.update s.kernel fd
               (some { read := false, write := false, edge := trigger == .edge, ptr := osfd })
             fds := s.fds.insertIdx (-pos - 1).toNat osfd }, true)
  else
    -- the kernel is not told of another trigger
    ({ s with
       heap := modify s (s.fds.getD pos.toNat 0) fun o => { o with data := data, callback := some callback, trigger := trigger } },
      true)

def ospoll_remove (fd : ℤ) : Epoll :=
  let pos := ospoll_find s fd
  if pos ≥ 0 then
    let osfd := s.fds.getD pos.toNat 0
    { s with
      kernel := Function.update s.kernel fd none
      fds := s.fds.eraseIdx pos.toNat
      heap := modify s osfd fun o => { o with callback := none, data := 0 }
      deleted := osfd :: s.deleted }
  else s

/-- `EPOLL_CTL_MOD` for a descriptor that the kernel has. -/
def epoll_mod (osfd : ℕ) : Epoll :=
  let o := (s.heap osfd).getD default
  { s with
    kernel := Function.update s.kernel o.fd ((s.kernel o.fd).map fun _ =>
      { read := o.xevents.read, write := o.xevents.write, edge := o.trigger == .edge, ptr := osfd }) }

def ospoll_listen (fd : ℤ) (xevents : Events) : Epoll :=
  let pos := ospoll_find s fd
  if pos ≥ 0 then
    let osfd := s.fds.getD pos.toNat 0
    epoll_mod { s with heap := modify s osfd fun o => { o with xevents := o.xevents.union xevents } } osfd
  else s

def ospoll_mute (fd : ℤ) (xevents : Events) : Epoll :=
  let pos := ospoll_find s fd
  if pos ≥ 0 then
    let osfd := s.fds.getD pos.toNat 0
    epoll_mod { s with heap := modify s osfd fun o => { o with xevents := o.xevents.diff xevents } } osfd
  else s

/-- `epoll_wait`: events of some of the descriptors that the kernel has. -/
def wait (reported : List (ℤ × Events)) : Epoll :=
  match s.batch with
  | some _ => s
  | none => { s with batch := some (reported.filterMap fun r => (s.kernel r.1).map fun k => (k.ptr, r.2)) }

def ospoll_clean_deleted : Epoll :=
  { s with heap := fun p => if p ∈ s.deleted then none else s.heap p, deleted := [] }

/-- A turn of the loop of `ospoll_wait`, and what is called in it. -/
def turn : Epoll × Option Call :=
  match s.batch with
  | none => (s, none)
  | some [] => ({ ospoll_clean_deleted s with batch := none }, none)
  | some (ev :: rest) =>
    let s' := { s with batch := some rest }
    match s.heap ev.1 with
    | none => ({ s' with fault := true }, none)
    | some osfd =>
      (s', osfd.callback.map fun callback => { fd := osfd.fd, xevents := ev.2, callback := callback, data := osfd.data })

/-- `ospoll_create`. -/
def created : Epoll :=
  { heap := fun _ => none, fds := [], size := 0, deleted := [], kernel := fun _ => none, batch := none, fault := false }

/-- `ospoll_reset_events` does nothing here. -/
def step (s : Epoll) : Op → Epoll
  | .add fd trigger callback data resources => (ospoll_add s fd trigger callback data resources).1
  | .remove fd => ospoll_remove s fd
  | .listen fd xevents => ospoll_listen s fd xevents
  | .mute fd xevents => ospoll_mute s fd xevents
  | .reset_events _ => s
  | .wait reported => wait s reported
  | .turn => (turn s).1

/-- The answer of `ospoll_add`. -/
def added (s : Epoll) : Op → Bool
  | .add fd trigger callback data resources => (ospoll_add s fd trigger callback data resources).2
  | _ => false

end Epoll

end Xenia.Os.Ospoll
