import Xenia.Lib.Run
import Xenia.Lib.Mem
import Xenia.Lib.Links

/-!
# The output side of the OS layer

`WriteToClient` and `FlushClient` with the output buffers, the free list they share and
the list of clients with output pending. What the operating system answers during a call
(the results of the transport writes, of the allocations) is an argument of the call.

A client that is gone, and the server's own client, get nothing; the callbacks of
extensions and the bookkeeping of the poll loop are left out.
-/

namespace Xenia.Os

open Xenia.Lib

def BUFSIZE : ℕ := 16384
def BUFWATERMARK : ℕ := 32768

/-- The bytes to add to reach a multiple of four: `(-bytes) & 3`. -/
def paddingForInt32 (bytes : ℤ) : ℕ := (-bytes % 4).toNat

@[simp] theorem paddingForInt32_natCast (n : ℕ) : paddingForInt32 (n : ℤ) = padLen n := by
  unfold paddingForInt32 padLen; omega

structure ConnectionOutput where
  buf : List Byte
  size : ℤ
  count : ℤ

/-- The fields of a client and of its connection that the output side uses, and the
bytes its transport has accepted. -/
structure OutClient where
  output : Option ConnectionOutput
  /-- The transport connection; it is null once the client is aborted. -/
  transConn : Bool
  isLocal : Bool
  clientGone : Bool
  noClientException : ℤ
  wire : List Byte

/-- The list nodes: `none` is `output_pending_clients`, `some c` the node of client `c`. -/
abbrev Node := Option ℕ

structure OutState where
  clients : ℕ → OutClient
  freeOutputs : List ConnectionOutput
  outputPending : Links Node
  newOutputPending : Bool
  criticalOutputPending : Bool

/-- The index of the server's own client. -/
def serverClient : ℕ := 0

/-- What the transport answers to one write: so many bytes taken, or an error. -/
inductive WriteResult
  | wrote (n : ℕ)
  | wouldBlock
  | error

namespace OutState

def modify (s : OutState) (who : ℕ) (f : OutClient → OutClient) : OutState :=
  { s with clients := Function.update s.clients who (f (s.clients who)) }

def setOutput (s : OutState) (who : ℕ) (o : Option ConnectionOutput) : OutState :=
  s.modify who fun c => { c with output := o }

def setWire (s : OutState) (who : ℕ) (w : List Byte) : OutState :=
  s.modify who fun c => { c with wire := w }

end OutState

def outputPendingMark (who : ℕ) (s : OutState) : OutState :=
  if !(s.clients who).clientGone && s.outputPending.isEmpty (some who) then
    { s with outputPending := s.outputPending.append (some who) none }
  else s

def outputPendingClear (who : ℕ) (s : OutState) : OutState :=
  { s with outputPending := s.outputPending.del (some who) }

def anyOutputPending (s : OutState) : Bool := !s.outputPending.isEmpty none

/-- The connection is closed: no transport any more. -/
def abortClient (who : ℕ) (s : OutState) : OutState :=
  if (s.clients who).transConn then s.modify who fun c => { c with transConn := false } else s

def dixMarkClientException (who : ℕ) (s : OutState) : OutState :=
  s.modify who fun c => { c with noClientException := -1 }

def allocateOutputBuffer : ConnectionOutput := ⟨List.replicate BUFSIZE 0, BUFSIZE, 0⟩

/-- Make sure there is an output buffer: a recycled one, or a new one if the allocator
has it. Returns the buffer, or nothing for a client aborted for want of it. -/
def outputEnsureBuffer (alloc : Bool) (who : ℕ) (s : OutState) :
    OutState × Option ConnectionOutput :=
  match (s.clients who).output with
  | some oco => (s, some oco)
  | none =>
    match s.freeOutputs with
    | oco :: next => ({ s with freeOutputs := next }.setOutput who (some oco), some oco)
    | [] =>
      if alloc then (s.setOutput who (some allocateOutputBuffer), some allocateOutputBuffer)
      else (dixMarkClientException who (abortClient who s), none)

/-! ### `FlushClient` -/

/-- Why the write loop stopped. -/
inductive Stop
  | done
  | blocked
  | failed
  deriving DecidableEq

structure Written where
  stop : Stop
  written : ℕ
  notWritten : ℕ
  wire : List Byte

/-- The loop `while (notWritten)`. The transport never takes more than it is offered; it
blocks when its answers run out. -/
def writeLoop (buf : List Byte) : List WriteResult → ℕ → ℕ → List Byte → Written
  | [], written, notWritten, wire =>
    ⟨if notWritten = 0 then .done else .blocked, written, notWritten, wire⟩
  | r :: rs, written, notWritten, wire =>
    if notWritten = 0 then ⟨.done, written, notWritten, wire⟩
    else
      match r with
      | .wrote n =>
        let len := min n notWritten
        writeLoop buf rs (written + len) (notWritten - len)
          (wire ++ (buf.drop written).take len)
      | .wouldBlock => ⟨.blocked, written, notWritten, wire⟩
      | .error => ⟨.failed, written, notWritten, wire⟩

/-- The label `abortClient` of `FlushClient`. -/
def flushAbort (who : ℕ) (oco : ConnectionOutput) (s : OutState) : OutState × ℤ :=
  ((dixMarkClientException who (abortClient who s)).setOutput who (some { oco with count := 0 }), -1)

/-- What is left over moves to the start of the buffer. -/
def ConnectionOutput.keepRest (oco : ConnectionOutput) (written notWritten : ℕ) :
    ConnectionOutput :=
  let oco :=
    if 0 < written then
      let count := oco.count - written
      { oco with count, buf := memWrite oco.buf 0 ((oco.buf.drop written).take (toSize count)) }
    else oco
  { oco with count := wrapInt notWritten }

/-- An emptied buffer is freed when it has grown, and recycled otherwise. -/
def OutState.recycle (s : OutState) (who : ℕ) (oco : ConnectionOutput) : OutState :=
  if oco.size > BUFWATERMARK then s.setOutput who none
  else { s with freeOutputs := { oco with count := 0 } :: s.freeOutputs }.setOutput who none

def flushClient (rs : List WriteResult) (who : ℕ) (s : OutState) : OutState × ℤ :=
  match (s.clients who).output with
  | none => (s, 0)
  | some oco =>
    if !(s.clients who).transConn then flushAbort who oco s
    else if toSize oco.count = 0 then (s, 0)
    else
      let r := writeLoop oco.buf rs 0 (toSize oco.count) (s.clients who).wire
      let s := s.setWire who r.wire
      match r.stop with
      | .blocked =>
        ((outputPendingMark who s).setOutput who (some (oco.keepRest r.written r.notWritten)), 0)
      | .failed => flushAbort who oco s
      | .done => ((outputPendingClear who s).recycle who oco, 0)

/-! ### `WriteToClient` -/

/-- Copy a message and its padding behind what is buffered. -/
def ConnectionOutput.put (oco : ConnectionOutput) (bytes : List Byte) : ConnectionOutput :=
  { oco with
    buf := memWrite oco.buf oco.count.toNat bytes
    count := wrapInt (oco.count + bytes.length) }

def memcpyAndFlush (rs : List WriteResult) (who : ℕ) (oco : ConnectionOutput)
    (extra : List Byte) (padsize : ℕ) (s : OutState) : OutState × ℤ :=
  let oco := (oco.put extra).put (List.replicate padsize 0)
  let r := flushClient rs who (s.setOutput who (some oco))
  (r.1, if r.2 = -1 then -1 else wrapInt extra.length)

/-- What the operating system answers during one `WriteToClient`: to the allocation of
a buffer at the start and after a flush, to the writes that make room and to those that
send the message, to the `realloc` of the buffer. -/
structure Answers where
  alloc : Bool
  allocAfterFlush : Bool
  makeRoom : List WriteResult
  send : List WriteResult
  grow : Option (ℕ → Byte)

/-- Find room after a flush, growing the buffer if need be. -/
def outputBufferResizeAndFlush (a : Answers) (who : ℕ) (extra : List Byte) (padsize : ℕ)
    (s : OutState) : OutState × ℤ :=
  let needed := extra.length + padsize
  match outputEnsureBuffer a.allocAfterFlush who s with
  | (s, none) => (s, -1)
  | (s, some oco) =>
    if toSize (oco.count + needed) ≤ toSize oco.size then
      memcpyAndFlush a.send who oco extra padsize s
    else
      let newsize := wrapInt (oco.count + ((needed / BUFSIZE + 1) * BUFSIZE : ℕ))
      match realloc a.grow oco.buf (toSize newsize) with
      | none => flushAbort who oco s
      | some newbuf => memcpyAndFlush a.send who { oco with buf := newbuf, size := newsize } extra padsize s

/-- Make room in the output buffer: by a flush if the message does not fit, and if that
is not enough by a bigger buffer. -/
def outputBufferMakeRoomAndFlush (a : Answers) (who : ℕ) (extra : List Byte) (s : OutState) :
    OutState × ℤ :=
  let padsize := paddingForInt32 (wrapInt extra.length)
  let needed := extra.length + padsize
  match (s.clients who).output with
  | some oco =>
    if toSize (oco.count + needed) ≤ toSize oco.size then
      memcpyAndFlush a.send who oco extra padsize s
    else
      let r := flushClient a.makeRoom who s
      if r.2 = -1 then (r.1, -1) else outputBufferResizeAndFlush a who extra padsize r.1
  | none => outputBufferResizeAndFlush a who extra padsize s

/-- A message: its length is an `int`. -/
abbrev Msg := { bytes : List Byte // bytes.length < 2 ^ 31 }

/-- The test of `WriteToClient` that sends a message off at once, with the `int`
arithmetic of its right half. -/
def mustFlush (c : OutClient) (oco : ConnectionOutput) (count padBytes : ℕ) : Bool :=
  (oco.count = 0 && c.isLocal) || wrapInt (wrapInt (oco.count + count) + padBytes) > oco.size

def writeToClient (a : Answers) (who : ℕ) (m : Msg) (s : OutState) : OutState × ℤ :=
  if m.1.length = 0 ∨ who = serverClient ∨ (s.clients who).clientGone then (s, 0)
  else
    let padBytes := paddingForInt32 m.1.length
    match outputEnsureBuffer a.alloc who s with
    | (s, none) => (s, -1)
    | (s, some oco) =>
      if mustFlush (s.clients who) oco m.1.length padBytes then
        let s := outputPendingClear who s
        let s := if !anyOutputPending s then
            { s with criticalOutputPending := false, newOutputPending := false } else s
        outputBufferMakeRoomAndFlush a who m.1 s
      else
        let s := outputPendingMark who { s with newOutputPending := true }
        let oco := oco.put m.1
        let oco := if padBytes ≠ 0 then oco.put (List.replicate padBytes 0) else oco
        (s.setOutput who (some oco), m.1.length)

/-! ### Runs -/

inductive OutOp
  | write (who : ℕ) (m : Msg) (a : Answers)
  | flush (who : ℕ) (rs : List WriteResult)

def outStep (s : OutState) : OutOp → OutState
  | .write who m a => (writeToClient a who m s).1
  | .flush who rs => (flushClient rs who s).1

/-- No output yet. Which clients are local, and which are gone, is arbitrary. -/
def outStart (isLocal gone : ℕ → Bool) : OutState where
  clients c := ⟨none, true, isLocal c, gone c, 0, []⟩
  freeOutputs := []
  outputPending := ⟨some, some⟩
  newOutputPending := false
  criticalOutputPending := false

end Xenia.Os
