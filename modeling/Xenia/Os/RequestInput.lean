import Xenia.Dix.Swap
import Xenia.Dix.Protocol
import Xenia.Os.Output

/-!
# The input of a client

`ReadRequestFromClient` on the input buffer of a client, with BIG-REQUESTS and both byte orders,
and `ResetCurrentRequest`, which puts the last request back. The transport, the allocator and the
list of free buffers answer through arguments. Pointers into the buffer are offsets.
-/

namespace Xenia.Os

open Xenia.Lib Xenia.Dix

def MAXINT : ℕ := 0x7fffffff
def sizeof_xReq : ℕ := 4
def sizeof_xBigReq : ℕ := 8

/-- `ConnectionInput`; `size` is the length of the buffer. -/
structure ConnectionInput where
  buffer : List Byte
  bufptr : ℕ
  bufcnt : ℕ
  lenLastReq : ℕ
  ignoreBytes : ℕ

/-- Whose input is marked as used up. -/
inductive AvailableInput
  | none
  | this
  | other
  deriving DecidableEq

/-- The input of a client, with the fields of the client that reading a request sets;
`requestBuffer` is an offset into the buffer. -/
structure InputState where
  input : Option ConnectionInput
  reqLen : ℕ
  requestBuffer : ℕ
  available : AvailableInput

/-- What does not change: the byte order of the client, whether it has enabled BIG-REQUESTS, and the
longest request of the server in units of four bytes, which every core request fits. -/
structure InputConfig where
  swapped : Bool
  bigRequests : Bool
  maxBigRequestSize : ℕ
  core_le : 65535 ≤ maxBigRequestSize

/-- A buffer from the list of free ones, or a new one: with nothing in it to read. -/
structure FreshInput where
  oci : ConnectionInput
  used : oci.bufptr + oci.lenLastReq = oci.bufcnt
  fits : oci.bufcnt ≤ oci.buffer.length
  small : oci.buffer.length ≤ BUFWATERMARK
  none_ignored : oci.ignoreBytes = 0

/-- What a read from the transport gives. -/
inductive TransRead
  | data (bs : List Byte)
  | wouldblock
  | error

/-- The answers to one `ReadRequestFromClient`: a buffer for a client without one, the
reallocation to a larger buffer and to a smaller one, whether there is a connection, and what is
read from it. -/
structure InputAnswers where
  fresh : Option FreshInput
  larger : Option (ℕ → Byte)
  smaller : Bool
  connected : Bool
  read : TransRead

/-! ### Lengths -/

def getReqLen (c : InputConfig) (oci : ConnectionInput) : ℕ :=
  let length := readCard16 (oci.buffer.drop (oci.bufptr + 2))
  (if c.swapped then bswap16 length else length).toNat

def getBigReqLen (c : InputConfig) (oci : ConnectionInput) : ℕ :=
  let length := readCard32 (oci.buffer.drop (oci.bufptr + 4))
  (if c.swapped then bswap32 length else length).toNat

/-- The length of the request whose header has come: in units, whether it is a big one, and
whether more of its header is needed. -/
def requestUnits (c : InputConfig) (oci : ConnectionInput) (gotnow : ℕ) : ℕ × Bool × Bool :=
  let needed := getReqLen c oci
  if needed = 0 ∧ c.bigRequests then
    if gotnow < sizeof_xBigReq then (sizeof_xBigReq / 4, true, true) else (getBigReqLen c oci, true, false)
  else (needed, false, false)

/-! ### ReadRequestFromClient -/

/-- The variables of `ReadRequestFromClient`, and the state it works on. -/
structure Reading where
  oci : ConnectionInput
  reqLen : ℕ
  gotnow : ℕ
  needed : ℕ
  needHeader : Bool
  moveHeader : Bool

/-- What a part of `ReadRequestFromClient` comes to: it returns, or goes on. -/
inductive Progress
  | done (oci : ConnectionInput) (reqLen : ℕ) (rv : ℤ)
  | go (r : Reading)

/-- To the start of the next request: how much of it is there, and how much is needed. -/
def measure (c : InputConfig) (reqLen : ℕ) (oci : ConnectionInput) : Progress :=
  let oci := { oci with bufptr := oci.bufptr + oci.lenLastReq }
  let gotnow := oci.bufcnt - oci.bufptr
  if oci.ignoreBytes > 0 then
    .go ⟨oci, reqLen, gotnow, if oci.ignoreBytes > oci.buffer.length then oci.buffer.length else oci.ignoreBytes, false, false⟩
  else if gotnow < sizeof_xReq then .go ⟨oci, reqLen, gotnow, sizeof_xReq, true, false⟩
  else
    let (units, move, header) := requestUnits c oci gotnow
    if units > MAXINT >>> 2 then .done oci units (-(BadLength : ℤ))
    else .go ⟨oci, units, gotnow, units <<< 2, header, move⟩

/-- Room for what is needed: moves what there is of the request to the front, and makes the buffer
larger, which may be refused. -/
def makeRoom (a : InputAnswers) (r : Reading) : ConnectionInput × Bool :=
  let oci := r.oci
  if r.gotnow = 0 ∨ oci.bufptr + r.needed > oci.buffer.length then
    let buffer :=
      if r.gotnow > 0 ∧ oci.bufptr ≠ 0 then memWrite oci.buffer 0 ((oci.buffer.drop oci.bufptr).take r.gotnow)
      else oci.buffer
    if r.needed > buffer.length then
      match grow a.larger buffer r.needed with
      | none => ({ oci with buffer := buffer }, false)
      | some ibuf => ({ oci with buffer := ibuf, bufptr := 0, bufcnt := r.gotnow }, true)
    else ({ oci with buffer := buffer, bufptr := 0, bufcnt := r.gotnow }, true)
  else (oci, true)

/-- Bytes from the transport behind those in the buffer; a buffer that has become too large shrinks. -/
def takeIn (a : InputAnswers) (bs : List Byte) (needed gotnow : ℕ) (oci : ConnectionInput) : ConnectionInput :=
  let oci := { oci with buffer := memWrite oci.buffer oci.bufcnt bs, bufcnt := oci.bufcnt + bs.length }
  if oci.buffer.length > BUFWATERMARK ∧ oci.bufcnt < BUFSIZE ∧ needed < BUFSIZE ∧ a.smaller then
    { oci with buffer := oci.buffer.take BUFSIZE, bufptr := oci.bufcnt - gotnow }
  else oci

/-- What is needed, once a header that was not there has come. -/
def remeasure (c : InputConfig) (r : Reading) : Progress :=
  if r.needHeader ∧ r.gotnow ≥ r.needed then
    let (units, move, _) := requestUnits c r.oci r.gotnow
    if units > MAXINT >>> 2 then .done r.oci units (-(BadLength : ℤ))
    else .go { r with reqLen := units, needed := units <<< 2, moveHeader := r.moveHeader || move }
  else .go r

/-- The part that reads from the transport. -/
def fill (c : InputConfig) (a : InputAnswers) (r : Reading) : Progress :=
  if r.gotnow < r.needed then
    let r := { r with oci := { r.oci with lenLastReq := 0 } }
    if r.needed > c.maxBigRequestSize <<< 2 then
      .done { r.oci with ignoreBytes := r.needed - r.gotnow, lenLastReq := r.gotnow } r.reqLen r.needed
    else
      match makeRoom a r with
      | (oci, false) => .done oci r.reqLen (-1)
      | (oci, true) =>
        if !a.connected then .done oci r.reqLen (-1)
        else
          match a.read with
          | .error => .done oci r.reqLen (-1)
          | .wouldblock => .done oci r.reqLen 0
          | .data bs =>
            let bs := bs.take (oci.buffer.length - oci.bufcnt)
            if bs = [] then .done oci r.reqLen (-1)
            else
              let gotnow := r.gotnow + bs.length
              match remeasure c { r with oci := takeIn a bs r.needed gotnow oci, gotnow := gotnow } with
              | .done oci reqLen rv => .done oci reqLen rv
              | .go r => if r.gotnow < r.needed then .done r.oci r.reqLen 0 else .go r
  else .go r

/-- The end: bytes are ignored, or the request is returned, a big one with its header moved up to
its body. -/
def finishRead (c : InputConfig) (requestBuffer : ℕ) (r : Reading) : InputState × ℤ :=
  let needed := if r.needed = 0 then (if c.bigRequests then sizeof_xBigReq else sizeof_xReq) else r.needed
  let (oci, gotnow, needed) :=
    if r.oci.ignoreBytes > 0 then
      let n := if r.gotnow < needed then r.gotnow else needed
      ({ r.oci with ignoreBytes := r.oci.ignoreBytes - n, bufptr := r.oci.bufptr + n }, r.gotnow - n, 0)
    else (r.oci, r.gotnow, needed)
  let oci := { oci with lenLastReq := needed }
  let available := if gotnow - needed = 0 ∧ oci.ignoreBytes = 0 then AvailableInput.this else .none
  if r.moveHeader then
    if r.reqLen < 1 then (⟨some oci, r.reqLen, requestBuffer, available⟩, -1)
    else
      let bufptr := oci.bufptr + 4
      let buffer := memWrite oci.buffer bufptr ((oci.buffer.drop oci.bufptr).take sizeof_xReq)
      (⟨some { oci with buffer := buffer, bufptr := bufptr, lenLastReq := oci.lenLastReq - 4 }, r.reqLen - 1, bufptr,
        available⟩, needed)
  else (⟨some oci, r.reqLen, oci.bufptr, available⟩, needed)

def readRequestFromClient (c : InputConfig) (a : InputAnswers) (s : InputState) : InputState × ℤ :=
  -- `NextAvailableInput`: the input marked as used up is given away, unless it is this client's
  match s.input <|> a.fresh.map FreshInput.oci with
  | none => (⟨none, s.reqLen, s.requestBuffer, .none⟩, -1)
  | some oci =>
    match measure c s.reqLen oci with
    | .done oci reqLen rv => (⟨some oci, reqLen, s.requestBuffer, .none⟩, rv)
    | .go r =>
      match fill c a r with
      | .done oci reqLen rv => (⟨some oci, reqLen, s.requestBuffer, .none⟩, rv)
      | .go r => finishRead c s.requestBuffer r

/-! ### ResetCurrentRequest -/

/-- No result where it writes before the buffer. -/
def resetCurrentRequest (c : InputConfig) (s : InputState) : Option InputState :=
  match s.input with
  | none => none
  | some oci =>
    let available := if s.available = .this then .none else s.available
    let oci := { oci with lenLastReq := 0 }
    if oci.bufcnt - oci.bufptr < sizeof_xReq then some { s with input := some oci, available := available }
    else if getReqLen c oci = 0 ∧ c.bigRequests then
      if oci.bufptr < 4 then none
      else
        let bufptr := oci.bufptr - 4
        let buffer := memWrite oci.buffer bufptr ((oci.buffer.drop oci.bufptr).take sizeof_xReq)
        let length : CARD32 := BitVec.ofNat 32 s.reqLen
        let buffer := memWrite buffer (bufptr + 4) (leBytes 4 (if c.swapped then bswap32 length else length))
        some { s with input := some { oci with buffer := buffer, bufptr := bufptr }, available := available }
    else some { s with input := some oci, available := available }

/-! ### The input of a client from its start -/

/-- `InsertFakeRequest`; the input buffer and its reallocation are given. -/
def insertFakeRequest (fresh : Option FreshInput) (larger : Option (ℕ → Byte)) (data : List Byte) (s : InputState) :
    InputState × Bool :=
  match s.input <|> fresh.map FreshInput.oci with
  | none => ({ s with available := .none }, false)
  | some oci =>
    let oci := { oci with bufptr := oci.bufptr + oci.lenLastReq, lenLastReq := 0 }
    let gotnow := oci.bufcnt - oci.bufptr
    match if gotnow + data.length > oci.buffer.length then grow larger oci.buffer (gotnow + data.length) else some oci.buffer with
    | none => ({ s with input := some oci, available := .none }, false)
    | some ibuf =>
      let moveup := data.length - oci.bufptr
      let buffer :=
        if moveup > 0 ∧ gotnow > 0 then memWrite ibuf (oci.bufptr + moveup) ((ibuf.drop oci.bufptr).take gotnow) else ibuf
      let bufptr := oci.bufptr + moveup - data.length
      let oci := { oci with buffer := memWrite buffer bufptr data, bufptr := bufptr, bufcnt := oci.bufcnt + moveup }
      ({ s with input := some oci, available := .none }, true)

/-- A client and its input; there is none any more where bytes were written before the buffer. -/
structure InputClient where
  config : InputConfig
  state : Option InputState

/-- `NextAvailableClient`: the input starts with a header made up. -/
def nextAvailableClient (config : InputConfig) (fresh : Option FreshInput) (larger : Option (ℕ → Byte))
    (data : BitVec 32) : InputClient :=
  ⟨config, some (insertFakeRequest fresh larger (leBytes 4 data) ⟨none, 0, 0, .none⟩).1⟩

/-- What may happen to the input: it is read, or reset; the handler of a request writes into the
buffer, the byte order or BIG-REQUESTS change; other clients are read from. -/
inductive InputOp
  | read (a : InputAnswers)
  | reset
  | handle (off : ℕ) (bs : List Byte)
  | setSwapped (swapped : Bool)
  | enableBigRequests
  | others (available : Bool)

/-- A handler writes into the buffer where it is. -/
def handleRequest (off : ℕ) (bs : List Byte) (s : InputState) : InputState :=
  { s with input := s.input.map fun oci =>
      if off + bs.length ≤ oci.buffer.length then { oci with buffer := memWrite oci.buffer off bs } else oci }

/-- Another client is read from, and takes away an input that is marked as used up. -/
def readOthers (available : Bool) (s : InputState) : InputState :=
  { s with
    input := if s.available = .this then none else s.input
    available := if available then .other else .none }

def inputStep (k : InputClient) : InputOp → InputClient
  | .read a => { k with state := k.state.map fun s => (readRequestFromClient k.config a s).1 }
  | .reset => { k with state := k.state.bind (resetCurrentRequest k.config) }
  | .handle off bs => { k with state := k.state.map (handleRequest off bs) }
  | .setSwapped swapped => { k with config := { k.config with swapped := swapped } }
  | .enableBigRequests => { k with config := { k.config with bigRequests := true } }
  | .others available => { k with state := k.state.map (readOthers available) }

end Xenia.Os
