import Xenia.Lib.Run
import Xenia.Lib.CString
import Xenia.Dix.Swap

/-!
# Reply buffers

The buffers in which reply payloads are assembled: `x_rpcbuf_makeroom`, the writers, the
padding and the transfer of one buffer into another. Sizes are natural numbers: two blocks
whose sizes add up past `size_t` do not exist side by side in memory. The answers of
`realloc` are arguments: the `k`-th request of a call is answered by `a k`.
-/

namespace Xenia.Dix

open Xenia.Lib

/-- `x_rpcbuf_t`; `buffer` is the block the pointer leads to. -/
structure RpcBuf where
  size : ℕ
  wpos : ℕ
  buffer : Option (List Byte)
  swapped : Bool
  error : Bool
  errClear : Bool

def XLIBRE_RPCBUF_CHUNK_SIZE : ℕ := 4096

/-- The answers to the `realloc` calls of one operation. -/
abbrev Grants := ℕ → Option (ℕ → Byte)

namespace RpcBuf

/-- The buffer in its error state; its memory is freed if it is set to be cleared. -/
def fail (b : RpcBuf) : RpcBuf :=
  { b with error := true, buffer := if b.errClear then none else b.buffer }

/-- Bytes stored through a pointer to position `pos` of the buffer. -/
def poke (b : RpcBuf) (pos : ℕ) (bs : List Byte) : RpcBuf :=
  { b with buffer := b.buffer.map fun mem => memWrite mem pos bs }

end RpcBuf

def xRpcbufMakeroom (grant : Option (ℕ → Byte)) (needed : ℕ) (b : RpcBuf) : RpcBuf × Bool :=
  if b.error then (b, false)
  else if b.size > b.wpos + needed then (b, true)
  else
    let newsize := ((b.wpos + needed) / XLIBRE_RPCBUF_CHUNK_SIZE + 1) * XLIBRE_RPCBUF_CHUNK_SIZE
    match grow grant (b.buffer.getD []) newsize with
    | none => (b.fail, false)
    | some newbuf => ({ b with buffer := some newbuf, size := newsize }, true)

def xRpcbufClear (_ : RpcBuf) : RpcBuf := ⟨0, 0, none, false, false, false⟩

def xRpcbufReset (b : RpcBuf) : RpcBuf :=
  if b.buffer.isNone ∨ b.size = 0 ∨ b.wpos = 0 then b else { b with wpos := 0 }

/-- Returns the position of the reserved region. -/
def xRpcbufReserve (grant : Option (ℕ → Byte)) (needed : ℕ) (b : RpcBuf) : RpcBuf × Option ℕ :=
  match xRpcbufMakeroom grant needed b with
  | (b, false) => (b, none)
  | (b, true) => ({ b with wpos := b.wpos + needed }, some b.wpos)

def xRpcbufReserve0 (grant : Option (ℕ → Byte)) (needed : ℕ) (b : RpcBuf) : RpcBuf × Option ℕ :=
  match xRpcbufReserve grant needed b with
  | (b, none) => (b, none)
  | (b, some pos) => (b.poke pos (List.replicate needed 0), some pos)

/-- `pad_to_int32` of an `int`. -/
def padToInt32 (bytes : ℤ) : ℤ := wrapInt (bytes + 3) - wrapInt (bytes + 3) % 4

/-! ### Writers

Reserve, store, and in a buffer marked as swapped swap what was stored in place. -/

/-- The writers of plain bytes. -/
def writePlain (grant : Option (ℕ → Byte)) (bs : List Byte) (b : RpcBuf) : RpcBuf × Bool :=
  match xRpcbufReserve grant bs.length b with
  | (b, none) => (b, false)
  | (b, some pos) => (b.poke pos bs, true)

/-- The writers of words: `swap` is what `bs` becomes when it is swapped in place. -/
def writeWords (grant : Option (ℕ → Byte)) (bs swap : List Byte) (b : RpcBuf) : RpcBuf × Bool :=
  match xRpcbufReserve grant bs.length b with
  | (b, none) => (b, false)
  | (b, some pos) =>
    let b := b.poke pos bs
    (if b.swapped then b.poke pos swap else b, true)

/-- The writers of arrays do nothing for a null pointer or no elements. -/
def writeArray {α : Type*} (values : Option (List α)) (write : List α → RpcBuf → RpcBuf × Bool)
    (b : RpcBuf) : RpcBuf × Bool :=
  match values with
  | none | some [] => (b, true)
  | some vs => write vs b

/-- `__x_rpcbuf_write_bin_pad`: the length passes through an `int`. -/
def xRpcbufWriteBinPad (grant : Option (ℕ → Byte)) (val : List Byte) (b : RpcBuf) : RpcBuf × Bool :=
  let blen := toSize (padToInt32 (wrapInt val.length))
  match xRpcbufReserve grant blen b with
  | (b, none) => (b, false)
  | (b, some pos) =>
    let rest := toSize (blen - val.length : ℤ)
    ((b.poke pos val).poke (pos + val.length) (List.replicate rest 0), true)

def xRpcbufWriteCard8 (a : Grants) (value : CARD8) : RpcBuf → RpcBuf × Bool :=
  writePlain (a 0) [value]

def xRpcbufWriteCard16 (a : Grants) (value : CARD16) : RpcBuf → RpcBuf × Bool :=
  writeWords (a 0) (leBytes 2 value) (leBytes 2 (bswap16 value))

def xRpcbufWriteInt16 (a : Grants) (value : BitVec 16) : RpcBuf → RpcBuf × Bool :=
  xRpcbufWriteCard16 a value

def xRpcbufWriteCard32 (a : Grants) (value : CARD32) : RpcBuf → RpcBuf × Bool :=
  writeWords (a 0) (leBytes 4 value) (leBytes 4 (bswap32 value))

def xRpcbufWriteInt32 (a : Grants) (value : BitVec 32) : RpcBuf → RpcBuf × Bool :=
  xRpcbufWriteCard32 a value

def xRpcbufWriteCard64 (a : Grants) (value : CARD64) : RpcBuf → RpcBuf × Bool :=
  writeWords (a 0) (leBytes 8 value) (leBytes 8 (bswap64 value))

def xRpcbufWriteCard8s (a : Grants) (values : Option (List CARD8)) : RpcBuf → RpcBuf × Bool :=
  writeArray values fun vs => writePlain (a 0) vs

def xRpcbufWriteCard16s (a : Grants) (values : Option (List CARD16)) : RpcBuf → RpcBuf × Bool :=
  writeArray values fun vs =>
    writeWords (a 0) (vs.flatMap (leBytes 2)) ((swapShorts vs).flatMap (leBytes 2))

def xRpcbufWriteCard32s (a : Grants) (values : Option (List CARD32)) : RpcBuf → RpcBuf × Bool :=
  writeArray values fun vs =>
    writeWords (a 0) (vs.flatMap (leBytes 4)) ((swapLongs vs).flatMap (leBytes 4))

def xRpcbufWriteInt32s (a : Grants) (values : Option (List (BitVec 32))) :
    RpcBuf → RpcBuf × Bool := xRpcbufWriteCard32s a values

def xRpcbufWriteCard64s (a : Grants) (values : Option (List CARD64)) : RpcBuf → RpcBuf × Bool :=
  writeArray values fun vs =>
    writeWords (a 0) (vs.flatMap (leBytes 8)) ((vs.map bswap64).flatMap (leBytes 8))

def xRpcbufWriteStringPad (a : Grants) (str : Option (List Byte)) (b : RpcBuf) : RpcBuf × Bool :=
  match str with
  | none => (b, true)
  | some s => xRpcbufWriteBinPad (a 0) (cstr s) b

def xRpcbufWriteString0tPad (a : Grants) (str : Option (List Byte)) : RpcBuf → RpcBuf × Bool :=
  match str with
  | none => xRpcbufWriteCard32 a 0
  | some s => xRpcbufWriteBinPad (a 0) (cstr s ++ [0])

def xRpcbufWriteBinaryPad (a : Grants) (values : Option (List Byte)) : RpcBuf → RpcBuf × Bool :=
  writeArray values fun vs => xRpcbufWriteBinPad (a 0) vs

def xRpcbufPad (grant : Option (ℕ → Byte)) (b : RpcBuf) : RpcBuf :=
  (xRpcbufReserve0 grant ((b.wpos + 3) / 4 * 4 - b.wpos) b).1

def xRpcbufWriteCountedStringPad (a : Grants) (str : Option (List Byte)) (b : RpcBuf) : RpcBuf :=
  match str with
  | none => b
  | some s =>
    let len : CARD16 := BitVec.ofNat 16 (cstr s).length
    let b := (xRpcbufWriteCard16 (fun _ => a 0) len b).1
    let b := (xRpcbufWriteCard8s (fun _ => a 1) (some ((cstr s).take len.toNat)) b).1
    xRpcbufPad (a 2) b

def xRpcbufWriteRect (a : Grants) (x y : BitVec 16) (width height : CARD16) (b : RpcBuf) : RpcBuf :=
  let b := (xRpcbufWriteInt16 (fun _ => a 0) x b).1
  let b := (xRpcbufWriteInt16 (fun _ => a 1) y b).1
  let b := (xRpcbufWriteCard16 (fun _ => a 2) width b).1
  (xRpcbufWriteCard16 (fun _ => a 3) height b).1

/-- The destination and the source after the transfer. -/
def xRpcbufWriteRpcbufPad (a : Grants) (b source : RpcBuf) : RpcBuf × RpcBuf :=
  let b :=
    if source.error then b.fail
    else (xRpcbufWriteBinaryPad a (source.buffer.map fun mem => mem.take source.wpos) b).1
  (b, xRpcbufClear source)

def xRpcbufWsizeUnits (b : RpcBuf) : CARD32 := BitVec.ofNat 32 ((b.wpos + 3) / 4)

/-! ### Runs over a family of buffers -/

/-- The operations that write into one buffer. -/
inductive RpcWrite
  | card8 (value : CARD8)
  | card16 (value : CARD16)
  | int16 (value : BitVec 16)
  | card32 (value : CARD32)
  | int32 (value : BitVec 32)
  | card64 (value : CARD64)
  | card8s (values : Option (List CARD8))
  | card16s (values : Option (List CARD16))
  | card32s (values : Option (List CARD32))
  | int32s (values : Option (List (BitVec 32)))
  | card64s (values : Option (List CARD64))
  | stringPad (str : Option (List Byte))
  | string0tPad (str : Option (List Byte))
  | binaryPad (values : Option (List Byte))
  | countedStringPad (str : Option (List Byte))
  | rect (x y : BitVec 16) (width height : CARD16)
  | pad

/-- The buffer afterwards, and what the call returns if it returns anything. -/
def RpcWrite.run (a : Grants) (b : RpcBuf) : RpcWrite → RpcBuf × Option Bool
  | .card8 v => (xRpcbufWriteCard8 a v b).map id some
  | .card16 v => (xRpcbufWriteCard16 a v b).map id some
  | .int16 v => (xRpcbufWriteInt16 a v b).map id some
  | .card32 v => (xRpcbufWriteCard32 a v b).map id some
  | .int32 v => (xRpcbufWriteInt32 a v b).map id some
  | .card64 v => (xRpcbufWriteCard64 a v b).map id some
  | .card8s vs => (xRpcbufWriteCard8s a vs b).map id some
  | .card16s vs => (xRpcbufWriteCard16s a vs b).map id some
  | .card32s vs => (xRpcbufWriteCard32s a vs b).map id some
  | .int32s vs => (xRpcbufWriteInt32s a vs b).map id some
  | .card64s vs => (xRpcbufWriteCard64s a vs b).map id some
  | .stringPad s => (xRpcbufWriteStringPad a s b).map id some
  | .string0tPad s => (xRpcbufWriteString0tPad a s b).map id some
  | .binaryPad vs => (xRpcbufWriteBinaryPad a vs b).map id some
  | .countedStringPad s => (xRpcbufWriteCountedStringPad a s b, none)
  | .rect x y w h => (xRpcbufWriteRect a x y w h b, none)
  | .pad => (xRpcbufPad (a 0) b, none)

/-- A transfer is between two different buffers: its source is emptied. -/
inductive RpcOp
  | write (i : ℕ) (w : RpcWrite) (a : Grants)
  | reset (i : ℕ)
  | clear (i : ℕ)
  | transfer (i j : ℕ) (h : i ≠ j) (a : Grants)

def rpcStep (s : ℕ → RpcBuf) : RpcOp → ℕ → RpcBuf
  | .write i w a => Function.update s i (w.run a (s i)).1
  | .reset i => Function.update s i (xRpcbufReset (s i))
  | .clear i => Function.update s i (xRpcbufClear (s i))
  | .transfer i j _ a =>
    let r := xRpcbufWriteRpcbufPad a (s i) (s j)
    Function.update (Function.update s i r.1) j r.2

/-- Buffers initialised with zeros but for the two flags their owner may set. -/
def rpcStart (swapped errClear : ℕ → Bool) (i : ℕ) : RpcBuf :=
  ⟨0, 0, none, swapped i, false, errClear i⟩

end Xenia.Dix
