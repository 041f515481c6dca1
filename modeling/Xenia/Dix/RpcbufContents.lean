import Xenia.Dix.Rpcbuf
import Xenia.Os.OutputOrder

/-!
# What a reply buffer holds

A buffer is described by the bytes its writes encode (`Written`): words in the byte order
of the client, padded items with their zero bytes, and the padding of the whole buffer.
`Extends` is what every writer does to a buffer: in the error state nothing, otherwise it
appends the encoding or, when an allocation is refused, latches the error.

The main result is `rpcbuf_contents`, over all runs on any number of buffers. Two things
are not as a reader of the writers may expect, and both are shown in `rpcbuf_exceptions`:
an empty write reports success even in the error state, and a padded item of `2 ^ 32`
bytes passes through an `int` and reserves nothing.
-/

namespace Xenia.Dix

open Xenia.Lib Xenia.Os List Function Option

/-! ### Encodings -/

/-- The bytes of a word in the byte order of the client. -/
def wireOrder (swapped : Bool) (bs : List Byte) : List Byte := if swapped then bs.reverse else bs

/-- The encoding of a write at position `pos` of the buffer. -/
def RpcWrite.encode (swapped : Bool) (pos : ℕ) : RpcWrite → List Byte
  | .card8 v => [v]
  | .card16 v | .int16 v => wireOrder swapped (leBytes 2 v)
  | .card32 v | .int32 v => wireOrder swapped (leBytes 4 v)
  | .card64 v => wireOrder swapped (leBytes 8 v)
  | .card8s vs => vs.getD []
  | .card16s vs => (vs.getD []).flatMap fun v => wireOrder swapped (leBytes 2 v)
  | .card32s vs | .int32s vs => (vs.getD []).flatMap fun v => wireOrder swapped (leBytes 4 v)
  | .card64s vs => (vs.getD []).flatMap fun v => wireOrder swapped (leBytes 8 v)
  | .stringPad s => padded (cstr (s.getD []))
  | .string0tPad none => wireOrder swapped (leBytes 4 (0 : CARD32))
  | .string0tPad (some s) => padded (cstr s ++ [0])
  | .binaryPad vs => padded (vs.getD [])
  | .countedStringPad none => []
  | .countedStringPad (some s) =>
    let len : CARD16 := BitVec.ofNat 16 (cstr s).length
    let bs := wireOrder swapped (leBytes 2 len) ++ (cstr s).take len.toNat
    bs ++ List.replicate (padLen (pos + bs.length)) 0
  | .rect x y w h => [x, y, w, h].flatMap fun v => wireOrder swapped (leBytes 2 v)
  | .pad => List.replicate (padLen pos) 0

/-- A buffer as its user sees it: its byte order and the bytes written. -/
structure Written where
  swapped : Bool
  bytes : List Byte

def writtenStep (s : ℕ → Written) : RpcOp → ℕ → Written
  | .write i w _ => Function.update s i
      { s i with bytes := (s i).bytes ++ w.encode (s i).swapped (s i).bytes.length }
  | .reset i => Function.update s i { s i with bytes := [] }
  | .clear i => Function.update s i ⟨false, []⟩
  | .transfer i j _ _ => Function.update
      (Function.update s i { s i with bytes := (s i).bytes ++ padded (s j).bytes }) j ⟨false, []⟩

def writtenStart (swapped : ℕ → Bool) (i : ℕ) : Written := ⟨swapped i, []⟩

/-! ### Buffers -/

namespace RpcBuf

/-- The first `wpos` bytes of the buffer. -/
def contents (b : RpcBuf) : List Byte := (b.buffer.getD []).take b.wpos

structure Ok (b : RpcBuf) : Prop where
  length : ∀ mem, b.buffer = some mem → mem.length = b.size
  le : b.wpos ≤ b.size
  empty : b.error = false → b.buffer = none → b.size = 0
  cleared : b.error = true → b.errClear = true → b.buffer = none

theorem Ok.length_contents {b : RpcBuf} (h : b.Ok) (he : b.error = false) :
    b.contents.length = b.wpos := by
  unfold contents
  cases hb : b.buffer with
  | none => have := h.empty he hb; have := h.le; simp; omega
  | some mem => have := h.length mem hb; have := h.le; simp; omega

theorem Ok.fail {b : RpcBuf} (h : b.Ok) : b.fail.Ok := by
  refine ⟨fun mem hm => ?_, h.le, (fun he => nomatch he), fun _ hc => ?_⟩
  · unfold RpcBuf.fail at hm
    split at hm
    · cases hm
    · exact h.length mem hm
  · have hc' : b.errClear = true := hc
    simp [RpcBuf.fail, hc']

/-- `b'` is `b` with `bs` written behind its contents. -/
structure Appended (bs : List Byte) (b b' : RpcBuf) : Prop where
  ok : b'.Ok
  error : b'.error = false
  contents : b'.contents = b.contents ++ bs
  wpos : b'.wpos = b.wpos + bs.length

/-- What a writer that encodes `bs` does to a buffer. -/
structure Extends (granted : Prop) (bs : List Byte) (b b' : RpcBuf) : Prop where
  swapped : b'.swapped = b.swapped
  latched : b.error = true → b' = b
  step : b.error = false → Appended bs b b' ∨ (¬ granted ∧ b'.Ok ∧ b'.error = true)

variable {granted : Prop} {b b' b'' : RpcBuf} {bs cs : List Byte}

theorem Ok.extends_nil (h : b.Ok) : Extends granted [] b b :=
  ⟨rfl, fun _ => rfl, fun he => .inl ⟨h, he, by simp, by simp⟩⟩

section

variable (h : Extends granted bs b b')
include h

theorem Extends.ok (hb : b.Ok) : b'.Ok := by
  cases he : b.error with
  | true => rw [h.latched he]; exact hb
  | false => rcases h.step he with h | ⟨-, h, -⟩; exacts [h.ok, h]

theorem Extends.mono {granted' : Prop} (hg : granted' → granted) :
    Extends granted' bs b b' :=
  { h with step := fun he => (h.step he).imp_right fun ⟨hn, h'⟩ => ⟨fun g => hn (hg g), h'⟩ }

/-- Two writes, the second of which may depend on the position it finds. -/
theorem Extends.trans_pos {f : ℕ → List Byte} (h' : Extends granted (f b'.wpos) b' b'') :
    Extends granted (bs ++ f (b.wpos + bs.length)) b b'' := by
  refine ⟨h'.swapped.trans h.swapped, fun he => ?_, fun he => ?_⟩
  · have := h.latched he
    subst this
    exact h'.latched he
  · rcases h.step he with h1 | ⟨hg, hok, he'⟩
    · rw [← h1.wpos]
      rcases h'.step h1.error with h2 | h2
      · exact .inl ⟨h2.ok, h2.error, by rw [h2.contents, h1.contents, append_assoc],
          by rw [h2.wpos, h1.wpos, length_append, add_assoc]⟩
      · exact .inr h2
    · rw [h'.latched he']; exact .inr ⟨hg, hok, he'⟩

theorem Extends.trans (h' : Extends granted cs b' b'') :
    Extends granted (bs ++ cs) b b'' := Extends.trans_pos (f := fun _ => cs) h h'

end

/-! ### Reserving and storing -/

/-- A region reserved: the bytes before it are the contents of the buffer. -/
structure Reserved (needed : ℕ) (b b' : RpcBuf) (mem : List Byte) : Prop where
  buffer : b'.buffer = some mem
  length : mem.length = b'.size
  fits : b.wpos + needed ≤ b'.size
  wpos : b'.wpos = b.wpos + needed
  kept : mem.take b.wpos = b.contents
  error : b'.error = false
  swapped : b'.swapped = b.swapped

theorem reserve_error (grant : Option (ℕ → Byte)) (needed : ℕ) (he : b.error = true) :
    xRpcbufReserve grant needed b = (b, none) := by
  simp [xRpcbufReserve, xRpcbufMakeroom, he]

theorem reserve_spec (grant : Option (ℕ → Byte)) (needed : ℕ) (h : b.Ok) (he : b.error = false) :
    (∃ b' mem, xRpcbufReserve grant needed b = (b', some b.wpos) ∧ Reserved needed b b' mem) ∨
      grant = none ∧ xRpcbufReserve grant needed b = (b.fail, none) := by
  have hle := h.le
  unfold xRpcbufReserve xRpcbufMakeroom
  by_cases hroom : b.size > b.wpos + needed
  · simp only [he, hroom, if_true, Bool.false_eq_true, if_false]
    cases hb : b.buffer with
    | none => have := h.empty he hb; omega
    | some mem =>
      exact .inl ⟨_, mem, rfl, rfl, h.length mem hb, hroom.le, rfl,
        by simp [contents, hb], rfl, rfl⟩
  · simp only [he, hroom]
    have hbig : b.wpos + needed <
        ((b.wpos + needed) / XLIBRE_RPCBUF_CHUNK_SIZE + 1) * XLIBRE_RPCBUF_CHUNK_SIZE := by
      unfold XLIBRE_RPCBUF_CHUNK_SIZE; omega
    cases hg : grow grant (b.buffer.getD [])
        (((b.wpos + needed) / XLIBRE_RPCBUF_CHUNK_SIZE + 1) * XLIBRE_RPCBUF_CHUNK_SIZE) with
    | none => exact .inr ⟨by simpa [grow] using hg, rfl⟩
    | some mem =>
      obtain ⟨hlen, hkeep⟩ := grow_some hg
      have hold : b.wpos ≤ (b.buffer.getD []).length := by
        cases hb : b.buffer with
        | none => have := h.empty he hb; simp; omega
        | some m => have := h.length m hb; simp; omega
      exact .inl ⟨_, mem, rfl, rfl, hlen, hbig.le, rfl, hkeep _ hold (by omega), rfl, rfl⟩

/-- The bytes stored in a reserved region. -/
theorem Reserved.poke {needed : ℕ} {mem : List Byte} (h : Reserved needed b b' mem)
    (hbs : bs.length = needed) : Appended bs b (b'.poke b.wpos bs) := by
  subst hbs
  have hfit : b.wpos + bs.length ≤ mem.length := by rw [h.length]; exact h.fits
  have hbuf : (b'.poke b.wpos bs).buffer = some (memWrite mem b.wpos bs) := by
    simp [RpcBuf.poke, h.buffer]
  refine ⟨⟨fun m hm => ?_, ?_, fun _ hn => ?_, fun he => ?_⟩, h.error, ?_, h.wpos⟩
  · rw [hbuf] at hm; cases hm; rw [length_memWrite hfit, h.length]; rfl
  · show b'.wpos ≤ b'.size; rw [h.wpos]; exact h.fits
  · rw [hbuf] at hn; cases hn
  · exact absurd (h.error.symm.trans he) (by simp)
  · have hw : (b'.poke b.wpos bs).wpos = b.wpos + bs.length := h.wpos
    rw [RpcBuf.contents, hbuf, hw, getD_some, take_memWrite (by omega), h.kept]

theorem Reserved.poke_poke {needed : ℕ} {mem : List Byte} (h : Reserved needed b b' mem)
    (hbs : bs.length = needed) (hcs : cs.length = needed) :
    (b'.poke b.wpos bs).poke b.wpos cs = b'.poke b.wpos cs := by
  have hfit : b.wpos + cs.length ≤ mem.length := by rw [h.length, hcs]; exact h.fits
  simp only [RpcBuf.poke, h.buffer, map_some]
  rw [memWrite_overwrite (hbs.trans hcs.symm) hfit]

/-! ### Writers -/

theorem writePlain_spec (grant : Option (ℕ → Byte)) (h : b.Ok) (hg : granted → grant ≠ none) :
    Extends granted bs b (writePlain grant bs b).1 ∧
      (writePlain grant bs b).2 = !(writePlain grant bs b).1.error := by
  unfold writePlain
  cases he : b.error with
  | true => rw [reserve_error _ _ he]; exact ⟨⟨rfl, fun _ => rfl, fun h' => by simp [he] at h'⟩, by simp [he]⟩
  | false =>
    rcases reserve_spec grant bs.length h he with ⟨b', mem, hr, hres⟩ | ⟨hn, hr⟩
    · rw [hr]
      have happ : Appended bs b _ := hres.poke rfl
      exact ⟨⟨hres.swapped, by simp [he], fun _ => .inl happ⟩, by simp [happ.error]⟩
    · rw [hr]
      exact ⟨⟨rfl, by simp [he], fun _ => .inr ⟨fun g => hg g hn, h.fail, rfl⟩⟩, rfl⟩

/-- A writer of words stores them in the byte order of the buffer. -/
theorem writeWords_eq (grant : Option (ℕ → Byte)) (h : b.Ok) (hlen : cs.length = bs.length) :
    writeWords grant bs cs b = writePlain grant (if b.swapped then cs else bs) b := by
  have hneed : (if b.swapped = true then cs else bs).length = bs.length := by split <;> simp [hlen]
  unfold writeWords writePlain
  rw [hneed]
  cases he : b.error with
  | true => rw [reserve_error _ _ he]
  | false =>
    rcases reserve_spec grant bs.length h he with ⟨b', mem, hr, hres⟩ | ⟨hn, hr⟩
    · rw [hr]
      have hsw : (b'.poke b.wpos bs).swapped = b.swapped := hres.swapped
      simp only [hsw]
      split
      · rw [hres.poke_poke rfl hlen]
      · rfl
    · rw [hr]

theorem padToInt32_of_le {n : ℕ} (hn : n + 4 ≤ 2 ^ 31) :
    toSize (padToInt32 (wrapInt n)) = n + padLen n := by
  unfold padToInt32
  rw [wrapInt_eq (x := (n : ℤ)) (by omega) (by omega), wrapInt_eq (by omega) (by omega)]
  unfold toSize padLen; omega

/-- A padded item whose length fits an `int`. -/
theorem xRpcbufWriteBinPad_eq (grant : Option (ℕ → Byte)) (h : b.Ok) (hs : bs.length + 4 ≤ 2 ^ 31) :
    xRpcbufWriteBinPad grant bs b = writePlain grant (padded bs) b := by
  have hrest : toSize ((bs.length + padLen bs.length : ℕ) - bs.length : ℤ) = padLen bs.length := by
    have := padLen_lt bs.length; unfold toSize; omega
  unfold xRpcbufWriteBinPad writePlain
  rw [padToInt32_of_le hs, length_padded]
  dsimp only
  cases he : b.error with
  | true => rw [reserve_error _ _ he]
  | false =>
    rcases reserve_spec grant (bs.length + padLen bs.length) h he with ⟨b', mem, hr, hres⟩ | ⟨hn, hr⟩
    · rw [hr]
      have hlen : b.wpos + bs.length ≤ mem.length := by rw [hres.length]; have := hres.fits; omega
      simp only [hrest, RpcBuf.poke, hres.buffer, map_some]
      rw [memWrite_memWrite hlen, padded]
    · rw [hr]

/-- The writers of arrays: no elements, no write. -/
theorem writeArray_cases {α : Type*} (values : Option (List α))
    (write : List α → RpcBuf → RpcBuf × Bool) :
    (values.getD [] = [] ∧ writeArray values write b = (b, true)) ∨
      writeArray values write b = write (values.getD []) b := by
  match values with
  | none => exact .inl ⟨rfl, rfl⟩
  | some [] => exact .inl ⟨rfl, rfl⟩
  | some (x :: xs) => exact .inr rfl

end RpcBuf

open RpcBuf

/-- The padded items of a write fit an `int`. -/
def RpcWrite.Small : RpcWrite → Prop
  | .stringPad s => (cstr (s.getD [])).length + 4 ≤ 2 ^ 31
  | .string0tPad s => (cstr (s.getD [])).length + 5 ≤ 2 ^ 31
  | .binaryPad vs => (vs.getD []).length + 4 ≤ 2 ^ 31
  | _ => True

/-- What a write does and reports: a write that encodes nothing may report anything. -/
structure Writes (granted : Prop) (bs : List Byte) (b : RpcBuf) (r : RpcBuf × Option Bool) : Prop where
  ext : Extends granted bs b r.1
  report : bs ≠ [] → ∀ v, r.2 = some v → v = !r.1.error

section Writers

variable {granted : Prop} {b : RpcBuf} {bs : List Byte} {grant : Option (ℕ → Byte)}

theorem writes_plain (h : b.Ok) (hg : granted → grant ≠ none) (bs : List Byte) :
    Writes granted bs b ((writePlain grant bs b).map id some) := by
  obtain ⟨h1, h2⟩ : Extends granted bs b _ ∧ (writePlain grant bs b).2 = _ := writePlain_spec grant h hg
  exact ⟨h1, fun _ v hv => (some.inj hv).symm.trans h2⟩

theorem writes_word (h : b.Ok) (hg : granted → grant ≠ none) {n w : ℕ} {v v' : BitVec n}
    (hv : leBytes w v' = (leBytes w v).reverse) :
    Writes granted (wireOrder b.swapped (leBytes w v)) b
      ((writeWords grant (leBytes w v) (leBytes w v') b).map id some) := by
  rw [writeWords_eq grant h (by simp), hv]
  exact writes_plain h hg _

theorem writes_array {α : Type*} (h : b.Ok) (values : Option (List α))
    (write : List α → RpcBuf → RpcBuf × Bool) (enc : List α → List Byte) (hnil : enc [] = [])
    (hw : Writes granted (enc (values.getD [])) b ((write (values.getD []) b).map id some)) :
    Writes granted (enc (values.getD [])) b ((writeArray values write b).map id some) := by
  rcases writeArray_cases values write (b := b) with ⟨he, hr⟩ | hr
  · rw [he, hnil, hr]; exact ⟨h.extends_nil, fun hne => absurd rfl hne⟩
  · rw [hr]; exact hw

/-- An array of words: every element in the byte order of the buffer. -/
theorem writes_words (h : b.Ok) (hg : granted → grant ≠ none) {n w : ℕ}
    {swap : List (BitVec n) → List (BitVec n)} {bswap : BitVec n → BitVec n}
    (hswap : ∀ vs, swap vs = vs.map bswap)
    (hb : ∀ v, leBytes w (bswap v) = (leBytes w v).reverse) (values : Option (List (BitVec n))) :
    Writes granted ((values.getD []).flatMap fun v => wireOrder b.swapped (leBytes w v)) b
      ((writeArray values (fun vs => writeWords grant (vs.flatMap (leBytes w))
        ((swap vs).flatMap (leBytes w))) b).map id some) := by
  refine writes_array h values _ (fun vs => vs.flatMap fun v => wireOrder b.swapped (leBytes w v)) rfl ?_
  generalize values.getD [] = vs
  have hrev : (swap vs).flatMap (leBytes w) = vs.flatMap fun v => (leBytes w v).reverse := by
    rw [hswap, flatMap_map]; simp only [hb]
  have hlen : ((swap vs).flatMap (leBytes w)).length = (vs.flatMap (leBytes w)).length := by
    rw [hrev]; simp [length_flatMap]
  rw [writeWords_eq grant h hlen, hrev]
  have henc : (vs.flatMap fun v => wireOrder b.swapped (leBytes w v)) =
      if b.swapped then vs.flatMap (fun v => (leBytes w v).reverse) else vs.flatMap (leBytes w) := by
    unfold wireOrder; split <;> rfl
  rw [henc]
  exact writes_plain h hg _

theorem writes_binPad (h : b.Ok) (hg : granted → grant ≠ none) (hs : bs.length + 4 ≤ 2 ^ 31) :
    Writes granted (padded bs) b ((xRpcbufWriteBinPad grant bs b).map id some) := by
  rw [xRpcbufWriteBinPad_eq grant h hs]
  exact writes_plain h hg _

/-- The padding of the buffer to whole units. -/
theorem extends_pad (h : b.Ok) (hg : granted → grant ≠ none) :
    Extends granted (replicate (padLen b.wpos) 0) b (xRpcbufPad grant b) := by
  have heq : xRpcbufPad grant b = (writePlain grant (replicate (padLen b.wpos) 0) b).1 := by
    have hn : (b.wpos + 3) / 4 * 4 - b.wpos = padLen b.wpos := by unfold padLen; omega
    unfold xRpcbufPad xRpcbufReserve0 writePlain
    rw [hn, length_replicate]
    rcases xRpcbufReserve grant (padLen b.wpos) b with ⟨b', _ | pos⟩ <;> rfl
  rw [heq]
  exact (writes_plain h hg _).ext

/-- **Every writer** appends its encoding, latches the error, or finds it latched. -/
theorem RpcWrite.run_spec (a : Grants) (h : b.Ok) (w : RpcWrite) (hs : w.Small) :
    Writes (∀ k, a k ≠ none) (w.encode b.swapped b.wpos) b (w.run a b) := by
  cases w with
  | card8 v => exact writes_plain h (fun g => g 0) [v]
  | card16 v => exact writes_word h (fun g => g 0) (leBytes_bswap16 v)
  | int16 v => exact writes_word h (fun g => g 0) (leBytes_bswap16 v)
  | card32 v => exact writes_word h (fun g => g 0) (leBytes_bswap32 v)
  | int32 v => exact writes_word h (fun g => g 0) (leBytes_bswap32 v)
  | card64 v => exact writes_word h (fun g => g 0) (leBytes_bswap64 v)
  | card8s vs => exact writes_array h vs _ (fun vs => vs) rfl (writes_plain h (fun g => g 0) _)
  | card16s vs => exact writes_words h (fun g => g 0) swapShorts_eq leBytes_bswap16 vs
  | card32s vs => exact writes_words h (fun g => g 0) swapLongs_eq leBytes_bswap32 vs
  | int32s vs => exact writes_words h (fun g => g 0) swapLongs_eq leBytes_bswap32 vs
  | card64s vs => exact writes_words h (fun g => g 0) (fun _ => rfl) leBytes_bswap64 vs
  | stringPad s =>
    cases s with
    | none => exact ⟨h.extends_nil, fun hne => absurd rfl hne⟩
    | some s => exact writes_binPad h (fun g => g 0) hs
  | string0tPad s =>
    cases s with
    | none => exact writes_word h (fun g => g 0) (leBytes_bswap32 0)
    | some s =>
      have hs' : (cstr s).length + 5 ≤ 2 ^ 31 := hs
      exact writes_binPad h (fun g => g 0) (by simp only [length_append]; omega)
  | binaryPad vs => exact writes_array h vs _ padded rfl (writes_binPad h (fun g => g 0) hs)
  | countedStringPad s =>
    cases s with
    | none => exact ⟨h.extends_nil, fun hne => absurd rfl hne⟩
    | some s =>
      let len : CARD16 := BitVec.ofNat 16 (cstr s).length
      have h1 : Extends (∀ k, a k ≠ none) _ b (xRpcbufWriteCard16 (fun _ => a 0) len b).1 :=
        (writes_word h (fun g => g 0) (leBytes_bswap16 len)).ext
      have h2 : Extends (∀ k, a k ≠ none) _ _ (xRpcbufWriteCard8s (fun _ => a 1) _ _).1 :=
        (writes_array (h1.ok h) (some ((cstr s).take len.toNat)) _ (fun vs => vs) rfl
          (writes_plain (h1.ok h) (fun g => g 1) _)).ext
      have h3 : Extends (∀ k, a k ≠ none) _ _ (xRpcbufPad (a 2) _) :=
        extends_pad ((h1.trans h2).ok h) fun g => g 2
      exact ⟨(h1.trans h2).trans_pos (f := fun n => replicate (padLen n) 0) h3,
        fun _ v hv => nomatch hv⟩
  | rect x y width height =>
    have word : ∀ (k : ℕ) (v : CARD16) (b' : RpcBuf), b'.Ok → b'.swapped = b.swapped →
        Extends (∀ k, a k ≠ none) (wireOrder b.swapped (leBytes 2 v)) b'
          (xRpcbufWriteCard16 (fun _ => a k) v b').1 := fun k v b' hb' hsw =>
      hsw ▸ (writes_word hb' (fun g => g k) (leBytes_bswap16 v)).ext
    have h1 := word 0 x b h rfl
    have h2 := h1.trans (word 1 y _ (h1.ok h) h1.swapped)
    have h3 := h2.trans (word 2 width _ (h2.ok h) h2.swapped)
    have h4 := h3.trans (word 3 height _ (h3.ok h) h3.swapped)
    refine ⟨?_, fun _ v hv => nomatch hv⟩
    simpa only [RpcWrite.encode, RpcWrite.run, xRpcbufWriteRect, xRpcbufWriteInt16, flatMap_cons, flatMap_nil, append_nil,
      append_assoc] using h4
  | pad => exact ⟨extends_pad h fun g => g 0, fun _ v hv => nomatch hv⟩

/-- In the error state nothing is written, and every write that is not empty reports it. -/
theorem RpcWrite.run_latched (a : Grants) (h : b.Ok) (he : b.error = true) (w : RpcWrite) :
    (w.run a b).1 = b ∧
      (w.encode b.swapped b.wpos ≠ [] → ∀ v, (w.run a b).2 = some v → v = false) := by
  have hbin : ∀ bs : List Byte, (xRpcbufWriteBinPad (a 0) bs b).map id some = (b, some false) :=
    fun bs => by simp [xRpcbufWriteBinPad, reserve_error _ _ he]
  by_cases hs : w.Small
  · have hw := w.run_spec a h hs
    have hb := hw.ext.latched he
    exact ⟨hb, fun hne v hv => by have := hw.report hne v hv; rwa [hb, he] at this⟩
  · -- only a padded item can be too long, and it too finds the error latched
    have hrun : w.run a b = (b, some false) ∨ w.encode b.swapped b.wpos = [] ∧ w.run a b = (b, some true) := by
      cases w with
      | stringPad s =>
        cases s with
        | none => exact .inr ⟨rfl, rfl⟩
        | some s => exact .inl (hbin _)
      | string0tPad s =>
        cases s with
        | none => exact absurd (by decide : (0 : ℕ) + 5 ≤ 2 ^ 31) hs
        | some s => exact .inl (hbin _)
      | binaryPad vs =>
        rcases writeArray_cases vs (fun vs => xRpcbufWriteBinPad (a 0) vs) (b := b) with ⟨hv, hr⟩ | hr
        · exact absurd (by rw [hv]; decide : (vs.getD []).length + 4 ≤ 2 ^ 31) hs
        · refine .inl ?_
          rw [RpcWrite.run, xRpcbufWriteBinaryPad, hr]
          exact hbin _
      | _ => exact absurd trivial hs
    rcases hrun with hr | ⟨hnil, hr⟩
    · rw [hr]; exact ⟨rfl, fun _ v hv => (some.inj hv).symm⟩
    · rw [hr]; exact ⟨rfl, fun hne => absurd hnil hne⟩

end Writers

/-! ### Runs -/

/-- The padded items and the transferred contents fit an `int`. -/
def RpcOp.Small (s : ℕ → RpcBuf) : RpcOp → Prop
  | .write _ w _ => w.Small
  | .transfer _ j _ _ => (s j).wpos + 4 ≤ 2 ^ 31
  | _ => True

/-- Every allocation of the operation is granted. -/
def RpcOp.Granted : RpcOp → Prop
  | .write _ _ a | .transfer _ _ _ a => ∀ k, a k ≠ none
  | _ => True

/-- The buffer holds what was written, unless an allocation was refused. -/
structure Holds (granted : Prop) (b : RpcBuf) (w : Written) : Prop where
  ok : b.Ok
  swapped : b.swapped = w.swapped
  contents : b.error = false → b.contents = w.bytes
  error : granted → b.error = false

section Runs

variable {granted : Prop} {b : RpcBuf} {w : Written} {bs : List Byte}

theorem holds_clear (granted : Prop) (b : RpcBuf) : Holds granted (xRpcbufClear b) ⟨false, []⟩ :=
  ⟨⟨(fun _ hm => nomatch hm), le_rfl, fun _ _ => rfl, (fun he => nomatch he)⟩, rfl, fun _ => rfl,
    fun _ => rfl⟩

theorem Holds.mono {granted' : Prop} (h : Holds granted b w) (hg : granted' → granted) :
    Holds granted' b w := { h with error := fun g => h.error (hg g) }

theorem Holds.extend {b' : RpcBuf} (h : Holds granted b w) (he : Extends granted bs b b') :
    Holds granted b' { w with bytes := w.bytes ++ bs } := by
  refine ⟨he.ok h.ok, he.swapped.trans h.swapped, fun hb' => ?_, fun g => ?_⟩
  · cases hb : b.error with
    | true => rw [he.latched hb, hb] at hb'; cases hb'
    | false =>
      rcases he.step hb with h1 | ⟨-, -, h1⟩
      · rw [h1.contents, h.contents hb]
      · rw [h1] at hb'; cases hb'
  · rcases he.step (h.error g) with h1 | ⟨hn, -⟩
    · exact h1.error
    · exact absurd g hn

theorem Holds.reset (h : Holds granted b w) : Holds granted (xRpcbufReset b) { w with bytes := [] } := by
  unfold xRpcbufReset
  split
  · rename_i hcond
    refine { h with contents := fun he => ?_ }
    unfold RpcBuf.contents
    rcases hcond with hn | hz | hz
    · simp [isNone_iff_eq_none.1 hn]
    · have := h.ok.le; rw [show b.wpos = 0 by omega, take_zero]
    · rw [hz, take_zero]
  · exact ⟨⟨h.ok.length, Nat.zero_le _, h.ok.empty, h.ok.cleared⟩, h.swapped,
      fun _ => by simp [RpcBuf.contents], h.error⟩

/-- The transfer appends the padded contents of the source, or its error. -/
theorem Holds.transfer (a : Grants) {src : RpcBuf} {ws : Written} (h : Holds granted b w)
    (hsrc : Holds granted src ws) (hg : granted → ∀ k, a k ≠ none) (hs : src.wpos + 4 ≤ 2 ^ 31) :
    Holds granted (xRpcbufWriteRpcbufPad a b src).1 { w with bytes := w.bytes ++ padded ws.bytes } := by
  unfold xRpcbufWriteRpcbufPad
  cases he : src.error with
  | true =>
    refine ⟨h.ok.fail, h.swapped, (fun hb => nomatch hb), fun g => ?_⟩
    rw [hsrc.error g] at he; cases he
  | false =>
    have hbytes : (src.buffer.map fun mem => mem.take src.wpos).getD [] = ws.bytes := by
      rw [← hsrc.contents he, RpcBuf.contents]
      cases src.buffer <;> simp
    have hlen := hsrc.ok.length_contents he
    rw [hsrc.contents he] at hlen
    have hw := RpcWrite.run_spec a h.ok (.binaryPad (src.buffer.map fun mem => mem.take src.wpos))
      (by show _ + 4 ≤ 2 ^ 31; rw [hbytes, hlen]; exact hs)
    have hext := hw.ext.mono hg
    rw [RpcWrite.encode, hbytes] at hext
    exact h.extend hext

/-- **One step** of the buffers is one step of what was written. -/
theorem rpcStep_holds {s : ℕ → RpcBuf} {t : ℕ → Written} (h : ∀ i, Holds granted (s i) (t i))
    (op : RpcOp) (hs : op.Small s) (i : ℕ) :
    Holds (granted ∧ op.Granted) (rpcStep s op i) (writtenStep t op i) := by
  have hold : ∀ j, Holds (granted ∧ op.Granted) (s j) (t j) := fun j => (h j).mono And.left
  cases op with
  | write j w a =>
    by_cases hij : i = j
    · subst hij
      simp only [rpcStep, writtenStep, update_self]
      refine (hold i).extend ?_
      have hext := ((w.run_spec a (h i).ok hs).ext).mono (And.right (a := granted))
      rw [(h i).swapped] at hext
      cases he : (s i).error with
      | true => exact { hext with step := fun hf => absurd (he.symm.trans hf) (by simp) }
      | false =>
        rw [← (h i).ok.length_contents he, (h i).contents he] at hext
        exact hext
    · simp only [rpcStep, writtenStep, update_of_ne hij]; exact hold i
  | reset j =>
    by_cases hij : i = j
    · subst hij; simp only [rpcStep, writtenStep, update_self]; exact (hold i).reset
    · simp only [rpcStep, writtenStep, update_of_ne hij]; exact hold i
  | clear j =>
    by_cases hij : i = j
    · subst hij; simp only [rpcStep, writtenStep, update_self]; exact holds_clear _ _
    · simp only [rpcStep, writtenStep, update_of_ne hij]; exact hold i
  | transfer j k hjk a =>
    by_cases hik : i = k
    · subst hik; simp only [rpcStep, writtenStep, update_self]; exact holds_clear _ (s i)
    · by_cases hij : i = j
      · subst hij
        simp only [rpcStep, writtenStep, update_of_ne hik, update_self]
        exact (hold i).transfer a (hold k) And.right hs
      · simp only [rpcStep, writtenStep, update_of_ne hik, update_of_ne hij]
        exact hold i

/-- After every run each buffer holds what was written to it. -/
theorem run_holds (swapped errClear : ℕ → Bool) (ops : List RpcOp)
    (hs : AllSteps rpcStep RpcOp.Small (rpcStart swapped errClear) ops) (i : ℕ) :
    Holds (∀ op ∈ ops, op.Granted) (run rpcStep (rpcStart swapped errClear) ops i)
      (run writtenStep (writtenStart swapped) ops i) := by
  let P : List RpcOp → (ℕ → RpcBuf) → Prop := fun past s =>
    ∀ i, Holds (∀ op ∈ past, op.Granted) (s i) (run writtenStep (writtenStart swapped) past i)
  have hstart : P [] (rpcStart swapped errClear) := fun i =>
    ⟨⟨(fun _ hm => nomatch hm), le_rfl, fun _ _ => rfl, (fun he => nomatch he)⟩, rfl, fun _ => rfl,
      fun _ => rfl⟩
  refine AllSteps.history (P := P) (fun past s op hop h i => ?_) hs hstart i
  rw [run_snoc]
  exact (rpcStep_holds h op hop i).mono fun hall =>
    ⟨fun o ho => hall o (by simp [ho]), hall op (by simp)⟩

end Runs

/-- What `x_rpcbuf_wsize_units` counts of a buffer that fits an `int`. -/
theorem wsizeUnits_eq {b : RpcBuf} (hw : b.wpos < 2 ^ 31) :
    (xRpcbufWsizeUnits b).toNat = (b.wpos + 3) / 4 := by
  unfold xRpcbufWsizeUnits
  rw [BitVec.toNat_ofNat, Nat.mod_eq_of_lt (by omega)]

/-- **Reply buffers.** After every run whose padded items fit an `int`, for every buffer: the
write position is within its size; unless the error is latched the buffer holds exactly
what was written, and it is latched only after a refused allocation; once it is latched,
every write leaves the buffer alone and, if it encodes anything and reports at all, reports
failure; and sending the buffer extends the output of a client by as many units of four
bytes as `x_rpcbuf_wsize_units` counts. -/
theorem rpcbuf_contents (swapped errClear : ℕ → Bool) (ops : List RpcOp)
    (hs : AllSteps rpcStep RpcOp.Small (rpcStart swapped errClear) ops) (i : ℕ) :
    let b := run rpcStep (rpcStart swapped errClear) ops i
    b.wpos ≤ b.size ∧
    (b.error = false → b.contents = (run writtenStep (writtenStart swapped) ops i).bytes ∧
      b.contents.length = b.wpos) ∧
    ((∀ op ∈ ops, op.Granted) → b.error = false) ∧
    (b.error = true → ∀ (a : Grants) (w : RpcWrite), (w.run a b).1 = b ∧
      (w.encode b.swapped b.wpos ≠ [] → ∀ v, (w.run a b).2 = some v → v = false)) ∧
    (b.error = false → ∀ msg : Msg, msg.1 = b.contents →
      ∀ isLocal gone calls who (a : Answers), gone who = false → who ≠ serverClient →
        AllSteps outStep NoOverflow (outStart isLocal gone) (calls ++ [.write who msg a]) →
        ((run outStep (outStart isLocal gone) (calls ++ [.write who msg a])).clients who).transConn = true →
        ∃ out, out.length = 4 * (xRpcbufWsizeUnits b).toNat ∧
          InOrder (sentTo gone who calls ++ out) who
            (run outStep (outStart isLocal gone) (calls ++ [.write who msg a]))) := by
  have h := run_holds swapped errClear ops hs i
  generalize run rpcStep (rpcStart swapped errClear) ops i = b at h ⊢
  refine ⟨h.ok.le, fun he => ⟨h.contents he, h.ok.length_contents he⟩, h.error,
    fun he a w => w.run_latched a h.ok he,
    fun he msg hmsg isLocal gone calls who a hlive hserver hcalls hconn => ?_⟩
  have hlen : msg.1.length = b.wpos := by rw [hmsg, h.ok.length_contents he]
  have hd : delivered gone who msg = padded msg.1 := by simp [delivered, hlive, hserver]
  have hsent : sentTo gone who (calls ++ [.write who msg a]) =
      sentTo gone who calls ++ delivered gone who msg := by simp [sentTo]
  refine ⟨delivered gone who msg, ?_, hsent ▸ (run_outInv isLocal gone _ hcalls).inOrder hconn⟩
  rw [hd, length_padded_units, hlen, wsizeUnits_eq (by rw [← hlen]; exact msg.2)]

/-- A word written for a client of the other byte order. -/
theorem rpcbuf_contents_one :
    (run rpcStep (rpcStart (fun _ => true) fun _ => true)
      [.write 0 (.card16 0x0102) fun _ => some fun _ => 0] 0).contents = [1, 2] :=
  ((rpcbuf_contents (fun _ => true) (fun _ => true)
    [.write 0 (.card16 0x0102) fun _ => some fun _ => 0] ⟨trivial, trivial⟩ 0).2.1 rfl).1

/-- A padded item of `2 ^ 32` bytes reserves nothing. -/
theorem longItem_unreserved {m : List Byte} (hm : m.length = 2 ^ 32) {b : RpcBuf} (h : b.Ok)
    (he : b.error = false) :
    ((RpcWrite.binaryPad (some m)).run (fun _ => some fun _ => 0) b).1.wpos = b.wpos ∧
      ((RpcWrite.binaryPad (some m)).run (fun _ => some fun _ => 0) b).1.error = false := by
  have hblen : toSize (padToInt32 (wrapInt ((2 ^ 32 : ℕ) : ℤ))) = 0 := by decide
  have hrun : (RpcWrite.binaryPad (some m)).run (fun _ => some fun _ => 0) b =
      (xRpcbufWriteBinPad (some fun _ => 0) m b).map id some := by
    cases m with
    | nil => simp at hm
    | cons x m => rfl
  rw [hrun]
  unfold xRpcbufWriteBinPad
  rw [hm, hblen]
  rcases RpcBuf.reserve_spec (some fun _ => 0) 0 h he with ⟨b', mem, hr, hres⟩ | ⟨hn, -⟩
  · dsimp only
    rw [hr]
    exact ⟨hres.wpos, hres.error⟩
  · cases hn

/-- One write to a buffer whose `realloc` is answered by `grant`. -/
def oneWrite (w : RpcWrite) (grant : Option (ℕ → Byte)) : List RpcOp := [.write 0 w fun _ => grant]

theorem run_oneWrite (w : RpcWrite) (grant : Option (ℕ → Byte)) :
    run rpcStep (rpcStart (fun _ => false) fun _ => false) (oneWrite w grant) 0 =
      (w.run (fun _ => grant) (rpcStart (fun _ => false) (fun _ => false) 0)).1 := by
  rw [oneWrite, run_cons, run_nil, rpcStep, update_self]

theorem written_oneWrite (w : RpcWrite) (grant : Option (ℕ → Byte)) :
    (run writtenStep (writtenStart fun _ => false) (oneWrite w grant) 0).bytes = w.encode false 0 := by
  exact nil_append _

def longItem : List Byte := List.replicate (2 ^ 32) 0

/-- An empty write to a buffer in its error state reports success, and a padded item of
`2 ^ 32` bytes is not in the buffer although no allocation was refused. -/
theorem rpcbuf_exceptions :
    ((run rpcStep (rpcStart (fun _ => false) fun _ => false) (oneWrite (.card8 7) none) 0).error = true ∧
      ((RpcWrite.card8s (some [])).run (fun _ => none)
        (run rpcStep (rpcStart (fun _ => false) fun _ => false) (oneWrite (.card8 7) none) 0)).2 =
          some true) ∧
    (run rpcStep (rpcStart (fun _ => false) fun _ => false)
        (oneWrite (.binaryPad (some longItem)) (some fun _ => 0)) 0).error = false ∧
    (run rpcStep (rpcStart (fun _ => false) fun _ => false)
        (oneWrite (.binaryPad (some longItem)) (some fun _ => 0)) 0).contents ≠
      (run writtenStep (writtenStart fun _ => false)
        (oneWrite (.binaryPad (some longItem)) (some fun _ => 0)) 0).bytes := by
  have hlen : longItem.length = 2 ^ 32 := length_replicate
  have hok : (rpcStart (fun _ => false) (fun _ => false) 0).Ok :=
    ⟨(fun _ hm => nomatch hm), le_rfl, fun _ _ => rfl, (fun he => nomatch he)⟩
  obtain ⟨hpos, herr⟩ := longItem_unreserved hlen hok rfl
  generalize longItem = m at hlen hpos herr ⊢
  have hrun := run_oneWrite (.binaryPad (some m)) (some fun _ => 0)
  have hbytes := written_oneWrite (.binaryPad (some m)) (some fun _ => 0)
  refine ⟨⟨rfl, rfl⟩, by rw [hrun]; exact herr, fun heq => ?_⟩
  rw [hrun, hbytes, RpcBuf.contents, hpos] at heq
  have h0 : (rpcStart (fun _ => false) (fun _ => false) 0).wpos = 0 := rfl
  rw [h0, take_zero] at heq
  have := congrArg length heq
  rw [RpcWrite.encode, getD_some, length_padded, length_nil] at this
  omega

end Xenia.Dix
