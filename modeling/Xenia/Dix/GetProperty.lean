import Xenia.Dix.PropertyContents
import Xenia.Dix.RpcbufContents

/-!
# Reading a property

`ProcGetProperty` over the property list of a window: the checks, the lookup, the part of the
value that is asked for, the reply buffer it is copied to, and the deletion of a property that
has been read to its end. The answers of the access control, of a property filter and of the
allocator are arguments. A reply is what is handed to `WriteToClient`, in the byte order of the
client; its header in that of the server.

`write_part`: the buffer holds the part asked for, or the buffer was refused.
-/

namespace Xenia.Dix

open Xenia.Lib List Bool

def AnyPropertyType : ℕ := 0

/-- `xGetPropertyReq` -/
structure GetPropertyReq where
  delete : ℕ
  property : ℕ
  type : ℕ
  longOffset : CARD32
  longLength : CARD32

/-- `PropertyFilterParam`, as far as this request fills it in and reads it back. -/
structure GetParam where
  property : ℕ
  type : ℕ
  delete : Bool
  longOffset : CARD32
  longLength : CARD32

/-- `xGetPropertyReply`, and the bytes behind it. -/
structure GetPropertyReply where
  format : ℕ
  propertyType : ℕ
  bytesAfter : ℕ
  nItems : ℕ
  payload : List Byte

/-- What `ProcGetProperty` asks of the rest of the server: which atoms there are, what the
filters make of the request, whether the window is there, and what the access control says of
the property. -/
structure GetEnv where
  validAtom : ℕ → Bool
  filter : GetParam → Except Status GetParam
  lookupWindow : Except (Status × ℕ) Unit
  access : Status

def GetPropertyReq.param (r : GetPropertyReq) : GetParam where
  property := r.property
  type := r.type
  delete := r.delete ≠ 0
  longOffset := r.longOffset
  longLength := r.longLength

/-- The checks before the lookup of the property: its parameters, or the status and, where one
is set, the error value. -/
def checkGet (e : GetEnv) (r : GetPropertyReq) : Except (Status × Option ℕ) GetParam :=
  if !e.validAtom r.property then .error (BadAtom, some r.property)
  else if r.delete ≠ 1 ∧ r.delete ≠ 0 then .error (BadValue, some r.delete)
  else if r.type ≠ AnyPropertyType ∧ !e.validAtom r.type then .error (BadAtom, some r.type)
  else
    match e.filter r.param with
    | .error rc => .error (rc, none)
    | .ok p =>
      match e.lookupWindow with
      | .error (rc, value) => .error (rc, some value)
      | .ok () => .ok p

/-! ### The part asked for -/

/-- The words at a pointer. -/
def card16s (dataptr : List Byte) (n : ℕ) : List CARD16 := (List.range n).map fun i => readCard16 (dataptr.drop (2 * i))

def card32s (dataptr : List Byte) (n : ℕ) : List CARD32 := (List.range n).map fun i => readCard32 (dataptr.drop (4 * i))

/-- `n`, the size of the property in bytes: a product of two `uint`. -/
def PropertyRec.numBytes (p : PropertyRec) : ℕ := p.format / 8 * p.size % 2 ^ 32

/-- `ind`, shifted as a `CARD32`. -/
def GetParam.ind (p : GetParam) : ℕ := (p.longOffset <<< 2).toNat

/-- `len` -/
def GetParam.len (p : GetParam) (n : ℕ) : ℕ := min (n - p.ind) (4 * p.longLength).toNat

/-- `x_rpcbuf_t rpcbuf = { swapped: client.swapped, err_clear: TRUE }` -/
def replyBuf (swapped : Bool) : RpcBuf := ⟨0, 0, none, swapped, false, true⟩

/-- The reply buffer with `len` bytes of the value from `ind` on. -/
def writePart (a : Grants) (swapped : Bool) (pProp : PropertyRec) (h : Heap) (ind len : ℕ) : RpcBuf :=
  let dataptr := (h.load pProp.data).drop ind
  match pProp.format with
  | 32 => (xRpcbufWriteCard32s a (pProp.data.map fun _ => card32s dataptr (len / 4)) (replyBuf swapped)).1
  | 16 => (xRpcbufWriteCard16s a (pProp.data.map fun _ => card16s dataptr (len / 2)) (replyBuf swapped)).1
  | _ => (xRpcbufWriteCard8s a (pProp.data.map fun _ => dataptr.take len) (replyBuf swapped)).1

/-! ### The request -/

/-- A property that is there and has the type asked for. -/
def readProperty (a : Grants) (swapped : Bool) (p : GetParam) (pProp : PropertyRec) (s : PropState) :
    Option (PropState × Status × Option GetPropertyReply) :=
  let n := pProp.numBytes
  let ind := p.ind
  if n < ind then some ({ s with errorValue := p.longOffset.toNat }, BadValue, none)
  else
    let len := p.len n
    let reply : GetPropertyReply := {
      bytesAfter := (n - (ind + len)) % 2 ^ 32
      format := pProp.format % 2 ^ 8
      nItems := len / (pProp.format / 8) % 2 ^ 32
      propertyType := pProp.type
      payload := [] }
    let s := if p.delete ∧ reply.bytesAfter = 0 then s.deliverPropertyNotifyEvent .delete pProp.propertyName else s
    let rpcbuf := writePart a swapped pProp s.heap ind len
    if rpcbuf.error then some (s, BadAlloc, none)
    else
      let s :=
        if p.delete ∧ reply.bytesAfter = 0 then
          (s.heap.free pProp.data).map fun h => { s.unlink pProp.propertyName with heap := h }
        else some s
      s.map fun s => (s, Success, some { reply with payload := rpcbuf.contents })

def getProperty (a : Grants) (swapped : Bool) (access : Status) (p : GetParam) (s : PropState) :
    Option (PropState × Status × Option GetPropertyReply) :=
  let (s, found, rc) := dixLookupProperty p.property access s
  if rc = BadMatch then some (s, Success, some ⟨0, 0, 0, 0, []⟩)
  else if rc ≠ Success then some (s, rc, none)
  else
    found.bind fun pProp =>
      if p.type ≠ pProp.type ∧ p.type ≠ AnyPropertyType then
        some (s, Success, some ⟨pProp.format % 2 ^ 8, pProp.type, pProp.size, 0, []⟩)
      else readProperty a swapped p pProp s

def procGetProperty (e : GetEnv) (a : Grants) (swapped : Bool) (r : GetPropertyReq) (s : PropState) :
    Option (PropState × Status × Option GetPropertyReply) :=
  match checkGet e r with
  | .error (rc, value) => some ({ s with errorValue := value.getD s.errorValue }, rc, none)
  | .ok p => getProperty a swapped e.access p s

/-! ### The reply buffer -/

/-- The bytes of units of `w` bytes, in the byte order of a client. -/
def wireUnits (swapped : Bool) (w : ℕ) (bs : List Byte) : List Byte :=
  (List.range (bs.length / w)).flatMap fun i => wireOrder swapped ((bs.drop (w * i)).take w)

@[simp] theorem length_wireOrder (swapped : Bool) (bs : List Byte) : (wireOrder swapped bs).length = bs.length := by
  unfold wireOrder
  split
  · exact length_reverse
  · rfl

theorem length_wireUnits (swapped : Bool) {w : ℕ} (hw : 0 < w) {bs : List Byte} (hdvd : w ∣ bs.length) :
    (wireUnits swapped w bs).length = bs.length := by
  obtain ⟨n, hn⟩ := hdvd
  have hunit : ∀ i ∈ List.range n, (wireOrder swapped ((bs.drop (w * i)).take w)).length = w := by
    intro i hi
    have hi' : i + 1 ≤ n := mem_range.1 hi
    have hle : w * (i + 1) ≤ w * n := Nat.mul_le_mul_left w hi'
    rw [length_wireOrder, length_take, length_drop]
    rw [Nat.mul_succ] at hle
    omega
  unfold wireUnits
  rw [hn, Nat.mul_div_cancel_left n hw, length_flatMap, map_congr_left hunit]
  simp [Nat.mul_comm]

theorem wireUnits_append (swapped : Bool) {w : ℕ} (hw : 0 < w) {xs : List Byte} (hdvd : w ∣ xs.length) (ys : List Byte) :
    wireUnits swapped w (xs ++ ys) = wireUnits swapped w xs ++ wireUnits swapped w ys := by
  obtain ⟨n, hn⟩ := hdvd
  unfold wireUnits
  have hlen : (xs ++ ys).length / w = n + ys.length / w := by
    rw [length_append, hn, Nat.mul_add_div hw]
  rw [hlen, hn, Nat.mul_div_cancel_left n hw, range_add, flatMap_append, flatMap_map]
  congr 1
  · apply flatMap_congr
    intro i hi
    have hi' : i + 1 ≤ n := mem_range.1 hi
    have hle : w * (i + 1) ≤ w * n := Nat.mul_le_mul_left w hi'
    rw [Nat.mul_succ] at hle
    rw [drop_append_of_le_length (by omega), take_append_of_le_length (by rw [length_drop]; omega)]
  · apply flatMap_congr
    intro i _
    rw [Nat.mul_add, ← hn, drop_append, drop_of_length_le (by omega), nil_append, Nat.add_sub_cancel_left]

/-- Single bytes have no order. -/
theorem wireUnits_one (swapped : Bool) (bs : List Byte) : wireUnits swapped 1 bs = bs := by
  induction bs with
  | nil => rfl
  | cons b bs ih =>
    have hcons : b :: bs = [b] ++ bs := rfl
    rw [hcons, wireUnits_append swapped Nat.one_pos (one_dvd _), ih]
    cases swapped <;> simp [wireUnits, wireOrder]

/-- A buffer that was to hold `bs`: it does, or it was refused. -/
structure Filled (grant : Option (ℕ → Byte)) (bs : List Byte) (b : RpcBuf) : Prop where
  error : b.error = true ↔ grant = none ∧ bs ≠ []
  contents : b.error = false → b.contents = bs

section Write

variable {grant : Option (ℕ → Byte)} {swapped : Bool}

theorem replyBuf_ok (swapped : Bool) : (replyBuf swapped).Ok :=
  ⟨fun _ h => (nomatch h), le_rfl, fun _ _ => rfl, fun h => nomatch h⟩

theorem array_filled {α : Type} {values : Option (List α)} {write : List α → RpcBuf → RpcBuf × Bool} {bs : List Byte}
    (hw : Writes (grant ≠ none) bs (replyBuf swapped) ((writeArray values write (replyBuf swapped)).map id some))
    (hrefused : grant = none → ∀ vs, (write vs (replyBuf swapped)).1.error = true)
    (hnil : bs = [] ↔ values.getD [] = []) : Filled grant bs (writeArray values write (replyBuf swapped)).1 := by
  have hcases := RpcBuf.writeArray_cases values write (b := replyBuf swapped)
  rcases hw.ext.step rfl with happ | ⟨hgrant, -, herr⟩
  · have herr : (writeArray values write (replyBuf swapped)).1.error = false := happ.error
    refine ⟨⟨fun h => ?_, fun ⟨hnone, hne⟩ => ?_⟩, fun _ => ?_⟩
    · rw [herr] at h
      exact absurd h false_ne_true
    · rcases hcases with ⟨he, -⟩ | hr
      · exact absurd (hnil.2 he) hne
      · rw [hr, hrefused hnone] at herr
        exact absurd herr.symm false_ne_true
    · exact happ.contents
  · have herr : (writeArray values write (replyBuf swapped)).1.error = true := herr
    refine ⟨⟨fun _ => ⟨not_not.1 hgrant, fun hbs => ?_⟩, fun _ => herr⟩, fun h => ?_⟩
    · -- nothing to write, nothing refused
      have hr : writeArray values write (replyBuf swapped) = (replyBuf swapped, true) := by
        match values, hnil.1 hbs with
        | none, _ => rfl
        | some [], _ => rfl
      rw [hr] at herr
      exact false_ne_true herr
    · rw [herr] at h
      exact absurd h.symm false_ne_true

theorem writePlain_refused (bs : List Byte) : (writePlain none bs (replyBuf swapped)).1.error = true := by
  unfold writePlain
  rfl

theorem writeWords_refused (bs swap : List Byte) : (writeWords none bs swap (replyBuf swapped)).1.error = true := by
  unfold writeWords
  rfl

/-- Words read at a pointer and written again. -/
theorem flatMap_words {n w : ℕ} {read : List Byte → BitVec n} (hread : ∀ bs, w ≤ bs.length → leBytes w (read bs) = bs.take w)
    (hw : 0 < w) {dataptr : List Byte} {k : ℕ} (hk : w * k ≤ dataptr.length) :
    (((List.range k).map fun i => read (dataptr.drop (w * i))).flatMap fun v => wireOrder swapped (leBytes w v)) =
      wireUnits swapped w (dataptr.take (w * k)) := by
  unfold wireUnits
  rw [flatMap_map, length_take, Nat.min_eq_left hk, Nat.mul_div_cancel_left k hw]
  apply flatMap_congr
  intro i hi
  have hi' : i + 1 ≤ k := mem_range.1 hi
  have hle : w * (i + 1) ≤ w * k := Nat.mul_le_mul_left w hi'
  rw [Nat.mul_succ] at hle
  rw [hread _ (by rw [length_drop]; omega), drop_take, take_take, Nat.min_eq_left (by omega)]

theorem words_filled {n w k : ℕ} {read : List Byte → BitVec n} {swap : List (BitVec n) → List (BitVec n)}
    {bswap : BitVec n → BitVec n} (hread : ∀ bs, w ≤ bs.length → leBytes w (read bs) = bs.take w) (hw : 0 < w)
    (hswap : ∀ vs, swap vs = vs.map bswap) (hb : ∀ v, leBytes w (bswap v) = (leBytes w v).reverse)
    {values : Option (List (BitVec n))} {dataptr : List Byte} (hk : w * k ≤ dataptr.length)
    (hvalues : values.getD [] = (range k).map fun i => read (dataptr.drop (w * i))) :
    Filled grant (wireUnits swapped w (dataptr.take (w * k))) (writeArray values (fun vs =>
      writeWords grant (vs.flatMap (leBytes w)) ((swap vs).flatMap (leBytes w))) (replyBuf swapped)).1 := by
  have hwrites : Writes (grant ≠ none) _ (replyBuf swapped) (Prod.map id some (writeArray values _ _)) :=
    writes_words (replyBuf_ok swapped) (fun h => h) hswap hb values
  have horder : (replyBuf swapped).swapped = swapped := rfl
  rw [hvalues, horder, flatMap_words hread hw hk] at hwrites
  apply array_filled hwrites
  · intro hnone vs
    rw [hnone]
    exact writeWords_refused _ _
  · rw [hvalues]
    have hlen : (wireUnits swapped w (dataptr.take (w * k))).length = w * k := by
      rw [length_wireUnits swapped hw, length_take, min_eq_left hk]
      rw [length_take, min_eq_left hk]
      exact dvd_mul_right w k
    constructor
    · intro hnil
      rw [hnil] at hlen
      obtain rfl : k = 0 := by
        rcases mul_eq_zero.1 hlen.symm with h0 | h0
        · omega
        · exact h0
      rfl
    · intro hnil
      obtain rfl : k = 0 := by simpa using congrArg length hnil
      exact eq_nil_of_length_eq_zero (by rw [hlen, mul_zero])

/-- **The reply buffer**: the part of the value, in the byte order of the client, or refused. -/
theorem write_part (a : Grants) (swapped : Bool) {p : PropertyRec} {h : Heap} {ind len : ℕ}
    (hformat : p.format = 8 ∨ p.format = 16 ∨ p.format = 32) (hdvd : p.format / 8 ∣ len)
    (hlen : ind + len ≤ (h.load p.data).length) :
    Filled (a 0) (wireUnits swapped (p.format / 8) (((h.load p.data).drop ind).take len)) (writePart a swapped p h ind len) := by
  have hptr : len ≤ ((h.load p.data).drop ind).length := by
    rw [length_drop]
    omega
  -- no value, no bytes
  have hnull : ∀ {α : Type} (vs : List α), (len = 0 → vs = []) → (p.data.map fun _ => vs).getD [] = vs := by
    intro α vs hvs
    cases hd : p.data with
    | some q => rfl
    | none =>
      rw [hd] at hlen
      exact (hvs (by simp [Heap.load] at hlen; omega)).symm
  unfold writePart
  rcases hformat with hf | hf | hf
  · rw [hf] at hdvd ⊢
    have hbytes := hnull (((h.load p.data).drop ind).take len) fun h0 => by rw [h0]; rfl
    have hw : Writes (a 0 ≠ none) _ (replyBuf swapped) _ :=
      writes_array (replyBuf_ok swapped) (p.data.map fun _ => ((h.load p.data).drop ind).take len)
        (fun vs => writePlain (a 0) vs) (fun vs => vs) rfl (writes_plain (replyBuf_ok swapped) id _)
    rw [hbytes] at hw
    rw [wireUnits_one]
    apply array_filled hw
    · intro hnone vs
      rw [hnone]
      exact writePlain_refused vs
    · rw [hbytes]
  · rw [hf] at hdvd ⊢
    obtain ⟨k, rfl⟩ : ∃ k, len = 2 * k := hdvd
    have hk : 2 * k / 2 = k := Nat.mul_div_cancel_left k (by decide)
    rw [hk]
    apply words_filled (fun bs => leBytes_readCard16) (by decide) swapShorts_eq leBytes_bswap16 hptr
    apply hnull
    intro h0
    obtain rfl : k = 0 := by omega
    rfl
  · rw [hf] at hdvd ⊢
    obtain ⟨k, rfl⟩ : ∃ k, len = 4 * k := hdvd
    have hk : 4 * k / 4 = k := Nat.mul_div_cancel_left k (by decide)
    rw [hk]
    apply words_filled (fun bs => leBytes_readCard32) (by decide) swapLongs_eq leBytes_bswap32 hptr
    apply hnull
    intro h0
    obtain rfl : k = 0 := by omega
    rfl

end Write

/-! ### Reading a stored property -/

/-- Properties as `ProcChangeProperty` stores them. -/
structure Stocked (s : PropState) : Prop where
  ok : PropsOk s.properties s.heap
  format : ∀ p ∈ s.properties, p.format = 8 ∨ p.format = 16 ∨ p.format = 32

/-- The size of a property in bytes. -/
def PropertyRec.bytes (p : PropertyRec) : ℕ := p.size * (p.format >>> 3)

theorem PropertyRec.numBytes_eq (p : PropertyRec) : p.numBytes = p.bytes % 2 ^ 32 := by
  unfold PropertyRec.numBytes PropertyRec.bytes
  rw [Nat.shiftRight_eq_div_pow, Nat.mul_comm]

theorem GetParam.ind_eq (q : GetParam) : q.ind = 4 * q.longOffset.toNat % 2 ^ 32 := by
  unfold GetParam.ind
  rw [BitVec.toNat_shiftLeft, Nat.shiftLeft_eq, Nat.mul_comm]

theorem GetParam.len_eq (q : GetParam) (n : ℕ) : q.len n = min (n - q.ind) (4 * q.longLength.toNat % 2 ^ 32) := by
  unfold GetParam.len
  rfl

section Read

variable {s : PropState} {p : PropertyRec} {q : GetParam}

/-- Whole units from whole units. -/
theorem unit_dvd_len (hf : p.format = 8 ∨ p.format = 16 ∨ p.format = 32) (q : GetParam) :
    p.format / 8 ∣ q.len p.numBytes := by
  have hshift : p.format >>> 3 = p.format / 8 := Nat.shiftRight_eq_div_pow ..
  have hunit : p.format / 8 = 1 ∨ p.format / 8 = 2 ∨ p.format / 8 = 4 := by omega
  rw [q.len_eq, q.ind_eq, p.numBytes_eq]
  unfold PropertyRec.bytes
  rw [hshift]
  rcases hunit with hu | hu | hu <;> rw [hu] <;> omega

/-- A property that is there, allowed, and of the type asked for. -/
theorem getProperty_found {a : Grants} {swapped : Bool} {access : Status} (hl : s.lookup q.property = some p)
    (haccess : access = Success) (hmatch : ¬(q.type ≠ p.type ∧ q.type ≠ AnyPropertyType)) :
    getProperty a swapped access q s = readProperty a swapped q p { s with errorValue := q.property } := by
  have hlook : ({ s with errorValue := q.property } : PropState).lookup q.property = some p := hl
  unfold getProperty dixLookupProperty
  dsimp only
  rw [hlook]
  dsimp only
  rw [haccess, if_neg (by decide), if_neg (fun h => h rfl), Option.bind_some, if_neg hmatch]

/-- Without the record that is found first. -/
theorem unlink_free (h : Stocked s) (hp : p ∈ s.properties) : ∃ h', s.heap.free p.data = some h' := by
  obtain ⟨h', hfree, -⟩ := Heap.free_live (h.ok.live p hp) h.ok.fresh
  exact ⟨h', hfree⟩

/-- **Reading a property**: `BadValue` behind its end, `BadAlloc` where the buffer for a part that
is not empty is refused, otherwise the part; the deletion is announced before it is known
which. -/
theorem readProperty_cases (a : Grants) (swapped : Bool) (h : Stocked s) (hp : p ∈ s.properties) (q : GetParam) :
    (p.numBytes < q.ind ∧
      readProperty a swapped q p s = some ({ s with errorValue := q.longOffset.toNat }, BadValue, none)) ∨
    (q.ind ≤ p.numBytes ∧
      ((a 0 = none ∧ q.len p.numBytes ≠ 0 ∧ readProperty a swapped q p s = some
          (if q.delete ∧ p.numBytes - q.ind - q.len p.numBytes = 0 then
            s.deliverPropertyNotifyEvent .delete p.propertyName else s, BadAlloc, none)) ∨
        ((a 0 ≠ none ∨ q.len p.numBytes = 0) ∧ ∃ s' reply, readProperty a swapped q p s = some (s', Success, some reply) ∧
          reply.bytesAfter = p.numBytes - q.ind - q.len p.numBytes ∧
          reply.payload = wireUnits swapped (p.format / 8)
            (((s.heap.load p.data).drop q.ind).take (q.len p.numBytes)) ∧
          if q.delete ∧ p.numBytes - q.ind - q.len p.numBytes = 0 then
            ∃ h', s' = { (s.unlink p.propertyName).deliverPropertyNotifyEvent .delete p.propertyName with heap := h' }
          else s' = s))) := by
  have hformat := h.format p hp
  have hn : p.numBytes < 2 ^ 32 := by
    exact Nat.mod_lt _ (by decide)
  have hle : p.numBytes ≤ (s.heap.load p.data).length := by
    rw [p.numBytes_eq, h.ok.length p hp]
    exact Nat.mod_le _ _
  by_cases hlt : p.numBytes < q.ind
  · refine .inl ⟨hlt, ?_⟩
    unfold readProperty
    rw [if_pos hlt]
  · refine .inr ⟨not_lt.1 hlt, ?_⟩
    have hlen : q.ind + q.len p.numBytes ≤ p.numBytes := by
      rw [q.len_eq]
      omega
    have hafter : (p.numBytes - (q.ind + q.len p.numBytes)) % 2 ^ 32 = p.numBytes - q.ind - q.len p.numBytes := by
      rw [Nat.sub_sub]
      exact Nat.mod_eq_of_lt (by omega)
    have hbytes : (((s.heap.load p.data).drop q.ind).take (q.len p.numBytes)).length = q.len p.numBytes := by
      rw [length_take, length_drop]
      omega
    have hunits := unit_dvd_len hformat q
    have hfill := write_part a swapped hformat hunits (hlen.trans hle)
    have hempty : wireUnits swapped (p.format / 8) (((s.heap.load p.data).drop q.ind).take (q.len p.numBytes)) ≠ [] ↔
        q.len p.numBytes ≠ 0 := by
      rw [← length_pos_iff, length_wireUnits swapped (by omega) (by rw [hbytes]; exact hunits), hbytes]
      exact pos_iff_ne_zero
    unfold readProperty
    dsimp only
    rw [if_neg hlt, hafter]
    by_cases hlast : q.delete = true ∧ p.numBytes - q.ind - q.len p.numBytes = 0
    · simp only [if_pos hlast]
      by_cases herr : (writePart a swapped p (s.deliverPropertyNotifyEvent .delete p.propertyName).heap q.ind
          (q.len p.numBytes)).error = true
      · obtain ⟨hnone, hne⟩ := hfill.error.1 herr
        exact .inl ⟨hnone, hempty.1 hne, if_pos herr⟩
      · obtain ⟨h', hfree⟩ := unlink_free h hp
        refine .inr ⟨?_, ?_⟩
        · by_contra hcon
          exact herr (hfill.error.2 ⟨by tauto, hempty.2 (by tauto)⟩)
        · rw [if_neg herr]
          change ∃ s' reply, Option.map _ (Option.map _ (s.heap.free p.data)) = _ ∧ _
          rw [hfree]
          exact ⟨_, _, rfl, rfl, hfill.contents (eq_false_iff.2 herr), h', rfl⟩
    · simp only [if_neg hlast]
      by_cases herr : (writePart a swapped p s.heap q.ind (q.len p.numBytes)).error = true
      · obtain ⟨hnone, hne⟩ := hfill.error.1 herr
        exact .inl ⟨hnone, hempty.1 hne, if_pos herr⟩
      · refine .inr ⟨?_, ?_⟩
        · by_contra hcon
          exact herr (hfill.error.2 ⟨by tauto, hempty.2 (by tauto)⟩)
        · rw [if_neg herr]
          exact ⟨_, _, rfl, rfl, hfill.contents (eq_false_iff.2 herr), rfl⟩

end Read

end Xenia.Dix
