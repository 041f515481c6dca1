import Xenia.Xi.DeviceProperty
import Xenia.Xext.OutputProperty

/-!
# Reading properties

`get_property` reads a part of the value of a device property, and `ProcRRGetOutputProperty` of an output property. Both multiply the
offset and the length by four, in an `int` and in a `CARD32`. `property_reads_iff` says for which values, offsets and lengths both give
the part that was asked for, and the second deletes what was read to its end.
-/

namespace Xenia.Xext.PropertyReads

open Xenia.Lib Xenia.Xi.DeviceProperty Xenia.Xext.OutputProperty List

def toInt (x : ℤ) : ℤ := Int.bmod x (2 ^ 32)

/-- What `get_property` gives back; the data are those of the value from a byte on. -/
structure Got where
  bytes_after : ℤ
  type_return : ℕ
  format : ℤ
  nitems : ℤ
  length_return : ℤ
  data : ℕ
deriving DecidableEq, Repr

/-- The handlers that can say whether the value is up to date have answered. -/
def XIGetDeviceProperty (properties : List XIProperty) (property : ℕ) (answers : List ℕ) : Except ℕ XIPropertyValue :=
  match XIFetchDeviceProperty properties property with
  | none => .error Xi.DeviceProperty.BadAtom
  | some prop =>
    match answers.find? (· != Xi.DeviceProperty.Success) with
    | some rc => .error rc
    | none => .ok prop.value

/-- An error comes with the value that is wrong. -/
def get_property (ValidAtom : ℕ → Bool) (properties : List XIProperty) (answers : List ℕ) (property type delete_ : ℕ)
    (offset length : ℤ) : Except (ℕ × ℤ) Got :=
  if ValidAtom property = false then .error (OutputProperty.BadAtom, property)
  else if delete_ ≠ 1 ∧ delete_ ≠ 0 then .error (BadValue, delete_)
  else if type ≠ AnyPropertyType ∧ ValidAtom type = false then .error (OutputProperty.BadAtom, type)
  else
    match XIFetchDeviceProperty properties property with
    | none => .ok { bytes_after := 0, type_return := 0, format := 0, nitems := 0, length_return := 0, data := 0 }
    | some _ =>
      match XIGetDeviceProperty properties property answers with
      | .error rc => .error (rc, property)
      | .ok prop_value =>
        if type ≠ prop_value.type ∧ type ≠ AnyPropertyType then
          .ok { bytes_after := toInt prop_value.size, type_return := prop_value.type, format := prop_value.format, nitems := 0,
                length_return := 0, data := 0 }
        else
          let n := propertyBytes prop_value
          let ind := toSize (toInt (offset * 4))
          if n < ind then .error (BadValue, offset)
          else
            let len := min (n - ind) (toSize (toInt (4 * length)))
            .ok
              { bytes_after := toInt (n - (ind + len) : ℕ)
                type_return := prop_value.type
                format := prop_value.format
                nitems := if prop_value.format ≠ 0 then toInt (len / toSize (prop_value.format.tdiv 8) : ℕ) else 0
                length_return := toInt len
                data := ind }

/-! ## What a reader should give -/

/-- A request for both readers, that asks for a property with the value. -/
structure Reading where
  ValidAtom : ℕ → Bool
  value : PropertyValue
  value_ok : value.Ok
  stuff : xRRGetOutputPropertyReq
  property_ok : ValidAtom stuff.property = true
  type_ok : stuff.type ≠ AnyPropertyType → ValidAtom stuff.type = true
  delete_ok : stuff.delete_ = 1 ∨ stuff.delete_ = 0
  alloc : stuff.alloc = true
  offset_lt : stuff.longOffset < 2 ^ 32
  length_lt : stuff.longLength < 2 ^ 32
  output : RROutputRec
  prop : RRPropertyRec
  found : RRQueryOutputProperty output stuff.property = some prop
  shown : RRGetOutputProperty output stuff.property stuff.pending = some value
  deletable : stuff.delete_ = 1 → prop.immutable_ = false
  properties : List XIProperty
  answers : List ℕ
  fetched : (XIFetchDeviceProperty properties stuff.property).isSome = true
  answered : XIGetDeviceProperty properties stuff.property answers = .ok value

namespace Reading

variable (r : Reading)

/-- The answer of the reader of device properties. The fields of the request go through an `int`. -/
def device : Except (ℕ × ℤ) Got :=
  get_property r.ValidAtom r.properties r.answers r.stuff.property r.stuff.type r.stuff.delete_ (toInt r.stuff.longOffset)
    (toInt r.stuff.longLength)

def reply : Returned (ℕ × xRRGetOutputPropertyReply) := ProcRRGetOutputProperty r.ValidAtom r.output r.stuff

def bytes : ℕ := r.value.data.length

def offset : ℕ := 4 * r.stuff.longOffset

def length : ℕ := min (r.bytes - r.offset) (4 * r.stuff.longLength)

/-- The bytes of the value from `start` on, as many as should be read. -/
def slice (start : ℕ) : List Byte := (r.value.data.drop start).take r.length

/-- The device reader gives the slice; the bytes that are left are sent as a `CARD32`. -/
def DeviceRight : Prop :=
  ((∃ e, r.device = .error (BadValue, e)) ↔ r.bytes < r.offset) ∧
    (r.offset ≤ r.bytes → ∃ got, r.device = .ok got ∧ got.length_return = r.length ∧
      (r.value.data.drop got.data).take got.length_return.toNat = r.slice r.offset ∧
      got.bytes_after % 2 ^ 32 = (r.bytes - r.offset - r.length : ℕ))

def OutputRight : Prop :=
  (r.reply.ret.1 = BadValue ↔ r.bytes < r.offset) ∧
    (r.offset ≤ r.bytes → r.reply.ret.1 = OutputProperty.Success ∧ r.reply.ret.2.data = r.slice r.offset ∧
      r.reply.ret.2.bytesAfter = r.bytes - r.offset - r.length)

/-- The value was read to its end, and had the type that was asked for. -/
def ReadToEnd : Prop :=
  otherType r.value r.stuff = false ∧ r.offset ≤ r.bytes ∧ r.bytes - r.offset ≤ 4 * r.stuff.longLength

/-- The property is deleted, and that is told, when it was read to its end. -/
def DeletionRight : Prop :=
  (r.ReadToEnd → r.reply.output = unlink r.stuff.property r.output ∧
    r.reply.events = [{ output := r.output.id, atom := r.prop.propertyName, state := .PropertyDelete }]) ∧
    (¬r.ReadToEnd → r.reply.output = r.output ∧ r.reply.events = [])

/-- Both readers give the slice that was asked for, and the second deletes what was read to its end. -/
def Right : Prop :=
  (otherType r.value r.stuff = false → r.DeviceRight ∧ r.OutputRight) ∧ (r.stuff.delete_ = 1 → r.DeletionRight)

/-- What the products on 32 bits have to be when numbers below `limit` are not negative ones. -/
def Exact (limit : ℕ) : Prop :=
  let start := r.offset % 2 ^ 32
  let wrapped := 4 * r.stuff.longLength % 2 ^ 32
  if r.bytes < r.offset then limit ≤ start ∨ r.bytes < start
  else
    start < limit ∧ r.bytes - r.offset - 4 * r.stuff.longLength < 2 ^ 32 ∧
      (if limit ≤ wrapped then r.bytes - r.offset < limit
        else if r.offset < 2 ^ 32 then r.stuff.longLength < 2 ^ 30 ∨ r.bytes - r.offset ≤ wrapped
        else wrapped = r.length) ∧
      (2 ^ 32 ≤ r.offset → r.slice start = r.slice r.offset)

/-! ## What they give -/

variable {r}

theorem propertyBytes_eq {value : PropertyValue} (hok : value.Ok) : propertyBytes value = value.data.length := by
  have hlength := hok.length
  have hobject := hok.object
  unfold propertyBytes PTRDIFF_MAX at *
  by_cases hneg : value.format < 0
  · have hsize := hok.units hneg
    rw [hsize, zero_mul] at hlength
    rw [hlength, hsize]
    simp [toSize]
  · have hcast : value.format.tdiv 8 * (value.size : ℤ) = (value.data.length : ℕ) := by
      rw [hlength, sizeInBytes, Int.shiftRight_eq_div_pow, Int.tdiv_eq_ediv_of_nonneg (by omega), Nat.cast_mul,
        Int.toNat_of_nonneg (by omega), mul_comm]
      rfl
    rw [hcast, toSize_natCast (by omega)]

/-- A product in an `int` that is then a `c_ulong`. -/
theorem toSize_wrapped (x : ℕ) :
    toSize (toInt (toInt x * 4)) = if 4 * x % 2 ^ 32 < 2 ^ 31 then 4 * x % 2 ^ 32 else 2 ^ 64 - 2 ^ 32 + 4 * x % 2 ^ 32 := by
  unfold toSize toInt
  simp only [Int.bmod_def]
  split <;> split <;> split <;> omega

theorem small (r : Reading) : r.bytes < 2 ^ 63 := by
  have := r.value_ok.object
  unfold PTRDIFF_MAX at this
  unfold bytes
  omega

theorem device_eq (htype : otherType r.value r.stuff = false) :
    r.device =
      let ind := toSize (toInt (toInt r.stuff.longOffset * 4))
      let len := min (r.bytes - ind) (toSize (toInt (toInt r.stuff.longLength * 4)))
      if r.bytes < ind then .error (BadValue, toInt r.stuff.longOffset)
      else
        .ok
          { bytes_after := toInt (r.bytes - (ind + len) : ℕ)
            type_return := r.value.type
            format := r.value.format
            nitems := if r.value.format ≠ 0 then toInt (len / toSize (r.value.format.tdiv 8) : ℕ) else 0
            length_return := toInt len
            data := ind } := by
  have hsame : ¬(r.stuff.type ≠ r.value.type ∧ r.stuff.type ≠ AnyPropertyType) := by
    unfold otherType at htype
    simpa [bne] using htype
  obtain ⟨prop, hprop⟩ := Option.isSome_iff_exists.1 r.fetched
  have hdelete := r.delete_ok
  unfold device get_property
  rw [if_neg (by rw [r.property_ok]; decide), if_neg (by omega), hprop, r.answered,
    if_neg fun h => absurd h.2 (by rw [r.type_ok h.1]; decide)]
  dsimp only
  rw [if_neg hsame, propertyBytes_eq r.value_ok, mul_comm 4 (toInt r.stuff.longLength)]
  rfl

/-- When the numbers in an `int` are those that were asked for. -/
theorem toInt_exact {N o x start : ℕ} (hN : N < 2 ^ 63) (ho : o ≤ N) (hstart : start = o % 2 ^ 32) :
    let len := min (N - start) (if 4 * x % 2 ^ 32 < 2 ^ 31 then 4 * x % 2 ^ 32 else 2 ^ 64 - 2 ^ 32 + 4 * x % 2 ^ 32)
    (toInt len = (min (N - o) (4 * x) : ℕ) ∧ toInt (N - (start + len) : ℕ) % 2 ^ 32 = (N - o - min (N - o) (4 * x) : ℕ)) ↔
      N - o - 4 * x < 2 ^ 32 ∧ (if 2 ^ 31 ≤ 4 * x % 2 ^ 32 then N - o < 2 ^ 31
        else if o < 2 ^ 32 then x < 2 ^ 30 ∨ N - o ≤ 4 * x % 2 ^ 32 else 4 * x % 2 ^ 32 = min (N - o) (4 * x)) := by
  intro len
  have hrest : toInt (N - (start + len) : ℕ) % 2 ^ 32 = ((N - (start + len) : ℕ) : ℤ) % 2 ^ 32 := Int.bmod_emod
  have hlen : toInt len = (min (N - o) (4 * x) : ℕ) ↔ len % 2 ^ 32 = min (N - o) (4 * x) ∧ min (N - o) (4 * x) < 2 ^ 31 := by
    unfold toInt
    rw [Int.bmod_def]
    split <;> omega
  rw [hrest, hlen]
  by_cases hwrap : 4 * x % 2 ^ 32 < 2 ^ 31
  · have hlen' : len = min (N - start) (4 * x % 2 ^ 32) := by
      change min _ _ = _
      rw [if_pos hwrap]
    rw [if_neg (by omega)]
    split <;> omega
  · have hlen' : len = N - start := by
      change min _ _ = _
      rw [if_neg hwrap]
      omega
    rw [if_pos (by omega)]
    omega
/-- **The device reader** is right when its products are exact. -/
theorem deviceRight_iff (htype : otherType r.value r.stuff = false) : r.DeviceRight ↔ r.Exact (2 ^ 31) := by
  have hsmall := r.small
  have hoffset : r.offset = 4 * r.stuff.longOffset := rfl
  obtain ⟨start, hstart⟩ : ∃ start, start = r.offset % 2 ^ 32 := ⟨_, rfl⟩
  unfold DeviceRight Exact
  rw [device_eq htype]
  dsimp only
  rw [toSize_wrapped, toSize_wrapped, ← hoffset, ← hstart]
  by_cases hbeyond : r.bytes < r.offset
  · rw [if_pos hbeyond]
    -- there is nothing to read
    constructor
    · rintro ⟨hbad, -⟩
      obtain ⟨e, he⟩ := hbad.2 hbeyond
      by_contra hno
      rw [not_or] at hno
      rw [if_pos (by omega : start < 2 ^ 31), if_neg (by omega)] at he
      cases he
    · intro hexact
      refine ⟨iff_of_true ⟨_, if_pos ?_⟩ hbeyond, fun h => absurd h (by omega)⟩
      split <;> omega
  · rw [if_neg hbeyond]
    by_cases hlow : start < 2 ^ 31
    · have hin := not_lt.1 hbeyond
      have hsame : r.offset < 2 ^ 32 → r.slice start = r.slice r.offset := fun h =>
        congrArg r.slice (hstart.trans (Nat.mod_eq_of_lt h))
      have hexact := @toInt_exact _ _ r.stuff.longLength _ hsmall hin hstart
      dsimp only at hexact
      rw [if_pos hlow, if_neg (by omega)]
      generalize min (r.bytes - start) _ = len at hexact ⊢
      constructor
      · rintro ⟨-, hgot⟩
        obtain ⟨got, hgot, hlength, hslice, hafter⟩ := hgot hin
        obtain rfl := Except.ok.inj hgot
        dsimp only at hlength hslice hafter
        obtain ⟨hrest, hproducts⟩ := hexact.1 ⟨hlength, hafter⟩
        refine ⟨hlow, hrest, hproducts, fun _ => ?_⟩
        rw [hlength, Int.toNat_natCast] at hslice
        exact hslice
      · rintro ⟨-, hrest, hproducts, hwrap⟩
        obtain ⟨hlength, hafter⟩ := hexact.2 ⟨hrest, hproducts⟩
        constructor
        · refine iff_of_false ?_ hbeyond
          rintro ⟨e, he⟩
          cases he
        · intro _
          refine ⟨_, rfl, ?_⟩
          dsimp only
          refine ⟨hlength, ?_, hafter⟩
          rw [hlength, Int.toNat_natCast]
          by_cases hfits : r.offset < 2 ^ 32
          · exact hsame hfits
          · exact hwrap (not_lt.1 hfits)
    · rw [if_neg hlow, if_pos (by omega)]
      exact iff_of_false (fun h => hbeyond (h.1.1 ⟨_, rfl⟩)) fun h => hlow h.1

/-! ## The reader of output properties -/

theorem reply_eq (htype : otherType r.value r.stuff = false) :
    r.reply =
      let start := r.offset % 2 ^ 32
      let len := min (r.bytes - start) (4 * r.stuff.longLength % 2 ^ 32)
      if r.bytes < start then { ret := (BadValue, noReply), output := r.output, events := [] }
      else
        let format := (r.value.format % 2 ^ 8).toNat
        let bytesAfter := (r.bytes - (start + len)) % 2 ^ 32
        sendout r.output r.stuff
          { format := format
            propertyType := r.value.type
            bytesAfter := bytesAfter
            nItems := len / (r.value.format.tdiv 8).toNat
            data := (r.value.data.drop start).take
              (len / (if format = 32 then 4 else if format = 16 then 2 else 1) * if format = 32 then 4 else if format = 16 then 2 else 1) }
          (if r.stuff.delete_ = 1 ∧ bytesAfter = 0 then
            [{ output := r.output.id, atom := r.prop.propertyName, state := .PropertyDelete }] else []) := by
  have hdelete := r.delete_ok
  have hoffset : replyOffset r.stuff = r.offset % 2 ^ 32 := by
    unfold replyOffset Reading.offset
    rw [mul_comm]
  unfold Reading.reply ProcRRGetOutputProperty replyBytesAfter replyLength
  rw [if_neg (by rw [r.property_ok]; decide), if_neg (by omega), r.found, r.shown,
    if_neg fun h => absurd h.2 (by rw [r.type_ok h.1]; decide)]
  dsimp only
  rw [if_neg fun h => absurd h.1 (by rw [r.deletable h.2]; decide), htype, if_neg (by decide), propertyBytes_eq r.value_ok, hoffset,
    r.alloc]
  by_cases hbeyond : r.bytes < r.offset % 2 ^ 32
  · rw [if_pos hbeyond]
    exact if_pos hbeyond
  · rw [if_neg hbeyond]
    exact (if_neg hbeyond).trans (if_neg fun h => absurd h.2 (by decide))

/-- Nothing is lost when the bytes go out in units. -/
theorem units_eq {start : ℕ} (hstart : 4 ∣ start) :
    let format := (r.value.format % 2 ^ 8).toNat
    let len := min (r.bytes - start) (4 * r.stuff.longLength % 2 ^ 32)
    (len / (if format = 32 then 4 else if format = 16 then 2 else 1) * if format = 32 then 4 else if format = 16 then 2 else 1) = len := by
  intro format len
  have hlength := r.value_ok.length
  have hnone : r.value.format < 0 → r.bytes = 0 := fun h => by
    unfold bytes
    rw [hlength, r.value_ok.units h, zero_mul]
  have hdvd : ∀ unit : ℕ, unit ∣ sizeInBytes r.value.format → unit ∣ r.bytes := fun unit h => by
    unfold bytes
    rw [hlength]
    exact h.mul_left _
  have hsize : 0 ≤ r.value.format → sizeInBytes r.value.format = r.value.format.toNat / 8 := fun h => by
    unfold sizeInBytes
    rw [Int.shiftRight_eq_div_pow]
    omega
  split
  next hformat =>
    have hbytes : 4 ∣ r.bytes := by
      by_cases hneg : r.value.format < 0
      · rw [hnone hneg]
        exact dvd_zero 4
      · exact hdvd 4 (by rw [hsize (by omega)]; omega)
    omega
  next =>
    split
    next hformat =>
      have hbytes : 2 ∣ r.bytes := by
        by_cases hneg : r.value.format < 0
        · rw [hnone hneg]
          exact dvd_zero 2
        · exact hdvd 2 (by rw [hsize (by omega)]; omega)
      omega
    next => omega

/-- **The reader of output properties** is right when its products are exact. -/
theorem outputRight_iff (htype : otherType r.value r.stuff = false) : r.OutputRight ↔ r.Exact (2 ^ 32) := by
  have hoffset : r.offset = 4 * r.stuff.longOffset := rfl
  obtain ⟨start, hstart⟩ : ∃ start, start = r.offset % 2 ^ 32 := ⟨_, rfl⟩
  have hunits := @units_eq r start (by omega)
  unfold OutputRight Exact
  rw [reply_eq htype]
  dsimp only at hunits ⊢
  rw [← hstart, hunits]
  by_cases hbeyond : r.bytes < r.offset
  · rw [if_pos hbeyond]
    constructor
    · rintro ⟨hbad, -⟩
      by_contra hno
      rw [if_neg (by omega)] at hbad
      exact absurd (show OutputProperty.Success = BadValue from hbad.2 hbeyond) (by decide)
    · intro hexact
      rw [if_pos (by omega)]
      exact ⟨iff_of_true rfl hbeyond, fun h => absurd h (by omega)⟩
  · have hin := not_lt.1 hbeyond
    obtain ⟨len, hlen⟩ : ∃ len, len = min (r.bytes - start) (4 * r.stuff.longLength % 2 ^ 32) := ⟨_, rfl⟩
    have hlength : r.length = min (r.bytes - r.offset) (4 * r.stuff.longLength) := rfl
    have hcount : ((r.value.data.drop start).take len).length = len := by
      rw [length_take, length_drop]
      exact min_eq_left (by rw [hlen]; exact min_le_left _ _)
    have hcount' : (r.slice r.offset).length = r.length := by
      unfold slice
      rw [length_take, length_drop]
      exact min_eq_left (min_le_left _ _)
    rw [if_neg hbeyond, if_neg (by omega), ← hlen]
    unfold sendout
    dsimp only
    constructor
    · rintro ⟨-, hgot⟩
      obtain ⟨-, hslice, hafter⟩ := hgot hin
      have hsame : len = r.length := by rw [← hcount, hslice, hcount']
      refine ⟨by omega, by omega, ?_, fun _ => by rw [hsame] at hslice; exact hslice⟩
      rw [if_neg (by omega)]
      split <;> omega
    · rintro ⟨-, hrest, hproducts, hwrap⟩
      rw [if_neg (by omega)] at hproducts
      have hsame : len = r.length ∧ r.slice start = r.slice r.offset := by
        split at hproducts
        next hfits => exact ⟨by omega, congrArg r.slice (hstart.trans (Nat.mod_eq_of_lt hfits))⟩
        next hfits => exact ⟨by omega, hwrap (not_lt.1 hfits)⟩
      refine ⟨iff_of_false (by decide) hbeyond, fun _ => ⟨rfl, ?_, by omega⟩⟩
      rw [hsame.1]
      exact hsame.2

/-! ## Deletion -/

theorem unlink_ne (r : Reading) : unlink r.stuff.property r.output ≠ r.output := by
  intro heq
  have hfound := r.found
  unfold RRQueryOutputProperty at hfound
  have hmem := mem_of_find?_eq_some hfound
  have hlength := length_eraseP_of_mem hmem (find?_some hfound)
  have hpos := length_pos_of_mem hmem
  have hsame : (unlink r.stuff.property r.output).properties.length = r.output.properties.length := by rw [heq]
  unfold unlink at hsame
  dsimp only at hsame
  omega

/-- Bytes that were read rightly are deleted rightly. -/
theorem deletion_right (htype : otherType r.value r.stuff = false) (hdelete : r.stuff.delete_ = 1) (hright : r.OutputRight) :
    r.DeletionRight := by
  obtain ⟨hbad, hgot⟩ := hright
  unfold DeletionRight ReadToEnd
  have hreply := reply_eq htype
  dsimp only at hreply
  by_cases hbeyond : r.bytes < r.offset % 2 ^ 32
  · rw [if_pos hbeyond] at hreply
    rw [hreply] at hbad ⊢
    have hout := hbad.1 rfl
    exact ⟨fun h => absurd h.2.1 (by omega), fun _ => ⟨rfl, rfl⟩⟩
  · rw [if_neg hbeyond] at hreply
    rw [hreply] at hbad hgot ⊢
    unfold sendout at hbad hgot ⊢
    dsimp only at hbad hgot ⊢
    have hin := not_lt.1 fun h => absurd (hbad.2 h) (by decide)
    obtain ⟨-, -, hafter⟩ := hgot hin
    have hlength : r.length = min (r.bytes - r.offset) (4 * r.stuff.longLength) := rfl
    rw [hafter]
    constructor
    · rintro ⟨-, -, hend⟩
      have hzero : r.stuff.delete_ = 1 ∧ r.bytes - r.offset - r.length = 0 := ⟨hdelete, by omega⟩
      exact ⟨if_pos hzero, if_pos hzero⟩
    · intro hmore
      have hsome : ¬(r.stuff.delete_ = 1 ∧ r.bytes - r.offset - r.length = 0) := fun h => hmore ⟨htype, hin, by omega⟩
      exact ⟨if_neg hsome, if_neg hsome⟩

/-- A value of another type is deleted when the field for its size is zero. -/
theorem deletion_other (htype : otherType r.value r.stuff = true) (hdelete : r.stuff.delete_ = 1) :
    r.DeletionRight ↔ r.value.size % 2 ^ 32 ≠ 0 := by
  have hno : ¬r.ReadToEnd := fun h => absurd (h.1.symm.trans htype) (by decide)
  have hreply : r.reply = sendout r.output r.stuff
      { format := (r.value.format % 2 ^ 8).toNat, propertyType := r.value.type, bytesAfter := r.value.size % 2 ^ 32, nItems := 0,
        data := [] } [] := by
    have hvalid := r.delete_ok
    unfold reply ProcRRGetOutputProperty
    rw [if_neg (by rw [r.property_ok]; decide), if_neg (by omega), r.found, r.shown,
      if_neg fun h => absurd h.2 (by rw [r.type_ok h.1]; decide)]
    dsimp only
    rw [if_neg fun h => absurd h.1 (by rw [r.deletable h.2]; decide), htype, if_pos rfl]
  unfold DeletionRight
  rw [hreply]
  unfold sendout
  dsimp only
  constructor
  · intro h hzero
    have hkept := (h.2 hno).1
    rw [if_pos ⟨hdelete, hzero⟩] at hkept
    exact r.unlink_ne hkept
  · intro hsome
    exact ⟨fun h => absurd h hno, fun _ => ⟨if_neg fun h => hsome h.2, rfl⟩⟩

end Reading

/-- **When both readers are right.** -/
theorem property_reads_iff (r : Reading) :
    r.Right ↔ if otherType r.value r.stuff = true then r.stuff.delete_ = 1 → r.value.size % 2 ^ 32 ≠ 0
      else r.Exact (2 ^ 31) ∧ r.Exact (2 ^ 32) := by
  unfold Reading.Right
  cases htype : otherType r.value r.stuff with
  | true =>
    rw [if_pos rfl]
    constructor
    · rintro ⟨-, hright⟩ hdelete
      exact (Reading.deletion_other htype hdelete).1 (hright hdelete)
    · intro hsome
      exact ⟨fun h => absurd h (by decide), fun hdelete => (Reading.deletion_other htype hdelete).2 (hsome hdelete)⟩
  | false =>
    rw [if_neg (by decide)]
    constructor
    · rintro ⟨hright, -⟩
      obtain ⟨hdevice, houtput⟩ := hright rfl
      exact ⟨(Reading.deviceRight_iff htype).1 hdevice, (Reading.outputRight_iff htype).1 houtput⟩
    · rintro ⟨hdevice, houtput⟩
      have hright := (Reading.outputRight_iff htype).2 houtput
      exact ⟨fun _ => ⟨(Reading.deviceRight_iff htype).2 hdevice, hright⟩, fun hdelete => Reading.deletion_right htype hdelete hright⟩

/-- The offset `2 ^ 30` reads a property of four bytes from its start. -/
theorem property_reads_wrong : ¬∀ r : Reading, r.Right := by
  intro h
  have hright := h
    { ValidAtom := fun _ => true
      value := { type := 19, format := 32, size := 1, data := [1, 2, 3, 4] }
      value_ok := ⟨by decide, by decide, by decide, by decide, by decide⟩
      stuff := { property := 70, type := 0, longOffset := 2 ^ 30, longLength := 1, delete_ := 0, pending := false, alloc := true }
      property_ok := rfl
      type_ok := fun _ => rfl
      delete_ok := .inr rfl
      alloc := rfl
      offset_lt := by decide
      length_lt := by decide
      output :=
        { id := 1
          properties :=
            [{ propertyName := 70, is_pending := false, range := false, immutable_ := false, valid_values := [],
               current := { type := 19, format := 32, size := 1, data := [1, 2, 3, 4] }, pending := initialValue }]
          pendingProperties := false
          nonDesktop := false }
      prop :=
        { propertyName := 70, is_pending := false, range := false, immutable_ := false, valid_values := [],
          current := { type := 19, format := 32, size := 1, data := [1, 2, 3, 4] }, pending := initialValue }
      found := rfl
      shown := rfl
      deletable := fun h => absurd h (by decide)
      properties := [{ propertyName := 70, value := { type := 19, format := 32, size := 1, data := [1, 2, 3, 4] }, deletable := true }]
      answers := []
      fetched := rfl
      answered := rfl }
  have hbad := ((hright.1 rfl).2.1).2 (by decide)
  exact absurd hbad (by decide +kernel)

end Xenia.Xext.PropertyReads
