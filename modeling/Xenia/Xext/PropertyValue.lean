import Xenia.Lib.Heap

/-!
# Values of properties

The properties of input devices and those of outputs have values of one shape, and a change builds the new value aside in one way:
memory is allocated for all units, and the old and the new ones are copied into it (`newValue`). `newValue_spec` says that the size, the
format and the length of the data agree, and that the bytes are those of the old value and of the request in the order that the mode says.
-/

namespace Xenia.Xext

open Xenia.Lib List Option

/-- `data` is the memory the value points to. -/
structure PropertyValue where
  type : ℕ
  format : ℤ
  size : ℕ
  data : List Byte
deriving DecidableEq, Repr

inductive PropMode
  | Replace
  | Prepend
  | Append
deriving DecidableEq, Repr

/-- The units of a request to change a property, and the answer of the allocator for the new value. -/
structure ValueRequest where
  type : ℕ
  format : ℤ
  len : ℕ
  value : List Byte
  allocValue : Bool

/-- `value` is an object in memory with at least the bytes of `len` units, a `c_ulong`. -/
structure ValueRequest.Fits (request : ValueRequest) : Prop where
  units : request.len < 2 ^ 64
  covers : request.len * (request.format >>> (3 : ℕ)).toNat ≤ request.value.length
  object : request.value.length ≤ PTRDIFF_MAX

/-- A conversion to `short`. -/
def toShort (x : ℤ) : ℤ := Int.bmod x (2 ^ 16)

/-- A property that is made has the value without units. -/
def initialValue : PropertyValue := { type := 0, format := 0, size := 0, data := [] }

/-- The new value over the old one: the memory is allocated for all units, and the new and the old ones are copied into it. None when
there is no memory. -/
def newValue (request : ValueRequest) (mode : PropMode) (old : PropertyValue) : Option PropertyValue :=
  let size_in_bytes := request.format >>> (3 : ℕ)
  let total_len := if mode = .Replace then request.len else (old.size + request.len) % 2 ^ 64
  let granted : Bool := request.allocValue && decide (total_len * toSize size_in_bytes ≤ PTRDIFF_MAX)
  if granted = false ∧ total_len ≠ 0 ∧ size_in_bytes ≠ 0 then none
  else
    let data : List Byte := List.replicate (total_len * toSize size_in_bytes) 0
    let added := toSize (request.len * size_in_bytes)
    let present := toSize (old.size * size_in_bytes)
    let fresh := request.value.take added
    let kept := old.data.take present
    some
      { type := request.type
        format := toShort request.format
        size := total_len
        data :=
          match mode with
          | .Replace => memWrite data 0 fresh
          | .Append => memWrite (memWrite data present fresh) 0 kept
          | .Prepend => memWrite (memWrite data 0 fresh) added kept }

/-! ## What the new value is -/

/-- The format is one that the field of a value can hold. -/
def FitsShort (format : ℤ) : Prop := -2 ^ 15 ≤ format ∧ format < 2 ^ 15

instance (format : ℤ) : Decidable (FitsShort format) := inferInstanceAs (Decidable (_ ∧ _))

/-- A format below zero has no units that could be stored. -/
def sizeInBytes (format : ℤ) : ℕ := (format >>> (3 : ℕ)).toNat

/-- Size, format and the length of the data agree. -/
structure PropertyValue.Ok (value : PropertyValue) : Prop where
  format : FitsShort value.format
  length : value.data.length = value.size * sizeInBytes value.format
  object : value.data.length ≤ PTRDIFF_MAX
  units : value.format < 0 → value.size = 0
  range : value.size < 2 ^ 64

def ValueRequest.bytes (request : ValueRequest) : List Byte := request.value.take (request.len * sizeInBytes request.format)

/-- The value that a request gives to a property. The count of units is a 64-bit number. -/
def ValueRequest.onto (request : ValueRequest) (mode : PropMode) (old : PropertyValue) : PropertyValue :=
  match mode with
  | .Replace => { type := request.type, format := request.format, size := request.len, data := request.bytes }
  | .Append => { old with size := (old.size + request.len) % 2 ^ 64, data := old.data ++ request.bytes }
  | .Prepend => { old with size := (old.size + request.len) % 2 ^ 64, data := request.bytes ++ old.data }

variable {request : ValueRequest} {value old : PropertyValue} {mode : PropMode} {format : ℤ}

theorem toShort_eq (hformat : FitsShort format) : toShort format = format := by
  apply Int.bmod_eq_of_le
  · have := hformat.1
    omega
  · have := hformat.2
    omega

theorem ValueRequest.Fits.length_bytes (hfits : request.Fits) :
    request.bytes.length = request.len * sizeInBytes request.format := by
  have hcovers := hfits.covers
  unfold ValueRequest.bytes sizeInBytes
  rw [length_take]
  omega

theorem ValueRequest.Fits.length_bytes_le (hfits : request.Fits) : request.bytes.length ≤ PTRDIFF_MAX := by
  unfold ValueRequest.bytes
  rw [length_take]
  exact (min_le_right _ _).trans hfits.object

/-- A product that is the length of an object is the one `size_t` has. -/
theorem toSize_mul {n : ℕ} (hn : format < 0 → n = 0) (h : n * sizeInBytes format ≤ PTRDIFF_MAX) :
    toSize (n * (format >>> (3 : ℕ))) = n * sizeInBytes format := by
  have hmax : PTRDIFF_MAX = 2 ^ 63 - 1 := rfl
  by_cases hneg : format < 0
  · rw [hn hneg]
    simp [toSize]
  · have hshift : 0 ≤ format >>> (3 : ℕ) := by
      rw [Int.shiftRight_eq_div_pow]
      omega
    have hcast : (n : ℤ) * (format >>> (3 : ℕ)) = ((n * sizeInBytes format : ℕ) : ℤ) := by
      unfold sizeInBytes
      rw [Nat.cast_mul, Int.toNat_of_nonneg hshift]
    rw [hcast]
    apply toSize_natCast
    omega

/-- What a block of memory that was allocated for units can hold; below zero there are none. -/
theorem allocated_units {n : ℕ} {granted : Bool} (hformat : FitsShort format)
    (h : ¬ ((granted && decide (n * toSize (format >>> (3 : ℕ)) ≤ PTRDIFF_MAX)) = false ∧ n ≠ 0 ∧ format >>> (3 : ℕ) ≠ 0)) :
    n * toSize (format >>> (3 : ℕ)) = n * sizeInBytes format ∧ n * sizeInBytes format ≤ PTRDIFF_MAX ∧ (format < 0 → n = 0) := by
  obtain ⟨hlow, hhigh⟩ := hformat
  have hdiv : format >>> (3 : ℕ) = format / 8 := Int.shiftRight_eq_div_pow format 3
  have hfits : n ≠ 0 → format >>> (3 : ℕ) ≠ 0 → n * toSize (format >>> (3 : ℕ)) ≤ PTRDIFF_MAX := by
    intro hn hs
    by_contra hno
    exact h ⟨by simp [hno], hn, hs⟩
  by_cases hneg : format < 0
  · have hbig : PTRDIFF_MAX < toSize (format >>> (3 : ℕ)) := by
      apply toSize_neg
      · omega
      · omega
    have hzero : n = 0 := by
      by_contra hn
      have := Nat.mul_le_mul (Nat.one_le_iff_ne_zero.2 hn) hbig
      omega
    subst hzero
    exact ⟨by rw [zero_mul, zero_mul], by omega, fun _ => rfl⟩
  · have hsize : toSize (format >>> (3 : ℕ)) = sizeInBytes format := by
      unfold toSize sizeInBytes
      rw [Int.emod_eq_of_lt (by omega) (by omega)]
    refine ⟨by rw [hsize], ?_, fun h => absurd h hneg⟩
    rw [← hsize]
    by_cases hn : n = 0
    · subst hn
      omega
    · by_cases hs : format >>> (3 : ℕ) = 0
      · rw [hs]
        simp [toSize]
      · exact hfits hn hs

/-- The old and the new bytes fill the memory that is allocated for both. -/
theorem joined_units (hfits : request.Fits) (hok : old.Ok) (hf : request.format = old.format) {granted : Bool}
    (h : ¬ ((granted && decide ((old.size + request.len) % 2 ^ 64 * toSize (request.format >>> (3 : ℕ)) ≤ PTRDIFF_MAX)) = false ∧
      (old.size + request.len) % 2 ^ 64 ≠ 0 ∧ request.format >>> (3 : ℕ) ≠ 0)) :
    toSize (old.size * (request.format >>> (3 : ℕ))) = old.data.length ∧
      toSize (request.len * (request.format >>> (3 : ℕ))) = request.bytes.length ∧
      (old.size + request.len) % 2 ^ 64 * toSize (request.format >>> (3 : ℕ)) = old.data.length + request.bytes.length ∧
      (old.size + request.len) % 2 ^ 64 * toSize (request.format >>> (3 : ℕ)) =
        (old.size + request.len) % 2 ^ 64 * sizeInBytes request.format ∧
      old.data.length + request.bytes.length ≤ PTRDIFF_MAX ∧
      (request.format < 0 → (old.size + request.len) % 2 ^ 64 = 0) := by
  have hmax : PTRDIFF_MAX = 2 ^ 63 - 1 := rfl
  have hformat : FitsShort request.format := hf ▸ hok.format
  obtain ⟨hsame, hfit, hneg⟩ := allocated_units hformat h
  have hunits := hfits.units
  have hold := hok.length
  have holdfit := hok.object
  have hbytes := hfits.length_bytes
  have hbytesfit := hfits.length_bytes_le
  rw [← hf] at hold
  rw [hold] at holdfit
  rw [hbytes] at hbytesfit
  have holdneg : request.format < 0 → old.size = 0 := fun hlt => hok.units (hf ▸ hlt)
  have hlenneg : request.format < 0 → request.len = 0 := by
    intro hlt
    omega
  have hsum : (old.size + request.len) % 2 ^ 64 * sizeInBytes request.format =
      old.data.length + request.bytes.length := by
    rw [hold, hbytes, ← add_mul]
    rcases eq_zero_or_pos (sizeInBytes request.format) with hzero | hpos
    · rw [hzero, mul_zero, mul_zero]
    · -- each unit takes a byte, so that the sum of the counts does not wrap
      have h1 : old.size ≤ old.size * sizeInBytes request.format := Nat.le_mul_of_pos_right _ hpos
      have h2 : request.len ≤ request.len * sizeInBytes request.format := Nat.le_mul_of_pos_right _ hpos
      rw [Nat.mod_eq_of_lt (by omega)]
  refine ⟨?_, ?_, ?_, hsame, ?_, hneg⟩
  · rw [toSize_mul holdneg holdfit, hold]
  · rw [toSize_mul hlenneg hbytesfit, hbytes]
  · rw [hsame, hsum]
  · rw [← hsum]
    exact hfit

theorem take_bytes (hfits : request.Fits) : request.value.take request.bytes.length = request.bytes := by
  rw [hfits.length_bytes]
  rfl

/-- **The value that is built aside** is the one the request asks for. -/
theorem newValue_spec (hfits : request.Fits) (hformat : FitsShort request.format)
    (hold : mode ≠ .Replace → old.Ok ∧ request.format = old.format ∧ old.type = request.type)
    (hnew : newValue request mode old = some value) : value = request.onto mode old ∧ value.Ok := by
  have hbytes := hfits.length_bytes
  unfold newValue at hnew
  dsimp only at hnew
  cases mode with
  | Replace =>
    rw [if_pos rfl] at hnew
    split at hnew
    · exact absurd hnew (by simp)
    next hgranted =>
      obtain ⟨hsame, hfit, hneg⟩ := allocated_units hformat hgranted
      rw [toShort_eq hformat, toSize_mul hneg hfit, hsame, ← hbytes, take_bytes hfits] at hnew
      obtain rfl := some.inj hnew
      have hwritten : memWrite (replicate request.bytes.length 0) 0 request.bytes = request.bytes := by
        unfold memWrite
        rw [take_zero, drop_of_length_le (by simp), append_nil, nil_append]
      rw [hwritten]
      exact ⟨rfl, hformat, hbytes, hfits.length_bytes_le, hneg, hfits.units⟩
  | Append =>
    obtain ⟨hok, hf, htype⟩ := hold (by decide)
    rw [if_neg (show PropMode.Append ≠ .Replace by decide)] at hnew
    split at hnew
    · exact absurd hnew (by simp)
    next hgranted =>
      obtain ⟨hpresent, hadded, htotal, hsame, hfit, hneg⟩ := joined_units hfits hok hf hgranted
      rw [toShort_eq hformat, hpresent, hadded, htotal, take_bytes hfits, take_length] at hnew
      obtain rfl := some.inj hnew
      rw [(Heap.memWrite_fill length_replicate).2]
      constructor
      · unfold ValueRequest.onto
        rw [← htype, hf]
      · refine ⟨hformat, ?_, ?_, hneg, Nat.mod_lt _ (by decide)⟩
        · rw [length_append, ← htotal]
          exact hsame
        · rw [length_append]
          exact hfit
  | Prepend =>
    obtain ⟨hok, hf, htype⟩ := hold (by decide)
    rw [if_neg (show PropMode.Prepend ≠ .Replace by decide)] at hnew
    split at hnew
    · exact absurd hnew (by simp)
    next hgranted =>
      obtain ⟨hpresent, hadded, htotal, hsame, hfit, hneg⟩ := joined_units hfits hok hf hgranted
      rw [toShort_eq hformat, hpresent, hadded, htotal, take_bytes hfits, take_length, add_comm old.data.length] at hnew
      obtain rfl := some.inj hnew
      rw [(Heap.memWrite_fill length_replicate).1]
      constructor
      · unfold ValueRequest.onto
        rw [← htype, hf]
      · refine ⟨hformat, ?_, ?_, hneg, Nat.mod_lt _ (by decide)⟩
        · rw [length_append, add_comm, ← htotal]
          exact hsame
        · rw [length_append, add_comm]
          exact hfit

/-- There is memory for a value that is there already. -/
theorem newValue_isSome (hok : old.Ok) (hformat : request.format = old.format) (hlen : request.len = old.size)
    (halloc : request.allocValue = true) (value : PropertyValue) : (newValue request .Replace value).isSome := by
  have hfit : old.size * toSize (old.format >>> (3 : ℕ)) ≤ PTRDIFF_MAX := by
    by_cases hneg : old.format < 0
    · rw [hok.units hneg]
      omega
    · have hsize : toSize (old.format >>> (3 : ℕ)) = sizeInBytes old.format := by
        have hhigh := hok.format.2
        unfold toSize sizeInBytes
        rw [Int.shiftRight_eq_div_pow, Int.emod_eq_of_lt (by omega) (by omega)]
      rw [hsize, ← hok.length]
      exact hok.object
  unfold newValue
  rw [if_pos rfl, hformat, hlen, halloc, if_neg]
  · rfl
  · rintro ⟨hno, -⟩
    rw [decide_eq_true hfit] at hno
    exact absurd hno (by decide)

/-- A value that replaces another with its own units is the same. -/
theorem PropertyValue.Ok.onto_replace (hok : old.Ok) (htype : request.type = old.type) (hformat : request.format = old.format)
    (hlen : request.len = old.size) (hvalue : request.value = old.data) (other : PropertyValue) :
    request.onto .Replace other = old := by
  unfold ValueRequest.onto ValueRequest.bytes
  rw [htype, hformat, hlen, hvalue, ← hok.length, take_length]

end Xenia.Xext
