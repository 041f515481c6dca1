import Mathlib.Tactic

/-!
# Bytes in memory, C integers and padding

A block of memory is the list of its bytes. `memWrite` is `memcpy` into a block at
an offset: a write past the end shows as a block longer than it was. `realloc`
returns the old contents and arbitrary bytes after them, or nothing. `wrapInt` and
`toSize` are the conversions to a 32-bit signed and a 64-bit unsigned integer.
`padded` is a message with the zero bytes that bring it to a multiple of four.
-/

namespace Xenia.Lib

open List

abbrev Byte := BitVec 8

/-! ### Integers -/

/-- Conversion to `int`: the representative in `[-2^31, 2^31)`. -/
def wrapInt (x : ℤ) : ℤ := Int.bmod x (2 ^ 32)

/-- Conversion to `size_t`. -/
def toSize (x : ℤ) : ℕ := (x % 2 ^ 64).toNat

/-- The largest object the allocator hands out. -/
def PTRDIFF_MAX : ℕ := 2 ^ 63 - 1

theorem wrapInt_eq {x : ℤ} (h1 : -2 ^ 31 ≤ x) (h2 : x < 2 ^ 31) : wrapInt x = x := by
  unfold wrapInt; rw [Int.bmod_eq_of_le] <;> omega

@[simp] theorem wrapInt_wrapInt (x : ℤ) : wrapInt (wrapInt x) = wrapInt x := Int.bmod_bmod

/-- Only the last reduction counts. -/
@[simp] theorem wrapInt_add (x y : ℤ) : wrapInt (wrapInt x + y) = wrapInt (x + y) := Int.bmod_add_bmod

@[simp] theorem wrapInt_sub (x y : ℤ) : wrapInt (wrapInt x - y) = wrapInt (x - y) := by
  rw [sub_eq_add_neg, wrapInt_add, ← sub_eq_add_neg]

theorem wrapInt_lt (x : ℤ) : wrapInt x < 2 ^ 31 := by
  unfold wrapInt; have := Int.bmod_lt (x := x) (m := 2 ^ 32) (by decide); omega

theorem le_wrapInt (x : ℤ) : -2 ^ 31 ≤ wrapInt x := by
  unfold wrapInt; have := Int.le_bmod (x := x) (m := 2 ^ 32) (by decide); omega

variable {n : ℕ}

@[simp] theorem toSize_natCast (h : n < 2 ^ 64) : toSize (n : ℤ) = n := by
  unfold toSize; omega

theorem toSize_eq {x : ℤ} (h0 : 0 ≤ x) (h : x < 2 ^ 64) : (toSize x : ℤ) = x := by
  unfold toSize; omega

/-- A negative `int` converts to a size no allocation can have. -/
theorem toSize_neg {x : ℤ} (h0 : x < 0) (h : -2 ^ 62 ≤ x) : PTRDIFF_MAX < toSize x := by
  unfold toSize PTRDIFF_MAX; omega

/-! ### Padding -/

/-- The number of bytes that bring `n` to a multiple of four. -/
def padLen (n : ℕ) : ℕ := (4 - n % 4) % 4

theorem padLen_lt (n : ℕ) : padLen n < 4 := Nat.mod_lt _ (by decide)

theorem padLen_dvd (n : ℕ) : (n + padLen n) % 4 = 0 := by unfold padLen; omega

/-- A message zero-padded to a multiple of four. -/
def padded (m : List Byte) : List Byte := m ++ List.replicate (padLen m.length) 0

theorem length_padded (m : List Byte) : (padded m).length = m.length + padLen m.length := by
  simp [padded]

/-- The length of a padded message, counted in units of four bytes. -/
theorem length_padded_units (m : List Byte) : (padded m).length = 4 * ((m.length + 3) / 4) := by
  rw [length_padded]; unfold padLen; omega

/-! ### Blocks -/

/-- Bytes copied into a block at an offset. -/
def memWrite (mem : List Byte) (off : ℕ) (bs : List Byte) : List Byte :=
  mem.take off ++ bs ++ mem.drop (off + bs.length)

variable {mem bs : List Byte} {off : ℕ}

theorem length_memWrite (h : off + bs.length ≤ mem.length) :
    (memWrite mem off bs).length = mem.length := by
  simp [memWrite]; omega

/-- What stands before the offset is kept. -/
theorem take_memWrite_le (hn : n ≤ off) (h : off ≤ mem.length) : (memWrite mem off bs).take n = mem.take n := by
  unfold memWrite
  rw [append_assoc, take_append_of_le_length (by simp; omega), take_take,
    Nat.min_eq_left hn]

/-- The bytes up to the end of the write. -/
theorem take_memWrite (h : off ≤ mem.length) :
    (memWrite mem off bs).take (off + bs.length) = mem.take off ++ bs := by
  unfold memWrite
  rw [take_append_of_le_length (by simp; omega), take_of_length_le (by simp)]

/-- Two writes, the second right after the first, are one. -/
theorem memWrite_memWrite {as : List Byte} (h : off + as.length ≤ mem.length) :
    memWrite (memWrite mem off as) (off + as.length) bs = memWrite mem off (as ++ bs) := by
  have hlen : (mem.take off ++ as).length = off + as.length := by simp; omega
  have htake : (memWrite mem off as).take (off + as.length) = mem.take off ++ as :=
    take_memWrite (by omega)
  have hdrop : (memWrite mem off as).drop (off + as.length + bs.length) =
      mem.drop (off + (as ++ bs).length) := by
    unfold memWrite
    rw [← hlen, drop_append, drop_of_length_le (by omega),
      nil_append, drop_drop]
    congr 1
    simp only [length_append, length_take]; omega
  rw [memWrite, htake, hdrop]
  simp [memWrite]

/-- A write over a write of the same length. -/
theorem memWrite_overwrite {as : List Byte} (hlen : as.length = bs.length) (h : off + bs.length ≤ mem.length) :
    memWrite (memWrite mem off as) off bs = memWrite mem off bs := by
  have hto : (mem.take off ++ as).length = off + bs.length := by simp; omega
  have hdrop : (memWrite mem off as).drop (off + bs.length) = mem.drop (off + bs.length) := by
    unfold memWrite
    rw [← hto, drop_left, hlen, hto]
  rw [memWrite, take_memWrite_le le_rfl (by omega), hdrop, memWrite]

/-- `realloc(old, n)` with any answer of the allocator: the old bytes and then whatever the
new memory held. -/
def grow (junk : Option (ℕ → Byte)) (old : List Byte) (n : ℕ) : Option (List Byte) :=
  junk.map fun f => old.take n ++ (List.range (n - old.length)).map f

variable {junk : Option (ℕ → Byte)}

theorem grow_some {old new : List Byte} (h : grow junk old n = some new) :
    new.length = n ∧ ∀ k ≤ old.length, k ≤ n → new.take k = old.take k := by
  obtain ⟨f, -, rfl⟩ := Option.map_eq_some_iff.1 h
  refine ⟨by simp; omega, fun k hk hkn => ?_⟩
  rw [take_append_of_le_length (by simp; omega), take_take, Nat.min_eq_left hkn]

/-- `realloc` by an allocator that always refuses sizes past `PTRDIFF_MAX`. -/
def realloc (junk : Option (ℕ → Byte)) (old : List Byte) (n : ℕ) : Option (List Byte) :=
  if n ≤ PTRDIFF_MAX then grow junk old n else none

theorem realloc_some {old new : List Byte} (h : realloc junk old n = some new) :
    n ≤ PTRDIFF_MAX ∧ new.length = n ∧ ∀ k ≤ old.length, k ≤ n → new.take k = old.take k := by
  unfold realloc at h
  split at h
  · exact ⟨‹_›, grow_some h⟩
  · simp at h

end Xenia.Lib
