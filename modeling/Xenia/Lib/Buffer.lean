import Mathlib.Data.List.GetD
import Xenia.Lib.Bits
import Xenia.Lib.Mem

/-!
# Filling a block of memory

A block from the allocator is zero. Stores go to offsets that a program computes, and `inside` says that none of them has left the
block. `maskBytes` are the bytes of a bit mask; setting bits one by one makes them (`setBit_maskBytes`). The rules for a store and for a
bit in the middle of a block (`store_mid`, `setBit_mid`) are the steps of loops that fill a block through running pointers.
-/

namespace Xenia.Lib

open List

/-- The bit `i` of a mask, as a byte and a shift. -/
def bitIsOn (ptr : List Byte) (i : ℕ) : Bool := (ptr.getD (i / 8) 0).getLsbD (i % 8)

def setBit (ptr : List Byte) (i : ℕ) : List Byte := ptr.set (i / 8) (ptr.getD (i / 8) 0 ||| BitVec.twoPow 8 (i % 8))

structure Buffer where
  mem : List Byte
  inside : Bool
deriving DecidableEq, Repr

namespace Buffer

def calloc (n : ℕ) : Buffer := { mem := List.replicate n 0, inside := true }

def store (b : Buffer) (off : ℕ) (bs : List Byte) : Buffer :=
  { mem := memWrite b.mem off bs, inside := b.inside && decide (off + bs.length ≤ b.mem.length) }

/-- The bit `i` of the mask at an offset is set. -/
def setBit (b : Buffer) (off i : ℕ) : Buffer :=
  { mem := b.mem.set (off + i / 8) (b.mem.getD (off + i / 8) 0 ||| BitVec.twoPow 8 (i % 8))
    inside := b.inside && decide (off + i / 8 < b.mem.length) }

/-- The block has these bytes, and all stores were inside. -/
def Holds (b : Buffer) (bytes : List Byte) : Prop := b.mem = bytes ∧ b.inside = true

variable {b : Buffer} {pre old post bs : List Byte} {off i : ℕ}

theorem calloc_holds (n : ℕ) : (calloc n).Holds (List.replicate n 0) := ⟨rfl, rfl⟩

theorem store_mid (h : b.Holds (pre ++ (old ++ post))) (hoff : off = pre.length) (hlen : bs.length = old.length) :
    (b.store off bs).Holds (pre ++ (bs ++ post)) := by
  obtain ⟨hmem, hinside⟩ := h
  subst hoff
  constructor
  · change memWrite b.mem pre.length bs = _
    rw [hmem, memWrite, take_left, hlen, ← length_append, ← append_assoc, drop_left, append_assoc]
  · change (b.inside && decide (pre.length + bs.length ≤ b.mem.length)) = true
    rw [hinside, hmem, Bool.true_and, decide_eq_true_eq, length_append, length_append]
    omega

/-- A store to the first of some zeros. -/
theorem store_zeros {room : ℕ} (h : b.Holds (pre ++ (List.replicate (bs.length + room) 0 ++ post))) (hoff : off = pre.length) :
    (b.store off bs).Holds ((pre ++ bs) ++ (List.replicate room 0 ++ post)) := by
  rw [← replicate_append_replicate, append_assoc] at h
  rw [append_assoc]
  exact store_mid h hoff (by rw [length_replicate])

theorem setBit_mid (h : b.Holds (pre ++ (old ++ post))) (hoff : off = pre.length) (hi : i < 8 * old.length) :
    (b.setBit off i).Holds (pre ++ (Lib.setBit old i ++ post)) := by
  obtain ⟨hmem, hinside⟩ := h
  subst hoff
  have hdiv : i / 8 < old.length := by omega
  constructor
  · change b.mem.set (pre.length + i / 8) (b.mem.getD (pre.length + i / 8) 0 ||| _) = _
    rw [hmem, Lib.setBit, set_append_right _ _ (by omega), Nat.add_sub_cancel_left, set_append_left _ _ hdiv,
      getD_append_right _ _ _ _ (by omega), Nat.add_sub_cancel_left, getD_append _ _ _ _ hdiv]
  · change (b.inside && decide (pre.length + i / 8 < b.mem.length)) = true
    rw [hinside, hmem, Bool.true_and, decide_eq_true_eq, length_append, length_append]
    omega

end Buffer

/-! ## Masks -/

/-- The bytes of a mask. -/
def maskBytes (n : ℕ) (f : ℕ → Bool) : List Byte := (List.range n).map fun j => ofBits 8 fun k => f (8 * j + k)

@[simp] theorem length_maskBytes (n : ℕ) (f : ℕ → Bool) : (maskBytes n f).length = n := by
  unfold maskBytes
  rw [length_map, length_range]

variable {n i : ℕ} {f g : ℕ → Bool} {ptr : List Byte}

theorem bitIsOn_maskBytes (f : ℕ → Bool) (hi : i < 8 * n) : bitIsOn (maskBytes n f) i = f i := by
  have hdiv : i / 8 < n := by omega
  have hmod : i % 8 < 8 := Nat.mod_lt _ (by decide)
  unfold bitIsOn maskBytes
  rw [getD_eq_getElem _ _ (by simpa using hdiv), getElem_map, getElem_range, getLsbD_ofBits _ hmod]
  apply congrArg f
  omega

theorem bitIsOn_setBit (hi : i < 8 * ptr.length) (k : ℕ) : bitIsOn (setBit ptr i) k = (bitIsOn ptr k || k == i) := by
  have hdiv : i / 8 < ptr.length := by omega
  unfold bitIsOn setBit
  by_cases hsame : k / 8 = i / 8
  · rw [hsame, getD_eq_getElem _ _ (by simpa using hdiv), getElem_set_self, BitVec.getLsbD_or, BitVec.getLsbD_twoPow]
    congr 1
    rw [Bool.eq_iff_iff, Bool.and_eq_true, decide_eq_true_eq, decide_eq_true_eq, beq_iff_eq]
    omega
  · have hne : (k == i) = false := by
      rw [beq_eq_false_iff_ne]
      rintro rfl
      exact hsame rfl
    rw [hne, Bool.or_false]
    congr 1
    rw [getD_eq_getElem?_getD, List.getElem?_set_ne (fun h => hsame h.symm), ← getD_eq_getElem?_getD]

/-- Bytes with the same bits. -/
theorem bytes_ext {p q : List Byte} (hlen : p.length = q.length) (h : ∀ k < 8 * p.length, bitIsOn p k = bitIsOn q k) : p = q := by
  apply ext_getElem hlen
  intro j hp hq
  apply BitVec.eq_of_getLsbD_eq
  intro k hk
  have hbit := h (8 * j + k) (by omega)
  unfold bitIsOn at hbit
  have hdiv : (8 * j + k) / 8 = j := by omega
  have hmod : (8 * j + k) % 8 = k := by omega
  rwa [hdiv, hmod, getD_eq_getElem _ _ hp, getD_eq_getElem _ _ hq] at hbit

/-- A bit of a mask is set. -/
theorem setBit_maskBytes (hi : i < 8 * n) (hg : ∀ k, k < 8 * n → g k = (f k || k == i)) : setBit (maskBytes n f) i = maskBytes n g := by
  apply bytes_ext
  · unfold setBit
    rw [length_set, length_maskBytes, length_maskBytes]
  · intro k hk
    have hk' : k < 8 * n := by
      unfold setBit at hk
      rwa [length_set, length_maskBytes] at hk
    rw [bitIsOn_setBit (by rwa [length_maskBytes]), bitIsOn_maskBytes f hk', bitIsOn_maskBytes g hk', hg k hk']

theorem maskBytes_congr (h : ∀ k, k < 8 * n → f k = g k) : maskBytes n f = maskBytes n g := by
  apply bytes_ext
  · rw [length_maskBytes, length_maskBytes]
  · intro k hk
    rw [length_maskBytes] at hk
    rw [bitIsOn_maskBytes f hk, bitIsOn_maskBytes g hk, h k hk]

theorem maskBytes_false (n : ℕ) : maskBytes n (fun _ => false) = List.replicate n 0 := by
  apply bytes_ext
  · rw [length_maskBytes, length_replicate]
  · intro k hk
    rw [length_maskBytes] at hk
    rw [bitIsOn_maskBytes _ hk]
    unfold bitIsOn
    rw [getD_eq_getElem _ _ (by rw [length_replicate]; omega), getElem_replicate]
    exact BitVec.getLsbD_zero.symm

/-- A mask is made of its bits. -/
theorem maskBytes_bitIsOn (ptr : List Byte) : maskBytes ptr.length (bitIsOn ptr) = ptr := by
  apply bytes_ext
  · rw [length_maskBytes]
  · intro k hk
    rw [length_maskBytes] at hk
    rw [bitIsOn_maskBytes _ hk]

end Xenia.Lib
