import Xenia.Lib.Mem

/-!
# A heap of byte blocks

`Heap` is what `calloc`, `free` and `memcpy` see of memory: blocks of bytes under numbers
that are not handed out twice. A null pointer is `none`. A `free` of what is not allocated
and a copy past the end of a block are faults: the operation has no result.
-/

namespace Xenia.Lib

open List Function

structure Heap where
  blocks : ℕ → Option (List Byte)
  next : ℕ

namespace Heap

/-- `calloc` of `n` bytes; the allocator says whether it grants them. -/
def calloc (h : Heap) (granted : Bool) (n : ℕ) : Heap × Option ℕ :=
  if granted ∧ n ≤ PTRDIFF_MAX then
    (⟨Function.update h.blocks h.next (some (List.replicate n 0)), h.next + 1⟩, some h.next)
  else (h, none)

def free (h : Heap) : Option ℕ → Option Heap
  | none => some h
  | some q => if (h.blocks q).isSome then some { h with blocks := Function.update h.blocks q none } else none

/-- The bytes of a block. -/
def load (h : Heap) : Option ℕ → List Byte
  | none => []
  | some q => (h.blocks q).getD []

/-- `memcpy(dst + off, src, count)`. -/
def memcpy (h : Heap) (dst : Option ℕ) (off : ℤ) (src : List Byte) (count : ℤ) : Option Heap :=
  let n := toSize count
  if n = 0 then some h
  else
    match dst with
    | none => none
    | some q =>
      let blk := (h.blocks q).getD []
      if 0 ≤ off ∧ n ≤ src.length ∧ off.toNat + n ≤ blk.length then
        some { h with blocks := Function.update h.blocks q (some (memWrite blk off.toNat (src.take n))) }
      else none

/-- Allocated blocks have numbers below `next`. -/
def Fresh (h : Heap) : Prop := ∀ q, (h.blocks q).isSome → q < h.next

/-- The pointer is null or to an allocated block. -/
def Live (h : Heap) (p : Option ℕ) : Prop := ∀ q, p = some q → (h.blocks q).isSome

/-- The two heaps agree on the pointer. -/
def Agree (h h' : Heap) (p : Option ℕ) : Prop := ∀ q, p = some q → h'.blocks q = h.blocks q

variable {h h' : Heap} {p : Option ℕ}

theorem Agree.load (ha : Agree h h' p) : h'.load p = h.load p := by
  cases p with
  | none => rfl
  | some q => simp only [Heap.load, ha q rfl]

theorem Agree.live (ha : Agree h h' p) (hl : h.Live p) : h'.Live p := by
  intro q hq
  rw [ha q hq]
  exact hl q hq

/-- Freeing a block that is there. -/
theorem free_live (hl : h.Live p) (hf : h.Fresh) :
    ∃ h', h.free p = some h' ∧ h'.Fresh ∧ ∀ p', (∀ q, p = some q → p' ≠ some q) → h.Agree h' p' := by
  cases p with
  | none => exact ⟨h, rfl, hf, fun _ _ _ _ => rfl⟩
  | some q =>
    refine ⟨_, if_pos (hl q rfl), ?_, ?_⟩
    · intro r hr
      by_cases hrq : r = q
      · simp [hrq] at hr
      · simp only [update_of_ne hrq] at hr
        exact hf r hr
    · intro p' hp' r hr
      have hrq : r ≠ q := fun hrq => hp' q rfl (by rw [hr, hrq])
      exact update_of_ne hrq ..

variable {n : ℕ}

theorem calloc_granted (hn : n ≤ PTRDIFF_MAX) :
    h.calloc true n = (⟨update h.blocks h.next (some (replicate n 0)), h.next + 1⟩,
      some h.next) := by
  unfold calloc
  rw [if_pos ⟨rfl, hn⟩]

theorem calloc_refused : h.calloc false n = (h, none) := by
  unfold calloc
  rw [if_neg (by simp)]

theorem calloc_huge (granted : Bool) (hn : PTRDIFF_MAX < n) : h.calloc granted n = (h, none) := by
  unfold calloc
  rw [if_neg (by omega)]

/-- A copy within bounds. -/
theorem memcpy_block {q : ℕ} {blk src : List Byte} (off : ℕ) (hq : h.blocks q = some blk)
    (hn : n < 2 ^ 64) (hs : n ≤ src.length) (hb : off + n ≤ blk.length) :
    h.memcpy (some q) off src n =
      some { h with blocks := update h.blocks q (some (memWrite blk off (src.take n))) } := by
  unfold memcpy
  dsimp only
  rw [toSize_natCast hn]
  by_cases h0 : n = 0
  · have hw : memWrite blk off (src.take 0) = blk := by simp [memWrite]
    rw [if_pos h0, h0, hw, ← hq, update_eq_self]
  · rw [if_neg h0, hq]
    dsimp only [Option.getD]
    rw [if_pos ⟨by omega, hs, by simpa using hb⟩, Int.toNat_natCast]

/-- Two copies that fill a block: `bs` right after `as`. -/
theorem memWrite_fill {mem as bs : List Byte} (h : mem.length = as.length + bs.length) :
    memWrite (memWrite mem 0 as) as.length bs = as ++ bs ∧
      memWrite (memWrite mem as.length bs) 0 as = as ++ bs := by
  constructor
  · have := @memWrite_memWrite mem bs 0 as (by omega)
    rw [zero_add] at this
    simp [memWrite, h]
  · have hfirst : memWrite mem as.length bs = mem.take as.length ++ bs := by simp [memWrite, h]
    have hlen : (mem.take as.length).length = as.length := by simp [h]
    rw [hfirst]
    unfold memWrite
    rw [take_zero, nil_append, zero_add, drop_left' hlen]

end Heap

end Xenia.Lib
