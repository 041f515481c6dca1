import Xenia.Lib.Mem

/-!
# Byte swapping

`bswap_16`, `bswap_32` and `bswap_64` with their masks, and the list swaps built on them,
whose loops take 16 or 8 elements at a time. A swapped word has the bytes of the word in
reverse (`leBytes_bswap16` and its siblings); a swapped list has every element swapped
(`swapShorts_eq`, `swapLongs_eq`).
-/

namespace Xenia.Dix

open Xenia.Lib List

abbrev CARD8 := BitVec 8
abbrev CARD16 := BitVec 16
abbrev CARD32 := BitVec 32
abbrev CARD64 := BitVec 64

/-- The bytes of a word in memory, least significant first. -/
def leBytes (w : ℕ) {n : ℕ} (v : BitVec n) : List Byte :=
  (List.range w).map fun i => v.extractLsb' (8 * i) 8

@[simp] theorem length_leBytes (w : ℕ) {n : ℕ} (v : BitVec n) : (leBytes w v).length = w := by
  simp [leBytes]

def bswap16 (x : CARD16) : CARD16 := ((x &&& 0xFF00) >>> 8) ||| ((x &&& 0x00FF) <<< 8)

def bswap32 (x : CARD32) : CARD32 :=
  ((x &&& 0xFF000000) >>> 24) ||| ((x &&& 0x00FF0000) >>> 8) |||
    ((x &&& 0x0000FF00) <<< 8) ||| ((x &&& 0x000000FF) <<< 24)

def bswap64 (x : CARD64) : CARD64 :=
  ((x &&& 0xFF00000000000000) >>> 56) ||| ((x &&& 0x00FF000000000000) >>> 40) |||
    ((x &&& 0x0000FF0000000000) >>> 24) ||| ((x &&& 0x000000FF00000000) >>> 8) |||
    ((x &&& 0x00000000FF000000) <<< 8) ||| ((x &&& 0x0000000000FF0000) <<< 24) |||
    ((x &&& 0x000000000000FF00) <<< 40) ||| ((x &&& 0x00000000000000FF) <<< 56)

theorem leBytes_bswap16 (x : CARD16) : leBytes 2 (bswap16 x) = (leBytes 2 x).reverse := by
  simp only [leBytes, range_succ, range_zero, map_cons, map_nil,
    nil_append, cons_append, reverse_cons, reverse_nil, List.cons.injEq, and_true]
  refine ⟨?_, ?_⟩ <;> ext i hi <;> interval_cases i <;> simp [bswap16]

theorem leBytes_bswap32 (x : CARD32) : leBytes 4 (bswap32 x) = (leBytes 4 x).reverse := by
  simp only [leBytes, range_succ, range_zero, map_cons, map_nil,
    nil_append, cons_append, reverse_cons, reverse_nil, List.cons.injEq, and_true]
  refine ⟨?_, ?_, ?_, ?_⟩ <;> ext i hi <;> interval_cases i <;> simp [bswap32]

theorem leBytes_bswap64 (x : CARD64) : leBytes 8 (bswap64 x) = (leBytes 8 x).reverse := by
  simp only [leBytes, range_succ, range_zero, map_cons, map_nil,
    nil_append, cons_append, reverse_cons, reverse_nil, List.cons.injEq, and_true]
  refine ⟨?_, ?_, ?_, ?_, ?_, ?_, ?_, ?_⟩ <;> ext i hi <;> interval_cases i <;> simp [bswap64]

/-- Swap the elements of a list: `n` of them in each round of an unrolled loop, and those
left over one by one. -/
def swapList {α : Type*} (n : ℕ) (swap : α → α) (list : List α) : List α :=
  if 0 < n ∧ n ≤ list.length then (list.take n).map swap ++ swapList n swap (list.drop n)
  else rest list
termination_by list.length
decreasing_by simp; omega
where
  /-- The loop `do .. while (--count != 0)`, entered when anything is left. -/
  rest : List α → List α
    | [] => []
    | x :: list => swap x :: rest list

theorem swapList_eq {α : Type*} (n : ℕ) (swap : α → α) (list : List α) :
    swapList n swap list = list.map swap := by
  have hrest : ∀ list : List α, swapList.rest swap list = list.map swap := by
    intro list
    induction list with
    | nil => rfl
    | cons x list ih => rw [swapList.rest, ih, map_cons]
  fun_induction swapList n swap list with
  | case1 list h ih => rw [ih, ← map_append, take_append_drop]
  | case2 list h => exact hrest list

def swapShorts (list : List CARD16) : List CARD16 := swapList 16 bswap16 list
def swapLongs (list : List CARD32) : List CARD32 := swapList 8 bswap32 list

theorem swapShorts_eq (list : List CARD16) : swapShorts list = list.map bswap16 :=
  swapList_eq 16 bswap16 list

theorem swapLongs_eq (list : List CARD32) : swapLongs list = list.map bswap32 :=
  swapList_eq 8 bswap32 list

/-! ### Words in memory -/

def readCard16 (bs : List Byte) : CARD16 := (bs.getD 1 0 ++ bs.getD 0 0 : BitVec (8 + 8))

def readCard32 (bs : List Byte) : CARD32 := (bs.getD 3 0 ++ bs.getD 2 0 ++ bs.getD 1 0 ++ bs.getD 0 0 : BitVec (8 + 8 + 8 + 8))

theorem readCard16_leBytes (v : CARD16) (rest : List Byte) : readCard16 (leBytes 2 v ++ rest) = v := by
  apply BitVec.eq_of_getLsbD_eq
  intro i hi
  unfold readCard16 leBytes
  simp only [range_succ, range_zero, map_cons, nil_append, cons_append,
    getD_cons_zero, getD_cons_succ]
  rw [BitVec.getLsbD_append]
  split
  · rw [BitVec.getLsbD_extractLsb']
    simp [*]
  · rw [BitVec.getLsbD_extractLsb', decide_eq_true (by omega : i - 8 < 8), Bool.true_and]
    congr 1
    omega

theorem readCard32_leBytes (v : CARD32) (rest : List Byte) : readCard32 (leBytes 4 v ++ rest) = v := by
  apply BitVec.eq_of_getLsbD_eq
  intro i hi
  unfold readCard32 leBytes
  simp only [range_succ, range_zero, map_cons, nil_append, cons_append,
    getD_cons_zero, getD_cons_succ]
  simp only [BitVec.getLsbD_append, BitVec.getLsbD_extractLsb']
  split
  · simp [*]
  · split
    · rw [decide_eq_true (by omega), Bool.true_and]
      congr 1
      omega
    · split
      · rw [decide_eq_true (by omega), Bool.true_and]
        congr 1
        omega
      · rw [decide_eq_true (by omega), Bool.true_and]
        congr 1
        omega

@[simp] theorem bswap32_bswap32 (x : CARD32) : bswap32 (bswap32 x) = x := by
  have hbytes : leBytes 4 (bswap32 (bswap32 x)) = leBytes 4 x := by
    rw [leBytes_bswap32, leBytes_bswap32, reverse_reverse]
  have hread := readCard32_leBytes (bswap32 (bswap32 x)) []
  rw [hbytes, readCard32_leBytes] at hread
  exact hread.symm

theorem leBytes_readCard16 {bs : List Byte} (h : 2 ≤ bs.length) : leBytes 2 (readCard16 bs) = bs.take 2 := by
  obtain ⟨a, b, rest, rfl⟩ : ∃ a b rest, bs = a :: b :: rest := by
    match bs, h with
    | a :: b :: rest, _ => exact ⟨a, b, rest, rfl⟩
  have hread : leBytes 2 (readCard16 (a :: b :: rest)) = [a, b] := by
    simp only [leBytes, readCard16, range_succ, range_zero, map_cons, map_nil, nil_append,
      cons_append, List.cons.injEq, and_true]
    refine ⟨?_, ?_⟩ <;> apply BitVec.eq_of_getLsbD_eq <;> intro i hi <;>
      rw [BitVec.getLsbD_extractLsb', BitVec.getLsbD_append]
    · simp [hi]
    · simp [hi]
  exact hread

theorem leBytes_readCard32 {bs : List Byte} (h : 4 ≤ bs.length) : leBytes 4 (readCard32 bs) = bs.take 4 := by
  obtain ⟨a, b, c, d, rest, rfl⟩ : ∃ a b c d rest, bs = a :: b :: c :: d :: rest := by
    match bs, h with
    | a :: b :: c :: d :: rest, _ => exact ⟨a, b, c, d, rest, rfl⟩
  have hread : leBytes 4 (readCard32 (a :: b :: c :: d :: rest)) = [a, b, c, d] := by
    simp only [leBytes, readCard32, range_succ, range_zero, map_cons, map_nil, nil_append,
      cons_append, getD_cons_zero, getD_cons_succ, List.cons.injEq, and_true]
    refine ⟨?_, ?_, ?_, ?_⟩ <;> apply BitVec.eq_of_getLsbD_eq <;> intro i hi <;>
      rw [BitVec.getLsbD_extractLsb', decide_eq_true hi, Bool.true_and] <;> simp only [BitVec.getLsbD_append]
    · simp [hi]
    · simp [hi]
    · rw [if_neg (by omega), if_neg (by omega), if_pos (by omega), show 8 * 2 + i - 8 - 8 = i by omega]
    · rw [if_neg (by omega), if_neg (by omega), if_neg (by omega), show 8 * 3 + i - 8 - 8 - 8 = i by omega]
  exact hread

end Xenia.Dix
