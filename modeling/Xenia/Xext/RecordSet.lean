import Xenia.Lib.Intervals
import Xenia.Lib.Mem
import Xenia.Lib.Outcome

/-!
# Sets of the RECORD extension

A set of numbers below 65536 that is given as a list of intervals. It is stored as a bit vector or as
a list of disjoint intervals, whichever is expected to be better; the iterator over it is the next
number in the first case and a pointer to the next interval in the second.

The memory of a set is its header of 16 bytes, and the words of the bit vector or the cells of the
list after it. An access behind the size that was computed for the set ends in `fault`.
-/

namespace Xenia.Xext.Record

open Xenia.Lib

/-! ### Data -/

abbrev CARD16 := UInt16

structure RecordSetInterval where
  first : CARD16
  last : CARD16
  deriving DecidableEq

/-- Memory of the caller: its address, and what the cells of an interval list find there. -/
structure CallerMem where
  address : ℕ
  cells : ℕ → RecordSetInterval

/-- Whether there is memory for the intervals that are sorted, and the address of that for the set. -/
structure Allocs where
  stackIntervals : Bool
  set : Option ℕ

abbrev Word := BitVec 64

/-- A set; `own` says that the set was allocated, and `DestroySet` frees it. -/
inductive RecordSetRec
  | bitVector (address : ℕ) (own : Bool) (maxMember : ℤ) (bitvec : List Word)
  | intervalList (address : ℕ) (own : Bool) (nIntervals : ℤ) (cells : List RecordSetInterval)

/-- `ppCreateSet`. -/
inductive Representation
  | bitVector
  | intervalList
  deriving DecidableEq

/-! ### Sizes -/

/-- The size of `BitVectorSet` and of `IntervalListSet`. -/
def headerSize : ℤ := 16

def BITS_PER_LONG : ℕ := 64

def maxMemberInInterval (pIntervals : List RecordSetInterval) : ℤ :=
  pIntervals.foldl (fun maxMember i => if maxMember < i.last.toNat then i.last.toNat else maxMember) (-1)

/-- `(maxMember + BITS_PER_LONG) / BITS_PER_LONG` is computed without sign. -/
def BitVectorSetMemoryRequirements (maxMember : ℤ) : ℤ :=
  let nlongs := wrapInt (toSize (maxMember + BITS_PER_LONG) / BITS_PER_LONG : ℕ)
  wrapInt (headerSize + nlongs * 8)

def IntervalListMemoryRequirements (nIntervals : ℤ) : ℤ := wrapInt (headerSize + nIntervals * 4)

def Representation.memoryRequirements (pIntervals : List RecordSetInterval) : Representation → ℤ
  | .bitVector => BitVectorSetMemoryRequirements (maxMemberInInterval pIntervals)
  | .intervalList => IntervalListMemoryRequirements pIntervals.length

/-- The bit vector or the list: `_RecordSetMemoryRequirements`. -/
def chosen (pIntervals : List RecordSetInterval) : Representation :=
  let maxMember := maxMemberInInterval pIntervals
  let bmsize := BitVectorSetMemoryRequirements maxMember
  let rlsize := IntervalListMemoryRequirements pIntervals.length
  if (pIntervals.length > 1 ∧ maxMember ≤ 255) ∨ bmsize < rlsize then .bitVector else .intervalList

def RecordSetMemoryRequirements (pIntervals : List RecordSetInterval) : ℤ :=
  (chosen pIntervals).memoryRequirements pIntervals

/-- The alignment that is reported for both. -/
def alignment : ℕ := 8

/-! ### The bit vector -/

/-- `pbitvec[j / BITS_PER_LONG] |= 1 << (j % BITS_PER_LONG)`. -/
def setBit (bitvec : List Word) (j : ℕ) : Outcome (List Word) := do
  let w ← deref bitvec[j / BITS_PER_LONG]?
  return bitvec.set (j / BITS_PER_LONG) (w ||| 1#64 <<< (j % BITS_PER_LONG))

/-- The bits from `j` on, `count` of them. -/
def setBits : ℕ → ℕ → List Word → Outcome (List Word)
  | _, 0, bitvec => return bitvec
  | j, count + 1, bitvec => do setBits (j + 1) count (← setBit bitvec j)

def fillBits : List RecordSetInterval → List Word → Outcome (List Word)
  | [], bitvec => return bitvec
  | i :: rest, bitvec => do
    fillBits rest (← setBits i.first.toNat (i.last.toNat + 1 - i.first.toNat) bitvec)

/-- Where the set is stored, if there is memory for it. -/
def setAddress (pMem : Option CallerMem) (allocs : Allocs) : Option (ℕ × Bool) :=
  match pMem with
  | some m => some (m.address, false)
  | none => allocs.set.map fun address => (address, true)

def BitVectorCreateSet (pIntervals : List RecordSetInterval) (pMem : Option CallerMem) (memsize : ℤ) (allocs : Allocs) :
    Outcome (Option RecordSetRec) :=
  match setAddress pMem allocs with
  | none => return none
  | some (address, own) => do
    let bitvec ← fillBits pIntervals (List.replicate ((memsize - headerSize) / 8).toNat 0)
    return some (.bitVector address own (maxMemberInInterval pIntervals) bitvec)

def BitVectorIsMemberOfSet (maxMember : ℤ) (bitvec : List Word) (pm : ℕ) : Outcome Bool :=
  if (pm : ℤ) > maxMember then return false
  else do
    let w ← deref bitvec[pm / BITS_PER_LONG]?
    return w &&& 1#64 <<< (pm % BITS_PER_LONG) ≠ 0

/-- The loop over the words that are `skipval`, from the word `i` on. -/
def skipWords (maxMember : ℤ) (skipval : Word) : List Word → ℕ → Outcome ℕ
  | [], i => if ((i * BITS_PER_LONG : ℕ) : ℤ) ≤ maxMember then .error .fault else return i
  | w :: ws, i =>
    if ((i * BITS_PER_LONG : ℕ) : ℤ) ≤ maxMember ∧ w = skipval then skipWords maxMember skipval ws (i + 1) else return i

/-- The loop over the bits of a word, with `left` bits left. -/
def walkBits (bits : Word) (bitval : Bool) : ℕ → ℕ → ℕ
  | 0, walkbit => walkbit
  | left + 1, walkbit =>
    if (!decide (bits &&& 1#64 <<< walkbit ≠ 0)) = bitval then walkBits bits bitval left (walkbit + 1) else walkbit

/-- From the word `i` on: the first bit, if the word is not behind the last. -/
def findInWord (maxMember : ℤ) (bitvec : List Word) (iterbit : ℕ) (bitval : Bool) (i : ℕ) : Outcome (Option ℕ) :=
  let startbit := i * BITS_PER_LONG
  if (startbit : ℤ) > maxMember then return none
  else do
    let walkbit := if startbit < iterbit then iterbit - startbit else 0
    let bits ← deref bitvec[i]?
    return some (startbit + walkBits bits bitval (BITS_PER_LONG - walkbit) walkbit)

def skipvalOf (bitval : Bool) : Word := if bitval then 0 else ~~~0

/-- The result is `none` for `-1`. -/
def BitVectorFindBit (maxMember : ℤ) (bitvec : List Word) (iterbit : ℕ) (bitval : Bool) : Outcome (Option ℕ) :=
  let startlong := iterbit / BITS_PER_LONG
  let startbit := startlong * BITS_PER_LONG
  let skipval := skipvalOf bitval
  if (startbit : ℤ) > maxMember then return none
  else do
    let bits ← deref bitvec[startlong]?
    let usefulbits : Word := ~~~(1#64 <<< (iterbit - startbit) - 1)
    if bits &&& usefulbits = skipval &&& usefulbits then
      let i ← skipWords maxMember skipval (bitvec.drop (startlong + 1)) (startlong + 1)
      findInWord maxMember bitvec iterbit bitval i
    else findInWord maxMember bitvec iterbit bitval startlong

/-- The iterator is a number that is made a pointer; `none` is returned for null. -/
def BitVectorIterateSet (maxMember : ℤ) (bitvec : List Word) (pIter : ℕ) : Outcome (Option (ℕ × RecordSetInterval)) := do
  match ← BitVectorFindBit maxMember bitvec pIter true with
  | none => return none
  | some b =>
    let last : CARD16 := match ← BitVectorFindBit maxMember bitvec b false with
      | none => UInt16.ofInt maxMember
      | some b => UInt16.ofNat (b - 1)
    return some (last.toNat + 1, ⟨UInt16.ofNat b, last⟩)

/-! ### The interval list -/

/-- An interval goes before the first one that starts later. -/
def insertInterval (i : RecordSetInterval) : List RecordSetInterval → List RecordSetInterval
  | [] => [i]
  | j :: rest => if i.first < j.first then i :: j :: rest else j :: insertInterval i rest

def sortIntervals (pIntervals : List RecordSetInterval) : List RecordSetInterval :=
  pIntervals.foldl (fun stackIntervals i => insertInterval i stackIntervals) []

/-- Merge abutting/overlapping intervals: the interval at hand and those after it. -/
def mergeFrom (i : RecordSetInterval) : List RecordSetInterval → List RecordSetInterval
  | [] => [i]
  | j :: rest =>
    if i.last.toNat + 1 < j.first.toNat then i :: mergeFrom j rest
    else mergeFrom { i with last := max i.last j.last } rest

def mergeIntervals : List RecordSetInterval → List RecordSetInterval
  | [] => []
  | i :: rest => mergeFrom i rest

/-- `memcpy` of the intervals into the cells after the header. -/
def copyIntervals (stackIntervals cells : List RecordSetInterval) : Outcome (List RecordSetInterval) :=
  if stackIntervals.length ≤ cells.length then return stackIntervals ++ cells.drop stackIntervals.length
  else .error .fault

def IntervalListCreateSet (pIntervals : List RecordSetInterval) (pMem : Option CallerMem) (memsize : ℤ) (allocs : Allocs) :
    Outcome (Option RecordSetRec) :=
  if pIntervals ≠ [] ∧ !allocs.stackIntervals then return none
  else
    let stackIntervals := mergeIntervals (sortIntervals pIntervals)
    let nIntervals := stackIntervals.length
    match pMem with
    | some m =>
      if memsize < headerSize then .error .fault
      else do
        let cells ← copyIntervals stackIntervals ((List.range ((memsize - headerSize) / 4).toNat).map m.cells)
        return some (.intervalList m.address false nIntervals cells)
    | none =>
      match allocs.set with
      | none => return none
      | some address => do
        let cells ← copyIntervals stackIntervals (List.replicate nIntervals ⟨0, 0⟩)
        return some (.intervalList address true nIntervals cells)

def readCell (cells : List RecordSetInterval) (k : ℤ) : Outcome RecordSetInterval :=
  if k < 0 then .error .fault else deref cells[k.toNat]?

/-- The binary search; the interval is halved in every turn. -/
def searchIntervals (cells : List RecordSetInterval) (pm : ℕ) : ℕ → ℤ → ℤ → Outcome Bool
  | 0, _, _ => .error .hang
  | fuel + 1, lo, hi =>
    if lo ≤ hi then do
      let probe := (hi + lo) / 2
      let i ← readCell cells probe
      if i.first.toNat ≤ pm ∧ pm ≤ i.last.toNat then return true
      else if pm < i.first.toNat then searchIntervals cells pm fuel lo (probe - 1)
      else searchIntervals cells pm fuel (probe + 1) hi
    else return false

def IntervalListIsMemberOfSet (nIntervals : ℤ) (cells : List RecordSetInterval) (pm : ℕ) : Outcome Bool :=
  searchIntervals cells pm (nIntervals.toNat + 1) 0 (nIntervals - 1)

/-- The iterator is a pointer to a cell; the first is at `address + 16`. -/
def IntervalListIterateSet (address : ℕ) (nIntervals : ℤ) (cells : List RecordSetInterval) (pIter : ℕ) :
    Outcome (Option (ℕ × RecordSetInterval)) :=
  let base := address + 16
  let pInterval := if pIter = 0 then base else pIter
  let offset : ℤ := ((pInterval : ℤ) - base) / 4
  if offset < nIntervals then do
    let i ← readCell cells offset
    return some (pInterval + 4, i)
  else return none

/-! ### User-visible functions -/

def Representation.createSet (pIntervals : List RecordSetInterval) (pMem : Option CallerMem) (memsize : ℤ) (allocs : Allocs) :
    Representation → Outcome (Option RecordSetRec)
  | .bitVector => BitVectorCreateSet pIntervals pMem memsize allocs
  | .intervalList => IntervalListCreateSet pIntervals pMem memsize allocs

def RecordCreateSet (pIntervals : List RecordSetInterval) (pMem : Option CallerMem) (memsize : ℤ) (allocs : Allocs) :
    Outcome (Option RecordSetRec) :=
  let size := RecordSetMemoryRequirements pIntervals
  match pMem with
  | some m =>
    if m.address % alignment ≠ 0 ∨ memsize < size then return none
    else (chosen pIntervals).createSet pIntervals pMem size allocs
  | none => (chosen pIntervals).createSet pIntervals pMem size allocs

def RecordIsMemberOfSet (set : RecordSetRec) (pm : ℕ) : Outcome Bool :=
  match set with
  | .bitVector _ _ maxMember bitvec => BitVectorIsMemberOfSet maxMember bitvec pm
  | .intervalList _ _ nIntervals cells => IntervalListIsMemberOfSet nIntervals cells pm

def RecordIterateSet (set : RecordSetRec) (pIter : ℕ) : Outcome (Option (ℕ × RecordSetInterval)) :=
  match set with
  | .bitVector _ _ maxMember bitvec => BitVectorIterateSet maxMember bitvec pIter
  | .intervalList address _ nIntervals cells => IntervalListIterateSet address nIntervals cells pIter

/-- The loop of the users of a set: `while ((pIter = RecordIterateSet(pSet, pIter, &interval)))`. -/
def iterate (set : RecordSetRec) : ℕ → ℕ → Outcome (List RecordSetInterval)
  | 0, _ => .error .hang
  | fuel + 1, pIter => do
    match ← RecordIterateSet set pIter with
    | none => return []
    | some (pIter, interval) => if pIter = 0 then return [] else return interval :: (← iterate set fuel pIter)

end Xenia.Xext.Record
