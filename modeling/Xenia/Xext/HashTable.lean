import Xenia.Lib.Run
import Xenia.Lib.Mem
import Xenia.Lib.Links

/-!
# The hash table

`ht_create`, `ht_add`, `ht_remove`, `ht_find` and `double_size` on the link fields of the
buckets and elements. Blocks are numbered in the order in which the allocator hands them
out: a bucket array and an element are such numbers, and a data pointer says whose block it
is. The answers of the allocator are arguments.
-/

namespace Xenia.Xext

open Xenia.Lib

def INITHASHSIZE : ℕ := 6
def MAXHASHSIZE : ℕ := 11

/-- The functions a table is created with: a hash of so many bits, and a comparison that is
zero for equal keys. -/
structure KeyOps (κ : Type) where
  hash : κ → ℕ → ℕ
  compare : κ → κ → ℤ
  hash_lt : ∀ k numBits, hash k numBits < 2 ^ numBits
  compare_eq_zero : ∀ l r, compare l r = 0 ↔ l = r

/-- The nodes of the lists: the heads in the bucket arrays, and the elements. -/
inductive HtNode
  | bucket (array index : ℕ)
  | elem (e : ℕ)
  deriving DecidableEq

/-- A pointer as the table returns it: to the data of an element, or, for an element without
data, past the end of its key. -/
inductive DataPtr
  | data (e : ℕ)
  | keyEnd (e : ℕ)
  deriving DecidableEq

/-- `BucketRec`: the key, and whether there is a data block. -/
structure BucketRec (κ : Type) where
  key : κ
  data : Bool

structure HashTable (κ : Type) where
  dataSize : ℕ
  elements : ℤ
  bucketBits : ℕ
  /-- the array of bucket list heads -/
  buckets : ℕ
  links : Links HtNode
  elems : ℕ → Option (BucketRec κ)
  nextArray : ℕ
  nextElem : ℕ

variable {κ : Type}

/-- `xorg_list_init` of each of `n` new heads. -/
def initBuckets (array n : ℕ) (l : Links HtNode) : Links HtNode :=
  (List.range n).foldl (fun l c => l.init (.bucket array c)) l

def htCreate (dataSize : ℕ) (table buckets : Bool) : Option (HashTable κ) :=
  if table && buckets then
    some ⟨dataSize, 0, INITHASHSIZE, 0,
      initBuckets 0 (2 ^ INITHASHSIZE) ⟨fun _ => none, fun _ => none⟩, fun _ => none, 1, 0⟩
  else none

namespace HashTable

/-- The nodes in bucket `c`, in the order in which a loop over it meets them. -/
def bucketList (t : HashTable κ) (c : ℕ) : List HtNode :=
  t.links.walk (t.nextElem + 1) (.bucket t.buckets c)

end HashTable

/-- The pointer returned for an element. -/
def dataPtr (e : ℕ) (b : BucketRec κ) : DataPtr := if b.data then .data e else .keyEnd e

/-- The body of the loop of `double_size`: move a node to its bucket in the new array. -/
def rehash (K : KeyOps κ) (elems : ℕ → Option (BucketRec κ)) (newBuckets newBucketBits : ℕ)
    (it : HtNode) (l : Links HtNode) : Links HtNode :=
  match it with
  | .bucket .. => l
  | .elem e =>
    match elems e with
    | none => l
    | some b => (l.del it).add it (.bucket newBuckets (K.hash b.key newBucketBits))

def doubleSize (K : KeyOps κ) (granted : Bool) (t : HashTable κ) : Option (HashTable κ) :=
  let numBuckets := 2 ^ t.bucketBits
  let newBucketBits := t.bucketBits + 1
  let newNumBuckets := 2 ^ newBucketBits
  let newBuckets := t.nextArray
  if granted then
    let l := initBuckets newBuckets newNumBuckets t.links
    let l := (List.range numBuckets).foldl
      (fun l c => Links.forEachSafe id (rehash K t.elems newBuckets newBucketBits)
        (.bucket t.buckets c) (t.nextElem + 1) (l.next (.bucket t.buckets c)) l) l
    some { t with
      links := l, buckets := newBuckets, bucketBits := newBucketBits, nextArray := t.nextArray + 1 }
  else none

/-- The answers to the allocations of `ht_add`: element, key, data, and the new buckets. -/
structure HtAlloc where
  elem : Bool
  key : Bool
  data : Bool
  buckets : Bool

/-- The table with a new element in its bucket. -/
def insertElem (K : KeyOps κ) (b : BucketRec κ) (t : HashTable κ) : HashTable κ :=
  let bucket := HtNode.bucket t.buckets (K.hash b.key t.bucketBits)
  { t with
    links := t.links.add (.elem t.nextElem) bucket
    elements := wrapInt (t.elements + 1)
    elems := Function.update t.elems t.nextElem (some b)
    nextElem := t.nextElem + 1 }

def htAdd (K : KeyOps κ) (a : HtAlloc) (key : κ) (t : HashTable κ) :
    HashTable κ × Option DataPtr :=
  if !a.elem then (t, none)
  else if !a.key then (t, none)
  else if t.dataSize ≠ 0 ∧ !a.data then (t, none)
  else
    let elem := t.nextElem
    let b : BucketRec κ := ⟨key, a.data⟩
    let t' := insertElem K b t
    if t'.elements > 4 * 2 ^ t'.bucketBits ∧ t'.bucketBits < MAXHASHSIZE then
      match doubleSize K a.buckets t' with
      | some t' => (t', some (dataPtr elem b))
      | none =>
        -- the insertion is undone and the element freed
        ({ t with
            elements := wrapInt (t'.elements - 1)
            links := t'.links.del (.elem elem) }, none)
    else (t', some (dataPtr elem b))

/-- The element of a bucket with this key. -/
def htLookup (K : KeyOps κ) (key : κ) (t : HashTable κ) : Option (ℕ × BucketRec κ) :=
  (t.bucketList (K.hash key t.bucketBits)).findSome? fun
    | .bucket .. => none
    | .elem e => (t.elems e).bind fun b => if K.compare key b.key = 0 then some (e, b) else none

def htRemove (K : KeyOps κ) (key : κ) (t : HashTable κ) : HashTable κ :=
  match htLookup K key t with
  | none => t
  | some (e, _) => { t with
      links := t.links.del (.elem e)
      elements := wrapInt (t.elements - 1)
      elems := Function.update t.elems e none }

def htFind (K : KeyOps κ) (key : κ) (t : HashTable κ) : Option DataPtr :=
  (htLookup K key t).map fun (e, b) => dataPtr e b

/-! ### Runs -/

inductive HtOp (κ : Type)
  | add (key : κ) (a : HtAlloc)
  | remove (key : κ)
  | find (key : κ)

/-- What the user of a table knows: the keys added and not removed, with the pointers that
`ht_add` returned for them. -/
abbrev Stored (κ : Type) := List (κ × DataPtr)

variable [DecidableEq κ]

/-- One call, with the user's knowledge brought up to date from what it returns. -/
def htStep (K : KeyOps κ) (s : HashTable κ × Stored κ) : HtOp κ → HashTable κ × Stored κ
  | .add key a =>
    let r := htAdd K a key s.1
    (r.1, match r.2 with | some p => (key, p) :: s.2 | none => s.2)
  | .remove key => (htRemove K key s.1, s.2.filter fun e => e.1 ≠ key)
  | .find _ => s

end Xenia.Xext
