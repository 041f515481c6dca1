import Xenia.Lib.Outcome
import Xenia.Lib.Run
import Mathlib.Algebra.Group.Nat.Defs

/-!
# The glyph store

Glyphs are kept in hash tables with open addressing: one global table for each format, which finds a
glyph by its SHA-1, and one table for each glyph set, which finds it by its id. A glyph counts the
entries of glyph sets that refer to it and the references of callers, and leaves the global table
with the last of them.

A glyph pointer is the number of its record. A table lookup answers with the index of the entry;
following a null pointer, or one to a glyph that was freed, is a `fault`, and a lookup that goes on
for longer than two rounds of the table a `hang`. What is left out are the warnings of
`CheckDuplicates` and `DuplicateRef` (not the pointers they follow) and the pictures of a glyph.
-/

namespace Xenia.Xext.Glyph

open Xenia.Lib

/-! ### Data -/

/-- `GlyphFormatNum` formats. -/
abbrev Format := Fin 5

/-- What the `glyph` field of a table entry points to. `deleted` is `DeletedGlyph`. -/
inductive Slot
  | null
  | deleted
  | glyph (g : ℕ)
  deriving DecidableEq

structure GlyphRefRec where
  signature : ℕ
  glyph : Slot
  deriving DecidableEq

structure GlyphHashSetRec where
  entries : ℕ
  size : ℕ
  rehash : ℕ
  deriving DecidableEq

def glyphHashSets : List GlyphHashSetRec :=
  [⟨32, 43, 41⟩, ⟨64, 73, 71⟩, ⟨128, 151, 149⟩, ⟨256, 283, 281⟩, ⟨512, 571, 569⟩, ⟨1024, 1153, 1151⟩,
    ⟨2048, 2269, 2267⟩, ⟨4096, 4519, 4517⟩, ⟨8192, 9013, 9011⟩, ⟨16384, 18043, 18041⟩, ⟨32768, 36109, 36107⟩,
    ⟨65536, 72091, 72089⟩, ⟨131072, 144409, 144407⟩, ⟨262144, 288361, 288359⟩, ⟨524288, 576883, 576881⟩,
    ⟨1048576, 1153459, 1153457⟩, ⟨2097152, 2307163, 2307161⟩, ⟨4194304, 4613893, 4613891⟩,
    ⟨8388608, 9227641, 9227639⟩, ⟨16777216, 18455029, 18455027⟩, ⟨33554432, 36911011, 36911009⟩,
    ⟨67108864, 73819861, 73819859⟩, ⟨134217728, 147639589, 147639587⟩, ⟨268435456, 295279081, 295279079⟩,
    ⟨536870912, 590559793, 590559791⟩]

structure GlyphHashRec where
  table : List GlyphRefRec := []
  hashSet : Option GlyphHashSetRec := none
  tableEntries : ℕ := 0

abbrev Sha1 := BitVec 160

/-- The first four bytes, read as a `CARD32`. -/
def signatureOf (sha1 : Sha1) : ℕ := (sha1.setWidth 32).toNat

structure GlyphRec where
  refcnt : ℕ
  sha1 : Sha1

structure GlyphSetRec where
  refcnt : ℕ
  fdepth : Format
  hash : GlyphHashRec

/-- `glyphs` are the records that are allocated, `sets` the glyph sets, each where it was made. -/
structure State where
  glyphs : ℕ → Option GlyphRec := fun _ => none
  globalGlyphs : Format → GlyphHashRec := fun _ => {}
  sets : List (Option GlyphSetRec) := []
  next : ℕ := 0

/-! ### Hash tables -/

/-- The smallest set with room for `filled` entries. -/
def FindGlyphHashSet (filled : ℕ) : Option GlyphHashSetRec := glyphHashSets.find? (·.entries ≥ filled)

/-- What a lookup compares an entry with: only the signature, or the SHA-1 as well. -/
structure Wanted where
  signature : ℕ
  sha1 : Option Sha1

/-- `s == signature && (!match || memcmp(glyph.sha1, sha1, 20) == 0)`. -/
def Wanted.matches (w : Wanted) (glyphs : ℕ → Option GlyphRec) (s g : ℕ) : Outcome Bool :=
  if s ≠ w.signature then .ok false
  else
    match w.sha1 with
    | none => .ok true
    | some sha1 => do
      let glyph ← deref (glyphs g)
      return glyph.sha1 = sha1

/-- The loop of `FindGlyphRef`, which has `step` in hand before it first needs it. -/
def findLoop (glyphs : ℕ → Option GlyphRec) (w : Wanted) (table : List GlyphRefRec) (tableSize step : ℕ) :
    ℕ → ℕ → Option ℕ → Outcome ℕ
  | 0, _, _ => .error .hang
  | fuel + 1, elt, del =>
    let elt' := if elt + step ≥ tableSize then elt + step - tableSize else elt + step
    match table[elt]? with
    | none => .error .fault
    | some gr =>
      match gr.glyph with
      | .null => .ok (del.getD elt)
      | .deleted =>
        match del with
        | none => findLoop glyphs w table tableSize step fuel elt' (some elt)
        | some d => if elt = d then .ok d else findLoop glyphs w table tableSize step fuel elt' (some d)
      | .glyph g => do
        if ← w.matches glyphs gr.signature g then .ok elt
        else findLoop glyphs w table tableSize step fuel elt' del

def rehashStep (signature rehash : ℕ) : ℕ := if signature % rehash = 0 then 1 else signature % rehash

/-- The index of the entry, `none` for a table that is not there. -/
def FindGlyphRef (glyphs : ℕ → Option GlyphRec) (hash : GlyphHashRec) (w : Wanted) : Outcome (Option ℕ) :=
  match hash.hashSet with
  | none => .ok none
  | some hashSet => do
    let i ← findLoop glyphs w hash.table hashSet.size (rehashStep w.signature hashSet.rehash) (2 * hashSet.size)
      (w.signature % hashSet.size) none
    return some i

/-- What the entry a lookup answered with points to. -/
def refGlyph (hash : GlyphHashRec) (gr : Option ℕ) : Outcome Slot := do
  let i ← deref gr
  let ref ← deref hash.table[i]?
  return ref.glyph

/-- The loop of `CheckDuplicates` needs a table. -/
def CheckDuplicates (hash : GlyphHashRec) : Outcome Unit := do
  let _ ← deref hash.hashSet
  return ()

def AllocateGlyphHash (hashSet : Option GlyphHashSetRec) (ok : Bool) : Option GlyphHashRec :=
  match hashSet with
  | none => none
  | some hashSet => if ok then some ⟨List.replicate hashSet.size ⟨0, .null⟩, some hashSet, 0⟩ else none

/-- What an entry is looked up by: in the global table by the SHA-1 of its glyph as well. -/
def wantedOf (glyphs : ℕ → Option GlyphRec) (global : Bool) (signature g : ℕ) : Outcome Wanted :=
  if global then do
    let glyph ← deref (glyphs g)
    return ⟨signature, some glyph.sha1⟩
  else .ok ⟨signature, none⟩

/-- The loop of `ResizeGlyphHash` over the old entries. -/
def rehash (glyphs : ℕ → Option GlyphRec) (global : Bool) : List GlyphRefRec → GlyphHashRec → Outcome GlyphHashRec
  | [], newHash => .ok newHash
  | old :: table, newHash =>
    match old.glyph with
    | .null | .deleted => rehash glyphs global table newHash
    | .glyph g => do
      let w ← wantedOf glyphs global old.signature g
      let gr ← FindGlyphRef glyphs newHash w
      let table' := match gr with
        | none => newHash.table
        | some i => newHash.table.set i ⟨old.signature, .glyph g⟩
      rehash glyphs global table { newHash with table := table', tableEntries := newHash.tableEntries + 1 }

def ResizeGlyphHash (glyphs : ℕ → Option GlyphRec) (hash : GlyphHashRec) (change : ℕ) (global ok : Bool) :
    Outcome (GlyphHashRec × Bool) := do
  let tableEntries := (hash.tableEntries + change) % 2 ^ 32
  let hashSet := FindGlyphHashSet tableEntries
  if hashSet = hash.hashSet then return (hash, true)
  if global then CheckDuplicates hash
  match AllocateGlyphHash hashSet ok with
  | none => return (hash, false)
  | some newHash =>
    let newHash ← rehash glyphs global hash.table newHash
    return (newHash, true)

/-! ### Glyphs -/

def State.setGlobal (s : State) (f : Format) (hash : GlyphHashRec) : State :=
  { s with globalGlyphs := Function.update s.globalGlyphs f hash }

def State.setGlyph (s : State) (g : ℕ) (glyph : Option GlyphRec) : State :=
  { s with glyphs := Function.update s.glyphs g glyph }

def FindGlyphByHash (s : State) (sha1 : Sha1) (format : Format) : Outcome (Option ℕ) :=
  let hash := s.globalGlyphs format
  match hash.hashSet with
  | none => .ok none
  | some _ => do
    let gr ← FindGlyphRef s.glyphs hash ⟨signatureOf sha1, some sha1⟩
    match ← refGlyph hash gr with
    | .glyph g => return some g
    | _ => return none

/-- The entry of a glyph whose last reference is gone, as far as there is one. -/
def removeGlobal (s : State) (glyph : GlyphRec) (format : Format) : Outcome State := do
  let hash := s.globalGlyphs format
  let gr ← FindGlyphRef s.glyphs hash ⟨signatureOf glyph.sha1, some glyph.sha1⟩
  match gr with
  | none => return s
  | some i =>
    match ← refGlyph hash gr with
    | .glyph _ =>
      return s.setGlobal format
        { hash with table := hash.table.set i ⟨0, .deleted⟩, tableEntries := (hash.tableEntries + 2 ^ 32 - 1) % 2 ^ 32 }
    | _ => return s

def FreeGlyph (s : State) (g : ℕ) (format : Format) : Outcome State := do
  CheckDuplicates (s.globalGlyphs format)
  let glyph ← deref (s.glyphs g)
  if glyph.refcnt = 0 then return s
  let glyph := { glyph with refcnt := glyph.refcnt - 1 }
  let s := s.setGlyph g (some glyph)
  if glyph.refcnt ≠ 0 then return s
  let s ← removeGlobal s glyph format
  return s.setGlyph g none

/-- The glyph of the global table with this SHA-1, after entering `g` if there is none. -/
def enterGlobal (s : State) (format : Format) (g : ℕ) : Outcome (State × ℕ) := do
  let hash := s.globalGlyphs format
  CheckDuplicates hash
  let glyph ← deref (s.glyphs g)
  let gr ← FindGlyphRef s.glyphs hash ⟨signatureOf glyph.sha1, some glyph.sha1⟩
  let i ← deref gr
  match ← refGlyph hash gr with
  | .glyph g' => return (s, g')
  | _ =>
    return (s.setGlobal format
      { hash with
        table := hash.table.set i ⟨signatureOf glyph.sha1, .glyph g⟩
        tableEntries := (hash.tableEntries + 1) % 2 ^ 32 }, g)

def State.set? (s : State) (i : ℕ) : Option GlyphSetRec := (s.sets[i]?).join

def State.setHash (s : State) (i : ℕ) (hash : GlyphHashRec) : State :=
  { s with sets := s.sets.modify i (Option.map fun glyphSet => { glyphSet with hash }) }

/-- Insert/replace glyphset value. The entry found does not move while the glyph that it held is freed. -/
def insertRef (s : State) (i : ℕ) (glyphSet : GlyphSetRec) (g id : ℕ) : Outcome State := do
  let hash := glyphSet.hash
  let gr ← FindGlyphRef s.glyphs hash ⟨id, none⟩
  let glyph ← deref (s.glyphs g)
  let s := s.setGlyph g (some { glyph with refcnt := (glyph.refcnt + 1) % 2 ^ 32 })
  let k ← deref gr
  match ← refGlyph hash gr with
  | .glyph old =>
    let s ← FreeGlyph s old glyphSet.fdepth
    return s.setHash i { hash with table := hash.table.set k ⟨id, .glyph g⟩ }
  | _ =>
    return s.setHash i
      { hash with table := hash.table.set k ⟨id, .glyph g⟩, tableEntries := (hash.tableEntries + 1) % 2 ^ 32 }

def AddGlyph (s : State) (i g id : ℕ) : Outcome State := do
  let glyphSet ← deref (s.set? i)
  let (s, g) ← enterGlobal s glyphSet.fdepth g
  insertRef s i glyphSet g id

def DeleteGlyph (s : State) (i id : ℕ) : Outcome (State × Bool) := do
  let glyphSet ← deref (s.set? i)
  let hash := glyphSet.hash
  let gr ← FindGlyphRef s.glyphs hash ⟨id, none⟩
  let k ← deref gr
  let ref ← deref hash.table[k]?
  match ref.glyph with
  | .glyph g =>
    let s := s.setHash i
      { hash with
        table := hash.table.set k { ref with glyph := .deleted }
        tableEntries := (hash.tableEntries + 2 ^ 32 - 1) % 2 ^ 32 }
    let s ← FreeGlyph s g glyphSet.fdepth
    return (s, true)
  | _ => return (s, false)

def FindGlyph (s : State) (i id : ℕ) : Outcome (Option ℕ) := do
  let glyphSet ← deref (s.set? i)
  let gr ← FindGlyphRef s.glyphs glyphSet.hash ⟨id, none⟩
  match ← refGlyph glyphSet.hash gr with
  | .glyph g => return some g
  | _ => return none

/-- A new glyph, its SHA-1 copied in by the caller. -/
def AllocateGlyph (s : State) (sha1 : Sha1) (ok : Bool) : State × Option ℕ :=
  if ok then ({ s.setGlyph s.next (some ⟨1, sha1⟩) with next := s.next + 1 }, some s.next) else (s, none)

/-- A glyph that is there already gets a reference for the caller. -/
def holdGlyph (s : State) (sha1 : Sha1) (format : Format) : Outcome (State × Option ℕ) := do
  match ← FindGlyphByHash s sha1 format with
  | none => return (s, none)
  | some g =>
    let glyph ← deref (s.glyphs g)
    return (s.setGlyph g (some { glyph with refcnt := (glyph.refcnt + 1) % 2 ^ 32 }), some g)

/-! ### Glyph sets -/

def ResizeGlyphSet (s : State) (i change : ℕ) (ok okGlobal : Bool) : Outcome (State × Bool) := do
  let glyphSet ← deref (s.set? i)
  let (hash, resized) ← ResizeGlyphHash s.glyphs glyphSet.hash change false ok
  let s := s.setHash i hash
  if !resized then return (s, false)
  let (hash, resized) ← ResizeGlyphHash s.glyphs (s.globalGlyphs glyphSet.fdepth) change true okGlobal
  return (s.setGlobal glyphSet.fdepth hash, resized)

/-- The answers of the allocator: for the global table, the glyph set, its table. -/
def AllocateGlyphSet (s : State) (fdepth : Format) (okGlobal okSet okTable : Bool) : State :=
  let s? := if (s.globalGlyphs fdepth).hashSet.isNone then
      (AllocateGlyphHash glyphHashSets[0]? okGlobal).map (s.setGlobal fdepth)
    else some s
  match s? with
  | none => s
  | some s =>
    if !okSet then s
    else
      match AllocateGlyphHash glyphHashSets[0]? okTable with
      | none => s
      | some hash => { s with sets := s.sets ++ [some { refcnt := 1, fdepth, hash }] }

/-- A new resource for the glyph set. -/
def ReferenceGlyphSet (s : State) (i : ℕ) : Outcome State := do
  let glyphSet ← deref (s.set? i)
  return { s with sets := s.sets.set i (some { glyphSet with refcnt := (glyphSet.refcnt + 1) % 2 ^ 32 }) }

/-- The glyphs of the entries lose the reference of the glyph set. -/
def freeEntries (format : Format) : List GlyphRefRec → State → Outcome State
  | [], s => .ok s
  | ref :: table, s =>
    match ref.glyph with
    | .glyph g => do
      let s ← FreeGlyph s g format
      freeEntries format table s
    | _ => freeEntries format table s

def FreeGlyphSet (s : State) (i : ℕ) (ok : Bool) : Outcome State := do
  let glyphSet ← deref (s.set? i)
  let glyphSet := { glyphSet with refcnt := (glyphSet.refcnt + 2 ^ 32 - 1) % 2 ^ 32 }
  if glyphSet.refcnt ≠ 0 then return { s with sets := s.sets.set i (some glyphSet) }
  let s ← freeEntries glyphSet.fdepth glyphSet.hash.table s
  let hash := s.globalGlyphs glyphSet.fdepth
  let s ← (if hash.tableEntries = 0 then
      return s.setGlobal glyphSet.fdepth { hash with table := [], hashSet := none }
    else do
      let (hash, _) ← ResizeGlyphHash s.glyphs hash 0 true ok
      return s.setGlobal glyphSet.fdepth hash)
  return { s with sets := s.sets.set i none }

end Xenia.Xext.Glyph
