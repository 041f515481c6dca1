import Xenia.Xext.Xkb

/-!
# The core keyboard map

`XkbGetCoreMap` gives each key a row of `mapWidth` symbols. One pass over the keys finds the width of the
widest row, a second one fills the rows. The order of a row is `coreOrder`: the first two levels of groups
1 and 2, their other levels, and the groups 3 and 4. A key with one group on a keyboard with more has the
group in place of the others. The main result is `XkbGetCoreMap_rows`.

`pCore` is a window on the row of the key. A read or write outside of it is a `fault`.
-/

namespace Xenia.Xext.Xkb

open Xenia.Lib

/-! ### Data -/

structure KeySymsRec where
  minKeyCode : ℕ
  maxKeyCode : ℕ
  mapWidth : ℕ
  map : List KeySym
  deriving DecidableEq

/-- What is known of the sizes after some of the keys. -/
structure CoreSizes where
  maxSymsPerKey : ℕ := 0
  maxGroup1Width : ℕ := 0
  maxNumberOfGroups : ℕ := 0
  deriving DecidableEq

/-- `XkbKeyGroupWidth`. -/
def XkbKeyGroupWidth (map : XkbClientMapRec) (r : XkbSymMapRec) (g : ℕ) : Outcome ℕ := do
  let types ← deref map.types
  let type ← deref types[r.keyTypeIndex g]?
  return type.num_levels

/-! ### Sizes -/

/-- What group `g`, if the key has it, adds to `tmp`. -/
def addGroup (map : XkbClientMapRec) (r : XkbSymMapRec) (g : ℕ) (add : ℕ → ℕ → ℕ) (tmp : ℕ) : Outcome ℕ :=
  if g < r.numGroups then do
    let w ← XkbKeyGroupWidth map r g
    return add tmp w
  else .ok tmp

def addGroup1 (tmp w : ℕ) : ℕ := if w ≤ 2 then tmp + 2 else tmp + (w + 2)

def addGroup2 (tmp w : ℕ) : ℕ :=
  if tmp ≤ 2 then
    if w < 2 then tmp + 2 else tmp + w
  else
    if w > 2 then tmp + (w - 2) else tmp

/-- One turn of the loop that determines the sizes. -/
def sizeKey (map : XkbClientMapRec) (r : XkbSymMapRec) (sizes : CoreSizes) : Outcome CoreSizes := do
  let tmp ← addGroup map r 0 addGroup1 0
  let maxGroup1Width ← addGroup map r 0 max sizes.maxGroup1Width
  let tmp ← addGroup map r 1 addGroup2 tmp
  let tmp ← addGroup map r 2 (· + ·) tmp
  let tmp ← addGroup map r 3 (· + ·) tmp
  return { maxSymsPerKey := max sizes.maxSymsPerKey tmp, maxGroup1Width,
           maxNumberOfGroups := max sizes.maxNumberOfGroups r.numGroups }

def sizeKeys (map : XkbClientMapRec) (m : ℕ → XkbSymMapRec) : List ℕ → CoreSizes → Outcome CoreSizes
  | [], sizes => .ok sizes
  | key :: keys, sizes => do
    let sizes ← sizeKey map (m key) sizes
    sizeKeys map m keys sizes

/-! ### Rows -/

/-- `pCore[j]`. -/
def getCore (mapWidth : ℕ) (pCore : ℕ → KeySym) (j : ℕ) : Outcome KeySym :=
  if j < mapWidth then .ok (pCore j) else .error .fault

/-- `pCore[j] = sym`. -/
def setCore (mapWidth : ℕ) (pCore : ℕ → KeySym) (j : ℕ) (sym : KeySym) : Outcome (ℕ → KeySym) :=
  if j < mapWidth then .ok (Function.update pCore j sym) else .error .fault

/-- `pCore[j] = pXKB[n]`. -/
def putSym (mapWidth : ℕ) (syms : List KeySym) (pXKB n j : ℕ) (pCore : ℕ → KeySym) : Outcome (ℕ → KeySym) := do
  let sym ← deref syms[pXKB + n]?
  setCore mapWidth pCore j sym

/-- `pCore[j] = pCore[i]`. -/
def copyCore (mapWidth i j : ℕ) (pCore : ℕ → KeySym) : Outcome (ℕ → KeySym) := do
  let sym ← getCore mapWidth pCore i
  setCore mapWidth pCore j sym

/-- A step that is taken only where `c` holds. -/
def onlyIf {α : Type} (c : Prop) [Decidable c] (f : α → Outcome α) (a : α) : Outcome α := if c then f a else .ok a

/-- The first two levels of a group, at `first` and behind it. -/
def putTwo (mapWidth : ℕ) (syms : List KeySym) (pXKB first groupWidth : ℕ) (pCore : ℕ → KeySym) :
    Outcome (ℕ → KeySym) := do
  let pCore ← onlyIf (groupWidth > 0) (putSym mapWidth syms pXKB 0 first) pCore
  onlyIf (groupWidth > 1) (putSym mapWidth syms pXKB 1 (first + 1)) pCore

/-- The levels `ns` of a group, level `n` at `place n`. -/
def putLevels (mapWidth : ℕ) (syms : List KeySym) (pXKB : ℕ) (place : ℕ → ℕ) :
    List ℕ → (ℕ → KeySym) → Outcome (ℕ → KeySym)
  | [], pCore => .ok pCore
  | n :: ns, pCore => do
    let pCore ← putSym mapWidth syms pXKB n (place n) pCore
    putLevels mapWidth syms pXKB place ns pCore

/-- `ABABCDE... -> ABABCDECDE`. -/
def doubleLevels (mapWidth groupWidth : ℕ) : List ℕ → (ℕ → KeySym) → Outcome (ℕ → KeySym)
  | [], pCore => .ok pCore
  | idx :: is, pCore =>
    if idx < mapWidth then do
      let pCore ← copyCore mapWidth (idx - groupWidth + 2) idx pCore
      doubleLevels mapWidth groupWidth is pCore
    else .ok pCore

/-- The levels `ns` of the group once more from `idx` on, as far as there is room. -/
def againLevels (mapWidth : ℕ) (syms : List KeySym) (pXKB : ℕ) : List ℕ → ℕ × (ℕ → KeySym) → Outcome (ℕ × (ℕ → KeySym))
  | [], out => .ok out
  | n :: ns, (idx, pCore) =>
    if idx < mapWidth then do
      let pCore ← putSym mapWidth syms pXKB n idx pCore
      againLevels mapWidth syms pXKB ns (idx + 1, pCore)
    else .ok (idx, pCore)

/-- `3 or more groups: ABABCDECDEABCDEABCDE`. -/
def againGroups (mapWidth : ℕ) (syms : List KeySym) (pXKB groupWidth : ℕ) :
    List ℕ → ℕ × (ℕ → KeySym) → Outcome (ℕ × (ℕ → KeySym))
  | [], out => .ok out
  | _ :: js, out => do
    let out ← againLevels mapWidth syms pXKB (List.range groupWidth) out
    againGroups mapWidth syms pXKB groupWidth js out

/-- The branch for a key with one group. -/
def spreadGroup (mapWidth maxNumberOfGroups : ℕ) (syms : List KeySym) (pXKB groupWidth : ℕ) (pCore : ℕ → KeySym) :
    Outcome (ℕ → KeySym) := do
  -- AB..CDE... -> ABABCDE...
  let pCore ← onlyIf (groupWidth > 0 ∧ mapWidth ≥ 3) (copyCore mapWidth 0 2) pCore
  let pCore ← onlyIf (groupWidth > 1 ∧ mapWidth ≥ 4) (copyCore mapWidth 1 3) pCore
  let pCore ← onlyIf (groupWidth > 2)
    (doubleLevels mapWidth groupWidth (List.range' (2 + groupWidth) (groupWidth * 2 - (2 + groupWidth)))) pCore
  let idx := if 2 * groupWidth < 4 then 4 else 2 * groupWidth
  let out ← againGroups mapWidth syms pXKB groupWidth (List.range' 3 (maxNumberOfGroups - 2)) (idx, pCore)
  return out.2

/-- The groups `ns` one after the other from `nOut` on. -/
def putGroups (map : XkbClientMapRec) (r : XkbSymMapRec) (mapWidth : ℕ) (syms : List KeySym) :
    List ℕ → ℕ → ℕ → (ℕ → KeySym) → Outcome (ℕ → KeySym)
  | [], _, _, pCore => .ok pCore
  | n :: ns, pXKB, nOut, pCore => do
    let groupWidth ← XkbKeyGroupWidth map r n
    let pCore ← putLevels mapWidth syms pXKB (nOut + ·) (List.range groupWidth) pCore
    putGroups map r mapWidth syms ns (pXKB + r.width) (nOut + groupWidth) pCore

/-- One turn of the loop that fills the rows. -/
def fillRow (map : XkbClientMapRec) (r : XkbSymMapRec) (mapWidth maxNumberOfGroups : ℕ) (pCore : ℕ → KeySym) :
    Outcome (ℕ → KeySym) := do
  let syms := map.syms.getD []
  let nGroups := r.numGroups
  let pXKB := r.offset
  let (nOut, pCore) ← onlyIf (nGroups > 0) (fun (nOut, pCore) => do
    let groupWidth ← XkbKeyGroupWidth map r 0
    let pCore ← putTwo mapWidth syms pXKB 0 groupWidth pCore
    let pCore ← putLevels mapWidth syms pXKB (2 + ·) (List.range' 2 (groupWidth - 2)) pCore
    return (if groupWidth > 2 then groupWidth else nOut, pCore)) (2, pCore)
  let pCore ← onlyIf (nGroups = 1) (fun pCore => do
    let groupWidth ← XkbKeyGroupWidth map r 0
    spreadGroup mapWidth maxNumberOfGroups syms pXKB groupWidth pCore) pCore
  let pXKB := pXKB + r.width
  let nOut := nOut + 2
  let (nOut, pCore) ← onlyIf (nGroups > 1) (fun (nOut, pCore) => do
    let groupWidth ← XkbKeyGroupWidth map r 1
    let pCore ← putTwo mapWidth syms pXKB 2 groupWidth pCore
    let pCore ← putLevels mapWidth syms pXKB (fun n => nOut + (n - 2)) (List.range' 2 (groupWidth - 2)) pCore
    return (if groupWidth > 2 then nOut + (groupWidth - 2) else nOut, pCore)) (nOut, pCore)
  let pXKB := pXKB + r.width
  putGroups map r mapWidth syms (List.range' 2 (nGroups - 2)) pXKB nOut pCore

/-- The rows of the keys one after the other, each at `(key - min_key_code) * mapWidth`. -/
def fillRows (map : XkbClientMapRec) (m : ℕ → XkbSymMapRec) (min_key_code mapWidth maxNumberOfGroups : ℕ) :
    List ℕ → List KeySym → Outcome (List KeySym)
  | [], cells => .ok cells
  | key :: keys, cells => do
    let n := (key - min_key_code) * mapWidth
    let row ← peek cells n mapWidth
    let pCore ← fillRow map (m key) mapWidth maxNumberOfGroups fun j => row.getD j NoSymbol
    let cells ← poke cells n ((List.range mapWidth).map pCore)
    fillRows map m min_key_code mapWidth maxNumberOfGroups keys cells

/-- `keybd` is the description of the keyboard, if it has one, and `haveSyms` and `haveMap` are what
`calloc` answers. -/
def XkbGetCoreMap (keybd : Option XkbDescRec) (haveSyms haveMap : Bool) : Outcome (Option KeySymsRec) :=
  match keybd with
  | none => .ok none
  | some xkb => do
    let map ← deref xkb.map
    let m ← deref map.key_sym_map
    let sizes ← sizeKeys map m xkb.keys {}
    if sizes.maxSymsPerKey = 0 then return none
    if !haveSyms then return none
    let mapWidth :=
      if sizes.maxSymsPerKey < sizes.maxNumberOfGroups * sizes.maxGroup1Width then
        sizes.maxNumberOfGroups * sizes.maxGroup1Width
      else sizes.maxSymsPerKey
    match calloc NoSymbol (mapWidth * (xkb.max_key_code - xkb.min_key_code + 1)) haveMap with
    | none => return none
    | some cells =>
      let cells ← fillRows map m xkb.min_key_code mapWidth sizes.maxNumberOfGroups xkb.keys cells
      return some { minKeyCode := xkb.min_key_code, maxKeyCode := xkb.max_key_code, mapWidth, map := cells }

end Xenia.Xext.Xkb
