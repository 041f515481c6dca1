import Xenia.Lib.Run
import Xenia.Lib.CString
import Xenia.Lib.SearchTree

/-!
# The atom table

`MakeAtom`, `NameForAtom`, `ValidAtom` and `InitAtoms`: the tree of names, searched by
fingerprint and then by name, and the table of its nodes by atom. An access to the table
outside its memory, or to a slot nobody has written, ends in `none`, and so does the fatal
error of `InitAtoms`.
-/

namespace Xenia.Dix

open Xenia.Lib

def BAD_RESOURCE : ℕ := 0xe0000000
def XA_LAST_PREDEFINED : ℕ := 68
def InitialTableSize : ℕ := 256

/-- A name as a client may send it; its length is a `uint`. -/
abbrev Name := { s : List Byte // s.length < 2 ^ 32 }

/-- A node of the tree; its links are those of the `BinaryTree` it stands in. -/
structure Node where
  a : ℕ
  fingerPrint : BitVec 32
  string : CStr

/-- A slot of the node table. -/
inductive Slot
  | uninit
  | null
  | node (nd : Node)

structure AtomTable where
  lastAtom : ℕ
  atomRoot : BinaryTree Node
  tableLength : ℕ
  nodeTable : List Slot

/-- The answers of the allocator to the three requests of `MakeAtom`. -/
structure AtomAlloc where
  node : Bool
  string : Bool
  table : Bool

/-- The loop that computes the fingerprint, in 32-bit arithmetic. -/
def fingerPrint (string : List Byte) : BitVec 32 :=
  let len := string.length
  (List.range ((len + 1) % 2 ^ 32 / 2)).foldl
    (fun fp i => (fp * 27 + (string.getD i 0).setWidth 32) * 27 +
      (string.getD (len - 1 - i) 0).setWidth 32) 0

/-- Which way the search goes at a node. -/
def direction (string : List Byte) (fp : BitVec 32) (np : Node) : Ordering :=
  if fp < np.fingerPrint then .lt
  else if fp > np.fingerPrint then .gt
  else
    let len := string.length
    let comp := strncmp string np.string.1 len
    if comp < 0 ∨ comp = 0 ∧ len < np.string.1.length then .lt
    else if comp > 0 then .gt
    else .eq

/-- A write to the node table; there is no slot past its end. -/
def writeSlot (table : List Slot) (i : ℕ) (nd : Node) : Option (List Slot) :=
  if i < table.length then some (table.set i (.node nd)) else none

/-- `reallocarray(nodeTable, tableLength, 2 * sizeof)`: the new half is uninitialised. -/
def growTable (table : List Slot) (tableLength : ℕ) : List Slot :=
  table.take (2 * tableLength) ++ List.replicate (2 * tableLength - table.length) .uninit

def makeAtom (alloc : AtomAlloc) (string : Name) (makeit : Bool) (t : AtomTable) :
    Option (AtomTable × ℕ) :=
  let fp := fingerPrint string.1
  match SearchTree.find (direction string.1 fp) t.atomRoot with
  | some np => some (t, np.a)
  | none =>
    if makeit then
      if !alloc.node then some (t, BAD_RESOURCE)
      -- a predefined name is not copied
      else if ¬ t.lastAtom < XA_LAST_PREDEFINED ∧ !alloc.string then some (t, BAD_RESOURCE)
      else if (t.lastAtom + 1) % 2 ^ 32 ≥ t.tableLength ∧ !alloc.table then some (t, BAD_RESOURCE)
      else
        let t :=
          if (t.lastAtom + 1) % 2 ^ 32 ≥ t.tableLength then
            { t with
              tableLength := 2 * t.tableLength
              nodeTable := growTable t.nodeTable t.tableLength }
          else t
        let lastAtom := (t.lastAtom + 1) % 2 ^ 32
        let nd : Node := ⟨lastAtom, fp, strndup string.1⟩
        (writeSlot t.nodeTable lastAtom nd).map fun table =>
          ({ t with
              lastAtom
              atomRoot := SearchTree.insert (direction string.1 fp) nd t.atomRoot
              nodeTable := table }, lastAtom)
    else some (t, 0)

def validAtom (atom : ℕ) (t : AtomTable) : Bool := atom ≠ 0 ∧ atom ≤ t.lastAtom

/-- The name of an atom, if it has one. -/
def nameForAtom (atom : ℕ) (t : AtomTable) : Option (Option CStr) :=
  if atom > t.lastAtom then some none
  else
    match t.nodeTable[atom]? with
    | some (.node nd) => some (some nd.string)
    | some .null => some none
    | some .uninit | none => none

/-- The names `MakePredeclaredAtoms` interns, in the order of their atoms. -/
def predeclaredAtoms : List String :=
  ["PRIMARY", "SECONDARY", "ARC", "ATOM", "BITMAP",
   "CARDINAL", "COLORMAP", "CURSOR", "CUT_BUFFER0", "CUT_BUFFER1",
   "CUT_BUFFER2", "CUT_BUFFER3", "CUT_BUFFER4", "CUT_BUFFER5", "CUT_BUFFER6",
   "CUT_BUFFER7", "DRAWABLE", "FONT", "INTEGER", "PIXMAP",
   "POINT", "RECTANGLE", "RESOURCE_MANAGER", "RGB_COLOR_MAP", "RGB_BEST_MAP",
   "RGB_BLUE_MAP", "RGB_DEFAULT_MAP", "RGB_GRAY_MAP", "RGB_GREEN_MAP", "RGB_RED_MAP",
   "STRING", "VISUALID", "WINDOW", "WM_COMMAND", "WM_HINTS",
   "WM_CLIENT_MACHINE", "WM_ICON_NAME", "WM_ICON_SIZE", "WM_NAME", "WM_NORMAL_HINTS",
   "WM_SIZE_HINTS", "WM_ZOOM_HINTS", "MIN_SPACE", "NORM_SPACE", "MAX_SPACE",
   "END_SPACE", "SUPERSCRIPT_X", "SUPERSCRIPT_Y", "SUBSCRIPT_X", "SUBSCRIPT_Y",
   "UNDERLINE_POSITION", "UNDERLINE_THICKNESS", "STRIKEOUT_ASCENT", "STRIKEOUT_DESCENT", "ITALIC_ANGLE",
   "X_HEIGHT", "QUAD_WIDTH", "WEIGHT", "POINT_SIZE", "RESOLUTION",
   "COPYRIGHT", "NOTICE", "FONT_NAME", "FAMILY_NAME", "FULL_NAME",
   "CAP_HEIGHT", "WM_CLASS", "WM_TRANSIENT_FOR"]

def nameOf (s : String) : List Byte := s.toByteArray.data.toList.map UInt8.toBitVec

def granted : AtomAlloc := ⟨true, true, true⟩

/-- Intern the names given, each of which must get the next atom. -/
def makePredeclaredAtoms : List Name → ℕ → AtomTable → Option AtomTable
  | [], _, t => some t
  | s :: names, atom, t =>
    match makeAtom granted s true t with
    | some (t, a) => if a ≠ atom then none else makePredeclaredAtoms names (atom + 1) t
    | none => none

theorem nameOf_lt : ∀ s ∈ predeclaredAtoms.map nameOf, s.length < 2 ^ 32 := by decide +kernel

def predeclaredNames : List Name := (predeclaredAtoms.map nameOf).attach.map fun s =>
  ⟨s.1, nameOf_lt s.1 s.2⟩

def initAtoms : Option AtomTable :=
  let t : AtomTable := ⟨0, .nil, InitialTableSize, List.replicate InitialTableSize .null⟩
  match makePredeclaredAtoms predeclaredNames 1 t with
  | none => none
  | some t => if t.lastAtom ≠ XA_LAST_PREDEFINED then none else some t

/-! ### Runs -/

/-- A call `MakeAtom(name, len, TRUE)` with the answers it gets from the allocator. -/
structure AtomCall where
  name : Name
  alloc : AtomAlloc

/-- One more call, and its result at the end of the results so far. -/
def atomStep (s : Option (AtomTable × List ℕ)) (c : AtomCall) : Option (AtomTable × List ℕ) :=
  s.bind fun (t, atoms) => (makeAtom c.alloc c.name true t).map fun (t, a) => (t, atoms ++ [a])

def makeAtoms (calls : List AtomCall) (t : AtomTable) : Option (AtomTable × List ℕ) :=
  run atomStep (some (t, [])) calls

end Xenia.Dix
