import Xenia.Lib.Arena
import Xenia.Lib.Run

/-!
# Symbols and actions of an XKB description

The symbols of all keys lie in one array, `syms`, and their actions in another, `acts`. A key has an
offset into each; the number of its symbols, and of its actions if it has any, is its number of groups
times its width. An array is refilled by appending, and laid out anew when it is full.

A null pointer is `none`, an array the list of its elements. Arrays of `MAP_LENGTH` entries are functions
of the keycode. What is read or written outside an array, or through a null pointer, is a `fault`.
-/

namespace Xenia.Xext.Xkb

open Xenia.Lib

/-! ### Data -/

def XkbNumKbdGroups : ℕ := 4
def XkbMinLegalKeyCode : ℕ := 8
def XkbMaxLegalKeyCode : ℕ := 255
def XkbMaxShiftLevel : ℕ := 63
def XkbMaxSymsPerKey : ℕ := XkbMaxShiftLevel * XkbNumKbdGroups
def XkbNumRequiredTypes : ℕ := 4
def XkbOneLevelIndex : ℕ := 0
def XkbTwoLevelIndex : ℕ := 1
def XkbAlphabeticIndex : ℕ := 2
def XkbKeypadIndex : ℕ := 3

abbrev Mask := BitVec 16

def XkbKeyTypesMask : Mask := 1
def XkbKeySymsMask : Mask := 2
def XkbModifierMapMask : Mask := 4
def XkbExplicitComponentsMask : Mask := 8
def XkbKeyActionsMask : Mask := 16
def XkbKeyBehaviorsMask : Mask := 32
def XkbVirtualModsMask : Mask := 64
def XkbVirtualModMapMask : Mask := 128

def XkbAllServerInfoMask : Mask :=
  XkbExplicitComponentsMask ||| XkbKeyActionsMask ||| XkbKeyBehaviorsMask ||| XkbVirtualModsMask |||
    XkbVirtualModMapMask

abbrev KeySym := ℕ

def NoSymbol : KeySym := 0

structure XkbModsRec where
  mask : BitVec 8 := 0
  real_mods : BitVec 8 := 0
  vmods : BitVec 16 := 0
  deriving DecidableEq

structure XkbKTMapEntryRec where
  active : Bool := false
  level : ℕ := 0
  mods : XkbModsRec := {}
  deriving DecidableEq

structure XkbKeyTypeRec where
  mods : XkbModsRec := {}
  num_levels : ℕ := 0
  map_count : ℕ := 0
  map : Option (List XkbKTMapEntryRec) := none
  preserve : Option (List XkbModsRec) := none
  level_names : Option (List ℕ) := none

structure XkbSymMapRec where
  kt_index : ℕ → ℕ := fun _ => 0
  group_info : ℕ := 0
  width : ℕ := 0
  offset : ℕ := 0

structure XkbClientMapRec where
  size_types : ℕ := 0
  num_types : ℕ := 0
  types : Option (List XkbKeyTypeRec) := none
  size_syms : ℕ := 0
  num_syms : ℕ := 0
  syms : Option (List KeySym) := none
  key_sym_map : Option (ℕ → XkbSymMapRec) := none
  modmap : Option (ℕ → BitVec 8) := none

/-- The eight bytes of an action; `b4` to `b7` depend on the type. -/
structure XkbAction where
  type : ℕ := 0
  flags : BitVec 8 := 0
  mask : BitVec 8 := 0
  real_mods : BitVec 8 := 0
  b4 : BitVec 8 := 0
  b5 : BitVec 8 := 0
  b6 : BitVec 8 := 0
  b7 : BitVec 8 := 0
  deriving DecidableEq

structure XkbBehavior where
  type : ℕ := 0
  data : ℕ := 0
  deriving DecidableEq

structure XkbServerMapRec where
  num_acts : ℕ := 0
  size_acts : ℕ := 0
  acts : Option (List XkbAction) := none
  behaviors : Option (ℕ → XkbBehavior) := none
  key_acts : Option (ℕ → ℕ) := none
  explicit : Option (ℕ → BitVec 8) := none
  vmods : ℕ → BitVec 8 := fun _ => 0
  vmodmap : Option (ℕ → BitVec 16) := none

structure XkbControlsRec where
  num_groups : ℕ := 0
  internal : XkbModsRec := {}
  ignore_lock : XkbModsRec := {}
  per_key_repeat : ℕ → Bool := fun _ => false

structure XkbSymInterpretRec where
  sym : KeySym
  flags : BitVec 8
  mtch : BitVec 8
  mods : BitVec 8
  virtual_mod : ℕ
  act : XkbAction

structure XkbCompatMapRec where
  sym_interpret : Option (List XkbSymInterpretRec) := none
  groups : ℕ → XkbModsRec := fun _ => {}

/-- `indicators` are the modifiers of the indicator maps, `names` the key names. -/
structure XkbDescRec where
  min_key_code : ℕ := 0
  max_key_code : ℕ := 0
  ctrls : Option XkbControlsRec := none
  server : Option XkbServerMapRec := none
  map : Option XkbClientMapRec := none
  indicators : Option (ℕ → XkbModsRec) := none
  names : Option (Option (ℕ → ℕ)) := none
  compat : Option XkbCompatMapRec := none

inductive Status
  | Success
  | BadValue
  | BadMatch
  | BadAlloc
  deriving DecidableEq

/-! ### Macros -/

/-- `XkbKeyNumGroups`. -/
def XkbSymMapRec.numGroups (r : XkbSymMapRec) : ℕ := r.group_info % 16

/-- `XkbKeyNumSyms`. -/
def XkbSymMapRec.numSyms (r : XkbSymMapRec) : ℕ := r.width * r.numGroups

/-- `XkbKeyKeyTypeIndex`. -/
def XkbSymMapRec.keyTypeIndex (r : XkbSymMapRec) (g : ℕ) : ℕ := r.kt_index (g % 4)

/-- `XkbSetNumGroups`. -/
def XkbSetNumGroups (g n : ℕ) : ℕ := g / 16 * 16 % 256 + n % 16

/-- `for (i = xkb.min_key_code; i <= xkb.max_key_code; i++)`. -/
def XkbDescRec.keys (xkb : XkbDescRec) : List ℕ :=
  List.range' xkb.min_key_code (xkb.max_key_code + 1 - xkb.min_key_code)

/-- The keycodes of the description are not legal. -/
def XkbDescRec.badKeycodes (xkb : XkbDescRec) : Prop :=
  xkb.min_key_code < XkbMinLegalKeyCode ∨ xkb.max_key_code < XkbMinLegalKeyCode ∨ xkb.max_key_code < xkb.min_key_code

instance (xkb : XkbDescRec) : Decidable xkb.badKeycodes := inferInstanceAs (Decidable (_ ∨ _))

/-- `a - b >= (unsigned) c`. -/
def roomFor (a b c : ℕ) : Prop := c ≤ (a + 2 ^ 32 - b) % 2 ^ 32

instance (a b c : ℕ) : Decidable (roomFor a b c) := inferInstanceAs (Decidable (_ ≤ _))

/-- `reallocarray`, with what the new memory held. -/
def reallocarray {α : Type} (junk : Option (ℕ → α)) (old : Option (List α)) (n : ℕ) : Option (List α) :=
  junk.map fun f => (old.getD []).take n ++ (List.range (n - (old.getD []).length)).map f

def calloc {α : Type} (zero : α) (n : ℕ) (ok : Bool) : Option (List α) :=
  if ok then some (List.replicate n zero) else none

/-- A map of `MAP_LENGTH` zeros, if there is none yet. -/
def callocMap {α : Type} (zero : α) (old : Option (ℕ → α)) (ok : Bool) : Option (ℕ → α) :=
  match old with
  | some f => some f
  | none => if ok then some fun _ => zero else none

/-! ### Allocation -/

/-- The steps of a call one after the other, up to the first that fails. -/
def steps {α : Type} : List (α → Outcome (α × Status)) → α → Outcome (α × Status)
  | [], map => .ok (map, .Success)
  | f :: fs, map => do
    let (map, status) ← f map
    if status = .Success then steps fs map else return (map, status)

/-- What is done only if `which` asks for it. -/
def asked {α : Type} (which mask : Mask) (f : α → Outcome (α × Status)) (map : α) : Outcome (α × Status) :=
  if which &&& mask ≠ 0 then f map else .ok (map, .Success)

def legalKeycodes {α : Type} (xkb : XkbDescRec) (map : α) : Outcome (α × Status) :=
  .ok (map, if xkb.badKeycodes then .BadMatch else .Success)

def allocated {α : Type} (p : Option α) : Status := if p.isNone then .BadAlloc else .Success

/-- What the allocator answers `XkbAllocClientMap`. -/
structure ClientAnswers where
  map : Bool := true
  types : Option (ℕ → XkbKeyTypeRec) := none
  syms : Bool := true
  key_sym_map : Bool := true
  modmap : Bool := true

/-- `memset` behind the types in use, when the array of types has grown. -/
def clearTypes (map : XkbClientMapRec) (types : List XkbKeyTypeRec) : Outcome (List XkbKeyTypeRec) :=
  if map.size_types < map.num_types then .error .fault
  else poke types map.num_types (List.replicate (map.size_types - map.num_types) {})

def allocTypes (nTotalTypes : ℕ) (answer : Option (ℕ → XkbKeyTypeRec)) (map : XkbClientMapRec) :
    Outcome (XkbClientMapRec × Status) :=
  if nTotalTypes = 0 then .ok (map, .Success)
  else
    match map.types with
    | none =>
      match calloc {} nTotalTypes answer.isSome with
      | none => .ok (map, .BadAlloc)
      | some types =>
        .ok ({ map with types := some types, num_types := 0, size_types := nTotalTypes % 256 }, .Success)
    | some types =>
      if map.size_types < nTotalTypes then
        match reallocarray answer (some types) nTotalTypes with
        | none => .ok ({ map with types := none, num_types := 0, size_types := 0 }, .BadAlloc)
        | some types => do
          let map := { map with size_types := nTotalTypes % 256 }
          let types ← clearTypes map types
          return ({ map with types := some types }, .Success)
      else .ok (map, .Success)

def allocSyms (nKeys : ℕ) (ok : Bool) (map : XkbClientMapRec) : Outcome (XkbClientMapRec × Status) :=
  match map.syms with
  | some _ => .ok (map, .Success)
  | none =>
    let size := nKeys * 15 / 10 % 2 ^ 16
    match calloc NoSymbol size ok with
    | none => .ok ({ map with size_syms := 0 }, .BadAlloc)
    | some syms => do
      let syms ← poke syms 0 [NoSymbol]
      return ({ map with size_syms := size, num_syms := 1, syms := some syms }, .Success)

def allocKeySymMap (ok : Bool) (map : XkbClientMapRec) : Outcome (XkbClientMapRec × Status) :=
  let key_sym_map := callocMap {} map.key_sym_map ok
  .ok ({ map with key_sym_map }, allocated key_sym_map)

def allocModmap (ok : Bool) (map : XkbClientMapRec) : Outcome (XkbClientMapRec × Status) :=
  let modmap := callocMap 0 map.modmap ok
  .ok ({ map with modmap }, allocated modmap)

def XkbAllocClientMap (xkb : XkbDescRec) (which : Mask) (nTotalTypes : ℕ) (answers : ClientAnswers) :
    Outcome (XkbDescRec × Status) :=
  if 0 < nTotalTypes ∧ nTotalTypes < XkbNumRequiredTypes then .ok (xkb, .BadValue)
  else if which &&& XkbKeySymsMask ≠ 0 ∧ xkb.badKeycodes then .ok (xkb, .BadValue)
  else
    match xkb.map.or (if answers.map then some {} else none) with
    | none => .ok (xkb, .BadAlloc)
    | some map => do
      let (map, status) ← steps
        [asked which XkbKeyTypesMask (allocTypes nTotalTypes answers.types),
          asked which XkbKeySymsMask (steps [allocSyms (xkb.max_key_code + 1 - xkb.min_key_code) answers.syms,
            allocKeySymMap answers.key_sym_map]),
          asked which XkbModifierMapMask (steps [legalKeycodes xkb, allocModmap answers.modmap])] map
      return ({ xkb with map := some map }, status)

/-- What the allocator answers `XkbAllocServerMap`. -/
structure ServerAnswers where
  map : Bool := true
  explicit : Bool := true
  acts : Option (ℕ → XkbAction) := none
  key_acts : Bool := true
  behaviors : Bool := true
  vmodmap : Bool := true

def allocActs (nNewActions : ℕ) (answer : Option (ℕ → XkbAction)) (map : XkbServerMapRec) :
    Outcome (XkbServerMapRec × Status) :=
  match map.acts with
  | none =>
    match calloc {} (nNewActions + 1) answer.isSome with
    | none => .ok (map, .BadAlloc)
    | some acts =>
      .ok ({ map with acts := some acts, num_acts := 1, size_acts := (nNewActions + 1) % 2 ^ 16 }, .Success)
  | some acts =>
    if roomFor map.size_acts map.num_acts nNewActions then .ok (map, .Success)
    else
      let need := map.num_acts + nNewActions
      match reallocarray answer (some acts) need with
      | none => .ok ({ map with acts := none, num_acts := 0, size_acts := 0 }, .BadAlloc)
      | some acts => do
        let size := need % 2 ^ 16
        if size < map.num_acts then throw .fault
        let acts ← poke acts map.num_acts (List.replicate (size - map.num_acts) {})
        return ({ map with acts := some acts, size_acts := size }, .Success)

def allocKeyActs (ok : Bool) (map : XkbServerMapRec) : Outcome (XkbServerMapRec × Status) :=
  let key_acts := callocMap 0 map.key_acts ok
  .ok ({ map with key_acts }, allocated key_acts)

def allocExplicit (ok : Bool) (map : XkbServerMapRec) : Outcome (XkbServerMapRec × Status) :=
  let explicit := callocMap 0 map.explicit ok
  .ok ({ map with explicit }, allocated explicit)

def allocBehaviors (ok : Bool) (map : XkbServerMapRec) : Outcome (XkbServerMapRec × Status) :=
  let behaviors := callocMap {} map.behaviors ok
  .ok ({ map with behaviors }, allocated behaviors)

def allocVmodmap (ok : Bool) (map : XkbServerMapRec) : Outcome (XkbServerMapRec × Status) :=
  let vmodmap := callocMap 0 map.vmodmap ok
  .ok ({ map with vmodmap }, allocated vmodmap)

def XkbAllocServerMap (xkb : XkbDescRec) (which : Mask) (nNewActions : ℕ) (answers : ServerAnswers) :
    Outcome (XkbDescRec × Status) :=
  match xkb.server.or (if answers.map then some {} else none) with
  | none => .ok (xkb, .BadAlloc)
  | some map => do
    let (map, status) ← steps
      [asked which XkbExplicitComponentsMask (steps [legalKeycodes xkb, allocExplicit answers.explicit]),
        asked which XkbKeyActionsMask (steps [legalKeycodes xkb, allocActs (max nNewActions 1) answers.acts,
          allocKeyActs answers.key_acts]),
        asked which XkbKeyBehaviorsMask (steps [legalKeycodes xkb, allocBehaviors answers.behaviors]),
        asked which XkbVirtualModMapMask (steps [legalKeycodes xkb, allocVmodmap answers.vmodmap])] map
    return ({ xkb with server := some map }, status)

/-! ### Symbols -/

def XkbDescRec.setMap (xkb : XkbDescRec) (map : XkbClientMapRec) : XkbDescRec := { xkb with map := some map }

def XkbDescRec.setServer (xkb : XkbDescRec) (server : XkbServerMapRec) : XkbDescRec :=
  { xkb with server := some server }

def setOffset (r : XkbSymMapRec) (offset : ℕ) : XkbSymMapRec := { r with offset }

/-- The move of key `i` when the symbols are laid out anew, with room for `needed` symbols of `key`. -/
def symsMove (key_sym_map : ℕ → XkbSymMapRec) (key needed i : ℕ) : Option Move :=
  let nCopy := (key_sym_map i).numSyms
  if nCopy = 0 ∧ i ≠ key then none
  else some ⟨(key_sym_map i).offset, nCopy, if i = key then needed else nCopy⟩

/-- The answer is the offset that is pointed to. -/
def XkbResizeKeySyms (xkb : XkbDescRec) (key needed : ℕ) (ok : Bool) : Outcome (XkbDescRec × Option ℕ) := do
  let map ← deref xkb.map
  let key_sym_map ← deref map.key_sym_map
  let setKey (map : XkbClientMapRec) (offset : ℕ) : XkbClientMapRec :=
    { map with key_sym_map := some (Function.update key_sym_map key (setOffset (key_sym_map key) offset)) }
  if needed = 0 then return (xkb.setMap (setKey map 0), map.syms.map fun _ => 0)
  let nOldSyms := (key_sym_map key).numSyms
  if nOldSyms ≥ needed then return (xkb, some (key_sym_map key).offset)
  if roomFor map.size_syms map.num_syms needed then
    let syms ← deref map.syms
    let old ← peek syms (key_sym_map key).offset nOldSyms
    let syms ← poke syms map.num_syms old
    let syms ← poke syms (map.num_syms + nOldSyms) (List.replicate (needed - nOldSyms) NoSymbol)
    let offset := map.num_syms
    return (xkb.setMap { setKey map offset with syms := some syms, num_syms := (offset + needed) % 2 ^ 16 }, some offset)
  let map := { map with size_syms := (map.size_syms + if needed > 32 then needed else 32) % 2 ^ 16 }
  match calloc NoSymbol map.size_syms ok with
  | none => return (xkb.setMap map, none)
  | some newSyms =>
    let newSyms ← poke newSyms 0 [NoSymbol]
    let (newSyms, nSyms, offsets) ← pack (map.syms.getD []) NoSymbol (2 ^ 16) (symsMove key_sym_map key needed) xkb.keys
      newSyms 1 fun i => (key_sym_map i).offset
    let map := { map with
      syms := some newSyms
      num_syms := nSyms % 2 ^ 16
      key_sym_map := some fun i => setOffset (key_sym_map i) (offsets i) }
    return (xkb.setMap map, some (offsets key))

/-! ### Actions -/

/-- `XkbKeyNumActions`. -/
def numActions (key_sym_map : ℕ → XkbSymMapRec) (key_acts : ℕ → ℕ) (i : ℕ) : ℕ :=
  if key_acts i ≠ 0 then (key_sym_map i).numSyms else 1

/-- The same for the actions. A key without actions has action 0, `XkbSA_NoAction`. -/
def actsMove (key_sym_map : ℕ → XkbSymMapRec) (key_acts : ℕ → ℕ) (key needed i : ℕ) : Option Move :=
  let nKeyActs := numActions key_sym_map key_acts i
  if key_acts i = 0 ∧ i ≠ key then none
  else some ⟨key_acts i, if i = key then min needed nKeyActs else nKeyActs, if i = key then needed else nKeyActs⟩

def XkbResizeKeyActions (xkb : XkbDescRec) (key needed : ℕ) (ok : Bool) : Outcome (XkbDescRec × Option ℕ) := do
  let server ← deref xkb.server
  let key_acts ← deref server.key_acts
  if needed = 0 then
    return (xkb.setServer { server with key_acts := some (Function.update key_acts key 0) }, none)
  let map ← deref xkb.map
  let key_sym_map ← deref map.key_sym_map
  if key_acts key ≠ 0 ∧ (key_sym_map key).numSyms ≥ needed then return (xkb, some (key_acts key))
  if roomFor server.size_acts server.num_acts needed then
    return (xkb.setServer { server with
      key_acts := some (Function.update key_acts key server.num_acts)
      num_acts := (server.num_acts + needed) % 2 ^ 16 }, some server.num_acts)
  let server := { server with size_acts := (server.num_acts + needed + 8) % 2 ^ 16 }
  match calloc {} server.size_acts ok with
  | none => return (xkb.setServer server, none)
  | some newActs =>
    let newActs ← poke newActs 0 [{}]
    let (newActs, nActs, key_acts) ← pack (server.acts.getD []) {} (2 ^ 16) (actsMove key_sym_map key_acts key needed)
      xkb.keys newActs 1 key_acts
    let server := { server with acts := some newActs, num_acts := nActs % 2 ^ 16, key_acts := some key_acts }
    return (xkb.setServer server, some (key_acts key))

/-! ### Changes -/

/-- The keys from `first` on, `num` of them. -/
structure KeyRange where
  first : ℕ := 0
  num : ℕ := 0
  deriving DecidableEq

/-- `first_key_sym` and `num_key_syms` make one range, and so on. -/
structure XkbMapChangesRec where
  changed : Mask := 0
  min_key_code : ℕ := 0
  max_key_code : ℕ := 0
  types : KeyRange := {}
  key_syms : KeyRange := {}
  key_acts : KeyRange := {}
  key_behaviors : KeyRange := {}
  key_explicit : KeyRange := {}
  modmap_keys : KeyRange := {}
  vmodmap_keys : KeyRange := {}
  vmods : BitVec 16 := 0

def XkbAddKeyChange (r : KeyRange) (newKey : ℕ) : KeyRange :=
  let last := (r.first + r.num) % 256
  if newKey < r.first then ⟨newKey, (last + 257 - newKey) % 256⟩
  else if newKey > last then ⟨r.first, (last + 257 - r.first) % 256⟩
  else r

/-! ### The types of a key -/

/-- A local array of `XkbMaxSymsPerKey` elements into which `xs` is copied. -/
def stackCopy {α : Type} (junk : ℕ → α) (xs : List α) : Outcome (List α) :=
  if xs.length ≤ XkbMaxSymsPerKey then .ok (xs ++ (List.range (XkbMaxSymsPerKey - xs.length)).map junk)
  else .error .fault

/-- The levels of the old groups go back to where the groups are now. -/
def copyLevels {α : Type} (old : List α) (p width oldWidth : ℕ) (nCopy : ℕ → Outcome ℕ) :
    List ℕ → List α → Outcome (List α)
  | [], cells => .ok cells
  | i :: is, cells => do
    let n ← nCopy i
    let block ← peek old (i * oldWidth) n
    let cells ← poke cells (p + i * width) block
    copyLevels old p width oldWidth nCopy is cells

/-- The largest number of levels, or nothing for a type index that is too large. -/
def widthLoop (map : XkbClientMapRec) (newTypes : ℕ → ℕ) : List ℕ → ℕ → Outcome (Option ℕ)
  | [], width => .ok (some width)
  | i :: is, width =>
    if newTypes i > map.num_types then .ok none
    else do
      let types ← deref map.types
      let pNewType ← deref types[newTypes i]?
      widthLoop map newTypes is (max width pNewType.num_levels)

/-- `newTypes[i]`. -/
def newType (r : XkbSymMapRec) (groups : ℕ) (newTypesIn : ℕ → ℕ) (i : ℕ) : ℕ :=
  if groups.testBit i then newTypesIn i
  else if i < r.numGroups then r.keyTypeIndex i
  else if 0 < r.numGroups then r.keyTypeIndex 0
  else XkbTwoLevelIndex

/-- The smaller number of levels of the old and the new type. -/
def copiedLevels (map : XkbClientMapRec) (r : XkbSymMapRec) (newTypes : ℕ → ℕ) (i : ℕ) : Outcome ℕ := do
  let types ← deref map.types
  let pOldType ← deref types[r.keyTypeIndex i]?
  let pNewType ← deref types[newTypes i]?
  return if pNewType.num_levels > pOldType.num_levels then pOldType.num_levels else pNewType.num_levels

/-- What the allocator answers `XkbChangeTypesOfKey`, and what its local arrays hold. -/
structure TypesAnswers where
  syms : Bool := true
  acts : Bool := true
  oldSyms : ℕ → KeySym := fun _ => 0
  oldActs : ℕ → XkbAction := fun _ => {}

def XkbDescRec.setKeySym (xkb : XkbDescRec) (key : ℕ) (f : XkbSymMapRec → XkbSymMapRec) : Outcome XkbDescRec := do
  let map ← deref xkb.map
  let key_sym_map ← deref map.key_sym_map
  return xkb.setMap { map with key_sym_map := some (Function.update key_sym_map key (f (key_sym_map key))) }

/-- The symbols of a key with groups move to where there is room for the new ones. -/
def resizeSyms (xkb : XkbDescRec) (key nGroups width : ℕ) (newTypes : ℕ → ℕ) (answers : TypesAnswers) :
    Outcome (XkbDescRec × Bool) := do
  let map ← deref xkb.map
  let key_sym_map ← deref map.key_sym_map
  let r := key_sym_map key
  let syms ← deref map.syms
  let old ← peek syms r.offset r.numSyms
  let oldSyms ← stackCopy answers.oldSyms old
  let (xkb, pSyms) ← XkbResizeKeySyms xkb key (width * nGroups) answers.syms
  match pSyms with
  | none => return (xkb, false)
  | some p =>
    let map ← deref xkb.map
    let syms ← deref map.syms
    let syms ← poke syms p (List.replicate (width * nGroups) NoSymbol)
    let syms ← copyLevels oldSyms p width r.width (copiedLevels map r newTypes) (List.range (min nGroups r.numGroups)) syms
    return (xkb.setMap { map with syms := some syms }, true)

/-- And so do its actions, if it has any. -/
def resizeActs (xkb : XkbDescRec) (key nGroups width : ℕ) (newTypes : ℕ → ℕ) (answers : TypesAnswers) :
    Outcome (XkbDescRec × Bool) := do
  let map ← deref xkb.map
  let key_sym_map ← deref map.key_sym_map
  let r := key_sym_map key
  let server ← deref xkb.server
  let key_acts ← deref server.key_acts
  if key_acts key = 0 then return (xkb, true)
  let acts ← deref server.acts
  let old ← peek acts (key_acts key) r.numSyms
  let oldActs ← stackCopy answers.oldActs old
  let (xkb, pActs) ← XkbResizeKeyActions xkb key (width * nGroups) answers.acts
  match pActs with
  | none => return (xkb, false)
  | some p =>
    let server ← deref xkb.server
    let acts ← deref server.acts
    let acts ← poke acts p (List.replicate (width * nGroups) {})
    let acts ← copyLevels oldActs p width r.width (copiedLevels map r newTypes) (List.range (min nGroups r.numGroups)) acts
    return (xkb.setServer { server with acts := some acts }, true)

def setGroups (nGroups width : ℕ) (r : XkbSymMapRec) : XkbSymMapRec :=
  { r with group_info := XkbSetNumGroups r.group_info nGroups, width := width % 256 }

/-- `kt_index[i] = newTypes[i]` for the first `nGroups` groups. -/
def setTypes (nGroups : ℕ) (newTypes : ℕ → ℕ) (r : XkbSymMapRec) : XkbSymMapRec :=
  { r with kt_index := fun i => if i < nGroups then newTypes i % 256 else r.kt_index i }

def reportSyms (changes : Option XkbMapChangesRec) (key : ℕ) : Option XkbMapChangesRec :=
  changes.map fun changes =>
    if changes.changed &&& XkbKeySymsMask ≠ 0 then { changes with key_syms := XkbAddKeyChange changes.key_syms key }
    else { changes with changed := changes.changed ||| XkbKeySymsMask, key_syms := ⟨key, 1⟩ }

def XkbChangeTypesOfKey (xkb : XkbDescRec) (key nGroups groups : ℕ) (newTypesIn : Option (ℕ → ℕ))
    (changes : Option XkbMapChangesRec) (answers : TypesAnswers) :
    Outcome (XkbDescRec × Option XkbMapChangesRec × Status) :=
  match xkb.map, newTypesIn with
  | some map, some newTypesIn => do
    if key < xkb.min_key_code ∨ key > xkb.max_key_code ∨ map.types.isNone ∨ groups % 16 = 0 ∨ nGroups > XkbNumKbdGroups then
      return (xkb, changes, .BadMatch)
    if nGroups = 0 then
      let xkb ← xkb.setKeySym key fun r =>
        { r with kt_index := fun _ => XkbOneLevelIndex, group_info := XkbSetNumGroups r.group_info 0 }
      let (xkb, _) ← XkbResizeKeySyms xkb key 0 answers.syms
      let (xkb, _) ← XkbResizeKeyActions xkb key 0 answers.acts
      return (xkb, changes, .Success)
    let key_sym_map ← deref map.key_sym_map
    let r := key_sym_map key
    let newTypes := newType r groups newTypesIn
    match ← widthLoop map newTypes (List.range nGroups) 0 with
    | none => return (xkb, changes, .BadMatch)
    | some width =>
      let xkb := { xkb with ctrls := xkb.ctrls.map fun ctrls =>
        if nGroups > ctrls.num_groups then { ctrls with num_groups := nGroups } else ctrls }
      if (width ≠ r.width ∨ nGroups ≠ r.numGroups) ∧ r.numGroups = 0 then
        let (xkb, pSyms) ← XkbResizeKeySyms xkb key (width * nGroups) answers.syms
        if pSyms.isNone then return (xkb, changes, .BadAlloc)
        let xkb ← xkb.setKeySym key (setTypes nGroups newTypes ∘ setGroups nGroups width)
        return (xkb, changes, .Success)
      let (xkb, ok) ← if width ≠ r.width ∨ nGroups ≠ r.numGroups then do
          let (xkb, ok) ← resizeSyms xkb key nGroups width newTypes answers
          if !ok then .ok (xkb, false)
          else do
            let (xkb, ok) ← resizeActs xkb key nGroups width newTypes answers
            if !ok then .ok (xkb, false)
            else do
              let xkb ← xkb.setKeySym key (setGroups nGroups width)
              .ok (xkb, true)
        else .ok (xkb, true)
      if !ok then return (xkb, changes, .BadAlloc)
      let xkb ← xkb.setKeySym key fun r => { setTypes nGroups newTypes r with width := width % 256 }
      return (xkb, reportSyms changes key, .Success)
  | _, _ => .ok (xkb, changes, .BadMatch)

/-! ### The levels of a type -/

/-- What the allocator answers `XkbResizeKeyType`. -/
structure KeyTypeAnswers where
  map : Option (ℕ → XkbKTMapEntryRec) := none
  preserve : Option (ℕ → XkbModsRec) := none
  level_names : Option (ℕ → ℕ) := none
  syms : Bool := true

/-- The map of the type. The flag says whether the allocations succeeded. -/
def resizeTypeMap (type : XkbKeyTypeRec) (map_count : ℕ) (want_preserve : Bool) (answers : KeyTypeAnswers) :
    XkbKeyTypeRec × Bool :=
  if map_count = 0 then ({ type with map := none, preserve := none, map_count := 0 }, true)
  else
    let map := if map_count > type.map_count ∨ type.map.isNone then reallocarray answers.map type.map map_count else type.map
    let type := { type with map }
    if map.isNone then (type, false)
    else
      let preserve := if !want_preserve then none
        else if map_count > type.map_count ∨ type.preserve.isNone then
          reallocarray answers.preserve type.preserve map_count
        else type.preserve
      let type := { type with preserve }
      if want_preserve ∧ preserve.isNone then (type, false) else ({ type with map_count := map_count % 256 }, true)

def resizeTypeNames (type : XkbKeyTypeRec) (new_num_lvls : ℕ) (answers : KeyTypeAnswers) : XkbKeyTypeRec × Bool :=
  if new_num_lvls > type.num_levels ∨ type.level_names.isNone then
    let level_names := reallocarray answers.level_names type.level_names new_num_lvls
    ({ type with level_names }, level_names.isSome)
  else (type, true)

/-- One of the groups of the key has the type. -/
def hasType (r : XkbSymMapRec) (type_ndx : ℕ) : Bool := (List.range r.numGroups).any fun g => r.keyTypeIndex g = type_ndx

/-- The symbols of the key need more room when the levels of the type go up. -/
def grows (key_sym_map : ℕ → XkbSymMapRec) (type_ndx num_levels new_num_lvls i : ℕ) : Prop :=
  num_levels ≤ (key_sym_map i).width ∧ (key_sym_map i).width < new_num_lvls ∧ hasType (key_sym_map i) type_ndx

instance (key_sym_map : ℕ → XkbSymMapRec) (type_ndx num_levels new_num_lvls i : ℕ) :
    Decidable (grows key_sym_map type_ndx num_levels new_num_lvls i) := inferInstanceAs (Decidable (_ ∧ _))

/-- The room for the symbols of the key in the new array. -/
def grownSyms (key_sym_map : ℕ → XkbSymMapRec) (type_ndx num_levels new_num_lvls i : ℕ) : ℕ :=
  if grows key_sym_map type_ndx num_levels new_num_lvls i then (key_sym_map i).numGroups * new_num_lvls
  else (key_sym_map i).numSyms

/-- The last `g` groups that are left, at the new width. -/
def spreadGroups (old : List KeySym) (src width n new_num_lvls : ℕ) : ℕ → List KeySym → Outcome (List KeySym)
  | 0, newSyms => .ok newSyms
  | g + 1, newSyms => do
    let block ← peek old (src + width * g) width
    let newSyms ← poke newSyms (n + new_num_lvls * g) block
    spreadGroups old src width n new_num_lvls g newSyms

/-- The symbols at their new offsets. The keys that grow come up in the order of `matchingKeys`. -/
def growSyms (old : List KeySym) (key_sym_map : ℕ → XkbSymMapRec) (type_ndx num_levels new_num_lvls : ℕ) :
    List ℕ → List KeySym → ℕ → (ℕ → ℕ) → Outcome (List KeySym × ℕ × (ℕ → ℕ))
  | [], newSyms, nSyms, offsets => .ok (newSyms, nSyms, offsets)
  | i :: is, newSyms, nSyms, offsets => do
    let r := key_sym_map i
    let newSyms ← if grows key_sym_map type_ndx num_levels new_num_lvls i then
        spreadGroups old r.offset r.width nSyms new_num_lvls r.numGroups newSyms
      else do
        let block ← peek old r.offset r.numSyms
        poke newSyms nSyms block
    growSyms old key_sym_map type_ndx num_levels new_num_lvls is newSyms
      (nSyms + grownSyms key_sym_map type_ndx num_levels new_num_lvls i) (Function.update offsets i (nSyms % 2 ^ 16))

/-- The levels from `firstClear` on of the last `g` groups that are left. -/
def clearGroups (r : XkbSymMapRec) (type_ndx firstClear : ℕ) : ℕ → List KeySym → Outcome (List KeySym)
  | 0, syms => .ok syms
  | g + 1, syms => do
    let syms ← if r.keyTypeIndex g = type_ndx ∧ firstClear < r.width then
        poke syms (r.offset + g * r.width + firstClear) (List.replicate (r.width - firstClear) NoSymbol)
      else .ok syms
    clearGroups r type_ndx firstClear g syms

def clearKeys (key_sym_map : ℕ → XkbSymMapRec) (type_ndx firstClear : ℕ) : List ℕ → List KeySym → Outcome (List KeySym)
  | [], syms => .ok syms
  | i :: is, syms => do
    let r := key_sym_map i
    let syms ← clearGroups r type_ndx firstClear r.numGroups syms
    clearKeys key_sym_map type_ndx firstClear is syms

def XkbClientMapRec.setType (map : XkbClientMapRec) (type_ndx : ℕ) (type : XkbKeyTypeRec) : XkbClientMapRec :=
  { map with types := map.types.map (·.set type_ndx type) }

/-- The symbols when the levels of the type change. -/
def resizeTypeSyms (xkb : XkbDescRec) (map : XkbClientMapRec) (type_ndx : ℕ) (type : XkbKeyTypeRec) (new_num_lvls : ℕ)
    (ok : Bool) : Outcome (XkbClientMapRec × Bool) := do
  if new_num_lvls > type.num_levels then
    let key_sym_map ← deref map.key_sym_map
    if ¬∃ i ∈ xkb.keys, grows key_sym_map type_ndx type.num_levels new_num_lvls i then return (map, true)
    let nTotal := 1 + (xkb.keys.map (grownSyms key_sym_map type_ndx type.num_levels new_num_lvls)).sum
    let map := { map with size_syms := nTotal * 15 / 10 % 2 ^ 16 }
    match calloc NoSymbol map.size_syms ok with
    | none => return (map, false)
    | some newSyms =>
      let (newSyms, nSyms, offsets) ← growSyms (map.syms.getD []) key_sym_map type_ndx type.num_levels new_num_lvls xkb.keys
        newSyms 1 fun i => (key_sym_map i).offset
      return ({ map with
        syms := some newSyms
        num_syms := nSyms % 2 ^ 16
        key_sym_map := some fun i => setOffset (key_sym_map i) (offsets i) }, true)
  else if new_num_lvls < type.num_levels then
    let key_sym_map ← deref map.key_sym_map
    let matchingKeys := xkb.keys.filter fun i =>
      type.num_levels ≤ (key_sym_map i).width ∧ hasType (key_sym_map i) type_ndx
    if matchingKeys = [] then return (map, true)
    let syms ← deref map.syms
    let syms ← clearKeys key_sym_map type_ndx new_num_lvls matchingKeys syms
    return ({ map with syms := some syms }, true)
  else return (map, true)

def XkbResizeKeyType (xkb : XkbDescRec) (type_ndx map_count : ℕ) (want_preserve : Bool) (new_num_lvls : ℕ)
    (answers : KeyTypeAnswers) : Outcome (XkbDescRec × Status) := do
  let map ← deref xkb.map
  if type_ndx ≥ map.num_types ∨ new_num_lvls < 1 then return (xkb, .BadValue)
  if type_ndx = XkbOneLevelIndex ∧ new_num_lvls ≠ 1 then return (xkb, .BadMatch)
  if (type_ndx = XkbTwoLevelIndex ∨ type_ndx = XkbAlphabeticIndex ∨ type_ndx = XkbKeypadIndex) ∧ new_num_lvls ≠ 2 then
    return (xkb, .BadMatch)
  let types ← deref map.types
  let type ← deref types[type_ndx]?
  let (type, ok) := resizeTypeMap type map_count want_preserve answers
  if !ok then return (xkb.setMap (map.setType type_ndx type), .BadAlloc)
  let (type, ok) := resizeTypeNames type new_num_lvls answers
  let map := map.setType type_ndx type
  if !ok then return (xkb.setMap map, .BadAlloc)
  let (map, ok) ← resizeTypeSyms xkb map type_ndx type new_num_lvls answers.syms
  if !ok then return (xkb.setMap map, .BadAlloc)
  return (xkb.setMap (map.setType type_ndx { type with num_levels := new_num_lvls % 256 }), .Success)

end Xenia.Xext.Xkb
