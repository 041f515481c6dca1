import Xenia.Xext.XkbState

/-!
# The range of keycodes

`XkbChangeKeycodeRange` extends the range of a description, and clears what the arrays hold for the keycodes
that come in. Below it clears these keycodes and no others. Above it starts at the old last keycode, which is
in use. `XkbChangeKeycodeRange_kept_iff` says when nothing is lost.
-/

namespace Xenia.Xext.Xkb

open Xenia.Lib List

variable {xkb : XkbDescRec} {first n k minKC maxKC : ℕ}

/-! ### The operation -/

def MAP_LENGTH : ℕ := 256

def XkbKeyNamesMask : Mask := 1 <<< 9

structure XkbNameChangesRec where
  changed : Mask := 0
  keys : KeyRange := {}

/-- `changed_ctrls`, `map_changes` and `changed_groups` are those of the controls, indicators and compat map. -/
structure XkbChangesRec where
  map : XkbMapChangesRec := {}
  changed_ctrls : BitVec 32 := 0
  map_changes : BitVec 32 := 0
  names : XkbNameChangesRec := {}
  changed_groups : BitVec 8 := 0

def ExtendRange (old_flags flag : Mask) (newKC : ℕ) (r : KeyRange) : Mask × KeyRange :=
  if old_flags &&& flag = 0 then (old_flags ||| flag, ⟨newKC, 1⟩)
  else
    let last : ℤ := r.first + r.num - 1
    if newKC < r.first then (old_flags, ⟨newKC, ((last - newKC + 1) % 256).toNat⟩)
    else if newKC > last then (old_flags, ⟨r.first, (newKC - r.first + 1) % 256⟩)
    else (old_flags, r)

def reportKeySyms (newKC : ℕ) (changes : XkbChangesRec) : XkbChangesRec :=
  let (changed, key_syms) := ExtendRange changes.map.changed XkbKeySymsMask newKC changes.map.key_syms
  { changes with map := { changes.map with changed, key_syms } }

def reportModmap (newKC : ℕ) (changes : XkbChangesRec) : XkbChangesRec :=
  let (changed, modmap_keys) := ExtendRange changes.map.changed XkbModifierMapMask newKC changes.map.modmap_keys
  { changes with map := { changes.map with changed, modmap_keys } }

def reportBehaviors (newKC : ℕ) (changes : XkbChangesRec) : XkbChangesRec :=
  let (changed, key_behaviors) := ExtendRange changes.map.changed XkbKeyBehaviorsMask newKC changes.map.key_behaviors
  { changes with map := { changes.map with changed, key_behaviors } }

def reportKeyActs (newKC : ℕ) (changes : XkbChangesRec) : XkbChangesRec :=
  let (changed, key_acts) := ExtendRange changes.map.changed XkbKeyActionsMask newKC changes.map.key_acts
  { changes with map := { changes.map with changed, key_acts } }

/-- `first_modmap_key` goes with `num_vmodmap_keys` here. -/
def reportVmodmap (newKC : ℕ) (changes : XkbChangesRec) : XkbChangesRec :=
  let map := changes.map
  let (changed, r) := ExtendRange map.changed XkbVirtualModMapMask newKC ⟨map.modmap_keys.first, map.vmodmap_keys.num⟩
  { changes with map := { map with changed, modmap_keys := ⟨r.first, map.modmap_keys.num⟩,
                                   vmodmap_keys := ⟨map.vmodmap_keys.first, r.num⟩ } }

def reportNames (newKC : ℕ) (changes : XkbChangesRec) : XkbChangesRec :=
  let (changed, keys) := ExtendRange changes.names.changed XkbKeyNamesMask newKC changes.names.keys
  { changes with names := { changed, keys } }

/-- `memset` of the entries from `first` on, `n` of them. -/
def clearEntries {α : Type} (zero : α) (first n : ℕ) (entries : ℕ → α) : Outcome (ℕ → α) :=
  if first + n ≤ MAP_LENGTH then .ok fun k => if first ≤ k ∧ k < first + n then zero else entries k
  else .error .fault

/-- An array is cleared and reported if it is there. -/
def clearArray {α : Type} (zero : α) (first n : ℕ) (report : XkbChangesRec → XkbChangesRec) (array : Option (ℕ → α))
    (changes : Option XkbChangesRec) : Outcome (Option (ℕ → α) × Option XkbChangesRec) :=
  match array with
  | none => .ok (none, changes)
  | some entries => do
    let entries ← clearEntries zero first n entries
    return (some entries, changes.map report)

def clearMap (first n newKC : ℕ) (map : Option XkbClientMapRec) (changes : Option XkbChangesRec) :
    Outcome (Option XkbClientMapRec × Option XkbChangesRec) :=
  match map with
  | none => .ok (none, changes)
  | some map => do
    let (key_sym_map, changes) ← clearArray {} first n (reportKeySyms newKC) map.key_sym_map changes
    let (modmap, changes) ← clearArray 0 first n (reportModmap newKC) map.modmap changes
    return (some { map with key_sym_map, modmap }, changes)

def clearServer (first n newKC : ℕ) (server : Option XkbServerMapRec) (changes : Option XkbChangesRec) :
    Outcome (Option XkbServerMapRec × Option XkbChangesRec) :=
  match server with
  | none => .ok (none, changes)
  | some server => do
    let (behaviors, changes) ← clearArray {} first n (reportBehaviors newKC) server.behaviors changes
    let (key_acts, changes) ← clearArray 0 first n (reportKeyActs newKC) server.key_acts changes
    let (vmodmap, changes) ← clearArray 0 first n (reportVmodmap newKC) server.vmodmap changes
    return (some { server with behaviors, key_acts, vmodmap }, changes)

def clearNames (first n newKC : ℕ) (names : Option (Option (ℕ → ℕ))) (changes : Option XkbChangesRec) :
    Outcome (Option (Option (ℕ → ℕ)) × Option XkbChangesRec) :=
  match names with
  | none => .ok (none, changes)
  | some keys => do
    let (keys, changes) ← clearArray 0 first n (reportNames newKC) keys changes
    return (some keys, changes)

/-- What both ends of the range do with the six arrays. -/
def clearKeycodes (xkb : XkbDescRec) (first n newKC : ℕ) (changes : Option XkbChangesRec) :
    Outcome (XkbDescRec × Option XkbChangesRec) := do
  let (map, changes) ← clearMap first n newKC xkb.map changes
  let (server, changes) ← clearServer first n newKC xkb.server changes
  let (names, changes) ← clearNames first n newKC xkb.names changes
  return ({ xkb with map, server, names }, changes)

def extendBelow (xkb : XkbDescRec) (minKC : ℕ) (changes : Option XkbChangesRec) :
    Outcome (XkbDescRec × Option XkbChangesRec) :=
  if minKC < xkb.min_key_code then do
    let changes := changes.map fun c => { c with map := { c.map with min_key_code := minKC } }
    let tmp := xkb.min_key_code - minKC
    let (xkb, changes) ← clearKeycodes xkb minKC tmp minKC changes
    return ({ xkb with min_key_code := minKC }, changes)
  else .ok (xkb, changes)

def extendAbove (xkb : XkbDescRec) (maxKC : ℕ) (changes : Option XkbChangesRec) :
    Outcome (XkbDescRec × Option XkbChangesRec) :=
  if maxKC > xkb.max_key_code then do
    let changes := changes.map fun c => { c with map := { c.map with max_key_code := maxKC } }
    let tmp := MAP_LENGTH - xkb.max_key_code
    let (xkb, changes) ← clearKeycodes xkb xkb.max_key_code tmp maxKC changes
    return ({ xkb with max_key_code := maxKC }, changes)
  else .ok (xkb, changes)

def XkbChangeKeycodeRange (xkb : Option XkbDescRec) (minKC maxKC : ℤ) (changes : Option XkbChangesRec) :
    Outcome (Option XkbDescRec × Option XkbChangesRec × Status) :=
  match xkb with
  | none => .ok (none, changes, .BadValue)
  | some xkb =>
    if minKC < XkbMinLegalKeyCode ∨ maxKC > XkbMaxLegalKeyCode then .ok (some xkb, changes, .BadValue)
    else if minKC > maxKC then .ok (some xkb, changes, .BadMatch)
    else do
      let (xkb, changes) ← extendBelow xkb minKC.toNat changes
      let (xkb, changes) ← extendAbove xkb maxKC.toNat changes
      return (some xkb, changes, .Success)

/-! ### What a keycode has -/

/-- The entries of a keycode in the six arrays, as far as they are there. -/
structure KeyEntry where
  symMap : Option XkbSymMapRec
  modmap : Option (BitVec 8)
  behavior : Option XkbBehavior
  acts : Option ℕ
  vmodmap : Option (BitVec 16)
  name : Option ℕ

def XkbDescRec.entry (xkb : XkbDescRec) (k : ℕ) : KeyEntry where
  symMap := (xkb.map.bind (·.key_sym_map)).map (· k)
  modmap := (xkb.map.bind (·.modmap)).map (· k)
  behavior := (xkb.server.bind (·.behaviors)).map (· k)
  acts := (xkb.server.bind (·.key_acts)).map (· k)
  vmodmap := (xkb.server.bind (·.vmodmap)).map (· k)
  name := (xkb.names.bind id).map (· k)

/-- The entries are all empty. -/
def KeyEntry.cleared (e : KeyEntry) : KeyEntry where
  symMap := e.symMap.map fun _ => {}
  modmap := e.modmap.map fun _ => 0
  behavior := e.behavior.map fun _ => {}
  acts := e.acts.map fun _ => 0
  vmodmap := e.vmodmap.map fun _ => 0
  name := e.name.map fun _ => 0

/-- The range has grown to take in `[minKC, maxKC]`. The keycodes that were in it have what they had, and those that
came in have nothing. The symbols and actions themselves are the same. -/
structure RangeExtended (xkb xkb' : XkbDescRec) (minKC maxKC : ℕ) : Prop where
  min_key_code : xkb'.min_key_code = min minKC xkb.min_key_code
  max_key_code : xkb'.max_key_code = max maxKC xkb.max_key_code
  kept : ∀ k ∈ xkb.keys, xkb'.entry k = xkb.entry k
  empty : ∀ k ∈ xkb'.keys, k ∉ xkb.keys → xkb'.entry k = (xkb'.entry k).cleared
  syms : xkb'.allSyms = xkb.allSyms
  actions : xkb'.allActs = xkb.allActs

/-! ### Clearing -/

@[simp] theorem KeyEntry.cleared_cleared (e : KeyEntry) : e.cleared.cleared = e.cleared := by
  unfold KeyEntry.cleared
  simp only [Option.map_map, Function.comp_def]

theorem clearArray_spec {α : Type} (zero : α) (report : XkbChangesRec → XkbChangesRec) (array : Option (ℕ → α))
    (changes : Option XkbChangesRec) (hin : first + n ≤ MAP_LENGTH) :
    ∃ array' changes', clearArray zero first n report array changes = .ok (array', changes') ∧
      ∀ k, array'.map (· k) = if first ≤ k ∧ k < first + n then (array.map (· k)).map fun _ => zero else array.map (· k) := by
  cases array with
  | none =>
    refine ⟨none, changes, rfl, fun k => ?_⟩
    split <;> rfl
  | some entries =>
    have hclear : clearEntries zero first n entries = .ok fun k => if first ≤ k ∧ k < first + n then zero else entries k :=
      if_pos hin
    refine ⟨some fun k => if first ≤ k ∧ k < first + n then zero else entries k, changes.map report, ?_, fun k => ?_⟩
    · change (clearEntries zero first n entries >>= _) = _
      rw [hclear]
      rfl
    · simp only [Option.map_some]
      split <;> rfl

/-- The six arrays are cleared alike, and nothing else changes. -/
theorem clearKeycodes_spec (xkb : XkbDescRec) (newKC : ℕ) (changes : Option XkbChangesRec) (hin : first + n ≤ MAP_LENGTH) :
    ∃ xkb' changes', clearKeycodes xkb first n newKC changes = .ok (xkb', changes') ∧
      xkb'.min_key_code = xkb.min_key_code ∧ xkb'.max_key_code = xkb.max_key_code ∧
      xkb'.allSyms = xkb.allSyms ∧ xkb'.allActs = xkb.allActs ∧
      ∀ k, xkb'.entry k = if first ≤ k ∧ k < first + n then (xkb.entry k).cleared else xkb.entry k := by
  have hmap : ∃ map' changes', clearMap first n newKC xkb.map changes = .ok (map', changes') ∧
      (map'.bind (·.syms)).getD [] = (xkb.map.bind (·.syms)).getD [] ∧
      ∀ k, (map'.bind (·.key_sym_map)).map (· k) = (if first ≤ k ∧ k < first + n then
          ((xkb.map.bind (·.key_sym_map)).map (· k)).map fun _ => {} else (xkb.map.bind (·.key_sym_map)).map (· k)) ∧
        (map'.bind (·.modmap)).map (· k) = (if first ≤ k ∧ k < first + n then
          ((xkb.map.bind (·.modmap)).map (· k)).map fun _ => 0 else (xkb.map.bind (·.modmap)).map (· k)) := by
    cases xkb.map with
    | none => exact ⟨none, changes, rfl, rfl, fun k => by split <;> exact ⟨rfl, rfl⟩⟩
    | some map =>
      obtain ⟨a₁, c₁, hrun₁, h₁⟩ := clearArray_spec {} (reportKeySyms newKC) map.key_sym_map changes hin
      obtain ⟨a₂, c₂, hrun₂, h₂⟩ := clearArray_spec 0 (reportModmap newKC) map.modmap c₁ hin
      refine ⟨some { map with key_sym_map := a₁, modmap := a₂ }, c₂, ?_, ?_, fun k => ⟨h₁ k, h₂ k⟩⟩
      · unfold clearMap
        simp only [hrun₁, ok_bind, hrun₂]
        rfl
      · rfl
  have hserver : ∀ changes, ∃ server' changes', clearServer first n newKC xkb.server changes = .ok (server', changes') ∧
      (server'.bind (·.acts)).getD [] = (xkb.server.bind (·.acts)).getD [] ∧
      ∀ k, (server'.bind (·.behaviors)).map (· k) = (if first ≤ k ∧ k < first + n then
          ((xkb.server.bind (·.behaviors)).map (· k)).map fun _ => {} else (xkb.server.bind (·.behaviors)).map (· k)) ∧
        (server'.bind (·.key_acts)).map (· k) = (if first ≤ k ∧ k < first + n then
          ((xkb.server.bind (·.key_acts)).map (· k)).map fun _ => 0 else (xkb.server.bind (·.key_acts)).map (· k)) ∧
        (server'.bind (·.vmodmap)).map (· k) = (if first ≤ k ∧ k < first + n then
          ((xkb.server.bind (·.vmodmap)).map (· k)).map fun _ => 0 else (xkb.server.bind (·.vmodmap)).map (· k)) := by
    intro changes
    cases xkb.server with
    | none => exact ⟨none, changes, rfl, rfl, fun k => by split <;> exact ⟨rfl, rfl, rfl⟩⟩
    | some server =>
      obtain ⟨a₁, c₁, hrun₁, h₁⟩ := clearArray_spec {} (reportBehaviors newKC) server.behaviors changes hin
      obtain ⟨a₂, c₂, hrun₂, h₂⟩ := clearArray_spec 0 (reportKeyActs newKC) server.key_acts c₁ hin
      obtain ⟨a₃, c₃, hrun₃, h₃⟩ := clearArray_spec 0 (reportVmodmap newKC) server.vmodmap c₂ hin
      refine ⟨some { server with behaviors := a₁, key_acts := a₂, vmodmap := a₃ }, c₃, ?_, ?_,
        fun k => ⟨h₁ k, h₂ k, h₃ k⟩⟩
      · unfold clearServer
        simp only [hrun₁, ok_bind, hrun₂, hrun₃]
        rfl
      · rfl
  have hnames : ∀ changes, ∃ names' changes', clearNames first n newKC xkb.names changes = .ok (names', changes') ∧
      ∀ k, (names'.bind id).map (· k) = if first ≤ k ∧ k < first + n then
        ((xkb.names.bind id).map (· k)).map fun _ => 0 else (xkb.names.bind id).map (· k) := by
    intro changes
    cases xkb.names with
    | none => exact ⟨none, changes, rfl, fun k => by split <;> rfl⟩
    | some keys =>
      obtain ⟨a, c, hrun, h⟩ := clearArray_spec 0 (reportNames newKC) keys changes hin
      refine ⟨some a, c, ?_, h⟩
      unfold clearNames
      simp only [hrun]
      rfl
  obtain ⟨map', c₁, hrun₁, hsyms, hmap⟩ := hmap
  obtain ⟨server', c₂, hrun₂, hacts, hserver⟩ := hserver c₁
  obtain ⟨names', c₃, hrun₃, hnames⟩ := hnames c₂
  refine ⟨{ xkb with map := map', server := server', names := names' }, c₃, ?_, rfl, rfl, hsyms, hacts, fun k => ?_⟩
  · unfold clearKeycodes
    simp only [hrun₁, ok_bind, hrun₂, hrun₃]
    rfl
  · unfold XkbDescRec.entry
    simp only [hmap k, hserver k, hnames k]
    split <;> rfl

/-! ### The two ends -/

theorem extendBelow_spec (minKC : ℕ) (changes : Option XkbChangesRec) (hbyte : xkb.min_key_code < MAP_LENGTH) :
    ∃ xkb' changes', extendBelow xkb minKC changes = .ok (xkb', changes') ∧
      xkb'.min_key_code = min minKC xkb.min_key_code ∧ xkb'.max_key_code = xkb.max_key_code ∧
      xkb'.allSyms = xkb.allSyms ∧ xkb'.allActs = xkb.allActs ∧
      ∀ k, xkb'.entry k = if minKC ≤ k ∧ k < xkb.min_key_code then (xkb.entry k).cleared else xkb.entry k := by
  unfold extendBelow
  split
  · rename_i hlt
    obtain ⟨xkb', c', hrun, -, hmax, hsyms, hacts, hentry⟩ := clearKeycodes_spec xkb minKC
      (changes.map fun c => { c with map := { c.map with min_key_code := minKC } })
      (show minKC + (xkb.min_key_code - minKC) ≤ MAP_LENGTH by omega)
    refine ⟨{ xkb' with min_key_code := minKC }, c', ?_, (min_eq_left hlt.le).symm, hmax, hsyms, hacts, fun k => ?_⟩
    · simp only [hrun]
      rfl
    · have := hentry k
      rw [show minKC + (xkb.min_key_code - minKC) = xkb.min_key_code by omega] at this
      exact this
  · rename_i hge
    refine ⟨xkb, changes, rfl, (min_eq_right (not_lt.1 hge)).symm, rfl, rfl, rfl, fun k => ?_⟩
    rw [if_neg (by omega)]

/-- The keycodes are cleared from the old last one on. -/
theorem extendAbove_spec (maxKC : ℕ) (changes : Option XkbChangesRec) (hbyte : xkb.max_key_code < MAP_LENGTH) :
    ∃ xkb' changes', extendAbove xkb maxKC changes = .ok (xkb', changes') ∧
      xkb'.min_key_code = xkb.min_key_code ∧ xkb'.max_key_code = max maxKC xkb.max_key_code ∧
      xkb'.allSyms = xkb.allSyms ∧ xkb'.allActs = xkb.allActs ∧
      ∀ k, xkb'.entry k = if xkb.max_key_code < maxKC ∧ xkb.max_key_code ≤ k ∧ k < MAP_LENGTH then (xkb.entry k).cleared
        else xkb.entry k := by
  unfold extendAbove
  split
  · rename_i hlt
    obtain ⟨xkb', c', hrun, hmin, -, hsyms, hacts, hentry⟩ := clearKeycodes_spec xkb maxKC
      (changes.map fun c => { c with map := { c.map with max_key_code := maxKC } })
      (show xkb.max_key_code + (MAP_LENGTH - xkb.max_key_code) ≤ MAP_LENGTH by omega)
    refine ⟨{ xkb' with max_key_code := maxKC }, c', ?_, hmin, (max_eq_left (le_of_lt hlt)).symm, hsyms, hacts,
      fun k => ?_⟩
    · simp only [hrun]
      rfl
    · have := hentry k
      rw [show xkb.max_key_code + (MAP_LENGTH - xkb.max_key_code) = MAP_LENGTH by omega] at this
      refine this.trans ?_
      simp only [show xkb.max_key_code < maxKC from hlt, true_and]
  · rename_i hge
    refine ⟨xkb, changes, rfl, rfl, (max_eq_right (not_lt.1 hge)).symm, rfl, rfl, fun k => ?_⟩
    rw [if_neg fun h => hge h.1]

/-- What a call does that is accepted. -/
theorem changeKeycodeRange_spec (hmin : xkb.min_key_code < MAP_LENGTH) (hmax : xkb.max_key_code < MAP_LENGTH)
    (hfirst : XkbMinLegalKeyCode ≤ minKC) (hlast : maxKC ≤ XkbMaxLegalKeyCode) (hle : minKC ≤ maxKC)
    (changes : Option XkbChangesRec) :
    ∃ xkb' changes', XkbChangeKeycodeRange (some xkb) minKC maxKC changes = .ok (some xkb', changes', .Success) ∧
      xkb'.min_key_code = min minKC xkb.min_key_code ∧ xkb'.max_key_code = max maxKC xkb.max_key_code ∧
      xkb'.allSyms = xkb.allSyms ∧ xkb'.allActs = xkb.allActs ∧
      ∀ k, xkb'.entry k =
        if (minKC ≤ k ∧ k < xkb.min_key_code) ∨ (xkb.max_key_code < maxKC ∧ xkb.max_key_code ≤ k ∧ k < MAP_LENGTH) then
          (xkb.entry k).cleared
        else xkb.entry k := by
  obtain ⟨x₁, c₁, hrun₁, hmin₁, hmax₁, hsyms₁, hacts₁, hentry₁⟩ := extendBelow_spec minKC changes hmin
  obtain ⟨x₂, c₂, hrun₂, hmin₂, hmax₂, hsyms₂, hacts₂, hentry₂⟩ := extendAbove_spec maxKC c₁ (hmax₁ ▸ hmax)
  refine ⟨x₂, c₂, ?_, hmin₂.trans hmin₁, ?_, hsyms₂.trans hsyms₁, hacts₂.trans hacts₁, fun k => ?_⟩
  · unfold XkbChangeKeycodeRange
    have hlegal : ¬((minKC : ℤ) < XkbMinLegalKeyCode ∨ (maxKC : ℤ) > XkbMaxLegalKeyCode) := by omega
    have hordered : ¬(minKC : ℤ) > maxKC := by omega
    simp only [if_neg hlegal, if_neg hordered, Int.toNat_natCast, hrun₁, ok_bind, hrun₂]
    rfl
  · rw [hmax₂, hmax₁]
  · rw [hentry₂, hentry₁, hmax₁]
    by_cases hbelow : minKC ≤ k ∧ k < xkb.min_key_code
    · rw [if_pos hbelow, KeyEntry.cleared_cleared, ite_self]
      exact (if_pos (.inl hbelow)).symm
    · rw [if_neg hbelow]
      simp only [hbelow, false_or]

/-! ### What is kept -/

/-- **The old range keeps what it has** exactly if no keycode comes in above it, or the last keycode of it has nothing
to lose. -/
theorem XkbChangeKeycodeRange_kept_iff (hmin : xkb.min_key_code < MAP_LENGTH) (hmax : xkb.max_key_code < MAP_LENGTH)
    (hfirst : XkbMinLegalKeyCode ≤ minKC) (hlast : maxKC ≤ XkbMaxLegalKeyCode) (hle : minKC ≤ maxKC)
    (changes : Option XkbChangesRec) :
    (∃ xkb' changes', XkbChangeKeycodeRange (some xkb) minKC maxKC changes = .ok (some xkb', changes', .Success) ∧
        RangeExtended xkb xkb' minKC maxKC) ↔
      maxKC ≤ xkb.max_key_code ∨ xkb.max_key_code < xkb.min_key_code ∨
        xkb.entry xkb.max_key_code = (xkb.entry xkb.max_key_code).cleared := by
  obtain ⟨x, c, hrun, hmin', hmax', hsyms, hacts, hentry⟩ :=
    changeKeycodeRange_spec hmin hmax hfirst hlast hle changes
  constructor
  · rintro ⟨xkb', c', hrun', h⟩
    rw [hrun] at hrun'
    cases hrun'
    by_contra hnot
    obtain ⟨habove, hrange, hused⟩ := not_or.1 hnot |>.imp_right not_or.1
    -- the old last keycode is in the range, and has been cleared
    have hmem : xkb.max_key_code ∈ xkb.keys := by
      apply mem_range'_1.2
      omega
    have hcleared := hentry xkb.max_key_code
    rw [if_pos (.inr ⟨Nat.lt_of_not_le habove, le_rfl, hmax⟩), h.kept _ hmem] at hcleared
    exact hused hcleared
  · intro hcond
    refine ⟨x, c, hrun, ⟨hmin', hmax', fun k hk => ?_, fun k hk hnew => ?_, hsyms, hacts⟩⟩
    · have hk := mem_range'_1.1 hk
      rw [hentry]
      split
      · rename_i hin
        have heq : k = xkb.max_key_code := by omega
        rcases hcond with hle' | hempty | hclear
        · omega
        · omega
        · rw [heq]
          exact hclear.symm
      · rfl
    · have hk := mem_range'_1.1 hk
      have hnew : ¬(xkb.min_key_code ≤ k ∧ k < xkb.min_key_code + (xkb.max_key_code + 1 - xkb.min_key_code)) :=
        fun h => hnew (mem_range'_1.2 h)
      have hlegal : maxKC ≤ 255 := hlast
      have hlength : MAP_LENGTH = 256 := rfl
      rw [hentry, if_pos (by omega), KeyEntry.cleared_cleared]

/-- Two keys, each with a modifier. -/
def twoModifiers : XkbDescRec :=
  { min_key_code := 8, max_key_code := 9, map := some { modmap := some fun _ => 1 } }

theorem XkbChangeKeycodeRange_kept_iff_twoModifiers :
    ∃ xkb' changes', XkbChangeKeycodeRange (some twoModifiers) 8 9 none = .ok (some xkb', changes', .Success) ∧
      RangeExtended twoModifiers xkb' 8 9 :=
  (@XkbChangeKeycodeRange_kept_iff twoModifiers 8 9 (by decide) (by decide) (by decide) (by decide) (by decide) none).2
    (.inl (by decide))

/-- With one more keycode above, the key that was the last loses its modifier. -/
theorem XkbChangeKeycodeRange_loses :
    ¬∃ xkb' changes', XkbChangeKeycodeRange (some twoModifiers) 8 10 none = .ok (some xkb', changes', .Success) ∧
      RangeExtended twoModifiers xkb' 8 10 := by
  rintro ⟨xkb', changes', hrun, h⟩
  cases hrun
  have hkept := congrArg KeyEntry.modmap (h.kept 9 (by decide))
  exact absurd hkept (by decide)

end Xenia.Xext.Xkb
