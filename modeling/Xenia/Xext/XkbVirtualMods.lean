import Xenia.Xext.XkbKeycodeRange

/-!
# Virtual modifiers

A modifier mask is made of real modifiers and of what is bound to the virtual modifiers with it. When bindings
change, `XkbApplyVirtualModChanges` computes the masks anew, for each kind of object in a loop of its own. The
action `ISOLock` is passed over unless virtual modifier 0 has changed, and so are the entries of a type that
does not mention a changed modifier itself. `XkbApplyVirtualModChanges_resolved_iff` says when all masks are
right in the end.
-/

namespace Xenia.Xext.Xkb

open Xenia.Lib List Option Function BitVec

variable {xkb : XkbDescRec} {server : XkbServerMapRec} {map : XkbClientMapRec} {changed : BitVec 16}

/-! ### The operation -/

def XkbNumVirtualMods : ℕ := 16
def XkbNumIndicators : ℕ := 32
def XkbInternalModsMask : BitVec 32 := 1 <<< 28
def XkbIgnoreLockModsMask : BitVec 32 := 1 <<< 29

def XkbSA_NoAction : ℕ := 0x00
def XkbSA_SetMods : ℕ := 0x01
def XkbSA_LatchMods : ℕ := 0x02
def XkbSA_LockMods : ℕ := 0x03
def XkbSA_ISOLock : ℕ := 0x0b

/-- The mask that is returned. -/
def XkbVirtualModsToReal (server : XkbServerMapRec) (virtual_mask : BitVec 16) : BitVec 8 :=
  if virtual_mask = 0 then 0
  else (List.range XkbNumVirtualMods).foldl
    (fun mask i => if virtual_mask.getLsbD i then mask ||| server.vmods i else mask) 0

/-- `XkbModActionVMods` of `act.mods`. -/
def XkbAction.modVMods (act : XkbAction) : BitVec 16 := act.b4 ++ act.b5

/-- `XkbModActionVMods` of `act.iso`. -/
def XkbAction.isoVMods (act : XkbAction) : BitVec 16 := act.b6 ++ act.b7

def XkbUpdateActionVirtualMods (server : XkbServerMapRec) (act : XkbAction) (changed : BitVec 16) : XkbAction × Bool :=
  if act.type = XkbSA_SetMods ∨ act.type = XkbSA_LatchMods ∨ act.type = XkbSA_LockMods then
    if act.modVMods &&& changed ≠ 0 then
      ({ act with mask := act.real_mods ||| XkbVirtualModsToReal server act.modVMods }, true)
    else (act, false)
  else if act.type = XkbSA_ISOLock then
    -- the comparison with 0 comes before the test against `changed`
    if (if act.isoVMods ≠ 0 then 1 else 0) &&& changed ≠ 0 then
      ({ act with mask := act.real_mods ||| XkbVirtualModsToReal server act.isoVMods }, true)
    else (act, false)
  else (act, false)

def updateEntry (server : XkbServerMapRec) (entry : XkbKTMapEntryRec) : XkbKTMapEntryRec :=
  if entry.mods.vmods ≠ 0 then
    let mask := XkbVirtualModsToReal server entry.mods.vmods
    { entry with mods := { entry.mods with mask := entry.mods.real_mods ||| mask }, active := mask ≠ 0 }
  else { entry with active := true }

/-- The type is put into the range of changed types. -/
def reportType (map : XkbClientMapRec) (type_ndx : ℕ) (changes : XkbChangesRec) : XkbChangesRec :=
  if type_ndx > map.num_types then changes
  else if changes.map.changed &&& XkbKeyTypesMask ≠ 0 then
    let types := changes.map.types
    let last : ℤ := types.first + types.num - 1
    if type_ndx < types.first then
      { changes with map := { changes.map with types := ⟨type_ndx, ((last - type_ndx + 1) % 256).toNat⟩ } }
    else if type_ndx > last then
      { changes with map := { changes.map with types := ⟨types.first, (type_ndx - types.first + 1) % 256⟩ } }
    else changes
  else
    { changes with map := { changes.map with changed := changes.map.changed ||| XkbKeyTypesMask, types := ⟨type_ndx, 1⟩ } }

def XkbUpdateKeyTypeVirtualMods (server : XkbServerMapRec) (type : XkbKeyTypeRec) : Outcome XkbKeyTypeRec := do
  let mods := { type.mods with mask := type.mods.real_mods ||| XkbVirtualModsToReal server type.mods.vmods }
  if type.map_count > 0 ∧ type.mods.vmods ≠ 0 then
    let entries ← deref type.map
    if entries.length < type.map_count then throw .fault
    let entries := (entries.take type.map_count).map (updateEntry server) ++ entries.drop type.map_count
    return { type with mods, map := some entries }
  else return { type with mods }

/-- `changes` and `checkState`. -/
structure ModReport where
  changes : Option XkbChangesRec
  checkState : Bool := false

/-- `if (changes) { …; checkState = TRUE; }`. -/
def ModReport.note (r : ModReport) (f : XkbChangesRec → XkbChangesRec) : ModReport :=
  match r.changes with
  | none => r
  | some changes => { changes := some (f changes), checkState := true }

def updateTypes (server : XkbServerMapRec) (map : XkbClientMapRec) (changed : BitVec 16) :
    List ℕ → List XkbKeyTypeRec × ModReport → Outcome (List XkbKeyTypeRec × ModReport)
  | [], out => .ok out
  | i :: is, (types, r) => do
    let type ← deref types[i]?
    if type.mods.vmods &&& changed ≠ 0 then
      let type ← XkbUpdateKeyTypeVirtualMods server type
      updateTypes server map changed is (types.set i type, { r with changes := r.changes.map (reportType map i) })
    else updateTypes server map changed is (types, r)

/-- A mask is computed anew, and reported if it has changed. -/
def refreshMods (server : XkbServerMapRec) (f : XkbChangesRec → XkbChangesRec) (m : XkbModsRec) (r : ModReport) :
    XkbModsRec × ModReport :=
  let newMask := XkbVirtualModsToReal server m.vmods ||| m.real_mods
  if m.mask ≠ newMask then ({ m with mask := newMask }, r.note f) else (m, r)

def refreshIf (server : XkbServerMapRec) (f : XkbChangesRec → XkbChangesRec) (changed : BitVec 16) (m : XkbModsRec)
    (r : ModReport) : XkbModsRec × ModReport :=
  if changed &&& m.vmods ≠ 0 then refreshMods server f m r else (m, r)

def updateCtrls (server : XkbServerMapRec) (changed : BitVec 16) (ctrls : XkbControlsRec) (r : ModReport) :
    XkbControlsRec × ModReport :=
  let (internal, r) := refreshIf server (fun c => { c with changed_ctrls := c.changed_ctrls ||| XkbInternalModsMask })
    changed ctrls.internal r
  let (ignore_lock, r) := refreshIf server (fun c => { c with changed_ctrls := c.changed_ctrls ||| XkbIgnoreLockModsMask })
    changed ctrls.ignore_lock r
  ({ ctrls with internal, ignore_lock }, r)

/-- `refresh` goes through an array of masks. -/
def updateEach (refresh : ℕ → XkbModsRec → ModReport → XkbModsRec × ModReport) :
    List ℕ → (ℕ → XkbModsRec) × ModReport → (ℕ → XkbModsRec) × ModReport
  | [], out => out
  | i :: is, (maps, r) =>
    let (m, r) := refresh i (maps i) r
    updateEach refresh is (Function.update maps i m, r)

def updateIndicators (server : XkbServerMapRec) (changed : BitVec 16) (maps : ℕ → XkbModsRec) (r : ModReport) :
    (ℕ → XkbModsRec) × ModReport :=
  updateEach (fun i => refreshIf server (fun c => { c with map_changes := c.map_changes ||| 1 <<< i }) changed)
    (List.range XkbNumIndicators) (maps, r)

/-- The groups are not asked whether they mention a changed modifier. -/
def updateGroups (server : XkbServerMapRec) (groups : ℕ → XkbModsRec) (r : ModReport) : (ℕ → XkbModsRec) × ModReport :=
  updateEach (fun i => refreshMods server fun c => { c with changed_groups := c.changed_groups ||| 1 <<< i })
    (List.range XkbNumKbdGroups) (groups, r)

/-- The actions at `ps`, and whether one was updated. -/
def updateActions (server : XkbServerMapRec) (changed : BitVec 16) :
    List ℕ → List XkbAction × Bool → Outcome (List XkbAction × Bool)
  | [], out => .ok out
  | p :: ps, (acts, any) => do
    let act ← deref acts[p]?
    if act.type ≠ XkbSA_NoAction ∧ (XkbUpdateActionVirtualMods server act changed).2 then
      updateActions server changed ps (acts.set p (XkbUpdateActionVirtualMods server act changed).1, true)
    else updateActions server changed ps (acts, any)

/-- Where the actions of a key are. -/
def actionPlaces (m : ℕ → XkbSymMapRec) (key_acts : ℕ → ℕ) (key : ℕ) : List ℕ :=
  if key_acts key ≠ 0 then List.range' (key_acts key) (m key).numSyms else []

/-- `lowChange` and `highChange` are the first and last key with an updated action. -/
def updateKeys (server : XkbServerMapRec) (m : ℕ → XkbSymMapRec) (key_acts : ℕ → ℕ) (changed : BitVec 16) :
    List ℕ → List XkbAction × Option (ℕ × ℕ) → Outcome (List XkbAction × Option (ℕ × ℕ))
  | [], out => .ok out
  | key :: keys, (acts, range) => do
    let (acts, any) ← updateActions server changed (actionPlaces m key_acts key) (acts, false)
    let range := if any then some ((range.map Prod.fst).getD key, key) else range
    updateKeys server m key_acts changed keys (acts, range)

def reportActions (range : ℕ × ℕ) (changes : XkbChangesRec) : XkbChangesRec :=
  let acts := changes.map.key_acts
  let (low, high) :=
    if changes.map.changed &&& XkbKeyActionsMask ≠ 0 then
      (min range.1 acts.first, max range.2 (acts.first + acts.num - 1))
    else range
  { changes with map := { changes.map with changed := changes.map.changed ||| XkbKeyActionsMask,
                                           key_acts := ⟨low % 256, (high - low + 1) % 256⟩ } }

def XkbApplyVirtualModChanges (xkb : Option XkbDescRec) (changed : BitVec 16) (changes : Option XkbChangesRec) :
    Outcome (Option XkbDescRec × ModReport) :=
  match xkb with
  | none => .ok (none, { changes })
  | some xkb =>
    match xkb.map with
    | none => .ok (some xkb, { changes })
    | some map =>
      if changed = 0 then .ok (some xkb, { changes })
      else do
        let server := xkb.server.getD {}
        let (types, r) ← updateTypes server map changed (List.range map.num_types) (map.types.getD [], { changes })
        let ctrls ← deref xkb.ctrls
        let (ctrls, r) := updateCtrls server changed ctrls r
        let (indicators, r) := match xkb.indicators with
          | none => (none, r)
          | some maps => let (maps, r) := updateIndicators server changed maps r; (some maps, r)
        let (compat, r) := match xkb.compat with
          | none => (none, r)
          | some compat => let (groups, r) := updateGroups server compat.groups r; (some { compat with groups }, r)
        let desc := { xkb with map := some { map with types := map.types.map fun _ => types }, ctrls := some ctrls,
                               indicators, compat }
        match xkb.server with
        | none => return (some desc, r)
        | some server => do
          let m ← deref map.key_sym_map
          let key_acts ← deref server.key_acts
          let (acts, range) ← updateKeys server m key_acts changed xkb.keys (server.acts.getD [], none)
          let r := match range with
            | none => r
            | some range => { r with changes := if range.1 > 0 then r.changes.map (reportActions range) else r.changes }
          return (some { desc with server := some { server with acts := server.acts.map fun _ => acts } }, r)

/-! ### Masks -/

/-- The mask is made of the real modifiers and of what is bound to the virtual ones. -/
def XkbModsRec.Bound (server : XkbServerMapRec) (m : XkbModsRec) : Prop :=
  m.mask = m.real_mods ||| XkbVirtualModsToReal server m.vmods

/-- The same for the actions that have a mask. -/
structure XkbAction.Bound (server : XkbServerMapRec) (act : XkbAction) : Prop where
  mods : act.type = XkbSA_SetMods ∨ act.type = XkbSA_LatchMods ∨ act.type = XkbSA_LockMods →
    act.mask = act.real_mods ||| XkbVirtualModsToReal server act.modVMods
  iso : act.type = XkbSA_ISOLock → act.mask = act.real_mods ||| XkbVirtualModsToReal server act.isoVMods

/-- Where the actions of the keys are. -/
def XkbDescRec.actionPlaces (xkb : XkbDescRec) (map : XkbClientMapRec) (server : XkbServerMapRec) : List ℕ :=
  xkb.keys.flatMap (Xkb.actionPlaces (map.key_sym_map.getD fun _ => {}) (server.key_acts.getD fun _ => 0))

/-- The types in use. -/
def XkbClientMapRec.usedTypes (map : XkbClientMapRec) : List XkbKeyTypeRec := (map.types.getD []).take map.num_types

def XkbKeyTypeRec.usedEntries (type : XkbKeyTypeRec) : List XkbKTMapEntryRec := (type.map.getD []).take type.map_count

/-- Every modifier mask of the description is made of its real modifiers and of the real bindings of its virtual ones. -/
structure ModsBound (xkb : XkbDescRec) (map : XkbClientMapRec) (server : XkbServerMapRec) : Prop where
  types : ∀ type ∈ map.usedTypes, type.mods.Bound server
  entries : ∀ type ∈ map.usedTypes, ∀ entry ∈ type.usedEntries, entry.mods.Bound server
  ctrls : ∀ ctrls, xkb.ctrls = some ctrls → ctrls.internal.Bound server ∧ ctrls.ignore_lock.Bound server
  indicators : ∀ maps, xkb.indicators = some maps → ∀ i < XkbNumIndicators, (maps i).Bound server
  groups : ∀ compat, xkb.compat = some compat → ∀ i < XkbNumKbdGroups, (compat.groups i).Bound server
  actions : ∀ p ∈ xkb.actionPlaces map server, ∀ act, (server.acts.getD [])[p]? = some act → act.Bound server

/-- What is passed over although it mentions a changed modifier has the right mask in any case. -/
structure PassedOver (xkb : XkbDescRec) (map : XkbClientMapRec) (server : XkbServerMapRec) (changed : BitVec 16) : Prop where
  entries : ∀ type ∈ map.usedTypes, type.mods.vmods &&& changed = 0 → ∀ entry ∈ type.usedEntries,
    entry.mods.vmods &&& changed ≠ 0 → entry.mods.Bound server
  isoLocks : changed.getLsbD 0 = false → ∀ p ∈ xkb.actionPlaces map server, ∀ act, (server.acts.getD [])[p]? = some act →
    act.type = XkbSA_ISOLock → act.isoVMods &&& changed ≠ 0 → act.Bound server

/-- The arrays are there and long enough for what is in use of them. -/
structure ModsReadable (xkb : XkbDescRec) (map : XkbClientMapRec) (server : XkbServerMapRec) : Prop where
  ctrls : xkb.ctrls.isSome
  key_sym_map : map.key_sym_map.isSome
  key_acts : server.key_acts.isSome
  types : map.num_types ≤ (map.types.getD []).length
  entries : ∀ type ∈ map.usedTypes, type.map_count ≤ (type.map.getD []).length
  acts : ∀ p ∈ xkb.actionPlaces map server, p < (server.acts.getD []).length

/-- The bindings of the modifiers that have not changed are the same. -/
def SameBindings (changed : BitVec 16) (old new : ℕ → BitVec 8) : Prop :=
  ∀ i < XkbNumVirtualMods, changed.getLsbD i = false → new i = old i

variable {server' : XkbServerMapRec} {vm : BitVec 16} {m : XkbModsRec} {act : XkbAction}

theorem getLsbD_of_and_eq_zero {a b : BitVec 16} (h : a &&& b = 0) (i : ℕ) (hi : a.getLsbD i = true) : b.getLsbD i = false := by
  have hbit : (a &&& b).getLsbD i = false := by rw [h]; exact getLsbD_zero
  rw [getLsbD_and, hi] at hbit
  exact hbit

/-- What mentions no changed modifier comes to the same real modifiers. -/
theorem virtualModsToReal_congr (hsame : SameBindings changed server.vmods server'.vmods) (h : vm &&& changed = 0) :
    XkbVirtualModsToReal server' vm = XkbVirtualModsToReal server vm := by
  have hfold : ∀ (is : List ℕ) (mask : BitVec 8), (∀ i ∈ is, i < XkbNumVirtualMods) →
      is.foldl (fun mask i => if vm.getLsbD i then mask ||| server'.vmods i else mask) mask =
        is.foldl (fun mask i => if vm.getLsbD i then mask ||| server.vmods i else mask) mask := by
    intro is
    induction is with
    | nil => exact fun _ _ => rfl
    | cons i is ih =>
      intro mask his
      rw [foldl_cons, foldl_cons, ih _ fun j hj => his j (.tail _ hj)]
      congr 1
      split
      · rename_i hbit
        rw [hsame i (his i mem_cons_self) (getLsbD_of_and_eq_zero h i hbit)]
      · rfl
  unfold XkbVirtualModsToReal
  rw [hfold _ _ fun i hi => mem_range.1 hi]

theorem XkbModsRec.Bound.kept (hm : m.Bound server) (hsame : SameBindings changed server.vmods server'.vmods)
    (h : m.vmods &&& changed = 0) : m.Bound server' := by
  unfold XkbModsRec.Bound
  rw [virtualModsToReal_congr hsame h]
  exact hm

/-- The modifiers with their mask computed anew. -/
def XkbModsRec.bind (server : XkbServerMapRec) (m : XkbModsRec) : XkbModsRec :=
  { m with mask := m.real_mods ||| XkbVirtualModsToReal server m.vmods }

theorem XkbModsRec.bind_bound (server : XkbServerMapRec) (m : XkbModsRec) : (m.bind server).Bound server := rfl

theorem refreshMods_fst (f : XkbChangesRec → XkbChangesRec) (m : XkbModsRec) (r : ModReport) :
    (refreshMods server f m r).1 = m.bind server := by
  unfold refreshMods XkbModsRec.bind
  simp only [or_comm m.real_mods]
  split
  · rfl
  · rename_i heq
    rw [← not_ne_iff.1 heq]

theorem refreshIf_fst (f : XkbChangesRec → XkbChangesRec) (m : XkbModsRec) (r : ModReport) :
    (refreshIf server f changed m r).1 = if changed &&& m.vmods ≠ 0 then m.bind server else m := by
  unfold refreshIf
  split
  · exact refreshMods_fst f m r
  · rfl

/-- A mask that is computed anew if it mentions a changed modifier is right. -/
theorem bound_refreshed (hm : m.Bound server) (hsame : SameBindings changed server.vmods server'.vmods) :
    (if changed &&& m.vmods ≠ 0 then m.bind server' else m).Bound server' := by
  split
  · exact m.bind_bound server'
  · rename_i h
    rw [BitVec.and_comm] at h
    exact hm.kept hsame (not_ne_iff.1 h)

theorem updateEach_spec (refresh : ℕ → XkbModsRec → ModReport → XkbModsRec × ModReport) (g : XkbModsRec → XkbModsRec)
    (hg : ∀ i m r, (refresh i m r).1 = g m) (is : List ℕ) (hnodup : is.Nodup) (maps : ℕ → XkbModsRec) (r : ModReport) (i : ℕ) :
    (updateEach refresh is (maps, r)).1 i = if i ∈ is then g (maps i) else maps i := by
  induction is generalizing maps r with
  | nil => rfl
  | cons j is ih =>
    obtain ⟨hj, hnodup⟩ := nodup_cons.1 hnodup
    have hstep : (updateEach refresh (j :: is) (maps, r)).1 i =
        (updateEach refresh is (update maps j (g (maps j)), (refresh j (maps j) r).2)).1 i := by
      rw [← hg j (maps j) r]
      rfl
    rw [hstep, ih hnodup, update_apply]
    by_cases hij : i = j
    · subst hij
      rw [if_neg hj, if_pos rfl, if_pos mem_cons_self]
    · rw [if_neg hij]
      simp only [mem_cons, hij, false_or]

/-! ### Types -/

variable {type : XkbKeyTypeRec} {types : List XkbKeyTypeRec} {i p n : ℕ} {is ps keys : List ℕ} {acts : List XkbAction}

/-- What becomes of a type. -/
def updatedType (server : XkbServerMapRec) (changed : BitVec 16) (type : XkbKeyTypeRec) : XkbKeyTypeRec :=
  if type.mods.vmods &&& changed ≠ 0 then
    { type with mods := type.mods.bind server,
                map := if type.map_count > 0 then
                  some (type.usedEntries.map (updateEntry server) ++ (type.map.getD []).drop type.map_count)
                else type.map }
  else type

theorem XkbUpdateKeyTypeVirtualMods_spec (h : type.mods.vmods &&& changed ≠ 0)
    (hlen : type.map_count ≤ (type.map.getD []).length) :
    XkbUpdateKeyTypeVirtualMods server type = .ok (updatedType server changed type) := by
  have hvmods : type.mods.vmods ≠ 0 := by
    rintro hzero
    rw [hzero] at h
    exact h zero_and
  unfold XkbUpdateKeyTypeVirtualMods updatedType
  split
  · rename_i hcond
    cases hmap : type.map with
    | none =>
      rw [hmap] at hlen
      exact absurd hlen (not_le.2 hcond.1)
    | some entries =>
      rw [hmap] at hlen
      change type.map_count ≤ entries.length at hlen
      rw [deref_some, ok_bind, if_neg (not_lt.2 hlen), if_pos hcond.1]
      unfold XkbKeyTypeRec.usedEntries
      rw [hmap]
      rfl
  · rename_i hcond
    rw [if_neg fun hpos => hcond ⟨hpos, hvmods⟩]
    rfl

theorem updateTypes_spec (server : XkbServerMapRec) (map : XkbClientMapRec) (changed : BitVec 16) (is : List ℕ)
    (types : List XkbKeyTypeRec) (hnodup : is.Nodup) (hin : ∀ i ∈ is, i < types.length)
    (hentries : ∀ i ∈ is, ∀ type, types[i]? = some type → type.map_count ≤ (type.map.getD []).length) (r : ModReport) :
    ∃ types' r', updateTypes server map changed is (types, r) = .ok (types', r') ∧
      ∀ i, types'[i]? = if i ∈ is then types[i]?.map (updatedType server changed) else types[i]? := by
  induction is generalizing types r with
  | nil => exact ⟨types, r, rfl, fun i => rfl⟩
  | cons j is ih =>
    obtain ⟨hj, hnodup⟩ := nodup_cons.1 hnodup
    have hlt : j < types.length := hin j mem_cons_self
    have hget : types[j]? = some types[j] := getElem?_eq_getElem hlt
    -- the type at `j` is read once more only for another index
    have hother : ∀ type i, i ∈ is → (types.set j type)[i]? = types[i]? := by
      intro type i hi
      have hij : j ≠ i := fun h => hj (h ▸ hi)
      exact getElem?_set_ne hij
    have hrun : ∃ r₁, updateTypes server map changed (j :: is) (types, r) =
        updateTypes server map changed is (types.set j (updatedType server changed types[j]), r₁) := by
      rw [updateTypes, hget, deref_some, ok_bind]
      split
      · rename_i h
        rw [XkbUpdateKeyTypeVirtualMods_spec h (hentries j mem_cons_self _ hget)]
        exact ⟨_, rfl⟩
      · rename_i h
        refine ⟨r, ?_⟩
        unfold updatedType
        rw [if_neg h, set_getElem_self]
    obtain ⟨r₁, hrun⟩ := hrun
    obtain ⟨types', r', hrun', h'⟩ := ih (types.set j (updatedType server changed types[j])) hnodup
      (fun i hi => by rw [length_set]; exact hin i (.tail _ hi))
      (fun i hi type htype => by
        rw [hother _ i hi] at htype
        exact hentries i (.tail _ hi) type htype) r₁
    refine ⟨types', r', hrun.trans hrun', fun i => ?_⟩
    rw [h']
    by_cases hij : i = j
    · subst hij
      rw [if_neg hj, if_pos mem_cons_self, getElem?_set_self hlt, hget]
      rfl
    · simp only [mem_cons, hij, false_or, getElem?_set_ne (Ne.symm hij)]

/-! ### Actions -/

/-- What becomes of an action. -/
def updatedAction (server : XkbServerMapRec) (changed : BitVec 16) (act : XkbAction) : XkbAction :=
  (XkbUpdateActionVirtualMods server act changed).1

theorem updatedAction_idem (server : XkbServerMapRec) (changed : BitVec 16) (act : XkbAction) :
    updatedAction server changed (updatedAction server changed act) = updatedAction server changed act := by
  unfold updatedAction XkbUpdateActionVirtualMods XkbAction.modVMods XkbAction.isoVMods
  split_ifs <;> simp_all

/-- What is not reported as updated is the same. -/
theorem updatedAction_eq (h : ¬(act.type ≠ XkbSA_NoAction ∧ (XkbUpdateActionVirtualMods server act changed).2)) :
    updatedAction server changed act = act := by
  unfold updatedAction
  unfold XkbUpdateActionVirtualMods XkbSA_NoAction XkbSA_SetMods XkbSA_LatchMods XkbSA_LockMods XkbSA_ISOLock at *
  split_ifs at h ⊢ <;> simp_all

theorem updateActions_spec (server : XkbServerMapRec) (changed : BitVec 16) (ps : List ℕ) (acts : List XkbAction)
    (hin : ∀ p ∈ ps, p < acts.length) (any : Bool) :
    ∃ acts' any', updateActions server changed ps (acts, any) = .ok (acts', any') ∧ acts'.length = acts.length ∧
      ∀ p, acts'[p]? = if p ∈ ps then acts[p]?.map (updatedAction server changed) else acts[p]? := by
  induction ps generalizing acts any with
  | nil => exact ⟨acts, any, rfl, rfl, fun p => rfl⟩
  | cons j ps ih =>
    have hlt : j < acts.length := hin j mem_cons_self
    have hget : acts[j]? = some acts[j] := getElem?_eq_getElem hlt
    have hrun : ∃ any₁, updateActions server changed (j :: ps) (acts, any) =
        updateActions server changed ps (acts.set j (updatedAction server changed acts[j]), any₁) := by
      rw [updateActions, hget, deref_some, ok_bind]
      split
      · exact ⟨true, rfl⟩
      · rename_i h
        refine ⟨any, ?_⟩
        rw [updatedAction_eq h, set_getElem_self]
    obtain ⟨any₁, hrun⟩ := hrun
    obtain ⟨acts', any', hrun', hlen, h'⟩ := ih (acts.set j (updatedAction server changed acts[j]))
      (fun p hp => by rw [length_set]; exact hin p (.tail _ hp)) any₁
    refine ⟨acts', any', hrun.trans hrun', hlen.trans length_set, fun p => ?_⟩
    rw [h']
    by_cases hpj : p = j
    · -- updating an action twice is updating it once
      subst hpj
      rw [if_pos mem_cons_self, getElem?_set_self hlt, hget, map_some, map_some, updatedAction_idem,
        ite_self]
    · simp only [mem_cons, hpj, false_or, getElem?_set_ne (Ne.symm hpj)]

theorem updateKeys_spec (server : XkbServerMapRec) {m : ℕ → XkbSymMapRec} {key_acts : ℕ → ℕ} (changed : BitVec 16)
    (keys : List ℕ) (acts : List XkbAction)
    (hin : ∀ p ∈ keys.flatMap (actionPlaces m key_acts), p < acts.length) (range : Option (ℕ × ℕ)) :
    ∃ acts' range', updateKeys server m key_acts changed keys (acts, range) = .ok (acts', range') ∧
      acts'.length = acts.length ∧ ∀ p, acts'[p]? =
        if p ∈ keys.flatMap (actionPlaces m key_acts) then acts[p]?.map (updatedAction server changed) else acts[p]? := by
  induction keys generalizing acts range with
  | nil => exact ⟨acts, range, rfl, rfl, fun p => rfl⟩
  | cons key keys ih =>
    rw [flatMap_cons] at hin ⊢
    obtain ⟨a₁, any, hrun₁, hlen₁, h₁⟩ := updateActions_spec server changed _ acts
      (fun p hp => hin p (mem_append_left _ hp)) false
    obtain ⟨acts', range', hrun, hlen, h'⟩ := ih a₁
      (fun p hp => by rw [hlen₁]; exact hin p (mem_append_right _ hp))
      (if any then some ((range.map Prod.fst).getD key, key) else range)
    refine ⟨acts', range', ?_, hlen.trans hlen₁, fun p => ?_⟩
    · rw [updateKeys, hrun₁]
      exact hrun
    · rw [h', h₁]
      by_cases hkey : p ∈ actionPlaces m key_acts key
      · rw [if_pos hkey, if_pos (List.mem_append_left _ hkey), Option.map_map]
        simp only [comp_def, updatedAction_idem, ite_self]
      · simp only [mem_append, hkey, false_or, if_false]

/-! ### The whole pass -/

theorem one_and_eq_zero (changed : BitVec 16) : 1 &&& changed = 0 ↔ changed.getLsbD 0 = false := by
  constructor
  · intro h
    exact getLsbD_of_and_eq_zero h 0 (by decide)
  · intro h
    apply eq_of_getLsbD_eq
    intro i hi
    rw [getLsbD_and, show (0 : BitVec 16).getLsbD i = false from getLsbD_zero]
    cases i with
    | zero => rw [h, Bool.and_false]
    | succ i =>
      simp

theorem updateEntry_bound {entry : XkbKTMapEntryRec} (he : entry.mods.Bound server)
    (hsame : SameBindings changed server.vmods server'.vmods) : (updateEntry server' entry).mods.Bound server' := by
  unfold updateEntry
  split
  · exact entry.mods.bind_bound server'
  · rename_i hzero
    apply he.kept hsame
    rw [not_ne_iff.1 hzero]
    exact zero_and

/-- The entries of a type that is updated are updated with it. -/
theorem usedEntries_updated (h : type.mods.vmods &&& changed ≠ 0) (hlen : type.map_count ≤ (type.map.getD []).length) :
    (updatedType server changed type).usedEntries = type.usedEntries.map (updateEntry server) := by
  unfold updatedType
  rw [if_pos h]
  unfold XkbKeyTypeRec.usedEntries
  split
  · rw [getD_some, take_left']
    rw [length_map, length_take, min_eq_left hlen]
  · rename_i hzero
    rw [show type.map_count = 0 by omega]
    rfl

theorem updatedType_eq (h : type.mods.vmods &&& changed = 0) : updatedType server changed type = type := if_neg (not_ne_iff.2 h)

theorem XkbAction.Bound.kept (h : act.Bound server) (hsame : SameBindings changed server.vmods server'.vmods)
    (hmods : act.modVMods &&& changed = 0) (hiso : act.isoVMods &&& changed = 0) : act.Bound server' := by
  refine ⟨fun htype => ?_, fun htype => ?_⟩
  · rw [virtualModsToReal_congr hsame hmods]
    exact h.mods htype
  · rw [virtualModsToReal_congr hsame hiso]
    exact h.iso htype

/-- An action is right afterwards, if it is right where it is passed over. -/
theorem updatedAction_bound (hact : act.Bound server) (hsame : SameBindings changed server.vmods server'.vmods)
    (hiso : act.type = XkbSA_ISOLock → changed.getLsbD 0 = false → act.isoVMods &&& changed ≠ 0 → act.Bound server') :
    (updatedAction server' changed act).Bound server' := by
  unfold updatedAction XkbUpdateActionVirtualMods
  split
  · rename_i htype
    have hnotiso : act.type ≠ XkbSA_ISOLock := by
      rintro heq
      rw [heq] at htype
      exact absurd htype (by decide)
    split
    · exact ⟨fun _ => rfl, fun h => absurd h hnotiso⟩
    · rename_i h
      refine ⟨fun _ => ?_, fun h => absurd h hnotiso⟩
      rw [virtualModsToReal_congr hsame (not_ne_iff.1 h)]
      exact hact.mods htype
  · rename_i htype
    split
    · rename_i heq
      by_cases h : (if act.isoVMods ≠ 0 then (1 : BitVec 16) else 0) &&& changed ≠ 0
      · rw [if_pos h]
        exact ⟨fun h => absurd h htype, fun _ => rfl⟩
      · rw [if_neg h]
        by_cases hmention : act.isoVMods &&& changed = 0
        · refine ⟨fun h => absurd h htype, fun _ => ?_⟩
          rw [virtualModsToReal_congr hsame hmention]
          exact hact.iso heq
        · -- modifier 0 has not changed
          have hvmods : act.isoVMods ≠ 0 := by
            intro hzero
            rw [hzero] at hmention
            exact hmention zero_and
          rw [if_pos hvmods] at h
          exact hiso heq ((one_and_eq_zero changed).1 (not_ne_iff.1 h)) hmention
    · rename_i hnotiso
      exact ⟨fun h => absurd h htype, fun h => absurd h hnotiso⟩

/-- An `ISOLock` is passed over where modifier 0 has not changed. -/
theorem updatedAction_iso (htype : act.type = XkbSA_ISOLock) (h : changed.getLsbD 0 = false) :
    updatedAction server changed act = act := by
  unfold updatedAction XkbUpdateActionVirtualMods
  have hzero : (if act.isoVMods ≠ 0 then (1 : BitVec 16) else 0) &&& changed = 0 := by
    split
    · exact (one_and_eq_zero changed).2 h
    · exact zero_and
  rw [if_neg (by rw [htype]; decide), if_pos htype, if_neg (not_ne_iff.2 hzero)]

/-- What is left after the pass. -/
structure Applied (xkb xkb' : XkbDescRec) (map map' : XkbClientMapRec) (server server' : XkbServerMapRec)
    (changed : BitVec 16) : Prop where
  hasMap : xkb'.map = some map'
  hasServer : xkb'.server = some server'
  types : map'.usedTypes = map.usedTypes.map (updatedType server changed)
  ctrls : ∀ ctrls', xkb'.ctrls = some ctrls' → ∃ ctrls, xkb.ctrls = some ctrls ∧
    ctrls'.internal = (if changed &&& ctrls.internal.vmods ≠ 0 then ctrls.internal.bind server else ctrls.internal) ∧
    ctrls'.ignore_lock = if changed &&& ctrls.ignore_lock.vmods ≠ 0 then ctrls.ignore_lock.bind server else ctrls.ignore_lock
  indicators : ∀ maps', xkb'.indicators = some maps' → ∃ maps, xkb.indicators = some maps ∧
    ∀ i < XkbNumIndicators, maps' i = if changed &&& (maps i).vmods ≠ 0 then (maps i).bind server else maps i
  groups : ∀ compat', xkb'.compat = some compat' → ∃ compat, xkb.compat = some compat ∧
    ∀ i < XkbNumKbdGroups, compat'.groups i = (compat.groups i).bind server
  places : xkb'.actionPlaces map' server' = xkb.actionPlaces map server
  vmods : server'.vmods = server.vmods
  acts : ∀ p ∈ xkb.actionPlaces map server,
    (server'.acts.getD [])[p]? = (server.acts.getD [])[p]?.map (updatedAction server changed)

theorem updatedTypes_used {types' : List XkbKeyTypeRec}
    (h : ∀ i, types'[i]? = if i ∈ range n then types[i]?.map (updatedType server changed) else types[i]?) :
    types'.take n = (types.take n).map (updatedType server changed) := by
  apply ext_getElem?
  intro i
  rw [getElem?_take, getElem?_map, getElem?_take]
  split
  · rename_i hi
    rw [h, if_pos (mem_range.2 hi)]
  · rfl

theorem apply_spec (hmap : xkb.map = some map) (hserver : xkb.server = some server) (hread : ModsReadable xkb map server)
    (hchanged : changed ≠ 0) (changes : Option XkbChangesRec) :
    ∃ xkb' map' server' r, XkbApplyVirtualModChanges (some xkb) changed changes = .ok (some xkb', r) ∧
      Applied xkb xkb' map map' server server' changed := by
  obtain ⟨ctrls, hctrls⟩ := isSome_iff_exists.1 hread.ctrls
  obtain ⟨m, hm⟩ := isSome_iff_exists.1 hread.key_sym_map
  obtain ⟨key_acts, ha⟩ := isSome_iff_exists.1 hread.key_acts
  have hused : ∀ i ∈ range map.num_types, ∀ type, (map.types.getD [])[i]? = some type →
      type.map_count ≤ (type.map.getD []).length := by
    intro i hi type htype
    apply hread.entries
    apply mem_of_getElem? (i := i)
    unfold XkbClientMapRec.usedTypes
    rw [getElem?_take, if_pos (mem_range.1 hi)]
    exact htype
  obtain ⟨types', r₁, hrun₁, htypes⟩ := updateTypes_spec server map changed _ (map.types.getD [])
    nodup_range (fun i hi => lt_of_lt_of_le (mem_range.1 hi) hread.types) hused { changes }
  have hacts := hread.acts
  unfold XkbDescRec.actionPlaces at hacts
  rw [hm, ha, getD_some, getD_some] at hacts
  obtain ⟨acts', range', hrun₂, hlen, hacts'⟩ := updateKeys_spec server changed _ _ hacts none
  unfold XkbApplyVirtualModChanges
  simp only [hmap, if_neg hchanged, hserver, getD_some, hrun₁, ok_bind, hctrls, deref_some, hm, ha, hrun₂]
  refine ⟨_, _, _, _, rfl, ⟨rfl, rfl, ?_, ?_, ?_, ?_, ?_, rfl, ?_⟩⟩
  · unfold XkbClientMapRec.usedTypes
    cases hnone : map.types with
    | none =>
      have := hread.types
      rw [hnone] at this
      rw [Nat.le_zero.1 this]
      rfl
    | some types =>
      rw [hnone] at htypes
      exact updatedTypes_used htypes
  · intro ctrls' h
    cases h
    exact ⟨ctrls, hctrls, refreshIf_fst _ _ _, refreshIf_fst _ _ _⟩
  · intro maps' h
    cases hind : xkb.indicators with
    | none =>
      rw [hind] at h
      exact nomatch h
    | some maps =>
      rw [hind] at h
      cases h
      refine ⟨maps, rfl, fun i hi => ?_⟩
      unfold updateIndicators
      rw [updateEach_spec _ (fun m => if changed &&& m.vmods ≠ 0 then m.bind server else m)
        (fun _ _ _ => refreshIf_fst _ _ _) _ nodup_range, if_pos (mem_range.2 hi)]
  · intro compat' h
    cases hcompat : xkb.compat with
    | none =>
      rw [hcompat] at h
      exact nomatch h
    | some compat =>
      rw [hcompat] at h
      cases h
      refine ⟨compat, rfl, fun i hi => ?_⟩
      change (updateGroups server compat.groups _).1 i = _
      unfold updateGroups
      rw [updateEach_spec _ (fun m => m.bind server) (fun _ _ _ => refreshMods_fst _ _ _) _ nodup_range,
        if_pos (mem_range.2 hi)]
  · unfold XkbDescRec.actionPlaces
    simp only [hm, ha]
    rfl
  · intro p hp
    unfold XkbDescRec.actionPlaces at hp
    rw [hm, ha, getD_some, getD_some] at hp
    cases hnone : server.acts with
    | none =>
      have := hacts p hp
      rw [hnone] at this
      exact absurd this (Nat.not_lt_zero p)
    | some acts =>
      have := hacts' p
      rw [if_pos hp, hnone] at this
      exact this

/-- **All masks are right again** exactly if those are that the pass does not touch although they mention a changed
modifier: map entries of a type that mentions none, and `ISOLock` actions where virtual modifier 0 has not changed. -/
theorem XkbApplyVirtualModChanges_resolved_iff (hmap : xkb.map = some map) (hserver : xkb.server = some server)
    (hread : ModsReadable xkb map server) (old : ℕ → BitVec 8) (hold : ModsBound xkb map { server with vmods := old })
    (hsame : SameBindings changed old server.vmods) (changes : Option XkbChangesRec) :
    (∃ xkb' map' server' r, XkbApplyVirtualModChanges (some xkb) changed changes = .ok (some xkb', r) ∧
        xkb'.map = some map' ∧ xkb'.server = some server' ∧ server'.vmods = server.vmods ∧ ModsBound xkb' map' server') ↔
      PassedOver xkb map server changed := by
  have hbind : ∀ m : XkbModsRec, m.Bound { server with vmods := old } → m.vmods &&& changed = 0 → m.Bound server :=
    fun m hm h => hm.kept hsame h
  by_cases hchanged : changed = 0
  · -- nothing has changed, and nothing is done
    have hand : ∀ vm : BitVec 16, vm &&& changed = 0 := fun vm => by rw [hchanged]; exact and_zero
    constructor
    · intro _
      exact ⟨fun _ _ _ _ _ h => absurd (hand _) h, fun _ _ _ _ _ _ h => absurd (hand _) h⟩
    · intro _
      refine ⟨xkb, map, server, { changes }, ?_, hmap, hserver, rfl, ?_⟩
      · unfold XkbApplyVirtualModChanges
        simp only [hmap, if_pos hchanged]
      · exact ⟨fun type ht => hbind _ (hold.types type ht) (hand _),
          fun type ht entry he => hbind _ (hold.entries type ht entry he) (hand _),
          fun c hc => ⟨hbind _ (hold.ctrls c hc).1 (hand _), hbind _ (hold.ctrls c hc).2 (hand _)⟩,
          fun maps hm i hi => hbind _ (hold.indicators maps hm i hi) (hand _),
          fun compat hc i hi => hbind _ (hold.groups compat hc i hi) (hand _),
          fun p hp act hact => (hold.actions p hp act hact).kept hsame (hand _) (hand _)⟩
  · obtain ⟨xkb', map', server', r, hrun, happlied⟩ := apply_spec hmap hserver hread hchanged changes
    have hreal : ∀ vm, XkbVirtualModsToReal server' vm = XkbVirtualModsToReal server vm := by
      intro vm
      unfold XkbVirtualModsToReal
      rw [happlied.vmods]
    constructor
    · rintro ⟨x, m₂, s₂, r₂, hrun₂, hm₂, hs₂, -, hbound⟩
      rw [hrun] at hrun₂
      cases hrun₂
      cases happlied.hasMap.symm.trans hm₂
      cases happlied.hasServer.symm.trans hs₂
      constructor
      · intro type htype hnot entry hentry _
        have hmem : type ∈ map'.usedTypes := by
          rw [happlied.types]
          exact mem_map.2 ⟨type, htype, updatedType_eq hnot⟩
        have := hbound.entries type hmem entry hentry
        unfold XkbModsRec.Bound at ⊢
        rw [this, hreal]
      · intro hzero p hp act hact htype _
        have hsame_act : (server'.acts.getD [])[p]? = some act := by
          rw [happlied.acts p hp, hact, map_some, updatedAction_iso htype hzero]
        have hiso := hbound.actions p (happlied.places ▸ hp) act hsame_act
        exact ⟨fun h => by rw [← hreal]; exact hiso.mods h, fun h => by rw [← hreal]; exact hiso.iso h⟩
    · intro hpassed
      refine ⟨xkb', map', server', r, hrun, happlied.hasMap, happlied.hasServer, happlied.vmods, ?_⟩
      have hto : ∀ m : XkbModsRec, m.Bound server → m.Bound server' := by
        intro m hm
        unfold XkbModsRec.Bound
        rw [hreal]
        exact hm
      refine ⟨fun type' ht => ?_, fun type' ht entry he => ?_, fun c hc => ?_, fun maps hm i hi => ?_, fun compat hc i hi => ?_,
        fun p hp act hact => ?_⟩
      · rw [happlied.types] at ht
        obtain ⟨type, htype, rfl⟩ := mem_map.1 ht
        apply hto
        unfold updatedType
        split
        · exact type.mods.bind_bound server
        · rename_i h
          exact hbind _ (hold.types type htype) (not_ne_iff.1 h)
      · rw [happlied.types] at ht
        obtain ⟨type, htype, rfl⟩ := mem_map.1 ht
        apply hto
        by_cases hmention : type.mods.vmods &&& changed = 0
        · rw [updatedType_eq hmention] at he
          by_cases hentry : entry.mods.vmods &&& changed = 0
          · exact hbind _ (hold.entries type htype entry he) hentry
          · exact hpassed.entries type htype hmention entry he hentry
        · rw [usedEntries_updated hmention (hread.entries type htype)] at he
          obtain ⟨entry', he', rfl⟩ := mem_map.1 he
          exact updateEntry_bound (hold.entries type htype entry' he') hsame
      · obtain ⟨c', hc', hinternal, hignore⟩ := happlied.ctrls c hc
        rw [hinternal, hignore]
        exact ⟨hto _ (bound_refreshed (hold.ctrls c' hc').1 hsame), hto _ (bound_refreshed (hold.ctrls c' hc').2 hsame)⟩
      · obtain ⟨maps', hm', heq⟩ := happlied.indicators maps hm
        rw [heq i hi]
        exact hto _ (bound_refreshed (hold.indicators maps' hm' i hi) hsame)
      · obtain ⟨compat', hc', heq⟩ := happlied.groups compat hc
        rw [heq i hi]
        exact hto _ ((compat'.groups i).bind_bound server)
      · rw [happlied.places] at hp
        rw [happlied.acts p hp] at hact
        obtain ⟨act', hact', rfl⟩ := map_eq_some_iff.1 hact
        have hright := updatedAction_bound (hold.actions p hp act' hact') hsame
          fun htype hzero hmention => hpassed.isoLocks hzero p hp act' hact' htype hmention
        exact ⟨fun h => by rw [hreal]; exact hright.mods h, fun h => by rw [hreal]; exact hright.iso h⟩

/-- One key with one action, and virtual modifier 1 is bound to the modifier 8. -/
def oneActionServer (act : XkbAction) : XkbServerMapRec :=
  { acts := some [{}, act], key_acts := some fun _ => 1, vmods := fun i => if i = 1 then 8 else 0 }

def oneActionMap : XkbClientMapRec := { key_sym_map := some fun _ => { group_info := 1, width := 1 } }

def oneAction (act : XkbAction) : XkbDescRec :=
  { min_key_code := 8, max_key_code := 8, ctrls := some {}, map := some oneActionMap, server := some (oneActionServer act) }

theorem oneAction_readable (act : XkbAction) : ModsReadable (oneAction act) oneActionMap (oneActionServer act) where
  ctrls := rfl
  key_sym_map := rfl
  key_acts := rfl
  types := le_refl 0
  entries := fun type ht => absurd ht not_mem_nil
  acts := fun p hp => by
    rw [mem_singleton.1 (show p ∈ [1] from hp)]
    exact Nat.lt_succ_self 1

theorem XkbModsRec.bound_default (server : XkbServerMapRec) : ({} : XkbModsRec).Bound server := by
  unfold XkbModsRec.Bound XkbVirtualModsToReal
  rw [if_pos rfl]
  rfl

/-- Before virtual modifier 1 was bound, the masks were right. -/
theorem oneAction_bound (h : act.Bound { oneActionServer act with vmods := fun _ => 0 }) :
    ModsBound (oneAction act) oneActionMap { oneActionServer act with vmods := fun _ => 0 } where
  types := fun type ht => absurd ht not_mem_nil
  entries := fun type ht => absurd ht not_mem_nil
  ctrls := fun c hc => by
    cases hc
    exact ⟨XkbModsRec.bound_default _, XkbModsRec.bound_default _⟩
  indicators := fun maps hm => nomatch hm
  groups := fun compat hc => nomatch hc
  actions := fun p hp a ha => by
    rw [mem_singleton.1 (show p ∈ [1] from hp)] at ha
    cases ha
    exact h

theorem oneAction_same (act : XkbAction) : SameBindings 2 (fun _ => 0) (oneActionServer act).vmods := by
  intro i _ hi
  change (if i = 1 then (8 : BitVec 8) else 0) = 0
  rw [if_neg]
  rintro rfl
  exact absurd hi (by decide)

theorem XkbApplyVirtualModChanges_resolved_iff_setMods :
    (∃ xkb' map' server' r,
        XkbApplyVirtualModChanges (some (oneAction { type := XkbSA_SetMods, b5 := 2 })) 2 none = .ok (some xkb', r) ∧
        xkb'.map = some map' ∧ xkb'.server = some server' ∧
        server'.vmods = (oneActionServer { type := XkbSA_SetMods, b5 := 2 }).vmods ∧ ModsBound xkb' map' server') ↔
      PassedOver (oneAction { type := XkbSA_SetMods, b5 := 2 }) oneActionMap (oneActionServer { type := XkbSA_SetMods, b5 := 2 })
        2 :=
  XkbApplyVirtualModChanges_resolved_iff rfl rfl (oneAction_readable _) (fun _ => 0)
    (oneAction_bound ⟨fun _ => rfl, fun _ => rfl⟩) (oneAction_same _) none

/-- An `ISOLock` with virtual modifier 1 keeps the mask it had before the modifier was bound. -/
theorem XkbApplyVirtualModChanges_stale :
    ModsBound (oneAction { type := XkbSA_ISOLock, b7 := 2 }) oneActionMap
        { oneActionServer { type := XkbSA_ISOLock, b7 := 2 } with vmods := fun _ => 0 } ∧
      SameBindings 2 (fun _ => 0) (oneActionServer { type := XkbSA_ISOLock, b7 := 2 }).vmods ∧
      ¬∃ xkb' map' server' r,
        XkbApplyVirtualModChanges (some (oneAction { type := XkbSA_ISOLock, b7 := 2 })) 2 none = .ok (some xkb', r) ∧
        xkb'.map = some map' ∧ xkb'.server = some server' ∧
        server'.vmods = (oneActionServer { type := XkbSA_ISOLock, b7 := 2 }).vmods ∧ ModsBound xkb' map' server' := by
  refine ⟨oneAction_bound ⟨fun _ => rfl, fun _ => rfl⟩, oneAction_same _, ?_⟩
  rintro ⟨xkb', map', server', r, hrun, hmap, hserver, -, hbound⟩
  cases hrun
  cases hmap
  cases hserver
  have hmask := (hbound.actions 1 (mem_singleton.2 rfl) _ rfl).iso rfl
  exact absurd hmask (by decide)

end Xenia.Xext.Xkb
