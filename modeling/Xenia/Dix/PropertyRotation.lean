import Mathlib.Data.List.GetD
import Xenia.Dix.PropertyContents

/-!
# Rotating properties

`ProcRotateProperties`: the properties of a list of names hand their values on cyclically. All
names are looked up before the first value is moved; the values are then copied from saved
records, and only the name of a record stays in its place.

* `lookupAll_spec`: the look-ups succeed when the names are distinct and name properties to
  which access is granted (`AllThere`).
* `moveAll_target`, `moveAll_other`: what the loop makes of each property.
* `properties_rotated` is the result for a request; `full_turn_silent` is the request for
  which it delivers no event.
-/

namespace Xenia.Dix

open Xenia.Lib List Option

/-! ### The request -/

/-- A status that is not that of success. -/
abbrev Refusal := { rc : Status // rc ≠ Success }

/-- `xRotatePropertiesReq` with the names after it. -/
structure RotateReq where
  nAtoms : ℕ
  nPositions : ℤ
  atoms : List ℕ

/-- What `ProcRotateProperties` asks of the rest of the server: which atoms there are, whether
a property filter skips the request, whether the window is there, what the access control says
of a property, and whether there is memory for the saved records. -/
structure RotateEnv where
  validAtom : ℕ → Bool
  filter : Except Refusal Unit
  lookupWindow : Except (Refusal × ℕ) Unit
  verdict : ℕ → Status
  memory : Bool

/-- The loop that looks the names up: the records, or the status with which it stops. -/
def lookupAll (e : RotateEnv) : List ℕ → PropState → PropState × Except Status (List PropertyRec)
  | [], s => (s, .ok [])
  | atom :: atoms, s =>
    if !e.validAtom atom then ({ s with errorValue := atom }, .error BadAtom)
    else if atom ∈ atoms then (s, .error BadMatch)
    else
      match dixLookupProperty atom (e.verdict atom) s with
      | (s, none, rc) => (s, .error rc)
      | (s, some pProp, rc) =>
        if rc ≠ Success then (s, .error rc)
        else
          match lookupAll e atoms s with
          | (s, .error rc) => (s, .error rc)
          | (s, .ok saved) => (s, .ok (pProp :: saved))

/-- The loop that makes `delta` non-negative, for `fuel` turns. -/
def addTurns (n : ℕ) : ℕ → ℤ → ℤ
  | 0, delta => delta
  | fuel + 1, delta => if delta < 0 then addTurns n fuel (delta + n) else delta

/-- A record with the value of another. -/
def PropertyRec.withValue (p saved : PropertyRec) : PropertyRec :=
  { p with type := saved.type, format := saved.format, size := saved.size, data := saved.data }

/-- The record of this name gets the value of `saved`. -/
def PropState.setValue (s : PropState) (name : ℕ) (saved : PropertyRec) : PropState :=
  match s.lookup name with
  | none => s
  | some p => s.store (p.withValue saved)

/-- The name of the record that gets the value of the `i`-th one. -/
def rotateTarget (saved : List PropertyRec) (delta : ℤ) (i : ℕ) : ℕ :=
  (saved[((i + delta) % saved.length).toNat]?.map PropertyRec.propertyName).getD 0

/-- One turn of the loop that moves the values. -/
def moveValue (target : ℕ → ℕ) (s : PropState) (x : PropertyRec × ℕ) : PropState :=
  (s.deliverPropertyNotifyEvent .newValue x.1.propertyName).setValue (target x.2) x.1

def procRotateProperties (e : RotateEnv) (r : RotateReq) (s : PropState) : PropState × Status :=
  if r.nAtoms ≠ r.atoms.length then (s, BadLength)
  else
    match e.filter with
    | .error rc => (s, rc)
    | .ok () =>
      match e.lookupWindow with
      | .error (rc, value) => ({ s with errorValue := value }, rc)
      | .ok () =>
        if r.nAtoms = 0 then (s, Success)
        else if !e.memory then (s, BadAlloc)
        else
          match lookupAll e r.atoms s with
          | (s, .error rc) => (s, rc)
          | (s, .ok saved) =>
            if r.nPositions.natAbs % r.nAtoms ≠ 0 then
              let delta := addTurns r.nAtoms r.nPositions.natAbs r.nPositions
              (saved.zipIdx.foldl (moveValue (rotateTarget saved delta)) s, Success)
            else (s, Success)

/-! ### Looking the names up -/

section Lookup

variable {e : RotateEnv} {s s' : PropState} {atoms : List ℕ} {saved : List PropertyRec}

/-- The names are distinct, and each names a property that may be read and written. -/
structure AllThere (e : RotateEnv) (s : PropState) (atoms : List ℕ) : Prop where
  distinct : atoms.Nodup
  there : ∀ atom ∈ atoms, (s.lookup atom).isSome ∧ e.verdict atom = Success

/-- The list, the memory and the events are as they were. -/
structure SameProps (s s' : PropState) : Prop where
  properties : s'.properties = s.properties
  heap : s'.heap = s.heap
  events : s'.events = s.events

theorem SameProps.refl (s : PropState) : SameProps s s := ⟨rfl, rfl, rfl⟩

theorem SameProps.trans {s'' : PropState} (h : SameProps s s') (h' : SameProps s' s'') : SameProps s s'' :=
  ⟨h'.properties.trans h.properties, h'.heap.trans h.heap, h'.events.trans h.events⟩

theorem SameProps.lookup (h : SameProps s s') (name : ℕ) : s'.lookup name = s.lookup name := by
  unfold PropState.lookup
  rw [h.properties]

theorem lookup_name {name : ℕ} {p : PropertyRec} (h : s.lookup name = some p) : p.propertyName = name := by
  simpa using find?_some h

/-- **The look-ups**: they change nothing, and they succeed just when all names are there. -/
theorem lookupAll_spec (hvalid : ∀ p ∈ s.properties, e.validAtom p.propertyName = true) (atoms : List ℕ) :
    SameProps s (lookupAll e atoms s).1 ∧
      ((∃ saved, (lookupAll e atoms s).2 = .ok saved ∧ AllThere e s atoms ∧ saved.map some = atoms.map s.lookup) ∨
        (∃ rc, (lookupAll e atoms s).2 = .error rc ∧ rc ≠ Success) ∧ ¬AllThere e s atoms) := by
  induction atoms generalizing s with
  | nil => exact ⟨.refl s, .inl ⟨[], rfl, ⟨nodup_nil, fun _ h => absurd h not_mem_nil⟩, rfl⟩⟩
  | cons atom atoms ih =>
    unfold lookupAll
    split
    · -- an atom that is not valid names no property
      rename_i hinvalid
      refine ⟨⟨rfl, rfl, rfl⟩, .inr ⟨⟨BadAtom, rfl, by decide⟩, fun h => ?_⟩⟩
      obtain ⟨p, hp⟩ := isSome_iff_exists.1 (h.there atom (.head _)).1
      have hok := hvalid p (mem_of_find?_eq_some hp)
      rw [lookup_name hp] at hok
      rw [hok] at hinvalid
      exact nomatch hinvalid
    · split
      · rename_i htwice
        exact ⟨.refl s, .inr ⟨⟨BadMatch, rfl, by decide⟩, fun h => (nodup_cons.1 h.distinct).1 htwice⟩⟩
      · rename_i honce
        obtain ⟨s₁, hs₁⟩ : ∃ s₁ : PropState, s₁ = { s with errorValue := atom } := ⟨_, rfl⟩
        have hsame : SameProps s s₁ := hs₁ ▸ ⟨rfl, rfl, rfl⟩
        have hlookup : dixLookupProperty atom (e.verdict atom) s = match s.lookup atom with
            | none => (s₁, none, BadMatch)
            | some pProp => (s₁, some pProp, e.verdict atom) := by
          rw [hs₁]
          rfl
        rw [hlookup]
        cases hfound : s.lookup atom with
        | none =>
          refine ⟨hsame, .inr ⟨⟨BadMatch, rfl, by decide⟩, fun h => ?_⟩⟩
          have hsome := (h.there atom (.head _)).1
          rw [hfound] at hsome
          exact nomatch hsome
        | some pProp =>
          dsimp only
          split
          · rename_i hdenied
            exact ⟨hsame, .inr ⟨⟨_, rfl, hdenied⟩, fun h => hdenied (h.there atom (.head _)).2⟩⟩
          · rename_i hgranted
            have hrest := ih (s := s₁) (by rw [hsame.properties]; exact hvalid)
            have hthere : AllThere e s (atom :: atoms) ↔ AllThere e s₁ atoms := by
              constructor
              · intro h
                refine ⟨(nodup_cons.1 h.distinct).2, fun a ha => ?_⟩
                rw [hsame.lookup]
                exact h.there a (.tail _ ha)
              · intro h
                refine ⟨nodup_cons.2 ⟨honce, h.distinct⟩, fun a ha => ?_⟩
                rcases mem_cons.1 ha with rfl | ha
                · exact ⟨by rw [hfound]; rfl, not_not.1 hgranted⟩
                · rw [← hsame.lookup]
                  exact h.there a ha
            obtain ⟨s₂, hs₂⟩ : ∃ r, r = lookupAll e atoms s₁ := ⟨_, rfl⟩
            rw [← hs₂] at hrest ⊢
            obtain ⟨s₂, res⟩ := s₂
            obtain ⟨hkeep, ⟨saved, hok, hall, hsaved⟩ | ⟨⟨rc, herror, hrc⟩, hno⟩⟩ := hrest
            · obtain rfl := hok
              refine ⟨hsame.trans hkeep, .inl ⟨pProp :: saved, rfl, hthere.2 hall, ?_⟩⟩
              rw [map_cons, map_cons, hsaved, hfound]
              refine congrArg _ (map_congr_left fun a _ => hsame.lookup a)
            · obtain rfl := herror
              exact ⟨hsame.trans hkeep, .inr ⟨⟨rc, rfl, hrc⟩, fun h => hno (hthere.1 h)⟩⟩

end Lookup

/-! ### Moving the values -/

section Move

variable {s s' : PropState} {target : ℕ → ℕ} {name : ℕ} {saved : PropertyRec}

/-- What `PropState.store` writes over a record. -/
def overwritten (p q : PropertyRec) : Option PropertyRec := if q.propertyName = p.propertyName then some p else none

/-- Overwriting the first record of a name. -/
theorem find_store (l : List PropertyRec) (p : PropertyRec) (name : ℕ) :
    (l.replaceF (overwritten p)).find? (fun q => q.propertyName = name) =
      (l.find? fun q => q.propertyName = name).map fun q => if name = p.propertyName then p else q := by
  induction l with
  | nil => rfl
  | cons q l ih =>
    by_cases hq : q.propertyName = p.propertyName
    · rw [replaceF_cons_of_some (overwritten p) (if_pos hq)]
      by_cases hname : p.propertyName = name
      · rw [find?_cons_of_pos (by simpa using hname), find?_cons_of_pos (by simpa using hq.trans hname)]
        rw [map_some, if_pos hname.symm]
      · rw [find?_cons_of_neg (by simpa using hname),
          find?_cons_of_neg (by simpa using fun h => hname (hq.symm.trans h))]
        simp only [if_neg (Ne.symm hname)]
        exact map_id'.symm
    · rw [replaceF_cons_of_none (overwritten p) (if_neg hq)]
      by_cases hname : q.propertyName = name
      · rw [find?_cons_of_pos (by simpa using hname), find?_cons_of_pos (by simpa using hname),
          map_some, if_neg fun h => hq (hname.trans h)]
      · rw [find?_cons_of_neg (by simpa using hname), find?_cons_of_neg (by simpa using hname)]
        exact ih

theorem names_store (l : List PropertyRec) (p : PropertyRec) :
    (l.replaceF (overwritten p)).map PropertyRec.propertyName = l.map PropertyRec.propertyName := by
  induction l with
  | nil => rfl
  | cons q l ih =>
    by_cases hq : q.propertyName = p.propertyName
    · rw [replaceF_cons_of_some (overwritten p) (if_pos hq), map_cons, map_cons, hq]
    · rw [replaceF_cons_of_none (overwritten p) (if_neg hq), map_cons, map_cons, ih]

/-- Only the record of this name is different, and it is there as before. -/
theorem setValue_lookup (s : PropState) (saved : PropertyRec) (name name' : ℕ) :
    (s.setValue name saved).lookup name' =
      (s.lookup name').map fun p => if name' = name then p.withValue saved else p := by
  unfold PropState.setValue
  cases hfound : s.lookup name with
  | none =>
    by_cases hname : name' = name
    · rw [hname, hfound]
      rfl
    · simp only [if_neg hname]
      exact map_id'.symm
  | some p =>
    have hname₀ := lookup_name hfound
    have hp : (p.withValue saved).propertyName = name := hname₀
    refine (find_store s.properties (p.withValue saved) name').trans ?_
    rw [hp]
    change (s.lookup name').map _ = _
    by_cases hname : name' = name
    · rw [hname, hfound]
      simp only [map_some]
    · simp only [if_neg hname]

/-- What the loop leaves alone. -/
structure SameNames (s s' : PropState) : Prop where
  names : s'.properties.map PropertyRec.propertyName = s.properties.map PropertyRec.propertyName
  heap : s'.heap = s.heap

theorem setValue_same (s : PropState) (name : ℕ) (saved : PropertyRec) :
    SameNames s (s.setValue name saved) ∧ (s.setValue name saved).events = s.events := by
  unfold PropState.setValue
  split
  · exact ⟨⟨rfl, rfl⟩, rfl⟩
  · exact ⟨⟨names_store _ _, rfl⟩, rfl⟩

theorem moveValue_lookup (s : PropState) (x : PropertyRec × ℕ) (name : ℕ) :
    (moveValue target s x).lookup name =
      (s.lookup name).map fun p => if name = target x.2 then p.withValue x.1 else p :=
  setValue_lookup (s.deliverPropertyNotifyEvent .newValue x.1.propertyName) x.1 (target x.2) name

/-- The loop delivers an event for each record, in their order, and keeps the names. -/
theorem moveAll_same (target : ℕ → ℕ) (xs : List (PropertyRec × ℕ)) (s : PropState) :
    SameNames s (xs.foldl (moveValue target) s) ∧
      (xs.foldl (moveValue target) s).events = s.events ++ xs.map fun x => (.newValue, x.1.propertyName) := by
  induction xs generalizing s with
  | nil => exact ⟨⟨rfl, rfl⟩, (append_nil _).symm⟩
  | cons x xs ih =>
    obtain ⟨hsame, hevents⟩ := ih (moveValue target s x)
    obtain ⟨hset, hkeep⟩ := setValue_same (s.deliverPropertyNotifyEvent .newValue x.1.propertyName) (target x.2) x.1
    refine ⟨⟨hsame.names.trans hset.names, hsame.heap.trans hset.heap⟩, ?_⟩
    have hfirst : (moveValue target s x).events = s.events ++ [(.newValue, x.1.propertyName)] := hkeep
    rw [foldl_cons, hevents, hfirst, append_assoc]
    rfl

/-- A property that is nobody's target is as before. -/
theorem moveAll_other (xs : List (PropertyRec × ℕ)) (s : PropState) (hname : ∀ x ∈ xs, target x.2 ≠ name) :
    (xs.foldl (moveValue target) s).lookup name = s.lookup name := by
  induction xs generalizing s with
  | nil => rfl
  | cons x xs ih =>
    rw [foldl_cons, ih _ fun y hy => hname y (.tail _ hy), moveValue_lookup]
    simp only [if_neg (Ne.symm (hname x (.head _)))]
    exact map_id'

/-- **A property that is a target** gets the value it is the target of, when the targets are
distinct. -/
theorem moveAll_target (xs : List (PropertyRec × ℕ)) (s : PropState) (hxs : (xs.map fun x => target x.2).Nodup)
    {x : PropertyRec × ℕ} (hx : x ∈ xs) :
    (xs.foldl (moveValue target) s).lookup (target x.2) = (s.lookup (target x.2)).map fun p => p.withValue x.1 := by
  induction xs generalizing s with
  | nil => exact absurd hx not_mem_nil
  | cons y xs ih =>
    obtain ⟨hnot, htail⟩ := nodup_cons.1 hxs
    rw [foldl_cons]
    rcases mem_cons.1 hx with rfl | hx
    · -- the later turns have other targets
      rw [moveAll_other xs _ fun z hz heq => hnot (mem_map.2 ⟨z, hz, heq⟩), moveValue_lookup]
      simp only [if_true]
    · rw [ih _ htail hx, moveValue_lookup, Option.map_map]
      have hne : target x.2 ≠ target y.2 := fun heq => hnot (mem_map.2 ⟨x, hx, heq⟩)
      simp only [if_neg hne]
      rfl

end Move

/-! ### The shift -/

variable {n : ℕ}

theorem addTurns_spec (hn : 0 < n) (fuel : ℕ) (delta : ℤ) (hfuel : -delta ≤ fuel) :
    0 ≤ addTurns n fuel delta ∧ addTurns n fuel delta % n = delta % n := by
  induction fuel generalizing delta with
  | zero =>
    unfold addTurns
    exact ⟨by omega, rfl⟩
  | succ fuel ih =>
    unfold addTurns
    split
    · obtain ⟨hpos, hmod⟩ := ih (delta + n) (by omega)
      exact ⟨hpos, hmod.trans (Int.add_emod_right delta n)⟩
    · exact ⟨by omega, rfl⟩

/-- The place `delta` away, in a circle of `n`. -/
def placeAway (n : ℕ) (i : ℕ) (delta : ℤ) : ℕ := ((i + delta) % n).toNat

theorem placeAway_lt (hn : 0 < n) (i : ℕ) (delta : ℤ) : placeAway n i delta < n := by
  have := Int.emod_lt_of_pos (i + delta) (by exact_mod_cast hn : (0 : ℤ) < n)
  unfold placeAway
  omega

/-- Going there and back. -/
theorem placeAway_back {i : ℕ} (hi : i < n) (delta : ℤ) : placeAway n (placeAway n i delta) (-delta) = i := by
  have hpos : (0 : ℤ) ≤ (i + delta) % n := Int.emod_nonneg _ (by omega)
  unfold placeAway
  rw [Int.toNat_of_nonneg hpos, Int.emod_add_emod, Int.add_neg_cancel_right,
    Int.emod_eq_of_lt (by omega) (by omega), Int.toNat_natCast]

theorem placeAway_congr {delta delta' : ℤ} (h : delta' % n = delta % n) (i : ℕ) :
    placeAway n i delta' = placeAway n i delta := by
  unfold placeAway
  rw [Int.add_emod, h, ← Int.add_emod]

/-! ### What a request does -/

/-- The request is granted: it has the size it says, nothing before the look-ups refuses it, and
all its names are there. -/
structure Granted (e : RotateEnv) (r : RotateReq) (s : PropState) : Prop where
  size : r.nAtoms = r.atoms.length
  filter : e.filter = .ok ()
  window : e.lookupWindow = .ok ()
  memory : r.atoms ≠ [] → e.memory = true
  names : AllThere e s r.atoms

/-- What a rotation makes of the properties: each named one has the value of the one `delta`
places before it, all others are as they were, and so is the order of the names. There is an
event for each name, unless all values come back to where they were. -/
structure Rotated (r : RotateReq) (s s' : PropState) : Prop where
  value : ∀ i (hi : i < r.atoms.length), view s'.properties s'.heap r.atoms[i] =
    view s.properties s.heap (r.atoms.getD (placeAway r.atoms.length i (-r.nPositions)) 0)
  others : ∀ name, name ∉ r.atoms → view s'.properties s'.heap name = view s.properties s.heap name
  names : s'.properties.map PropertyRec.propertyName = s.properties.map PropertyRec.propertyName
  heap : s'.heap = s.heap
  events : s'.events = s.events ++
    if (r.atoms.length : ℤ) ∣ r.nPositions then [] else r.atoms.map fun atom => (.newValue, atom)

section Request

variable {e : RotateEnv} {r : RotateReq} {s s' : PropState} {atoms : List ℕ} {saved : List PropertyRec} {delta : ℤ}

theorem view_eq (s : PropState) (name : ℕ) : view s.properties s.heap name = (s.lookup name).map (content s.heap) := rfl

/-- The saved records are those of the names. -/
theorem saved_getElem (h : saved.map some = atoms.map s.lookup) :
    saved.length = atoms.length ∧ ∀ i (hi : i < saved.length) (hi' : i < atoms.length),
      s.lookup atoms[i] = some saved[i] ∧ saved[i].propertyName = atoms[i] := by
  have hlen : saved.length = atoms.length := by simpa using congrArg length h
  refine ⟨hlen, fun i hi hi' => ?_⟩
  have hi₂ : (saved.map some)[i]? = (atoms.map s.lookup)[i]? := by
    rw [h]
  rw [getElem?_map, getElem?_map, getElem?_eq_getElem hi, getElem?_eq_getElem hi'] at hi₂
  have hlookup : s.lookup atoms[i] = some saved[i] := (some.inj hi₂).symm
  exact ⟨hlookup, lookup_name hlookup⟩

/-- The target of a record is the name `delta` places after it. -/
theorem rotateTarget_eq (delta : ℤ) (h : saved.map some = atoms.map s.lookup) (hne : atoms ≠ []) (i : ℕ) :
    rotateTarget saved delta i = atoms.getD (placeAway atoms.length i delta) 0 := by
  obtain ⟨hlen, hsaved⟩ := saved_getElem h
  have hlt := placeAway_lt (length_pos_iff.2 hne) i delta
  unfold rotateTarget
  rw [hlen]
  change (saved[placeAway atoms.length i delta]?.map PropertyRec.propertyName).getD 0 = _
  rw [getElem?_eq_getElem (by omega), getD_eq_getElem _ 0 hlt, map_some]
  exact (hsaved _ (by omega) hlt).2

/-- The loop over all saved records rotates their values. -/
theorem moveAll_rotated (delta : ℤ) (hdistinct : atoms.Nodup) (hsaved : saved.map some = atoms.map s.lookup) (hne : atoms ≠ []) :
    (∀ i (hi : i < atoms.length), (saved.zipIdx.foldl (moveValue (rotateTarget saved delta)) s).lookup atoms[i] =
        (s.lookup atoms[i]).bind fun p =>
          (s.lookup (atoms.getD (placeAway atoms.length i (-delta)) 0)).map fun q => p.withValue q) ∧
      ∀ name, name ∉ atoms →
        (saved.zipIdx.foldl (moveValue (rotateTarget saved delta)) s).lookup name = s.lookup name := by
  obtain ⟨hlen, hrecs⟩ := saved_getElem hsaved
  have hpos := length_pos_iff.2 hne
  have htarget := rotateTarget_eq delta hsaved hne
  have hnodup : (saved.zipIdx.map fun x => rotateTarget saved delta x.2).Nodup := by
    rw [show (fun x : PropertyRec × ℕ => rotateTarget saved delta x.2) = rotateTarget saved delta ∘ Prod.snd from rfl,
      ← List.map_map, List.zipIdx_map_snd, ← List.range_eq_range']
    refine List.Nodup.map_on ?_ nodup_range
    intro i hi j hj heq
    rw [mem_range, hlen] at hi hj
    have hi' := placeAway_lt hpos i delta
    have hj' := placeAway_lt hpos j delta
    rw [htarget, htarget, getD_eq_getElem _ 0 hi', getD_eq_getElem _ 0 hj'] at heq
    have hplace := (List.Nodup.getElem_inj_iff hdistinct).1 heq
    rw [← placeAway_back hi delta, ← placeAway_back hj delta, hplace]
  constructor
  · intro i hi
    -- the record whose value goes here
    obtain ⟨k, hk⟩ : ∃ k, k = placeAway atoms.length i (-delta) := ⟨_, rfl⟩
    have hklt : k < atoms.length := hk ▸ placeAway_lt hpos i (-delta)
    have hback : placeAway atoms.length k delta = i := by
      have := placeAway_back hi (-delta)
      rwa [← hk, neg_neg] at this
    have hmem : (saved[k], k) ∈ saved.zipIdx := by
      rw [mem_zipIdx_iff_getElem?]
      exact getElem?_eq_getElem _
    have hmove := moveAll_target saved.zipIdx s hnodup hmem
    have hname : rotateTarget saved delta k = atoms[i] := by
      rw [htarget, hback, getD_eq_getElem _ 0 hi]
    rw [hname] at hmove
    rw [hmove, ← hk, getD_eq_getElem _ 0 hklt, (hrecs k (by omega) hklt).1, (hrecs i (by omega) hi).1]
    rfl
  · intro name hname
    refine moveAll_other saved.zipIdx s fun x _ heq => hname ?_
    rw [htarget, getD_eq_getElem _ 0 (placeAway_lt hpos x.2 delta)] at heq
    exact heq ▸ getElem_mem _

/-- What the request does once all its names are there. -/
theorem rotated_of_saved (hkeep : SameProps s s') (hsaved : saved.map some = r.atoms.map s.lookup)
    (hdistinct : r.atoms.Nodup) (hne : r.atoms ≠ []) :
    Rotated r s (if r.nPositions.natAbs % r.atoms.length ≠ 0 then
      saved.zipIdx.foldl (moveValue (rotateTarget saved
        (addTurns r.atoms.length r.nPositions.natAbs r.nPositions))) s' else s') := by
  have hpos := length_pos_iff.2 hne
  have hdvd : r.nPositions.natAbs % r.atoms.length = 0 ↔ (r.atoms.length : ℤ) ∣ r.nPositions := by
    rw [Int.natCast_dvd, Nat.dvd_iff_mod_eq_zero]
  split
  · rename_i hturn
    obtain ⟨delta, hdelta⟩ : ∃ delta, delta = addTurns r.atoms.length r.nPositions.natAbs r.nPositions := ⟨_, rfl⟩
    have hmod : delta % r.atoms.length = r.nPositions % r.atoms.length :=
      hdelta ▸ (addTurns_spec hpos r.nPositions.natAbs r.nPositions (by omega)).2
    have hback : ∀ i, placeAway r.atoms.length i (-delta) = placeAway r.atoms.length i (-r.nPositions) := by
      intro i
      refine placeAway_congr ?_ i
      rw [Int.neg_emod, Int.neg_emod]
      simp only [Int.dvd_iff_emod_eq_zero, hmod]
    have hsaved' : saved.map some = r.atoms.map s'.lookup := by
      rw [hsaved]
      exact map_congr_left fun a _ => (hkeep.lookup a).symm
    obtain ⟨hnamed, hothers⟩ := moveAll_rotated delta hdistinct hsaved' hne
    obtain ⟨hsame, hevents⟩ := moveAll_same (rotateTarget saved delta) saved.zipIdx s'
    obtain ⟨hlen, hrecs⟩ := saved_getElem hsaved
    rw [← hdelta]
    refine ⟨fun i hi => ?_, fun name hname => ?_, hsame.names.trans (by rw [hkeep.properties]),
      hsame.heap.trans hkeep.heap, ?_⟩
    · have hlt := placeAway_lt hpos i (-r.nPositions)
      rw [view_eq, view_eq, hnamed i hi, hsame.heap, hback, hkeep.lookup, hkeep.lookup,
        getD_eq_getElem _ 0 hlt, (hrecs _ (by omega) hlt).1, (hrecs i (by omega) hi).1, hkeep.heap]
      rfl
    · rw [view_eq, view_eq, hothers name hname, hsame.heap, hkeep.lookup, hkeep.heap]
    · have hnames : saved.map PropertyRec.propertyName = r.atoms := by
        refine ext_getElem (by simpa using hlen) fun i hi hi' => ?_
        rw [getElem_map]
        exact (hrecs i (by simpa using hi) hi').2
      rw [hevents, hkeep.events, if_neg (mt hdvd.2 hturn)]
      congr 1
      conv_rhs => rw [← hnames, List.map_map]
      rw [show (fun x : PropertyRec × ℕ => (PropertyState.newValue, x.1.propertyName)) =
        ((fun p => (PropertyState.newValue, p)) ∘ PropertyRec.propertyName) ∘ Prod.fst from rfl,
        ← List.map_map, zipIdx_map_fst]
  · rename_i hfull
    have hturn := hdvd.1 (not_not.1 hfull)
    refine ⟨fun i hi => ?_, fun name _ => ?_, by rw [hkeep.properties], hkeep.heap, ?_⟩
    · -- a full turn brings every value back
      have hi' : placeAway r.atoms.length i (-r.nPositions) = i := by
        have hz : (-r.nPositions) % r.atoms.length = 0 % r.atoms.length := by
          rw [Int.emod_eq_zero_of_dvd ((dvd_neg (α := ℤ)).2 hturn)]
          rfl
        rw [placeAway_congr hz]
        unfold placeAway
        rw [add_zero, Int.emod_eq_of_lt (by omega) (by omega), Int.toNat_natCast]
      rw [hi', getD_eq_getElem _ 0 hi, hkeep.properties, hkeep.heap]
    · rw [hkeep.properties, hkeep.heap]
    · rw [if_pos hturn, append_nil, hkeep.events]

/-- **Rotating properties**: a request succeeds exactly when it is granted, and then the values
have moved on by `nPositions` places and there is an event for each name, or none after a full
turn. A request that fails changes nothing. -/
theorem properties_rotated (e : RotateEnv) (r : RotateReq) (s : PropState)
    (hvalid : ∀ p ∈ s.properties, e.validAtom p.propertyName = true) :
    ((procRotateProperties e r s).2 = Success ↔ Granted e r s) ∧
      ((procRotateProperties e r s).2 = Success → Rotated r s (procRotateProperties e r s).1) ∧
      ((procRotateProperties e r s).2 ≠ Success → SameProps s (procRotateProperties e r s).1) := by
  have hrefused : ∀ (rc : Status) (s' : PropState), rc ≠ Success → ¬Granted e r s → SameProps s s' →
      ((s', rc).2 = Success ↔ Granted e r s) ∧ ((s', rc).2 = Success → Rotated r s (s', rc).1) ∧
        ((s', rc).2 ≠ Success → SameProps s (s', rc).1) :=
    fun rc s' hrc hno hsame => ⟨iff_of_false hrc hno, fun h => absurd h hrc, fun _ => hsame⟩
  unfold procRotateProperties
  split
  · rename_i hsize
    exact hrefused _ _ (by decide) (fun h => hsize h.size) (.refl s)
  · rename_i hsize
    have hsize := not_not.1 hsize
    cases hfilter : e.filter with
    | error rc => exact hrefused rc s rc.2 (fun h => nomatch hfilter.symm.trans h.filter) (.refl s)
    | ok =>
      cases hwindow : e.lookupWindow with
      | error rc =>
        exact hrefused rc.1 _ rc.1.2 (fun h => nomatch hwindow.symm.trans h.window) ⟨rfl, rfl, rfl⟩
      | ok =>
        dsimp only
        split
        · rename_i hzero
          have hnil : r.atoms = [] := length_eq_zero_iff.1 (hsize.symm.trans hzero)
          refine ⟨iff_of_true rfl ⟨hsize, hfilter, hwindow, absurd hnil, ?_⟩, fun _ => ?_, fun h => absurd rfl h⟩
          · rw [hnil]
            exact ⟨nodup_nil, fun _ h => absurd h not_mem_nil⟩
          · refine ⟨fun i hi => ?_, fun _ _ => rfl, rfl, rfl, ?_⟩
            · rw [hnil] at hi
              exact absurd hi (Nat.not_lt_zero _)
            · rw [hnil]
              split <;> exact (append_nil _).symm
        · rename_i hpos
          have hne : r.atoms ≠ [] := fun h => hpos (by rw [hsize, h]; rfl)
          split
          · rename_i hmemory
            exact hrefused _ _ (by decide) (fun h => by rw [h.memory hne] at hmemory; exact nomatch hmemory) (.refl s)
          · rename_i hmemory
            have hspec := lookupAll_spec (e := e) hvalid r.atoms
            obtain ⟨res, hres⟩ : ∃ res, res = lookupAll e r.atoms s := ⟨_, rfl⟩
            rw [← hres] at hspec ⊢
            obtain ⟨s', res⟩ := res
            obtain ⟨hkeep, ⟨saved, hok, hall, hsaved⟩ | ⟨⟨rc, herror, hrc⟩, hno⟩⟩ := hspec
            · obtain rfl := hok
              have hgranted : Granted e r s := ⟨hsize, hfilter, hwindow, fun _ => by simpa using hmemory, hall⟩
              have hrotated := rotated_of_saved hkeep hsaved hall.distinct hne
              rw [← hsize] at hrotated
              dsimp only
              split at hrotated
              · rename_i hturn
                rw [if_pos hturn]
                exact ⟨iff_of_true rfl hgranted, fun _ => hrotated, fun h => absurd rfl h⟩
              · rename_i hturn
                rw [if_neg hturn]
                exact ⟨iff_of_true rfl hgranted, fun _ => hrotated, fun h => absurd rfl h⟩
            · obtain rfl := herror
              exact hrefused rc s' hrc (fun h => hno h.names) hkeep

end Request

/-- Two properties, of which the second has a value of one byte. -/
def twoProperties : PropState where
  properties := [⟨1, 31, 8, 0, none⟩, ⟨2, 31, 8, 1, some 0⟩]
  heap := ⟨fun p => if p = 0 then some [7] else none, 1⟩
  errorValue := 0
  events := []

def freeAccess : RotateEnv := ⟨fun _ => true, .ok (), .ok (), fun _ => Success, true⟩

theorem properties_rotated_two :
    Rotated ⟨2, -1, [1, 2]⟩ twoProperties (procRotateProperties freeAccess ⟨2, -1, [1, 2]⟩ twoProperties).1 :=
  (properties_rotated freeAccess ⟨2, -1, [1, 2]⟩ twoProperties (fun _ _ => rfl)).2.1 (by decide +kernel)

/-- **A full turn is silent**: a request for one property succeeds and delivers no event. -/
theorem full_turn_silent :
    (procRotateProperties freeAccess ⟨1, 0, [1]⟩ twoProperties).2 = Success ∧
      (procRotateProperties freeAccess ⟨1, 0, [1]⟩ twoProperties).1.events = [] := by
  decide +kernel

end Xenia.Dix
