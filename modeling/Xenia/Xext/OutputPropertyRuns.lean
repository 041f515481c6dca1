import Xenia.Lib.Keyed
import Xenia.Xext.OutputProperty

/-!
# Runs of output properties

`output_properties_correct`: as long as a deletion is announced for an output whose id fits a byte, a post finds memory and only
values that were asked for, and a client deletes a property with its own type and gets its bytes, current values change only by
requests for them, a post leaves no pending change, requests that fail change nothing and clients are told of exactly what changed.
-/

namespace Xenia.Xext.OutputProperty

open Xenia.Lib List Function Option

variable {output : RROutputRec} {prop : RRPropertyRec} {request : RRChange} {property p n : ℕ} {add onPending : Bool}

/-! ## What the requests asked for -/

/-- The change is for the pending value. -/
def pendingChange (output : RROutputRec) (request : RRChange) : Bool :=
  request.pending && ((RRQueryOutputProperty output request.property).map (·.is_pending)).getD false

/-- For each property the pending value that changes asked for since it became pending, and whether no post came after. -/
structure Asked where
  value : ℕ → Option PropertyValue
  due : ℕ → Bool

def Asked.none : Asked := { value := fun _ => .none, due := fun _ => false }

def Asked.forget (asked : Asked) (property : ℕ) : Asked :=
  { value := Function.update asked.value property .none, due := Function.update asked.due property false }

def Asked.ask (asked : Asked) (property : ℕ) (value : PropertyValue) : Asked :=
  { value := Function.update asked.value property (some value), due := Function.update asked.due property true }

/-- A change of a property that was found asks for a pending value, or not. -/
def Asked.change (asked : Asked) (request : RRChange) : Option RRPropertyRec → Asked
  | .none => asked
  | some prop =>
    if (request.pending && prop.is_pending) = true ∧ (request.mode = .Replace ∨ request.len > 0) then
      asked.ask request.property (request.onto request.mode prop.pending)
    else asked

def askedStep (before : RROutputRec) (asked : Asked) (request : PropertyRequest) (r : Returned Bool) : Asked :=
  if r.ret = false then asked
  else
    match request with
    | .configure request => if request.pending then asked else asked.forget request.property
    | .change request => asked.change request.toRRChange (RRQueryOutputProperty before request.property)
    | .delete property => asked.forget property
    | .post _ => { asked with due := fun _ => false }
    | .get stuff => if (RRQueryOutputProperty r.output stuff.property).isNone then asked.forget stuff.property else asked

/-- An output and what was asked of it. -/
structure Track where
  output : RROutputRec
  asked : Asked

def trackStep (atoms : Atoms) (s : Track) (request : PropertyRequest) : Track :=
  { output := (outcome atoms s.output request).output
    asked := askedStep s.output s.asked request (outcome atoms s.output request) }

/-! ## What is claimed of a request -/

def current (output : RROutputRec) (property : ℕ) : Option PropertyValue := (RRQueryOutputProperty output property).map (·.current)

/-- The current value of `p` may become `v`. -/
def MayChange (before : RROutputRec) (asked : Asked) (p : ℕ) (v : PropertyValue) : PropertyRequest → Prop
  | .configure request => p = request.property ∧ current before p = none ∧ v = initialValue
  | .change request =>
    p = request.property ∧ pendingChange before request.toRRChange = false ∧
      v = (current before p).elim (request.onto .Replace initialValue) (request.onto request.mode)
  | .delete _ => False
  | .post _ => asked.value p = some v
  | .get _ => False

def MayRemove (p : ℕ) : PropertyRequest → Prop
  | .delete property => p = property
  | .get stuff => p = stuff.property ∧ stuff.delete_ = 1
  | _ => False

/-- The events for what has changed. -/
def notices (before after : RROutputRec) (ok : Bool) : PropertyRequest → List xRROutputPropertyNotifyEvent
  | .configure _ => []
  | .change request =>
    if ok && request.sendevent then [{ output := before.id, atom := request.property, state := .PropertyNewValue }] else []
  | .delete property =>
    if (RRQueryOutputProperty before property).isSome then [{ output := before.id, atom := property, state := .PropertyDelete }] else []
  | .post _ =>
    (before.properties.filter fun prop => decide (current after prop.propertyName ≠ some prop.current)).map fun prop =>
      { output := before.id, atom := prop.propertyName, state := .PropertyNewValue }
  | .get stuff =>
    if (RRQueryOutputProperty before stuff.property).isSome && (RRQueryOutputProperty after stuff.property).isNone then
      [{ output := before.id, atom := stuff.property, state := .PropertyDelete }]
    else []

/-- What a request that returned `r` has done. -/
structure Right (before : RROutputRec) (asked : Asked) (request : PropertyRequest) (r : Returned Bool) : Prop where
  failed : r.ret = false → r.output = before ∧ r.events = []
  changed : ∀ p v, current r.output p = some v → current before p ≠ some v → MayChange before asked p v request
  removed : ∀ p, current before p ≠ none → current r.output p = none → MayRemove p request
  posted : ∀ alloc, request = .post alloc → r.ret = true → ∀ p, asked.due p = true →
    ∃ prop, RRQueryOutputProperty r.output p = some prop ∧ asked.value p = some prop.pending ∧ prop.current = prop.pending
  notified : r.events = notices before r.output r.ret request

/-! ## Outputs that are well formed -/

structure Sound (output : RROutputRec) : Prop where
  names : (output.properties.map (·.propertyName)).Nodup
  values : ∀ prop ∈ output.properties, prop.current.Ok ∧ prop.pending.Ok

/-- The pending values are those that were asked for, and the flag of the output stands for the changes that are due. -/
structure Tracks (output : RROutputRec) (asked : Asked) : Prop where
  wanted : ∀ p v, asked.value p = some v →
    ∃ prop, RRQueryOutputProperty output p = some prop ∧ prop.is_pending = true ∧ prop.pending = v
  due : ∀ p, asked.due p = true → output.pendingProperties = true ∧ (asked.value p).isSome

theorem initialValue_ok : initialValue.Ok where
  format := by decide
  length := by decide
  object := by decide
  units := fun _ => rfl
  range := by decide

theorem query_name (hfound : RRQueryOutputProperty output property = some prop) :
    prop ∈ output.properties ∧ prop.propertyName = property := by
  constructor
  · exact mem_of_find?_eq_some hfound
  · exact beq_iff_eq.1 (find?_eq_some_iff_append.1 hfound).1

theorem query_mem (hsound : Sound output) (hprop : prop ∈ output.properties) :
    RRQueryOutputProperty output prop.propertyName = some prop := by
  obtain ⟨other, hother, hname, hfind⟩ := find?_key (mem_map_of_mem (f := (·.propertyName)) hprop)
  rw [RRQueryOutputProperty, hfind, inj_on_of_nodup_map hsound.names hother hprop hname]

/-! ## Writing a property -/

/-- The property of the name is the one that is put. -/
theorem query_putProperty (hadd : add = (RRQueryOutputProperty output prop.propertyName).isNone) :
    RRQueryOutputProperty (putProperty add prop output) =
      update (RRQueryOutputProperty output) prop.propertyName (some prop) := by
  funext k
  rw [update_apply]
  unfold putProperty RRQueryOutputProperty at *
  cases hfound : output.properties.find? (·.propertyName == prop.propertyName) with
  | none =>
    rw [hfound] at hadd
    subst hadd
    dsimp only [isNone_none]
    rw [if_pos rfl, find?_key_cons]
    by_cases heq : k = prop.propertyName
    · rw [if_pos heq, if_pos (beq_iff_eq.2 heq.symm)]
    · rw [if_neg heq, if_neg fun h => heq (beq_iff_eq.1 h).symm]
  | some old =>
    rw [hfound] at hadd
    subst hadd
    dsimp only [isNone_some]
    rw [if_neg (show ¬ false = true by decide)]
    -- the write is one that keeps the names
    let f : RRPropertyRec → RRPropertyRec := fun q => if q.propertyName = prop.propertyName then prop else q
    have hf : ∀ q, (f q).propertyName = q.propertyName := by
      intro q
      change (if q.propertyName = prop.propertyName then prop else q).propertyName = q.propertyName
      split
      next heq => exact heq.symm
      · rfl
    have hsame : (fun q : RRPropertyRec => if q.propertyName = prop.propertyName then f q else q) = f := by
      funext q
      change (if q.propertyName = prop.propertyName then (if q.propertyName = prop.propertyName then prop else q) else q) =
        if q.propertyName = prop.propertyName then prop else q
      split <;> rfl
    have hwrite : ((output.properties.map fun q => if q.propertyName = prop.propertyName then f q else q).find?
        (·.propertyName == k)) = _ := find?_write hf output.properties k
    rw [hsame, hfound] at hwrite
    have hold : RRQueryOutputProperty output prop.propertyName = some old := hfound
    have hput : f old = prop := if_pos (query_name hold).2
    rw [hwrite, map_some, hput]

theorem Sound.put (hsound : Sound output) (hadd : add = (RRQueryOutputProperty output prop.propertyName).isNone)
    (hok : prop.current.Ok ∧ prop.pending.Ok) : Sound (putProperty add prop output) := by
  cases add with
  | true =>
    have hnew : prop.propertyName ∉ output.properties.map (·.propertyName) :=
      find?_key_eq_none.1 (isNone_iff_eq_none.1 hadd.symm)
    constructor
    · exact nodup_cons.2 ⟨hnew, hsound.names⟩
    · intro q hq
      rcases mem_cons.1 hq with rfl | hmem
      · exact hok
      · exact hsound.values q hmem
  | false =>
    constructor
    · change ((output.properties.map _).map _).Nodup
      rw [List.map_map]
      have hkeys : ((fun q : RRPropertyRec => q.propertyName) ∘ fun q => if q.propertyName = prop.propertyName then prop else q) =
          fun q => q.propertyName := by
        funext q
        dsimp only [comp]
        split
        next heq => exact heq.symm
        · rfl
      rw [hkeys]
      exact hsound.names
    · intro q hq
      obtain ⟨q', hq', rfl⟩ := mem_map.1 hq
      split
      · exact hok
      · exact hsound.values q' hq'

theorem query_unlink (hsound : Sound output) (property : ℕ) :
    RRQueryOutputProperty (unlink property output) = update (RRQueryOutputProperty output) property none := by
  funext k
  rw [update_apply]
  exact find?_eraseP hsound.names k

theorem Sound.unlink (hsound : Sound output) (property : ℕ) : Sound (unlink property output) where
  names := by
    change ((output.properties.eraseP _).map _).Nodup
    rw [map_eraseP_key fun _ _ => beq_iff_eq]
    exact hsound.names.erase _
  values := fun q hq => hsound.values q (mem_of_mem_eraseP hq)

/-! ## Changes -/

/-- The property after a change that succeeds. -/
def RRChange.applied (request : RRChange) : Option RRPropertyRec → RRPropertyRec
  | none => { RRCreateOutputProperty request.property with current := request.onto .Replace initialValue }
  | some prop =>
    if request.mode = .Replace ∨ request.len > 0 then
      if request.pending && prop.is_pending then { prop with pending := request.onto request.mode prop.pending }
      else { prop with current := request.onto request.mode prop.current }
    else prop

/-- A change fails and does nothing, or it puts the property it was asked for. -/
inductive Changes (n : ℕ) (output : RROutputRec) (request : RRChange) : Returned ℕ → Prop
  | failed (rc : ℕ) (hrc : rc ≠ Success) : Changes n output request { ret := rc, output := output, events := [] }
  | done (hok : (request.applied (RRQueryOutputProperty output request.property)).current.Ok ∧
        (request.applied (RRQueryOutputProperty output request.property)).pending.Ok) :
      Changes n output request
        (finishChange n output request (RRQueryOutputProperty output request.property).isNone (pendingChange output request)
          (request.applied (RRQueryOutputProperty output request.property)))

theorem RRChangeOutputProperty_changes (n : ℕ) (hsound : Sound output) (hfits : request.Fits) (hformat : FitsShort request.format) :
    Changes n output request (RRChangeOutputProperty n output request) := by
  unfold RRChangeOutputProperty
  dsimp only
  cases hfound : RRQueryOutputProperty output request.property with
  | none =>
    rw [isNone_none, getD_none]
    have hpending : (request.pending && (RRCreateOutputProperty request.property).is_pending) = false := by
      rw [Bool.and_eq_false_iff]
      exact .inr rfl
    have hchange : pendingChange output request = false := by
      rw [pendingChange, hfound, Bool.and_eq_false_iff]
      exact .inr rfl
    rw [hpending, if_neg (show ¬ false = true by decide)]
    split
    · exact .failed BadAlloc (by decide)
    · rw [if_neg (by simp), if_neg (by simp), if_pos (.inl rfl)]
      split
      · exact .failed BadAlloc (by decide)
      next new hnew =>
        obtain ⟨rfl, hok⟩ := newValue_spec hfits hformat (fun h => absurd rfl h) hnew
        split
        · exact .failed BadValue (by decide)
        · have hdone : Changes n output request _ := .done (by
            rw [hfound]
            exact ⟨hok, initialValue_ok⟩)
          rw [hfound, hchange] at hdone
          exact hdone
  | some prop =>
    obtain ⟨hmem, hname⟩ := query_name hfound
    obtain ⟨hcurrent, hpending⟩ := hsound.values prop hmem
    rw [isNone_some, if_neg (show ¬ false = true by decide), getD_some, if_neg (by simp)]
    have hchange : pendingChange output request = (request.pending && prop.is_pending) := by
      rw [pendingChange, hfound]
      rfl
    have hdone : ∀ prop', prop' = request.applied (some prop) → prop'.current.Ok ∧ prop'.pending.Ok →
        Changes n output request (finishChange n output request false (request.pending && prop.is_pending) prop') := by
      rintro prop' rfl hok
      rw [← hfound] at hok
      have hdone : Changes n output request _ := .done hok
      rwa [hfound, hchange] at hdone
    obtain ⟨prop_value, hvalue⟩ :
      ∃ v, v = if (request.pending && prop.is_pending) = true then prop.pending else prop.current := ⟨_, rfl⟩
    rw [← hvalue]
    split
    · exact .failed BadMatch (by decide)
    next hformats =>
      split
      · exact .failed BadMatch (by decide)
      next htypes =>
        split
        next hadds =>
          split
          · exact .failed BadAlloc (by decide)
          next new hnew =>
            have holdok : prop_value.Ok := by
              rw [hvalue]
              split
              · exact hpending
              · exact hcurrent
            obtain ⟨rfl, hok⟩ := newValue_spec hfits hformat (by
              intro hmode
              refine ⟨holdok, ?_, ?_⟩
              · by_contra hno
                exact hformats ⟨hno, hmode⟩
              · by_contra hno
                exact htypes ⟨hno, hmode⟩) hnew
            split
            · exact .failed BadValue (by decide)
            · apply hdone
              · unfold RRChange.applied
                dsimp only
                split
                next h => rw [hvalue, if_pos h]
                next h => rw [hvalue, if_neg h]
              · split
                · exact ⟨hcurrent, hok⟩
                · exact ⟨hok, hpending⟩
        next hnothing =>
          apply hdone
          · unfold RRChange.applied
            dsimp only
            rw [if_neg hnothing]
          · exact ⟨hcurrent, hpending⟩

theorem applied_name (request : RRChange) (output : RROutputRec) :
    (request.applied (RRQueryOutputProperty output request.property)).propertyName = request.property := by
  cases hfound : RRQueryOutputProperty output request.property with
  | none => rfl
  | some prop =>
    have hname := (query_name hfound).2
    unfold RRChange.applied
    dsimp only
    split
    · split
      · exact hname
      · exact hname
    · exact hname

/-- A notice about the desktop leaves the properties alone. -/
theorem RRNoticePropertyChange_frame (n : ℕ) (output : RROutputRec) (property : ℕ) (value : RRPropertyValueRec) :
    (RRNoticePropertyChange n output property value).id = output.id ∧
      (RRNoticePropertyChange n output property value).properties = output.properties ∧
      (RRNoticePropertyChange n output property value).pendingProperties = output.pendingProperties := by
  unfold RRNoticePropertyChange
  split
  · exact ⟨rfl, rfl, rfl⟩
  · exact ⟨rfl, rfl, rfl⟩

/-- What is left of an output when a property has its value. -/
theorem finishChange_spec (n : ℕ) (output : RROutputRec) (request : RRChange) (add onPending : Bool) (prop : RRPropertyRec) :
    let r := finishChange n output request add onPending prop
    r.output.properties = (putProperty add prop output).properties ∧ r.output.id = output.id ∧
      r.output.pendingProperties = (onPending || output.pendingProperties) ∧
      r.events = if request.sendevent then [{ output := output.id, atom := prop.propertyName, state := .PropertyNewValue }] else [] := by
  obtain ⟨hid, hproperties, hpending⟩ :=
    RRNoticePropertyChange_frame n (putProperty add prop output) prop.propertyName prop.current
  cases onPending with
  | true => exact ⟨rfl, rfl, rfl, rfl⟩
  | false =>
    refine ⟨hproperties, hid, hpending, ?_⟩
    change (if request.sendevent then [xRROutputPropertyNotifyEvent.mk
      (RRNoticePropertyChange n (putProperty add prop output) prop.propertyName prop.current).id prop.propertyName
        NotifyState.PropertyNewValue] else []) = _
    rw [hid]
    rfl

theorem query_congr {o₁ o₂ : RROutputRec} (h : o₁.properties = o₂.properties) : RRQueryOutputProperty o₁ = RRQueryOutputProperty o₂ := by
  funext k
  unfold RRQueryOutputProperty
  rw [h]

/-- What a change that succeeds leaves. -/
theorem finishChange_query (n : ℕ) (output : RROutputRec) (request : RRChange) :
    RRQueryOutputProperty (finishChange n output request (RRQueryOutputProperty output request.property).isNone
      (pendingChange output request) (request.applied (RRQueryOutputProperty output request.property))).output =
      update (RRQueryOutputProperty output) request.property
        (some (request.applied (RRQueryOutputProperty output request.property))) := by
  have hname := applied_name request output
  rw [query_congr (finishChange_spec n output request _ _ _).1, query_putProperty]
  · rw [hname]
  · rw [hname]

theorem finishChange_sound (n : ℕ) (hsound : Sound output)
    (hok : (request.applied (RRQueryOutputProperty output request.property)).current.Ok ∧
      (request.applied (RRQueryOutputProperty output request.property)).pending.Ok) :
    Sound (finishChange n output request (RRQueryOutputProperty output request.property).isNone
      (pendingChange output request) (request.applied (RRQueryOutputProperty output request.property))).output := by
  have hput : Sound (putProperty (RRQueryOutputProperty output request.property).isNone
      (request.applied (RRQueryOutputProperty output request.property)) output) := by
    apply hsound.put
    · rw [applied_name request output]
    · exact hok
  have hproperties := (finishChange_spec n output request (RRQueryOutputProperty output request.property).isNone
    (pendingChange output request) (request.applied (RRQueryOutputProperty output request.property))).1
  constructor
  · rw [hproperties]
    exact hput.names
  · rw [hproperties]
    exact hput.values

/-! ## Posts -/

/-- The bytes of a value that `memcmp` looks at are all of them. -/
theorem sameValue_iff {a b : PropertyValue} (ha : a.Ok) (hb : b.Ok) : sameValue a b = true ↔ a = b := by
  constructor
  · intro hsame
    unfold sameValue at hsame
    simp only [Bool.and_eq_true, beq_iff_eq] at hsame
    obtain ⟨⟨⟨htype, hformat⟩, hsize⟩, hdata⟩ := hsame
    have hmax : PTRDIFF_MAX = 2 ^ 63 - 1 := rfl
    have hbytes : toSize (a.size * a.format.tdiv 8) = a.data.length := by
      have hlength := ha.length
      have hobject := ha.object
      by_cases hneg : a.format < 0
      · have hzero := ha.units hneg
        rw [hlength, hzero]
        simp [toSize]
      · have hdiv : a.format.tdiv 8 = ((sizeInBytes a.format : ℕ) : ℤ) := by
          unfold sizeInBytes
          rw [Int.shiftRight_eq_div_pow, Int.tdiv_eq_ediv_of_nonneg (by omega), Int.toNat_of_nonneg (by omega)]
          rfl
        rw [hdiv, hlength]
        apply toSize_natCast
        omega
    have hlen : b.data.length = a.data.length := by
      rw [ha.length, hb.length, hsize, hformat]
    rw [hbytes, ← hlen, take_length] at hdata
    obtain ⟨_, _, _, _⟩ := a
    simp_all
  · rintro rfl
    unfold sameValue
    simp

/-- The property after a post. -/
def postedProperty (prop : RRPropertyRec) : RRPropertyRec :=
  if prop.is_pending = true ∧ prop.pending ≠ prop.current then { prop with current := prop.pending } else prop

@[simp] theorem postedProperty_name (prop : RRPropertyRec) : (postedProperty prop).propertyName = prop.propertyName := by
  unfold postedProperty
  split <;> rfl

@[simp] theorem postedProperty_pending (prop : RRPropertyRec) : (postedProperty prop).pending = prop.pending := by
  unfold postedProperty
  split <;> rfl

@[simp] theorem postedProperty_is_pending (prop : RRPropertyRec) : (postedProperty prop).is_pending = prop.is_pending := by
  unfold postedProperty
  split <;> rfl

/-- The event for a property that a post writes. -/
def postedEvent (id : ℕ) (prop : RRPropertyRec) : xRROutputPropertyNotifyEvent :=
  { output := id, atom := prop.propertyName, state := .PropertyNewValue }

variable {alloc : ℕ → Bool}

/-- The request that a post makes puts the pending value. -/
theorem postRequest_applied (hok : prop.pending.Ok) :
    (postRequest alloc prop).applied (some prop) = { prop with current := prop.pending } := by
  have honto : (postRequest alloc prop).onto .Replace prop.current = prop.pending := hok.onto_replace rfl rfl rfl rfl prop.current
  unfold RRChange.applied
  dsimp only
  change { prop with current := (postRequest alloc prop).onto .Replace prop.current } = _
  rw [honto]

theorem postRequest_fits (hok : prop.pending.Ok) : (postRequest alloc prop).Fits where
  units := hok.range
  covers := le_of_eq hok.length.symm
  object := hok.object

/-- With memory for the value, the request of a post succeeds. -/
theorem postRequest_success (hfound : RRQueryOutputProperty output prop.propertyName = some prop)
    (hok : prop.pending.Ok) (halloc : alloc prop.propertyName = true) :
    (RRChangeOutputProperty n output (postRequest alloc prop)).ret = Success := by
  unfold RRChangeOutputProperty
  dsimp only
  have hquery : RRQueryOutputProperty output (postRequest alloc prop).property = some prop := hfound
  rw [hquery, isNone_some, if_neg (by simp)]
  rw [if_neg (by simp [postRequest]), if_neg (by simp [postRequest]), if_pos (.inl rfl)]
  have hroom : ∀ value, newValue (postRequest alloc prop).toValueRequest .Replace value ≠ none := by
    intro value
    exact isSome_iff_ne_none.1 (newValue_isSome hok rfl rfl halloc value)
  split
  next hnone => exact absurd hnone (hroom _)
  · rw [if_neg (by simp [postRequest])]
    rfl

/-- What the post has done to the properties before `rest`, and has still to do. -/
structure Posting (id : ℕ) (done rest : List RRPropertyRec) (r : Returned Bool) : Prop where
  properties : r.output.properties = done.map postedProperty ++ rest
  outputId : r.output.id = id
  ret : r.ret = true
  events : r.events = (done.filter fun prop => decide (prop.is_pending = true ∧ prop.pending ≠ prop.current)).map (postedEvent id)

variable {id : ℕ} {done rest : List RRPropertyRec} {r : Returned Bool}

/-- A property of the loop that is left as it is. -/
theorem Posting.skip (h : Posting id done (prop :: rest) r)
    (hsame : ¬ (prop.is_pending = true ∧ prop.pending ≠ prop.current)) : Posting id (done ++ [prop]) rest r where
  properties := by
    have hprop : postedProperty prop = prop := if_neg hsame
    rw [h.properties, map_append, map_singleton, hprop, append_assoc]
    rfl
  outputId := h.outputId
  ret := h.ret
  events := by
    rw [filter_append, filter_singleton, decide_eq_false hsame, cond_false, append_nil]
    exact h.events

/-- A property of the loop that is written. -/
theorem Posting.post
    (h : Posting id done (prop :: rest) r) (hsound : Sound r.output) (hdiffer : prop.is_pending = true ∧ prop.pending ≠ prop.current)
    (halloc : alloc prop.propertyName = true) :
    let change := RRChangeOutputProperty n r.output (postRequest alloc prop)
    Posting id (done ++ [prop]) rest
        { ret := r.ret && change.ret == Success, output := change.output, events := r.events ++ change.events } ∧
      Sound change.output ∧ change.output.pendingProperties = r.output.pendingProperties := by
  intro change
  have hmem : prop ∈ r.output.properties := by
    rw [h.properties]
    exact mem_append_right _ mem_cons_self
  obtain ⟨hcurrent, hpending⟩ := hsound.values prop hmem
  have hfound := query_mem hsound hmem
  have hsuccess : change.ret = Success := postRequest_success hfound hpending halloc
  have happlied : (postRequest alloc prop).applied (RRQueryOutputProperty r.output (postRequest alloc prop).property) =
      postedProperty prop := by
    rw [show RRQueryOutputProperty r.output (postRequest alloc prop).property = some prop from hfound, postRequest_applied hpending,
      postedProperty, if_pos hdiffer]
  have hpend : pendingChange r.output (postRequest alloc prop) = false := rfl
  have hnotnew : (RRQueryOutputProperty r.output (postRequest alloc prop).property).isNone = false := by
    rw [show RRQueryOutputProperty r.output (postRequest alloc prop).property = some prop from hfound]
    rfl
  have hchanges : Changes n r.output (postRequest alloc prop) change :=
    RRChangeOutputProperty_changes n hsound (postRequest_fits hpending) hpending.format
  generalize change = c at hchanges hsuccess
  cases hchanges with
  | failed rc hrc => exact absurd hsuccess hrc
  | done hok =>
    have hresult := finishChange_sound n hsound hok
    obtain ⟨hproperties, hid, hflag, hevents⟩ := finishChange_spec n r.output (postRequest alloc prop)
      (RRQueryOutputProperty r.output (postRequest alloc prop).property).isNone (pendingChange r.output (postRequest alloc prop))
      ((postRequest alloc prop).applied (RRQueryOutputProperty r.output (postRequest alloc prop).property))
    -- no other property of the list has the name
    have hothers : ∀ q ∈ done.map postedProperty ++ rest, q.propertyName ≠ prop.propertyName := by
      have hnames := hsound.names
      rw [h.properties, map_append, map_cons, nodup_middle, nodup_cons, ← map_append] at hnames
      intro q hq heq
      exact hnames.1 (heq ▸ mem_map_of_mem hq)
    have hkeep : ∀ l : List RRPropertyRec, (∀ q ∈ l, q.propertyName ≠ prop.propertyName) →
        (l.map fun q => if q.propertyName = (postedProperty prop).propertyName then postedProperty prop else q) = l := by
      intro l hl
      rw [postedProperty_name]
      refine (map_congr_left fun q hq => ?_).trans (map_id l)
      exact if_neg (hl q hq)
    refine ⟨⟨?_, ?_, ?_, ?_⟩, hresult, ?_⟩
    · refine Eq.trans hproperties ?_
      rw [hnotnew, happlied]
      change (r.output.properties.map fun q => _) = _
      rw [h.properties, map_append, map_cons, hkeep _ fun q hq => hothers q (mem_append_left _ hq),
        hkeep _ fun q hq => hothers q (mem_append_right _ hq), postedProperty_name, if_pos rfl, map_append,
        append_assoc]
      rfl
    · exact hid.trans h.outputId
    · rw [h.ret]
      rfl
    · rw [filter_append, filter_singleton, decide_eq_true hdiffer, map_append, ← h.events]
      refine congrArg (r.events ++ ·) (hevents.trans ?_)
      rw [happlied, postedProperty_name, h.outputId]
      rfl
    · rw [hflag]
      rfl

/-- The loop posts all properties when there is memory for those that differ. -/
theorem postLoop_spec (rest : List RRPropertyRec) (h : Posting id done rest r) (hsound : Sound r.output)
    (halloc : ∀ prop ∈ rest, prop.is_pending = true → prop.pending ≠ prop.current → alloc prop.propertyName = true) :
    Posting id (done ++ rest) [] (postLoop n alloc rest r) ∧ Sound (postLoop n alloc rest r).output ∧
      (postLoop n alloc rest r).output.pendingProperties = r.output.pendingProperties := by
  induction rest generalizing done r with
  | nil =>
    rw [append_nil]
    exact ⟨h, hsound, rfl⟩
  | cons prop rest ih =>
    have hmem : prop ∈ r.output.properties := by
      rw [h.properties]
      exact mem_append_right _ mem_cons_self
    have hlater := fun q hq => halloc q (mem_cons_of_mem _ hq)
    have hassoc : done ++ prop :: rest = (done ++ [prop]) ++ rest := by simp
    obtain ⟨hcurrent, hpending⟩ := hsound.values prop hmem
    rw [hassoc]
    unfold postLoop
    split
    next hno =>
      apply ih (h.skip _) hsound hlater
      rw [hno]
      exact fun hcontra => absurd hcontra.1 (by decide)
    next hyes =>
      split
      next hsame =>
        apply ih (h.skip _) hsound hlater
        exact fun hcontra => hcontra.2 ((sameValue_iff hpending hcurrent).1 hsame)
      next hdiffer =>
        have hdo : prop.is_pending = true ∧ prop.pending ≠ prop.current := by
          refine ⟨by simpa using hyes, ?_⟩
          exact fun heq => hdiffer ((sameValue_iff hpending hcurrent).2 heq)
        obtain ⟨hposting, hsound', hflag⟩ := h.post (n := n) hsound hdo (halloc prop mem_cons_self hdo.1 hdo.2)
        obtain ⟨hend, hendsound, hendflag⟩ := ih hposting hsound' hlater
        exact ⟨hend, hendsound, hendflag.trans hflag⟩

/-- **A post** with memory for the values that differ copies them all. -/
theorem RRPostPendingProperties_spec (hsound : Sound output) (hflag : output.pendingProperties = true)
    (halloc : ∀ prop ∈ output.properties, prop.is_pending = true → prop.pending ≠ prop.current → alloc prop.propertyName = true) :
    let r := RRPostPendingProperties n output alloc
    r.ret = true ∧ r.output.id = output.id ∧ r.output.properties = output.properties.map postedProperty ∧
      r.output.pendingProperties = false ∧ Sound r.output ∧
      r.events = (output.properties.filter fun prop => decide (prop.is_pending = true ∧ prop.pending ≠ prop.current)).map
        (postedEvent output.id) := by
  intro r
  have hstart : Posting output.id [] output.properties
      { ret := true, output := { output with pendingProperties := false }, events := [] } := ⟨rfl, rfl, rfl, rfl⟩
  have hr : r = postLoop n alloc output.properties
      { ret := true, output := { output with pendingProperties := false }, events := [] } := by
    change RRPostPendingProperties n output alloc = _
    unfold RRPostPendingProperties
    rw [if_neg (by simp [hflag])]
  obtain ⟨hend, hresult, hdone⟩ : Posting output.id ([] ++ output.properties) [] r ∧ Sound r.output ∧
      r.output.pendingProperties = false := by
    rw [hr]
    exact postLoop_spec output.properties hstart ⟨hsound.names, hsound.values⟩ halloc
  exact ⟨hend.ret, hend.outputId, hend.properties.trans (append_nil _), hdone, hresult, hend.events⟩

variable {o : RROutputRec}

theorem query_posted (h : o.properties = output.properties.map postedProperty) (p : ℕ) :
    RRQueryOutputProperty o p = (RRQueryOutputProperty output p).map postedProperty := by
  unfold RRQueryOutputProperty
  rw [h, find?_map]
  congr 1
  apply congrArg (fun f => find? f output.properties)
  funext q
  exact congrArg (· == p) (postedProperty_name q)

/-! ## One request -/

/-- A client that may delete a property asks for it, and `value` is what it is shown. -/
structure DeleteAsked (atoms : Atoms) (output : RROutputRec) (stuff : xRRGetOutputPropertyReq) (value : PropertyValue) : Prop where
  atom : atoms.ValidAtom stuff.property = true
  type : stuff.type = AnyPropertyType ∨ atoms.ValidAtom stuff.type = true
  delete : stuff.delete_ = 1
  open_ : ∃ prop, RRQueryOutputProperty output stuff.property = some prop ∧ prop.immutable_ = false
  shown : RRGetOutputProperty output stuff.property stuff.pending = some value

/-- The requests that the code handles well. -/
def Meets (atoms : Atoms) (s : Track) : PropertyRequest → Prop
  | .configure _ => True
  | .change _ => True
  | .delete property => (RRQueryOutputProperty s.output property).isSome → s.output.id < 2 ^ 8
  | .post alloc =>
    s.output.pendingProperties = true → ∀ prop ∈ s.output.properties, prop.is_pending = true → prop.pending ≠ prop.current →
      (s.asked.value prop.propertyName).isSome ∧ alloc prop.propertyName = true
  | .get stuff =>
    ∀ value, DeleteAsked atoms s.output stuff value →
      if otherType value stuff then value.size % 2 ^ 32 ≠ 0
      else replyBytesAfter value stuff = 0 → replyLength value stuff ≠ 0 → stuff.alloc = true

/-- The format of a change is one that a value can have. -/
def PropertyRequest.FormatOk : PropertyRequest → Prop
  | .change request => FitsShort request.format
  | _ => True

/-- What a step keeps and does. -/
structure Keeps (atoms : Atoms) (s : Track) (request : PropertyRequest) : Prop where
  sound : Sound (trackStep atoms s request).output
  tracks : Tracks (trackStep atoms s request).output (trackStep atoms s request).asked
  id : (trackStep atoms s request).output.id = s.output.id
  right : Right s.output s.asked request (outcome atoms s.output request)

variable {atoms : Atoms} {s : Track}

theorem Keeps.of_outcome {request : PropertyRequest} (hr : outcome atoms s.output request = r)
    (hsound : Sound r.output) (htracks : Tracks r.output (askedStep s.output s.asked request r)) (hid : r.output.id = s.output.id)
    (hright : Right s.output s.asked request r) : Keeps atoms s request := by
  subst hr
  exact ⟨hsound, htracks, hid, hright⟩

/-- A request that fails. -/
theorem Keeps.of_failed {request : PropertyRequest} (hsound : Sound s.output) (htracks : Tracks s.output s.asked)
    (hr : outcome atoms s.output request = r) (hret : r.ret = false) (hout : r.output = s.output) (hevents : r.events = [])
    (hpost : ∀ alloc, request ≠ .post alloc) (hquiet : notices s.output s.output false request = []) : Keeps atoms s request := by
  have hasked : askedStep s.output s.asked request r = s.asked := if_pos hret
  apply Keeps.of_outcome hr
  · rw [hout]
    exact hsound
  · rw [hasked, hout]
    exact htracks
  · rw [hout]
  · constructor
    · exact fun _ => ⟨hout, hevents⟩
    · intro p v hafter hbefore
      rw [hout] at hafter
      exact absurd hafter hbefore
    · intro p hbefore hafter
      rw [hout] at hafter
      exact absurd hafter hbefore
    · exact fun alloc heq => absurd heq (hpost alloc)
    · rw [hevents, hout, hret, hquiet]

theorem current_of_query (h : RRQueryOutputProperty o p = some prop) : current o p = some prop.current := by
  rw [current, h]
  rfl

theorem current_eq_none : current o p = none ↔ RRQueryOutputProperty o p = none := by
  unfold current
  rw [map_eq_none_iff]

variable {found : Option RRPropertyRec}

theorem current_update (hquery : RRQueryOutputProperty o = update (RRQueryOutputProperty output) property found) :
    current o = update (current output) property (found.map (·.current)) := by
  funext p
  unfold current
  rw [hquery, update_apply, update_apply]
  split <;> rfl

variable {asked : Asked}

/-- A request that succeeds and writes one property. -/
theorem Right.of_put {request : PropertyRequest} (hret : r.ret = true)
    (hquery : RRQueryOutputProperty r.output = update (RRQueryOutputProperty output) property (some prop))
    (hmay : current output property ≠ some prop.current → MayChange output asked property prop.current request)
    (hpost : ∀ alloc, request ≠ .post alloc) (hevents : r.events = notices output r.output r.ret request) :
    Right output asked request r where
  failed := by
    rw [hret]
    exact fun hno => absurd hno (by decide)
  changed := by
    intro p v hafter hbefore
    rw [current_update hquery, update_apply] at hafter
    split at hafter
    next heq =>
      subst heq
      obtain rfl := some.inj hafter
      exact hmay hbefore
    · exact absurd hafter hbefore
  removed := by
    intro p hbefore hafter
    rw [current_update hquery, update_apply] at hafter
    split at hafter
    · exact absurd hafter (by simp)
    · exact absurd hafter hbefore
  posted := fun alloc heq => absurd heq (hpost alloc)
  notified := hevents

/-- A request that succeeds and removes one property. -/
theorem Right.of_remove {request : PropertyRequest} (hret : r.ret = true)
    (hquery : RRQueryOutputProperty r.output = update (RRQueryOutputProperty output) property none)
    (hmay : MayRemove property request)
    (hpost : ∀ alloc, request ≠ .post alloc) (hevents : r.events = notices output r.output r.ret request) :
    Right output asked request r where
  failed := by
    rw [hret]
    exact fun hno => absurd hno (by decide)
  changed := by
    intro p v hafter hbefore
    rw [current_update hquery, update_apply] at hafter
    split at hafter
    · exact absurd hafter (by simp)
    · exact absurd hafter hbefore
  removed := by
    intro p hbefore hafter
    rw [current_update hquery, update_apply] at hafter
    split at hafter
    next heq =>
      rw [heq]
      exact hmay
    · exact absurd hafter hbefore
  posted := fun alloc heq => absurd heq (hpost alloc)
  notified := hevents

/-- A property of which nothing is asked any more. -/
theorem Tracks.forget (htracks : Tracks output asked)
    (hquery : RRQueryOutputProperty o = update (RRQueryOutputProperty output) property found)
    (hflag : o.pendingProperties = output.pendingProperties) : Tracks o (asked.forget property) := by
  unfold Asked.forget
  constructor
  · intro p v hv
    dsimp only at hv
    rw [update_apply] at hv
    split at hv
    · exact absurd hv (by simp)
    next hne =>
      rw [hquery, update_of_ne hne]
      exact htracks.wanted p v hv
  · intro p hdue
    dsimp only at hdue ⊢
    rw [update_apply] at hdue ⊢
    split at hdue
    · exact absurd hdue (by decide)
    next hne =>
      rw [if_neg hne, hflag]
      exact htracks.due p hdue

/-- What is asked for and due after a change that succeeds. -/
theorem Tracks.change (htracks : Tracks output asked)
    (hquery : RRQueryOutputProperty o = update (RRQueryOutputProperty output) request.property
      (some (request.applied (RRQueryOutputProperty output request.property))))
    (hflag : o.pendingProperties = (pendingChange output request || output.pendingProperties)) :
    Tracks o (asked.change request (RRQueryOutputProperty output request.property)) := by
  have hmono : output.pendingProperties = true → o.pendingProperties = true := by
    intro h
    rw [hflag, h, Bool.or_true]
  -- the properties other than the one that is changed
  have hother : ∀ p v, p ≠ request.property → asked.value p = some v →
      ∃ prop, RRQueryOutputProperty o p = some prop ∧ prop.is_pending = true ∧ prop.pending = v := by
    intro p v hne hv
    rw [hquery, update_of_ne hne]
    exact htracks.wanted p v hv
  cases hfound : RRQueryOutputProperty output request.property with
  | none =>
    constructor
    · intro p v hv
      apply hother p v _ hv
      rintro rfl
      obtain ⟨prop, hprop, -⟩ := htracks.wanted _ v hv
      rw [hfound] at hprop
      exact absurd hprop (by simp)
    · exact fun p hdue => ⟨hmono (htracks.due p hdue).1, (htracks.due p hdue).2⟩
  | some prop =>
    rw [hfound] at hquery
    unfold Asked.change
    dsimp only
    split
    next hasks =>
      have happlied : request.applied (some prop) = { prop with pending := request.onto request.mode prop.pending } := by
        unfold RRChange.applied
        dsimp only
        rw [if_pos hasks.2, if_pos hasks.1]
      have hchange : pendingChange output request = true := by
        rw [pendingChange, hfound]
        exact hasks.1
      unfold Asked.ask
      constructor
      · intro p v hv
        dsimp only at hv
        by_cases heq : p = request.property
        · subst heq
          rw [update_self] at hv
          rw [hquery, update_self, happlied]
          exact ⟨_, rfl, (Bool.and_eq_true_iff.1 hasks.1).2, some.inj hv⟩
        · rw [update_of_ne heq] at hv
          exact hother p v heq hv
      · intro p hdue
        dsimp only at hdue ⊢
        refine ⟨by rw [hflag, hchange, Bool.true_or], ?_⟩
        by_cases heq : p = request.property
        · subst heq
          rw [update_self]
          rfl
        · rw [update_of_ne heq] at hdue ⊢
          exact (htracks.due p hdue).2
    next hkeeps =>
      have happlied : (request.applied (some prop)).is_pending = prop.is_pending ∧
          (request.applied (some prop)).pending = prop.pending := by
        unfold RRChange.applied
        dsimp only
        split
        next hadds =>
          rw [if_neg fun h => hkeeps ⟨h, hadds⟩]
          exact ⟨rfl, rfl⟩
        · exact ⟨rfl, rfl⟩
      constructor
      · intro p v hv
        by_cases heq : p = request.property
        · subst heq
          obtain ⟨other, hother', hpending, hvalue⟩ := htracks.wanted _ v hv
          rw [hfound] at hother'
          obtain rfl := some.inj hother'
          rw [hquery, update_self]
          exact ⟨_, rfl, happlied.1.trans hpending, happlied.2.trans hvalue⟩
        · exact hother p v heq hv
      · exact fun p hdue => ⟨hmono (htracks.due p hdue).1, (htracks.due p hdue).2⟩

/-- A change writes the current value only when it is not for the pending one. -/
theorem applied_current {v : PropertyValue} (hafter : (request.applied (RRQueryOutputProperty output request.property)).current = v)
    (hbefore : current output request.property ≠ some v) :
    pendingChange output request = false ∧
      v = (current output request.property).elim (request.onto .Replace initialValue) (request.onto request.mode) := by
  unfold pendingChange current at *
  cases hfound : RRQueryOutputProperty output request.property with
  | none =>
    rw [hfound] at hafter
    exact ⟨Bool.and_false _, hafter.symm⟩
  | some prop =>
    rw [hfound] at hafter hbefore
    unfold RRChange.applied at hafter
    dsimp only at hafter
    split at hafter
    · split at hafter
      · exact absurd (congrArg some hafter) hbefore
      next hno => exact ⟨Bool.eq_false_iff.2 hno, hafter.symm⟩
    · exact absurd (congrArg some hafter) hbefore

/-- **A change** writes the value it is for. -/
theorem change_keeps {request : ChangeRequest} (hsound : Sound s.output) (htracks : Tracks s.output s.asked)
    (hformat : FitsShort request.format) : Keeps atoms s (.change request) := by
  have hchanges := RRChangeOutputProperty_changes atoms.non_desktop_prop hsound request.fits hformat
  obtain ⟨r, hr⟩ : ∃ r, RRChangeOutputProperty atoms.non_desktop_prop s.output request.toRRChange = r := ⟨_, rfl⟩
  have hout : outcome atoms s.output (.change request) = { ret := r.ret == Success, output := r.output, events := r.events } := by
    rw [← hr]
    rfl
  rw [hr] at hchanges
  cases hchanges with
  | failed rc hrc =>
    apply Keeps.of_failed hsound htracks hout
    · exact beq_eq_false_iff_ne.2 hrc
    · rfl
    · rfl
    · exact fun alloc => by simp
    · rfl
  | done hok =>
    have hquery := finishChange_query atoms.non_desktop_prop s.output request.toRRChange
    have hresult := finishChange_sound atoms.non_desktop_prop hsound hok
    obtain ⟨-, hid, hflag, hevents⟩ := finishChange_spec atoms.non_desktop_prop s.output request.toRRChange
      (RRQueryOutputProperty s.output request.property).isNone (pendingChange s.output request.toRRChange)
      (request.applied (RRQueryOutputProperty s.output request.property))
    have hname := applied_name request.toRRChange s.output
    obtain ⟨f, hf⟩ : ∃ f, f = finishChange atoms.non_desktop_prop s.output request.toRRChange
      (RRQueryOutputProperty s.output request.property).isNone (pendingChange s.output request.toRRChange)
      (request.applied (RRQueryOutputProperty s.output request.property)) := ⟨_, rfl⟩
    have hret : f.ret = Success := by
      rw [hf]
      rfl
    rw [← hf] at hquery hresult hid hflag hevents hout
    rw [hret] at hout
    apply Keeps.of_outcome hout hresult
    · exact htracks.change hquery hflag
    · exact hid
    · apply Right.of_put rfl hquery
      · exact fun hbefore => ⟨rfl, applied_current rfl hbefore⟩
      · exact fun alloc => by simp
      · refine hevents.trans ?_
        rw [hname]
        rfl

/-! ## The other requests -/

/-- The property after it is configured. -/
def RRConfigure.configured (request : RRConfigure) (prop : RRPropertyRec) : RRPropertyRec :=
  { prop with
    pending := if prop.is_pending ∧ request.pending = false then initialValue else prop.pending
    is_pending := request.pending
    range := request.range
    immutable_ := request.immutable_
    valid_values := request.values }

variable {old : RRPropertyRec}

/-- What a configuration works on. -/
theorem configured_spec {request : RRConfigure} (hsound : Sound output)
    (hold : old = (RRQueryOutputProperty output request.property).getD (RRCreateOutputProperty request.property)) :
    (request.configured old).propertyName = request.property ∧ (request.configured old).current.Ok ∧
      (request.configured old).pending.Ok ∧
      (current output request.property ≠ some old.current → current output request.property = none ∧ old.current = initialValue) := by
  have hspec : old.propertyName = request.property ∧ old.current.Ok ∧ old.pending.Ok ∧
      (current output request.property ≠ some old.current → current output request.property = none ∧ old.current = initialValue) := by
    unfold current
    cases hfound : RRQueryOutputProperty output request.property with
    | none =>
      rw [hold, hfound]
      exact ⟨rfl, initialValue_ok, initialValue_ok, fun _ => ⟨rfl, rfl⟩⟩
    | some prop =>
      rw [hold, hfound]
      obtain ⟨hcurrent, hpending⟩ := hsound.values prop (query_name hfound).1
      exact ⟨(query_name hfound).2, hcurrent, hpending, fun hno => absurd rfl hno⟩
  refine ⟨hspec.1, hspec.2.1, ?_, hspec.2.2.2⟩
  change (if old.is_pending = true ∧ request.pending = false then initialValue else old.pending).Ok
  split
  · exact initialValue_ok
  · exact hspec.2.2.1

/-- A property that stays pending keeps its pending value. -/
theorem Tracks.configure {request : RRConfigure} (htracks : Tracks output asked)
    (hold : old = (RRQueryOutputProperty output request.property).getD (RRCreateOutputProperty request.property))
    (hquery : RRQueryOutputProperty o = update (RRQueryOutputProperty output) request.property (some (request.configured old)))
    (hflag : o.pendingProperties = output.pendingProperties) :
    Tracks o (if request.pending then asked else asked.forget request.property) := by
  split
  next hpending =>
    constructor
    · intro p v hv
      obtain ⟨prop, hprop, hprop_pending, hvalue⟩ := htracks.wanted p v hv
      rw [hquery, update_apply]
      split
      next heq =>
        subst heq
        rw [hprop] at hold
        obtain rfl : old = prop := hold
        refine ⟨_, rfl, hpending, ?_⟩
        change (if old.is_pending = true ∧ request.pending = false then initialValue else old.pending) = v
        rw [if_neg (by simp [hpending])]
        exact hvalue
      · exact ⟨prop, hprop, hprop_pending, hvalue⟩
    · intro p hdue
      rw [hflag]
      exact htracks.due p hdue
  · exact htracks.forget hquery hflag

/-- **A configuration** keeps the current value, and the pending one if there still is one. -/
theorem configure_keeps {request : RRConfigure} (hsound : Sound s.output) (htracks : Tracks s.output s.asked) :
    Keeps atoms s (.configure request) := by
  obtain ⟨r, hr⟩ : ∃ r, RRConfigureOutputProperty s.output request = r := ⟨_, rfl⟩
  have hout : outcome atoms s.output (.configure request) = { ret := r.ret == Success, output := r.output, events := r.events } := by
    rw [← hr]
    rfl
  have hfail : ∀ rc, rc ≠ Success → r = { ret := rc, output := s.output, events := [] } → Keeps atoms s (.configure request) := by
    rintro rc hrc rfl
    apply Keeps.of_failed hsound htracks hout
    · exact beq_eq_false_iff_ne.2 hrc
    · rfl
    · rfl
    · exact fun alloc => by simp
    · rfl
  unfold RRConfigureOutputProperty at hr
  dsimp only at hr
  split at hr
  · exact hfail BadAlloc (by decide) hr.symm
  split at hr
  · exact hfail BadAccess (by decide) hr.symm
  split at hr
  · exact hfail BadMatch (by decide) hr.symm
  split at hr
  · exact hfail BadAlloc (by decide) hr.symm
  obtain ⟨old, hold⟩ : ∃ old, old = (RRQueryOutputProperty s.output request.property).getD (RRCreateOutputProperty request.property) :=
    ⟨_, rfl⟩
  rw [← hold] at hr
  obtain ⟨hname, hcurrent, hpending, hkept⟩ := configured_spec hsound hold
  have hadd : (RRQueryOutputProperty s.output request.property).isNone =
      (RRQueryOutputProperty s.output (request.configured old).propertyName).isNone := by rw [hname]
  have hquery := query_putProperty hadd
  have hresult := hsound.put hadd ⟨hcurrent, hpending⟩
  rw [hname] at hquery
  subst hr
  apply Keeps.of_outcome hout hresult
  · exact htracks.configure hold hquery rfl
  · rfl
  · apply Right.of_put rfl hquery
    · exact fun hbefore => ⟨rfl, hkept hbefore⟩
    · exact fun alloc => by simp
    · rfl

/-- **A deletion** is announced for the output when its id fits the byte. -/
theorem delete_keeps {property : ℕ} (hsound : Sound s.output) (htracks : Tracks s.output s.asked)
    (hmeets : Meets atoms s (.delete property)) : Keeps atoms s (.delete property) := by
  obtain ⟨r, hr⟩ : ∃ r, RRDeleteOutputProperty s.output property = r := ⟨_, rfl⟩
  have hout : outcome atoms s.output (.delete property) = { ret := true, output := r.output, events := r.events } := by
    rw [← hr]
    rfl
  unfold RRDeleteOutputProperty at hr
  cases hfound : RRQueryOutputProperty s.output property with
  | none =>
    rw [hfound] at hr
    subst hr
    have hquery : RRQueryOutputProperty s.output = update (RRQueryOutputProperty s.output) property none :=
      (update_eq_self_iff.2 hfound.symm).symm
    apply Keeps.of_outcome hout hsound
    · exact htracks.forget hquery rfl
    · rfl
    · apply Right.of_remove rfl hquery (show MayRemove property (.delete property) from rfl)
      · exact fun alloc => by simp
      · rw [notices, hfound]
        rfl
  | some prop =>
    rw [hfound] at hr
    subst hr
    have hquery := query_unlink hsound property
    have hid : s.output.id % 2 ^ 8 = s.output.id := Nat.mod_eq_of_lt (hmeets (by rw [hfound]; rfl))
    apply Keeps.of_outcome hout (hsound.unlink property)
    · exact htracks.forget hquery rfl
    · rfl
    · apply Right.of_remove rfl hquery (show MayRemove property (.delete property) from rfl)
      · exact fun alloc => by simp
      · rw [notices, hfound]
        change [RRDeleteProperty s.output prop] = _
        rw [RRDeleteProperty, hid, (query_name hfound).2]
        rfl

theorem query_of_name {prop : RRPropertyRec} (hsound : Sound output) (hprop : prop ∈ output.properties) :
    current output prop.propertyName = some prop.current := current_of_query (query_mem hsound hprop)

/-- **A post** copies the values that were asked for. -/
theorem post_keeps (hsound : Sound s.output) (htracks : Tracks s.output s.asked)
    (hmeets : Meets atoms s (.post alloc)) : Keeps atoms s (.post alloc) := by
  obtain ⟨r, hr⟩ : ∃ r, RRPostPendingProperties atoms.non_desktop_prop s.output alloc = r := ⟨_, rfl⟩
  have hout : outcome atoms s.output (.post alloc) = r := hr
  cases hflag : s.output.pendingProperties with
  | false =>
    unfold RRPostPendingProperties at hr
    rw [if_pos hflag] at hr
    subst hr
    have hnodue : ∀ p, s.asked.due p ≠ true := by
      intro p hdue
      have := (htracks.due p hdue).1
      rw [hflag] at this
      exact absurd this (by decide)
    apply Keeps.of_outcome hout hsound
    · exact ⟨htracks.wanted, fun p hdue => absurd hdue (by simp [askedStep])⟩
    · rfl
    · constructor
      · exact fun hno => absurd hno (by simp)
      · exact fun p v hafter hbefore => absurd hafter hbefore
      · exact fun p hbefore hafter => absurd hafter hbefore
      · exact fun _ _ _ p hdue => absurd hdue (hnodue p)
      · apply Eq.symm
        rw [notices, map_eq_nil_iff, filter_eq_nil_iff]
        intro prop hprop
        simp [query_of_name hsound hprop]
  | true =>
    obtain ⟨hret, hid, hproperties, hdone, hresult, hevents⟩ :=
      RRPostPendingProperties_spec (n := atoms.non_desktop_prop) hsound hflag fun prop hprop hpending hdiffer =>
        (hmeets hflag prop hprop hpending hdiffer).2
    rw [hr] at hret hid hproperties hdone hresult hevents
    have hquery := query_posted hproperties
    have hasked : askedStep s.output s.asked (.post alloc) r = { s.asked with due := fun _ => false } := by
      unfold askedStep
      rw [hret, if_neg (by decide)]
    apply Keeps.of_outcome hout hresult
    · rw [hasked]
      refine ⟨?_, fun p hdue => absurd hdue (by simp)⟩
      intro p v hv
      obtain ⟨prop, hprop, hpending, hvalue⟩ := htracks.wanted p v hv
      rw [hquery, hprop]
      exact ⟨_, rfl, by rw [postedProperty_is_pending, hpending], by rw [postedProperty_pending, hvalue]⟩
    · exact hid
    · constructor
      · rw [hret]
        exact fun hno => absurd hno (by decide)
      · intro p v hafter hbefore
        unfold current at hafter hbefore
        rw [hquery] at hafter
        cases hfound : RRQueryOutputProperty s.output p with
        | none =>
          rw [hfound] at hafter
          exact absurd hafter (by simp)
        | some prop =>
          rw [hfound] at hafter hbefore
          have hv : (postedProperty prop).current = v := some.inj hafter
          unfold postedProperty at hv
          split at hv
          next hdiffer =>
            -- the value is one that a change asked for
            obtain ⟨hmem, hname⟩ := query_name hfound
            obtain ⟨w, hw⟩ := isSome_iff_exists.1 (hmeets hflag prop hmem hdiffer.1 hdiffer.2).1
            rw [hname] at hw
            obtain ⟨other, hother, -, hvalue⟩ := htracks.wanted p w hw
            rw [hfound] at hother
            obtain rfl := some.inj hother
            change s.asked.value p = some v
            rw [hw, ← hvalue, ← hv]
          · exact absurd (congrArg some hv) hbefore
      · intro p hbefore hafter
        rw [current_eq_none, hquery, map_eq_none_iff] at hafter
        exact absurd (current_eq_none.2 hafter) hbefore
      · intro _ _ _ p hdue
        obtain ⟨v, hv⟩ := isSome_iff_exists.1 (htracks.due p hdue).2
        obtain ⟨prop, hprop, hpending, hvalue⟩ := htracks.wanted p v hv
        refine ⟨postedProperty prop, by rw [hquery, hprop]; rfl, ?_, ?_⟩
        · rw [postedProperty_pending, hv, hvalue]
        · unfold postedProperty
          split
          · rfl
          next hsame =>
            by_contra hne
            exact hsame ⟨hpending, fun heq => hne heq.symm⟩
      · rw [hevents]
        refine congrArg (map _) (filter_congr fun prop hprop => ?_)
        have hafter : current r.output prop.propertyName = some (postedProperty prop).current := by
          apply current_of_query
          rw [hquery, query_mem hsound hprop]
          rfl
        rw [hafter, decide_eq_decide]
        unfold postedProperty
        split
        next hdiffer =>
          refine ⟨fun _ heq => hdiffer.2 (some.inj heq), fun _ => hdiffer⟩
        next hsame => exact ⟨fun h => absurd h hsame, fun h => absurd rfl h⟩

variable {stuff : xRRGetOutputPropertyReq}

/-- What a reply leaves of the output: the property is gone when all of it was sent. -/
theorem sendout_keeps {reply : xRRGetOutputPropertyReply} {events : List xRROutputPropertyNotifyEvent}
    (hsound : Sound s.output) (htracks : Tracks s.output s.asked) (hfound : RRQueryOutputProperty s.output stuff.property = some prop)
    (hr : ProcRRGetOutputProperty atoms.ValidAtom s.output stuff = sendout s.output stuff reply events)
    (hevents : events = if stuff.delete_ = 1 ∧ reply.bytesAfter = 0 then
      [{ output := s.output.id, atom := stuff.property, state := .PropertyDelete }] else []) : Keeps atoms s (.get stuff) := by
  have hout : outcome atoms s.output (.get stuff) =
      { ret := true, output := (sendout s.output stuff reply events).output, events := events } := by
    unfold outcome
    dsimp only
    rw [hr]
    rfl
  unfold sendout at hout
  split at hout
  next hdelete =>
    have hquery := query_unlink hsound stuff.property
    have hgone : RRQueryOutputProperty (unlink stuff.property s.output) stuff.property = none := by
      rw [hquery, update_self]
    rw [if_pos hdelete] at hevents
    apply Keeps.of_outcome hout (hsound.unlink _)
    · have hasked : askedStep s.output s.asked (.get stuff)
          { ret := true, output := unlink stuff.property s.output, events := events } = s.asked.forget stuff.property := by
        unfold askedStep
        dsimp only
        rw [hgone]
        rfl
      rw [hasked]
      exact htracks.forget hquery rfl
    · rfl
    · apply Right.of_remove rfl hquery
      · exact ⟨rfl, hdelete.1⟩
      · exact fun alloc => by simp
      · rw [notices, hfound, hgone, hevents]
        rfl
  next hkeep =>
    have hquery : RRQueryOutputProperty s.output = update (RRQueryOutputProperty s.output) stuff.property (some prop) :=
      (update_eq_self_iff.2 hfound.symm).symm
    rw [if_neg hkeep] at hevents
    apply Keeps.of_outcome hout hsound
    · have hasked : askedStep s.output s.asked (.get stuff) { ret := true, output := s.output, events := events } = s.asked := by
        unfold askedStep
        dsimp only
        rw [hfound]
        rfl
      rw [hasked]
      exact htracks
    · rfl
    · apply Right.of_put rfl hquery
      · exact fun hno => absurd (current_of_query hfound) hno
      · exact fun alloc => by simp
      · rw [notices, hfound, hevents]
        rfl

/-- **A client's request** for a property removes it when all of it was sent. -/
theorem get_keeps (hsound : Sound s.output) (htracks : Tracks s.output s.asked)
    (hmeets : Meets atoms s (.get stuff)) : Keeps atoms s (.get stuff) := by
  obtain ⟨r, hr⟩ : ∃ r, ProcRRGetOutputProperty atoms.ValidAtom s.output stuff = r := ⟨_, rfl⟩
  have hout : outcome atoms s.output (.get stuff) = { ret := r.ret.1 == Success, output := r.output, events := r.events } := by
    rw [← hr]
    rfl
  have hfail : ∀ rc, rc ≠ Success → r = { ret := (rc, noReply), output := s.output, events := [] } → Keeps atoms s (.get stuff) := by
    rintro rc hrc rfl
    apply Keeps.of_failed hsound htracks hout
    · exact beq_eq_false_iff_ne.2 hrc
    · rfl
    · rfl
    · exact fun alloc => by simp
    · unfold notices
      dsimp only
      cases RRQueryOutputProperty s.output stuff.property <;> simp
  have hr' := hr
  unfold ProcRRGetOutputProperty at hr
  split at hr
  · exact hfail BadAtom (by decide) hr.symm
  next hatom =>
  split at hr
  · exact hfail BadValue (by decide) hr.symm
  next hdelete =>
  split at hr
  · exact hfail BadAtom (by decide) hr.symm
  next htype =>
  cases hfound : RRQueryOutputProperty s.output stuff.property with
  | none =>
    rw [hfound] at hr
    subst hr
    have hquery : RRQueryOutputProperty s.output = Function.update (RRQueryOutputProperty s.output) stuff.property none :=
      (update_eq_self_iff.2 hfound.symm).symm
    apply Keeps.of_outcome hout hsound
    · have hasked : askedStep s.output s.asked (.get stuff) { ret := Success == Success, output := s.output, events := [] } =
          s.asked.forget stuff.property := by
        unfold askedStep
        dsimp only
        rw [hfound]
        rfl
      rw [hasked]
      exact htracks.forget hquery rfl
    · rfl
    · constructor
      · exact fun hno => absurd hno (by simp)
      · exact fun p v hafter hbefore => absurd hafter hbefore
      · exact fun p hbefore hafter => absurd hafter hbefore
      · exact fun alloc heq => absurd heq (by simp)
      · rw [notices, hfound]
        rfl
  | some prop =>
    rw [hfound] at hr
    dsimp only at hr
    have hname := (query_name hfound).2
    split at hr
    · exact hfail BadAccess (by decide) hr.symm
    next himmutable =>
    obtain ⟨value, hvalue⟩ : ∃ value, RRGetOutputProperty s.output stuff.property stuff.pending = some value := by
      unfold RRGetOutputProperty
      rw [hfound]
      exact ⟨_, rfl⟩
    rw [hvalue] at hr
    dsimp only at hr
    -- the condition applies to a request that deletes
    have hcondition : stuff.delete_ = 1 →
        if otherType value stuff then value.size % 2 ^ 32 ≠ 0
        else replyBytesAfter value stuff = 0 → replyLength value stuff ≠ 0 → stuff.alloc = true := by
      intro hone
      apply hmeets value
      refine ⟨by simpa using hatom, ?_, hone, ⟨prop, hfound, ?_⟩, hvalue⟩
      · by_contra hno
        rw [not_or] at hno
        exact htype ⟨hno.1, by simpa using hno.2⟩
      · by_contra hno
        exact himmutable ⟨by simpa using hno, hone⟩
    split at hr
    next hother =>
      rw [← hr] at hr'
      apply sendout_keeps hsound htracks hfound hr'
      rw [if_neg]
      rintro ⟨hone, hzero⟩
      have := hcondition hone
      rw [if_pos hother] at this
      exact this hzero
    next hother =>
    split at hr
    · exact hfail BadValue (by decide) hr.symm
    split at hr
    next hbuffer =>
      -- the buffer of the reply is missing: then no deletion was announced
      apply hfail BadAlloc (by decide)
      rw [← hr]
      congr 1
      rw [if_neg]
      rintro ⟨hone, hzero⟩
      have := hcondition hone
      rw [if_neg hother] at this
      have halloc := this hzero hbuffer.1
      rw [hbuffer.2] at halloc
      exact absurd halloc (by decide)
    · rw [← hr] at hr'
      apply sendout_keeps hsound htracks hfound hr'
      rw [hname]

/-- **Every request** that the code handles well keeps the output and what is asked of it in step. -/
theorem step_keeps {request : PropertyRequest} (hsound : Sound s.output) (htracks : Tracks s.output s.asked)
    (hformat : request.FormatOk) (hmeets : Meets atoms s request) : Keeps atoms s request := by
  cases request with
  | configure request => exact configure_keeps hsound htracks
  | change request => exact change_keeps hsound htracks hformat
  | delete property => exact delete_keeps hsound htracks hmeets
  | post alloc => exact post_keeps hsound htracks hmeets
  | get stuff => exact get_keeps hsound htracks hmeets

/-! ## Runs -/

/-- An output that was just made. -/
def freshOutput (id : ℕ) : RROutputRec := { id := id, properties := [], pendingProperties := false, nonDesktop := false }

def start (id : ℕ) : Track := { output := freshOutput id, asked := .none }

theorem start_sound (id : ℕ) : Sound (start id).output where
  names := nodup_nil
  values := fun _ hprop => absurd hprop not_mem_nil

theorem start_tracks (id : ℕ) : Tracks (start id).output (start id).asked where
  wanted := fun _ _ hv => absurd hv (by simp [start, Asked.none])
  due := fun _ hdue => absurd hdue (by simp [start, Asked.none])

theorem run_keeps {requests : List PropertyRequest} (hformats : ∀ r ∈ requests, r.FormatOk)
    (hmeets : AllSteps (trackStep atoms) (Meets atoms) (start id) requests) :
    Sound (run (trackStep atoms) (start id) requests).output ∧
      Tracks (run (trackStep atoms) (start id) requests).output (run (trackStep atoms) (start id) requests).asked ∧
      (run (trackStep atoms) (start id) requests).output.id = id := by
  have key : ∀ (requests : List PropertyRequest) (s : Track), (∀ r ∈ requests, r.FormatOk) →
      AllSteps (trackStep atoms) (Meets atoms) s requests → Sound s.output → Tracks s.output s.asked → s.output.id = id →
      Sound (run (trackStep atoms) s requests).output ∧
        Tracks (run (trackStep atoms) s requests).output (run (trackStep atoms) s requests).asked ∧
        (run (trackStep atoms) s requests).output.id = id := by
    intro requests
    induction requests with
    | nil => exact fun s _ _ hsound htracks hid => ⟨hsound, htracks, hid⟩
    | cons request rest ih =>
      intro s hformats hmeets hsound htracks hid
      have hkeeps := step_keeps hsound htracks (hformats request mem_cons_self) hmeets.1
      exact ih _ (fun r hr => hformats r (mem_cons_of_mem _ hr)) hmeets.2 hkeeps.sound hkeeps.tracks (hkeeps.id.trans hid)
  exact key requests (start id) hformats hmeets (start_sound id) (start_tracks id) rfl

/-- **Output properties**: in every run whose requests the code handles well, each request does what is claimed of it. -/
theorem output_properties_correct (atoms : Atoms) (id : ℕ) (requests : List PropertyRequest)
    (hformats : ∀ r ∈ requests, r.FormatOk) (hmeets : AllSteps (trackStep atoms) (Meets atoms) (start id) requests) :
    ∀ past request future, requests = past ++ request :: future →
      let before := run (trackStep atoms) (start id) past
      before.output.id = id ∧ Sound before.output ∧
        Right before.output before.asked request (outcome atoms before.output request) := by
  rintro past request future rfl
  obtain ⟨hpast, hrest⟩ := allSteps_append.1 hmeets
  obtain ⟨hsound, htracks, hid⟩ := run_keeps (fun r hr => hformats r (mem_append_left _ hr)) hpast
  have hkeeps := step_keeps hsound htracks (hformats request (by simp)) hrest.1
  exact ⟨hid, hsound, hkeeps.right⟩

/-! ## Runs that go wrong -/

/-- A change to a value of one byte. -/
def byteChange (property : ℕ) (pending : Bool) (byte : Byte) : ChangeRequest where
  type := 19
  format := 8
  len := 1
  value := [byte]
  allocValue := true
  property := property
  mode := .Replace
  sendevent := true
  pending := pending
  rrOutputSetProperty := none
  allocProperty := true
  fits :=
    { units := by
        change 1 < 2 ^ 64
        decide
      covers := by
        change 1 * ((8 : ℤ) >>> (3 : ℕ)).toNat ≤ 1
        decide
      object := by
        change 1 ≤ PTRDIFF_MAX
        decide }

def plainConfigure (property : ℕ) (pending : Bool) : RRConfigure :=
  { property := property
    pending := pending
    range := false
    immutable_ := false
    values := []
    allocProperty := true
    allocValues := true }

/-- The type of the property is not the one that is asked for. -/
def getDelete (property type : ℕ) (alloc : Bool) : xRRGetOutputPropertyReq :=
  { property := property, type := type, longOffset := 0, longLength := 1, delete_ := 1, pending := false, alloc := alloc }

def everyAtom : Atoms := { ValidAtom := fun _ => true, non_desktop_prop := 0 }

/-- A pending value is asked for and posted, and the property is deleted. -/
theorem output_properties_correct_posted :
    let requests : List PropertyRequest :=
      [.configure (plainConfigure 2 true), .change (byteChange 2 true 9), .post fun _ => true, .delete 2]
    let before := run (trackStep everyAtom) (start 65) (requests.take 2)
    Right before.output before.asked (.post fun _ => true) (outcome everyAtom before.output (.post fun _ => true)) ∧
      current (outcome everyAtom before.output (.post fun _ => true)).output 2 =
        some { type := 19, format := 8, size := 1, data := [9] } := by
  intro requests before
  have hformats : ∀ r ∈ requests, r.FormatOk := by
    intro r hr
    simp only [requests, mem_cons, not_mem_nil, or_false] at hr
    rcases hr with rfl | rfl | rfl | rfl
    · trivial
    · exact ⟨by decide, by decide⟩
    · trivial
    · trivial
  have hmeets : AllSteps (trackStep everyAtom) (Meets everyAtom) (start 65) requests := by
    refine ⟨trivial, trivial, ?_, ?_, trivial⟩
    · intro _ prop hprop _ _
      rw [mem_singleton.1 hprop]
      exact ⟨rfl, rfl⟩
    · exact fun _ => by decide +kernel
  have h := output_properties_correct everyAtom 65 requests hformats hmeets (requests.take 2) (.post fun _ => true) [.delete 2] rfl
  refine ⟨h.2.2, ?_⟩
  decide +kernel

/-- What is claimed of the last request of a run. -/
def LastRight (id : ℕ) (past : List PropertyRequest) (request : PropertyRequest) : Prop :=
  let before := run (trackStep everyAtom) (start id) past
  Right before.output before.asked request (outcome everyAtom before.output request)

/-- The claim fails when a deletion is announced for an output whose id does not fit a byte, when a post copies a value that no one
asked for, when a post finds no memory, when a property without units is deleted under another type, and when the reply to a deletion
cannot be built. -/
theorem output_properties_wrong :
    ¬ LastRight 300 [.configure (plainConfigure 1 false)] (.delete 1) ∧
      ¬ LastRight 65 [.change (byteChange 1 false 7), .configure (plainConfigure 1 true), .configure (plainConfigure 2 true),
        .change (byteChange 2 true 9)] (.post fun _ => true) ∧
      ¬ LastRight 65 [.configure (plainConfigure 2 true), .change (byteChange 2 true 9)] (.post fun _ => false) ∧
      ¬ LastRight 65 [.configure (plainConfigure 1 false)] (.get (getDelete 1 19 true)) ∧
      ¬ LastRight 65 [.change (byteChange 1 false 7)] (.get (getDelete 1 19 false)) := by
  refine ⟨?_, ?_, ?_, ?_, ?_⟩
  · intro h
    exact absurd h.notified (by decide +kernel)
  · intro h
    exact absurd (h.changed 1 initialValue (by decide +kernel) (by decide +kernel)) (by
      change ¬ _ = some initialValue
      decide +kernel)
  · intro h
    exact absurd (h.failed (by decide +kernel)).1 (by decide +kernel)
  · intro h
    exact absurd h.notified (by decide +kernel)
  · intro h
    exact absurd (h.failed (by decide +kernel)).2 (by decide +kernel)

end Xenia.Xext.OutputProperty
