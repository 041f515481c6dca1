import Xenia.Lib.Keyed
import Xenia.Xi.DeviceProperty

/-!
# Runs of device properties

`device_properties_correct`: in every run the names are distinct, each value has the bytes that its size and format say, and the
properties are what the successful requests made of them (`specStep`). A request that fails changes nothing and sends nothing, the
handlers are shown a value for good only when all accepted it, and clients are told of every change.
-/

namespace Xenia.Xi.DeviceProperty

open Xenia.Lib Xenia.Xext List Function

variable {properties : List XIProperty} {prop : XIProperty} {value old : XIPropertyValue} {request : ChangeRequest} {name : ℕ}
  {handlers : List XIPropertyHandler} {mode : PropMode}

/-! ## What a property list is -/

structure Sound (properties : List XIProperty) : Prop where
  names : (properties.map (·.propertyName)).Nodup
  values : ∀ p ∈ properties, p.value.Ok

/-- The properties by their names. -/
abbrev View := ℕ → Option XIProperty

def view (properties : List XIProperty) : View := XIFetchDeviceProperty properties

/-- The property after a successful request: a new one is replaced, whatever the mode, and an old one to which nothing is added
stays. -/
def ChangeRequest.applied (request : ChangeRequest) : Option XIProperty → XIProperty
  | none =>
    { propertyName := request.property
      value := request.onto .Replace (XICreateDeviceProperty request.property).value
      deletable := true }
  | some prop =>
    if request.mode = .Replace ∨ request.len > 0 then { prop with value := request.onto request.mode prop.value } else prop

/-- What a request makes of the properties when it succeeds. -/
def specStep (T : View) : PropertyRequest → View
  | .change request => Function.update T request.property (some (request.applied (T request.property)))
  | .delete property _ _ => Function.update T property none
  | .setDeletable property deletable =>
    Function.update T property ((T property).map fun p => { p with deletable := deletable })

/-- The properties that the successful requests of a run make. -/
def specRun : List XIProperty → List PropertyRequest → View → View
  | _, [], T => T
  | properties, request :: rest, T =>
    specRun (propertyStep properties request) rest (if (outcome properties request).rc = Success then specStep T request else T)

/-! ## The handlers -/

/-- Every handler that has a `SetProperty` was called to check, and accepted. -/
def Accepted (i : ℕ) (handlers : List XIPropertyHandler) (calls : List HandlerCall) : Prop :=
  ∀ k (hk : k < handlers.length), handlers[k].SetProperty.isSome → { handler := i + k, checkonly := true, rc := Success } ∈ calls

variable {i : ℕ}

/-- A check that no handler rejects was accepted by all. -/
theorem setPass_accepted (h : (setPass name value true i handlers).2 = none) :
    Accepted i handlers (setPass name value true i handlers).1 := by
  induction handlers generalizing i with
  | nil =>
    intro k hk
    exact absurd hk (Nat.not_lt_zero k)
  | cons handler rest ih =>
    have hlater : ∀ calls, Accepted (i + 1) rest calls → (handler.SetProperty.isSome →
        { handler := i, checkonly := true, rc := Success } ∈ calls) → Accepted i (handler :: rest) calls := by
      intro calls hrest hfirst k hk hsome
      cases k with
      | zero => exact hfirst hsome
      | succ k =>
        have := hrest k (Nat.lt_of_succ_lt_succ hk) hsome
        rwa [Nat.add_right_comm] at this
    unfold setPass at h ⊢
    cases hset : handler.SetProperty with
    | none =>
      rw [hset] at h
      apply hlater _ (ih h)
      rw [hset]
      intro hsome
      exact absurd hsome (by simp)
    | some SetProperty =>
      rw [hset] at h
      dsimp only at h ⊢
      split at h
      · exact absurd h (by simp)
      next hrc =>
        rw [if_neg hrc]
        have hsuccess : SetProperty name value true = Success := by
          by_contra hno
          exact hrc ⟨rfl, hno⟩
        apply hlater
        · intro k hk hsome
          exact mem_cons_of_mem _ (ih h k hk hsome)
        · intro _
          rw [hsuccess]
          exact mem_cons_self

variable {calls : List HandlerCall}

theorem Accepted.append (h : Accepted i handlers calls) (more : List HandlerCall) :
    Accepted i handlers (calls ++ more) :=
  fun k hk hsome => mem_append_left _ (h k hk hsome)

theorem setPass_success (h : (setPass name value true i handlers).2 = none) :
    ∀ call ∈ (setPass name value true i handlers).1, call.rc = Success := by
  induction handlers generalizing i with
  | nil =>
    intro call hcall
    exact absurd hcall (not_mem_nil)
  | cons handler rest ih =>
    unfold setPass at h ⊢
    cases hset : handler.SetProperty with
    | none =>
      rw [hset] at h
      exact ih h
    | some SetProperty =>
      rw [hset] at h
      dsimp only at h ⊢
      split at h
      · exact absurd h (by simp)
      next hrc =>
        rw [if_neg hrc]
        intro call hcall
        rcases mem_cons.1 hcall with rfl | hmem
        · by_contra hno
          exact hrc ⟨rfl, hno⟩
        · exact ih h call hmem

/-- A pass calls the handlers with the `checkonly` it was given. -/
theorem setPass_checkonly {checkonly : Bool} {call : HandlerCall}
    (hcall : call ∈ (setPass name value checkonly i handlers).1) : call.checkonly = checkonly := by
  induction handlers generalizing i with
  | nil => exact absurd hcall (not_mem_nil)
  | cons handler rest ih =>
    unfold setPass at hcall
    cases hset : handler.SetProperty with
    | none =>
      rw [hset] at hcall
      exact ih hcall
    | some SetProperty =>
      rw [hset] at hcall
      dsimp only at hcall
      split at hcall
      · rw [mem_singleton.1 hcall]
      · rcases mem_cons.1 hcall with rfl | hmem
        · rfl
        · exact ih hmem

/-- A check that is rejected ends with the error of the handler. -/
theorem setPass_rejected {checkonly : Bool} {rc : ℕ} (h : (setPass name value checkonly i handlers).2 = some rc) : rc ≠ Success := by
  induction handlers generalizing i with
  | nil => exact absurd h (by simp [setPass])
  | cons handler rest ih =>
    unfold setPass at h
    cases hset : handler.SetProperty with
    | none =>
      rw [hset] at h
      exact ih h
    | some SetProperty =>
      rw [hset] at h
      dsimp only at h
      split at h
      next hrc =>
        rw [← Option.some.inj h]
        exact hrc.2
      · exact ih h

/-! ## What one request does -/

/-- What clients are told of a request that succeeds. -/
def notice (T : View) : PropertyRequest → Option (What × ℕ)
  | .change request =>
    if request.sendevent then
      some (if (T request.property).isSome then What.XIPropertyModified else .XIPropertyCreated, request.property)
    else none
  | .delete property _ _ => if (T property).isSome then some (.XIPropertyDeleted, property) else none
  | .setDeletable _ _ => none

/-- A request that the property it names, or a handler that is asked about it, does not allow. -/
def Refused (T : View) : PropertyRequest → Prop
  | .change request =>
    ∃ prop, T request.property = some prop ∧ request.mode ≠ .Replace ∧
      (request.format ≠ prop.value.format ∨ request.type ≠ prop.value.type)
  | .delete property fromClient handlers =>
    ∃ prop, T property = some prop ∧ ((fromClient = true ∧ prop.deletable = false) ∨
      ∃ handler ∈ handlers, ∃ DeleteProperty, handler.DeleteProperty = some DeleteProperty ∧ DeleteProperty property ≠ Success)
  | .setDeletable property _ => T property = none

def requestHandlers : PropertyRequest → List XIPropertyHandler
  | .change request => request.handlers
  | .delete _ _ handlers => handlers
  | .setDeletable _ _ => []

/-- The format of a change is one that a value can have. -/
def PropertyRequest.FormatOk : PropertyRequest → Prop
  | .change request => FitsShort request.format
  | _ => True

/-- What a request does to a list of properties. -/
structure Does (properties : List XIProperty) (request : PropertyRequest) (o : Outcome) : Prop where
  sound : Sound o.properties
  done : o.rc = Success → view o.properties = specStep (view properties) request
  failed : o.rc ≠ Success → o.properties = properties
  sent : o.sent = if o.rc = Success then notice (view properties) request else none
  refused : Refused (view properties) request → o.rc ≠ Success
  rejected : ∀ call ∈ o.calls, call.checkonly = true → call.rc ≠ Success → o.rc ≠ Success
  vetted : ∀ call ∈ o.calls, call.checkonly = false → Accepted 0 (requestHandlers request) o.calls

theorem Does.of_error {request : PropertyRequest} {rc : ℕ} (hsound : Sound properties) (hrc : rc ≠ Success)
    (hcalls : ∀ call ∈ calls, call.checkonly = true) :
    Does properties request { rc := rc, properties := properties, sent := none, calls := calls } where
  sound := hsound
  done := fun h => absurd h hrc
  failed := fun _ => rfl
  sent := (if_neg hrc).symm
  refused := fun _ => hrc
  rejected := fun _ _ _ _ => hrc
  vetted := by
    intro call hmem hcommit
    have hcheck := hcalls call hmem
    rw [hcheck] at hcommit
    exact absurd hcommit (by decide)

theorem XIFetchDeviceProperty_name (hfound : XIFetchDeviceProperty properties name = some prop) :
    prop ∈ properties ∧ prop.propertyName = name := by
  constructor
  · exact mem_of_find?_eq_some hfound
  · exact beq_iff_eq.1 (List.find?_eq_some_iff_append.1 hfound).1

variable {f : XIProperty → XIProperty}

/-- A property that is written over, and stays as well formed. -/
theorem Sound.write (hsound : Sound properties) (hname : ∀ p, (f p).propertyName = p.propertyName)
    (hf : ∀ p ∈ properties, p.propertyName = name → (f p).value.Ok) :
    Sound (properties.map fun p => if p.propertyName = name then f p else p) where
  names := by
    rw [map_key_write hname]
    exact hsound.names
  values := by
    intro p hp
    obtain ⟨q, hq, rfl⟩ := mem_map.1 hp
    split
    next heq => exact hf q hq heq
    · exact hsound.values q hq

/-- A property that is written over is the only one that changes. -/
theorem view_write (hname : ∀ p, (f p).propertyName = p.propertyName) :
    view (properties.map fun p => if p.propertyName = name then f p else p) =
      Function.update (view properties) name ((view properties name).map f) := by
  funext k
  unfold view XIFetchDeviceProperty
  rw [find?_write hname, update_apply]

/-- A property that is new. -/
theorem Sound.cons (hsound : Sound properties) (hnew : XIFetchDeviceProperty properties prop.propertyName = none)
    (hok : prop.value.Ok) : Sound (prop :: properties) where
  names := by
    rw [map_cons, nodup_cons]
    exact ⟨find?_key_eq_none.1 hnew, hsound.names⟩
  values := by
    intro p hp
    rcases mem_cons.1 hp with rfl | hmem
    · exact hok
    · exact hsound.values p hmem

theorem view_cons (prop : XIProperty) (properties : List XIProperty) :
    view (prop :: properties) = Function.update (view properties) prop.propertyName (some prop) := by
  funext k
  unfold view XIFetchDeviceProperty
  rw [find?_key_cons, update_apply]
  by_cases heq : k = prop.propertyName
  · rw [if_pos heq, if_pos (beq_iff_eq.2 heq.symm)]
  · rw [if_neg heq, if_neg (fun h => heq (beq_iff_eq.1 h).symm)]

/-- A change for which a value was built: the handlers decide whether it is installed. -/
theorem Does.of_handlers {new : XIPropertyValue} {after : List XIProperty} {sent : Option (What × ℕ)} (hsound : Sound properties)
    (hafter : Sound after) (hview : view after = specStep (view properties) (.change request))
    (hsent : sent = notice (view properties) (.change request)) (hrefused : ¬ Refused (view properties) (.change request)) :
    Does properties (.change request)
      (match (setPass request.property new true 0 request.handlers).2 with
      | some rc =>
        { rc := rc, properties := properties, sent := none, calls := (setPass request.property new true 0 request.handlers).1 }
      | none =>
        { rc := Success
          properties := after
          sent := sent
          calls := (setPass request.property new true 0 request.handlers).1 ++
            (setPass request.property new false 0 request.handlers).1 }) := by
  cases hcheck : (setPass request.property new true 0 request.handlers).2 with
  | some rc =>
    apply Does.of_error hsound (setPass_rejected hcheck)
    exact fun call hcall => setPass_checkonly hcall
  | none =>
    exact
      { sound := hafter
        done := fun _ => hview
        failed := fun h => absurd rfl h
        sent := hsent.trans (if_pos rfl).symm
        refused := fun h => absurd h hrefused
        rejected := by
          intro call hcall hcheckonly hrc
          rcases mem_append.1 hcall with hmem | hmem
          · exact absurd (setPass_success hcheck call hmem) hrc
          · have := setPass_checkonly hmem
            rw [hcheckonly] at this
            exact absurd this (by decide)
        vetted := fun _ _ _ => (setPass_accepted hcheck).append _ }

/-- **A change** builds the new value aside, and installs it only when all handlers accept it. -/
theorem change_does (hsound : Sound properties) (hformat : FitsShort request.format) :
    Does properties (.change request) (XIChangeDeviceProperty properties request) := by
  unfold XIChangeDeviceProperty
  dsimp only
  split
  · exact .of_error hsound (by decide) (by simp)
  next halloc =>
    cases hfound : XIFetchDeviceProperty properties request.property with
    | none =>
      -- a new property is replaced, and is added to the list when it has its value
      rw [Option.isNone_none, if_neg (by simp), if_neg (by simp), if_pos (.inl rfl)]
      split
      · exact .of_error hsound (by decide) (by simp)
      next new hnew =>
        obtain ⟨rfl, hok⟩ := newValue_spec request.fits hformat (fun h => absurd rfl h) hnew
        apply Does.of_handlers hsound
        · exact hsound.cons hfound hok
        · rw [if_pos rfl, view_cons, specStep, view, hfound]
          rfl
        · rw [notice, view, hfound]
          rfl
        · rintro ⟨prop, hprop, -⟩
          rw [view, hfound] at hprop
          exact absurd hprop (by simp)
    | some prop =>
      obtain ⟨hmem, hname⟩ := XIFetchDeviceProperty_name hfound
      rw [Option.isNone_some, if_neg (show ¬ false = true by decide)]
      split
      · exact .of_error hsound (by decide) (by simp)
      next hformats =>
        split
        · exact .of_error hsound (by decide) (by simp)
        next htypes =>
          have hrefused : ¬ Refused (view properties) (.change request) := by
            rintro ⟨other, hother, hmode, hdiffer⟩
            rw [view, hfound] at hother
            obtain rfl := Option.some.inj hother
            rcases hdiffer with hno | hno
            · exact hformats ⟨hno, hmode⟩
            · exact htypes ⟨fun h => hno h.symm, hmode⟩
          have hsent : (if request.sendevent = true then
              some (if false = true then What.XIPropertyCreated else What.XIPropertyModified, request.property) else none) =
              notice (view properties) (.change request) := by
            rw [notice, view, hfound]
            rfl
          have happlied : request.applied (view properties request.property) =
              if request.mode = .Replace ∨ request.len > 0 then { prop with value := request.onto request.mode prop.value }
              else prop := by
            rw [view, hfound]
            rfl
          split
          next hadds =>
            split
            · exact .of_error hsound (by decide) (by simp)
            next new hnew =>
              obtain ⟨rfl, hok⟩ := newValue_spec request.fits hformat (by
                intro hmode
                refine ⟨hsound.values prop hmem, ?_, ?_⟩
                · by_contra hno
                  exact hformats ⟨hno, hmode⟩
                · by_contra hno
                  exact htypes ⟨hno, hmode⟩) hnew
              apply Does.of_handlers hsound
              · apply hsound.write
                · exact fun _ => rfl
                · exact fun _ _ _ => hok
              · unfold install
                rw [specStep, happlied, if_pos hadds]
                refine Eq.trans (view_write fun _ => rfl) ?_
                rw [view, hfound]
                rfl
              · exact hsent
              · exact hrefused
          next hnothing =>
            exact
              { sound := hsound
                done := by
                  intro _
                  rw [specStep, happlied, if_neg hnothing]
                  exact (update_eq_self_iff.2 hfound.symm).symm
                failed := fun h => absurd rfl h
                sent := hsent.trans (if_pos rfl).symm
                refused := fun h => absurd h hrefused
                rejected := fun _ hcall => absurd hcall not_mem_nil
                vetted := fun _ hcall => absurd hcall not_mem_nil }

/-- The handlers that are asked whether a property may be deleted all agree, or one of them decides. -/
theorem askDelete_success (property : ℕ) (handlers : List XIPropertyHandler) :
    askDelete property handlers = Success ↔
      ∀ handler ∈ handlers, ∀ DeleteProperty, handler.DeleteProperty = some DeleteProperty → DeleteProperty property = Success := by
  induction handlers with
  | nil => simp [askDelete]
  | cons handler rest ih =>
    unfold askDelete
    rw [forall_mem_cons, ← ih]
    cases hdelete : handler.DeleteProperty with
    | none => simp
    | some DeleteProperty =>
      by_cases hrc : DeleteProperty property = Success
      · simp [hrc]
      · simp [hrc]

section

variable (hsound : Sound properties)
include hsound

/-- **A deletion** asks all handlers first. -/
theorem delete_does (property : ℕ) (fromClient : Bool) (handlers : List XIPropertyHandler) :
    Does properties (.delete property fromClient handlers) (XIDeleteDeviceProperty properties property fromClient handlers) := by
  unfold XIDeleteDeviceProperty
  cases hfound : XIFetchDeviceProperty properties property with
  | none =>
    exact
      { sound := hsound
        done := by
          intro _
          exact (update_eq_self_iff.2 hfound.symm).symm
        failed := fun h => absurd rfl h
        sent := by
          rw [notice, view, hfound]
          rfl
        refused := by
          rintro ⟨prop, hprop, -⟩
          rw [view, hfound] at hprop
          exact absurd hprop (by simp)
        rejected := fun _ hcall => absurd hcall not_mem_nil
        vetted := fun _ hcall => absurd hcall not_mem_nil }
  | some prop =>
    obtain ⟨hmem, hname⟩ := XIFetchDeviceProperty_name hfound
    dsimp only
    rw [hname]
    split
    · exact .of_error hsound (by decide) (by simp)
    next hclient =>
      split
      next hveto => exact .of_error hsound hveto (by simp)
      next hasked =>
        have hall := (askDelete_success property handlers).1 (not_not.1 hasked)
        exact
          { sound :=
              { names := by
                  rw [map_eraseP_key fun _ _ => beq_iff_eq]
                  exact hsound.names.erase _
                values := fun p hp => hsound.values p (mem_of_mem_eraseP hp) }
            done := by
              intro _
              funext k
              rw [specStep, update_apply]
              exact find?_eraseP hsound.names k
            failed := fun h => absurd rfl h
            sent := by
              rw [notice, view, hfound]
              rfl
            refused := by
              rintro ⟨other, hother, hno⟩
              rw [view, hfound] at hother
              obtain rfl := Option.some.inj hother
              rcases hno with hno | ⟨handler, hhandler, DeleteProperty, hdelete, hrc⟩
              · exact absurd hno hclient
              · exact absurd (hall handler hhandler DeleteProperty hdelete) hrc
            rejected := fun _ hcall => absurd hcall not_mem_nil
            vetted := fun _ hcall => absurd hcall not_mem_nil }

theorem setDeletable_does (property : ℕ) (deletable : Bool) :
    Does properties (.setDeletable property deletable) (XISetDevicePropertyDeletable properties property deletable) := by
  unfold XISetDevicePropertyDeletable
  cases hfound : XIFetchDeviceProperty properties property with
  | none => exact .of_error hsound (by decide) (by simp)
  | some prop =>
    exact
      { sound := by
          apply hsound.write
          · exact fun _ => rfl
          · exact fun p hp _ => hsound.values p hp
        done := by
          intro _
          exact view_write fun _ => rfl
        failed := fun h => absurd rfl h
        sent := (if_pos rfl).symm
        refused := by
          intro hno
          rw [Refused, view, hfound] at hno
          exact absurd hno (by simp)
        rejected := fun _ hcall => absurd hcall not_mem_nil
        vetted := fun _ hcall => absurd hcall not_mem_nil }

/-- **Every request** does what its answer says. -/
theorem outcome_does {request : PropertyRequest} (hformat : request.FormatOk) :
    Does properties request (outcome properties request) := by
  cases request with
  | change request => exact change_does hsound hformat
  | delete property fromClient handlers => exact delete_does hsound property fromClient handlers
  | setDeletable property deletable => exact setDeletable_does hsound property deletable

/-! ## Runs -/

theorem view_run {requests : List PropertyRequest} (hformats : ∀ r ∈ requests, r.FormatOk) :
    Sound (run propertyStep properties requests) ∧
      view (run propertyStep properties requests) = specRun properties requests (view properties) := by
  induction requests generalizing properties with
  | nil => exact ⟨hsound, rfl⟩
  | cons request rest ih =>
    have hdoes := outcome_does hsound (hformats request mem_cons_self)
    have hstep : view (propertyStep properties request) =
        if (outcome properties request).rc = Success then specStep (view properties) request else view properties := by
      split
      next hrc => exact hdoes.done hrc
      next hrc => exact congrArg view (hdoes.failed hrc)
    rw [specRun, ← hstep]
    exact ih hdoes.sound fun r hr => hformats r (mem_cons_of_mem _ hr)

end

/-- **Device properties**: the properties are the fold of the successful requests, with distinct names and values whose size, format
and data agree; requests that fail change nothing and tell no one; the value is shown for good only to handlers that all accepted
it; and clients are told of each successful request that makes a change known. -/
theorem device_properties_correct (properties : List XIProperty) (requests : List PropertyRequest) (hsound : Sound properties)
    (hformats : ∀ r ∈ requests, r.FormatOk) :
    Sound (run propertyStep properties requests) ∧
      view (run propertyStep properties requests) = specRun properties requests (view properties) ∧
      ∀ past request future, requests = past ++ request :: future →
        let before := run propertyStep properties past
        let o := outcome before request
        (o.rc ≠ Success → propertyStep before request = before) ∧
          (Refused (view before) request → o.rc ≠ Success) ∧
          (∀ call ∈ o.calls, call.checkonly = true → call.rc ≠ Success → o.rc ≠ Success) ∧
          (∀ call ∈ o.calls, call.checkonly = false → Accepted 0 (requestHandlers request) o.calls) ∧
          o.sent = if o.rc = Success then notice (view before) request else none := by
  obtain ⟨hend, hview⟩ := view_run hsound hformats
  refine ⟨hend, hview, ?_⟩
  intro past request future hsplit
  have hpast : Sound (run propertyStep properties past) := by
    refine (view_run hsound fun r hr => hformats r ?_).1
    rw [hsplit]
    exact mem_append_left _ hr
  have hdoes := outcome_does hpast (hformats request (by rw [hsplit]; simp))
  exact ⟨hdoes.failed, hdoes.refused, hdoes.rejected, hdoes.vetted, hdoes.sent⟩

theorem oneByte_fits (byte : Byte) :
    ValueRequest.Fits { type := 19, format := 8, len := 1, value := [byte], allocValue := true } where
  units := by
    change 1 < 2 ^ 64
    decide
  covers := by
    change 1 * ((8 : ℤ) >>> (3 : ℕ)).toNat ≤ 1
    decide
  object := by
    rw [length_singleton]
    decide

/-- A request of one unit of eight bits. -/
def oneByte (property : ℕ) (mode : PropMode) (byte : Byte) (handlers : List XIPropertyHandler) : ChangeRequest where
  property := property
  type := 19
  format := 8
  mode := mode
  len := 1
  value := [byte]
  sendevent := true
  handlers := handlers
  allocProperty := true
  allocValue := true
  fits := oneByte_fits byte

/-- A property is made, a byte is appended, and a handler rejects another. -/
theorem device_properties_correct_vetoed :
    let veto : XIPropertyHandler := { SetProperty := some fun _ _ checkonly => if checkonly then BadAlloc else Success, DeleteProperty := none }
    let requests : List PropertyRequest :=
      [.change (oneByte 300 .Append 1 []), .change (oneByte 300 .Append 2 []), .change (oneByte 300 .Prepend 3 [veto])]
    Sound (run propertyStep [] requests) ∧
      (view (run propertyStep [] requests) 300).map (·.value.data) = some [1, 2] := by
  intro veto requests
  have hformats : ∀ r ∈ requests, r.FormatOk := by
    intro r hr
    simp only [requests, mem_cons, not_mem_nil, or_false] at hr
    rcases hr with rfl | rfl | rfl
    · exact ⟨by decide, by decide⟩
    · exact ⟨by decide, by decide⟩
    · exact ⟨by decide, by decide⟩
  have h := device_properties_correct [] requests ⟨nodup_nil, fun _ hp => absurd hp not_mem_nil⟩ hformats
  refine ⟨h.1, ?_⟩
  decide +kernel

end Xenia.Xi.DeviceProperty
