import Xenia.Xext.SyncRuns

/-!
# ChangeAlarm as one step

`ChangeAlarm` puts the attributes of a request into the alarm before the last checks, and the event
selection before the check of the delta's sign.

* `syncInitTrigger_refuses`: what a trigger that is refused has become.
* `changeAlarm_atomic_iff`: a request that is refused leaves the alarm as it was exactly if it is
  refused early, or asks for nothing the alarm does not have.
-/

namespace Xenia.Xext

open Xenia.Lib Xenia.Dix Option

section Atomic

variable {st : SyncState} {a : SyncAnswers} {t : SyncTrigger} {pAlarm : SyncAlarm} {client id : ℕ} {mask : BitVec 32}
  {values : List UInt32}

/-! ### A trigger that is refused -/

/-- The value type is one there is. -/
def ValueTypeKnown (t : SyncTrigger) (changes : BitVec 32) : Prop :=
  has changes XSyncCAValueType = true → t.valueType = XSyncRelative ∨ t.valueType = XSyncAbsolute

/-- The test value that is set, if one is, is the one the trigger has. -/
def TestValueStands (st : SyncState) (a : SyncAnswers) (t : SyncTrigger) (syncObject : ℕ) (changes : BitVec 32) : Prop :=
  CounterFound st a syncObject changes → ValueTypeKnown t changes → has changes (XSyncCAValueType ||| XSyncCAValue) = true →
    (t.valueType = XSyncAbsolute → t.waitValue = t.testValue) ∧
      (t.valueType ≠ XSyncAbsolute → ∀ v, offered st a (named t syncObject changes) = some v → v + t.waitValue = t.testValue)

theorem initTestValue_eq (t : SyncTrigger) (value : Option Int64) (changes : BitVec 32) :
    (initTestValue t value changes).1 = { t with testValue := (initTestValue t value changes).1.testValue } := by
  unfold initTestValue
  split
  · split
    · rfl
    · cases value with
      | none => rfl
      | some v => rfl
  · rfl

theorem initTestValue_status (t : SyncTrigger) (value : Option Int64) (changes : BitVec 32) :
    (initTestValue t value changes).2 ≠ some Success := by
  unfold initTestValue
  split
  · split
    · simp
    · cases value with
      | none => exact fun h => absurd (some.inj h) (by decide)
      | some v =>
        dsimp only
        split
        · decide
        · simp
  · simp

theorem queryCounter_kept {pSync : Option ℕ} (hsome : ∀ c, pSync = some c → (st.counters c).isSome) :
    ∃ st', queryCounter pSync a st = .ok (st', offered st a pSync) ∧ Kept st st' := by
  unfold queryCounter offered
  cases pSync with
  | none => exact ⟨st, rfl, rfl, rfl, rfl, rfl⟩
  | some c =>
    obtain ⟨k, hk⟩ := isSome_iff_exists.1 (hsome c rfl)
    simp only [hk, bind_some, map_some]
    split
    · exact ⟨_, rfl, rfl, rfl, rfl, rfl⟩
    · exact ⟨st, rfl, rfl, rfl, rfl, rfl⟩

theorem initTestValue_stands (t : SyncTrigger) (value : Option Int64) (changes : BitVec 32) :
    (initTestValue t value changes).1.testValue = t.testValue ↔
      (has changes (XSyncCAValueType ||| XSyncCAValue) = true →
        (t.valueType = XSyncAbsolute → t.waitValue = t.testValue) ∧
          (t.valueType ≠ XSyncAbsolute → ∀ v, value = some v → v + t.waitValue = t.testValue)) := by
  unfold initTestValue
  by_cases hnamed : has changes (XSyncCAValueType ||| XSyncCAValue) = true
  · rw [if_pos hnamed]
    by_cases habs : t.valueType = XSyncAbsolute
    · rw [if_pos habs]
      exact ⟨fun h _ => ⟨fun _ => h, fun hrel => absurd habs hrel⟩, fun h => (h hnamed).1 habs⟩
    · rw [if_neg habs]
      cases value with
      | none => exact iff_of_true rfl fun _ => ⟨fun h => absurd h habs, fun _ v hv => nomatch hv⟩
      | some v =>
        refine ⟨fun h _ => ⟨fun h' => absurd h' habs, fun _ v' hv' => ?_⟩, fun h => (h hnamed).2 habs v rfl⟩
        obtain rfl := some.inj hv'
        exact h
  · rw [if_neg hnamed]
    exact iff_of_true rfl fun h => absurd h hnamed

variable {changes : BitVec 32}

/-- **A trigger that is refused** differs from the one that was there in its test value at most. -/
theorem syncInitTrigger_refuses (ref : TriggerRef) (hthere : HasCounter st t) (hdenied : a.denied ≠ some Success)
    (hbase : st.errorBase ≠ 0) {syncObject : ℕ} (hno : ¬ Acceptable st a t syncObject changes) :
    ∃ st' t' rc, syncInitTrigger ref t syncObject changes a st = .ok (st', t', .error rc) ∧ rc ≠ Success ∧
      st'.alarms = st.alarms ∧ t' = { t with testValue := t'.testValue } ∧
      (t' = t ↔ TestValueStands st a t syncObject changes) := by
  unfold syncInitTrigger
  rcases triggerCounter_cases (a := a) hthere syncObject changes with ⟨hlost, rc, hlookup, hrc⟩ | ⟨hfound, hlookup, hnamed⟩
  · rw [hlookup]
    refine ⟨st, t, rc, rfl, ?_, rfl, rfl, iff_of_true rfl fun hfound => absurd hfound hlost⟩
    rintro rfl
    rcases hrc with h | h
    · exact hbase (Nat.eq_zero_of_add_eq_zero_right h.symm)
    · exact hdenied h
  obtain ⟨st₁, hquery, hkept⟩ := queryCounter_kept (a := a) hnamed
  rw [hlookup]
  dsimp only
  rw [hquery]
  by_cases hvt : has changes XSyncCAValueType = true ∧ t.valueType ≠ XSyncRelative ∧ t.valueType ≠ XSyncAbsolute
  · refine ⟨st₁, t, BadValue, if_pos hvt, by decide, hkept.alarms, rfl, iff_of_true rfl fun _ hknown => ?_⟩
    rcases hknown hvt.1 with h | h
    · exact absurd h hvt.2.1
    · exact absurd h hvt.2.2
  have hknown : ValueTypeKnown t changes := by
    intro hc
    by_contra hneither
    rw [not_or] at hneither
    exact hvt ⟨hc, hneither⟩
  have hstands := initTestValue_stands t (offered st a (named t syncObject changes)) changes
  have hvalue := initTestValue_eq t (offered st a (named t syncObject changes)) changes
  have hstatus := initTestValue_status t (offered st a (named t syncObject changes)) changes
  have hspec := (initTestValue_spec t (offered st a (named t syncObject changes)) changes).2.2.2
  generalize hinit : initTestValue t (offered st a (named t syncObject changes)) changes = init at *
  obtain ⟨t₁, err⟩ := init
  dsimp only at hstands hvalue hstatus hspec
  have hsame : t₁ = t ↔ (CounterFound st a syncObject changes → ValueTypeKnown t changes →
      has changes (XSyncCAValueType ||| XSyncCAValue) = true →
      (t.valueType = XSyncAbsolute → t.waitValue = t.testValue) ∧
        (t.valueType ≠ XSyncAbsolute → ∀ v, offered st a (named t syncObject changes) = some v → v + t.waitValue = t.testValue)) := by
    constructor
    · rintro rfl _ _
      exact hstands.1 rfl
    · intro h
      rw [hvalue, hstands.2 (h hfound hknown)]
  cases err with
  | some rc =>
    refine ⟨st₁, t₁, rc, ?_, fun h => hstatus (congrArg some h), hkept.alarms, hvalue, hsame⟩
    refine Eq.trans (if_neg hvt) ?_
    rw [hinit]
  | none =>
    have hcheck : triggerCheck t₁ changes = none := by
      by_contra hsome
      refine hno ⟨hfound, hknown, hspec.1 rfl, fun hc => ?_⟩
      unfold triggerCheck at hsome
      rw [if_pos hc, hvalue] at hsome
      exact isSome_iff_ne_none.2 hsome
    refine ⟨st₁, t₁, BadValue, ?_, by decide, hkept.alarms, hvalue, hsame⟩
    refine Eq.trans (if_neg hvt) ?_
    rw [hinit]
    dsimp only
    rw [hcheck]

variable {r : Except Status Unit}

theorem setTriggerCounter_ok {ref : TriggerRef} {pSync : Option ℕ} {st' : SyncState} {t' : SyncTrigger} (h : setTriggerCounter ref t pSync changes st = .ok (st', t', r)) : r = .ok () := by
  unfold setTriggerCounter at h
  split at h
  · obtain ⟨st₁, -, h⟩ := of_bind_ok h
    obtain ⟨st₂, -, h⟩ := of_bind_ok h
    cases h
    rfl
  · cases h
    rfl

/-- **A trigger that is acceptable** is not refused. -/
theorem syncInitTrigger_accepts (ref : TriggerRef) (hthere : HasCounter st t) {syncObject : ℕ}
    (hacc : Acceptable st a t syncObject changes) {st' : SyncState} {t' : SyncTrigger}
    (hinit : syncInitTrigger ref t syncObject changes a st = .ok (st', t', r)) : r = .ok () := by
  unfold syncInitTrigger at hinit
  rcases triggerCounter_cases (a := a) hthere syncObject changes with ⟨hlost, -⟩ | ⟨hfound, hlookup, hnamed⟩
  · exact absurd hacc.counter hlost
  obtain ⟨st₁, hquery, -⟩ := queryCounter_kept (a := a) hnamed
  rw [hlookup] at hinit
  dsimp only at hinit
  rw [hquery] at hinit
  have hvt : ¬ (has changes XSyncCAValueType = true ∧ t.valueType ≠ XSyncRelative ∧ t.valueType ≠ XSyncAbsolute) := by
    rintro ⟨hc, hrel, habs⟩
    rcases hacc.valueType hc with h | h
    · exact hrel h
    · exact habs h
  replace hinit := (if_neg hvt).symm.trans hinit
  have hvalue := initTestValue_eq t (offered st a (named t syncObject changes)) changes
  have hspec := (initTestValue_spec t (offered st a (named t syncObject changes)) changes).2.2.2
  generalize initTestValue t (offered st a (named t syncObject changes)) changes = init at *
  obtain ⟨t₁, err⟩ := init
  dsimp only at hvalue hspec hinit
  rw [hspec.2 hacc.value] at hinit
  dsimp only at hinit
  cases hcheck : triggerCheck t₁ changes with
  | none =>
    unfold triggerCheck at hcheck
    by_cases hc : has changes XSyncCATestType = true
    · have hsome := hacc.testType hc
      rw [if_pos hc, hvalue] at hcheck
      rw [hcheck] at hsome
      exact nomatch hsome
    · rw [if_neg hc] at hcheck
      exact nomatch hcheck
  | some check =>
    rw [hcheck] at hinit
    exact setTriggerCounter_ok hinit

/-! ### The request -/

/-- A `ChangeAlarm` that returns an error leaves the alarm as it was. -/
def ChangeAtomic (client id : ℕ) (mask : BitVec 32) (values : List UInt32) (a : SyncAnswers) (st : SyncState) : Prop :=
  ∀ st' rc, procSyncChangeAlarm client id mask values a st = .ok (st', rc) → rc ≠ Success → st'.alarms id = st.alarms id

/-- A request that asks for `attributes`, and whose event selection makes `selected` of the alarm, asks for
nothing that the alarm does not have: no other event selection, and, unless the sign of the delta is
refused, no other delta and no other trigger. -/
structure NothingNew (st : SyncState) (a : SyncAnswers) (pAlarm : SyncAlarm) (mask : BitVec 32)
    (attributes : AlarmAttributes) (selected : SyncAlarm) : Prop where
  events : selected = pAlarm
  delta : (has mask (XSyncCADelta ||| XSyncCATestType) && wrongSign attributes.trigger.testType attributes.delta) = false →
    attributes.delta = pAlarm.delta
  trigger : (has mask (XSyncCADelta ||| XSyncCATestType) && wrongSign attributes.trigger.testType attributes.delta) = false →
    attributes.trigger = pAlarm.trigger
  testValue : (has mask (XSyncCADelta ||| XSyncCATestType) && wrongSign attributes.trigger.testType attributes.delta) = false →
    TestValueStands st a attributes.trigger attributes.counter (mask &&& XSyncCAAllTrigger)

/-- A request is refused by the checks on its values, or by the allocator; or its delta and trigger are
accepted; or it asks for nothing new. -/
def ChangeSafe (st : SyncState) (a : SyncAnswers) (client : ℕ) (pAlarm : SyncAlarm) (mask : BitVec 32)
    (values : List UInt32) : Prop :=
  ∀ attributes selected, requested pAlarm mask values = .ok attributes →
    selectEvents pAlarm client attributes.events a.eventClient = .ok selected →
    (has mask (XSyncCADelta ||| XSyncCATestType) && wrongSign attributes.trigger.testType attributes.delta) = false ∧
        Acceptable st a attributes.trigger attributes.counter (mask &&& XSyncCAAllTrigger) ∨
      NothingNew st a pAlarm mask attributes selected

theorem changeAttributes_testValue {attributes' : AlarmAttributes} (bits : List ℕ) :
    ∀ (values : List UInt32) (attributes : AlarmAttributes), changeAttributes bits values attributes = .ok attributes' →
      attributes'.trigger.testValue = attributes.trigger.testValue := by
  induction bits with
  | nil =>
    intro values attributes h
    cases h
    rfl
  | cons bit bits ih =>
    intro values attributes h
    unfold changeAttributes at h
    split at h
    · simp at h
    · rename_i values₁ attributes₁ hone
      refine (ih values₁ attributes₁ h).trans ?_
      unfold changeAttribute at hone
      dsimp only at hone
      split at hone
      case h_6 =>
        split at hone
        · simp at hone
        · cases hone
          rfl
      case h_7 => simp at hone
      all_goals
        cases hone
        rfl

theorem changeAttributes_status (bits : List ℕ) :
    ∀ (values : List UInt32) (attributes : AlarmAttributes) {rc : Status},
      changeAttributes bits values attributes = .error rc → rc = BadValue := by
  induction bits with
  | nil =>
    intro values attributes rc h
    exact nomatch h
  | cons bit bits ih =>
    intro values attributes rc h
    unfold changeAttributes at h
    split at h
    · rename_i hone
      cases h
      unfold changeAttribute at hone
      dsimp only at hone
      split at hone
      case h_6 =>
        split at hone
        · cases hone
          rfl
        · simp at hone
      case h_7 =>
        cases hone
        rfl
      all_goals simp at hone
    · rename_i values₁ attributes₁ hone
      exact ih values₁ attributes₁ h

theorem selectEvents_status {events : Option Bool} {memory : Bool} {rc : Status}
    (h : selectEvents pAlarm client events memory = .error rc) : rc = BadAlloc := by
  unfold selectEvents syncEventSelectForAlarm at h
  cases events with
  | none => exact nomatch h
  | some wantevents =>
    dsimp only at h
    split at h
    · exact nomatch h
    split at h
    · exact nomatch h
    split at h
    · exact nomatch h
    split at h
    · cases h
      rfl
    · exact nomatch h

/-- **What a change of an alarm comes to**: it is not refused, or it is refused and the alarm is as it
was exactly if the request is safe. -/
theorem syncChangeAlarmAttributes_cases (hthere : HasCounter st pAlarm.trigger) (hdenied : a.denied ≠ some Success)
    (hbase : st.errorBase ≠ 0) (client id : ℕ) (mask : BitVec 32) (values : List UInt32) :
    ((∀ st' pAlarm' r, syncChangeAlarmAttributes client id pAlarm mask values a st = .ok (st', pAlarm', r) → r = .ok ()) ∧
        ChangeSafe st a client pAlarm mask values) ∨
      ∃ st' pAlarm' rc, syncChangeAlarmAttributes client id pAlarm mask values a st = .ok (st', pAlarm', .error rc) ∧
        rc ≠ Success ∧ (pAlarm' = pAlarm ↔ ChangeSafe st a client pAlarm mask values) := by
  unfold syncChangeAlarmAttributes ChangeSafe requested
  cases hreq : changeAttributes (maskBits mask) values
    ⟨pAlarm.trigger.pSync.getD 0, pAlarm.trigger, pAlarm.delta, none⟩ with
  | error rc =>
    refine .inr ⟨st, pAlarm, rc, rfl, ?_, iff_of_true rfl fun _ _ h => nomatch h⟩
    rw [changeAttributes_status _ _ _ hreq]
    decide
  | ok attributes =>
    obtain ⟨hpSync, hcheck, -⟩ := changeAttributes_spec _ _ _ hreq
    have htest := changeAttributes_testValue _ _ _ hreq
    dsimp only at hpSync hcheck htest ⊢
    cases hselect : selectEvents pAlarm client attributes.events a.eventClient with
    | error rc =>
      refine .inr ⟨st, pAlarm, rc, rfl, ?_, iff_of_true rfl fun _ _ h hsel => ?_⟩
      · rw [selectEvents_status hselect]
        decide
      · obtain rfl := Except.ok.inj h
        exact nomatch hselect.symm.trans hsel
    | ok selected =>
      obtain ⟨hsame, hsameDelta⟩ := selectEvents_spec hselect
      dsimp only
      cases hsign : has mask (XSyncCADelta ||| XSyncCATestType) && wrongSign attributes.trigger.testType attributes.delta with
      | true =>
        -- the events are selected already
        refine .inr ⟨st, selected, BadMatch, if_pos rfl, by decide, fun h attributes' selected' hreq' hsel => ?_, fun h => ?_⟩
        · obtain rfl := Except.ok.inj hreq'
          obtain rfl := Except.ok.inj (hselect.symm.trans hsel)
          have hno : ¬ (has mask (XSyncCADelta ||| XSyncCATestType) &&
              wrongSign attributes.trigger.testType attributes.delta) = false := by
            rw [hsign]
            decide
          exact .inr ⟨h, fun h => absurd h hno, fun h => absurd h hno, fun h => absurd h hno⟩
        · rcases h attributes selected rfl hselect with ⟨h, -⟩ | hnew
          · exact nomatch hsign.symm.trans h
          · exact hnew.events
      | false =>
        have hthere' : HasCounter st attributes.trigger := by
          intro c hc
          rw [hpSync] at hc
          exact hthere c hc
        by_cases hacc : Acceptable st a attributes.trigger attributes.counter (mask &&& XSyncCAAllTrigger)
        · refine .inl ⟨fun st' pAlarm' r h => ?_, fun attributes' selected' hreq' _ => ?_⟩
          · obtain ⟨⟨st₁, t₁, status⟩, hinit, h⟩ := of_bind_ok h
            obtain rfl := syncInitTrigger_accepts _ hthere' hacc hinit
            cases h
            rfl
          · obtain rfl := Except.ok.inj hreq'
            exact .inl ⟨hsign, hacc⟩
        · -- the attributes are in the alarm now
          obtain ⟨st₁, t', rc, hinit, hrc, -, hshape, hstands⟩ := syncInitTrigger_refuses (.alarm id) hthere' hdenied hbase hacc
          refine .inr ⟨st₁, { selected with delta := attributes.delta, trigger := t' }, rc, ?_, hrc,
            fun h attributes' selected' hreq' hsel => ?_, fun h => ?_⟩
          · rw [hinit]
            rfl
          · obtain rfl := Except.ok.inj hreq'
            obtain rfl := Except.ok.inj (hselect.symm.trans hsel)
            have hevents : selected = pAlarm := by
              rw [← h] at hsame hsameDelta
              rw [← h]
              dsimp only at hsame hsameDelta
              rw [← hsame, ← hsameDelta]
            have htrigger : t' = pAlarm.trigger := by rw [← h]
            have hasked : attributes.trigger = pAlarm.trigger := by
              have hshape' := hshape
              rw [htrigger] at hshape'
              rw [hshape', htest.symm]
            refine .inr ⟨hevents, fun _ => ?_, fun _ => hasked, fun _ => hstands.1 (htrigger.trans hasked.symm)⟩
            rw [← h]
          · rcases h attributes selected rfl hselect with ⟨-, h⟩ | hnew
            · exact absurd h hacc
            · rw [hnew.events, hstands.2 (hnew.testValue hsign), hnew.delta hsign, hnew.trigger hsign]

/-- **A change that is refused.** A `ChangeAlarm` that returns an error leaves the alarm as it was exactly
if the alarm is not there, or the request has another length than its mask says, or it is safe: refused by
the checks on its values, or accepted, or asking for nothing new. -/
theorem changeAlarm_atomic_iff (hthere : ∀ pAlarm, st.alarms id = some pAlarm → HasCounter st pAlarm.trigger)
    (hdenied : a.denied ≠ some Success) (hbase : st.errorBase ≠ 0) :
    ChangeAtomic client id mask values a st ↔ ∀ pAlarm, st.alarms id = some pAlarm → values.length = valueCount mask →
      ChangeSafe st a client pAlarm mask values := by
  unfold ChangeAtomic procSyncChangeAlarm
  cases halarm : st.alarms id with
  | none =>
    refine iff_of_true (fun st' rc h _ => ?_) fun pAlarm h => nomatch h
    cases h
    exact halarm
  | some pAlarm =>
    dsimp only
    by_cases hlen : values.length = valueCount mask
    · rw [if_neg (not_not.2 hlen)]
      rcases syncChangeAlarmAttributes_cases (hthere pAlarm halarm) hdenied hbase client id mask values with
        ⟨hok, hsafe⟩ | ⟨st₁, pAlarm₁, rc, hchange, hrc, hiff⟩
      · refine iff_of_true (fun st' rc h hrc => ?_) fun pAlarm' h _ => ?_
        · obtain ⟨⟨st₁, pAlarm₁, status⟩, hchange, h⟩ := of_bind_ok h
          obtain rfl := hok _ _ _ hchange
          obtain ⟨⟨st₂, fired⟩, -, h⟩ := of_bind_ok h
          cases h
          exact absurd rfl hrc
        · obtain rfl := some.inj h
          exact hsafe
      · rw [hchange]
        constructor
        · intro h pAlarm' halarm' _
          obtain rfl := some.inj halarm'
          have hsame := h _ rc rfl hrc
          unfold SyncState.setAlarm at hsame
          dsimp only at hsame
          rw [Function.update_self] at hsame
          exact hiff.1 (some.inj hsame)
        · intro h st' rc' hres _
          cases hres
          unfold SyncState.setAlarm
          dsimp only
          rw [Function.update_self, hiff.2 (h pAlarm rfl hlen)]
    · rw [if_pos hlen]
      refine iff_of_true (fun st' rc h _ => ?_) fun _ _ h => absurd h hlen
      cases h
      exact halarm

/-- A bad event selection is refused before the wait value that comes with it is set. -/
theorem changeAlarm_atomic_iff_one :
    ChangeAtomic 0 2 (XSyncCAValue ||| XSyncCAEvents) [0, 5, 7] anyAnswers
      ((noSync 128).setAlarm 2 (some (newAlarm 0 newTrigger))) := by
  refine (changeAlarm_atomic_iff (fun pAlarm halarm c hc => ?_) (by decide) (by decide)).2
    fun pAlarm halarm _ attributes selected hreq => ?_
  · obtain rfl := some.inj halarm
    exact nomatch hc
  · obtain rfl := some.inj halarm
    exact nomatch hreq

/-- **A test type there is not** stays in the alarm, with the function of the old one. -/
theorem refused_test_type : ∃ st walks, run syncStep (startSync 128) [.createAlarm 0 2 0 [] anyAnswers] = .ok (st, walks) ∧
    ¬ ChangeAtomic 0 2 XSyncCATestType [7] anyAnswers st := by
  refine ⟨_, _, rfl, fun h => ?_⟩
  have hsame := h _ BadValue rfl (by decide)
  have htype := congrArg (Option.map fun pAlarm => pAlarm.trigger.testType) hsame
  exact absurd htype (by decide)

end Atomic

end Xenia.Xext
