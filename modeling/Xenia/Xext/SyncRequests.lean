import Xenia.Xext.SyncWalks
import Xenia.Lib.Bits

/-!
# Requests of the synchronization extension

Each request keeps the state sound. `syncInitTrigger_spec` is about a trigger that is
initialized: it is accepted exactly if it is `Acceptable`, and only then does it change lists.
`syncChangeAlarmAttributes_spec` is about an alarm: its attributes are put into it before its
trigger is initialized, so an alarm can be out of order after a change that is refused
(`AttributesKept` is the condition under which it is not).
-/

namespace Xenia.Xext

open Xenia.Lib Xenia.Dix Function Option

/-! ### Masks -/

theorem has_twoPow (mask : BitVec 32) {i : ℕ} (hi : i < 32) :
    has mask (BitVec.twoPow 32 i) = true ↔ i ∈ maskBits mask := by
  unfold has maskBits
  rw [decide_eq_true_eq, and_twoPow_ne_zero_iff mask hi, List.mem_filter, List.mem_range]
  exact (and_iff_right hi).symm

theorem has_testType (mask : BitVec 32) : has mask XSyncCATestType = true ↔ 3 ∈ maskBits mask := by
  rw [show XSyncCATestType = BitVec.twoPow 32 3 from by decide]
  exact has_twoPow mask (by decide)

theorem has_delta (mask : BitVec 32) : has mask XSyncCADelta = true ↔ 4 ∈ maskBits mask := by
  rw [show XSyncCADelta = BitVec.twoPow 32 4 from by decide]
  exact has_twoPow mask (by decide)

theorem has_or (mask a b : BitVec 32) : has mask (a ||| b) = (has mask a || has mask b) := by
  unfold has
  rw [Bool.eq_iff_iff, Bool.or_eq_true, decide_eq_true_eq, decide_eq_true_eq, decide_eq_true_eq,
    and_ne_zero_iff, and_ne_zero_iff, and_ne_zero_iff, ← exists_or]
  refine exists_congr fun i => ?_
  rw [BitVec.getLsbD_or, Bool.or_eq_true, and_or_left]

/-- A mask that is cut to `all` still has its bits there. -/
theorem has_and {mask all bits : BitVec 32} (h : all &&& bits = bits) : has (mask &&& all) bits = has mask bits := by
  unfold has
  rw [BitVec.and_assoc, h]

/-! ### Lists with one trigger changed -/

/-- The alarms and awaits are the same. -/
structure Kept (st st' : SyncState) : Prop where
  alarms : st'.alarms = st.alarms
  awaits : st'.awaits = st.awaits
  nextAwait : st'.nextAwait = st.nextAwait
  errorBase : st'.errorBase = st.errorBase

theorem Kept.trans {st₁ st₂ st₃ : SyncState} (h : Kept st₁ st₂) (h' : Kept st₂ st₃) : Kept st₁ st₃ :=
  ⟨h'.alarms.trans h.alarms, h'.awaits.trans h.awaits, h'.nextAwait.trans h.nextAwait,
    h'.errorBase.trans h.errorBase⟩

section Requests

variable {P : Prop} {st : SyncState} {target : TriggerRef → Option ℕ} {ref : TriggerRef} {a : SyncAnswers}

theorem Kept.targets {st st' : SyncState} (h : Kept st st') : targets st' = targets st := by
  funext r
  unfold Xext.targets
  rw [triggerOf_congr h.alarms h.awaits]

variable {pSync : Option ℕ}

theorem syncDeleteTrigger_spec (h : Registered st target) (hnone : NoneDestroyed st) (ht : target ref = pSync) :
    ∃ st', syncDeleteTriggerFromSyncObject ref pSync st = .ok st' ∧
      Registered st' (update target ref none) ∧ NoneDestroyed st' ∧ Kept st st' ∧
      ∀ c, (st'.counters c).isSome = (st.counters c).isSome := by
  cases pSync with
  | none =>
    refine ⟨st, rfl, ?_, hnone, ⟨rfl, rfl, rfl, rfl⟩, fun _ => rfl⟩
    rwa [← ht, update_eq_self]
  | some c =>
    refine ⟨_, syncDeleteTrigger_eq h ht (hnone c), ?_, hnone.dropRefs _, ⟨rfl, rfl, rfl, rfl⟩,
      fun c' => by rw [dropRefs_counters, isSome_map]⟩
    have htarget : dropTarget st target (fun r => r = ref) = update target ref none := by
      funext r
      rw [dropTarget_eq hnone, update_apply]
      simp
    rw [← htarget]
    exact h.dropRefs _

theorem syncAddTrigger_spec' (h : Registered st target) (hnone : NoneDestroyed st) (ht : target ref = none) (hsome : ∀ c, pSync = some c → (st.counters c).isSome) :
    ∃ st', syncAddTriggerToSyncObject ref pSync st = .ok st' ∧
      Registered st' (update target ref pSync) ∧ NoneDestroyed st' ∧ Kept st st' := by
  cases pSync with
  | none =>
    refine ⟨st, rfl, ?_, hnone, ⟨rfl, rfl, rfl, rfl⟩⟩
    rwa [← ht, update_eq_self]
  | some c =>
    obtain ⟨k, hk⟩ := isSome_iff_exists.1 (hsome c rfl)
    obtain ⟨st', hrun, hreg, hnone', ha, hw, hn, he⟩ := syncAddTrigger_spec h hnone ht hk
    exact ⟨st', hrun, hreg, hnone', ⟨ha, hw, hn, he⟩⟩

/-! ### Initializing a trigger -/

/-- The value a counter has when it is asked for. -/
def offered (st : SyncState) (a : SyncAnswers) (pSync : Option ℕ) : Option Int64 :=
  pSync.bind fun c => (st.counters c).map fun k => if k.client.isNone then a.query c else k.value

theorem queryCounter_spec (h : Registered st target) (hnone : NoneDestroyed st)
    (hsome : ∀ c, pSync = some c → (st.counters c).isSome) :
    ∃ st', queryCounter pSync a st = .ok (st', offered st a pSync) ∧ Registered st' target ∧ NoneDestroyed st' ∧
      Kept st st' ∧ ∀ c, (st'.counters c).isSome = (st.counters c).isSome := by
  unfold queryCounter offered
  cases pSync with
  | none => exact ⟨st, rfl, h, hnone, ⟨rfl, rfl, rfl, rfl⟩, fun _ => rfl⟩
  | some c =>
    obtain ⟨k, hk⟩ := isSome_iff_exists.1 (hsome c rfl)
    simp only [hk, bind_some, map_some]
    split
    · refine ⟨_, rfl, ?_, ?_, ⟨rfl, rfl, rfl, rfl⟩, ?_⟩
      all_goals unfold SyncState.setCounter
      · refine h.congr (fun c' => ?_) rfl
        dsimp only
        rcases eq_or_ne c' c with rfl | hne
        · rw [update_self, hk]
          rfl
        · rw [update_of_ne hne]
      · intro c' k' hk'
        dsimp only at hk'
        rcases eq_or_ne c' c with rfl | hne
        · rw [update_self] at hk'
          cases hk'
          exact hnone c' k hk
        · rw [update_of_ne hne] at hk'
          exact hnone c' k' hk'
      · intro c'
        dsimp only
        rcases eq_or_ne c' c with rfl | hne
        · rw [update_self, hk]
          rfl
        · rw [update_of_ne hne]
    · exact ⟨st, rfl, h, hnone, ⟨rfl, rfl, rfl, rfl⟩, fun _ => rfl⟩

/-- The counter a request names, or the one the trigger has. -/
def named (pTrigger : SyncTrigger) (syncObject : ℕ) (changes : BitVec 32) : Option ℕ :=
  if has changes XSyncCACounter then if syncObject = 0 then none else some syncObject else pTrigger.pSync

/-- What `SyncInitTrigger` asks of a trigger: a counter that is there and may be read, a value
type and a test type there are, and a value that is absolute or can be added to a counter's. -/
structure Acceptable (st : SyncState) (a : SyncAnswers) (pTrigger : SyncTrigger) (syncObject : ℕ)
    (changes : BitVec 32) : Prop where
  counter : has changes XSyncCACounter = true →
    syncObject = 0 ∨ (st.counters syncObject).isSome ∧ a.denied = none
  valueType : has changes XSyncCAValueType = true →
    pTrigger.valueType = XSyncRelative ∨ pTrigger.valueType = XSyncAbsolute
  value : has changes (XSyncCAValueType ||| XSyncCAValue) = true → pTrigger.valueType = XSyncAbsolute ∨
    ∃ v, offered st a (named pTrigger syncObject changes) = some v ∧ (checkedInt64Add v pTrigger.waitValue).2 = false
  testType : has changes XSyncCATestType = true → (selectCheckTrigger pTrigger.testType).isSome

/-- The trigger is accepted, as `pTrigger'`. -/
structure Accepted (pTrigger pTrigger' : SyncTrigger) (syncObject : ℕ) (changes : BitVec 32) : Prop where
  pSync : pTrigger'.pSync = named pTrigger syncObject changes
  selected : has changes XSyncCATestType = true → selectCheckTrigger pTrigger.testType = some pTrigger'.checkTrigger
  unchanged : has changes XSyncCATestType = false → pTrigger'.checkTrigger = pTrigger.checkTrigger

theorem initTestValue_spec (pTrigger : SyncTrigger) (value : Option Int64) (changes : BitVec 32) :
    (initTestValue pTrigger value changes).1.pSync = pTrigger.pSync ∧
      (initTestValue pTrigger value changes).1.testType = pTrigger.testType ∧
      (initTestValue pTrigger value changes).1.checkTrigger = pTrigger.checkTrigger ∧
      ((initTestValue pTrigger value changes).2 = none ↔
        (has changes (XSyncCAValueType ||| XSyncCAValue) = true → pTrigger.valueType = XSyncAbsolute ∨
          ∃ v, value = some v ∧ (checkedInt64Add v pTrigger.waitValue).2 = false)) := by
  unfold initTestValue
  split
  · rename_i hv
    split
    · rename_i habs
      exact ⟨rfl, rfl, rfl, iff_of_true rfl fun _ => .inl habs⟩
    · rename_i habs
      cases value with
      | none =>
        refine ⟨rfl, rfl, rfl, iff_of_false (by simp) fun h => ?_⟩
        rcases h hv with h | ⟨v, h, -⟩
        · exact habs h
        · simp at h
      | some v =>
        refine ⟨rfl, rfl, rfl, ?_⟩
        dsimp only
        cases ho : (checkedInt64Add v pTrigger.waitValue).2 with
        | false => exact iff_of_true (by simp) fun _ => .inr ⟨v, rfl, ho⟩
        | true =>
          refine iff_of_false (by simp) fun h => ?_
          rcases h hv with h | ⟨v', h, ho'⟩
          · exact habs h
          · cases h
            rw [ho] at ho'
            simp at ho'
  · rename_i hv
    exact ⟨rfl, rfl, rfl, iff_of_true rfl fun h => absurd h hv⟩

/-- The counter of the trigger is there. -/
def HasCounter (st : SyncState) (t : SyncTrigger) : Prop := ∀ c, t.pSync = some c → (st.counters c).isSome

/-- The counter that a request names is there, and may be read. -/
def CounterFound (st : SyncState) (a : SyncAnswers) (syncObject : ℕ) (changes : BitVec 32) : Prop :=
  has changes XSyncCACounter = true → syncObject = 0 ∨ (st.counters syncObject).isSome ∧ a.denied = none

variable {t : SyncTrigger}

/-- The counter is looked up, or the request is refused. -/
theorem triggerCounter_cases (hthere : HasCounter st t) (syncObject : ℕ) (changes : BitVec 32) :
    (¬ CounterFound st a syncObject changes ∧
      ∃ rc, triggerCounter t syncObject changes a.denied st = .error rc ∧
        (rc = st.errorBase + XSyncBadCounter ∨ a.denied = some rc)) ∨
      CounterFound st a syncObject changes ∧
        triggerCounter t syncObject changes a.denied st = .ok (named t syncObject changes) ∧
        ∀ c, named t syncObject changes = some c → (st.counters c).isSome := by
  unfold CounterFound triggerCounter named
  by_cases hc : has changes XSyncCACounter = true
  · rw [if_pos hc, if_pos hc]
    by_cases h0 : syncObject = 0
    · rw [if_pos h0, if_pos h0]
      exact .inr ⟨fun _ => .inl h0, rfl, by simp⟩
    · rw [if_neg h0, if_neg h0]
      unfold lookupCounter
      cases hk : st.counters syncObject with
      | none =>
        refine .inl ⟨fun hfound => ?_, _, rfl, .inl rfl⟩
        rcases hfound hc with h | ⟨h, -⟩
        · exact h0 h
        · simp at h
      | some k =>
        cases hd : a.denied with
        | some rc =>
          refine .inl ⟨fun hfound => ?_, rc, rfl, .inr rfl⟩
          rcases hfound hc with h | ⟨-, h⟩
          · exact h0 h
          · simp at h
        | none =>
          refine .inr ⟨fun _ => .inr ⟨rfl, rfl⟩, rfl, ?_⟩
          intro c hname
          obtain rfl := some.inj hname
          rw [hk]
          rfl
  · rw [if_neg hc, if_neg hc]
    exact .inr ⟨fun h => absurd h hc, rfl, hthere⟩

/-- The counter is found, or the trigger is not acceptable. -/
theorem triggerCounter_spec (h : Registered st target) (ht : target ref = t.pSync) (syncObject : ℕ) (changes : BitVec 32) :
    (∃ rc, triggerCounter t syncObject changes a.denied st = .error rc ∧ ¬Acceptable st a t syncObject changes) ∨
      triggerCounter t syncObject changes a.denied st = .ok (named t syncObject changes) ∧
        (∀ c, named t syncObject changes = some c → (st.counters c).isSome) ∧
        (has changes XSyncCACounter = true → syncObject = 0 ∨ (st.counters syncObject).isSome ∧ a.denied = none) := by
  have hthere : HasCounter st t := by
    intro c hc
    rw [hc] at ht
    obtain ⟨k, hk, -⟩ := h.counter _ ht
    rw [hk]
    rfl
  rcases triggerCounter_cases (a := a) hthere syncObject changes with ⟨hlost, rc, hlookup, -⟩ | ⟨hfound, hlookup, hnamed⟩
  · exact .inl ⟨rc, hlookup, fun hacc => hlost hacc.counter⟩
  · exact .inr ⟨hlookup, hnamed, hfound⟩

/-- The trigger is on the list of the counter that is asked for. -/
theorem setTriggerCounter_spec (h : Registered st target) (hnone : NoneDestroyed st)
    (ht : target ref = t.pSync) (changes : BitVec 32) (hsome : ∀ c, pSync = some c → (st.counters c).isSome) :
    ∃ st' t', setTriggerCounter ref t pSync changes st = .ok (st', t', .ok ()) ∧
      Registered st' (update target ref t'.pSync) ∧ NoneDestroyed st' ∧ Kept st st' ∧
      t'.testType = t.testType ∧ t'.checkTrigger = t.checkTrigger ∧
      t'.pSync = if has changes XSyncCACounter = true then pSync else t.pSync := by
  unfold setTriggerCounter
  by_cases hnew : has changes XSyncCACounter = true ∧ pSync ≠ t.pSync
  · obtain ⟨st₁, hdel, h₁, hnone₁, hkept₁, hthere⟩ := syncDeleteTrigger_spec h hnone ht
    obtain ⟨st₂, hadd, h₂, hnone₂, hkept₂⟩ := syncAddTrigger_spec' h₁ hnone₁
      (show update target ref none ref = none from update_self ..)
      (fun c hc => by rw [hthere]; exact hsome c hc)
    refine ⟨st₂, { t with pSync := pSync }, ?_, ?_, hnone₂, hkept₁.trans hkept₂, rfl, rfl, (if_pos hnew.1).symm⟩
    · rw [if_pos hnew, hdel]
      show (syncAddTriggerToSyncObject ref pSync st₁ >>= fun st =>
        Except.ok (st, { t with pSync := pSync }, Except.ok ())) = _
      rw [hadd]
      rfl
    · rwa [update_idem] at h₂
  · rw [if_neg hnew]
    refine ⟨st, t, rfl, ?_, hnone, ⟨rfl, rfl, rfl, rfl⟩, rfl, rfl, ?_⟩
    · rwa [← ht, update_eq_self]
    · split
      · rename_i hc
        by_contra hne
        exact hnew ⟨hc, fun h => hne h.symm⟩
      · rfl

/-- **`SyncInitTrigger`** accepts a trigger exactly if it is acceptable, and then puts it on the
list of its counter; where it refuses one, no list changes. -/
theorem syncInitTrigger_spec (h : Registered st target) (hnone : NoneDestroyed st)
    (ht : target ref = t.pSync) (syncObject : ℕ) (changes : BitVec 32) :
    ∃ st' t' r, syncInitTrigger ref t syncObject changes a st = .ok (st', t', r) ∧
      Registered st' (update target ref t'.pSync) ∧ NoneDestroyed st' ∧ Kept st st' ∧
      t'.testType = t.testType ∧
      ((∃ rc, r = .error rc) ∧ ¬Acceptable st a t syncObject changes ∧ t'.pSync = t.pSync ∧
          t'.checkTrigger = t.checkTrigger ∨
        r = .ok () ∧ Acceptable st a t syncObject changes ∧ Accepted t t' syncObject changes) := by
  have hself : update target ref t.pSync = target := by rw [← ht, update_eq_self]
  unfold syncInitTrigger
  rcases triggerCounter_spec (a := a) h ht syncObject changes with ⟨rc, hfound, hno⟩ | ⟨hfound, hsome, hcounter⟩
  · rw [hfound]
    exact ⟨st, t, _, rfl, by rwa [hself], hnone, ⟨rfl, rfl, rfl, rfl⟩, rfl, .inl ⟨⟨rc, rfl⟩, hno, rfl, rfl⟩⟩
  rw [hfound]
  obtain ⟨st₁, hquery, h₁, hnone₁, hkept₁, hthere⟩ := queryCounter_spec (a := a) h hnone hsome
  dsimp only
  rw [hquery]
  -- the value type
  by_cases hvt : has changes XSyncCAValueType = true ∧ t.valueType ≠ XSyncRelative ∧ t.valueType ≠ XSyncAbsolute
  · refine ⟨st₁, t, .error BadValue, if_pos hvt, by rwa [hself], hnone₁, hkept₁, rfl, .inl ⟨⟨_, rfl⟩, ?_, rfl, rfl⟩⟩
    intro hacc
    rcases hacc.valueType hvt.1 with h | h
    · exact hvt.2.1 h
    · exact hvt.2.2 h
  have hvalueType : has changes XSyncCAValueType = true →
      t.valueType = XSyncRelative ∨ t.valueType = XSyncAbsolute := by
    intro hv
    by_contra hno
    push Not at hno
    exact hvt ⟨hv, hno.1, hno.2⟩
  -- the value
  obtain ⟨hpSync, htype, hcheck, hval⟩ := initTestValue_spec t (offered st a (named t syncObject changes)) changes
  obtain ⟨⟨t₁, err⟩, hinit⟩ : ∃ r, r = initTestValue t (offered st a (named t syncObject changes)) changes := ⟨_, rfl⟩
  rw [← hinit] at hpSync htype hcheck hval
  cases err with
  | some rc =>
    refine ⟨st₁, t₁, .error rc, ?_, by rwa [hpSync, hself], hnone₁, hkept₁, htype,
      .inl ⟨⟨rc, rfl⟩, fun hacc => ?_, hpSync, hcheck⟩⟩
    · refine Eq.trans (if_neg hvt) ?_
      rw [← hinit]
    · exact nomatch hval.2 hacc.value
  | none =>
    -- the test type
    cases hsel : triggerCheck t₁ changes with
    | none =>
      refine ⟨st₁, t₁, .error BadValue, ?_, by rwa [hpSync, hself], hnone₁, hkept₁, htype,
        .inl ⟨⟨_, rfl⟩, fun hacc => ?_, hpSync, hcheck⟩⟩
      · refine Eq.trans (if_neg hvt) ?_
        rw [← hinit]
        dsimp only
        rw [hsel]
      · unfold triggerCheck at hsel
        split at hsel
        · rename_i hc
          have := hacc.testType hc
          rw [← htype, hsel] at this
          simp at this
        · simp at hsel
    | some check =>
      have hacc : Acceptable st a t syncObject changes := by
        refine ⟨hcounter, hvalueType, hval.1 rfl, fun hc => ?_⟩
        unfold triggerCheck at hsel
        rw [if_pos hc] at hsel
        rw [← htype, hsel]
        rfl
      have hselected : has changes XSyncCATestType = true → selectCheckTrigger t.testType = some check := by
        intro hc
        unfold triggerCheck at hsel
        rwa [if_pos hc, htype] at hsel
      have hunchanged : has changes XSyncCATestType = false → check = t.checkTrigger := by
        intro hc
        unfold triggerCheck at hsel
        rw [if_neg (by simp [hc])] at hsel
        rw [← hcheck]
        exact (some.inj hsel).symm
      obtain ⟨st₂, t₂, hset, h₂, hnone₂, hkept₂, htype₂, hcheck₂, hpSync₂⟩ := setTriggerCounter_spec
        (t := { t₁ with checkTrigger := check }) h₁ hnone₁ (ht.trans hpSync.symm) changes
        (fun c hc => by rw [hthere]; exact hsome c hc)
      refine ⟨st₂, t₂, .ok (), ?_, h₂, hnone₂, hkept₁.trans hkept₂, htype₂.trans htype,
        .inr ⟨rfl, hacc, ⟨?_, fun hc => ?_, fun hc => ?_⟩⟩⟩
      · refine Eq.trans (if_neg hvt) ?_
        rw [← hinit]
        dsimp only
        rw [hsel]
        exact hset
      · rw [hpSync₂]
        split
        · rfl
        · rename_i hc
          unfold named
          rw [if_neg hc]
          exact hpSync
      · rw [hcheck₂]
        exact hselected hc
      · rw [hcheck₂]
        exact hunchanged hc

/-! ### Changing an alarm -/

variable {values : List UInt32} {attributes attributes' : AlarmAttributes}

theorem changeAttribute_spec {bit : ℕ} {values' : List UInt32}
    (h : changeAttribute bit values attributes = .ok (values', attributes')) :
    attributes'.trigger.pSync = attributes.trigger.pSync ∧
      attributes'.trigger.checkTrigger = attributes.trigger.checkTrigger ∧
      (bit ≠ 3 → attributes'.trigger.testType = attributes.trigger.testType) ∧
      (bit ≠ 4 → attributes'.delta = attributes.delta) := by
  unfold changeAttribute at h
  dsimp only at h
  split at h
  case h_6 =>
    split at h
    · simp at h
    · cases h
      exact ⟨rfl, rfl, fun _ => rfl, fun _ => rfl⟩
  case h_7 => simp at h
  case h_4 =>
    cases h
    exact ⟨rfl, rfl, fun hb => absurd rfl hb, fun _ => rfl⟩
  case h_5 =>
    cases h
    exact ⟨rfl, rfl, fun _ => rfl, fun hb => absurd rfl hb⟩
  all_goals
    cases h
    exact ⟨rfl, rfl, fun _ => rfl, fun _ => rfl⟩

/-- The loop over the mask changes what the mask names. -/
theorem changeAttributes_spec (bits : List ℕ) :
    ∀ (values : List UInt32) (attributes : AlarmAttributes), changeAttributes bits values attributes = .ok attributes' →
      attributes'.trigger.pSync = attributes.trigger.pSync ∧
        attributes'.trigger.checkTrigger = attributes.trigger.checkTrigger ∧
        (3 ∉ bits → attributes'.trigger.testType = attributes.trigger.testType) ∧
        (4 ∉ bits → attributes'.delta = attributes.delta) := by
  induction bits with
  | nil =>
    intro values attributes h
    cases h
    exact ⟨rfl, rfl, fun _ => rfl, fun _ => rfl⟩
  | cons bit bits ih =>
    intro values attributes h
    unfold changeAttributes at h
    split at h
    · simp at h
    · rename_i values₁ attributes₁ hone
      obtain ⟨hp₁, hc₁, htype₁, hdelta₁⟩ := changeAttribute_spec hone
      obtain ⟨hp, hc, htype, hdelta⟩ := ih values₁ attributes₁ h
      refine ⟨hp.trans hp₁, hc.trans hc₁, fun hnot => ?_, fun hnot => ?_⟩
      · rw [List.mem_cons, not_or] at hnot
        exact (htype hnot.2).trans (htype₁ (Ne.symm hnot.1))
      · rw [List.mem_cons, not_or] at hnot
        exact (hdelta hnot.2).trans (hdelta₁ (Ne.symm hnot.1))

variable {pAlarm pAlarm' : SyncAlarm} {client : ℕ}

theorem syncEventSelectForAlarm_spec {wantevents memory : Bool}
    (h : syncEventSelectForAlarm pAlarm client wantevents memory = .ok pAlarm') :
    pAlarm'.trigger = pAlarm.trigger ∧ pAlarm'.delta = pAlarm.delta := by
  unfold syncEventSelectForAlarm at h
  split at h
  · cases h
    exact ⟨rfl, rfl⟩
  split at h
  · cases h
    split
    · exact ⟨rfl, rfl⟩
    · exact ⟨rfl, rfl⟩
  split at h
  · cases h
    exact ⟨rfl, rfl⟩
  split at h
  · simp at h
  · cases h
    exact ⟨rfl, rfl⟩

/-- What the values of a request make of an alarm. -/
def requested (pAlarm : SyncAlarm) (mask : BitVec 32) (values : List UInt32) : Except Status AlarmAttributes :=
  changeAttributes (maskBits mask) values ⟨pAlarm.trigger.pSync.getD 0, pAlarm.trigger, pAlarm.delta, none⟩

/-- A request that passes the checks before the attributes are put into the alarm, and asks for
another test type, asks for a trigger that is acceptable. -/
def AttributesKept (st : SyncState) (a : SyncAnswers) (client : ℕ) (pAlarm : SyncAlarm) (mask : BitVec 32)
    (values : List UInt32) : Prop :=
  ∀ attributes pAlarm', requested pAlarm mask values = .ok attributes →
    selectEvents pAlarm client attributes.events a.eventClient = .ok pAlarm' →
    ¬(has mask (XSyncCADelta ||| XSyncCATestType) && wrongSign attributes.trigger.testType attributes.delta) = true →
    attributes.trigger.testType = pAlarm.trigger.testType ∨
      Acceptable st a attributes.trigger attributes.counter (mask &&& XSyncCAAllTrigger)

/-- The sign of the delta that is asked for is right, if the request passes its check. -/
theorem requested_sign {mask : BitVec 32} (hreq : requested pAlarm mask values = .ok attributes) (h : AlarmOk pAlarm)
    (hsign : ¬(has mask (XSyncCADelta ||| XSyncCATestType) &&
      wrongSign attributes.trigger.testType attributes.delta) = true) :
    wrongSign attributes.trigger.testType attributes.delta = false := by
  obtain ⟨-, -, htype, hdelta⟩ := changeAttributes_spec _ _ _ hreq
  rw [has_or, Bool.and_eq_true, Bool.or_eq_true, has_testType, has_delta, not_and_or, not_or] at hsign
  rcases hsign with ⟨h4, h3⟩ | hsign
  · rw [htype h3, hdelta h4]
    exact h.2
  · simpa using hsign

theorem selectEvents_spec {events : Option Bool} {memory : Bool} (h : selectEvents pAlarm client events memory = .ok pAlarm') :
    pAlarm'.trigger = pAlarm.trigger ∧ pAlarm'.delta = pAlarm.delta := by
  cases events with
  | none =>
    cases h
    exact ⟨rfl, rfl⟩
  | some wantevents => exact syncEventSelectForAlarm_spec h

/-- What a change makes of the state and the alarm: the lists are sound, and the alarm is in
order if the request is accepted or asks for no other test type. -/
structure Changed (st : SyncState) (target : TriggerRef → Option ℕ) (a : SyncAnswers) (client id : ℕ) (pAlarm : SyncAlarm)
    (mask : BitVec 32) (values : List UInt32) (st' : SyncState) (pAlarm' : SyncAlarm) (r : Except Status Unit) :
    Prop where
  lists : Registered st' (Function.update target (.alarm id) pAlarm'.trigger.pSync)
  none : NoneDestroyed st'
  same : Kept st st'
  accepted : r = .ok () → AlarmOk pAlarm → AlarmOk pAlarm'
  refused : ∀ rc, r = .error rc → pAlarm'.trigger.pSync = pAlarm.trigger.pSync
  kept : AttributesKept st a client pAlarm mask values → AlarmOk pAlarm → AlarmOk pAlarm'

/-- A change that is refused before the attributes are put into the alarm. -/
theorem Changed.of_refused (h : Registered st target) (hnone : NoneDestroyed st) {id : ℕ} (ht : target (.alarm id) = pAlarm.trigger.pSync) (hsame : pAlarm'.trigger = pAlarm.trigger ∧
      pAlarm'.delta = pAlarm.delta) (mask : BitVec 32) (values : List UInt32) (rc : Status) :
    Changed st target a client id pAlarm mask values st pAlarm' (.error rc) := by
  refine ⟨?_, hnone, ⟨rfl, rfl, rfl, rfl⟩, fun h => (nomatch h), fun _ _ => by rw [hsame.1], fun _ hok => ?_⟩
  · rwa [hsame.1, ← ht, update_eq_self]
  · unfold AlarmOk
    rw [hsame.1, hsame.2]
    exact hok

/-- **`SyncChangeAlarmAttributes`** comes to an end, whatever the request is. -/
theorem syncChangeAlarmAttributes_spec (h : Registered st target) (hnone : NoneDestroyed st) {id : ℕ} (ht : target (.alarm id) = pAlarm.trigger.pSync) (client : ℕ) (mask : BitVec 32)
    (values : List UInt32) :
    ∃ st' pAlarm' r, syncChangeAlarmAttributes client id pAlarm mask values a st = .ok (st', pAlarm', r) ∧
      Changed st target a client id pAlarm mask values st' pAlarm' r := by
  unfold syncChangeAlarmAttributes
  cases hreq : changeAttributes (maskBits mask) values
    ⟨pAlarm.trigger.pSync.getD 0, pAlarm.trigger, pAlarm.delta, none⟩ with
  | error rc => exact ⟨st, pAlarm, _, rfl, .of_refused h hnone ht ⟨rfl, rfl⟩ mask values rc⟩
  | ok attributes =>
    obtain ⟨hpSync, hcheck, htype, hdelta⟩ := changeAttributes_spec _ _ _ hreq
    dsimp only at hpSync hcheck htype hdelta ⊢
    cases hselected : selectEvents pAlarm client attributes.events a.eventClient with
    | error rc => exact ⟨st, pAlarm, _, rfl, .of_refused h hnone ht ⟨rfl, rfl⟩ mask values rc⟩
    | ok pAlarm₁ =>
      dsimp only
      by_cases hsign : (has mask (XSyncCADelta ||| XSyncCATestType) &&
          wrongSign attributes.trigger.testType attributes.delta) = true
      · rw [if_pos hsign]
        exact ⟨st, pAlarm₁, _, rfl, .of_refused h hnone ht (selectEvents_spec hselected) mask values BadMatch⟩
      · rw [if_neg hsign]
        have hright : AlarmOk pAlarm → wrongSign attributes.trigger.testType attributes.delta = false :=
          fun hok => requested_sign hreq hok hsign
        -- the attributes are in the alarm now
        obtain ⟨st', t', r, hinit, hreg, hnone', hkept, htype', hres⟩ := syncInitTrigger_spec (a := a) h hnone
          (t := attributes.trigger) (ht.trans hpSync.symm) attributes.counter (mask &&& XSyncCAAllTrigger)
        rw [hinit]
        have hin : has (mask &&& XSyncCAAllTrigger) XSyncCATestType = has mask XSyncCATestType := has_and (by decide)
        rcases hres with ⟨⟨rc, rfl⟩, hno, hpSync', hcheck'⟩ | ⟨rfl, hacc, haccepted⟩
        · refine ⟨st', { pAlarm₁ with delta := attributes.delta, trigger := t' }, .error rc, rfl, hreg, hnone', hkept,
            fun h => (nomatch h), fun _ _ => hpSync'.trans hpSync, fun hkeep hok => ?_⟩
          rcases hkeep attributes pAlarm₁ hreq hselected hsign with hsame | hacc
          · unfold AlarmOk
            rw [htype', hcheck', hcheck]
            refine ⟨?_, hright hok⟩
            rw [hsame]
            exact hok.1
          · exact absurd hacc hno
        · have hdone : AlarmOk pAlarm →
              AlarmOk { pAlarm₁ with delta := attributes.delta, trigger := t', state := .active } := by
            intro hok
            unfold AlarmOk
            rw [htype']
            refine ⟨?_, hright hok⟩
            cases h3 : has mask XSyncCATestType with
            | true => exact haccepted.selected (by rw [hin, h3])
            | false =>
              rw [haccepted.unchanged (by rw [hin, h3]), hcheck, htype fun hmem => ?_]
              · exact hok.1
              · rw [(has_testType mask).2 hmem] at h3
                simp at h3
          exact ⟨st', _, .ok (), rfl, hreg, hnone', hkept, fun _ => hdone, fun _ h => (nomatch h), fun _ => hdone⟩

end Requests

end Xenia.Xext
