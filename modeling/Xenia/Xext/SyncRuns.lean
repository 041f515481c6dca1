import Xenia.Xext.SyncRequests

/-!
# Runs of the synchronization extension

The requests put together. `syncOp_ends` is the step: a request that meets its conditions keeps
the state sound, follows no pointer to freed memory and calls no trigger twice. The conditions
are `AwaitsApart` for the walks over a list, and `AlarmKept` for a change of an alarm.

`triggers_live` is about the triggers of a run, `alarms_consistent` about its alarms.
-/

namespace Xenia.Xext

open Xenia.Lib Xenia.Dix List Function Option

section Requests

variable {P : Prop} {st : SyncState} {a : SyncAnswers}

/-! ### Parts of requests -/

variable {st' : SyncState}

/-- Only the lists have changed, and no trigger is on another one. -/
theorem Sound.of_kept (h : Sound P st) (hlists : Registered st' (targets st)) (hkept : Kept st st') : Sound P st' := by
  refine ⟨?_, ?_, fun hP => ?_⟩
  · rwa [hkept.targets]
  · refine ⟨?_, ?_⟩
    · rw [hkept.awaits]
      exact h.awaits.named
    · rw [hkept.awaits, hkept.nextAwait]
      exact h.awaits.fresh
  · unfold AlarmsOk
    rw [hkept.alarms]
    exact h.alarms hP

variable {id : ℕ}

/-- An alarm is put into the state, or is taken out of it, once the lists are as it says. -/
theorem Sound.putAlarm (h : Sound P st) (hkept : Kept st st') (pAlarm : Option SyncAlarm)
    (hlists : Registered st' (update (targets st) (.alarm id)
      (pAlarm.bind fun pAlarm => pAlarm.trigger.pSync)))
    (hok : P → ∀ al, pAlarm = some al → AlarmOk al) : Sound P (st'.setAlarm id pAlarm) := by
  have htargets : targets (st'.setAlarm id pAlarm) = update (targets st) (.alarm id)
      (pAlarm.bind fun pAlarm => pAlarm.trigger.pSync) := by
    rw [← hkept.targets]
    funext r
    unfold targets triggerOf SyncState.setAlarm
    cases r with
    | alarm id' =>
      dsimp only
      rcases eq_or_ne id' id with rfl | hne
      · rw [update_self, update_self]
        cases pAlarm <;> rfl
      · rw [update_of_ne hne, update_of_ne (by simpa using hne)]
    | await id' i => rw [update_of_ne (by simp)]
  refine ⟨?_, ⟨?_, ?_⟩, fun hP => ?_⟩
  · rw [htargets]
    exact hlists.congr (fun _ => rfl) rfl
  · intro id' u hu
    exact h.awaits.named id' u (by rw [← hkept.awaits]; exact hu)
  · intro id' u hu
    have := h.awaits.fresh id' u (by rw [← hkept.awaits]; exact hu)
    rwa [← hkept.nextAwait] at this
  · intro id' al hal
    unfold SyncState.setAlarm at hal
    dsimp only at hal
    rcases eq_or_ne id' id with rfl | hne
    · rw [update_self] at hal
      exact hok hP al hal
    · rw [update_of_ne hne, hkept.alarms] at hal
      exact h.alarms hP id' al hal

theorem freeAwait_sound (h : Sound P st) (hnone : NoneDestroyed st) (id : ℕ) :
    Ends P (fun st' => Sound P st' ∧ NoneDestroyed st') (freeAwait id st) := by
  cases hu : st.awaits id with
  | none =>
    unfold freeAwait
    rw [hu]
    exact .ok ⟨h, hnone⟩
  | some u =>
    rw [freeAwait_eq h.lists h.awaits hu]
    refine .ok ⟨h.remove id (fun c => ?_) rfl rfl rfl rfl, hnone.dropRefs (isAwaitOf id)⟩
    rw [← dropRefs_eq_dropAll hnone]
    rfl

variable {t : SyncTrigger}

theorem triggerFired_sound (h : Sound P st) (hnone : NoneDestroyed st) {ref : TriggerRef} (ht : triggerOf st ref = some t) :
    Ends P (fun st' => Sound P st' ∧ NoneDestroyed st') (triggerFired ref a st) := by
  cases ref with
  | alarm id =>
    obtain ⟨pAlarm, ha, -⟩ := map_eq_some_iff.1 ht
    refine (syncAlarmTriggerFired_ends h ha).mono ?_
    rintro st' ⟨pAlarm', sent, hsame, rfl⟩
    exact ⟨h.setAlarm ha hsame sent, hnone⟩
  | await id i =>
    obtain ⟨u, hu, -⟩ := bind_eq_some_iff.1 ht
    obtain ⟨st', hrun, -, hs, hn, -⟩ := awaitFired_spec h hnone hu (a.events id)
    unfold triggerFired
    dsimp only
    rw [hrun]
    exact .ok ⟨hs, hn⟩

theorem fireIfTrue_ends (h : Sound P st) (hnone : NoneDestroyed st) (ref : TriggerRef) (ht : triggerOf st ref = some t) :
    Ends P (fun r => Sound P r.1 ∧ NoneDestroyed r.1 ∧ (r.2 = false → r.1 = st)) (fireIfTrue ref t a st) := by
  have hfired : Ends P (fun r => Sound P r.1 ∧ NoneDestroyed r.1 ∧ (r.2 = false → r.1 = st))
      (do return (← triggerFired ref a st, true) : Outcome (SyncState × Bool)) := by
    refine (triggerFired_sound (a := a) h hnone ht).bind ?_
    rintro st' ⟨hs, hn⟩
    exact .ok ⟨hs, hn, fun h => nomatch h⟩
  unfold fireIfTrue
  cases hc : t.pSync with
  | none => exact hfired
  | some c =>
    obtain ⟨k, hk, -⟩ := h.lists.counter ref (c := c) (by
      unfold targets
      rw [ht]
      exact hc)
    unfold checkTrigger
    dsimp only
    rw [hc]
    dsimp only
    rw [hk]
    show Ends P _ (if _ then _ else _)
    split
    · exact hfired
    · exact .ok ⟨h, hnone, fun _ => rfl⟩

/-! ### Requests on alarms -/

theorem freeAlarm_spec {target : TriggerRef → Option ℕ} (h : Registered st target) (hnone : NoneDestroyed st)
    {pAlarm : SyncAlarm} (ht : target (.alarm id) = pAlarm.trigger.pSync) :
    ∃ st', freeAlarm id pAlarm st = .ok st' ∧ Registered st' (update target (.alarm id) none) ∧
      NoneDestroyed st' ∧ Kept st st' := by
  obtain ⟨sent, hsent⟩ := syncSendAlarmNotifyEvents_ok id { pAlarm with state := .destroyed } (by
      intro c hc
      obtain ⟨k, hk, -⟩ := h.counter _ (ht.trans hc)
      exact ⟨k, hk⟩)
  obtain ⟨st₁, hst₁⟩ : ∃ st₁ : SyncState, st₁ = { st with sent := sent } := ⟨_, rfl⟩
  have h₁ : Registered st₁ target := h.congr (fun _ => by rw [hst₁]) (by rw [hst₁])
  have hnone₁ : NoneDestroyed st₁ := by
    rw [hst₁]
    exact hnone
  obtain ⟨st', hrun, hreg, hnone', hkept, -⟩ := syncDeleteTrigger_spec h₁ hnone₁ ht
  refine ⟨st', ?_, hreg, hnone', ?_⟩
  · unfold freeAlarm
    rw [hsent, ← hst₁]
    exact hrun
  · rw [hst₁] at hkept
    exact ⟨hkept.alarms, hkept.awaits, hkept.nextAwait, hkept.errorBase⟩

theorem newAlarm_ok (client : ℕ) (htype : t.testType = newTrigger.testType)
    (hcheck : selectCheckTrigger newTrigger.testType = some t.checkTrigger) : AlarmOk (newAlarm client t) := by
  unfold AlarmOk newAlarm
  dsimp only
  rw [htype]
  exact ⟨hcheck, by decide⟩

/-- **`ProcSyncCreateAlarm`**: an alarm that is refused has been on no list. -/
theorem procSyncCreateAlarm_ends (h : Sound P st) (hnone : NoneDestroyed st) (client id : ℕ) (valueMask : BitVec 32)
    (values : List UInt32) :
    Ends P (fun r => Sound P r.1 ∧ NoneDestroyed r.1) (procSyncCreateAlarm client id valueMask values a st) := by
  unfold procSyncCreateAlarm
  split
  · exact .ok ⟨h, hnone⟩
  rename_i hfree
  split
  · exact .ok ⟨h, hnone⟩
  split
  · exact .ok ⟨h, hnone⟩
  have hnew : targets st (.alarm id) = none := by
    rw [not_or, not_or, not_isSome_iff_eq_none, not_isSome_iff_eq_none] at hfree
    unfold targets triggerOf
    dsimp only
    rw [hfree.2.2]
    rfl
  have hself : Function.update (targets st) (.alarm id) none = targets st := by rw [← hnew, update_eq_self]
  obtain ⟨st₁, t, r, hinit, h₁, hnone₁, hkept₁, htype, hres⟩ := syncInitTrigger_spec (a := a) h.lists hnone
    (t := newTrigger) hnew 0 XSyncCAAllTrigger
  have hpSync : t.pSync = none := by
    rcases hres with ⟨-, -, hp, -⟩ | ⟨-, -, hacc⟩
    · exact hp
    · rw [hacc.pSync]
      rfl
  rw [hpSync, hself] at h₁
  rw [hinit]
  rcases hres with ⟨⟨rc, rfl⟩, -⟩ | ⟨rfl, -, hacc⟩
  · exact .ok ⟨h.of_kept h₁ hkept₁, hnone₁⟩
  have hok : AlarmOk (newAlarm client t) := newAlarm_ok client htype (hacc.selected (by decide))
  obtain ⟨st₂, pAlarm, r, hchange, hchanged⟩ := syncChangeAlarmAttributes_spec (a := a) h₁ hnone₁
    (show targets st (.alarm id) = (newAlarm client t).trigger.pSync from hnew.trans hpSync.symm) client valueMask values
  have hkept₂ := hkept₁.trans hchanged.same
  show Ends P _ (syncChangeAlarmAttributes client id (newAlarm client t) valueMask values a st₁ >>= _)
  rw [hchange]
  cases r with
  | error rc =>
    have hp : pAlarm.trigger.pSync = none := (hchanged.refused rc rfl).trans hpSync
    have hlists := hchanged.lists
    rw [hp, hself] at hlists
    exact .ok ⟨h.of_kept hlists hkept₂, hchanged.none⟩
  | ok =>
    have halarm := hchanged.accepted rfl hok
    show Ends P _ (if _ then _ else _)
    split
    · -- there is no memory for the resource
      obtain ⟨st₃, hfreed, h₃, hnone₃, hkept₃⟩ := freeAlarm_spec hchanged.lists hchanged.none (update_self ..)
      rw [update_idem, hself] at h₃
      rw [hfreed]
      exact .ok ⟨h.of_kept h₃ (hkept₂.trans hkept₃), hnone₃⟩
    split
    · refine .ok ⟨h.putAlarm hkept₂ (some { pAlarm with state := .inactive }) hchanged.lists ?_, hchanged.none⟩
      rintro - al hal
      cases hal
      exact halarm
    · have hput : Sound P (st₂.setAlarm id (some pAlarm)) := by
        refine h.putAlarm hkept₂ (some pAlarm) hchanged.lists ?_
        rintro - al hal
        cases hal
        exact halarm
      refine (fireIfTrue_ends (a := a) hput hchanged.none (.alarm id) (t := pAlarm.trigger) ?_).bind ?_
      · unfold triggerOf SyncState.setAlarm
        dsimp only
        rw [update_self]
        rfl
      · rintro ⟨st', fired⟩ ⟨hs, hn, -⟩
        exact .ok ⟨hs, hn⟩

/-- The condition for a change of an alarm. -/
def AlarmKept (st : SyncState) (a : SyncAnswers) (client id : ℕ) (mask : BitVec 32) (values : List UInt32) : Prop :=
  ∀ pAlarm, st.alarms id = some pAlarm → values.length = valueCount mask →
    AttributesKept st a client pAlarm mask values

/-- **`ProcSyncChangeAlarm`**, accepted or not. -/
theorem procSyncChangeAlarm_ends (h : Sound P st) (hnone : NoneDestroyed st) (client id : ℕ) (valueMask : BitVec 32)
    (values : List UInt32) (hkeep : P → AlarmKept st a client id valueMask values) :
    Ends P (fun r => Sound P r.1 ∧ NoneDestroyed r.1) (procSyncChangeAlarm client id valueMask values a st) := by
  unfold procSyncChangeAlarm
  cases ha : st.alarms id with
  | none => exact .ok ⟨h, hnone⟩
  | some pAlarm =>
    dsimp only
    split
    · exact .ok ⟨h, hnone⟩
    rename_i hlength
    have htarget : targets st (.alarm id) = pAlarm.trigger.pSync := by
      unfold targets triggerOf
      dsimp only
      rw [ha]
      rfl
    obtain ⟨st₁, pAlarm', r, hchange, hchanged⟩ := syncChangeAlarmAttributes_spec (a := a) h.lists hnone htarget client
      valueMask values
    have hput : Sound P (st₁.setAlarm id (some pAlarm')) := by
      refine h.putAlarm hchanged.same (some pAlarm') hchanged.lists ?_
      intro hP al hal
      cases hal
      exact hchanged.kept (hkeep hP pAlarm ha (not_not.1 hlength)) (h.alarms hP id pAlarm ha)
    rw [hchange]
    cases r with
    | error rc => exact .ok ⟨hput, hchanged.none⟩
    | ok =>
      refine (fireIfTrue_ends (a := a) hput hchanged.none (.alarm id) (t := pAlarm'.trigger) ?_).bind ?_
      · unfold triggerOf SyncState.setAlarm
        dsimp only
        rw [update_self]
        rfl
      · rintro ⟨st', fired⟩ ⟨hs, hn, -⟩
        exact .ok ⟨hs, hn⟩

theorem procSyncDestroyAlarm_ends (h : Sound P st) (hnone : NoneDestroyed st) (id : ℕ) :
    Ends P (fun st' => Sound P st' ∧ NoneDestroyed st') (procSyncDestroyAlarm id st) := by
  unfold procSyncDestroyAlarm
  cases ha : st.alarms id with
  | none => exact .ok ⟨h, hnone⟩
  | some pAlarm =>
    have htarget : targets st (.alarm id) = pAlarm.trigger.pSync := by
      unfold targets triggerOf
      dsimp only
      rw [ha]
      rfl
    obtain ⟨st₁, hfreed, h₁, hnone₁, hkept₁⟩ := freeAlarm_spec h.lists hnone htarget
    dsimp only
    rw [hfreed]
    exact .ok ⟨h.putAlarm hkept₁ none h₁ (fun _ _ hal => nomatch hal), hnone₁⟩

/-! ### Requests on awaits -/

/-- One more condition on an await. -/
theorem Sound.addCondition (h : Sound P st) (hkept : Kept st st') {client c : ℕ}
    {done : List SyncAwait} (hu : st.awaits id = some ⟨client, done⟩)
    (hlists : Registered st' (update (targets st) (.await id done.length) t.pSync)) (hc : t.pSync = some c)
    (eventThreshold : Int64) :
    Sound P (st'.setAwait id (some ⟨client, done ++ [⟨t, eventThreshold⟩]⟩)) := by
  have htargets : targets (st'.setAwait id (some ⟨client, done ++ [⟨t, eventThreshold⟩]⟩)) =
      update (targets st) (.await id done.length) t.pSync := by
    rw [← hkept.targets]
    have hu' : st'.awaits id = some ⟨client, done⟩ := by rw [hkept.awaits, hu]
    funext r
    cases r with
    | alarm id' => rw [update_of_ne (by simp)]; rfl
    | await id' i =>
      rcases eq_or_ne id' id with rfl | hne
      · rw [targets_await (update_self ..)]
        rcases lt_trichotomy i done.length with hi | rfl | hi
        · rw [update_of_ne (by simp; omega), getElem?_append_left hi, targets_await hu']
        · rw [update_self, List.getElem?_append_right (le_refl _), Nat.sub_self]
          rfl
        · rw [update_of_ne (by simp; omega), getElem?_eq_none (by simp; omega), targets_await hu',
            getElem?_eq_none (by dsimp only; omega)]
      · rw [update_of_ne (by simp [hne])]
        unfold targets triggerOf SyncState.setAwait
        dsimp only
        rw [update_of_ne hne]
  refine ⟨?_, ⟨?_, ?_⟩, fun hP => ?_⟩
  · rw [htargets]
    exact hlists.congr (fun _ => rfl) rfl
  · intro id' u hu' w hw
    unfold SyncState.setAwait at hu'
    dsimp only at hu'
    rcases eq_or_ne id' id with rfl | hne
    · rw [update_self] at hu'
      cases hu'
      rcases mem_append.1 hw with hw | hw
      · exact h.awaits.named id' _ hu w hw
      · rw [mem_singleton.1 hw, hc]
        simp
    · rw [update_of_ne hne, hkept.awaits] at hu'
      exact h.awaits.named id' u hu' w hw
  · intro id' u hu'
    show id' < st'.nextAwait
    rw [hkept.nextAwait]
    unfold SyncState.setAwait at hu'
    dsimp only at hu'
    rcases eq_or_ne id' id with rfl | hne
    · exact h.awaits.fresh id' _ hu
    · rw [update_of_ne hne, hkept.awaits] at hu'
      exact h.awaits.fresh id' u hu'
  · intro id' al hal
    exact h.alarms hP id' al (by rw [← hkept.alarms]; exact hal)

/-- **The loop of `ProcSyncAwait`**: an await whose conditions are accepted is there. -/
theorem initConditions_ends {client : ℕ} (conds : List WaitCondition) :
    ∀ (done : List SyncAwait) (st : SyncState), Sound P st → NoneDestroyed st → st.awaits id = some ⟨client, done⟩ →
      Ends P (fun r => Sound P r.1 ∧ NoneDestroyed r.1 ∧ (r.2 = .ok () → ∃ u, r.1.awaits id = some u))
        (initConditions id client a done conds st) := by
  induction conds with
  | nil =>
    intro done st h hnone hu
    exact .ok ⟨h, hnone, fun _ => ⟨_, hu⟩⟩
  | cons cond conds ih =>
    intro done st h hnone hu
    have hrefused : ∀ (st' : SyncState) (rc : Status), Sound P st' → NoneDestroyed st' →
        Ends P (fun r => Sound P r.1 ∧ NoneDestroyed r.1 ∧ (r.2 = .ok () → ∃ u, r.1.awaits id = some u))
          (do return (← freeAwait id st', .error rc) : Outcome (SyncState × Except Status Unit)) := by
      intro st' rc h' hnone'
      refine (freeAwait_sound h' hnone' id).bind ?_
      rintro st'' ⟨hs, hn⟩
      exact .ok ⟨hs, hn, fun h => nomatch h⟩
    unfold initConditions
    split
    · exact hrefused st _ h hnone
    · rename_i hcounter
      have hnew : targets st (.await id done.length) = none := by
        rw [targets_await hu, getElem?_eq_none (le_refl _)]
        rfl
      obtain ⟨st₁, t, r, hinit, h₁, hnone₁, hkept₁, -, hres⟩ := syncInitTrigger_spec (a := a) h.lists hnone
        (t := ⟨none, cond.waitValue, cond.valueType, cond.testType, 0, .positiveComparison⟩) hnew cond.counter
        XSyncCAAllTrigger
      dsimp only
      rw [hinit]
      rcases hres with ⟨⟨rc, rfl⟩, -, hp, -⟩ | ⟨rfl, -, hacc⟩
      · refine hrefused st₁ rc (h.of_kept ?_ hkept₁) hnone₁
        rwa [hp, ← hnew, update_eq_self] at h₁
      · have hc : t.pSync = some cond.counter := by
          rw [hacc.pSync]
          unfold named
          rw [if_pos (by decide), if_neg hcounter]
        refine ih _ _ (h.addCondition hkept₁ hu h₁ hc cond.eventThreshold) hnone₁ ?_
        unfold SyncState.setAwait
        dsimp only
        rw [update_self]

/-- **The loop of `SyncAwaitEpilogue`** stops when the await has fired. -/
theorem awaitEpilogue_ends {u : SyncAwaitUnion} (h : Sound P st) (hnone : NoneDestroyed st)
    (hu : st.awaits id = some u) (rest : List SyncAwait) :
    ∀ i, u.waitconditions.drop i = rest →
      Ends P (fun st' => Sound P st' ∧ NoneDestroyed st') (awaitEpilogue id a i rest st) := by
  induction rest with
  | nil =>
    intro i hi
    exact .ok ⟨h, hnone⟩
  | cons pAwait rest ih =>
    intro i hi
    have hget : u.waitconditions[i]? = some pAwait := by
      rw [← head?_drop, hi]
      rfl
    refine (fireIfTrue_ends (a := a) h hnone (.await id i) (t := pAwait.trigger) ?_).bind ?_
    · unfold triggerOf
      dsimp only
      rw [hu, bind_some, hget]
      rfl
    · rintro ⟨st', fired⟩ ⟨hs, hn, hsame⟩
      cases fired with
      | true => exact .ok ⟨hs, hn⟩
      | false =>
        have : st' = st := hsame rfl
        subst this
        refine ih (i + 1) ?_
        rw [← tail_drop, hi]
        rfl

/-- **`ProcSyncAwait`**, accepted or not. -/
theorem procSyncAwait_ends (h : Sound P st) (hnone : NoneDestroyed st) (client : ℕ) (conds : List WaitCondition) :
    Ends P (fun r => Sound P r.1 ∧ NoneDestroyed r.1) (procSyncAwait client conds a st) := by
  unfold procSyncAwait
  split
  · exact .ok ⟨h, hnone⟩
  split
  · exact .ok ⟨h, hnone⟩
  obtain ⟨st₁, hst₁⟩ : ∃ st₁ : SyncState, st₁ = { st.setAwait st.nextAwait (some ⟨client, []⟩) with
    nextAwait := st.nextAwait + 1 } := ⟨_, rfl⟩
  have hfree : st.awaits st.nextAwait = none := by
    cases hu : st.awaits st.nextAwait with
    | none => rfl
    | some u => exact absurd (h.awaits.fresh _ u hu) (lt_irrefl _)
  have hu₁ : st₁.awaits st.nextAwait = some ⟨client, []⟩ := by
    rw [hst₁]
    exact update_self ..
  have hother : ∀ id, id ≠ st.nextAwait → st₁.awaits id = st.awaits id := by
    intro id hne
    rw [hst₁]
    exact update_of_ne hne ..
  have htargets : targets st₁ = targets st := by
    funext r
    cases r with
    | alarm id =>
      rw [hst₁]
      rfl
    | await id i =>
      unfold targets triggerOf
      dsimp only
      rcases eq_or_ne id st.nextAwait with rfl | hne
      · rw [hu₁, hfree]
        rfl
      · rw [hother id hne]
  have h₁ : Sound P st₁ := by
    refine ⟨?_, ⟨?_, ?_⟩, fun hP => ?_⟩
    · rw [htargets]
      exact h.lists.congr (fun _ => by rw [hst₁]; rfl) (by rw [hst₁]; rfl)
    · intro id u hu
      rcases eq_or_ne id st.nextAwait with rfl | hne
      · rw [hu₁] at hu
        cases hu
        simp
      · rw [hother id hne] at hu
        exact h.awaits.named id u hu
    · intro id u hu
      have hnext : st₁.nextAwait = st.nextAwait + 1 := by rw [hst₁]
      rw [hnext]
      rcases eq_or_ne id st.nextAwait with rfl | hne
      · exact Nat.lt_succ_self _
      · rw [hother id hne] at hu
        exact Nat.lt_succ_of_lt (h.awaits.fresh id u hu)
    · intro id al hal
      exact h.alarms hP id al (by rw [hst₁] at hal; exact hal)
  have hnone₁ : NoneDestroyed st₁ := by
    rw [hst₁]
    exact hnone
  dsimp only
  rw [← hst₁]
  refine (initConditions_ends (a := a) conds [] st₁ h₁ hnone₁ hu₁).bind ?_
  rintro ⟨st', status⟩ ⟨hs, hn, hu'⟩
  cases status with
  | error rc => exact .ok ⟨hs, hn⟩
  | ok =>
    obtain ⟨u, hu⟩ := hu' rfl
    rw [hu]
    refine (awaitEpilogue_ends (a := a) hs hn hu u.waitconditions 0 rfl).bind ?_
    rintro st'' ⟨hs', hn'⟩
    exact .ok ⟨hs', hn'⟩

theorem procSyncCreateCounter_sound (h : Sound P st) (hnone : NoneDestroyed st) (client : Option ℕ) (cid : ℕ)
    (initial : Int64) :
    Sound P (procSyncCreateCounter client cid initial st).1 ∧
      NoneDestroyed (procSyncCreateCounter client cid initial st).1 := by
  unfold procSyncCreateCounter
  split
  · exact ⟨h, hnone⟩
  rename_i hfree
  rw [not_or, not_or, not_isSome_iff_eq_none] at hfree
  have hcases : ∀ c k, (st.setCounter cid (some ⟨client, initial, [], false⟩)).counters c = some k →
      c = cid ∧ k = ⟨client, initial, [], false⟩ ∨ c ≠ cid ∧ st.counters c = some k := by
    intro c k hk
    unfold SyncState.setCounter at hk
    dsimp only at hk
    rcases eq_or_ne c cid with rfl | hne
    · rw [update_self] at hk
      exact .inl ⟨rfl, (some.inj hk).symm⟩
    · rw [update_of_ne hne] at hk
      exact .inr ⟨hne, hk⟩
  refine ⟨⟨⟨?_, ?_, ?_, ?_⟩, ⟨h.awaits.named, h.awaits.fresh⟩, h.alarms⟩, ?_⟩
  · intro c k hk
    rcases hcases c k hk with ⟨-, rfl⟩ | ⟨-, hk⟩
    · exact nodup_nil
    · exact h.lists.ids c k hk
  · intro c k n hk hn
    rcases hcases c k hk with ⟨-, rfl⟩ | ⟨-, hk⟩
    · simp at hn
    · exact h.lists.fresh c k n hk hn
  · intro c k hk
    rcases hcases c k hk with ⟨-, rfl⟩ | ⟨-, hk⟩
    · exact nodup_nil
    · exact h.lists.nodup c k hk
  · intro ref c
    rw [show targets (st.setCounter cid (some ⟨client, initial, [], false⟩)) ref = targets st ref from rfl,
      ← h.lists.registered ref c]
    constructor
    · rintro ⟨k, hk, hmem⟩
      rcases hcases c k hk with ⟨-, rfl⟩ | ⟨-, hk⟩
      · simp [SyncCounter.refs] at hmem
      · exact ⟨k, hk, hmem⟩
    · rintro ⟨k, hk, hmem⟩
      have hne : c ≠ cid := by
        rintro rfl
        rw [hfree.2.1] at hk
        simp at hk
      refine ⟨k, ?_, hmem⟩
      unfold SyncState.setCounter
      dsimp only
      rwa [update_of_ne hne]
  · intro c k hk
    rcases hcases c k hk with ⟨-, rfl⟩ | ⟨-, hk⟩
    · rfl
    · exact hnone c k hk

/-! ### Runs -/

/-- The conditions for the walks over a list. -/
structure AwaitsApart (st : SyncState) (op : SyncOp) : Prop where
  change : ∀ c newval a k, op = .changeCounter c newval a → st.counters c = some k →
    WalkSafe (firesAt st newval k.value) k.refs
  destroy : ∀ c a k, op = .destroyCounter c a → st.counters c = some k → OnceEach k.refs

/-- The condition for the requests on alarms. -/
def AlarmsKept (st : SyncState) (op : SyncOp) : Prop :=
  ∀ client id mask values a, op = .changeAlarm client id mask values a → AlarmKept st a client id mask values

/-- What is known after a number of requests: the state and the walks. -/
structure Running (P : Prop) (r : SyncState × List (List TriggerRef)) : Prop where
  sound : Sound P r.1
  none : NoneDestroyed r.1
  walks : ∀ walk ∈ r.2, walk.Nodup

/-- **One request** that meets its conditions. -/
theorem syncOp_ends (h : Sound P st) (hnone : NoneDestroyed st) {op : SyncOp} (hapart : AwaitsApart st op)
    (hkeep : P → AlarmsKept st op) : Ends P (Running P) (syncOp op st) := by
  have hquiet : ∀ {x : Outcome (SyncState × Status)}, Ends P (fun r => Sound P r.1 ∧ NoneDestroyed r.1) x →
      Ends P (Running P) (do return ((← x).1, [])) := by
    intro x hx
    refine hx.bind ?_
    rintro ⟨st', rc⟩ ⟨hs, hn⟩
    exact .ok ⟨hs, hn, by simp⟩
  have hquiet' : ∀ {x : Outcome SyncState}, Ends P (fun st' => Sound P st' ∧ NoneDestroyed st') x →
      Ends P (Running P) (do return (← x, [])) := by
    intro x hx
    refine hx.bind ?_
    rintro st' ⟨hs, hn⟩
    exact .ok ⟨hs, hn, by simp⟩
  cases op with
  | createCounter client cid initial =>
    obtain ⟨hs, hn⟩ := procSyncCreateCounter_sound h hnone client cid initial
    exact .ok ⟨hs, hn, by simp⟩
  | createAlarm client id mask values a => exact hquiet (procSyncCreateAlarm_ends h hnone client id mask values)
  | changeAlarm client id mask values a =>
    exact hquiet (procSyncChangeAlarm_ends h hnone client id mask values fun hP => hkeep hP client id mask values a rfl)
  | destroyAlarm id => exact hquiet' (procSyncDestroyAlarm_ends h hnone id)
  | await client conds a => exact hquiet (procSyncAwait_ends h hnone client conds)
  | freeAwait id => exact hquiet' (freeAwait_sound h hnone id)
  | changeCounter c newval a =>
    unfold syncOp
    dsimp only
    split
    · rename_i hsome
      obtain ⟨k, hk⟩ := isSome_iff_exists.1 hsome
      refine (syncChangeCounter_ends h hnone hk newval (hapart.change c newval a k rfl hk)).bind ?_
      rintro ⟨st', fired⟩ ⟨hs, hn, hnodup⟩
      exact .ok ⟨hs, hn, by simpa using hnodup⟩
    · exact .ok ⟨h, hnone, by simp⟩
  | destroyCounter c a =>
    refine (freeCounter_ends h hnone fun k hk => hapart.destroy c a k rfl hk).bind ?_
    rintro ⟨st', called⟩ ⟨hs, hn, hnodup⟩
    exact .ok ⟨hs, hn, by simpa using hnodup⟩

/-- The lists without awaits need no condition. -/
theorem awaitsApart_of_none (h : Sound P st) (hw : ∀ id, st.awaits id = none) (op : SyncOp) : AwaitsApart st op := by
  have halarm : ∀ c k ref, st.counters c = some k → ref ∈ k.refs → ∃ id, ref = .alarm id := by
    intro c k ref hk hmem
    have ht := h.lists.target_of_mem hk hmem
    cases ref with
    | alarm id => exact ⟨id, rfl⟩
    | await id i =>
      unfold targets triggerOf at ht
      dsimp only at ht
      rw [hw id] at ht
      simp at ht
  have hsafe : ∀ (fires : TriggerRef → Bool) (l : List TriggerRef), (∀ ref ∈ l, ∃ id, ref = .alarm id) →
      WalkSafe fires l := by
    intro fires l
    induction l with
    | nil => exact fun _ => .nil
    | cons ref l ih =>
      intro hall
      obtain ⟨id, rfl⟩ := hall ref mem_cons_self
      exact .alarm (ih fun ref hmem => hall ref (mem_cons_of_mem _ hmem))
  refine ⟨fun c newval a k _ hk => hsafe _ _ fun ref hmem => halarm c k ref hk hmem, fun c a k _ hk => ?_⟩
  intro id i j hi
  obtain ⟨id', hno⟩ := halarm c k _ hk hi
  simp at hno

end Requests

def startSync (errorBase : Status) : SyncRun := .ok (noSync errorBase, [])

theorem noSync_running (P : Prop) (errorBase : Status) : Running P (noSync errorBase, []) := by
  refine ⟨⟨⟨?_, ?_, ?_, ?_⟩, ⟨?_, ?_⟩, fun _ => ?_⟩, ?_, by simp⟩
  · intro c k hk
    nomatch hk
  · intro c k n hk
    nomatch hk
  · intro c k hk
    nomatch hk
  · intro ref c
    refine iff_of_false ?_ ?_
    · rintro ⟨k, hk, -⟩
      nomatch hk
    · cases ref <;> exact fun h => nomatch h
  · intro id u hu
    nomatch hu
  · intro id u hu
    nomatch hu
  · intro id al hal
    nomatch hal
  · intro c k hk
    nomatch hk

/-- A run whose requests meet their conditions. -/
theorem syncRun_ends {P : Prop} {errorBase : Status} {ops : List SyncOp}
    (hops : AllSteps syncStep (fun r op => ∀ st walks, r = .ok (st, walks) →
      (P → AlarmsKept st op) ∧ ((∀ id, st.awaits id = none) ∨ AwaitsApart st op)) (startSync errorBase) ops) :
    Ends P (Running P) (run syncStep (startSync errorBase) ops) := by
  refine hops.invariant (P := Ends P (Running P)) ?_ (.ok (noSync_running P errorBase))
  intro r op hC hr
  cases hr with
  | hang h => exact .hang h
  | @ok x hx =>
    obtain ⟨st, walks⟩ := x
    obtain ⟨hkeep, hawaits⟩ := hC st walks rfl
    have hapart : AwaitsApart st op := by
      rcases hawaits with hw | hapart
      · exact awaitsApart_of_none hx.sound hw op
      · exact hapart
    refine (syncOp_ends hx.sound hx.none hapart hkeep).bind ?_
    rintro ⟨st', new⟩ h'
    refine .ok ⟨h'.sound, h'.none, fun walk hmem => ?_⟩
    rcases mem_append.1 hmem with hmem | hmem
    · exact hx.walks walk hmem
    · exact h'.walks walk hmem

def anyAnswers : SyncAnswers := ⟨none, fun _ => 0, true, true, true, fun _ => true⟩

/-- An alarm as it should be. -/
structure AlarmConsistent (st : SyncState) (id : ℕ) (pAlarm : SyncAlarm) : Prop where
  selected : selectCheckTrigger pAlarm.trigger.testType = some pAlarm.trigger.checkTrigger
  positive : pAlarm.trigger.testType = XSyncPositiveComparison ∨ pAlarm.trigger.testType = XSyncPositiveTransition →
    ¬pAlarm.delta < 0
  negative : pAlarm.trigger.testType = XSyncNegativeComparison ∨ pAlarm.trigger.testType = XSyncNegativeTransition →
    ¬pAlarm.delta > 0
  registered : ∀ c, (∃ k, st.counters c = some k ∧ .alarm id ∈ k.refs) ↔ pAlarm.trigger.pSync = some c
  once : ∀ c k, st.counters c = some k → k.refs.count (.alarm id) ≤ 1
  update : ∀ value, ¬(pAlarm.delta = 0 ∧ isComparison pAlarm.trigger.testType = true) →
    ∃ testValue overflow, alarmLoop (fun testValue => pAlarm.trigger.checkTrigger.holds value testValue value)
        pAlarm.delta (2 ^ 64) pAlarm.trigger.testValue = some (testValue, overflow) ∧
      (overflow = false → pAlarm.trigger.checkTrigger.holds value testValue value = false ∧
        (0 ≤ pAlarm.delta.toInt → pAlarm.trigger.testValue.toInt ≤ testValue.toInt) ∧
        (pAlarm.delta.toInt ≤ 0 → testValue.toInt ≤ pAlarm.trigger.testValue.toInt))

theorem Sound.consistent {P : Prop} {st : SyncState} (h : Sound P st) (hP : P) {id : ℕ} {pAlarm : SyncAlarm}
    (ha : st.alarms id = some pAlarm) : AlarmConsistent st id pAlarm := by
  have hok := h.alarms hP id pAlarm ha
  have hsign := hok.2
  unfold wrongSign at hsign
  rw [Bool.or_eq_false_iff, Bool.and_eq_false_imp, Bool.and_eq_false_imp] at hsign
  refine ⟨hok.1, ?_, ?_, ?_, ?_, ?_⟩
  · intro htype
    simpa using hsign.1 (by simpa using htype)
  · intro htype
    simpa using hsign.2 (by simpa using htype)
  · intro c
    rw [h.lists.registered (.alarm id) c]
    unfold targets triggerOf
    dsimp only
    rw [ha]
    rfl
  · intro c k hk
    exact nodup_iff_count_le_one.1 (h.lists.nodup c k hk) _
  · intro value hupdate
    obtain ⟨⟨testValue, overflow⟩, hloop⟩ := hok.loop value hupdate
    refine ⟨testValue, overflow, hloop, ?_⟩
    rintro rfl
    exact alarmLoop_spec _ _ hloop

/-- **The alarms of a run** that refuses no change of an alarm to another test type: each has
the function of its test type, a delta that goes the right way and its place in the list of its
counter, and its update comes to an end, where the trigger is false unless the value overflows.
The lists may also have awaits that no walk meets twice. -/
theorem alarms_consistent {errorBase : Status} {ops : List SyncOp}
    (hops : AllSteps syncStep (fun r op => ∀ st walks, r = .ok (st, walks) →
      AlarmsKept st op ∧ ((∀ id, st.awaits id = none) ∨ AwaitsApart st op)) (startSync errorBase) ops) :
    ∃ st walks, run syncStep (startSync errorBase) ops = .ok (st, walks) ∧
      ∀ id pAlarm, st.alarms id = some pAlarm → AlarmConsistent st id pAlarm := by
  have hends : Ends True (Running True) (run syncStep (startSync errorBase) ops) := by
    refine syncRun_ends (hops.imp ?_)
    intro r op h st walks hr
    exact ⟨fun _ => (h st walks hr).1, (h st walks hr).2⟩
  obtain ⟨⟨st, walks⟩, hrun, hrunning⟩ := hends.exists trivial
  exact ⟨st, walks, hrun, fun id pAlarm ha => hrunning.sound.consistent trivial ha⟩

/-- A counter and an alarm on it are created. -/
theorem alarms_consistent_one :
    ∃ st walks, run syncStep (startSync 0) [.createCounter (some 0) 1 0,
        .createAlarm 0 2 XSyncCACounter [1] anyAnswers] = .ok (st, walks) ∧
      ∀ id pAlarm, st.alarms id = some pAlarm → AlarmConsistent st id pAlarm := by
  refine alarms_consistent ⟨?_, ?_, trivial⟩
  · intro st walks hr
    cases hr
    exact ⟨fun _ _ _ _ _ h => (nomatch h), .inl fun _ => rfl⟩
  · intro st walks hr
    cases hr
    exact ⟨fun _ _ _ _ _ h => (nomatch h), .inl fun _ => rfl⟩

/-- **A change that is refused**: there is no counter 7, but the alarm has the new test type with
the old function. -/
theorem alarm_changed : ∃ st walks pAlarm, run syncStep (startSync 0) [.createAlarm 0 2 0 [] anyAnswers,
      .changeAlarm 0 2 (XSyncCACounter ||| XSyncCATestType ||| XSyncCADelta) [7, 3, 0xffffffff, 0xffffffff] anyAnswers] =
        .ok (st, walks) ∧ st.alarms 2 = some pAlarm ∧ ¬AlarmConsistent st 2 pAlarm := by
  refine ⟨_, _, _, rfl, rfl, fun h => ?_⟩
  exact absurd h.selected (by decide)

end Xenia.Xext
