import Xenia.Xext.SyncAlarm

/-!
# The lists of triggers

`Registered st target` says that the lists of the counters hold the triggers `ref` with
`target ref = some c`, each once, in the list of `c`. Each operation on a trigger is followed in
`target`; between requests `target` is what the triggers say themselves (`Sound`).

`syncDeleteTrigger_eq` and `syncAddTrigger_spec` are the two operations on a list. `freeAwait_eq`
says that an await is freed with all its triggers, `syncAlarmTriggerFired_ends` and
`syncAwaitTriggerFired_eq` what becomes of the lists when a trigger fires.
-/

namespace Xenia.Xext

open Xenia.Lib Xenia.Dix List Function Option Bool

def SyncCounter.refs (k : SyncCounter) : List TriggerRef := k.triglist.map TriggerNode.pTrigger

/-! ### Lists -/

/-- The lists hold the triggers with a target, each once, and the nodes of a list have numbers
of their own. -/
structure Registered (st : SyncState) (target : TriggerRef → Option ℕ) : Prop where
  ids : ∀ c k, st.counters c = some k → (k.triglist.map TriggerNode.id).Nodup
  fresh : ∀ c k n, st.counters c = some k → n ∈ k.triglist → n.id < st.nextNode
  nodup : ∀ c k, st.counters c = some k → k.refs.Nodup
  registered : ∀ ref c, (∃ k, st.counters c = some k ∧ ref ∈ k.refs) ↔ target ref = some c

theorem Registered.congr {st st' : SyncState} {target : TriggerRef → Option ℕ} (h : Registered st target)
    (hlists : ∀ c, (st'.counters c).map SyncCounter.triglist = (st.counters c).map SyncCounter.triglist)
    (hnext : st'.nextNode = st.nextNode) : Registered st' target := by
  have hcases : ∀ c k', st'.counters c = some k' → ∃ k, st.counters c = some k ∧ k'.triglist = k.triglist := by
    intro c k' hk'
    have := hlists c
    rw [hk', map_some, eq_comm, map_eq_some_iff] at this
    obtain ⟨k, hk, heq⟩ := this
    exact ⟨k, hk, heq.symm⟩
  refine ⟨?_, ?_, ?_, ?_⟩
  · intro c k' hk'
    obtain ⟨k, hk, heq⟩ := hcases c k' hk'
    rw [heq]
    exact h.ids c k hk
  · intro c k' n hk' hn
    obtain ⟨k, hk, heq⟩ := hcases c k' hk'
    rw [hnext]
    exact h.fresh c k n hk (heq ▸ hn)
  · intro c k' hk'
    obtain ⟨k, hk, heq⟩ := hcases c k' hk'
    unfold SyncCounter.refs
    rw [heq]
    exact h.nodup c k hk
  · intro ref c
    rw [← h.registered ref c]
    constructor
    · rintro ⟨k', hk', hmem⟩
      obtain ⟨k, hk, heq⟩ := hcases c k' hk'
      exact ⟨k, hk, by unfold SyncCounter.refs at hmem ⊢; rwa [heq] at hmem⟩
    · rintro ⟨k, hk, hmem⟩
      have := hlists c
      rw [hk, map_some, map_eq_some_iff] at this
      obtain ⟨k', hk', heq⟩ := this
      exact ⟨k', hk', by unfold SyncCounter.refs at hmem ⊢; rwa [heq]⟩

/-- What a trigger says itself. -/
def targets (st : SyncState) (ref : TriggerRef) : Option ℕ := (triggerOf st ref).bind SyncTrigger.pSync

/-- No counter is being destroyed. -/
def NoneDestroyed (st : SyncState) : Prop := ∀ c k, st.counters c = some k → k.beingDestroyed = false

/-- The conditions of awaits have counters, and the numbers of awaits are not used again. -/
structure AwaitsOk (st : SyncState) : Prop where
  named : ∀ id u, st.awaits id = some u → ∀ w ∈ u.waitconditions, w.trigger.pSync ≠ none
  fresh : ∀ id u, st.awaits id = some u → id < st.nextAwait

def AlarmsOk (st : SyncState) : Prop := ∀ id pAlarm, st.alarms id = some pAlarm → AlarmOk pAlarm

/-- The state between the steps of a request; `P` says whether the alarms are to be in order. -/
structure Sound (P : Prop) (st : SyncState) : Prop where
  lists : Registered st (targets st)
  awaits : AwaitsOk st
  alarms : P → AlarmsOk st

/-- The triggers `p` are taken off all lists, except those of counters that are being
destroyed. -/
def SyncState.dropRefs (st : SyncState) (p : TriggerRef → Bool) : SyncState :=
  { st with counters := fun c => (st.counters c).map fun k =>
      if k.beingDestroyed then k else { k with triglist := k.triglist.filter fun n => !p n.pTrigger } }

section Lists

variable {st : SyncState} {target : TriggerRef → Option ℕ} {ref : TriggerRef} {c : ℕ} {k : SyncCounter}

theorem eraseP_eq_filter (p : TriggerRef → Bool) (l : List TriggerNode)
    (h : ∀ n ∈ l, ∀ m ∈ l, p n.pTrigger = true → p m.pTrigger = true → n.pTrigger = m.pTrigger)
    (hnodup : (l.map TriggerNode.pTrigger).Nodup) :
    (l.eraseP fun n => p n.pTrigger) = l.filter fun n => !p n.pTrigger := by
  induction l with
  | nil => rfl
  | cons x l ih =>
    rw [map_cons, nodup_cons] at hnodup
    by_cases hx : p x.pTrigger = true
    · rw [eraseP_cons_of_pos (p := fun n : TriggerNode => p n.pTrigger) hx, filter_cons_of_neg (by simp [hx]), eq_comm, filter_eq_self]
      intro m hm
      by_contra hp
      have hp : p m.pTrigger = true := by simpa using hp
      refine hnodup.1 (mem_map.2 ⟨m, hm, ?_⟩)
      exact (h x mem_cons_self m (mem_cons_of_mem _ hm) hx hp).symm
    · rw [eraseP_cons_of_neg (p := fun n : TriggerNode => p n.pTrigger) hx, filter_cons_of_pos (by simpa using hx), ih ?_ hnodup.2]
      exact fun n hn m hm => h n (mem_cons_of_mem _ hn) m (mem_cons_of_mem _ hm)

variable (ref) in
theorem Registered.counter (h : Registered st target) (ht : target ref = some c) :
    ∃ k, st.counters c = some k ∧ ref ∈ k.refs := (h.registered ref c).2 ht

theorem Registered.target_of_mem (h : Registered st target) (hk : st.counters c = some k) (hr : ref ∈ k.refs) :
    target ref = some c := (h.registered ref c).1 ⟨k, hk, hr⟩

/-- **Deleting** a trigger takes it off the one list that has it. -/
theorem syncDeleteTrigger_eq (h : Registered st target) (ht : target ref = some c)
    (hnone : ∀ k, st.counters c = some k → k.beingDestroyed = false) :
    syncDeleteTriggerFromSyncObject ref (some c) st = .ok (st.dropRefs fun r => r = ref) := by
  obtain ⟨k, hk, hmem⟩ := h.counter _ ht
  have hcounters : update st.counters c (some { k with
      triglist := k.triglist.eraseP fun pCur => pCur.pTrigger = ref }) =
      (st.dropRefs fun r => r = ref).counters := by
    funext c'
    unfold SyncState.dropRefs
    dsimp only
    rcases eq_or_ne c' c with rfl | hne
    · rw [update_self, hk, map_some, if_neg (by simp [hnone k hk])]
      rw [eraseP_eq_filter (fun r => decide (r = ref)) k.triglist ?_ (h.nodup c' k hk)]
      intro n _ m _ hn hm
      rw [of_decide_eq_true hn, of_decide_eq_true hm]
    · -- no other list has it
      rw [update_of_ne hne]
      cases hk' : st.counters c' with
      | none => rfl
      | some k' =>
        rw [map_some]
        congr 1
        split
        · rfl
        · have hfilter : k'.triglist.filter (fun n => !decide (n.pTrigger = ref)) = k'.triglist := by
            rw [filter_eq_self]
            intro n hn
            have hne' : n.pTrigger ≠ ref := by
              rintro rfl
              have := h.target_of_mem hk' (mem_map_of_mem hn)
              rw [ht] at this
              exact hne (some.inj this).symm
            simpa using hne'
          rw [hfilter]
  unfold syncDeleteTriggerFromSyncObject
  simp only [hk]
  unfold SyncState.setCounter
  rw [hcounters]
  rfl

theorem dropRefs_counters (p : TriggerRef → Bool) (c : ℕ) :
    (st.dropRefs p).counters c = (st.counters c).map fun k =>
      if k.beingDestroyed then k else { k with triglist := k.triglist.filter fun n => !p n.pTrigger } := rfl

theorem triggerOf_congr {st st' : SyncState} (ha : st'.alarms = st.alarms) (hw : st'.awaits = st.awaits)
    (ref : TriggerRef) : triggerOf st' ref = triggerOf st ref := by
  unfold triggerOf
  rw [ha, hw]

theorem refs_filter (k : SyncCounter) (p : TriggerRef → Bool) :
    SyncCounter.refs { k with triglist := k.triglist.filter fun n => !p n.pTrigger } =
      k.refs.filter fun r => !p r := by
  unfold SyncCounter.refs
  rw [List.filter_map]
  rfl

/-- What is left of the targets without the triggers `p`: a counter that is being destroyed keeps
its list. -/
def dropTarget (st : SyncState) (target : TriggerRef → Option ℕ) (p : TriggerRef → Bool) (r : TriggerRef) :
    Option ℕ :=
  if p r && !((target r).any fun c => (st.counters c).any SyncCounter.beingDestroyed) then none else target r

theorem mem_dropRefs {p : TriggerRef → Bool} {k' : SyncCounter}
    (hk' : (st.dropRefs p).counters c = some k')
    (hk : st.counters c = some k) (ref : TriggerRef) :
    ref ∈ k'.refs ↔ ref ∈ k.refs ∧ (p ref = true → k.beingDestroyed = true) := by
  rw [dropRefs_counters, hk, map_some] at hk'
  cases hk'
  split
  · rename_i hd
    exact (and_iff_left fun _ => hd).symm
  · rename_i hd
    rw [refs_filter]
    simp [hd]

/-- The lists without the triggers `p`. -/
theorem Registered.dropRefs (h : Registered st target) (p : TriggerRef → Bool) :
    Registered (st.dropRefs p) (dropTarget st target p) := by
  have hcases : ∀ c k', (st.dropRefs p).counters c = some k' → ∃ k, st.counters c = some k ∧
      k'.triglist.Sublist k.triglist := by
    intro c k' hk'
    rw [dropRefs_counters, map_eq_some_iff] at hk'
    obtain ⟨k, hk, rfl⟩ := hk'
    refine ⟨k, hk, ?_⟩
    split
    · exact List.Sublist.refl _
    · exact filter_sublist
  refine ⟨?_, ?_, ?_, ?_⟩
  · intro c k' hk'
    obtain ⟨k, hk, hsub⟩ := hcases c k' hk'
    exact (h.ids c k hk).sublist (hsub.map _)
  · intro c k' n hk' hn
    obtain ⟨k, hk, hsub⟩ := hcases c k' hk'
    exact h.fresh c k n hk (hsub.subset hn)
  · intro c k' hk'
    obtain ⟨k, hk, hsub⟩ := hcases c k' hk'
    exact (h.nodup c k hk).sublist (hsub.map _)
  · intro ref c
    unfold dropTarget
    constructor
    · rintro ⟨k', hk', hmem⟩
      obtain ⟨k, hk, -⟩ := hcases c k' hk'
      obtain ⟨hmem, hd⟩ := (mem_dropRefs hk' hk ref).1 hmem
      have ht := h.target_of_mem hk hmem
      rw [ht, any_some, hk]
      cases hp : p ref with
      | false => simp
      | true => simp [hd hp]
    · intro ht
      split at ht
      · simp at ht
      · rename_i hp
        obtain ⟨k, hk, hmem⟩ := h.counter _ ht
        rw [ht, any_some, hk] at hp
        obtain ⟨k', hk'⟩ : ∃ k', (st.dropRefs p).counters c = some k' :=
          ⟨_, by rw [dropRefs_counters, hk, map_some]⟩
        refine ⟨k', hk', (mem_dropRefs hk' hk ref).2 ⟨hmem, ?_⟩⟩
        intro hpr
        by_contra hd
        simp [hpr, hd] at hp

theorem dropTarget_eq (hnone : NoneDestroyed st) (p : TriggerRef → Bool) (r : TriggerRef) :
    dropTarget st target p r = if p r then none else target r := by
  have hany : ((target r).any fun c => (st.counters c).any SyncCounter.beingDestroyed) = false := by
    cases target r with
    | none => rfl
    | some c =>
      rw [any_some]
      cases hk : st.counters c with
      | none => rfl
      | some k => exact hnone c k hk
  unfold dropTarget
  rw [hany]
  simp

theorem dropRefs_dropRefs (st : SyncState) (p q : TriggerRef → Bool) :
    (st.dropRefs p).dropRefs q = st.dropRefs fun r => p r || q r := by
  unfold SyncState.dropRefs
  congr 1
  funext c
  dsimp only
  cases st.counters c with
  | none => rfl
  | some k =>
    simp only [map_some]
    cases hd : k.beingDestroyed with
    | true => simp [hd]
    | false =>
      simp only [Bool.false_eq_true, if_false, List.filter_filter]
      congr 3
      funext n
      rw [Bool.not_or, Bool.and_comm]

/-- The triggers `p` are taken off all lists. -/
def SyncState.dropAll (st : SyncState) (p : TriggerRef → Bool) : SyncState :=
  { st with counters := fun c => (st.counters c).map fun k =>
      { k with triglist := k.triglist.filter fun n => !p n.pTrigger } }

theorem Registered.dropAll (h : Registered st target) (p : TriggerRef → Bool) :
    Registered (st.dropAll p) fun r => if p r then none else target r := by
  -- as if no counter were being destroyed
  obtain ⟨st₀, hst₀⟩ : ∃ st₀ : SyncState, st₀ = { st with counters := fun c => (st.counters c).map fun k =>
      { k with beingDestroyed := false } } := ⟨_, rfl⟩
  have hnone : NoneDestroyed st₀ := by
    rw [hst₀]
    intro c k hk
    obtain ⟨k₀, -, rfl⟩ := map_eq_some_iff.1 hk
    rfl
  have h₀ : Registered st₀ target := by
    refine h.congr (fun c => ?_) (by rw [hst₀])
    rw [hst₀]
    rw [Option.map_map]
    rfl
  have hdrop := h₀.dropRefs p
  rw [show dropTarget st₀ target p = fun r => if p r then none else target r from
    funext (dropTarget_eq hnone p)] at hdrop
  refine hdrop.congr (fun c => ?_) (by rw [hst₀]; rfl)
  rw [dropRefs_counters, hst₀]
  unfold SyncState.dropAll
  dsimp only
  cases st.counters c <;> rfl

theorem dropRefs_eq_dropAll (hnone : NoneDestroyed st) (p : TriggerRef → Bool) : st.dropRefs p = st.dropAll p := by
  unfold SyncState.dropRefs
  congr 1
  funext c
  cases hk : st.counters c with
  | none => rfl
  | some k => simp [hnone c k hk]

/-- Only the triggers on a list count. -/
theorem Registered.dropRefs_congr (h : Registered st target) {p q : TriggerRef → Bool}
    (hpq : ∀ r c, target r = some c → p r = q r) : st.dropRefs p = st.dropRefs q := by
  unfold SyncState.dropRefs
  congr 1
  funext c
  cases hk : st.counters c with
  | none => rfl
  | some k =>
    simp only [map_some]
    congr 3
    refine filter_congr fun n hn => ?_
    rw [hpq n.pTrigger c (h.target_of_mem hk (mem_map_of_mem hn))]

theorem dropRefs_nothing (st : SyncState) : (st.dropRefs fun _ => false) = st := by
  unfold SyncState.dropRefs
  have : (fun c => (st.counters c).map fun k => if k.beingDestroyed then k else
      { k with triglist := k.triglist.filter fun _ => !false }) = st.counters := by
    funext c
    cases st.counters c with
    | none => rfl
    | some k => simp
  rw [this]

theorem NoneDestroyed.dropRefs (h : NoneDestroyed st) (p : TriggerRef → Bool) : NoneDestroyed (st.dropRefs p) := by
  intro c k' hk'
  rw [dropRefs_counters, map_eq_some_iff] at hk'
  obtain ⟨k, hk, rfl⟩ := hk'
  rw [if_neg (by simp [h c k hk])]
  exact h c k hk

/-- **Adding** a trigger that is in no list. -/
theorem syncAddTrigger_spec (h : Registered st target) (hnone : NoneDestroyed st) (ht : target ref = none)
    (hk : st.counters c = some k) :
    ∃ st', syncAddTriggerToSyncObject ref (some c) st = .ok st' ∧
      Registered st' (update target ref (some c)) ∧ NoneDestroyed st' ∧
      st'.alarms = st.alarms ∧ st'.awaits = st.awaits ∧ st'.nextAwait = st.nextAwait ∧
      st'.errorBase = st.errorBase := by
  have hout : ∀ c' k', st.counters c' = some k' → ref ∉ k'.refs := by
    intro c' k' hk' hmem
    rw [h.target_of_mem hk' hmem] at ht
    simp at ht
  have hany : (k.triglist.any fun pCur => pCur.pTrigger = ref) = false := by
    rw [List.any_eq_false]
    intro n hn
    have : n.pTrigger ≠ ref := fun heq => hout c k hk (heq ▸ mem_map_of_mem hn)
    simpa using this
  refine ⟨{ st.setCounter c (some { k with triglist := ⟨st.nextNode, ref⟩ :: k.triglist }) with
    nextNode := st.nextNode + 1 }, ?_, ⟨?_, ?_, ?_, ?_⟩, ?_, rfl, rfl, rfl, rfl⟩
  · unfold syncAddTriggerToSyncObject
    simp only [hk, hany, false_eq_true, if_false]
  all_goals unfold SyncState.setCounter; dsimp only
  · intro c' k' hk'
    rcases eq_or_ne c' c with rfl | hne
    · rw [update_self] at hk'
      cases hk'
      refine nodup_cons.2 ⟨fun hmem => ?_, h.ids c' k hk⟩
      obtain ⟨n, hn, heq⟩ := mem_map.1 hmem
      exact absurd (h.fresh c' k n hk hn) (heq ▸ lt_irrefl _)
    · rw [update_of_ne hne] at hk'
      exact h.ids c' k' hk'
  · intro c' k' n hk' hn
    rcases eq_or_ne c' c with rfl | hne
    · rw [update_self] at hk'
      cases hk'
      rcases mem_cons.1 hn with rfl | hn
      · exact Nat.lt_succ_self _
      · exact Nat.lt_succ_of_lt (h.fresh c' k n hk hn)
    · rw [update_of_ne hne] at hk'
      exact Nat.lt_succ_of_lt (h.fresh c' k' n hk' hn)
  · intro c' k' hk'
    rcases eq_or_ne c' c with rfl | hne
    · rw [update_self] at hk'
      cases hk'
      exact nodup_cons.2 ⟨hout c' k hk, h.nodup c' k hk⟩
    · rw [update_of_ne hne] at hk'
      exact h.nodup c' k' hk'
  · intro r c'
    rcases eq_or_ne r ref with rfl | hr
    · rw [update_self]
      constructor
      · rintro ⟨k', hk', hmem⟩
        rcases eq_or_ne c' c with rfl | hne
        · rfl
        · rw [update_of_ne hne] at hk'
          exact absurd hmem (hout c' k' hk')
      · intro heq
        cases heq
        exact ⟨_, update_self .., mem_cons_self⟩
    · rw [update_of_ne hr, ← h.registered r c']
      rcases eq_or_ne c' c with rfl | hne
      · rw [update_self, hk]
        constructor
        · rintro ⟨k', hk', hmem⟩
          cases hk'
          exact ⟨k, rfl, (mem_cons.1 hmem).resolve_left hr⟩
        · rintro ⟨k', hk', hmem⟩
          cases hk'
          exact ⟨_, rfl, mem_cons_of_mem _ hmem⟩
      · rw [update_of_ne hne]
  · intro c' k' hk'
    dsimp only at hk'
    rcases eq_or_ne c' c with rfl | hne
    · rw [update_self] at hk'
      cases hk'
      exact hnone c' k hk
    · rw [update_of_ne hne] at hk'
      exact hnone c' k' hk'

/-! ### Freeing an await -/

def isAwaitOf (id : ℕ) : TriggerRef → Bool
  | .alarm _ => false
  | .await id' _ => id' = id

/-- The triggers of the conditions `i` to `i + n`. -/
def isCondition (id i n : ℕ) : TriggerRef → Bool
  | .alarm _ => false
  | .await id' j => id' = id && i ≤ j && j < i + n

/-- A trigger of a counter that is being destroyed is on no list that can be changed. -/
theorem Registered.dropRefs_destroyed (h : Registered st target) (ht : target ref = some c)
    (hk : st.counters c = some k) (hd : k.beingDestroyed = true) : (st.dropRefs fun r => r = ref) = st := by
  refine Eq.trans ?_ (dropRefs_nothing st)
  unfold SyncState.dropRefs
  congr 1
  funext c'
  cases hk' : st.counters c' with
  | none => rfl
  | some k' =>
    simp only [map_some]
    rcases eq_or_ne c' c with rfl | hne
    · rw [hk] at hk'
      cases hk'
      simp [hd]
    · have hfilter : k'.triglist.filter (fun n => !decide (n.pTrigger = ref)) =
          k'.triglist.filter fun _ => !false := by
        refine filter_congr fun n hn => ?_
        have hne' : n.pTrigger ≠ ref := by
          rintro rfl
          have := h.target_of_mem hk' (mem_map_of_mem hn)
          rw [ht] at this
          exact hne (some.inj this).symm
        simp [hne']
      rw [hfilter]

/-- **The loop of `FreeAwait`** takes the triggers off the lists. -/
theorem deleteTriggers_eq (id : ℕ) (conds : List SyncAwait) :
    ∀ (i : ℕ) (st : SyncState) (target : TriggerRef → Option ℕ), Registered st target →
      (∀ j w, conds[j]? = some w → w.trigger.pSync ≠ none ∧ target (.await id (i + j)) = w.trigger.pSync) →
      deleteTriggers id i conds st = .ok (st.dropRefs (isCondition id i conds.length)) := by
  induction conds with
  | nil =>
    intro i st target _ _
    have hempty : isCondition id i 0 = fun _ => false := by
      funext r
      cases r with
      | alarm _ => rfl
      | await id' j =>
        simp only [isCondition, and_eq_false_iff, decide_eq_false_iff_not]
        omega
    unfold deleteTriggers
    rw [length_nil, hempty, dropRefs_nothing]
  | cons w conds ih =>
    intro i st target h hconds
    obtain ⟨hsome, ht⟩ := hconds 0 w rfl
    obtain ⟨c, hc⟩ := ne_none_iff_exists'.1 hsome
    rw [hc, add_zero] at ht
    obtain ⟨k, hk, -⟩ := h.counter _ ht
    -- the first condition, and then the others
    have hrest : deleteTriggers id (i + 1) conds (st.dropRefs fun r => r = .await id i) =
        .ok (st.dropRefs (isCondition id i (conds.length + 1))) := by
      rw [ih (i + 1) _ _ (h.dropRefs fun r => r = .await id i) ?_, dropRefs_dropRefs]
      · have hcond : (fun r => decide (r = TriggerRef.await id i) || isCondition id (i + 1) conds.length r) =
            isCondition id i (conds.length + 1) := by
          funext r
          cases r with
          | alarm _ => simp [isCondition]
          | await id' j =>
            simp only [isCondition, TriggerRef.await.injEq]
            rw [Bool.eq_iff_iff]
            simp only [or_eq_true, and_eq_true, decide_eq_true_eq]
            omega
        rw [hcond]
      · intro j w' hw'
        obtain ⟨hsome', ht'⟩ := hconds (j + 1) w' hw'
        refine ⟨hsome', ?_⟩
        unfold dropTarget
        rw [if_neg, show i + 1 + j = i + (j + 1) by omega, ht']
        simp
        omega
    unfold deleteTriggers
    rw [hc]
    dsimp only
    rw [hk]
    dsimp only
    cases hd : k.beingDestroyed with
    | true =>
      rw [h.dropRefs_destroyed ht hk hd] at hrest
      exact hrest
    | false =>
      rw [syncDeleteTrigger_eq h ht (by
        intro k' hk'
        rw [hk] at hk'
        cases hk'
        exact hd)]
      exact hrest

theorem targets_await {id i : ℕ} {u : SyncAwaitUnion} (hu : st.awaits id = some u) :
    targets st (.await id i) = u.waitconditions[i]?.bind fun w => w.trigger.pSync := by
  unfold targets triggerOf
  dsimp only
  rw [hu, bind_some]
  cases u.waitconditions[i]? <;> rfl

/-- **`FreeAwait`**, whatever counter is being destroyed. -/
theorem freeAwait_eq (h : Registered st (targets st)) (hw : AwaitsOk st) {id : ℕ} {u : SyncAwaitUnion}
    (hu : st.awaits id = some u) :
    freeAwait id st = .ok ((st.dropRefs (isAwaitOf id)).setAwait id none) := by
  have hdelete := deleteTriggers_eq id u.waitconditions 0 st (targets st) h (by
    intro j w hj
    refine ⟨hw.named id u hu w (mem_of_getElem? hj), ?_⟩
    rw [zero_add, targets_await hu, hj]
    rfl)
  -- the other conditions of this number there are none of
  have hcongr : st.dropRefs (isCondition id 0 u.waitconditions.length) = st.dropRefs (isAwaitOf id) := by
    refine h.dropRefs_congr fun r c hr => ?_
    cases r with
    | alarm _ => rfl
    | await id' j =>
      simp only [isCondition, isAwaitOf]
      rcases eq_or_ne id' id with rfl | hne
      · rw [targets_await hu] at hr
        have hj : j < u.waitconditions.length := by
          by_contra hge
          rw [getElem?_eq_none (by omega)] at hr
          simp at hr
        simp [hj]
      · simp [hne]
  unfold freeAwait
  rw [hu]
  dsimp only
  rw [hdelete, hcongr]
  rfl

/-! ### Triggers that fire -/

variable {P : Prop}

theorem awaitEvents_ok (st : SyncState) (conds : List SyncAwait)
    (h : ∀ w ∈ conds, ∃ c k, w.trigger.pSync = some c ∧ st.counters c = some k) :
    ∃ events, awaitEvents st conds = .ok events := by
  induction conds with
  | nil => exact ⟨[], rfl⟩
  | cons w conds ih =>
    obtain ⟨c, k, hc, hk⟩ := h w mem_cons_self
    obtain ⟨events, hevents⟩ := ih fun w' hw' => h w' (mem_cons_of_mem _ hw')
    unfold awaitEvents
    simp only [hc, hk, hevents]
    exact ⟨_, rfl⟩

/-- **An await that fires** is freed. -/
theorem syncAwaitTriggerFired_eq (h : Sound P st) {id : ℕ} {u : SyncAwaitUnion} (hu : st.awaits id = some u)
    (memory : Bool) :
    ∃ sent, syncAwaitTriggerFired id memory st =
      .ok { (st.dropRefs (isAwaitOf id)).setAwait id none with sent := sent } := by
  unfold syncAwaitTriggerFired
  rw [hu]
  dsimp only
  cases memory with
  | false =>
    exact ⟨_, freeAwait_eq h.lists h.awaits hu⟩
  | true =>
    obtain ⟨events, hevents⟩ := awaitEvents_ok st u.waitconditions (by
      intro w hw
      obtain ⟨c, hc⟩ := ne_none_iff_exists'.1 (h.awaits.named id u hu w hw)
      obtain ⟨j, hj⟩ := getElem?_of_mem hw
      obtain ⟨k, hk, -⟩ := h.lists.counter (.await id j) (c := c) (by
        rw [targets_await hu, hj, bind_some, hc])
      exact ⟨c, k, hc, hk⟩)
    rw [hevents]
    -- the events that are sent change no list
    have hlists : Registered { st with sent := st.sent ++ counterNotifyEvents u.client events } (targets st) :=
      h.lists.congr (fun _ => rfl) rfl
    exact ⟨_, freeAwait_eq hlists ⟨h.awaits.named, h.awaits.fresh⟩ hu⟩

/-- What is left of the awaits without one. -/
theorem AwaitsOk.remove (h : AwaitsOk st) {st' : SyncState} {id : ℕ}
    (hw : st'.awaits = update st.awaits id none) (hn : st'.nextAwait = st.nextAwait) : AwaitsOk st' := by
  have hcases : ∀ id' u, st'.awaits id' = some u → st.awaits id' = some u := by
    intro id' u hu
    rw [hw] at hu
    rcases eq_or_ne id' id with rfl | hne
    · rw [update_self] at hu
      simp at hu
    · rwa [update_of_ne hne] at hu
  refine ⟨?_, ?_⟩
  · exact fun id' u hu => h.named id' u (hcases id' u hu)
  · intro id' u hu
    rw [hn]
    exact h.fresh id' u (hcases id' u hu)

theorem targets_remove {st' : SyncState} {id : ℕ} (ha : st'.alarms = st.alarms)
    (hw : st'.awaits = update st.awaits id none) (r : TriggerRef) :
    targets st' r = if isAwaitOf id r then none else targets st r := by
  cases r with
  | alarm id' =>
    unfold targets triggerOf
    rw [ha]
    rfl
  | await id' j =>
    unfold targets triggerOf isAwaitOf
    dsimp only
    rw [hw]
    rcases eq_or_ne id' id with rfl | hne
    · rw [update_self]
      simp
    · rw [update_of_ne hne]
      simp [hne]

/-- Without one await, where its triggers are taken off all lists. -/
theorem Sound.remove (h : Sound P st) {st' : SyncState} (id : ℕ)
    (hlists : ∀ c, (st'.counters c).map SyncCounter.triglist =
      ((st.dropAll (isAwaitOf id)).counters c).map SyncCounter.triglist)
    (ha : st'.alarms = st.alarms) (hw : st'.awaits = update st.awaits id none)
    (hnode : st'.nextNode = st.nextNode) (hn : st'.nextAwait = st.nextAwait) : Sound P st' := by
  refine ⟨?_, h.awaits.remove hw hn, fun hP => ?_⟩
  · have := (h.lists.dropAll (isAwaitOf id)).congr hlists hnode
    rwa [show targets st' = fun r => if isAwaitOf id r then none else targets st r from
      funext (targets_remove ha hw)]
  · unfold AlarmsOk
    rw [ha]
    exact h.alarms hP

/-! ### Alarms that fire -/

/-- Another alarm with the same counter, test type and delta. -/
def SameAlarm (pAlarm pAlarm' : SyncAlarm) : Prop :=
  pAlarm'.trigger.pSync = pAlarm.trigger.pSync ∧ pAlarm'.trigger.testType = pAlarm.trigger.testType ∧
    pAlarm'.trigger.checkTrigger = pAlarm.trigger.checkTrigger ∧ pAlarm'.delta = pAlarm.delta

theorem targets_setAlarm {st st' : SyncState} (id : ℕ) (pAlarm : SyncAlarm)
    (ha : st'.alarms = update st.alarms id (some pAlarm)) (hw : st'.awaits = st.awaits)
    (r : TriggerRef) : targets st' r = if r = .alarm id then pAlarm.trigger.pSync else targets st r := by
  cases r with
  | alarm id' =>
    unfold targets triggerOf
    dsimp only
    rw [ha]
    rcases eq_or_ne id' id with rfl | hne
    · rw [update_self, if_pos rfl]
      rfl
    · rw [update_of_ne hne, if_neg (by simpa using hne)]
  | await id' j =>
    unfold targets triggerOf
    rw [hw, if_neg (by simp)]

/-- The alarm's counter is there. -/
theorem Sound.alarm_counter (h : Sound P st) {id : ℕ} {pAlarm : SyncAlarm} (ha : st.alarms id = some pAlarm)
    (hc : pAlarm.trigger.pSync = some c) : ∃ k, st.counters c = some k ∧ .alarm id ∈ k.refs := by
  refine h.lists.counter _ ?_
  unfold targets triggerOf
  dsimp only
  rw [ha]
  exact hc

theorem syncSendAlarmNotifyEvents_ok (id : ℕ) (pAlarm : SyncAlarm)
    (h : ∀ c, pAlarm.trigger.pSync = some c → ∃ k, st.counters c = some k) :
    ∃ sent, syncSendAlarmNotifyEvents id pAlarm st = .ok { st with sent := sent } := by
  unfold syncSendAlarmNotifyEvents
  cases hc : pAlarm.trigger.pSync with
  | none => exact ⟨_, rfl⟩
  | some c =>
    obtain ⟨k, hk⟩ := h c hc
    dsimp only
    rw [hk]
    exact ⟨_, rfl⟩

/-- **An alarm that fires** changes no list. -/
theorem syncAlarmTriggerFired_ends (h : Sound P st) {id : ℕ} {pAlarm : SyncAlarm} (ha : st.alarms id = some pAlarm) :
    Ends P (fun st' => ∃ pAlarm' sent, SameAlarm pAlarm pAlarm' ∧
      st' = { st.setAlarm id (some pAlarm') with sent := sent }) (syncAlarmTriggerFired id st) := by
  unfold syncAlarmTriggerFired
  rw [ha]
  dsimp only
  split
  · refine .ok ⟨pAlarm, st.sent, ⟨rfl, rfl, rfl, rfl⟩, ?_⟩
    unfold SyncState.setAlarm
    rw [← ha, update_eq_self]
  · have hcounter : ∀ c, pAlarm.trigger.pSync = some c → ∃ k, st.counters c = some k := by
      intro c hc
      obtain ⟨k, hk, -⟩ := h.alarm_counter ha hc
      exact ⟨k, hk⟩
    -- the value of the counter
    refine Ends.bind (Q := fun _ => True) ?_ fun value _ => ?_
    · unfold counterValue
      cases hc : pAlarm.trigger.pSync with
      | none => exact .ok trivial
      | some c =>
        obtain ⟨k, hk⟩ := hcounter c hc
        dsimp only
        rw [hk]
        exact .ok trivial
    refine Ends.bind (updatedAlarm_ends (fun hP => h.alarms hP id pAlarm ha) value) ?_
    rintro ⟨state, newTestValue⟩ -
    obtain ⟨sent, hsent⟩ := syncSendAlarmNotifyEvents_ok id { pAlarm with state := state } hcounter
    rw [hsent]
    exact .ok ⟨{ pAlarm with
      state := state
      trigger := { pAlarm.trigger with testValue := newTestValue } }, sent, ⟨rfl, rfl, rfl, rfl⟩, rfl⟩

/-- The same state with an alarm like the one before. -/
theorem Sound.setAlarm (h : Sound P st) {id : ℕ} {pAlarm pAlarm' : SyncAlarm} (ha : st.alarms id = some pAlarm)
    (hsame : SameAlarm pAlarm pAlarm') (sent : List SyncNotify) :
    Sound P { st.setAlarm id (some pAlarm') with sent := sent } := by
  have htargets : targets { st.setAlarm id (some pAlarm') with sent := sent } = targets st := by
    funext r
    rw [@targets_setAlarm st _ id pAlarm' (by rfl) (by rfl) r]
    split
    · rename_i hr
      rw [hr, hsame.1]
      unfold targets triggerOf
      dsimp only
      rw [ha]
      rfl
    · rfl
  refine ⟨?_, ⟨h.awaits.named, h.awaits.fresh⟩, fun hP => ?_⟩
  · rw [htargets]
    exact h.lists.congr (fun _ => rfl) rfl
  · intro id' al hal
    unfold SyncState.setAlarm at hal
    dsimp only at hal
    rcases eq_or_ne id' id with rfl | hne
    · rw [update_self] at hal
      cases hal
      have hok := h.alarms hP id' pAlarm ha
      unfold AlarmOk
      rw [hsame.2.1, hsame.2.2.1, hsame.2.2.2]
      exact hok
    · rw [update_of_ne hne] at hal
      exact h.alarms hP id' al hal

end Lists

end Xenia.Xext
