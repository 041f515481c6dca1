import Xenia.Xext.SyncTriggers

/-!
# The walks over a list of triggers

`SyncChangeCounter` and `FreeCounter` go over the list of a counter and call the triggers on it,
which may free nodes. The first has the number of the next node when it calls a trigger, so the
call must not free that node (`WalkSafe`). The second asks for the next node after the call, but
the nodes of an await that was freed stay, so no await may be on the list twice (`OnceEach`).

`syncChangeCounter_ends` and `freeCounter_ends`: with these conditions no freed memory is
touched, and each trigger is called at most once.
-/

namespace Xenia.Xext

open Xenia.Lib Xenia.Dix List Function Option

/-- The walk over a list in which the awaits `fires` fire: none of them is on the list once more
right after the node that fires, among those that are left. -/
inductive WalkSafe (fires : TriggerRef → Bool) : List TriggerRef → Prop
  | nil : WalkSafe fires []
  | alarm {id : ℕ} {l : List TriggerRef} (h : WalkSafe fires l) : WalkSafe fires (.alarm id :: l)
  | stays {id i : ℕ} {l : List TriggerRef} (hf : fires (.await id i) = false) (h : WalkSafe fires l) :
      WalkSafe fires (.await id i :: l)
  | fires {id i : ℕ} {l : List TriggerRef} (hf : fires (.await id i) = true)
      (hnext : ∀ j, l.head? ≠ some (.await id j)) (h : WalkSafe fires (l.filter fun r => !isAwaitOf id r)) :
      WalkSafe fires (.await id i :: l)

/-- No await is on the list twice. -/
def OnceEach (l : List TriggerRef) : Prop := ∀ id i j, .await id i ∈ l → .await id j ∈ l → i = j

theorem followNode_append (pre suf : List TriggerNode) (node : TriggerNode)
    (hids : ((pre ++ node :: suf).map TriggerNode.id).Nodup) :
    followNode (pre ++ node :: suf) node.id = some (node, suf.head?.map TriggerNode.id) := by
  induction pre with
  | nil =>
    exact if_pos rfl
  | cons x pre ih =>
    rw [cons_append, map_cons, nodup_cons] at hids
    have hne : x.id ≠ node.id := fun heq => hids.1 (by simp [heq])
    rw [cons_append]
    unfold followNode
    rw [if_neg hne]
    exact ih hids.2

section Walks

variable {P : Prop} {st : SyncState} {c : ℕ} {k : SyncCounter} {a : SyncAnswers} {suf : List TriggerNode} {node : TriggerNode}

theorem nodeAt_eq (hk : st.counters c = some k) (hids : (k.triglist.map TriggerNode.id).Nodup)
    {pre : List TriggerNode} (hlist : k.triglist = pre ++ node :: suf) :
    nodeAt c node.id st = .ok (node, suf.head?.map TriggerNode.id) := by
  rw [hlist] at hids
  unfold nodeAt
  rw [hk, bind_some, hlist, followNode_append pre suf node hids]

/-- The trigger of a node is there, and it names the counter. -/
theorem Sound.trigger (h : Sound P st) (hk : st.counters c = some k) (hn : node ∈ k.triglist) :
    ∃ t, triggerOf st node.pTrigger = some t ∧ t.pSync = some c := by
  have ht := h.lists.target_of_mem hk (mem_map_of_mem hn)
  exact bind_eq_some_iff.1 ht

variable {id : ℕ}

/-- An await that fires takes its triggers off all lists, where no counter is being destroyed. -/
theorem awaitFired_spec (h : Sound P st) (hnone : NoneDestroyed st) {u : SyncAwaitUnion} (hu : st.awaits id = some u) (memory : Bool) :
    ∃ st', syncAwaitTriggerFired id memory st = .ok st' ∧ st'.counters = (st.dropAll (isAwaitOf id)).counters ∧
      Sound P st' ∧ NoneDestroyed st' ∧
      ∀ id' i, id' ≠ id → triggerOf st' (.await id' i) = triggerOf st (.await id' i) := by
  obtain ⟨sent, hrun⟩ := syncAwaitTriggerFired_eq h hu memory
  obtain ⟨st', hst'⟩ : ∃ st', st' = { (st.dropRefs (isAwaitOf id)).setAwait id none with sent := sent } := ⟨_, rfl⟩
  have hcounters : st'.counters = (st.dropAll (isAwaitOf id)).counters := by
    rw [hst', dropRefs_eq_dropAll hnone]
    rfl
  refine ⟨st', by rw [hrun, hst'], hcounters, ?_, ?_, ?_⟩
  · exact h.remove id (fun c => by rw [hcounters]) (by rw [hst']; rfl) (by rw [hst']; rfl)
      (by rw [hst']; rfl) (by rw [hst']; rfl)
  · intro c' k' hk'
    rw [hst'] at hk'
    exact hnone.dropRefs (isAwaitOf id) c' k' hk'
  · intro id' i hne
    rw [hst']
    unfold triggerOf SyncState.setAwait
    dsimp only
    rw [update_of_ne hne]
    rfl

/-- **The loop of `SyncChangeCounter`**: `pre` is behind it, `suf` still to come. -/
theorem changeWalk_ends (newval oldval : Int64) {fires : TriggerRef → Bool} (fuel : ℕ) :
    ∀ (pre suf : List TriggerNode) (st : SyncState) (k : SyncCounter), Sound P st → NoneDestroyed st →
      st.counters c = some k → k.value = newval → k.triglist = pre ++ suf → suf.length ≤ fuel →
      WalkSafe fires (suf.map TriggerNode.pTrigger) →
      (∀ id i t, triggerOf st (.await id i) = some t → .await id i ∈ suf.map TriggerNode.pTrigger →
        fires (.await id i) = t.checkTrigger.holds newval t.testValue oldval) →
      Ends P (fun r => Sound P r.1 ∧ NoneDestroyed r.1 ∧ r.2.Sublist (suf.map TriggerNode.pTrigger))
        (changeWalk c oldval a fuel (suf.head?.map TriggerNode.id) st) := by
  induction fuel with
  | zero =>
    intro pre suf st k h hnone _ _ _ hlen _ _
    obtain rfl : suf = [] := length_eq_zero_iff.1 (by omega)
    exact .ok ⟨h, hnone, List.Sublist.refl _⟩
  | succ fuel ih =>
    intro pre suf st k h hnone hk hval hlist hlen hsafe hfires
    cases suf with
    | nil =>
      exact .ok ⟨h, hnone, List.Sublist.refl _⟩
    | cons node suf =>
      have hmem : node ∈ k.triglist := by
        rw [hlist]
        simp
      obtain ⟨t, ht, hsync⟩ := h.trigger hk hmem
      have hcheck : checkTrigger t oldval st = .ok (t.checkTrigger.holds newval t.testValue oldval) := by
        unfold checkTrigger
        rw [hsync]
        dsimp only
        rw [hk]
        dsimp only
        rw [hval]
      rw [length_cons] at hlen
      rw [map_cons] at hsafe
      rw [List.head?_cons, map_some]
      unfold changeWalk
      rw [nodeAt_eq hk (h.lists.ids c k hk) hlist]
      refine Ends.bind (Q := fun r => r = (node, suf.head?.map TriggerNode.id)) (.ok rfl) ?_
      rintro _ rfl
      dsimp only
      rw [ht]
      dsimp only
      rw [hcheck]
      refine Ends.bind (Q := fun b => b = t.checkTrigger.holds newval t.testValue oldval) (.ok rfl) ?_
      rintro _ rfl
      have hlist' : k.triglist = (pre ++ [node]) ++ suf := by rw [hlist, append_assoc]; rfl
      -- what is known of the nodes to come
      have hrest : ∀ id i t', triggerOf st (.await id i) = some t' → .await id i ∈ suf.map TriggerNode.pTrigger →
          fires (.await id i) = t'.checkTrigger.holds newval t'.testValue oldval := fun id i t' ht' hi =>
        hfires id i t' ht' (mem_cons_of_mem _ hi)
      cases hb : t.checkTrigger.holds newval t.testValue oldval with
      | false =>
        have hsafe' : WalkSafe fires (suf.map TriggerNode.pTrigger) := by
          cases hp : node.pTrigger with
          | alarm id =>
            rw [hp] at hsafe
            cases hsafe with
            | alarm hs => exact hs
          | await id i =>
            have hfalse := hfires id i t (hp ▸ ht) (by simp [hp])
            rw [hp] at hsafe
            cases hsafe with
            | stays _ hs => exact hs
            | fires hf _ _ =>
              rw [hfalse, hb] at hf
              simp at hf
        refine (ih (pre ++ [node]) suf st k h hnone hk hval hlist' (by omega) hsafe' hrest).mono ?_
        rintro ⟨st', fired⟩ ⟨hs, hn, hsub⟩
        exact ⟨hs, hn, hsub.cons _⟩
      | true =>
        cases hp : node.pTrigger with
        | alarm id =>
          have hsafe' : WalkSafe fires (suf.map TriggerNode.pTrigger) := by
            rw [hp] at hsafe
            cases hsafe with
            | alarm hs => exact hs
          obtain ⟨pAlarm, ha⟩ : ∃ pAlarm, st.alarms id = some pAlarm := by
            rw [hp] at ht
            obtain ⟨pAlarm, ha, -⟩ := map_eq_some_iff.1 ht
            exact ⟨pAlarm, ha⟩
          refine Ends.bind (syncAlarmTriggerFired_ends h ha) ?_
          rintro _ ⟨pAlarm', sent, hsame, rfl⟩
          refine Ends.bind (ih (pre ++ [node]) suf _ k (h.setAlarm ha hsame sent) hnone hk hval hlist' (by omega)
            hsafe' hrest) ?_
          rintro ⟨st', fired⟩ ⟨hs, hn, hsub⟩
          exact .ok ⟨hs, hn, by rw [map_cons, hp]; exact hsub.cons_cons _⟩
        | await id i =>
          have htrue := hfires id i t (hp ▸ ht) (by simp [hp])
          obtain ⟨u, hu⟩ : ∃ u, st.awaits id = some u := by
            rw [hp] at ht
            obtain ⟨u, hu, -⟩ := bind_eq_some_iff.1 ht
            exact ⟨u, hu⟩
          rw [hp] at hsafe
          obtain ⟨hnext, hsafe'⟩ : (∀ j, (suf.map TriggerNode.pTrigger).head? ≠ some (.await id j)) ∧
              WalkSafe fires ((suf.map TriggerNode.pTrigger).filter fun r => !isAwaitOf id r) := by
            cases hsafe with
            | stays hf _ =>
              rw [htrue, hb] at hf
              simp at hf
            | fires _ hnext hs => exact ⟨hnext, hs⟩
          obtain ⟨st₁, hrun, hcounters, h₁, hnone₁, hsame⟩ := awaitFired_spec h hnone hu (a.events id)
          have hk₁ : st₁.counters c = some { k with
              triglist := k.triglist.filter fun n => !isAwaitOf id n.pTrigger } := by
            rw [hcounters]
            unfold SyncState.dropAll
            dsimp only
            rw [hk]
            rfl
          -- the next node is still the first one to come
          have hhead : (suf.filter fun n => !isAwaitOf id n.pTrigger).head?.map TriggerNode.id =
              suf.head?.map TriggerNode.id := by
            cases suf with
            | nil => rfl
            | cons m suf =>
              have hm : isAwaitOf id m.pTrigger = false := by
                cases hmp : m.pTrigger with
                | alarm _ => rfl
                | await id' j =>
                  have hne : id' ≠ id := by
                    rintro rfl
                    exact hnext j (by simp [hmp])
                  simp [isAwaitOf, hne]
              rw [filter_cons_of_pos (by simp [hm])]
              rfl
          have hmap : (suf.filter fun n => !isAwaitOf id n.pTrigger).map TriggerNode.pTrigger =
              (suf.map TriggerNode.pTrigger).filter fun r => !isAwaitOf id r := by
            rw [List.filter_map]
            rfl
          have hwalk := ih (pre.filter fun n => !isAwaitOf id n.pTrigger)
            (suf.filter fun n => !isAwaitOf id n.pTrigger) st₁ _ h₁ hnone₁ hk₁ hval (by
              rw [hlist, filter_append, filter_cons_of_neg (by simp [hp, isAwaitOf])])
            (le_trans (length_filter_le _ _) (by omega)) (by rw [hmap]; exact hsafe') (by
              intro id' i' t' ht' hi'
              rw [hmap, mem_filter] at hi'
              refine hrest id' i' t' ?_ hi'.1
              have hne : id' ≠ id := fun heq => by simp [isAwaitOf, heq] at hi'
              rwa [hsame id' i' hne] at ht')
          rw [hhead] at hwalk
          refine Ends.bind (Q := fun s => s = st₁) ?_ ?_
          · rw [show triggerFired (.await id i) a st = .ok st₁ from hrun]
            exact .ok rfl
          rintro _ rfl
          refine Ends.bind hwalk ?_
          rintro ⟨st', fired⟩ ⟨hs, hn, hsub⟩
          refine .ok ⟨hs, hn, ?_⟩
          rw [map_cons, hp]
          rw [hmap] at hsub
          exact (hsub.trans filter_sublist).cons_cons _

/-- Which triggers fire when the counter changes. -/
def firesAt (st : SyncState) (newval oldval : Int64) (ref : TriggerRef) : Bool :=
  (triggerOf st ref).any fun t => t.checkTrigger.holds newval t.testValue oldval

/-- **`SyncChangeCounter`**, where the walk is safe. -/
theorem syncChangeCounter_ends (h : Sound P st) (hnone : NoneDestroyed st) (hk : st.counters c = some k)
    (newval : Int64) (hsafe : WalkSafe (firesAt st newval k.value) k.refs) :
    Ends P (fun r => Sound P r.1 ∧ NoneDestroyed r.1 ∧ r.2.Nodup) (syncChangeCounter c newval a st) := by
  obtain ⟨st₁, hst₁⟩ : ∃ st₁, st₁ = st.setCounter c (some { k with value := newval }) := ⟨_, rfl⟩
  have hk₁ : st₁.counters c = some { k with value := newval } := by
    rw [hst₁]
    exact update_self ..
  have hother : ∀ c', c' ≠ c → st₁.counters c' = st.counters c' := fun c' hne => by
    rw [hst₁]
    exact update_of_ne hne ..
  have hlists : Registered st₁ (targets st) := by
    refine h.lists.congr (fun c' => ?_) (by rw [hst₁]; rfl)
    rcases eq_or_ne c' c with rfl | hne
    · rw [hk₁, hk]
      rfl
    · rw [hother c' hne]
  have h₁ : Sound P st₁ := by
    rw [hst₁] at hlists ⊢
    exact ⟨hlists, ⟨h.awaits.named, h.awaits.fresh⟩, h.alarms⟩
  have hnone₁ : NoneDestroyed st₁ := by
    intro c' k' hk'
    rcases eq_or_ne c' c with rfl | hne
    · rw [hk₁] at hk'
      cases hk'
      exact hnone c' k hk
    · rw [hother c' hne] at hk'
      exact hnone c' k' hk'
  have hwalk := changeWalk_ends (P := P) (c := c) (a := a) newval k.value k.triglist.length []
    k.triglist st₁ _ h₁ hnone₁ hk₁ rfl rfl le_rfl hsafe (by
      intro id i t ht _
      rw [hst₁] at ht
      unfold firesAt
      rw [show triggerOf st (.await id i) = some t from ht]
      rfl)
  unfold syncChangeCounter
  rw [hk]
  dsimp only
  rw [← hst₁]
  refine hwalk.mono ?_
  rintro ⟨st', fired⟩ ⟨hs, hn, hsub⟩
  exact ⟨hs, hn, (h.lists.nodup c k hk).sublist hsub⟩

/-! ### Destroying a counter -/

/-- The step of `FreeCounter` after the call: the node is freed. -/
def freeNode (c ptl : ℕ) (st : SyncState) : SyncState :=
  st.setCounter c ((st.counters c).map fun k => { k with triglist := k.triglist.eraseP fun pCur => pCur.id = ptl })

/-- What the call does in the walk: the triggers `p` are off the lists, once the node is freed. -/
structure Called (P : Prop) (c : ℕ) (node : TriggerNode) (suf : List TriggerNode) (st st' : SyncState) : Prop where
  counter : ∃ k, st'.counters c = some k ∧ k.beingDestroyed = true ∧ k.triglist = node :: suf
  sound : Sound P (freeNode c node.id st')
  others : ∀ c' k', c' ≠ c → st'.counters c' = some k' → k'.beingDestroyed = false

/-- The list of `c` without its first node, the other lists without the triggers `p`: these are
all lists without `p`, if `p` is the first node and no other of this list. -/
theorem freeNode_lists {st' : SyncState} {p : TriggerRef → Bool}
    (hk : st.counters c = some k) (hlist : k.triglist = node :: suf) (hk' : ∃ k', st'.counters c = some k' ∧ k'.triglist = node :: suf)
    (hother : ∀ c', c' ≠ c → (st'.counters c').map SyncCounter.triglist =
      ((st.dropAll p).counters c').map SyncCounter.triglist)
    (hnode : p node.pTrigger = true) (hsuf : ∀ n ∈ suf, p n.pTrigger = false) (c' : ℕ) :
    ((freeNode c node.id st').counters c').map SyncCounter.triglist =
      ((st.dropAll p).counters c').map SyncCounter.triglist := by
  unfold freeNode SyncState.setCounter
  dsimp only
  rcases eq_or_ne c' c with rfl | hne
  · obtain ⟨k', hk', hlist'⟩ := hk'
    have hfilter : (node :: suf).filter (fun n => !p n.pTrigger) = suf := by
      rw [filter_cons_of_neg (by simp [hnode]), filter_eq_self]
      intro n hn
      simp [hsuf n hn]
    unfold SyncState.dropAll
    dsimp only
    rw [update_self, hk', hk]
    simp only [map_some, hlist, hlist', hfilter]
    rw [eraseP_cons_of_pos (by simp)]
  · rw [update_of_ne hne]
    exact hother c' hne

/-- **An alarm whose counter is destroyed** has no counter any more. -/
theorem alarmDestroyed_called (h : Sound P st) (hk : st.counters c = some k) (hd : k.beingDestroyed = true)
    (hothers : ∀ c' k', c' ≠ c → st.counters c' = some k' → k'.beingDestroyed = false) (hlist : k.triglist = node :: suf) (hp : node.pTrigger = .alarm id) :
    ∃ st', syncAlarmCounterDestroyed id st = .ok st' ∧ Called P c node suf st st' := by
  have hmem : node ∈ k.triglist := by rw [hlist]; exact mem_cons_self
  have htarget := h.lists.target_of_mem hk (mem_map_of_mem hmem)
  rw [hp] at htarget
  obtain ⟨pAlarm, ha⟩ : ∃ pAlarm, st.alarms id = some pAlarm := by
    obtain ⟨t, ht, -⟩ := h.trigger hk hmem
    rw [hp] at ht
    obtain ⟨pAlarm, ha, -⟩ := map_eq_some_iff.1 ht
    exact ⟨pAlarm, ha⟩
  obtain ⟨sent, hsent⟩ := syncSendAlarmNotifyEvents_ok id { pAlarm with state := .inactive } (by
      intro c' hc'
      obtain ⟨k', hk', -⟩ := h.alarm_counter ha hc'
      exact ⟨k', hk'⟩)
  obtain ⟨pAlarm', hpAlarm⟩ : ∃ pAlarm' : SyncAlarm, pAlarm' = { pAlarm with
      state := .inactive
      trigger := { pAlarm.trigger with pSync := none } } := ⟨_, rfl⟩
  obtain ⟨st', hst'⟩ : ∃ st', st' = { st.setAlarm id (some pAlarm') with sent := sent } := ⟨_, rfl⟩
  have hcounters : st'.counters = st.counters := by rw [hst']; rfl
  have htargets : ∀ r, targets st' r = if decide (r = .alarm id) then none else targets st r := by
    intro r
    rw [targets_setAlarm id pAlarm' (by rw [hst']; rfl) (by rw [hst']; rfl)]
    rw [hpAlarm]
    by_cases hr : r = .alarm id
    · simp [hr]
    · simp [hr]
  refine ⟨st', ?_, ⟨⟨k, by rw [hcounters]; exact hk, hd, hlist⟩, ⟨?_, ?_, fun hP => ?_⟩, ?_⟩⟩
  · unfold syncAlarmCounterDestroyed
    rw [ha]
    dsimp only
    rw [hsent, hst', hpAlarm]
    rfl
  · -- it is on no other list
    have hlists := freeNode_lists (p := fun r => r = .alarm id) hk hlist ⟨k, by rw [hcounters]; exact hk, hlist⟩
      (fun c' hne => by
        rw [hcounters]
        unfold SyncState.dropAll
        dsimp only
        cases hk' : st.counters c' with
        | none => rfl
        | some k' =>
          simp only [map_some, some.injEq]
          rw [eq_comm, filter_eq_self]
          intro n hn
          have hne' : n.pTrigger ≠ .alarm id := by
            intro heq
            have ht := h.lists.target_of_mem hk' (mem_map_of_mem hn)
            rw [heq, htarget] at ht
            exact hne (some.inj ht).symm
          simpa using hne')
      (by rw [hp]; exact decide_eq_true rfl) (by
        intro n hn
        have hnodup := h.lists.nodup c k hk
        unfold SyncCounter.refs at hnodup
        rw [hlist, map_cons, nodup_cons, hp] at hnodup
        exact decide_eq_false fun heq => hnodup.1 (heq ▸ mem_map_of_mem hn))
    have := (h.lists.dropAll fun r => r = .alarm id).congr hlists (by rw [hst']; rfl)
    rwa [show targets (freeNode c node.id st') = fun r => if decide (r = .alarm id) then none else targets st r from
      funext htargets]
  · rw [hst']
    exact ⟨h.awaits.named, h.awaits.fresh⟩
  · intro id' al hal
    rw [hst'] at hal
    unfold freeNode SyncState.setAlarm SyncState.setCounter at hal
    dsimp only at hal
    rcases eq_or_ne id' id with rfl | hne
    · rw [update_self] at hal
      cases hal
      rw [hpAlarm]
      exact h.alarms hP id' pAlarm ha
    · rw [update_of_ne hne] at hal
      exact h.alarms hP id' al hal
  · intro c' k' hne hk'
    rw [hcounters] at hk'
    exact hothers c' k' hne hk'

/-- **An await whose counter is destroyed** is freed, and the node of this counter stays. -/
theorem awaitDestroyed_called (h : Sound P st) (hk : st.counters c = some k) (hd : k.beingDestroyed = true)
    (hothers : ∀ c' k', c' ≠ c → st.counters c' = some k' → k'.beingDestroyed = false) {i : ℕ} (hlist : k.triglist = node :: suf)
    (hp : node.pTrigger = .await id i) (honce : OnceEach k.refs) (memory : Bool) :
    ∃ st', syncAwaitTriggerFired id memory st = .ok st' ∧ Called P c node suf st st' := by
  have hmem : node ∈ k.triglist := by rw [hlist]; exact mem_cons_self
  obtain ⟨u, hu⟩ : ∃ u, st.awaits id = some u := by
    obtain ⟨t, ht, -⟩ := h.trigger hk hmem
    rw [hp] at ht
    obtain ⟨u, hu, -⟩ := bind_eq_some_iff.1 ht
    exact ⟨u, hu⟩
  obtain ⟨sent, hrun⟩ := syncAwaitTriggerFired_eq h hu memory
  obtain ⟨st', hst'⟩ : ∃ st', st' = { (st.dropRefs (isAwaitOf id)).setAwait id none with sent := sent } := ⟨_, rfl⟩
  have hcounters : ∀ c', st'.counters c' = (st.dropRefs (isAwaitOf id)).counters c' := fun c' => by rw [hst']; rfl
  have hk' : st'.counters c = some k := by
    rw [hcounters, dropRefs_counters, hk, map_some, if_pos hd]
  refine ⟨st', by rw [hrun, hst'], ⟨⟨k, hk', hd, hlist⟩, ?_, ?_⟩⟩
  · refine h.remove id (freeNode_lists hk hlist ⟨k, hk', hlist⟩ ?_ ?_ ?_) (by rw [hst']; rfl)
      (by rw [hst']; rfl) (by rw [hst']; rfl) (by rw [hst']; rfl)
    · intro c' hne
      rw [hcounters, dropRefs_counters]
      unfold SyncState.dropAll
      dsimp only
      cases hkc : st.counters c' with
      | none => rfl
      | some k' => simp [hothers c' k' hne hkc]
    · rw [hp]
      exact decide_eq_true rfl
    · -- no other condition of the await is on this list
      intro n hn
      have hnodup := h.lists.nodup c k hk
      unfold SyncCounter.refs at hnodup
      rw [hlist, map_cons, nodup_cons] at hnodup
      cases hnp : n.pTrigger with
      | alarm _ => rfl
      | await id' j =>
        refine decide_eq_false ?_
        rintro rfl
        have hni : .await id' j ∈ k.refs := hnp ▸ mem_map_of_mem (by rw [hlist]; exact mem_cons_of_mem _ hn)
        have hnode : .await id' i ∈ k.refs := hp ▸ mem_map_of_mem hmem
        obtain rfl := honce id' i j hnode hni
        exact hnodup.1 (mem_map.2 ⟨n, hn, by rw [hnp, hp]⟩)
  · intro c' k' hne hkc
    rw [hcounters, dropRefs_counters, map_eq_some_iff] at hkc
    obtain ⟨k₀, hk₀, rfl⟩ := hkc
    have := hothers c' k₀ hne hk₀
    rw [if_neg (by simp [this])]
    exact this

/-- **The loop of `FreeCounter`** calls each trigger of the list once. -/
theorem destroyWalk_ends (fuel : ℕ) :
    ∀ (suf : List TriggerNode) (st : SyncState) (k : SyncCounter), Sound P st →
      (∀ c' k', c' ≠ c → st.counters c' = some k' → k'.beingDestroyed = false) →
      st.counters c = some k → k.beingDestroyed = true → k.triglist = suf → suf.length ≤ fuel → OnceEach k.refs →
      Ends P (fun r => Sound P r.1 ∧ (∀ c' k', c' ≠ c → r.1.counters c' = some k' → k'.beingDestroyed = false) ∧
          (∃ k', r.1.counters c = some k' ∧ k'.triglist = []) ∧ r.2 = suf.map TriggerNode.pTrigger)
        (destroyWalk c a fuel (suf.head?.map TriggerNode.id) st) := by
  induction fuel with
  | zero =>
    intro suf st k h hothers hk hd hlist hlen _
    obtain rfl : suf = [] := length_eq_zero_iff.1 (by omega)
    exact .ok ⟨h, hothers, ⟨k, hk, hlist⟩, rfl⟩
  | succ fuel ih =>
    intro suf st k h hothers hk hd hlist hlen honce
    cases suf with
    | nil =>
      exact .ok ⟨h, hothers, ⟨k, hk, hlist⟩, rfl⟩
    | cons node suf =>
      have hmem : node ∈ k.triglist := by rw [hlist]; exact mem_cons_self
      have hids := h.lists.ids c k hk
      rw [hlist] at hids
      obtain ⟨t, ht, -⟩ := h.trigger hk hmem
      obtain ⟨st₁, hrun, hcalled⟩ : ∃ st₁, counterDestroyed node.pTrigger a st = .ok st₁ ∧
          Called P c node suf st st₁ := by
        cases hp : node.pTrigger with
        | alarm id => exact alarmDestroyed_called h hk hd hothers hlist hp
        | await id i => exact awaitDestroyed_called h hk hd hothers hlist hp honce (a.events id)
      obtain ⟨k₁, hk₁, hd₁, hlist₁⟩ := hcalled.counter
      rw [length_cons] at hlen
      rw [List.head?_cons, map_some]
      unfold destroyWalk
      rw [nodeAt_eq hk (hlist ▸ hids) (show k.triglist = [] ++ node :: suf from hlist)]
      refine Ends.bind (Q := fun r => r = (node, suf.head?.map TriggerNode.id)) (.ok rfl) ?_
      rintro _ rfl
      dsimp only
      rw [ht]
      rw [hrun]
      refine Ends.bind (Q := fun s => st₁ = s) (.ok rfl) ?_
      rintro _ rfl
      rw [nodeAt_eq hk₁ (hlist₁ ▸ hids) (show k₁.triglist = [] ++ node :: suf from hlist₁)]
      refine Ends.bind (Q := fun r => r = (node, suf.head?.map TriggerNode.id)) (.ok rfl) ?_
      rintro _ rfl
      have hk₂ : (freeNode c node.id st₁).counters c = some { k₁ with triglist := suf } := by
        unfold freeNode SyncState.setCounter
        dsimp only
        rw [update_self, hk₁, map_some, hlist₁, eraseP_cons_of_pos (by simp)]
      have honce' : OnceEach (SyncCounter.refs { k₁ with triglist := suf }) := by
        intro id i j hi hj
        have hsub : ∀ r, r ∈ suf.map TriggerNode.pTrigger → r ∈ k.refs := by
          intro r hr
          unfold SyncCounter.refs
          rw [hlist]
          exact mem_cons_of_mem _ hr
        exact honce id i j (hsub _ hi) (hsub _ hj)
      refine Ends.bind (ih suf (freeNode c node.id st₁) _ hcalled.sound ?_ hk₂ hd₁ rfl (by omega) honce') ?_
      · intro c' k' hne hk'
        unfold freeNode SyncState.setCounter at hk'
        dsimp only at hk'
        rw [update_of_ne hne] at hk'
        exact hcalled.others c' k' hne hk'
      · rintro ⟨st', called⟩ ⟨hs, ho, hempty, hcall⟩
        exact .ok ⟨hs, ho, hempty, by rw [map_cons, ← hcall]⟩

/-- **`FreeCounter`**, where no await is on the list twice. -/
theorem freeCounter_ends (h : Sound P st) (hnone : NoneDestroyed st)
    (honce : ∀ k, st.counters c = some k → OnceEach k.refs) :
    Ends P (fun r => Sound P r.1 ∧ NoneDestroyed r.1 ∧ r.2.Nodup) (freeCounter c a st) := by
  unfold freeCounter
  cases hk : st.counters c with
  | none => exact .ok ⟨h, hnone, nodup_nil⟩
  | some k =>
    dsimp only
    obtain ⟨st₁, hst₁⟩ : ∃ st₁, st₁ = st.setCounter c (some { k with beingDestroyed := true }) := ⟨_, rfl⟩
    have hk₁ : st₁.counters c = some { k with beingDestroyed := true } := by
      rw [hst₁]
      exact update_self ..
    have hother : ∀ c', c' ≠ c → st₁.counters c' = st.counters c' := fun c' hne => by
      rw [hst₁]
      exact update_of_ne hne ..
    have hlists : Registered st₁ (targets st) := by
      refine h.lists.congr (fun c' => ?_) (by rw [hst₁]; rfl)
      rcases eq_or_ne c' c with rfl | hne
      · rw [hk₁, hk]
        rfl
      · rw [hother c' hne]
    have h₁ : Sound P st₁ := by
      rw [hst₁] at hlists ⊢
      exact ⟨hlists, ⟨h.awaits.named, h.awaits.fresh⟩, h.alarms⟩
    rw [← hst₁]
    refine Ends.bind (destroyWalk_ends (a := a) k.triglist.length k.triglist st₁ _ h₁ ?_ hk₁ rfl rfl le_rfl
      (honce k hk)) ?_
    · intro c' k' hne hk'
      rw [hother c' hne] at hk'
      exact hnone c' k' hk'
    · rintro ⟨st', called⟩ ⟨hs, ho, ⟨k', hk', hempty⟩, rfl⟩
      -- no trigger names the counter any more
      have hno : ∀ r, targets st' r ≠ some c := by
        intro r hr
        obtain ⟨k₂, hk₂, hmem⟩ := hs.lists.counter _ hr
        rw [hk'] at hk₂
        cases hk₂
        unfold SyncCounter.refs at hmem
        rw [hempty] at hmem
        simp at hmem
      have hcases : ∀ c' k₂, (st'.setCounter c none).counters c' = some k₂ → c' ≠ c ∧ st'.counters c' = some k₂ := by
        intro c' k₂ hk₂
        unfold SyncState.setCounter at hk₂
        dsimp only at hk₂
        rcases eq_or_ne c' c with rfl | hne
        · rw [update_self] at hk₂
          simp at hk₂
        · rw [update_of_ne hne] at hk₂
          exact ⟨hne, hk₂⟩
      refine .ok ⟨⟨⟨?_, ?_, ?_, ?_⟩, ⟨hs.awaits.named, hs.awaits.fresh⟩, hs.alarms⟩, ?_, ?_⟩
      · intro c' k₂ hk₂
        exact hs.lists.ids c' k₂ (hcases c' k₂ hk₂).2
      · intro c' k₂ n hk₂ hn
        exact hs.lists.fresh c' k₂ n (hcases c' k₂ hk₂).2 hn
      · intro c' k₂ hk₂
        exact hs.lists.nodup c' k₂ (hcases c' k₂ hk₂).2
      · intro r c'
        constructor
        · rintro ⟨k₂, hk₂, hmem⟩
          exact hs.lists.target_of_mem (hcases c' k₂ hk₂).2 hmem
        · intro hr
          obtain ⟨k₂, hk₂, hmem⟩ := hs.lists.counter _ hr
          have hne : c' ≠ c := fun heq => hno r (heq ▸ hr)
          refine ⟨k₂, ?_, hmem⟩
          unfold SyncState.setCounter
          dsimp only
          rw [update_of_ne hne]
          exact hk₂
      · intro c' k₂ hk₂
        obtain ⟨hne, hk₂⟩ := hcases c' k₂ hk₂
        exact ho c' k₂ hne hk₂
      · exact h.lists.nodup c k hk

end Walks

end Xenia.Xext
