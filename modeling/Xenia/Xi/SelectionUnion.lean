import Xenia.Xi.Selection
import Xenia.Lib.Bits

/-!
# The summary of the selected events

`recalculate_selecting` is what a recalculation does: it makes each summary it comes to the
union of the records, if the old summary lies within that union. The summary is never made
smaller, and so the operations need that what a client gives up is still selected by others.

`selection_union` is the result over all runs whose steps keep what is selected, and
`selection_stays` a run with a step that does not: an event nobody selects stays in the
summary.
-/

namespace Xenia.Xi

open Xenia.Lib Xenia.Dix List Function Option

/-! ### Records -/

/-- The mask of the client among these records, 0 if it has none. -/
def clientMask (l : List InputClients) (c : ℕ) (i : DeviceId) : Mask :=
  (l.find? fun others => others.resource.client = c).elim 0 fun others => others.mask i

/-- No client has two records. -/
def OneEach (l : List InputClients) : Prop := (l.map fun others => others.resource.client).Nodup

section Records

variable {l : List InputClients} {o : InputClients} {c c' : ℕ} {i : DeviceId} {b : ℕ}

theorem clientMask_cons (o : InputClients) (l : List InputClients) (c : ℕ) (i : DeviceId) :
    clientMask (o :: l) c i = if o.resource.client = c then o.mask i else clientMask l c i := by
  unfold clientMask
  by_cases h : o.resource.client = c
  · simp [h]
  · simp [h]

theorem clientMask_absent (h : ∀ o ∈ l, o.resource.client ≠ c) : clientMask l c i = 0 := by
  unfold clientMask
  rw [List.find?_eq_none.2 fun o ho => by simpa using h o ho]
  rfl

/-- A record holds the mask of its client. -/
theorem clientMask_mem (hone : OneEach l) (ho : o ∈ l) : clientMask l o.resource.client i = o.mask i := by
  induction l with
  | nil => simp at ho
  | cons x l ih =>
    unfold OneEach at hone
    rw [map_cons, nodup_cons] at hone
    rw [clientMask_cons]
    rcases mem_cons.1 ho with rfl | hmem
    · rw [if_pos rfl]
    · have hne : x.resource.client ≠ o.resource.client := fun heq =>
        hone.1 (mem_map.2 ⟨o, hmem, heq.symm⟩)
      rw [if_neg hne]
      exact ih hone.2 hmem

/-- The union of the records is that of the clients. -/
theorem exists_mem_iff (hone : OneEach l) :
    (∃ o ∈ l, (o.mask i).getLsbD b = true) ↔ ∃ c, (clientMask l c i).getLsbD b = true := by
  constructor
  · rintro ⟨o, ho, hb⟩
    exact ⟨o.resource.client, by rwa [clientMask_mem hone ho]⟩
  · rintro ⟨c, hb⟩
    by_cases hc : ∃ o ∈ l, o.resource.client = c
    · obtain ⟨o, ho, rfl⟩ := hc
      rw [clientMask_mem hone ho] at hb
      exact ⟨o, ho, hb⟩
    · push Not at hc
      rw [clientMask_absent hc] at hb
      simp at hb

theorem oneEach_updateClient (f : InputClients → InputClients) (hf : ∀ o, (f o).resource = o.resource)
    (h : OneEach l) : OneEach (updateClient c f l) := by
  have hmap : (updateClient c f l).map (fun o => o.resource.client) = l.map fun o => o.resource.client := by
    clear h
    induction l with
    | nil => rfl
    | cons x l ih =>
      unfold updateClient
      split
      · rw [map_cons, map_cons, hf]
      · rw [map_cons, map_cons, ih]
  unfold OneEach
  rw [hmap]
  exact h

theorem clientMask_updateClient (f : InputClients → InputClients) (hf : ∀ o, (f o).resource = o.resource)
    (hfind : l.find? (fun others => others.resource.client = c) = some o) :
    clientMask (updateClient c f l) c' i = if c' = c then (f o).mask i else clientMask l c' i := by
  induction l with
  | nil => simp at hfind
  | cons x l ih =>
    rw [List.find?_cons] at hfind
    unfold updateClient
    by_cases hx : x.resource.client = c
    · rw [if_pos hx, clientMask_cons, hf, clientMask_cons]
      simp only [hx] at hfind ⊢
      cases hfind
      by_cases hc : c' = c
      · rw [if_pos hc.symm, if_pos hc]
      · rw [if_neg (Ne.symm hc), if_neg hc, if_neg (Ne.symm hc)]
    · simp only [hx] at hfind
      rw [if_neg hx, clientMask_cons, clientMask_cons, ih hfind]
      by_cases hc : c' = c
      · rw [if_pos hc, if_neg (fun h => hx (h.trans hc))]
        rw [if_pos hc]
      · rw [if_neg hc, if_neg hc]

/-- Where only the XI2 masks are changed. -/
theorem clientMask_updateClient_eq (f : InputClients → InputClients) (hf : ∀ o, (f o).resource = o.resource)
    (hmask : ∀ o, (f o).mask = o.mask) : clientMask (updateClient c f l) c' i = clientMask l c' i := by
  induction l with
  | nil => rfl
  | cons x l ih =>
    unfold updateClient
    split
    · rw [clientMask_cons, clientMask_cons, hf, hmask]
    · rw [clientMask_cons, clientMask_cons, ih]

theorem mem_updateClient (f : InputClients → InputClients)
    (hfind : l.find? (fun others => others.resource.client = c) = some o) : f o ∈ updateClient c f l := by
  induction l with
  | nil => simp at hfind
  | cons x l ih =>
    rw [List.find?_cons] at hfind
    unfold updateClient
    by_cases hx : x.resource.client = c
    · simp only [hx] at hfind
      cases hfind
      rw [if_pos hx]
      exact mem_cons_self
    · simp only [hx] at hfind
      rw [if_neg hx]
      exact mem_cons_of_mem _ (ih hfind)

theorem oneEach_eraseP (p : InputClients → Bool) (h : OneEach l) : OneEach (l.eraseP p) :=
  h.sublist (eraseP_sublist.map _)

/-- Without its record a client has no mask. -/
theorem clientMask_eraseP (hone : OneEach l) (ho : o ∈ l) :
    clientMask (l.eraseP fun other => other.resource = o.resource) c i =
      if c = o.resource.client then 0 else clientMask l c i := by
  induction l with
  | nil => simp at ho
  | cons x l ih =>
    unfold OneEach at hone
    rw [map_cons, nodup_cons] at hone
    rw [clientMask_cons]
    by_cases hx : x.resource = o.resource
    · rw [eraseP_cons_of_pos (by simpa using hx)]
      by_cases hc : c = o.resource.client
      · rw [if_pos hc]
        refine clientMask_absent fun y hy heq => hone.1 (mem_map.2 ⟨y, hy, ?_⟩)
        rw [heq, hc, hx]
      · rw [if_neg hc, if_neg (fun h => hc (by rw [← h, hx]))]
    · rw [eraseP_cons_of_neg (by simpa using hx), clientMask_cons]
      have hmem : o ∈ l := (mem_cons.1 ho).resolve_left fun h => hx (by rw [h])
      have hne : x.resource.client ≠ o.resource.client := fun heq =>
        hone.1 (mem_map.2 ⟨o, hmem, heq.symm⟩)
      rw [ih hone.2 hmem]
      by_cases hc : c = o.resource.client
      · rw [if_pos hc, if_neg (fun h => hne (h.trans hc)), if_pos hc]
      · rw [if_neg hc, if_neg hc]

end Records

/-! ### Recalculation -/

/-- The summary lies within the union of the records. -/
def Within (m : OtherInputMasks) : Prop :=
  ∀ i b, (m.inputEvents i).getLsbD b = true → ∃ o ∈ m.inputClients, (o.mask i).getLsbD b = true

/-- The summary is the union of the records. -/
def Summed (m : OtherInputMasks) : Prop :=
  ∀ i b, (m.inputEvents i).getLsbD b = true ↔ ∃ o ∈ m.inputClients, (o.mask i).getLsbD b = true

/-- The same windows have masks, with the same records and the same events held back. -/
def SameRecords (masks masks' : WindowMasks) : Prop :=
  ∀ w, (masks' w).map (fun m => (m.inputClients, m.dontPropagateMask)) =
    (masks w).map fun m => (m.inputClients, m.dontPropagateMask)

variable {masks : WindowMasks} {w : WindowId}

theorem SameRecords.exists_masks {masks' : WindowMasks} (h : SameRecords masks masks') {m : OtherInputMasks} (hm : masks w = some m) :
    ∃ m', masks' w = some m' ∧ m'.inputClients = m.inputClients := by
  have := h w
  rw [hm, map_some, map_eq_some_iff] at this
  obtain ⟨m', hm', heq⟩ := this
  exact ⟨m', hm', congrArg Prod.fst heq⟩

theorem recalculateWindow_sameRecords (masks : WindowMasks) (x : WindowId × List WindowId) :
    SameRecords masks (recalculateWindow masks x) := by
  intro w
  unfold recalculateWindow
  cases hx : masks x.1 with
  | none => rfl
  | some m =>
    dsimp only
    by_cases hw : w = x.1
    · rw [hw, update_self, hx]
      rfl
    · rw [update_of_ne hw]

/-- The summaries after one window of the walk. -/
theorem recalculateWindow_spec (hwithin : ∀ w m, masks w = some m → Within m)
    (x : WindowId × List WindowId) {m' : OtherInputMasks} (hm' : recalculateWindow masks x w = some m') :
    Within m' ∧ (w = x.1 ∨ (∀ m, masks w = some m → Summed m) → Summed m') := by
  unfold recalculateWindow at hm'
  cases hx : masks x.1 with
  | none =>
    rw [hx] at hm'
    dsimp only at hm'
    refine ⟨hwithin w m' hm', ?_⟩
    rintro (rfl | h)
    · rw [hx] at hm'
      simp at hm'
    · exact h m' hm'
  | some m =>
    rw [hx] at hm'
    dsimp only at hm'
    by_cases hw : w = x.1
    · rw [hw, update_self] at hm'
      cases hm'
      have hsum : ∀ i b, (m.inputClients.foldl (fun e others => e ||| others.mask i)
          (m.inputEvents i)).getLsbD b = true ↔ ∃ o ∈ m.inputClients, (o.mask i).getLsbD b = true := by
        intro i b
        rw [getLsbD_foldl_or fun o : InputClients => o.mask i]
        exact or_iff_right_of_imp (hwithin _ m hx i b)
      exact ⟨fun i b => (hsum i b).1, fun _ => hsum⟩
    · rw [update_of_ne hw] at hm'
      refine ⟨hwithin w m' hm', ?_⟩
      rintro (h | h)
      · exact absurd h hw
      · exact h m' hm'

/-- The same over a whole walk. -/
theorem recalculate_walk (walk : List (WindowId × List WindowId)) :
    ∀ masks : WindowMasks, (∀ w m, masks w = some m → Within m) →
      (∀ w m, w ∉ walk.map Prod.fst → masks w = some m → Summed m) →
      SameRecords masks (walk.foldl recalculateWindow masks) ∧
        ∀ w m, walk.foldl recalculateWindow masks w = some m → Summed m := by
  induction walk with
  | nil => exact fun masks _ hsummed => ⟨fun _ => rfl, fun w m => hsummed w m (by simp)⟩
  | cons x walk ih =>
    intro masks hwithin hsummed
    have hsame := recalculateWindow_sameRecords masks x
    obtain ⟨hsame', hsum⟩ := ih (recalculateWindow masks x)
      (fun w m hm => (recalculateWindow_spec hwithin x hm).1) (by
        intro w m hw hm
        refine (recalculateWindow_spec hwithin x hm).2 ?_
        by_cases hx : w = x.1
        · exact .inl hx
        · exact .inr fun m hm => hsummed w m (by simp_all) hm)
    exact ⟨fun w => (hsame' w).trans (hsame w), hsum⟩

theorem mem_walk {tree : WindowTree} (hw : w ∈ tree.windows) :
    w ∈ (tree.walk w).map Prod.fst := by
  obtain ⟨x, hx, rfl⟩ := mem_map.1 hw
  refine mem_map.2 ⟨x, mem_filter.2 ⟨hx, ?_⟩, rfl⟩
  simp

/-! ### The invariant -/

/-- The mask a client has on record. -/
def recorded (masks : WindowMasks) (w : WindowId) (c : ℕ) (i : DeviceId) : Mask :=
  (masks w).elim 0 fun m => clientMask m.inputClients c i

/-- The records are what the clients select, and each summary lies within their union: it is
that union, except perhaps at `pWin`. -/
structure Pending (pWin : WindowId) (st : InputState) (sel : Selected) : Prop where
  one : ∀ w m, st.masks w = some m → OneEach m.inputClients
  within : ∀ w m, st.masks w = some m → Within m
  summed : ∀ w m, w ≠ pWin → st.masks w = some m → Summed m
  agrees : ∀ w c i, sel w c i = recorded st.masks w c i

/-- The records are what the clients select, and each summary is their union. -/
structure Selecting (st : InputState) (sel : Selected) : Prop where
  one : ∀ w m, st.masks w = some m → OneEach m.inputClients
  summed : ∀ w m, st.masks w = some m → Summed m
  agrees : ∀ w c i, sel w c i = recorded st.masks w c i

section Select

variable {tree : WindowTree} {pWin : WindowId} {st : InputState} {sel : Selected} {client : ℕ}
  {mask : Mask} {a : AllocAnswers}

theorem Selecting.pending (h : Selecting st sel) (pWin : WindowId) : Pending pWin st sel :=
  ⟨h.one, fun w m hm i b => (h.summed w m hm i b).1, fun w m _ => h.summed w m, h.agrees⟩

/-- **Recalculation** makes the summary the union. -/
theorem recalculate_selecting (hw : pWin ∈ tree.windows) (h : Pending pWin st sel) :
    Selecting (recalculateDeviceDeliverableEvents tree pWin st) sel ∧
      SameRecords st.masks (recalculateDeviceDeliverableEvents tree pWin st).masks := by
  obtain ⟨hsame, hsum⟩ := recalculate_walk (tree.walk pWin) st.masks h.within (by
    intro w m hw' hm
    refine h.summed w m ?_ hm
    rintro rfl
    exact hw' (mem_walk hw))
  refine ⟨⟨?_, hsum, ?_⟩, hsame⟩
  · intro w m hm
    have := hsame w
    rw [show (tree.walk pWin).foldl recalculateWindow st.masks w = some m from hm] at this
    cases hold : st.masks w with
    | none => rw [hold] at this; simp at this
    | some m₀ =>
      rw [hold] at this
      simp only [map_some, some.injEq, Prod.mk.injEq] at this
      rw [this.1]
      exact h.one w m₀ hold
  · intro w c i
    rw [h.agrees w c i]
    have := hsame w
    unfold recorded recalculateDeviceDeliverableEvents
    dsimp only
    cases hold : st.masks w with
    | none =>
      rw [hold, map_none, map_eq_none_iff] at this
      rw [this]
    | some m₀ =>
      rw [hold, map_some, map_eq_some_iff] at this
      obtain ⟨m, hm, heq⟩ := this
      rw [hm]
      simp only [Prod.mk.injEq] at heq
      simp only [elim_some, heq.1]

/-- The summary of a window, in terms of what is selected. -/
theorem Selecting.inputEvents_iff (h : Selecting st sel) {w : WindowId} {m : OtherInputMasks}
    (hm : st.masks w = some m) (i : DeviceId) (b : ℕ) :
    (m.inputEvents i).getLsbD b = true ↔ ∃ c, (sel w c i).getLsbD b = true := by
  rw [h.summed w m hm i b, exists_mem_iff (h.one w m hm)]
  refine exists_congr fun c => ?_
  rw [h.agrees, recorded, hm]
  rfl

/-- Other masks at one window. -/
theorem Selecting.setMasks (h : Selecting st sel) {new : Option OtherInputMasks} {sel' : Selected}
    (hone : ∀ m, new = some m → OneEach m.inputClients) (hwithin : ∀ m, new = some m → Within m)
    (hrec : ∀ c i, sel' pWin c i = new.elim 0 fun m => clientMask m.inputClients c i)
    (helse : ∀ w, w ≠ pWin → sel' w = sel w) {st' : InputState}
    (hmasks : st'.masks = Function.update st.masks pWin new) : Pending pWin st' sel' := by
  refine ⟨?_, ?_, ?_, ?_⟩ <;> rw [hmasks] <;> intro w
  · intro m hm
    rcases eq_or_ne w pWin with rfl | hne
    · rw [update_self] at hm
      exact hone m hm
    · rw [update_of_ne hne] at hm
      exact h.one w m hm
  · intro m hm
    rcases eq_or_ne w pWin with rfl | hne
    · rw [update_self] at hm
      exact hwithin m hm
    · rw [update_of_ne hne] at hm
      exact fun i b => (h.summed w m hm i b).1
  · intro m hne hm
    rw [update_of_ne hne] at hm
    exact h.summed w m hm
  · intro c i
    unfold recorded
    rcases eq_or_ne w pWin with rfl | hne
    · rw [update_self, hrec]
    · rw [update_of_ne hne, helse w hne, h.agrees]
      rfl

/-- New records at one window, for what is selected now, if nothing selected before is lost. -/
theorem Selecting.replace (h : Selecting st sel) {m : OtherInputMasks} {l : List InputClients} {sel' : Selected}
    (hm : st.masks pWin = some m) (hone : OneEach l) (hrec : ∀ c i, sel' pWin c i = clientMask l c i)
    (helse : ∀ w, w ≠ pWin → sel' w = sel w)
    (hkeep : ∀ i b c, (sel pWin c i).getLsbD b = true → ∃ c, (sel' pWin c i).getLsbD b = true)
    {st' : InputState} (hmasks : st'.masks = Function.update st.masks pWin (some { m with inputClients := l })) :
    Pending pWin st' sel' := by
  refine h.setMasks ?_ ?_ hrec helse hmasks
  · intro m' hm'
    cases hm'
    exact hone
  · intro m' hm' i b hb
    cases hm'
    obtain ⟨c, hc⟩ := (h.inputEvents_iff hm i b).1 hb
    obtain ⟨c', hc'⟩ := hkeep i b c hc
    rw [hrec] at hc'
    exact (exists_mem_iff hone).2 ⟨c', hc'⟩

/-! ### The operations -/

/-- The end of the operations that change a record. -/
theorem maskSet_selecting (hw : pWin ∈ tree.windows) (h : Pending pWin st sel) (dev : Device) (mask check : Mask) :
    Selecting (maskSet tree dev pWin mask check st) sel := by
  refine (recalculate_selecting hw ?_).1
  split
  · exact ⟨h.one, h.within, h.summed, h.agrees⟩
  · exact h

/-- A record of a client that has none is added, unless there is no memory. -/
theorem addExtensionClient_spec (mask : Mask) (h : Selecting st sel)
    (hnone : ∀ m, st.masks pWin = some m → ∀ o ∈ m.inputClients, o.resource.client ≠ client)
    (hres : a.resource = true) (mskidx : DeviceId) :
    ∃ st' ret, addExtensionClient pWin client mask mskidx a st = some (st', ret) ∧
      (ret ≠ Success ∧ Selecting st' sel ∨
        ret = Success ∧ Pending pWin st' (sel.select pWin client mskidx mask)) := by
  have hfail : BadAlloc ≠ Success := by decide
  unfold addExtensionClient
  split
  · exact ⟨_, _, rfl, .inl ⟨hfail, h⟩⟩
  split
  · exact ⟨_, _, rfl, .inl ⟨hfail, h⟩⟩
  split
  · exact ⟨_, _, rfl, .inl ⟨hfail, h⟩⟩
  -- the masks of the window, which may be new
  have hmade : Selecting (setMasks pWin (some ((st.masks pWin).getD newInputMasks)) st) sel ∧
      ∀ o ∈ ((st.masks pWin).getD newInputMasks).inputClients, o.resource.client ≠ client := by
    cases hm : st.masks pWin with
    | some m =>
      have hsame : setMasks pWin (some m) st = st := by
        unfold setMasks
        rw [← hm, update_eq_self]
      rw [getD_some, hsame]
      exact ⟨h, hnone m hm⟩
    | none =>
      have hpend : Pending pWin (setMasks pWin (some newInputMasks) st) sel := by
        refine h.setMasks ?_ ?_ ?_ (fun _ _ => rfl) rfl
        · intro m hm
          cases hm
          exact nodup_nil
        · intro m hm i b hb
          cases hm
          simp [newInputMasks] at hb
        · intro c i
          rw [h.agrees, recorded, hm]
          rfl
      refine ⟨⟨hpend.one, ?_, hpend.agrees⟩, by simp [newInputMasks]⟩
      intro w m' hm'
      rcases eq_or_ne w pWin with rfl | hne
      · unfold setMasks at hm'
        dsimp only at hm'
        rw [update_self] at hm'
        cases hm'
        intro i b
        simp [newInputMasks]
      · exact hpend.summed w m' hne hm'
  obtain ⟨hsel, hnone'⟩ := hmade
  split
  · exact ⟨_, _, rfl, .inl ⟨hfail, hsel⟩⟩
  rw [if_neg (by simp [hres])]
  refine ⟨_, _, rfl, .inr ⟨rfl, hsel.replace (update_self ..)
    (l := ⟨⟨client, st.fakeID client⟩, Function.update (fun _ => 0) mskidx mask, fun _ => 0⟩ ::
      ((st.masks pWin).getD newInputMasks).inputClients) ?_ ?_ ?_ ?_ ?_⟩⟩
  · refine nodup_cons.2 ⟨?_, hsel.one pWin _ (update_self ..)⟩
    intro hmem
    obtain ⟨o, ho, heq⟩ := mem_map.1 hmem
    exact hnone' o ho heq
  · intro c i
    rw [clientMask_cons]
    have hold : sel pWin c i = clientMask ((st.masks pWin).getD newInputMasks).inputClients c i := by
      rw [hsel.agrees, recorded]
      unfold setMasks
      dsimp only
      rw [update_self]
      rfl
    unfold Selected.select
    rcases eq_or_ne c client with rfl | hne
    · rw [if_pos rfl]
      rcases eq_or_ne i mskidx with rfl | hi
      · rw [if_pos ⟨rfl, rfl, rfl⟩]
        dsimp only
        rw [update_self]
      · rw [if_neg (fun h => hi h.2.2), hold, clientMask_absent hnone']
        dsimp only
        rw [update_of_ne hi]
    · rw [if_neg (fun h => hne h.2.1), if_neg hne.symm, hold]
  · intro w hw
    funext c i
    exact if_neg fun h => hw h.1
  · intro i b c hb
    refine ⟨c, ?_⟩
    have hne : c ≠ client := by
      rintro rfl
      rw [hsel.agrees, recorded] at hb
      unfold setMasks at hb
      dsimp only at hb
      rw [update_self, elim_some, clientMask_absent hnone'] at hb
      simp at hb
    unfold Selected.select
    rwa [if_neg fun h => hne h.2.1]
  · unfold setMasks
    rw [update_idem]

theorem addExtensionClient_masks {mskidx : DeviceId} {st' : InputState}
    (h : addExtensionClient pWin client mask mskidx a st = some (st', Success)) : (st'.masks pWin).isSome := by
  have hfail : BadAlloc ≠ Success := by decide
  have hno : ∀ s : InputState, some (s, BadAlloc) = some (st', Success) → False := fun s heq =>
    hfail (congrArg Prod.snd (some.inj heq))
  unfold addExtensionClient at h
  split at h
  · exact (hno _ h).elim
  split at h
  · exact (hno _ h).elim
  split at h
  · exact (hno _ h).elim
  split at h
  · exact (hno _ h).elim
  split at h
  · simp at h
  · cases h
    unfold setMasks
    dsimp only
    rw [update_self]
    rfl

/-- What a client gives up by leaving is selected by others too, or all goes with it: it is the
only one, and the window holds no events back. -/
def Leaves (st : InputState) (sel : Selected) (pWin : WindowId) (client : ℕ) : Prop :=
  (∀ i b, (sel pWin client i).getLsbD b = true → ∃ c ≠ client, (sel pWin c i).getLsbD b = true) ∨
    ∃ m o, st.masks pWin = some m ∧ m.inputClients = [o] ∧ ∀ i, m.dontPropagateMask i = 0

theorem inputClientGone_spec (hw : pWin ∈ tree.windows) (h : Selecting st sel) {m : OtherInputMasks}
    {o : InputClients} (hm : st.masks pWin = some m) (ho : o ∈ m.inputClients)
    (hleave : Leaves st sel pWin o.resource.client) :
    ∃ st', inputClientGone tree pWin o.resource st = some st' ∧
      Selecting st' (sel.gone pWin o.resource.client) := by
  have hone := h.one pWin m hm
  have hrec : ∀ c i, sel pWin c i = clientMask m.inputClients c i := by
    intro c i
    rw [h.agrees, recorded, hm]
    rfl
  have helse : ∀ w, w ≠ pWin → sel.gone pWin o.resource.client w = sel w := by
    intro w hne
    funext c i
    exact if_neg fun h => hne h.1
  have hgone : ∀ c i, sel.gone pWin o.resource.client pWin c i =
      if c = o.resource.client then 0 else sel pWin c i := by
    unfold Selected.gone
    simp
  unfold inputClientGone
  rw [hm]
  dsimp only
  rw [if_pos (any_eq_true.2 ⟨o, ho, by simp⟩)]
  -- where the records stay, nothing is lost
  have hkeep : ¬(∃ m o, st.masks pWin = some m ∧ m.inputClients = [o] ∧ ∀ i, m.dontPropagateMask i = 0) →
      ∀ i b c, (sel pWin c i).getLsbD b = true →
        ∃ c, (sel.gone pWin o.resource.client pWin c i).getLsbD b = true := by
    intro hmore i b c hb
    rcases eq_or_ne c o.resource.client with rfl | hne
    · obtain ⟨c', hne, hb'⟩ := hleave.resolve_right hmore i b hb
      exact ⟨c', by rwa [hgone, if_neg hne]⟩
    · exact ⟨c, by rwa [hgone, if_neg hne]⟩
  refine ⟨_, rfl, (recalculate_selecting hw ?_).1⟩
  rcases hl : m.inputClients with _ | ⟨x, _ | ⟨y, rest⟩⟩
  · rw [hl] at ho
    simp at ho
  · obtain rfl : o = x := by
      rw [hl] at ho
      simpa using ho
    dsimp only
    split
    · -- the masks go with the record
      refine h.setMasks ?_ ?_ ?_ helse rfl
      · intro m' hm'
        simp at hm'
      · intro m' hm'
        simp at hm'
      · intro c i
        rw [hgone, hrec, hl, clientMask_cons]
        split
        · rfl
        · rename_i hc
          rw [if_neg (Ne.symm hc)]
          rfl
    · rename_i hfree
      have hmore : ¬∃ m o, st.masks pWin = some m ∧ m.inputClients = [o] ∧
          ∀ i, m.dontPropagateMask i = 0 := by
        rintro ⟨m', -, hm', -, hzero⟩
        rw [hm] at hm'
        cases hm'
        exact hfree (decide_eq_true fun i => ⟨hzero i, by simp⟩)
      -- nobody else could select what the record has, so it has nothing
      have hzero : ∀ i, o.mask i = 0 := by
        intro i
        rw [eq_zero_iff]
        intro b
        by_contra hb
        have hsel : (sel pWin o.resource.client i).getLsbD b = true := by
          rw [hrec, clientMask_mem hone ho]
          simpa using hb
        obtain ⟨c, hne, hc⟩ := hleave.resolve_right hmore i b hsel
        rw [hrec, hl, clientMask_cons, if_neg hne.symm] at hc
        simp [clientMask] at hc
      refine h.replace hm (l := [{ o with resource := ⟨0, st.fakeID 0⟩ }]) (nodup_singleton _) ?_ helse
        (hkeep hmore) rfl
      intro c i
      have hnew : clientMask [{ o with resource := ⟨0, st.fakeID 0⟩ }] c i = 0 := by
        rw [clientMask_cons]
        rw [hzero i]
        split <;> rfl
      rw [hgone, hnew, hrec, hl, clientMask_cons, hzero i]
      split
      · rfl
      · split <;> rfl
  · dsimp only
    rw [← hl]
    refine h.replace hm (oneEach_eraseP _ hone) ?_ helse (hkeep ?_) rfl
    · intro c i
      rw [hgone, clientMask_eraseP hone ho, hrec]
    · rintro ⟨m', o', hm', hl', -⟩
      rw [hm] at hm'
      cases hm'
      rw [hl] at hl'
      simp at hl'

/-- Where no summary has an event left and none is held back, nothing is lost with a record. -/
theorem freed_spec (hw : pWin ∈ tree.windows) (h : Selecting st sel) {m : OtherInputMasks} {o : InputClients}
    (hm : st.masks pWin = some m) (ho : o ∈ m.inputClients) (hfree : shouldFreeInputMasks m false = true) :
    ∃ st', inputClientGone tree pWin o.resource st = some st' ∧ Selecting st' sel := by
  have hzero : ∀ i b c, (sel pWin c i).getLsbD b = false := by
    intro i b c
    by_contra hb
    have hb : (sel pWin c i).getLsbD b = true := by simpa using hb
    have hin := (h.inputEvents_iff hm i b).2 ⟨c, hb⟩
    rw [((of_decide_eq_true hfree) i).2 rfl] at hin
    simp at hin
  have hleave : Leaves st sel pWin o.resource.client := by
    refine .inl fun i b hb => ?_
    rw [hzero] at hb
    simp at hb
  obtain ⟨st', hrun, hsel⟩ := inputClientGone_spec hw h hm ho hleave
  have hgone : sel.gone pWin o.resource.client = sel := by
    funext w c i
    unfold Selected.gone
    split
    · rename_i hc
      rw [hc.1, eq_comm, eq_zero_iff]
      exact fun b => hzero i b c
    · rfl
  rw [hgone] at hsel
  exact ⟨st', hrun, hsel⟩

/-- Another client selects one of the events that only one may. -/
def Excluded (sel : Selected) (pWin : WindowId) (client : ℕ) (dev : DeviceId) (check : Mask) : Prop :=
  ∃ c ≠ client, check &&& sel pWin c dev ≠ 0

/-- What the client gives up is selected by others too. -/
def GivesUpShared (sel : Selected) (pWin : WindowId) (client : ℕ) (dev : DeviceId) (mask : Mask) : Prop :=
  ∀ b, (sel pWin client dev).getLsbD b = true →
    mask.getLsbD b = true ∨ ∃ c ≠ client, (sel pWin c dev).getLsbD b = true

/-- The test of `SelectForWindow` for other clients. -/
theorem excluded_iff (h : Selecting st sel) {m : OtherInputMasks} (hm : st.masks pWin = some m)
    (dev : DeviceId) (check : Mask) :
    (check &&& m.inputEvents dev ≠ 0 ∧ (m.inputClients.any fun others =>
        others.resource.client ≠ client ∧ check &&& others.mask dev ≠ 0) = true) ↔
      Excluded sel pWin client dev check := by
  have hone := h.one pWin m hm
  have hrec : ∀ c, sel pWin c dev = clientMask m.inputClients c dev := by
    intro c
    rw [h.agrees, recorded, hm]
    rfl
  constructor
  · rintro ⟨-, hany⟩
    obtain ⟨o, ho, hp⟩ := any_eq_true.1 hany
    obtain ⟨hne, hcheck⟩ := of_decide_eq_true hp
    exact ⟨o.resource.client, hne, by rwa [hrec, clientMask_mem hone ho]⟩
  · rintro ⟨c, hne, hcheck⟩
    rw [hrec] at hcheck
    by_cases hc : ∃ o ∈ m.inputClients, o.resource.client = c
    · obtain ⟨o, ho, rfl⟩ := hc
      rw [clientMask_mem hone ho] at hcheck
      refine ⟨?_, any_eq_true.2 ⟨o, ho, decide_eq_true ⟨hne, hcheck⟩⟩⟩
      -- what a record has, the summary has
      obtain ⟨b, hb, hb'⟩ := (and_ne_zero_iff _ _).1 hcheck
      exact (and_ne_zero_iff _ _).2 ⟨b, hb, (h.summed pWin m hm dev b).2 ⟨o, ho, hb'⟩⟩
    · push Not at hc
      rw [clientMask_absent hc] at hcheck
      simp at hcheck

theorem add_ne_badAccess {dev : Device} {mskidx : DeviceId} {st' : InputState} :
    selectForWindow.add tree dev pWin client mask a st mskidx ≠ some (st', BadAccess) := by
  have hcodes : BadAlloc ≠ BadAccess ∧ Success ≠ BadAccess := by decide
  intro h
  obtain ⟨⟨st₁, ret⟩, hrun, heq⟩ := map_eq_some_iff.1 h
  dsimp only at heq
  split at heq
  · -- the codes of `AddExtensionClient`
    have hret : ret = BadAccess := congrArg Prod.snd heq
    subst hret
    unfold addExtensionClient at hrun
    split at hrun
    · exact hcodes.1 (congrArg Prod.snd (some.inj hrun))
    split at hrun
    · exact hcodes.1 (congrArg Prod.snd (some.inj hrun))
    split at hrun
    · exact hcodes.1 (congrArg Prod.snd (some.inj hrun))
    split at hrun
    · exact hcodes.1 (congrArg Prod.snd (some.inj hrun))
    split at hrun
    · simp at hrun
    · exact hcodes.2 (congrArg Prod.snd (some.inj hrun))
  · exact hcodes.2 (congrArg Prod.snd heq)

/-- **Who is refused**: `SelectForWindow` returns `BadAccess` to those whom another client
excludes, and to no others. -/
theorem selectForWindow_access (h : Selecting st sel) (dev : Device) (exclusivemasks : Mask) :
    (∃ st', selectForWindow tree dev pWin client mask exclusivemasks a st = some (st', BadAccess)) ↔
      Excluded sel pWin client dev.id (mask &&& exclusivemasks) := by
  have hsuccess : Success ≠ BadAccess := by decide
  unfold selectForWindow
  cases hm : st.masks pWin with
  | none =>
    refine iff_of_false (fun ⟨st', h⟩ => add_ne_badAccess h) ?_
    rintro ⟨c, -, hc⟩
    rw [h.agrees, recorded, hm] at hc
    simp at hc
  | some m =>
    dsimp only
    have hiff : _ ↔ Excluded sel pWin client dev.id (mask &&& exclusivemasks) := excluded_iff h hm _ _
    by_cases hex : Excluded sel pWin client dev.id (mask &&& exclusivemasks)
    · rw [if_pos (hiff.2 hex)]
      exact iff_of_true ⟨st, rfl⟩ hex
    rw [if_neg (fun hc => hex (hiff.1 hc))]
    refine iff_of_false ?_ hex
    rintro ⟨st', hrun⟩
    split at hrun
    · exact add_ne_badAccess hrun
    split at hrun
    · split at hrun
      · obtain ⟨st₁, -, heq⟩ := map_eq_some_iff.1 hrun
        exact hsuccess (congrArg Prod.snd heq)
      · exact hsuccess (congrArg Prod.snd (some.inj hrun))
    · exact hsuccess (congrArg Prod.snd (some.inj hrun))

/-- **`SelectForWindow`** keeps the summary the union of what is selected. -/
theorem selectForWindow_spec (hw : pWin ∈ tree.windows) (h : Selecting st sel) (dev : Device)
    (exclusivemasks : Mask) (hres : a.resource = true)
    (hshared : Excluded sel pWin client dev.id (mask &&& exclusivemasks) ∨
      GivesUpShared sel pWin client dev.id mask) :
    ∃ st' ret, selectForWindow tree dev pWin client mask exclusivemasks a st = some (st', ret) ∧
      Selecting st' (if ret = Success then sel.select pWin client dev.id mask else sel) := by
  have hadd : (∀ m, st.masks pWin = some m → ∀ o ∈ m.inputClients, o.resource.client ≠ client) →
      ∃ st' ret, selectForWindow.add tree dev pWin client mask a st dev.id = some (st', ret) ∧
        Selecting st' (if ret = Success then sel.select pWin client dev.id mask else sel) := by
    intro hnone
    obtain ⟨st', ret, hrun, ⟨hret, hsel⟩ | ⟨rfl, hpend⟩⟩ := addExtensionClient_spec mask h hnone
      hres dev.id
    · refine ⟨st', ret, ?_, ?_⟩
      · unfold selectForWindow.add
        rw [hrun]
        exact congrArg some (if_pos hret)
      · rw [if_neg hret]
        exact hsel
    · refine ⟨maskSet tree dev pWin mask 0 st', Success, ?_, ?_⟩
      · unfold selectForWindow.add
        rw [hrun]
        exact congrArg some (if_neg fun h => h rfl)
      · rw [if_pos rfl]
        exact maskSet_selecting hw hpend dev mask 0
  unfold selectForWindow
  cases hm : st.masks pWin with
  | none => exact hadd (by simp [hm])
  | some m =>
    dsimp only
    have hone := h.one pWin m hm
    have hrec : ∀ c i, sel pWin c i = clientMask m.inputClients c i := by
      intro c i
      rw [h.agrees, recorded, hm]
      rfl
    have hiff : _ ↔ Excluded sel pWin client dev.id (mask &&& exclusivemasks) := excluded_iff h hm _ _
    by_cases hex : Excluded sel pWin client dev.id (mask &&& exclusivemasks)
    · rw [if_pos (hiff.2 hex)]
      refine ⟨st, BadAccess, rfl, ?_⟩
      exact h
    rw [if_neg (fun hc => hex (hiff.1 hc))]
    have hshared := hshared.resolve_left hex
    cases hfind : m.inputClients.find? fun others => others.resource.client = client with
    | none =>
      refine hadd fun m' hm' => ?_
      rw [hm] at hm'
      cases hm'
      simpa using hfind
    | some others =>
      dsimp only
      have hmem := mem_of_find?_eq_some hfind
      obtain rfl : others.resource.client = client := by simpa using List.find?_some hfind
      have hclient : ∀ c i, sel.select pWin others.resource.client dev.id mask pWin c i =
          clientMask (updateClient others.resource.client (InputClients.setMask dev.id mask)
            m.inputClients) c i := by
        intro c i
        rw [clientMask_updateClient (InputClients.setMask dev.id mask) (fun _ => rfl) hfind]
        unfold Selected.select InputClients.setMask
        by_cases hc : c = others.resource.client
        · rw [if_pos hc]
          dsimp only
          rcases eq_or_ne i dev.id with rfl | hi
          · rw [if_pos ⟨rfl, hc, rfl⟩, update_self]
          · rw [if_neg (fun h => hi h.2.2), update_of_ne hi, hrec, hc, clientMask_mem hone hmem]
        · rw [if_neg hc, if_neg (fun h => hc h.2.1), hrec]
      have hpend : Pending pWin (setMasks pWin (some { m with
          inputClients := updateClient others.resource.client (InputClients.setMask dev.id mask)
            m.inputClients }) st)
          (sel.select pWin others.resource.client dev.id mask) := by
        refine h.replace hm (oneEach_updateClient (InputClients.setMask dev.id mask) (fun _ => rfl) hone)
          hclient ?_ ?_ rfl
        · intro w hne
          funext c i
          exact if_neg fun h => hne h.1
        · intro i b c hb
          unfold Selected.select
          by_cases hc : c = others.resource.client ∧ i = dev.id
          · obtain ⟨rfl, rfl⟩ := hc
            rcases hshared b hb with hmask | ⟨c, hne, hc⟩
            · exact ⟨others.resource.client, by rwa [if_pos ⟨rfl, rfl, rfl⟩]⟩
            · exact ⟨c, by rwa [if_neg fun h => hne h.2.1]⟩
          · exact ⟨c, by rwa [if_neg fun h => hc h.2]⟩
      split
      · -- the client has nothing left on record
        obtain ⟨hsel, hsame⟩ := recalculate_selecting hw hpend
        split
        · rename_i hfree
          obtain ⟨m', hm', hclients⟩ := hsame.exists_masks (update_self ..)
          have hmem' := mem_updateClient (InputClients.setMask dev.id mask) hfind
          dsimp only at hclients
          rw [hm', any_some] at hfree
          rw [← hclients] at hmem'
          obtain ⟨st', hrun, hsel'⟩ := freed_spec hw hsel hm' hmem' hfree
          have hrun : inputClientGone tree pWin others.resource _ = some st' := hrun
          refine ⟨st', Success, ?_, by rwa [if_pos rfl]⟩
          rw [hrun]
          rfl
        · exact ⟨_, Success, rfl, by rwa [if_pos rfl]⟩
      · refine ⟨_, Success, rfl, ?_⟩
        exact maskSet_selecting hw hpend dev mask _

/-- A record without events is added. -/
theorem select_zero (h : Selecting st sel)
    (hnone : ∀ m, st.masks pWin = some m → ∀ o ∈ m.inputClients, o.resource.client ≠ client) (i : DeviceId) :
    sel.select pWin client i 0 = sel := by
  funext w c j
  unfold Selected.select
  split
  · rename_i hc
    obtain ⟨rfl, rfl, rfl⟩ := hc
    rw [h.agrees, recorded]
    cases hm : st.masks w with
    | none => rfl
    | some m => exact (clientMask_absent (hnone m hm)).symm
  · rfl

/-- `AddExtensionClient` without events, with what the caller goes on with. -/
theorem addEmpty_spec (h : Selecting st sel)
    (hnone : ∀ m, st.masks pWin = some m → ∀ o ∈ m.inputClients, o.resource.client ≠ client)
    (hres : a.resource = true) :
    ∃ st' ret, addExtensionClient pWin client 0 0 a st = some (st', ret) ∧
      (ret ≠ Success ∧ Selecting st' sel ∨ ret = Success ∧ Pending pWin st' sel) := by
  obtain ⟨st', ret, hrun, ⟨hret, hsel⟩ | ⟨hret, hpend⟩⟩ := addExtensionClient_spec 0 h hnone hres 0
  · exact ⟨st', ret, hrun, .inl ⟨hret, hsel⟩⟩
  · rw [select_zero h hnone] at hpend
    exact ⟨st', ret, hrun, .inr ⟨hret, hpend⟩⟩

/-- Changes of a window's masks that leave the summary and what its clients select. -/
theorem Pending.change (h : Pending pWin st sel) (f : OtherInputMasks → OtherInputMasks)
    (hone : ∀ m, OneEach m.inputClients → OneEach (f m).inputClients)
    (hevents : ∀ m, (f m).inputEvents = m.inputEvents)
    (hmask : ∀ m c i, clientMask (f m).inputClients c i = clientMask m.inputClients c i) :
    Pending pWin (setMasks pWin ((st.masks pWin).map f) st) sel := by
  unfold setMasks
  refine ⟨?_, ?_, ?_, ?_⟩ <;> intro w <;> dsimp only
  · intro m hm
    rcases eq_or_ne w pWin with rfl | hne
    · rw [update_self, map_eq_some_iff] at hm
      obtain ⟨m', hm', rfl⟩ := hm
      exact hone m' (h.one w m' hm')
    · rw [update_of_ne hne] at hm
      exact h.one w m hm
  · intro m hm
    rcases eq_or_ne w pWin with rfl | hne
    · rw [update_self, map_eq_some_iff] at hm
      obtain ⟨m', hm', rfl⟩ := hm
      have hone' := h.one w m' hm'
      intro i b hb
      rw [hevents] at hb
      obtain ⟨c, hc⟩ := (exists_mem_iff hone').1 (h.within w m' hm' i b hb)
      exact (exists_mem_iff (hone m' hone')).2 ⟨c, by rwa [hmask]⟩
    · rw [update_of_ne hne] at hm
      exact h.within w m hm
  · intro m hne hm
    rw [update_of_ne hne] at hm
    exact h.summed w m hne hm
  · intro c i
    rw [h.agrees, recorded, recorded]
    rcases eq_or_ne w pWin with rfl | hne
    · rw [update_self]
      cases st.masks w with
      | none => rfl
      | some m => exact (hmask m c i).symm
    · rw [update_of_ne hne]

/-- What `deviceEventSuppressForWindow` does with the masks of the window there. -/
def suppress (tree : WindowTree) (pWin : WindowId) (maskndx : DeviceId) (mask : Mask) (st : InputState) : Option (InputState × Status) :=
  let st := setMasks pWin ((st.masks pWin).map fun inputMasks =>
      { inputMasks with dontPropagateMask := Function.update inputMasks.dontPropagateMask maskndx mask }) st
  let st := recalculateDeviceDeliverableEvents tree pWin st
  match st.masks pWin with
  | none => none
  | some inputMasks =>
    if shouldFreeInputMasks inputMasks false then
      match inputMasks.inputClients with
      | [] => some (st, BadImplementation)
      | others :: _ => (inputClientGone tree pWin others.resource st).map fun st => (st, Success)
    else some (st, Success)

/-- **`DeviceEventSuppressForWindow`** changes no selection. -/
theorem deviceEventSuppressForWindow_spec (hw : pWin ∈ tree.windows) (h : Selecting st sel) (client : ℕ)
    (maskndx : DeviceId) (hres : a.resource = true) (hmasks : mask ≠ 0 ∨ (st.masks pWin).isSome) :
    ∃ st' ret, deviceEventSuppressForWindow tree pWin client mask maskndx a st = some (st', ret) ∧
      Selecting st' sel := by
  unfold deviceEventSuppressForWindow
  split
  · exact ⟨_, _, rfl, h⟩
  dsimp only
  -- with the masks of the window there
  have hrest : ∀ st₁, Pending pWin st₁ sel → (st₁.masks pWin).isSome → ∃ st' ret,
      suppress tree pWin maskndx mask st₁ = some (st', ret) ∧ Selecting st' sel := by
    intro st₁ hpend hsome
    unfold suppress
    obtain ⟨m₁, hm₁⟩ := isSome_iff_exists.1 hsome
    obtain ⟨hsel, hsame⟩ := recalculate_selecting hw (hpend.change (fun inputMasks =>
      { inputMasks with dontPropagateMask := Function.update inputMasks.dontPropagateMask maskndx mask })
      (fun _ h => h) (fun _ => rfl) (fun _ _ _ => rfl))
    rw [hm₁] at hsel hsame ⊢
    obtain ⟨m', hm', -⟩ := hsame.exists_masks (update_self ..)
    dsimp only
    rw [hm']
    dsimp only
    split
    · rename_i hfree
      cases hl : m'.inputClients with
      | nil => exact ⟨_, _, rfl, hsel⟩
      | cons others rest =>
        obtain ⟨st', hrun, hsel'⟩ := freed_spec hw hsel hm' (by rw [hl]; exact mem_cons_self) hfree
        refine ⟨st', Success, ?_, hsel'⟩
        dsimp only
        rw [hrun]
        rfl
    · exact ⟨_, _, rfl, hsel⟩
  split
  · rename_i hnew
    have hnone : ∀ m, st.masks pWin = some m → ∀ o ∈ m.inputClients, o.resource.client ≠ client := by
      intro m hm
      rw [hm] at hnew
      simp at hnew
    obtain ⟨st₁, ret, hrun, ⟨hret, hsel⟩ | ⟨rfl, hpend⟩⟩ := addEmpty_spec h hnone hres
    · rw [hrun, bind_some]
      rw [if_pos hret]
      exact ⟨st₁, ret, rfl, hsel⟩
    · rw [hrun]
      exact hrest st₁ hpend (addExtensionClient_masks hrun)
  · rename_i hold
    refine hrest st (h.pending pWin) ?_
    rcases hmasks with hmask | hsome
    · by_contra hno
      exact hold ⟨hmask, by simpa using hno⟩
    · exact hsome

/-- **`XISetEventMask`** changes no selection but its own. -/
theorem xiSetEventMask_spec (hw : pWin ∈ tree.windows) (h : Selecting st sel) (dev : DeviceId)
    (client : ℕ) (mask : Option (BitVec 40)) (hres : a.resource = true) :
    ∃ st' ret, xiSetEventMask tree dev pWin client mask a st = some (st', ret) ∧ Selecting st' sel := by
  have hrest : ∀ st₁, Pending pWin st₁ sel → Selecting (recalculateDeviceDeliverableEvents tree pWin
      (setMasks pWin ((st₁.masks pWin).map fun masks =>
        { masks with
          inputClients := updateClient client (InputClients.setXi2Mask dev (mask.getD 0)) masks.inputClients })
        st₁)) sel := by
    intro st₁ hpend
    refine (recalculate_selecting hw (hpend.change (fun masks => { masks with
      inputClients := updateClient client (InputClients.setXi2Mask dev (mask.getD 0)) masks.inputClients })
      ?_ (fun _ => rfl) ?_)).1
    · intro m hone
      exact oneEach_updateClient (InputClients.setXi2Mask dev (mask.getD 0)) (fun _ => rfl) hone
    · intro m c i
      exact clientMask_updateClient_eq (InputClients.setXi2Mask dev (mask.getD 0)) (fun _ => rfl) (fun _ => rfl)
  unfold xiSetEventMask
  dsimp only
  split
  · rename_i hnew
    have hnone : ∀ m, st.masks pWin = some m → ∀ o ∈ m.inputClients, o.resource.client ≠ client := by
      intro m hm o ho heq
      refine hnew.2 ?_
      rw [hm]
      exact any_eq_true.2 ⟨o, ho, decide_eq_true heq⟩
    obtain ⟨st₁, ret, hrun, ⟨hret, hsel⟩ | ⟨rfl, hpend⟩⟩ := addEmpty_spec h hnone hres
    · rw [hrun, map_some]
      rw [if_pos hret]
      exact ⟨st₁, BadAlloc, rfl, hsel⟩
    · rw [hrun]
      exact ⟨_, _, rfl, hrest st₁ hpend⟩
  · rw [map_some]
    exact ⟨_, _, rfl, hrest st (h.pending pWin)⟩

end Select

/-! ### Runs -/

/-- The condition on a step: what a client gives up on a window, by selecting anew or by
leaving, is selected by others too, unless the masks of the window go with it. The records that
are made can be entered as resources, those of leaving clients are there, and the window has
masks where no event is to be held back. -/
inductive OpKeeps {tree : WindowTree} (st : InputState) (sel : Selected) : InputOp tree → Prop
  | select {dev : Device} {pWin : tree.Window} {client : ℕ} {mask exclusivemasks : Mask} {a : AllocAnswers}
      (hres : a.resource = true)
      (hshared : Excluded sel pWin client dev.id (mask &&& exclusivemasks) ∨
        GivesUpShared sel pWin client dev.id mask) :
      OpKeeps st sel (.select dev pWin client mask exclusivemasks a)
  | suppress {pWin : tree.Window} {client : ℕ} {mask : Mask} {maskndx : DeviceId} {a : AllocAnswers}
      (hres : a.resource = true) (hmasks : mask ≠ 0 ∨ (st.masks pWin).isSome) :
      OpKeeps st sel (.suppress pWin client mask maskndx a)
  | setEventMask {dev : DeviceId} {win : tree.Window} {client : ℕ} {mask : Option (BitVec 40)} {a : AllocAnswers}
      (hres : a.resource = true) : OpKeeps st sel (.setEventMask dev win client mask a)
  | clientGone {pWin : tree.Window} {m : OtherInputMasks} {o : InputClients} (hm : st.masks pWin = some m)
      (ho : o ∈ m.inputClients) (hleave : Leaves st sel pWin o.resource.client) :
      OpKeeps st sel (.clientGone pWin o.resource)

def KeepsSelected {tree : WindowTree} (run : SelectionRun) (op : InputOp tree) : Prop :=
  ∀ st sel, run = some (st, sel) → OpKeeps st sel op

section Runs

variable {tree : WindowTree}

theorem selectionStep_selecting (run : SelectionRun) (op : InputOp tree) (hkeep : KeepsSelected run op)
    (h : ∃ st sel, run = some (st, sel) ∧ Selecting st sel) :
    ∃ st sel, selectionStep run op = some (st, sel) ∧ Selecting st sel := by
  obtain ⟨st, sel, rfl, h⟩ := h
  cases hkeep st sel rfl with
  | select hres hshared =>
    rename_i dev pWin client mask exclusivemasks a
    obtain ⟨st', ret, hrun, hsel⟩ := selectForWindow_spec pWin.2 h dev exclusivemasks hres hshared
    refine ⟨st', _, ?_, hsel⟩
    simp only [selectionStep, bind_some, hrun, map_some]
  | suppress hres hmasks =>
    rename_i pWin client mask maskndx a
    obtain ⟨st', ret, hrun, hsel⟩ := deviceEventSuppressForWindow_spec pWin.2 h client maskndx
      hres hmasks
    refine ⟨st', sel, ?_, hsel⟩
    simp only [selectionStep, bind_some, hrun, map_some]
  | setEventMask hres =>
    rename_i dev win client mask a
    obtain ⟨st', ret, hrun, hsel⟩ := xiSetEventMask_spec win.2 h dev client mask hres
    refine ⟨st', sel, ?_, hsel⟩
    simp only [selectionStep, bind_some, hrun, map_some]
  | clientGone hm ho hleave =>
    rename_i pWin m o
    obtain ⟨st', hrun, hsel⟩ := inputClientGone_spec pWin.2 h hm ho hleave
    refine ⟨st', _, ?_, hsel⟩
    simp only [selectionStep, bind_some, hrun, map_some]

theorem noSelection_selecting : ∃ st sel, noSelection = some (st, sel) ∧ Selecting st sel := by
  refine ⟨_, _, rfl, ?_, ?_, ?_⟩
  · intro w m hm
    simp at hm
  · intro w m hm
    simp at hm
  · intro w c i
    rfl

/-- **The summary of the selected events**, over every run whose steps keep what is selected:
for each window with masks and each device it is the union of what the clients select, and
`SelectForWindow` refuses exactly those whom another client excludes. -/
theorem selection_union {ops : List (InputOp tree)} (hops : AllSteps selectionStep KeepsSelected noSelection ops) :
    ∃ st sel, run selectionStep noSelection ops = some (st, sel) ∧
      (∀ w m, st.masks w = some m → ∀ i b,
        (m.inputEvents i).getLsbD b = true ↔ ∃ c, (sel w c i).getLsbD b = true) ∧
      ∀ (dev : Device) (pWin : tree.Window) client mask exclusivemasks a,
        (∃ st', selectForWindow tree dev pWin client mask exclusivemasks a st = some (st', BadAccess)) ↔
          ∃ c ≠ client, mask &&& exclusivemasks &&& sel pWin c dev.id ≠ 0 := by
  obtain ⟨st, sel, hrun, h⟩ := hops.invariant
    (P := fun run => ∃ st sel, run = some (st, sel) ∧ Selecting st sel) selectionStep_selecting
    noSelection_selecting
  refine ⟨st, sel, hrun, fun w m hm => h.inputEvents_iff hm, ?_⟩
  intro dev pWin client mask exclusivemasks a
  exact selectForWindow_access h dev exclusivemasks

end Runs

/-! ### An event given up by its only client -/

/-- A root window without children. -/
def oneWindow : WindowTree := .node 0 []

def rootWindow : oneWindow.Window := ⟨0, by simp [oneWindow, WindowTree.windows, WindowTree.preorder]⟩

def plainDevice : Device := ⟨2, false, false⟩

def enoughMemory : AllocAnswers := ⟨true, true, true, true, true⟩

theorem walk_oneWindow : oneWindow.walk 0 = [(0, [])] := by
  simp [oneWindow, WindowTree.walk, WindowTree.preorder, preorderAll]

/-- **An event given up by its only client** stays in the summary. -/
theorem selection_stays : ∃ st sel m, run selectionStep noSelection
    [.select plainDevice rootWindow 1 1 0 enoughMemory,
      .select plainDevice rootWindow 1 0 0 enoughMemory] = some (st, sel) ∧
    st.masks 0 = some m ∧ m.inputEvents 2 = 1 ∧ ∀ c, sel 0 c 2 = 0 := by
  -- the event is selected
  obtain ⟨st, sel, m, hrun, hm, hclients, hevents, hsel⟩ : ∃ st sel m,
      selectionStep noSelection (.select plainDevice rootWindow 1 1 0 enoughMemory) = some (st, sel) ∧
      st.masks 0 = some m ∧
      m.inputClients = [⟨⟨1, 0⟩, Function.update (fun _ => 0) 2 1, fun _ => 0⟩] ∧ m.inputEvents 2 = 1 ∧
      ∀ c, c ≠ 1 → sel 0 c 2 = 0 := by
    refine ⟨_, _, _, rfl, rfl, rfl, rfl, ?_⟩
    intro c hc
    exact if_neg fun h => hc h.2.1
  -- its record has no other events
  have hnothing : ∀ i : DeviceId, i ≠ 2 → Function.update (fun _ => (0 : Mask)) 2 1 i = 0 := by
    intro i hi
    rw [update_of_ne hi]
  have hselect : ∃ st' m', selectForWindow oneWindow plainDevice 0 1 0 0 enoughMemory st = some (st', Success) ∧
      st'.masks 0 = some m' ∧ m'.inputEvents 2 = 1 := by
    unfold selectForWindow
    rw [hm]
    dsimp only
    rw [hclients, if_neg (by simp)]
    dsimp only [List.find?]
    rw [decide_eq_true rfl]
    dsimp only
    rw [if_pos ⟨rfl, hnothing⟩]
    obtain ⟨st₁, hst₁, m', hm', hevents'⟩ : ∃ st₁, st₁ = recalculateDeviceDeliverableEvents oneWindow 0
        (setMasks 0 (some { m with
          inputClients := updateClient 1 (InputClients.setMask plainDevice.id 0)
            [⟨⟨1, 0⟩, Function.update (fun _ => 0) 2 1, fun _ => 0⟩] }) st) ∧
        ∃ m', st₁.masks 0 = some m' ∧ m'.inputEvents 2 = 1 := by
      refine ⟨_, rfl, ?_⟩
      exact ⟨_, rfl, by simp [updateClient, InputClients.setMask, hevents, plainDevice]⟩
    rw [← hst₁, hm', any_some, if_neg]
    · exact ⟨st₁, m', rfl, hm', hevents'⟩
    · intro hfree
      have := ((of_decide_eq_true hfree) 2).2 rfl
      rw [hevents'] at this
      simp at this
  obtain ⟨st', m', hrun', hm', hevents'⟩ := hselect
  refine ⟨st', sel.select 0 1 2 0, m', ?_, hm', hevents', ?_⟩
  · rw [run_cons, run_cons, hrun]
    unfold selectionStep
    rw [bind_some]
    dsimp only
    rw [show selectForWindow oneWindow plainDevice rootWindow 1 0 0 enoughMemory st = some (st', Success) from hrun']
    rfl
  · intro c
    unfold Selected.select
    by_cases hc : c = 1
    · rw [if_pos ⟨rfl, hc, rfl⟩]
    · rw [if_neg fun h => hc h.2.1]
      exact hsel c hc

/-- A client selects an event. -/
theorem selection_union_one :
    ∃ st sel, run selectionStep noSelection [.select plainDevice rootWindow 1 1 0 enoughMemory] = some (st, sel) ∧
      (∀ w m, st.masks w = some m → ∀ i b,
        (m.inputEvents i).getLsbD b = true ↔ ∃ c, (sel w c i).getLsbD b = true) ∧
      ∀ (dev : Device) (pWin : oneWindow.Window) client mask exclusivemasks a,
        (∃ st', selectForWindow oneWindow dev pWin client mask exclusivemasks a st = some (st', BadAccess)) ↔
          ∃ c ≠ client, mask &&& exclusivemasks &&& sel pWin c dev.id ≠ 0 := by
  refine selection_union ⟨?_, trivial⟩
  intro st sel hstart
  cases hstart
  refine .select rfl (.inr fun b hb => ?_)
  simp at hb

end Xenia.Xi
