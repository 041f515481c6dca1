import Xenia.Dix.Touch
import Mathlib.Data.List.GetD

/-!
# What the touch points hold

`Copies.Sound` says of every copy of a grab that it was either freed, once, or is with exactly
one listener of the touch point it was made for. Each step keeps this, and `num_grabs`, and
writes within the array of listeners (`touchStep_book`), where it meets the condition `StepOk`:
`touch_bookkeeping` is about runs.
-/

namespace Xenia.Dix

open Xenia.Lib List Function Option

/-! ### Copies of grabs -/

/-- `held` are the copies that the listeners of each touch point have. -/
structure Copies.Sound (held : ℕ → List ℕ) (copies : Copies) : Prop where
  once : ∀ c i, copies.made[c]? = some i → copies.freed.count c + (held i).count c = 1
  made : ∀ i, ∀ c ∈ held i, copies.made[c]? = some i
  freed : ∀ c ∈ copies.freed, c < copies.made.length

section Copies

variable {held : ℕ → List ℕ} {copies : Copies} {index : ℕ} {l : List ℕ}

theorem Copies.Sound.held_lt (h : copies.Sound held) {i : ℕ} {c : ℕ} (hc : c ∈ held i) : c < copies.made.length := by
  have hmade := h.made i c hc
  by_contra hge
  rw [getElem?_eq_none (by omega)] at hmade
  nomatch hmade

theorem Copies.Sound.of_perm {l' : List ℕ} (h : copies.Sound (update held index l)) (hl : l.Perm l') :
    copies.Sound (update held index l') := by
  have hcount : ∀ i c, (update held index l' i).count c = (update held index l i).count c := by
    intro i c
    by_cases hi : i = index
    · subst hi
      rw [update_self, update_self, hl.count_eq]
    · rw [update_of_ne hi, update_of_ne hi]
  refine ⟨fun c i hc => ?_, fun i c hc => ?_, h.freed⟩
  · rw [hcount]
    exact h.once c i hc
  · refine h.made i c ?_
    rw [← count_pos_iff, ← hcount, count_pos_iff]
    exact hc

variable (index) in
/-- A new copy goes to a listener. -/
theorem Copies.Sound.alloc (h : copies.Sound held) (hl : l.Perm (copies.made.length :: held index)) :
    (copies.allocGrab index true).1.Sound (update held index l) := by
  have hnew : ∀ i, (held i).count copies.made.length = 0 := by
    intro i
    refine count_eq_zero.2 fun hmem => ?_
    have := h.held_lt hmem
    omega
  have hfreed : copies.freed.count copies.made.length = 0 := by
    refine count_eq_zero.2 fun hmem => ?_
    have := h.freed _ hmem
    omega
  unfold Copies.allocGrab
  rw [if_pos rfl]
  refine ⟨?_, ?_, ?_⟩
  · intro c i hc
    by_cases hlt : c < copies.made.length
    · rw [getElem?_append_left hlt] at hc
      have honce := h.once c i hc
      by_cases hi : i = index
      · subst hi
        rw [update_self, hl.count_eq, count_cons_of_ne (by omega)]
        exact honce
      · rw [update_of_ne hi]
        exact honce
    · rw [getElem?_append_right (by omega)] at hc
      obtain ⟨hzero, hval⟩ := List.getElem?_eq_some_iff.1 hc
      have hceq : c = copies.made.length := by
        rw [length_singleton] at hzero
        omega
      subst hceq
      have hi : index = i := by simpa using hval
      subst hi
      rw [update_self, hl.count_eq, count_cons_self, hnew, hfreed]
  · intro i c hc
    by_cases hi : i = index
    · subst hi
      rw [update_self] at hc
      rcases mem_cons.1 (hl.mem_iff.1 hc) with rfl | hc
      · rw [getElem?_append_right (le_refl _)]
        simp
      · rw [getElem?_append_left (h.held_lt hc)]
        exact h.made _ c hc
    · rw [update_of_ne hi] at hc
      rw [getElem?_append_left (h.held_lt hc)]
      exact h.made i c hc
  · intro c hc
    have := h.freed c hc
    rw [length_append]
    omega

variable (index) in
/-- The copy of a listener is freed. -/
theorem Copies.Sound.free (h : copies.Sound held) {g : ℕ} (hl : (held index).Perm (g :: l)) :
    (copies.freeGrab (some g)).Sound (update held index l) := by
  have hg : copies.made[g]? = some index := h.made index g (hl.mem_iff.2 mem_cons_self)
  unfold Copies.freeGrab
  refine ⟨?_, ?_, ?_⟩
  · intro c i hc
    have honce := h.once c i hc
    rw [count_append]
    by_cases hi : i = index
    · subst hi
      rw [hl.count_eq] at honce
      rw [update_self]
      by_cases hcg : c = g
      · subst hcg
        rw [count_cons_self] at honce
        rw [count_singleton_self]
        omega
      · rw [count_cons_of_ne (Ne.symm hcg)] at honce
        rw [count_singleton, if_neg (by simpa using Ne.symm hcg)]
        omega
    · have hcg : g ≠ c := by
        rintro rfl
        rw [hg] at hc
        exact hi (some.inj hc).symm
      rw [update_of_ne hi, count_singleton, if_neg (by simpa using hcg)]
      exact honce
  · intro i c hc
    by_cases hi : i = index
    · subst hi
      rw [update_self] at hc
      exact h.made _ c (hl.mem_iff.2 (mem_cons_of_mem _ hc))
    · rw [update_of_ne hi] at hc
      exact h.made i c hc
  · intro c hc
    rcases mem_append.1 hc with hc | hc
    · exact h.freed c hc
    · rw [mem_singleton.1 hc]
      exact h.held_lt (hl.mem_iff.2 mem_cons_self)

end Copies

/-! ### The array of listeners -/

/-- The listeners there are. -/
def TouchPoint.entries (ti : TouchPoint) : List TouchListener := (ti.listeners.getD []).take ti.numListeners

/-- The copies they have. -/
def TouchPoint.held (ti : TouchPoint) : List ℕ := ti.entries.filterMap fun l => l.grab

structure TouchPoint.Ok (ti : TouchPoint) : Prop where
  fits : ti.numListeners ≤ (ti.listeners.getD []).length
  grabs : ti.numGrabs = ti.held.length
  inactive : ti.active = false → ti.numListeners = 0
  valuators : ti.valuators = true

/-- A touch point that is worked on; `held` is about the others too. -/
structure SlotOk (held : ℕ → List ℕ) (index : ℕ) (s : TouchSlot) : Prop where
  touch : s.ti.Ok
  copies : s.copies.Sound (Function.update held index s.ti.held)

section Listeners

variable {held : ℕ → List ℕ} {index : ℕ} {s : TouchSlot}

theorem entries_length {ti : TouchPoint} (h : ti.Ok) : ti.entries.length = ti.numListeners := by
  unfold TouchPoint.entries
  rw [length_take, min_eq_left h.fits]

/-- The entries from `i` on move down. -/
theorem getElem?_shiftDown (count : ℕ) : ∀ (block : List TouchListener) (i k : ℕ), i + count < block.length →
    (shiftDown block i count)[k]? = if i ≤ k ∧ k < i + count then block[k + 1]? else block[k]? := by
  induction count with
  | zero =>
    intro block i k _
    unfold shiftDown
    rw [if_neg (by omega)]
  | succ count ih =>
    intro block i k hlt
    unfold shiftDown
    rw [ih _ _ _ (by rw [length_set]; omega)]
    by_cases hki : k = i
    · subst hki
      rw [if_neg (show ¬(k + 1 ≤ k ∧ k < k + 1 + count) by omega), if_pos (show k ≤ k ∧ k < k + (count + 1) by omega),
        getElem?_set_self (show k < block.length by omega), getD_eq_getElem?_getD,
        getElem?_eq_getElem (show k + 1 < block.length by omega)]
      rfl
    · by_cases hin : i + 1 ≤ k ∧ k < i + 1 + count
      · rw [if_pos hin, if_pos (by omega), getElem?_set_ne (show i ≠ k + 1 by omega)]
      · rw [if_neg hin, if_neg (by omega), getElem?_set_ne (Ne.symm hki)]

theorem length_shiftDown (count : ℕ) : ∀ (block : List TouchListener) (i : ℕ), (shiftDown block i count).length =
    block.length := by
  induction count with
  | zero => exact fun _ _ => rfl
  | succ count ih =>
    intro block i
    unfold shiftDown
    rw [ih, length_set]

/-- Moving down the entries after the `i`-th one takes it out. -/
theorem take_shiftDown {block : List TouchListener} {n i : ℕ} (hn : n ≤ block.length) (hi : i < n) (last : TouchListener) :
    ((shiftDown block i (n - 1 - i)).set (n - 1) last).take (n - 1) = (block.take n).eraseIdx i := by
  refine ext_getElem? fun k => ?_
  rw [getElem?_eraseIdx]
  by_cases hk : k < n - 1
  · rw [getElem?_take_of_lt hk, getElem?_set_ne (by omega), getElem?_shiftDown _ _ _ _ (by omega)]
    by_cases hki : k < i
    · rw [if_neg (by omega), if_pos hki, getElem?_take_of_lt (by omega)]
    · rw [if_pos (by omega), if_neg hki, getElem?_take_of_lt (by omega)]
  · rw [getElem?_eq_none (by rw [length_take]; omega)]
    split
    · omega
    · rw [getElem?_eq_none (by rw [length_take]; omega)]

/-- What stays the same when listeners are added, at most `k` of them. -/
structure Grown (k : ℕ) (s s' : TouchSlot) : Prop where
  count : s'.ti.numListeners ≤ s.ti.numListeners + k
  room : (s'.ti.listeners.getD []).length = (s.ti.listeners.getD []).length
  active : s'.ti.active = s.ti.active
  trace : s'.ti.spriteTrace = s.ti.spriteTrace
  emulate : s'.ti.emulatePointer = s.ti.emulatePointer

theorem Grown.refl (s : TouchSlot) : Grown 0 s s := ⟨le_refl _, rfl, rfl, rfl, rfl⟩

theorem Grown.trans {j k : ℕ} {s s' s'' : TouchSlot} (h : Grown j s s') (h' : Grown k s' s'') : Grown (j + k) s s'' :=
  ⟨by have := h.count; have := h'.count; omega, h'.room.trans h.room, h'.active.trans h.active, h'.trace.trans h.trace,
    h'.emulate.trans h.emulate⟩

theorem Grown.mono {j k : ℕ} {s s' : TouchSlot} (h : Grown j s s') (hle : j ≤ k) : Grown k s s' :=
  ⟨by have := h.count; omega, h.room, h.active, h.trace, h.emulate⟩

section

variable (h : SlotOk held index s)
include h

/-- **A listener is added** after the others, where there is room. -/
theorem touchAddListener_spec (hactive : s.ti.active = true)
    (hroom : s.ti.numListeners < (s.ti.listeners.getD []).length) (l : TouchListener) (grab : Option TouchGrab) :
    ∃ s', touchAddListener index l grab true s = .ok s' ∧ SlotOk held index s' ∧ Grown 1 s s' := by
  have hentries : ∀ l' : TouchListener, ((s.ti.listeners.getD []).set s.ti.numListeners l').take (s.ti.numListeners + 1) =
      s.ti.entries ++ [l'] := by
    intro l'
    unfold TouchPoint.entries
    rw [take_set, take_succ_eq_append_getElem hroom, set_append_right _ _ (by simp)]
    simp [min_eq_left (le_of_lt hroom)]
  have hgrabs := h.touch.grabs
  cases grab with
  | none =>
    have hheld : ∀ ti' : TouchPoint,
        ti'.listeners = some ((s.ti.listeners.getD []).set s.ti.numListeners { l with grab := none }) →
          ti'.numListeners = s.ti.numListeners + 1 → ti'.held = s.ti.held := by
      intro ti' hl' hn'
      unfold TouchPoint.held TouchPoint.entries
      rw [hl', hn', getD_some, hentries]
      simp [TouchPoint.entries]
    refine ⟨_, if_pos hroom, ⟨⟨?_, ?_, ?_, h.touch.valuators⟩, ?_⟩, ⟨le_refl _, ?_, rfl, rfl, rfl⟩⟩
    · simp
      omega
    · rw [hheld]
      · exact hgrabs
      · rfl
      · rfl
    · simp [hactive]
    · rw [hheld]
      · exact h.copies
      · rfl
      · rfl
    · simp
  | some grab =>
    have hheld : ∀ ti' : TouchPoint,
        ti'.listeners = some ((s.ti.listeners.getD []).set s.ti.numListeners
          { l with grab := some s.copies.made.length }) →
          ti'.numListeners = s.ti.numListeners + 1 → ti'.held = s.ti.held ++ [s.copies.made.length] := by
      intro ti' hl' hn'
      unfold TouchPoint.held TouchPoint.entries
      rw [hl', hn', getD_some, hentries]
      simp [TouchPoint.entries]
    refine ⟨_, if_pos hroom, ⟨⟨?_, ?_, ?_, h.touch.valuators⟩, ?_⟩, ⟨le_refl _, ?_, rfl, rfl, rfl⟩⟩
    · simp
      omega
    · rw [hheld, length_append]
      · dsimp only
        rw [hgrabs]
        rfl
      · rfl
      · rfl
    · simp [hactive]
    · rw [hheld]
      · have halloc := h.copies.alloc index (l := s.ti.held ++ [s.copies.made.length]) (by
          rw [update_self]
          exact perm_append_singleton _ _)
        rw [update_idem] at halloc
        exact halloc
      · rfl
      · rfl
    · simp

/-- **A listener is removed**, and its copy freed. -/
theorem touchRemoveListener_spec (resource : XID) :
    ∃ s' b, touchRemoveListener resource s = .ok (s', b) ∧ SlotOk held index s' ∧
      s'.ti.entries = match findListener s.ti.entries resource with
        | none => s.ti.entries
        | some i => s.ti.entries.eraseIdx i := by
  unfold touchRemoveListener
  rw [if_neg (not_lt.2 h.touch.fits)]
  have hfind : findListener ((s.ti.listeners.getD []).take s.ti.numListeners) resource =
      findListener s.ti.entries resource := rfl
  rw [hfind]
  cases hf : findListener s.ti.entries resource with
  | none => exact ⟨s, false, rfl, h, rfl⟩
  | some i =>
    have hi : i < s.ti.entries.length := (findIdx?_eq_some_iff_findIdx_eq.1 hf).1
    have hin : i < s.ti.numListeners := by rwa [entries_length h.touch] at hi
    have hlen := h.touch.fits
    have hget : (s.ti.listeners.getD []).getD i .zero = s.ti.entries[i] := by
      rw [getD_eq_getElem _ _ (show i < (s.ti.listeners.getD []).length by omega)]
      exact getElem_take.symm
    -- what is left in the array
    obtain ⟨ti', hti'⟩ : ∃ ti' : TouchPoint, ti' = { s.ti with
        listeners := some (((shiftDown (s.ti.listeners.getD []) i (s.ti.numListeners - 1 - i))).set
          (s.ti.numListeners - 1) { ((shiftDown (s.ti.listeners.getD []) i (s.ti.numListeners - 1 - i)).getD
            (s.ti.numListeners - 1) .zero) with listener := 0, state := .awaitingBegin })
        numGrabs := if s.ti.entries[i].grab.isSome then s.ti.numGrabs - 1 else s.ti.numGrabs
        numListeners := s.ti.numListeners - 1 } := ⟨_, rfl⟩
    have hentries : ti'.entries = s.ti.entries.eraseIdx i := by
      rw [hti']
      exact take_shiftDown hlen hin _
    have hperm : (s.ti.entries[i] :: ti'.entries).Perm s.ti.entries := by
      rw [hentries]
      exact getElem_cons_eraseIdx_perm hi
    have hfits : ti'.numListeners ≤ (ti'.listeners.getD []).length := by
      rw [hti']
      dsimp only
      rw [getD_some, length_set, length_shiftDown]
      omega
    have hinactive : ti'.active = false → ti'.numListeners = 0 := by
      intro hno
      rw [hti'] at hno
      have := h.touch.inactive hno
      omega
    have hvaluators : ti'.valuators = true := by
      rw [hti']
      exact h.touch.valuators
    have hheld := hperm.filterMap fun l => l.grab
    have hgrabs := h.touch.grabs
    dsimp only
    rw [hget]
    refine ⟨⟨ti', s.copies.freeGrab s.ti.entries[i].grab⟩, true, by rw [hti'], ⟨⟨hfits, ?_, hinactive, hvaluators⟩, ?_⟩,
      hentries⟩
    · cases hg : s.ti.entries[i].grab with
      | none =>
        rw [filterMap_cons_none hg] at hheld
        have hlength := hheld.length_eq
        unfold TouchPoint.held at hgrabs ⊢
        rw [hlength, ← hgrabs, hti']
        rw [hg]
        rfl
      | some g =>
        rw [filterMap_cons_some hg] at hheld
        have hlength := hheld.length_eq
        rw [length_cons] at hlength
        have hnum : ti'.numGrabs = s.ti.numGrabs - 1 := by
          rw [hti']
          rw [hg]
          rfl
        have hlast : ti'.numGrabs = ti'.held.length := by
          unfold TouchPoint.held at hgrabs ⊢
          rw [hnum, hgrabs, ← hlength]
          push_cast
          ring
        exact hlast
    · cases hg : s.ti.entries[i].grab with
      | none =>
        rw [filterMap_cons_none hg] at hheld
        exact h.copies.of_perm hheld.symm
      | some g =>
        rw [filterMap_cons_some hg] at hheld
        have hfree := h.copies.free index (l := ti'.held) (g := g) (by
          rw [update_self]
          exact hheld.symm)
        rw [update_idem] at hfree
        exact hfree

/-! ### Setting up the listeners -/

theorem touchEventHistoryAllocate_spec (env : SetupEnv) :
    SlotOk held index (touchEventHistoryAllocate env s) ∧ Grown 0 s (touchEventHistoryAllocate env s) :=
  ⟨⟨⟨h.touch.fits, h.touch.grabs, h.touch.inactive, h.touch.valuators⟩, h.copies⟩, le_refl _, rfl, rfl, rfl, rfl⟩

theorem addListener_of_history (hactive : s.ti.active = true)
    (hroom : s.ti.numListeners < (s.ti.listeners.getD []).length) (ownership : Prop) [Decidable ownership]
    (env : SetupEnv) (l : TouchListener) (grab : Option TouchGrab) :
    ∃ s', touchAddListener index l grab true (if ownership then s else touchEventHistoryAllocate env s) = .ok s' ∧
      SlotOk held index s' ∧ Grown 1 s s' := by
  split
  · exact touchAddListener_spec h hactive hroom l grab
  · obtain ⟨hok, hgrown⟩ := touchEventHistoryAllocate_spec h env
    obtain ⟨s', hrun, hok', hgrown'⟩ := touchAddListener_spec hok hactive hroom l grab
    exact ⟨s', hrun, hok', (hgrown.trans hgrown').mono (by omega)⟩

end

variable {env : SetupEnv}

theorem touchAddGrabListener_spec (hmem : ∀ k, env.memory k = true) (h : SlotOk held index s)
    (hactive : s.ti.active = true) (hroom : s.ti.numListeners < (s.ti.listeners.getD []).length) (grab : TouchGrab) :
    ∃ s', touchAddGrabListener index env grab s = .ok s' ∧ SlotOk held index s' ∧ Grown 1 s s' := by
  unfold touchAddGrabListener
  dsimp only
  rw [hmem]
  exact addListener_of_history h hactive hroom _ env _ (some grab)

/-- The grabs on the windows down to the one the touch is in: one listener for each at most. -/
theorem addPassiveGrabs_spec (hmem : ∀ k, env.memory k = true) : ∀ (trace : List ℕ) (s : TouchSlot),
    SlotOk held index s → s.ti.active = true →
      s.ti.numListeners + trace.length ≤ (s.ti.listeners.getD []).length →
      ∃ s', addPassiveGrabs index env trace s = .ok s' ∧ SlotOk held index s' ∧ Grown trace.length s s' := by
  intro trace
  induction trace with
  | nil => exact fun s h _ _ => ⟨s, rfl, h, .refl s⟩
  | cons win rest ih =>
    intro s h hactive hroom
    rw [length_cons] at hroom
    obtain ⟨s₁, hrun, hok, hgrown⟩ : ∃ s₁, touchAddPassiveGrabListener index env win s = .ok s₁ ∧
        SlotOk held index s₁ ∧ Grown 1 s s₁ := by
      unfold touchAddPassiveGrabListener
      split
      · exact ⟨s, rfl, h, (Grown.refl s).mono (by omega)⟩
      · exact touchAddGrabListener_spec hmem h hactive (by omega) _
    obtain ⟨s', hrun', hok', hgrown'⟩ := ih s₁ hok (hgrown.active.trans hactive)
      (by have := hgrown.count; have := hgrown.room; omega)
    unfold addPassiveGrabs
    rw [hrun]
    refine ⟨s', hrun', hok', (hgrown.trans hgrown').mono ?_⟩
    rw [length_cons]
    omega

variable (env) in
/-- The event selections, from the deepest window up: one listener at most. -/
theorem addRegular_spec : ∀ (trace : List ℕ) (s : TouchSlot), SlotOk held index s → s.ti.active = true →
    s.ti.numListeners + 1 ≤ (s.ti.listeners.getD []).length →
    ∃ s', addRegular index env trace s = .ok s' ∧ SlotOk held index s' ∧ Grown 1 s s' := by
  intro trace
  induction trace with
  | nil => exact fun s h _ _ => ⟨s, rfl, h, (Grown.refl s).mono (by omega)⟩
  | cons win rest ih =>
    intro s h hactive hroom
    unfold addRegular touchAddRegularListener
    cases hl : regularListener env s.ti.emulatePointer win with
    | none => exact ih s h hactive hroom
    | some found =>
      obtain ⟨s', hrun, hok, hgrown⟩ := addListener_of_history h hactive (by omega) (found.2 = true) env found.1 none
      dsimp only
      rw [hrun]
      exact ⟨s', rfl, hok, hgrown⟩

/-- **The array is large enough**: one listener for an active grab, one for each window, and one
for an event selection. -/
theorem touchSetupListeners_spec (hmem : ∀ k, env.memory k = true) (h : SlotOk held index s)
    (hactive : s.ti.active = true) {touchBegin : Bool}
    (hroom : s.ti.numListeners + s.ti.spriteTrace.length + 2 ≤ (s.ti.listeners.getD []).length) :
    ∃ s', touchSetupListeners index env touchBegin s = .ok s' ∧ SlotOk held index s' := by
  obtain ⟨s₁, hrun, hok, hgrown⟩ : ∃ s₁, addActiveGrab index env s = .ok s₁ ∧ SlotOk held index s₁ ∧ Grown 1 s s₁ := by
    unfold addActiveGrab
    split
    · exact ⟨s, rfl, h, (Grown.refl s).mono (by omega)⟩
    · unfold touchAddActiveGrabListener
      split
      · exact ⟨s, rfl, h, (Grown.refl s).mono (by omega)⟩
      split
      · exact ⟨s, rfl, h, (Grown.refl s).mono (by omega)⟩
      · exact touchAddGrabListener_spec hmem h hactive (by omega) _
  unfold touchSetupListeners
  rw [hrun, ok_bind]
  cases touchBegin with
  | false => exact ⟨s₁, rfl, hok⟩
  | true =>
    have hcount := hgrown.count
    have hroom₁ := hgrown.room
    have htrace := hgrown.trace
    obtain ⟨s₂, hrun₂, hok₂, hgrown₂⟩ := addPassiveGrabs_spec hmem s₁.ti.spriteTrace s₁ hok (hgrown.active.trans hactive)
      (by rw [htrace]; omega)
    have hcount₂ := hgrown₂.count
    have hroom₂ := hgrown₂.room
    rw [htrace] at hcount₂
    obtain ⟨s₃, hrun₃, hok₃, -⟩ := addRegular_spec env s₁.ti.spriteTrace.reverse s₂ hok₂
      (hgrown₂.active.trans (hgrown.active.trans hactive)) (by omega)
    rw [hrun₂]
    exact ⟨s₃, hrun₃, hok₃⟩

/-! ### The end of a touch -/

/-- The loop removes the first half of the listeners. -/
theorem removeFirst_spec (rounds : ℕ) : ∀ (i : ℕ) (s : TouchSlot), SlotOk held index s →
    s.ti.numListeners ≤ i + rounds →
    ∃ s', removeFirst rounds i s = .ok s' ∧ SlotOk held index s' ∧
      s'.ti.entries = s.ti.entries.drop ((s.ti.numListeners - i + 1) / 2) := by
  induction rounds with
  | zero =>
    intro i s h hle
    refine ⟨s, rfl, h, ?_⟩
    rw [show (s.ti.numListeners - i + 1) / 2 = 0 by omega]
    rfl
  | succ rounds ih =>
    intro i s h hle
    unfold removeFirst
    split
    · rename_i hlt
      have hlen := entries_length h.touch
      have hfirst : findListener s.ti.entries (((s.ti.listeners.getD []).getD 0 .zero).listener) = some 0 := by
        have hfits := h.touch.fits
        have hget : (s.ti.listeners.getD []).getD 0 .zero = s.ti.entries[0] := by
          rw [getD_eq_getElem _ _ (show 0 < (s.ti.listeners.getD []).length by omega)]
          exact getElem_take.symm
        rw [hget]
        unfold findListener
        rw [findIdx?_eq_some_iff_getElem]
        exact ⟨by omega, decide_eq_true rfl, fun j hj => absurd hj (Nat.not_lt_zero j)⟩
      obtain ⟨s₁, b, hrun, hok, hentries⟩ := touchRemoveListener_spec h
        (((s.ti.listeners.getD []).getD 0 .zero).listener)
      rw [hfirst] at hentries
      dsimp only at hentries
      rw [eraseIdx_zero] at hentries
      have hcount : s₁.ti.numListeners = s.ti.numListeners - 1 := by
        rw [← entries_length hok.touch, hentries, length_tail, hlen]
      obtain ⟨s', hrun', hok', hentries'⟩ := ih (i + 1) s₁ hok (by omega)
      rw [hrun]
      refine ⟨s', hrun', hok', ?_⟩
      rw [hentries', hentries, ← drop_one, drop_drop]
      congr 1
      omega
    · refine ⟨s, rfl, h, ?_⟩
      rw [show (s.ti.numListeners - i + 1) / 2 = 0 by omega]
      rfl

/-- The listeners the loop does not get to have no copies. -/
def EndOk (ti : TouchPoint) : Prop := ∀ l ∈ ti.entries.drop ((ti.numListeners + 1) / 2), l.grab = none

instance (ti : TouchPoint) : Decidable (EndOk ti) := inferInstanceAs (Decidable (∀ l ∈ _, _))

theorem held_eq_nil {ti : TouchPoint} (h : ∀ l ∈ ti.entries, l.grab = none) : ti.held = [] :=
  filterMap_eq_nil_iff.2 h

/-- **The end of a touch**: no copy is left. -/
theorem touchEndTouch_spec (h : SlotOk held index s) (hend : EndOk s.ti) :
    ∃ s', touchEndTouch s = .ok s' ∧ SlotOk held index s' ∧ s'.ti.active = false := by
  obtain ⟨s₁, hrun, hok, hentries⟩ := removeFirst_spec s.ti.numListeners 0 s h (by omega)
  have hheld : s₁.ti.held = [] := held_eq_nil (by
    rw [hentries]
    exact hend)
  unfold touchEndTouch
  rw [hrun, ok_bind, if_neg (by rw [hok.touch.valuators]; decide)]
  refine ⟨_, rfl, ⟨⟨le_refl _, rfl, fun _ => rfl, hok.touch.valuators⟩, ?_⟩, rfl⟩
  have hcopies := hok.copies
  rw [hheld] at hcopies
  exact hcopies

end Listeners

end Xenia.Dix
