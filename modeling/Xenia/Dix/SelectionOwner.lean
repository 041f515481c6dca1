import Xenia.Dix.Selection

/-!
# Owners of selections

`Sound` is what holds of the list of selections in every run: one record for each name, and in
each record all or none of window, window pointer and client; the owner's window exists and its
client is connected. `StepOk` is what each step does to the owners, and which `SelectionClear`
events it sends.

The filter can veto a `SelectionClear` event, but the handler looks for the veto in the record of
the request, where it cannot be. So the events are right in the steps in which no such veto
is made (`Heeded`): `selections_correct`. `veto_ignored` is a run in which one is.
-/

namespace Xenia.Dix.Selections

open Xenia.Lib List

variable {s s' : State} {a : Answers} {client : ℕ} {stuff : SetSelectionOwnerReq} {op : Op}

/-! ### The invariant -/

structure Sound (s : State) : Prop where
  /-- At most one record for each name. -/
  unique : (s.selections.map (·.selection)).Nodup
  owner : ∀ r ∈ s.selections, (r.client = none ↔ r.window = None) ∧ (r.window = None ↔ r.pWin = none)
  /-- The window of an owner exists under its id. -/
  window : ∀ r ∈ s.selections, ∀ p, r.pWin = some p → s.drawables r.window = some (.window p)
  live : ∀ r ∈ s.selections, ∀ c, r.client = some c → s.clientGone c = false

/-- The records are those of `s`, perhaps with a new one that has no owner. -/
inductive Looked (s s' : State) : Prop
  | same (hd : s'.drawables = s.drawables) (hg : s'.clientGone = s.clientGone)
      (h : s'.selections = s.selections)
  | made (hd : s'.drawables = s.drawables) (hg : s'.clientGone = s.clientGone) (name : ℕ)
      (hname : ∀ r ∈ s.selections, r.selection ≠ name) (h : s'.selections = .blank name :: s.selections)

theorem Looked.refl (s : State) : Looked s s := .same rfl rfl rfl

variable {s₁ : State}

theorem Looked.of_frame (h : Looked s₁ s') (hd : s₁.drawables = s.drawables)
    (hg : s₁.clientGone = s.clientGone) (hs : s₁.selections = s.selections) : Looked s s' := by
  cases h with
  | same hd' hg' h => exact .same (hd'.trans hd) (hg'.trans hg) (h.trans hs)
  | made hd' hg' name hname h => exact .made (hd'.trans hd) (hg'.trans hg) name (hs ▸ hname) (hs ▸ h)

theorem Looked.then_frame (h : Looked s s₁) (hd : s'.drawables = s₁.drawables)
    (hg : s'.clientGone = s₁.clientGone) (hs : s'.selections = s₁.selections) : Looked s s' := by
  cases h with
  | same hd' hg' h => exact .same (hd.trans hd') (hg.trans hg') (hs.trans h)
  | made hd' hg' name hname h => exact .made (hd.trans hd') (hg.trans hg') name hname (hs.trans h)

/-- The record of a name that the list has stays; others have no owner. -/
theorem Looked.mem (h : Looked s s') {r : Selection} (hr : r ∈ s.selections) : r ∈ s'.selections := by
  cases h with
  | same _ _ h => rwa [h]
  | made _ _ _ _ h => rw [h]; exact mem_cons_of_mem _ hr

theorem Looked.mem_or_blank (h : Looked s s') {r : Selection} (hr : r ∈ s'.selections) :
    r ∈ s.selections ∨ (r = .blank r.selection ∧ ∀ x ∈ s.selections, x.selection ≠ r.selection) := by
  cases h with
  | same _ _ h => exact .inl (h ▸ hr)
  | made _ _ name hname h =>
    rw [h] at hr
    rcases mem_cons.1 hr with rfl | hr
    · exact .inr ⟨rfl, hname⟩
    · exact .inl hr

theorem Looked.drawables (h : Looked s s') : s'.drawables = s.drawables := by
  cases h <;> assumption

theorem Looked.clientGone (h : Looked s s') : s'.clientGone = s.clientGone := by
  cases h <;> assumption

theorem Sound.looked (h : Sound s) (hl : Looked s s') : Sound s' := by
  have hmem : ∀ r ∈ s'.selections, r ∈ s.selections ∨ r = .blank r.selection := fun r hr =>
    (hl.mem_or_blank hr).imp id And.left
  constructor
  · cases hl with
    | same _ _ hs => rw [hs]; exact h.unique
    | made _ _ name hname hs =>
      rw [hs]
      refine nodup_cons.2 ⟨?_, h.unique⟩
      intro hin
      obtain ⟨r, hr, hrn⟩ := mem_map.1 hin
      exact hname r hr hrn
  · intro r hr
    rcases hmem r hr with hr | hr
    · exact h.owner r hr
    · rw [hr]
      simp [Selection.blank]
  · intro r hr p hp
    rw [hl.drawables]
    rcases hmem r hr with hr | hr
    · exact h.window r hr p hp
    · rw [hr] at hp
      cases hp
  · intro r hr c hc
    rw [hl.clientGone]
    rcases hmem r hr with hr | hr
    · exact h.live r hr c hc
    · rw [hr] at hc
      cases hc

/-- Two records with one name are one. -/
theorem Sound.eq_of_name (h : Sound s) {x y : Selection} (hx : x ∈ s.selections) (hy : y ∈ s.selections)
    (hxy : x.selection = y.selection) : x = y :=
  inj_on_of_nodup_map h.unique hx hy hxy

/-! ### The lookups -/

theorem updateCurrentTime_looked (s : State) (a : Answers) : Looked s (s.updateCurrentTime a) :=
  .same rfl rfl rfl

theorem lookupWindow_state (s : State) (id client : ℕ) (access : Status) :
    (s.lookupWindow id client access).2 = s.setError client id := by
  unfold State.lookupWindow
  dsimp only
  split
  · rfl
  · split
    · rfl
    · split <;> rfl

theorem lookupWindow_ok {id client pWin : ℕ} {access : Status}
    (h : (s.lookupWindow id client access).1 = .ok pWin) : s.drawables id = some (.window pWin) := by
  unfold State.lookupWindow at h
  dsimp only at h
  split at h
  · cases h
  · rename_i d hd
    split at h
    · cases h
    · split at h
      · cases h
        exact hd
      · cases h

theorem lookupWindow_error {id client : ℕ} {access rc : Status}
    (h : (s.lookupWindow id client access).1 = .error rc) : rc ≠ Success := by
  unfold State.lookupWindow at h
  dsimp only at h
  split at h
  · cases h
    decide
  · split at h
    · rename_i hacc
      cases h
      split
      · decide
      · exact hacc
    · split at h
      · cases h
      · cases h
        decide

theorem dixLookupSelection_looked (name client : ℕ) (a : Answers) (s : State) :
    Looked s (dixLookupSelection name client a s).2 := by
  unfold dixLookupSelection
  dsimp only
  split
  · exact .same rfl rfl rfl
  · rename_i hnone
    split
    · refine .made rfl rfl name ?_ rfl
      intro r hr hname
      have := find?_eq_none.1 hnone r hr
      simp [hname] at this
    · exact .same rfl rfl rfl

variable {name : ℕ}

theorem dixLookupSelection_ok {pSel : Selection} (h : (dixLookupSelection name client a s).1 = .ok pSel) :
    pSel ∈ (dixLookupSelection name client a s).2.selections ∧ pSel.selection = name := by
  unfold dixLookupSelection at h ⊢
  dsimp only at h ⊢
  split at h
  · rename_i r hr
    split at h
    · cases h
      exact ⟨mem_of_find?_eq_some hr, by simpa using find?_some hr⟩
    · cases h
  · rename_i hnone
    split at h
    · rename_i hmem
      rw [if_pos hmem]
      split at h
      · cases h
        exact ⟨mem_cons_self .., rfl⟩
      · cases h
    · cases h

theorem dixLookupSelection_error {rc : Status} (h : (dixLookupSelection name client a s).1 = .error rc) :
    rc ≠ Success := by
  unfold dixLookupSelection at h
  dsimp only at h
  split at h
  · split at h
    · cases h
    · rename_i hacc
      cases h
      exact hacc
  · split at h
    · dsimp only at h
      split at h
      · cases h
      · rename_i hacc
        cases h
        exact hacc
    · cases h
      decide

/-! ### Writing a record -/

theorem mem_modifyFirst {new y : Selection} {l : List Selection} (hn : (l.map (·.selection)).Nodup)
    (hin : ∃ r ∈ l, r.selection = name) :
    y ∈ modifyFirst name (fun _ => new) l ↔ y = new ∨ (y ∈ l ∧ y.selection ≠ name) := by
  induction l with
  | nil => simp at hin
  | cons r rs ih =>
    obtain ⟨hr, hrs⟩ := nodup_cons.1 hn
    by_cases hname : r.selection = name
    · rw [modifyFirst, if_pos hname, mem_cons]
      have hother : ∀ y ∈ rs, y.selection ≠ name := fun y hy hyn =>
        hr (mem_map.2 ⟨y, hy, hyn.trans hname.symm⟩)
      constructor
      · rintro (rfl | hy)
        · exact .inl rfl
        · exact .inr ⟨mem_cons_of_mem _ hy, hother y hy⟩
      · rintro (rfl | ⟨hy, hyn⟩)
        · exact .inl rfl
        · rcases mem_cons.1 hy with rfl | hy
          · exact absurd hname hyn
          · exact .inr hy
    · have hin' : ∃ x ∈ rs, x.selection = name := by
        obtain ⟨x, hx, hxn⟩ := hin
        rcases mem_cons.1 hx with rfl | hx
        · exact absurd hxn hname
        · exact ⟨x, hx, hxn⟩
      rw [modifyFirst, if_neg hname, mem_cons, ih hrs hin', mem_cons]
      constructor
      · rintro (rfl | hy | ⟨hy, hyn⟩)
        · exact .inr ⟨.inl rfl, hname⟩
        · exact .inl hy
        · exact .inr ⟨.inr hy, hyn⟩
      · rintro (rfl | ⟨rfl | hy, hyn⟩)
        · exact .inr (.inl rfl)
        · exact .inl rfl
        · exact .inr (.inr ⟨hy, hyn⟩)

theorem modifyFirst_names {new : Selection} (hnew : new.selection = name) (l : List Selection) :
    (modifyFirst name (fun _ => new) l).map (·.selection) = l.map (·.selection) := by
  induction l with
  | nil => rfl
  | cons r rs ih =>
    by_cases hname : r.selection = name
    · simp [modifyFirst, hname, hnew]
    · simp [modifyFirst, hname, ih]

/-! ### `ProcSetSelectionOwner` -/

/-- The time of the request, once the server has read the clock. -/
def requestTime (s : State) (stuff : SetSelectionOwnerReq) (a : Answers) : TimeStamp :=
  clientTimeToServerTime (s.updateCurrentTime a).currentTime stuff.time

/-- A request that is answered with success and ignored: it is of a time to come, it is of a time
before the last change, or the filter skips it. -/
def Ignored (s : State) (client : ℕ) (stuff : SetSelectionOwnerReq) (a : Answers) : Prop :=
  compareTimeStamps (requestTime s stuff a) (s.updateCurrentTime a).currentTime = .LATER ∨
    (setOwnerParam client stuff a).skip ∨
    ∃ r ∈ s.selections, r.selection = (setOwnerParam client stuff a).selection ∧
      compareTimeStamps (requestTime s stuff a) r.lastTimeChanged = .EARLIER

/-- The window that the request names, `none` for no window. -/
def Names (s : State) (owner : ℕ) (pWin : Option ℕ) : Prop :=
  (owner = None ∧ pWin = none) ∨ owner ≠ None ∧ ∃ p, pWin = some p ∧ s.drawables owner = some (.window p)

/-- What the handler does: nothing to the owners, or it replaces the owner of one record. -/
inductive Handled (s : State) (client : ℕ) (stuff : SetSelectionOwnerReq) (a : Answers) (r : Result) : Prop
  | kept (hl : Looked s r.state) (hout : r.out = [])
      (hst : r.status = Success → Ignored s client stuff a)
  | replaced (s₁ : State) (pSel : Selection) (pWin : Option ℕ) (hl : Looked s s₁)
      (hmem : pSel ∈ s₁.selections) (hname : pSel.selection = (setOwnerParam client stuff a).selection)
      (hwin : Names s (setOwnerParam client stuff a).owner pWin)
      (hskip : (setOwnerParam client stuff a).skip = false)
      (htime : compareTimeStamps (requestTime s stuff a) pSel.lastTimeChanged ≠ .EARLIER)
      (hr : r = replaceOwner client stuff (requestTime s stuff a) (setOwnerParam client stuff a) pWin pSel a s₁)

/-- No time is before the time of a new record. -/
theorem compareTimeStamps_zero (t : TimeStamp) : compareTimeStamps t ⟨0, 0⟩ ≠ .EARLIER := by
  have h1 : ¬t.months < 0 := by simp
  have h2 : ¬t.milliseconds < 0 := by simp
  unfold compareTimeStamps
  dsimp only
  split_ifs <;> simp

theorem setOwnerOf_handled {s₀ : State} {pWin : Option ℕ} (h0 : Looked s₀ s)
    (hwin : Names s₀ (setOwnerParam client stuff a).owner pWin)
    (hskip : (setOwnerParam client stuff a).skip = false)
    (hsel : s.selections = s₀.selections) :
    Handled s₀ client stuff a
      (setOwnerOf client stuff (requestTime s₀ stuff a) (setOwnerParam client stuff a) pWin a s) := by
  unfold setOwnerOf
  split
  · exact .kept (h0.then_frame rfl rfl rfl) rfl fun h => absurd h (show BadAtom ≠ Success by decide)
  · have hlook := (dixLookupSelection_looked (setOwnerParam client stuff a).selection client a s).of_frame
      h0.drawables h0.clientGone hsel
    split
    · rename_i rc s₁ heq
      have herr := dixLookupSelection_error (congrArg Prod.fst heq)
      rw [heq] at hlook
      exact .kept (hlook.then_frame rfl rfl rfl) rfl fun h => absurd h herr
    · rename_i pSel s₁ heq
      obtain ⟨hmem, hname⟩ := dixLookupSelection_ok (congrArg Prod.fst heq)
      rw [heq] at hlook hmem
      by_cases htime : compareTimeStamps (requestTime s₀ stuff a) pSel.lastTimeChanged = .EARLIER
      · have hkept : replaceOwner client stuff (requestTime s₀ stuff a) (setOwnerParam client stuff a)
            pWin pSel a s₁ = ⟨s₁, [], Success⟩ := by
          unfold replaceOwner
          rw [if_pos htime]
        rw [hkept]
        refine .kept hlook rfl fun _ => .inr (.inr ⟨pSel, ?_, hname, htime⟩)
        rcases hlook.mem_or_blank hmem with hin | ⟨hblank, -⟩
        · exact hin
        · rw [hblank] at htime
          exact absurd htime (compareTimeStamps_zero _)
      · exact .replaced s₁ pSel pWin hlook hmem hname hwin hskip htime rfl

theorem procSetSelectionOwner_handled (s : State) (client : ℕ) (stuff : SetSelectionOwnerReq) (a : Answers) :
    Handled s client stuff a (procSetSelectionOwner client stuff a s) := by
  have h0 := updateCurrentTime_looked s a
  unfold procSetSelectionOwner
  dsimp only
  split
  · rename_i hlater
    exact .kept h0 rfl fun _ => .inl hlater
  · split
    · rename_i hskip
      unfold skipped
      refine .kept ?_ rfl fun _ => .inr (.inl hskip)
      split
      · exact h0.then_frame rfl rfl rfl
      · exact h0
    · rename_i hskip
      have hskip' : (setOwnerParam client stuff a).skip = false := by simpa using hskip
      split
      · rename_i howner
        have hstate := lookupWindow_state (s.updateCurrentTime a) (setOwnerParam client stuff a).owner client
          a.windowAccess
        split
        · rename_i rc s₁ heq
          rw [heq] at hstate
          have herr := lookupWindow_error (congrArg Prod.fst heq)
          refine .kept ?_ rfl fun h => absurd h herr
          rw [show s₁ = _ from hstate]
          exact h0.then_frame rfl rfl rfl
        · rename_i p s₁ heq
          rw [heq] at hstate
          have hok := lookupWindow_ok (congrArg Prod.fst heq)
          rw [show s₁ = _ from hstate]
          exact setOwnerOf_handled (h0.then_frame rfl rfl rfl) (.inr ⟨howner, p, rfl, hok⟩) hskip' rfl
      · rename_i howner
        exact setOwnerOf_handled h0 (.inl ⟨not_not.1 howner, rfl⟩) hskip' rfl

/-! ### What a step does -/

/-- The owner of a record that had one is another one afterwards, or none. -/
def Replaced (s s' : State) (x : Selection) : Prop :=
  x ∈ s.selections ∧ x.client ≠ none ∧ ∃ y ∈ s'.selections, y.selection = x.selection ∧ y.client ≠ x.client

def Output.isClear : Output → Bool
  | .event _ (.selectionClear ..) => true
  | _ => false

/-- The event that tells the owner of `x` that it has lost the selection. -/
def clearEvent (s : State) (client : ℕ) (stuff : SetSelectionOwnerReq) (x : Selection) (a : Answers) : Output :=
  let eventParam := clearParam client stuff x a
  .event eventParam.recvClient (.selectionClear (requestTime s stuff a).milliseconds eventParam.owner
    eventParam.selection)

structure StepOk (s : State) (op : Op) (a : Answers) (r : Result) : Prop where
  /-- The time of the last change never decreases. -/
  times : ∀ x ∈ s.selections, ∃ y ∈ r.state.selections, y.selection = x.selection ∧
    compareTimeStamps y.lastTimeChanged x.lastTimeChanged ≠ .EARLIER
  /-- A request that succeeds and is not ignored makes the window and the client the owner, and
  leaves all other owners alone. -/
  owner : ∀ client stuff, op = .setSelectionOwner client stuff → s.clientGone client = false →
    r.status = Success → ¬Ignored s client stuff a →
    (∃ y ∈ r.state.selections, y.selection = (setOwnerParam client stuff a).selection ∧
      y.window = (setOwnerParam client stuff a).owner ∧ Names s y.window y.pWin ∧
      (y.client = if y.window = None then none else some client) ∧
      y.lastTimeChanged = requestTime s stuff a) ∧
    ∀ x ∈ s.selections, x.selection ≠ (setOwnerParam client stuff a).selection → x ∈ r.state.selections
  /-- A `SelectionClear` event is sent exactly when a request replaces an owner and the filter
  does not skip the event. -/
  clear : ∀ e, (e ∈ r.out ∧ e.isClear) ↔ ∃ client stuff x, op = .setSelectionOwner client stuff ∧
    Replaced s r.state x ∧ (clearParam client stuff x a).skip = false ∧ e = clearEvent s client stuff x a
  /-- At most one is sent. -/
  once : (r.out.filter Output.isClear).length ≤ 1

/-- The filter does not skip a `SelectionClear` event of the step. -/
def Heeded (s : State) (i : Op × Answers) : Prop :=
  match i.1 with
  | .setSelectionOwner client stuff =>
    ∀ x ∈ s.selections, x.selection = (setOwnerParam client stuff i.2).selection → x.client ≠ none →
      (clearParam client stuff x i.2).skip = false
  | _ => True

/-- Steps that leave every record, or create one, and send no `SelectionClear`. -/
theorem StepOk.of_looked (h : Sound s) {r : Result} (hl : Looked s r.state)
    (hout : ∀ e ∈ r.out, e.isClear = false)
    (hset : ∀ client stuff, op = .setSelectionOwner client stuff → s.clientGone client = false →
      r.status = Success → Ignored s client stuff a) : StepOk s op a r where
  times := fun x hx => ⟨x, hl.mem hx, rfl, by simp [compareTimeStamps]⟩
  owner := fun client stuff heq hg hst hni => absurd (hset client stuff heq hg hst) hni
  clear := by
    intro e
    constructor
    · rintro ⟨he, hc⟩
      rw [hout e he] at hc
      cases hc
    · rintro ⟨client, stuff, x, -, ⟨hx, -, y, hy, hname, hne⟩, -⟩
      have hxy := (h.looked hl).eq_of_name hy (hl.mem hx) hname
      exact absurd (congrArg Selection.client hxy) hne
  once := by
    rw [filter_eq_nil_iff.2 fun e he => by simp [hout e he]]
    simp

section Replace

variable {s₁ : State} {pSel : Selection} {pWin : Option ℕ} {t : TimeStamp}

/-- The record that `replaceOwner` leaves. -/
def newRecord (client : ℕ) (t : TimeStamp) (param : SelectionFilterParam) (pWin : Option ℕ) (pSel : Selection) :
    Selection :=
  { pSel with
    lastTimeChanged := t
    window := param.owner
    pWin := pWin
    client := if pWin.isSome then some client else none }

variable {param : SelectionFilterParam}

theorem replaceOwner_state (ht : compareTimeStamps t pSel.lastTimeChanged ≠ .EARLIER) :
    (replaceOwner client stuff t param pWin pSel a s₁).state =
      { s₁ with
        selections := modifyFirst pSel.selection (fun _ => newRecord client t param pWin pSel) s₁.selections } := by
  unfold replaceOwner
  rw [if_neg ht]
  rfl

/-- The `SelectionClear` events of `replaceOwner`: the test of the veto always lets it pass. -/
theorem replaceOwner_clear (ht : compareTimeStamps t pSel.lastTimeChanged ≠ .EARLIER) (hskip : param.skip = false) (e : Output) :
    (e ∈ (replaceOwner client stuff t param pWin pSel a s₁).out ∧ e.isClear) ↔
      pSel.client ≠ none ∧ (pWin = none ∨ pSel.client ≠ some client) ∧
        e = .event (clearParam client stuff pSel a).recvClient (.selectionClear t.milliseconds
          (clearParam client stuff pSel a).owner (clearParam client stuff pSel a).selection) := by
  unfold replaceOwner
  rw [if_neg ht]
  rw [hskip]
  by_cases hlive : pSel.client.isSome ∧ (pWin = none ∨ pSel.client ≠ some client)
  · have hne : pSel.client ≠ none := Option.isSome_iff_ne_none.1 hlive.1
    rw [if_pos hlive]
    constructor
    · rintro ⟨he, hc⟩
      rcases mem_append.1 he with he | he
      · exact ⟨hne, hlive.2, by simpa using he⟩
      · rw [mem_singleton.1 he] at hc
        cases hc
    · rintro ⟨-, -, rfl⟩
      exact ⟨mem_append_left _ (by simp), rfl⟩
  · rw [if_neg hlive]
    constructor
    · rintro ⟨he, hc⟩
      rw [mem_singleton.1 he] at hc
      cases hc
    · rintro ⟨hne, hor, -⟩
      exact absurd ⟨Option.isSome_iff_ne_none.2 hne, hor⟩ hlive

theorem replaceOwner_once :
    ((replaceOwner client stuff t param pWin pSel a s₁).out.filter Output.isClear).length ≤ 1 := by
  unfold replaceOwner
  split
  · simp
  · dsimp only
    split_ifs <;> simp [filter_cons, Output.isClear]

variable (client pSel) in
theorem newRecord_client (hwin : Names s param.owner pWin) :
    (newRecord client t param pWin pSel).client = if param.owner = None then none else some client := by
  unfold newRecord
  rcases hwin with ⟨ho, rfl⟩ | ⟨ho, p, rfl, -⟩
  · simp [ho]
  · simp [ho]

/-- The owner of one record replaced in a sound list. -/
theorem Sound.replace (h : Sound s₁) (hin : pSel ∈ s₁.selections)
    (hwin : Names s₁ param.owner pWin) (hlive : s₁.clientGone client = false) :
    Sound { s₁ with
      selections := modifyFirst pSel.selection (fun _ => newRecord client t param pWin pSel) s₁.selections } := by
  have hmem : ∀ y, y ∈ modifyFirst pSel.selection (fun _ => newRecord client t param pWin pSel) s₁.selections →
      y = newRecord client t param pWin pSel ∨ y ∈ s₁.selections := fun y hy =>
    ((mem_modifyFirst h.unique ⟨pSel, hin, rfl⟩).1 hy).imp id And.left
  have hclient := newRecord_client client pSel (t := t) hwin
  constructor
  · show (map _ (modifyFirst _ _ _)).Nodup
    rw [modifyFirst_names (show (newRecord client t param pWin pSel).selection = pSel.selection from rfl)]
    exact h.unique
  · intro y hy
    rcases hmem y hy with rfl | hy
    · rw [hclient]
      show (_ ↔ param.owner = None) ∧ (param.owner = None ↔ pWin = none)
      rcases hwin with ⟨ho, rfl⟩ | ⟨ho, p, rfl, -⟩
      · simp [ho]
      · simp [ho]
    · exact h.owner y hy
  · intro y hy p hp
    rcases hmem y hy with rfl | hy
    · have hp' : pWin = some p := hp
      rcases hwin with ⟨-, rfl⟩ | ⟨-, q, rfl, hq⟩
      · cases hp'
      · cases hp'
        exact hq
    · exact h.window y hy p hp
  · intro y hy c hc
    rcases hmem y hy with rfl | hy
    · rw [hclient] at hc
      split at hc
      · cases hc
      · cases hc
        exact hlive
    · exact h.live y hy c hc

/-- **Replacing an owner**: the step is right where the filter lets the event pass. -/
theorem StepOk.of_replaced (h : Sound s) (hl : Looked s s₁) (hin : pSel ∈ s₁.selections)
    (hname : pSel.selection = (setOwnerParam client stuff a).selection)
    (hwin : Names s (setOwnerParam client stuff a).owner pWin)
    (hskip : (setOwnerParam client stuff a).skip = false)
    (ht : compareTimeStamps (requestTime s stuff a) pSel.lastTimeChanged ≠ .EARLIER)
    (hheed : Heeded s (.setSelectionOwner client stuff, a)) :
    StepOk s (.setSelectionOwner client stuff) a
      (replaceOwner client stuff (requestTime s stuff a) (setOwnerParam client stuff a) pWin pSel a s₁) := by
  have h₁ := h.looked hl
  have hmem : ∀ y, y ∈ (replaceOwner client stuff (requestTime s stuff a) (setOwnerParam client stuff a)
      pWin pSel a s₁).state.selections ↔ y = newRecord client (requestTime s stuff a) (setOwnerParam client stuff a)
        pWin pSel ∨ (y ∈ s₁.selections ∧ y.selection ≠ pSel.selection) := by
    intro y
    rw [replaceOwner_state ht]
    exact mem_modifyFirst h₁.unique ⟨pSel, hin, rfl⟩
  have hother : ∀ x ∈ s.selections, x.selection ≠ pSel.selection →
      x ∈ (replaceOwner client stuff (requestTime s stuff a) (setOwnerParam client stuff a)
        pWin pSel a s₁).state.selections := fun x hx hne => (hmem x).2 (.inr ⟨hl.mem hx, hne⟩)
  have hclient := newRecord_client client pSel (t := requestTime s stuff a) hwin
  constructor
  · intro x hx
    by_cases hxn : x.selection = pSel.selection
    · have hxp := h₁.eq_of_name (hl.mem hx) hin hxn
      refine ⟨_, (hmem _).2 (.inl rfl), hxn.symm, ?_⟩
      rw [hxp]
      exact ht
    · exact ⟨x, hother x hx hxn, rfl, by simp [compareTimeStamps]⟩
  · intro client' stuff' heq _ _ _
    cases heq
    refine ⟨⟨_, (hmem _).2 (.inl rfl), hname, rfl, hwin, hclient, rfl⟩, fun x hx hne => ?_⟩
    exact hother x hx (hname ▸ hne)
  · intro e
    rw [replaceOwner_clear ht hskip]
    constructor
    · rintro ⟨hne, hor, rfl⟩
      have hps : pSel ∈ s.selections := by
        rcases hl.mem_or_blank hin with hps | ⟨hblank, -⟩
        · exact hps
        · exact absurd (hblank ▸ rfl) hne
      refine ⟨client, stuff, pSel, rfl, ⟨hps, hne, _, (hmem _).2 (.inl rfl), rfl, ?_⟩,
        hheed pSel hps hname hne, rfl⟩
      show (if pWin.isSome then some client else none) ≠ pSel.client
      rcases hor with rfl | hor
      · exact fun heq => hne heq.symm
      · split
        · exact fun heq => hor heq.symm
        · exact fun heq => hne heq.symm
    · rintro ⟨client', stuff', x, heq, ⟨hx, hne, y, hy, hyx, hyc⟩, -, rfl⟩
      cases heq
      rcases (hmem y).1 hy with rfl | ⟨hy, hyn⟩
      · have hxp : x = pSel := h₁.eq_of_name (hl.mem hx) hin hyx.symm
        subst hxp
        refine ⟨hne, ?_, rfl⟩
        by_contra hcon
        rw [not_or, not_not] at hcon
        apply hyc
        show (if pWin.isSome then some client else none) = x.client
        rw [if_pos (Option.isSome_iff_ne_none.2 hcon.1), hcon.2]
      · exact absurd (congrArg Selection.client (h₁.eq_of_name hy (hl.mem hx) hyx)) hyc
  · exact replaceOwner_once

end Replace

/-! ### The other steps -/

theorem skipped_looked (param : SelectionFilterParam) (client selection : ℕ) (s : State) :
    Looked s (skipped param client selection s).state := by
  unfold skipped
  split
  · exact .same rfl rfl rfl
  · exact .refl s

theorem procGetSelectionOwner_looked (client id : ℕ) (a : Answers) (s : State) :
    Looked s (procGetSelectionOwner client id a s).state ∧
      ∀ e ∈ (procGetSelectionOwner client id a s).out, e.isClear = false := by
  unfold procGetSelectionOwner
  dsimp only
  split
  · refine ⟨?_, by simp⟩
    split
    · exact .same rfl rfl rfl
    · exact .refl s
  · split
    · refine ⟨?_, by simp⟩
      split
      · exact .same rfl rfl rfl
      · exact .refl s
    · have hlook := dixLookupSelection_looked (a.filter 0 (.zero .GETOWNER client id)).selection
        (a.filter 0 (.zero .GETOWNER client id)).client a s
      split
      · rename_i pSel s₁ heq
        rw [heq] at hlook
        exact ⟨hlook, by simp [Output.isClear]⟩
      · rename_i rc s₁ heq
        rw [heq] at hlook
        split
        · exact ⟨hlook, by simp [Output.isClear]⟩
        · refine ⟨?_, by simp⟩
          split
          · exact hlook.then_frame rfl rfl rfl
          · exact hlook

theorem convertFor_looked (client : ℕ) (stuff : ConvertSelectionReq) (param : SelectionFilterParam)
    (owner : Option Selection) (a : Answers) (s : State) :
    Looked s (convertFor client stuff param owner a s).state ∧
      ∀ e ∈ (convertFor client stuff param owner a s).out, e.isClear = false := by
  unfold convertFor
  dsimp only
  split
  · split
    · exact ⟨skipped_looked _ _ _ _, by simp [skipped]⟩
    · exact ⟨.refl s, by simp [Output.isClear]⟩
  · split
    · exact ⟨skipped_looked _ _ _ _, by simp [skipped]⟩
    · exact ⟨.refl s, by simp [Output.isClear]⟩

theorem Looked.trans_same (h : Looked s s₁) (hc : Looked s₁ s')
    (hs : s'.selections = s₁.selections) : Looked s s' := h.then_frame hc.drawables hc.clientGone hs

theorem convertFor_selections (client : ℕ) (stuff : ConvertSelectionReq) (param : SelectionFilterParam)
    (owner : Option Selection) (a : Answers) (s : State) :
    (convertFor client stuff param owner a s).state.selections = s.selections := by
  have hskip : ∀ p c n, (skipped p c n s).state.selections = s.selections := by
    intro p c n
    unfold skipped
    split <;> rfl
  unfold convertFor
  dsimp only
  split
  · split
    · exact hskip ..
    · rfl
  · split
    · exact hskip ..
    · rfl

theorem convertNow_looked (client : ℕ) (stuff : ConvertSelectionReq) (param : SelectionFilterParam)
    (a : Answers) (s : State) :
    Looked s (convertNow client stuff param a s).state ∧
      ∀ e ∈ (convertNow client stuff param a s).out, e.isClear = false := by
  have hnow : Looked s (if stuff.time = CurrentTime then s.updateCurrentTime a else s) ∧
      (if stuff.time = CurrentTime then s.updateCurrentTime a else s).selections = s.selections := by
    split
    · exact ⟨updateCurrentTime_looked s a, rfl⟩
    · exact ⟨.refl s, rfl⟩
  have hlook := (dixLookupSelection_looked param.selection client a _).of_frame hnow.1.drawables
    hnow.1.clientGone hnow.2
  unfold convertNow
  dsimp only
  split
  · rename_i pSel s₂ heq
    rw [heq] at hlook
    have hc := convertFor_looked client stuff param (some pSel) a s₂
    exact ⟨hlook.trans_same hc.1 (convertFor_selections ..), hc.2⟩
  · rename_i rc s₂ heq
    rw [heq] at hlook
    split
    · have hc := convertFor_looked client stuff param none a s₂
      exact ⟨hlook.trans_same hc.1 (convertFor_selections ..), hc.2⟩
    · exact ⟨hlook, by simp⟩

theorem procConvertSelection_looked (client : ℕ) (stuff : ConvertSelectionReq) (a : Answers) (s : State) :
    Looked s (procConvertSelection client stuff a s).state ∧
      ∀ e ∈ (procConvertSelection client stuff a s).out, e.isClear = false := by
  unfold procConvertSelection
  dsimp only
  split
  · exact ⟨skipped_looked _ _ _ _, by simp [skipped]⟩
  · have hwin := lookupWindow_state s (convertParam client stuff a).requestor client a.windowAccess
    split
    · rename_i rc s₁ heq
      rw [heq] at hwin
      rw [show s₁ = _ from hwin]
      exact ⟨.same rfl rfl rfl, by simp⟩
    · rename_i p s₁ heq
      rw [heq] at hwin
      rw [show s₁ = _ from hwin]
      split
      · have hc := convertNow_looked client stuff (convertParam client stuff a) a
          (s.setError client (convertParam client stuff a).requestor)
        exact ⟨hc.1.of_frame rfl rfl rfl, hc.2⟩
      · exact ⟨.same rfl rfl rfl, by simp⟩

variable {p : Selection → Bool} {kind : SelectionCallbackKind}

/-- The records that satisfy `p` lose their owner. -/
theorem disownWhere_stepOk (hs : s'.selections = s.selections) (hop : ∀ client stuff, op ≠ .setSelectionOwner client stuff) :
    StepOk s op a (disownWhere p kind s') where
  times := by
    intro x hx
    refine ⟨if p x then x.disown else x, ?_, ?_, ?_⟩
    · exact mem_map.2 ⟨x, hs ▸ hx, rfl⟩
    · split <;> rfl
    · split <;> simp [compareTimeStamps, Selection.disown]
  owner := fun client stuff heq => absurd heq (hop client stuff)
  clear := by
    intro e
    constructor
    · rintro ⟨he, hc⟩
      obtain ⟨x, -, rfl⟩ := mem_map.1 he
      cases hc
    · rintro ⟨client, stuff, x, heq, -⟩
      exact absurd heq (hop client stuff)
  once := by
    rw [filter_eq_nil_iff.2]
    · simp
    · intro e he
      obtain ⟨x, -, rfl⟩ := mem_map.1 he
      simp [Output.isClear]

theorem disownWhere_sound (h : Sound s) (hs : s'.selections = s.selections)
    (hw : ∀ r ∈ s.selections, p r = false → ∀ w, r.pWin = some w → s'.drawables r.window = some (.window w))
    (hg : ∀ r ∈ s.selections, p r = false → ∀ c, r.client = some c → s'.clientGone c = false) :
    Sound (disownWhere p kind s').state := by
  have hmem : ∀ y ∈ (disownWhere p kind s').state.selections,
      ∃ r ∈ s.selections, (p r = true ∧ y = r.disown) ∨ (p r = false ∧ y = r) := by
    intro y hy
    obtain ⟨r, hr, rfl⟩ := mem_map.1 hy
    refine ⟨r, hs ▸ hr, ?_⟩
    by_cases hp : p r = true
    · exact .inl ⟨hp, if_pos hp⟩
    · exact .inr ⟨by simpa using hp, if_neg hp⟩
  constructor
  · show (List.map _ (List.map _ s'.selections)).Nodup
    rw [hs, map_map]
    have hnames : (fun r : Selection => r.selection) ∘ (fun pSel => if p pSel = true then pSel.disown else pSel) =
        fun r => r.selection := by
      funext r
      show (if p r = true then r.disown else r).selection = r.selection
      split <;> rfl
    rw [hnames]
    exact h.unique
  · intro y hy
    obtain ⟨r, hr, ⟨-, rfl⟩ | ⟨-, rfl⟩⟩ := hmem y hy
    · simp [Selection.disown]
    · exact h.owner y hr
  · intro y hy w hyw
    obtain ⟨r, hr, ⟨-, rfl⟩ | ⟨hp, rfl⟩⟩ := hmem y hy
    · cases hyw
    · exact hw y hr hp w hyw
  · intro y hy c hc
    obtain ⟨r, hr, ⟨-, rfl⟩ | ⟨hp, rfl⟩⟩ := hmem y hy
    · cases hc
    · exact hg y hr hp c hc

/-! ### Runs -/

theorem Sound.congr (h : Sound s) (hs : s'.selections = s.selections)
    (hd : ∀ r ∈ s.selections, ∀ w, r.pWin = some w → s'.drawables r.window = s.drawables r.window)
    (hg : s'.clientGone = s.clientGone) : Sound s' :=
  ⟨hs ▸ h.unique, hs ▸ h.owner, fun r hr p hp => (hd r (hs ▸ hr) p hp).trans (h.window r (hs ▸ hr) p hp),
    fun r hr => hg ▸ h.live r (hs ▸ hr)⟩

theorem perform_sound (h : Sound s) (op : Op) (a : Answers) : Sound (perform op a s).state := by
  unfold perform
  cases op with
  | setSelectionOwner client stuff =>
    dsimp only
    split
    · exact h
    · rename_i hgone
      cases procSetSelectionOwner_handled s client stuff a with
      | kept hl _ _ => exact h.looked hl
      | replaced s₁ pSel pWin hl hmem _ hwin _ ht hr =>
        rw [hr, replaceOwner_state ht]
        refine (h.looked hl).replace hmem ?_ ?_
        · unfold Names
          rw [hl.drawables]
          exact hwin
        · rw [hl.clientGone]
          simpa using hgone
  | getSelectionOwner client id =>
    dsimp only
    split
    · exact h
    · exact h.looked (procGetSelectionOwner_looked client id a s).1
  | convertSelection client stuff =>
    dsimp only
    split
    · exact h
    · exact h.looked (procConvertSelection_looked client stuff a s).1
  | createDrawable id d =>
    dsimp only
    split
    · exact h
    · rename_i hfree
      refine h.congr rfl (fun r hr w hw => ?_) rfl
      have hne : r.window ≠ id := by
        intro heq
        have := h.window r hr w hw
        rw [heq] at this
        simp [this] at hfree
      exact Function.update_of_ne hne ..
  | destroyDrawable id =>
    dsimp only
    split
    · rename_i p hp
      refine disownWhere_sound h rfl (fun r hr hpr w hw => ?_) fun r hr _ => h.live r hr
      have hwin := h.window r hr w hw
      have hne : r.window ≠ id := by
        intro heq
        rw [heq, hp] at hwin
        cases hwin
        simp [hw] at hpr
      show Function.update s.drawables id none r.window = _
      rw [Function.update_of_ne hne]
      exact hwin
    · rename_i hnot
      refine h.congr rfl (fun r hr w hw => ?_) rfl
      have hwin := h.window r hr w hw
      have hne : r.window ≠ id := fun heq => hnot w (heq ▸ hwin)
      exact Function.update_of_ne hne ..
  | closeDownClient client =>
    dsimp only
    split
    · exact h
    · refine disownWhere_sound h rfl (fun r hr _ => h.window r hr) fun r hr hpr c hc => ?_
      have hne : c ≠ client := by
        rintro rfl
        simp [hc] at hpr
      show Function.update s.clientGone client true c = false
      rw [Function.update_of_ne hne]
      exact h.live r hr c hc
  | noticeTime time => exact h.congr rfl (fun _ _ _ _ => rfl) rfl

/-- A request of a client that is gone, and whatever else leaves the records alone. -/
theorem StepOk.of_same (h : Sound s) {r : Result} (hs : r.state.selections = s.selections) (hout : r.out = [])
    (hset : ∀ client stuff, op = .setSelectionOwner client stuff → s.clientGone client = true) :
    StepOk s op a r where
  times := fun x hx => ⟨x, hs ▸ hx, rfl, by simp [compareTimeStamps]⟩
  owner := by
    intro client stuff heq hlive
    rw [hset client stuff heq] at hlive
    cases hlive
  clear := by
    intro e
    rw [hout]
    constructor
    · rintro ⟨he, -⟩
      cases he
    · rintro ⟨client, stuff, x, -, ⟨hx, -, y, hy, hname, hne⟩, -⟩
      rw [hs] at hy
      exact absurd (congrArg Selection.client (h.eq_of_name hy hx hname)) hne
  once := by simp [hout]

theorem perform_stepOk (h : Sound s) (op : Op) (a : Answers) (hh : Heeded s (op, a)) :
    StepOk s op a (perform op a s) := by
  unfold perform
  cases op with
  | setSelectionOwner client stuff =>
    dsimp only
    split
    · rename_i hgone
      refine .of_same h rfl rfl fun client' stuff' heq => ?_
      cases heq
      exact hgone
    · cases procSetSelectionOwner_handled s client stuff a with
      | kept hl hout hst =>
        refine .of_looked h hl (by simp [hout]) fun client' stuff' heq _ hsucc => ?_
        cases heq
        exact hst hsucc
      | replaced s₁ pSel pWin hl hmem hname hwin hskip ht hr =>
        rw [hr]
        exact .of_replaced h hl hmem hname hwin hskip ht hh
  | getSelectionOwner client id =>
    dsimp only
    split
    · exact .of_same h rfl rfl fun _ _ heq => by cases heq
    · have hl := procGetSelectionOwner_looked client id a s
      exact .of_looked h hl.1 hl.2 fun _ _ heq => by cases heq
  | convertSelection client stuff =>
    dsimp only
    split
    · exact .of_same h rfl rfl fun _ _ heq => by cases heq
    · have hl := procConvertSelection_looked client stuff a s
      exact .of_looked h hl.1 hl.2 fun _ _ heq => by cases heq
  | createDrawable id d =>
    dsimp only
    split
    · exact .of_same h rfl rfl fun _ _ heq => by cases heq
    · exact .of_same h rfl rfl fun _ _ heq => by cases heq
  | destroyDrawable id =>
    dsimp only
    split
    · exact disownWhere_stepOk rfl fun _ _ heq => by cases heq
    · exact .of_same h rfl rfl fun _ _ heq => by cases heq
  | closeDownClient client =>
    dsimp only
    split
    · exact .of_same h rfl rfl fun _ _ heq => by cases heq
    · exact disownWhere_stepOk rfl fun _ _ heq => by cases heq
  | noticeTime time => exact .of_same h rfl rfl fun _ _ heq => by cases heq

/-- Before the first request: there are no selections. -/
def State.start (currentTime : TimeStamp) (drawables : ℕ → Option Drawable) : State :=
  ⟨[], currentTime, drawables, fun _ => false, fun _ => 0⟩

theorem start_sound (currentTime : TimeStamp) (drawables : ℕ → Option Drawable) :
    Sound (.start currentTime drawables) :=
  ⟨by simp [State.start], by simp [State.start], by simp [State.start], by simp [State.start]⟩

/-- **Selection ownership**: in a run in which the filter skips no `SelectionClear` event, the list
is sound, and so is the next step, whatever it is and whatever the rest of the server answers. -/
theorem selections_correct (currentTime : TimeStamp) (drawables : ℕ → Option Drawable)
    (is : List (Op × Answers)) (h : AllSteps step Heeded (.start currentTime drawables) is) :
    Sound (run step (.start currentTime drawables) is) ∧
      ∀ op a, Heeded (run step (.start currentTime drawables) is) (op, a) →
        StepOk (run step (.start currentTime drawables) is) op a
          (perform op a (run step (.start currentTime drawables) is)) := by
  have hs : Sound (run step (.start currentTime drawables) is) :=
    AllSteps.invariant (P := Sound) (fun s i _ hs => perform_sound hs i.1 i.2) h
      (start_sound currentTime drawables)
  exact ⟨hs, fun op a hh => perform_stepOk hs op a hh⟩

/-- Answers of a server without access control, with a filter. -/
def granting (filter : ℕ → SelectionFilterParam → SelectionFilterParam) : Answers :=
  ⟨filter, Success, Success, true, fun atom => atom ≠ 0, 100, none⟩

/-- Window 7 of client 1 and window 8 of client 2. -/
def twoWindows (id : ℕ) : Option Drawable :=
  if id = 7 then some (.window 70) else if id = 8 then some (.window 80) else none

/-- Client 1 owns a selection. -/
def ownedRun : List (Op × Answers) :=
  [(.setSelectionOwner 1 ⟨7, 5, 0⟩, granting fun _ p => p)]

theorem ownedRun_correct : StepOk (run step (.start ⟨0, 50⟩ twoWindows) ownedRun)
    (.setSelectionOwner 2 ⟨8, 5, 0⟩) (granting fun _ p => p)
    (perform (.setSelectionOwner 2 ⟨8, 5, 0⟩) (granting fun _ p => p)
      (run step (.start ⟨0, 50⟩ twoWindows) ownedRun)) := by
  refine (selections_correct ⟨0, 50⟩ twoWindows ownedRun ?_).2 _ _ ?_
  · exact ⟨fun _ _ _ _ => rfl, trivial⟩
  · exact fun _ _ _ _ => rfl

/-- A filter that skips every `SelectionClear` event. -/
def vetoClear (_ : ℕ) (p : SelectionFilterParam) : SelectionFilterParam :=
  { p with skip := p.op = .EV_CLEAR }

/-- **The veto is ignored**: client 2 takes the selection of client 1 and the filter skips the
event, but the event is sent. -/
theorem veto_ignored : ¬StepOk (run step (.start ⟨0, 50⟩ twoWindows) ownedRun)
    (.setSelectionOwner 2 ⟨8, 5, 0⟩) (granting vetoClear)
    (perform (.setSelectionOwner 2 ⟨8, 5, 0⟩) (granting vetoClear)
      (run step (.start ⟨0, 50⟩ twoWindows) ownedRun)) := by
  intro h
  have hsent : Output.event (some 1) (.selectionClear 100 7 5) ∈
      (perform (.setSelectionOwner 2 ⟨8, 5, 0⟩) (granting vetoClear)
        (run step (.start ⟨0, 50⟩ twoWindows) ownedRun)).out := by decide
  obtain ⟨client, stuff, x, heq, -, hskip, -⟩ := (h.clear _).1 ⟨hsent, rfl⟩
  cases hskip

end Xenia.Dix.Selections
