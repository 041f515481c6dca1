import Xenia.Os.TimerList

/-!
# Runs of the timers

A run goes wrong in two ways. With `TimerForceOld`, `TimerSet` takes the node out, runs the old
callback and puts the node in again: when the callback has armed the timer itself, the node is
linked twice (`forced_breaks_list`). And the list is searched with signed differences, which do
not order times that lie half the clock or more apart: such times, pending together once, leave
a list that stays out of order when they are near again (`far_apart_breaks_order`).

`Fits` rules both out, step by step. `timers_correct`: in a run of such steps the list holds
every pending timer once, in order; each callback is for an arming of its own; and no timer
that is due is pending when `DoTimers` returns.
-/

namespace Xenia.Os.Timer

open Xenia.Lib Xenia.Lib.Clock Xenia.Lib.Links List Bool

variable {s s' : TimerState} {xs : List ℕ} {t : ℕ} {now clock : UInt32}

/-! ### The functions keep the list -/

section Functions

variable {flags millis : UInt32} {func arg : ℕ} {timer : Option ℕ}

variable (h : Listed s xs)
include h

theorem timerSetFields_kept (ht : millis ≠ 0 → t ∉ xs) (ha : millis ≠ 0 → s.allocated t) :
    Kept s xs (timerSetFields t flags millis func arg now s) := by
  unfold timerSetFields
  by_cases hm : millis = 0
  · rw [if_pos hm]
    exact h.kept (List.Sublist.refl _) fun _ _ => rfl
  · rw [if_neg hm]
    refine Kept.mono (sortIntoList_kept (h.setTimers _) (ht hm) (ha hm) ?_) ?_
    · simp [TimerState.expires]
    · intro hs
      refine hs.congr fun u hu => ?_
      have hut : u ≠ t := fun heq => ht hm (heq ▸ hu)
      simp [TimerState.expires, hut]

theorem timerSet_kept (ha : ∀ t, timer = some t → s.allocated t) {memory : Bool} :
    Kept s xs (timerSet timer flags millis func arg now memory s) := by
  cases timer with
  | none =>
    cases memory with
    | false => exact (h.push _).kept (List.Sublist.refl _) fun _ _ => rfl
    | true =>
      have hnext : s.next ∉ xs := fun hmem => absurd (h.fresh _ (h.allocated _ hmem)) (lt_irrefl _)
      refine Kept.mono (timerSetFields_kept (h.alloc.push _) (fun _ => hnext) ?_) ?_
      · intro _
        exact Function.update_self ..
      · intro hs
        refine hs.congr fun u hu => ?_
        have hu' : u ≠ s.next := fun heq => hnext (heq ▸ hu)
        simp [TimerState.expires, TimerState.alloc, TimerState.push, hu']
  | some t =>
    unfold timerSet
    dsimp only
    have hp := h.push (.answer (.timer (some t)))
    by_cases hpend : timerPending (s.push (.answer (.timer (some t)))) t = true
    · rw [if_pos hpend]
      have hmem := hp.timerPending_iff.1 hpend
      by_cases hforce : flags &&& TimerForceOld ≠ 0
      · -- the old callback runs while the node is out of the list
        rw [if_pos hforce]
        have hr := hp.remove (t := t) (e := .called t (s.timers t).callback now (s.timers t).arg)
          (fun u b => by simp only [TimerEvent.pending, ne_eq, eq_comm])
          (fun u callback now' arg' heq => by cases heq; exact hmem)
        exact (hr.push _).kept erase_sublist fun _ _ => rfl
      · rw [if_neg hforce]
        have hr := hp.remove (t := t) (e := .disarmed t)
          (fun u b => by simp only [TimerEvent.pending, ne_eq, eq_comm])
          (fun u callback now' arg' heq => by cases heq)
        refine Kept.mono (timerSetFields_kept hr (fun _ => ?_) fun _ => ha t rfl) ?_
        · exact fun hin => (h.nodup.mem_erase_iff.1 hin).1 rfl
        · exact fun hs => (hs.sublist erase_sublist).congr fun _ _ => rfl
    · rw [if_neg hpend]
      have hmem : t ∉ xs := fun hin => hpend (hp.timerPending_iff.2 hin)
      exact (timerSetFields_kept hp (fun _ => hmem) fun _ => ha t rfl).mono
        fun hs => hs.congr fun _ _ => rfl

theorem doTimer_kept (ht : t ∈ xs) : Kept s xs (doTimer t now s) :=
  (h.doTimer ht now).kept erase_sublist fun _ _ => rfl

theorem timerForce_kept : Kept s xs (timerForce t now s) := by
  unfold timerForce
  by_cases hpend : timerPending s t = true
  · rw [if_pos hpend]
    exact (doTimer_kept (h.push _) (h.timerPending_iff.1 hpend)).mono fun hs => hs.congr fun _ _ => rfl
  · rw [if_neg hpend]
    exact (h.push _).kept (List.Sublist.refl _) fun _ _ => rfl

theorem timerCancel_kept : Kept s xs (timerCancel timer s) := by
  cases timer with
  | none => exact h.kept (List.Sublist.refl _) fun _ _ => rfl
  | some t => exact h.cancel.kept erase_sublist fun _ _ => rfl

theorem timerFree_kept : Kept s xs (timerFree timer s) := by
  cases timer with
  | none => exact h.kept (List.Sublist.refl _) fun _ _ => rfl
  | some t =>
    have hnot : t ∉ xs.erase t := fun hin => (h.nodup.mem_erase_iff.1 hin).1 rfl
    exact (h.cancel.dealloc hnot).kept erase_sublist fun _ _ => rfl

theorem checkTimers_kept : Kept s xs (checkTimers now s) := by
  have hstack : ∀ st : List Frame, Kept s xs { s with stack := st } := fun st =>
    (h.stack st).kept (List.Sublist.refl _) fun _ _ => rfl
  unfold checkTimers
  split
  · exact hstack _
  · dsimp only
    split_ifs
    · exact hstack _
    · exact hstack _
    · exact hstack _

/-- `DoTimers` returns: nothing has happened to the list. -/
theorem expired_listed (rest : List Frame) :
    Listed ({ s with stack := rest }.record (.expired now)) xs :=
  (h.stack rest).record (fun _ _ => rfl) fun _ _ _ _ heq => by cases heq

theorem doTimersTurn_kept (rest : List Frame) :
    Kept s xs (doTimersTurn now rest s) := by
  have hlisted : Listed ({ s with stack := rest }.record (.expired now)) xs := expired_listed h rest
  have hdone := hlisted.kept (List.Sublist.refl _) fun u _ => (rfl : _ = s.expires u)
  unfold doTimersTurn
  rw [h.firstTimer_eq]
  cases xs with
  | nil => exact hdone
  | cons timer xs =>
    dsimp only [head?_cons]
    split
    · exact hdone
    · exact doTimer_kept h (by simp)

theorem checkAllTimersTurn_kept (rest : List Frame) :
    Kept s xs (checkAllTimersTurn now rest s) := by
  unfold checkAllTimersTurn
  rw [h.search_eq]
  generalize hys : xs.dropWhile _ = ys
  cases ys with
  | nil => exact (h.stack rest).kept (List.Sublist.refl _) fun _ _ => rfl
  | cons timer ys =>
    apply doTimer_kept h
    have hsub : (timer :: ys).Sublist xs := hys ▸ dropWhile_sublist _
    exact hsub.subset (by simp)

end Functions

/-! ### Steps -/

/-- The timers that the step uses have not been freed. -/
def InUse (s : TimerState) : TimerInput → Prop
  | .call c _ => ∀ t, c.timer = some t → s.allocated t
  | .ret v _ =>
    match s.stack with
    | .doTimer t :: _ => v ≠ 0 → s.allocated t
    | .timerSet t _ millis _ _ _ :: _ => millis ≠ 0 → s.allocated t
    | _ => True
  | .goOn _ => True

/-- A callback that `TimerSet` forces has not armed its timer, when `TimerSet` is about to. -/
def ForcedUnarmed (s : TimerState) : TimerInput → Prop
  | .ret _ _ =>
    match s.stack with
    | .timerSet t _ millis _ _ _ :: _ => millis ≠ 0 → pendingIn s.log t = false
    | _ => True
  | _ => True

/-- The step finds the timers in use and unarmed where they have to be, and the times that the
pending timers expire at, and that the loop on top of the stack runs for, within half the clock
of one another. -/
structure Fits (s : TimerState) (i : TimerInput) : Prop where
  inUse : InUse s i
  unarmed : ForcedUnarmed s i
  window : Window fun a => Expiry s a ∨ s.stack.head? = some (.doTimers a)

theorem enter_kept (h : Listed s xs) {c : TimerCall} (ha : ∀ t, c.timer = some t → s.allocated t) :
    Kept s xs (enter c clock s) := by
  cases c with
  | set timer flags millis func arg memory => exact timerSet_kept h ha
  | cancel timer => exact timerCancel_kept h
  | force timer => exact timerForce_kept h
  | free timer => exact timerFree_kept h
  | doTimers now => exact (h.push _).kept (List.Sublist.refl _) fun _ _ => rfl
  | checkAllTimers => exact (h.push _).kept (List.Sublist.refl _) fun _ _ => rfl
  | checkTimers => exact checkTimers_kept h

theorem callbackReturns_kept (h : Listed s xs) {v : UInt32} (hu : InUse s (.ret v clock))
    (hf : ForcedUnarmed s (.ret v clock)) : Kept s xs (callbackReturns v clock s) := by
  have hsame : Kept s xs s := h.kept (List.Sublist.refl _) fun _ _ => rfl
  unfold callbackReturns
  unfold InUse at hu
  unfold ForcedUnarmed at hf
  split
  · rename_i t rest hst
    simp only [hst] at hu
    split
    · rename_i hv
      refine (timerSet_kept (h.stack rest) ?_).mono fun hs => hs.congr fun _ _ => rfl
      intro u heq
      cases heq
      exact hu hv
    · exact (h.stack rest).kept (List.Sublist.refl _) fun _ _ => rfl
  · rename_i t flags millis func arg now rest hst
    simp only [hst] at hu hf
    refine (timerSetFields_kept (h.stack rest) ?_ hu).mono fun hs => hs.congr fun _ _ => rfl
    intro hm hin
    have hpend := (h.pending t).1 hin
    rw [hf hm] at hpend
    cases hpend
  · exact hsame

theorem goOn_kept (h : Listed s xs) : Kept s xs (goOn clock s) := by
  unfold goOn
  split
  · exact doTimersTurn_kept h _
  · exact checkAllTimersTurn_kept h _
  · rename_i a rest hst
    have hl := (h.stack rest).record (e := .answered a) (fun _ _ => rfl) fun _ _ _ _ heq => by cases heq
    exact hl.kept (List.Sublist.refl _) fun _ _ => rfl
  · exact h.kept (List.Sublist.refl _) fun _ _ => rfl

variable {i : TimerInput}

/-- **A step keeps the list** of the pending timers. -/
theorem step_kept (h : Listed s xs) (hu : InUse s i) (hf : ForcedUnarmed s i) :
    Kept s xs (step s i) := by
  unfold step
  rw [if_neg (by simp [h.runs])]
  cases i with
  | call c clock =>
    dsimp only
    split
    · exact enter_kept h hu
    · exact h.kept (List.Sublist.refl _) fun _ _ => rfl
  | ret v clock => exact callbackReturns_kept h hu hf
  | goOn clock => exact goOn_kept h

/-! ### What is due when `DoTimers` returns -/

/-- The calls of `DoTimers` that have returned, by their argument. -/
def expirations (log : List TimerEvent) : List UInt32 :=
  log.filterMap fun e => match e with
    | .expired now => some now
    | _ => none

section Expirations

variable {flags millis : UInt32} {func arg : ℕ} {timer : Option ℕ}

theorem expirations_append (log es : List TimerEvent) :
    expirations (log ++ es) = expirations log ++ expirations es := filterMap_append

@[simp] theorem doTimer_expirations : expirations (doTimer t now s).log = expirations s.log := by
  show expirations (s.log ++ [_]) = _
  rw [expirations_append]
  exact append_nil _

@[simp] theorem sortIntoList_expirations :
    expirations (sortIntoList t millis now s).log = expirations s.log := by
  unfold sortIntoList
  split
  · rfl
  · rename_i existing _
    have harm : expirations (s.log ++ [.armed t]) = expirations s.log := by
      rw [expirations_append]
      exact append_nil _
    split
    · rw [doTimer_expirations]
      exact harm
    · exact harm

@[simp] theorem timerSetFields_expirations :
    expirations (timerSetFields t flags millis func arg now s).log = expirations s.log := by
  unfold timerSetFields
  split
  · rfl
  · exact sortIntoList_expirations

@[simp] theorem timerSet_expirations {memory : Bool} :
    expirations (timerSet timer flags millis func arg now memory s).log = expirations s.log := by
  unfold timerSet
  cases timer with
  | none =>
    cases memory with
    | false => rfl
    | true => exact timerSetFields_expirations
  | some t =>
    dsimp only
    split
    · split
      · show expirations (s.log ++ [_]) = _
        rw [expirations_append]
        exact append_nil _
      · rw [timerSetFields_expirations]
        show expirations (s.log ++ [_]) = _
        rw [expirations_append]
        exact append_nil _
    · exact timerSetFields_expirations

theorem enter_expirations (c : TimerCall) : expirations (enter c clock s).log = expirations s.log := by
  have hcancel : ∀ timer, expirations (timerCancel timer s).log = expirations s.log := by
    intro timer
    cases timer with
    | none => rfl
    | some t =>
      show expirations (s.log ++ [_]) = _
      rw [expirations_append]
      exact append_nil _
  cases c with
  | set timer flags millis func arg memory => exact timerSet_expirations
  | cancel timer => exact hcancel timer
  | force timer =>
    show expirations (timerForce timer clock s).log = _
    unfold timerForce
    split
    · exact doTimer_expirations
    · rfl
  | free timer =>
    cases timer with
    | none => rfl
    | some t => exact hcancel (some t)
  | doTimers now => rfl
  | checkAllTimers => rfl
  | checkTimers =>
    show expirations (checkTimers clock s).log = _
    unfold checkTimers
    split
    · rfl
    · dsimp only
      split_ifs <;> rfl

theorem callbackReturns_expirations (v : UInt32) :
    expirations (callbackReturns v clock s).log = expirations s.log := by
  unfold callbackReturns
  split
  · dsimp only
    split
    · exact timerSet_expirations
    · rfl
  · exact timerSetFields_expirations
  · rfl

end Expirations

/-- `s'` is where a call of `DoTimers` has just returned only if no pending timer is due. -/
def NoneDue (s s' : TimerState) : Prop :=
  ∀ now, s'.log = s.log ++ [.expired now] → ∀ t, pendingIn s'.log t → 0 < ahead (s'.expires t) now

theorem noneDue_of_expirations (h : expirations s'.log = expirations s.log) : NoneDue s s' := by
  intro now hlog
  rw [hlog] at h
  have := congrArg length h
  simp [expirations] at this

/-- `DoTimers` returns when the first timer is not due, and then no timer is. -/
theorem doTimersTurn_noneDue (h : Listed s xs) (hs : Sorted s xs) (rest : List Frame)
    (hw : Window fun a => Expiry s a ∨ a = now) : NoneDue s (doTimersTurn now rest s) := by
  unfold doTimersTurn
  rw [h.firstTimer_eq]
  have hreturn : (∀ t ∈ xs, 0 < ahead (s.expires t) now) →
      NoneDue s ({ s with stack := rest }.record (.expired now)) := by
    intro hall now' hlog t ht
    have hlast : s.log ++ [TimerEvent.expired now] = s.log ++ [.expired now'] := hlog
    have hnow : now = now' := by simpa using hlast
    rw [← hnow]
    exact hall t (((expired_listed h rest).pending t).2 ht)
  cases xs with
  | nil => exact hreturn (by simp)
  | cons timer xs =>
    dsimp only [head?_cons]
    split
    · rename_i hfirst
      apply hreturn
      intro t ht
      have hin : ∀ u ∈ timer :: xs, Expiry s (s.expires u) ∨ s.expires u = now :=
        fun u hu => .inl ((h.expiry _).1 ⟨u, hu, rfl⟩)
      rcases mem_cons.1 ht with rfl | ht'
      · exact hfirst
      · have hle := (pairwise_cons.1 hs).1 t ht'
        have hneg := hw.ahead_neg (hin timer (by simp)) (hin t ht)
        have htrans := hw.ahead_trans (hin t ht) (hin timer (by simp)) (.inr rfl)
        omega
    · exact noneDue_of_expirations doTimer_expirations

theorem goOn_noneDue (h : Listed s xs) (hs : Sorted s xs)
    (hw : Window fun a => Expiry s a ∨ s.stack.head? = some (.doTimers a)) : NoneDue s (goOn clock s) := by
  unfold goOn
  split
  · rename_i now rest hst
    refine doTimersTurn_noneDue h hs rest (hw.mono fun a ha => ?_)
    rcases ha with ha | rfl
    · exact .inl ha
    · exact .inr (by rw [hst]; rfl)
  · apply noneDue_of_expirations
    unfold checkAllTimersTurn
    split
    · rfl
    · rfl
    · exact doTimer_expirations
  · apply noneDue_of_expirations
    show expirations (s.log ++ [_]) = _
    rw [expirations_append]
    exact append_nil _
  · exact noneDue_of_expirations rfl

theorem step_noneDue (h : Listed s xs) (hs : Sorted s xs) (hf : Fits s i) :
    NoneDue s (step s i) := by
  unfold step
  rw [if_neg (by simp [h.runs])]
  cases i with
  | call c clock =>
    apply noneDue_of_expirations
    dsimp only
    split
    · exact enter_expirations c
    · rfl
  | ret v clock => exact noneDue_of_expirations (callbackReturns_expirations v)
  | goOn clock => exact goOn_noneDue h hs hf.window

/-! ### Runs -/

/-- The list of `s` is as it should be, and so is what a fitting step does from there. -/
structure Correct (s : TimerState) : Prop where
  /-- No traversal has failed to end. -/
  runs : s.hung = false
  /-- The list has every pending timer once and no other, in order. -/
  list : ∃ xs, s.links.Registry none (xs.map some) ∧ (∀ t, t ∈ xs ↔ pendingIn s.log t) ∧
    (Window (Expiry s) → Sorted s xs)
  /-- Each callback is for an arming of its own that was not cancelled. -/
  calls : CallsPending s.log
  /-- No timer is left due when `DoTimers` returns. -/
  due : ∀ i, Fits s i → NoneDue s (step s i)

/-- The invariant of a run. -/
def Ordered (s : TimerState) : Prop := ∃ xs, Listed s xs ∧ (Window (Expiry s) → Sorted s xs)

theorem Fits.expiry (hf : Fits s i) : Window (Expiry s) :=
  hf.window.mono fun _ => .inl

theorem step_ordered (s : TimerState) (i : TimerInput) (hf : Fits s i) (h : Ordered s) :
    Ordered (step s i) := by
  obtain ⟨xs, hl, hs⟩ := h
  obtain ⟨ys, hl', hs'⟩ := step_kept hl hf.inUse hf.unarmed
  exact ⟨ys, hl', hs' (hs hf.expiry)⟩

theorem Ordered.correct (h : Ordered s) : Correct s := by
  obtain ⟨xs, hl, hs⟩ := h
  exact ⟨hl.runs, ⟨xs, hl.ring, hl.pending, hs⟩, hl.calls, fun i hf => step_noneDue hl (hs hf.expiry) hf⟩

/-- **The timers**: in a run of fitting steps the list has every pending timer once and no other,
sorted by the signed differences; each callback is for one arming, and none is for a timer that
was cancelled; and when `DoTimers` returns, no pending timer is due. -/
theorem timers_correct (is : List TimerInput) (h : AllSteps step Fits .init is) :
    Correct (run step .init is) := by
  have hinit : Ordered .init := ⟨[], init_listed, fun _ => List.Pairwise.nil⟩
  exact Ordered.correct (h.invariant step_ordered hinit)

/-- All times of `s` are in the first half of the clock. -/
def early (s : TimerState) : Bool :=
  (s.log.all fun e => match e with
    | .armed t => (s.expires t).toNat < 2 ^ 31
    | _ => true) &&
  match s.stack.head? with
    | some (.doTimers now) => now.toNat < 2 ^ 31
    | _ => true

theorem armed_mem_of_pendingIn {log : List TimerEvent} (h : pendingIn log t) : .armed t ∈ log := by
  induction log using reverseRecOn with
  | nil => simp [pendingIn] at h
  | append_singleton log e ih =>
    rw [pendingIn_append] at h
    have hold : pendingIn log t = true ∨ e = .armed t := by
      cases e with
      | armed u =>
        rcases or_eq_true_iff.1 h with h | h
        · exact .inl h
        · exact .inr (by rw [of_decide_eq_true h])
      | disarmed u => exact .inl (and_eq_true_iff.1 h).1
      | called u _ _ _ => exact .inl (and_eq_true_iff.1 h).1
      | expired _ => exact .inl h
      | answered _ => exact .inl h
    rcases hold with h | rfl
    · exact mem_append_left _ (ih h)
    · simp

theorem fits_of_early (hu : InUse s i) (hf : ForcedUnarmed s i) (he : early s = true) :
    Fits s i := by
  obtain ⟨hlog, hstack⟩ := and_eq_true_iff.1 he
  refine ⟨hu, hf, 0, fun a ha => ?_⟩
  rw [UInt32.sub_zero]
  rcases ha with ⟨t, ht, rfl⟩ | ha
  · exact of_decide_eq_true (all_eq_true.1 hlog _ (armed_mem_of_pendingIn ht))
  · rw [ha] at hstack
    exact of_decide_eq_true hstack

/-- A timer is set, expires, and its callback does not set it again. -/
def expiringRun : List TimerInput :=
  [.call (.set none 0 10 7 8 true) 5, .goOn 5, .call (.doTimers 20) 20, .goOn 20, .ret 0 20, .goOn 20]

theorem expiringRun_correct : Correct (run step .init expiringRun) ∧
    (run step .init expiringRun).log =
      [.armed 0, .answered (.timer (some 0)), .called 0 7 20 8, .expired 20] := by
  have hnone : ∀ t : ℕ, (none : Option ℕ) = some t → ∀ s : TimerState, s.allocated t := by
    intro t ht
    cases ht
  refine ⟨timers_correct expiringRun ?_, by decide⟩
  refine ⟨?_, ?_, ?_, ?_, ?_, ?_, trivial⟩
  · exact fits_of_early (fun t ht => hnone t ht _) trivial (by decide)
  · exact fits_of_early trivial trivial (by decide)
  · exact fits_of_early (fun t ht => hnone t ht _) trivial (by decide)
  · exact fits_of_early trivial trivial (by decide)
  · exact fits_of_early (fun h => absurd rfl h) trivial (by decide)
  · exact fits_of_early trivial trivial (by decide)

/-! ### The two failures -/

/-- Timer 0 is pending and set again with `TimerForceOld`; its callback sets it, too. -/
def forcedRun : List TimerInput :=
  [.call (.set none 0 10 7 8 true) 5, .goOn 5, .call (.set (some 0) TimerForceOld 20 7 8 true) 6,
    .call (.set (some 0) 0 5 7 8 true) 6, .goOn 6, .ret 0 6]

/-- Timer 2 is set while timer 0 is due, for a time half the clock after that of timer 0; then
timer 0 is cancelled, and timers 1 and 2 are left. -/
def farApartRun : List TimerInput :=
  [.call (.set none 0 1 7 8 true) 0, .goOn 0, .call (.set none 0 0x40000001 7 8 true) 0, .goOn 0,
    .call (.set none 0 0x7fffffff 7 8 true) 3, .goOn 3, .call (.cancel (some 0)) 3]

/-- **The forced callback arms its timer**: the node of the timer is its own successor, and no
list of timers is linked from the head. -/
theorem forced_breaks_list : AllSteps step InUse .init forcedRun ∧
    ¬∃ xs : List ℕ, (run step .init forcedRun).links.Registry none (xs.map some) := by
  refine ⟨?_, ?_⟩
  · refine ⟨(fun t ht => by cases ht), trivial, fun t ht => ?_, fun t ht => ?_, trivial, fun _ => ?_, trivial⟩
    · cases ht
      decide
    · cases ht
      decide
    · decide
  · rintro ⟨xs, hr⟩
    have hhead : (run step .init forcedRun).links.next none = some (some 0) := by decide
    have hself : (run step .init forcedRun).links.next (some 0) = some (some 0) := by decide
    have hfirst := hr.ring.next.first
    rw [hhead] at hfirst
    have hmem : some 0 ∈ xs.map some := by
      cases xs with
      | nil => cases hfirst
      | cons x xs =>
        have hx : x = 0 := by simpa [eq_comm] using hfirst
        simp [hx]
    obtain ⟨n, hn, hne⟩ := hr.ring.next_mem hmem
    cases hn
    exact hne rfl

/-- **Far apart for a while**: timers 1 and 2 expire within half the clock of one another, but
the later one is first in the list. -/
theorem far_apart_breaks_order : AllSteps step InUse .init farApartRun ∧
    Window (Expiry (run step .init farApartRun)) ∧
    ¬∃ xs : List ℕ, (run step .init farApartRun).links.Registry none (xs.map some) ∧
      Sorted (run step .init farApartRun) xs := by
  refine ⟨?_, ?_, ?_⟩
  · refine ⟨(fun t ht => by cases ht), trivial, (fun t ht => by cases ht), trivial, (fun t ht => by cases ht),
      trivial, fun t ht => ?_, trivial⟩
    cases ht
    decide
  · refine ⟨0x40000001, ?_⟩
    rintro a ⟨t, ht, rfl⟩
    have hlog : (run step .init farApartRun).log =
        [.armed 0, .answered (.timer (some 0)), .armed 1, .answered (.timer (some 1)), .armed 2,
          .answered (.timer (some 2)), .disarmed 0] := by decide
    have hmem : t = 1 ∨ t = 2 := by
      rw [hlog] at ht
      simp only [pendingIn, TimerEvent.pending, foldl_cons] at ht
      simp at ht
      omega
    rcases hmem with rfl | rfl
    · decide
    · decide
  · rintro ⟨xs, hr, hs⟩
    have hhead : (run step .init farApartRun).links.next none = some (some 2) := by decide
    have hnext : (run step .init farApartRun).links.next (some 2) = some (some 1) := by decide
    obtain ⟨ys, rfl⟩ : ∃ ys, xs = 2 :: 1 :: ys := by
      have h1 := hr.ring.next
      cases xs with
      | nil => exact absurd (hhead.symm.trans h1) (by decide)
      | cons x xs =>
        obtain ⟨hx, h2⟩ := h1
        rw [hhead] at hx
        cases hx
        cases xs with
        | nil => exact absurd (hnext.symm.trans h2) (by decide)
        | cons y ys =>
          have hy := h2.1
          cases hy
          exact ⟨ys, rfl⟩
    have hle := (pairwise_cons.1 hs).1 1 (by simp)
    exact absurd hle (by decide)

/-- Neither run is as it should be, though no step of them uses a freed timer. -/
theorem timers_fail : (AllSteps step InUse .init forcedRun ∧ ¬Correct (run step .init forcedRun)) ∧
    AllSteps step InUse .init farApartRun ∧ ¬Correct (run step .init farApartRun) := by
  refine ⟨⟨forced_breaks_list.1, ?_⟩, far_apart_breaks_order.1, ?_⟩
  · intro h
    obtain ⟨xs, hr, -⟩ := h.list
    exact forced_breaks_list.2 ⟨xs, hr⟩
  · intro h
    obtain ⟨xs, hr, -, hs⟩ := h.list
    exact far_apart_breaks_order.2.2 ⟨xs, hr, hs far_apart_breaks_order.2.1⟩

end Xenia.Os.Timer
