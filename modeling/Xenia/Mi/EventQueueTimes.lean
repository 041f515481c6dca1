import Xenia.Mi.EventQueueOrder

/-!
# The times of the input events

`mieqEnqueue` wants event times that do not go backwards: one that is less than 10000 ms
behind the last one is raised to it. The event has been copied into its slot by then, and
it is the caller's copy that is raised (`correctedEvent`), so a slot holds the time the
event came in with (`storedTime_eq`), which is the next `lastEventTime`.

`times_ordered` says for which runs the stored times are in order all the same: those in
which no event after the first one meets the test of the correction.
-/

namespace Xenia.Mi

open Xenia.Lib Option List

variable {β : Type}

/-! ### The correction -/

/-- The test of the correction: the event is behind the last one, but by less than 10000 ms. -/
def LittleBehind (x : Incoming β) (q : EventQueue β) : Prop :=
  x.event.time < q.lastEventTime ∧ q.lastEventTime - x.event.time < 10000

instance (x : Incoming β) (q : EventQueue β) : Decidable (LittleBehind x q) :=
  inferInstanceAs (Decidable (_ ∧ _))

/-- The caller's copy of an event that was stored, after the call. -/
def correctedEvent (x : Incoming β) (q : EventQueue β) : InternalEvent β :=
  if LittleBehind x q then { x.event with time := q.lastEventTime } else x.event

/-! ### The slot of an event -/

section Slots

variable [Inhabited β]

/-- The slot `mieqEnqueue` picks for an event, and the queue it belongs to; `none` when the
event is dropped. -/
def enqueueSlot (a : GrowAnswers) (x : Incoming β) (q : EventQueue β) : Option (ℕ × EventQueue β) :=
  let oldtail := toUint q.tail
  let isMotion := x.motionId
  if isMotion ≠ 0 ∧ isMotion = q.lastMotion ∧ oldtail ≠ toUint q.head then
    some ((oldtail + 2 ^ 32 - 1) % 2 ^ 32 % q.nevents, q)
  else if mieqNumEnqueued q + 1 = q.nevents then
    let (q, grown) := mieqGrowQueue a (q.nevents <<< 1) q
    if !grown then none else some (toUint q.tail, q)
  else some (oldtail, q)

variable {a : GrowAnswers} {x : Incoming β} {q q₁ : EventQueue β}

theorem mieqEnqueue_slot {i : ℕ} (h : enqueueSlot a x q = some (i, q₁)) : mieqEnqueue a x q = storeEvent x x.motionId i q₁ := by
  unfold enqueueSlot at h
  unfold mieqEnqueue
  dsimp only at h ⊢
  split at h
  · rename_i hmerge
    rw [if_pos hmerge]
    obtain ⟨rfl, rfl⟩ := Prod.mk.inj (some.inj h)
    rfl
  · rename_i hmerge
    rw [if_neg hmerge]
    split at h
    · rename_i hfull
      rw [if_pos hfull]
      split at h
      · cases h
      · rename_i hgrown
        rw [if_neg hgrown]
        obtain ⟨rfl, rfl⟩ := Prod.mk.inj (some.inj h)
        rfl
    · rename_i hroom
      rw [if_neg hroom]
      obtain ⟨rfl, rfl⟩ := Prod.mk.inj (some.inj h)
      rfl

/-- A growth leaves the time of the last event alone. -/
theorem mieqGrowQueue_times (a : GrowAnswers) (n : ℕ) (q : EventQueue β) :
    (mieqGrowQueue a n q).1.lastEventTime = q.lastEventTime ∧ (mieqGrowQueue a n q).1.dropped = q.dropped := by
  unfold mieqGrowQueue
  split
  · exact ⟨rfl, rfl⟩
  · split
    · exact ⟨rfl, rfl⟩
    · dsimp only
      split
      · exact ⟨rfl, rfl⟩
      · exact ⟨rfl, rfl⟩

theorem enqueueSlot_kept {i : ℕ} (h : enqueueSlot a x q = some (i, q₁)) : q₁.dropped = q.dropped := by
  unfold enqueueSlot at h
  dsimp only at h
  split at h
  · exact congrArg _ (Prod.mk.inj (some.inj h)).2.symm
  · split at h
    · split at h
      · cases h
      · obtain ⟨-, rfl⟩ := Prod.mk.inj (some.inj h)
        exact (mieqGrowQueue_times a _ q).2
    · exact congrArg _ (Prod.mk.inj (some.inj h)).2.symm

/-- An event that gets no slot is counted, and nothing of it is stored. -/
theorem mieqEnqueue_dropped (h : enqueueSlot a x q = none) :
    ∃ q', mieqEnqueue a x q = some q' ∧ q'.lastEventTime = q.lastEventTime ∧ q'.dropped = q.dropped + 1 := by
  unfold enqueueSlot at h
  unfold mieqEnqueue
  dsimp only at h ⊢
  split at h
  · cases h
  · rename_i hmerge
    rw [if_neg hmerge]
    split at h
    · rename_i hfull
      rw [if_pos hfull]
      split at h
      · rename_i hgrown
        rw [if_pos hgrown]
        obtain ⟨htime, hdropped⟩ := mieqGrowQueue_times a (q.nevents <<< 1) q
        exact ⟨_, rfl, htime, by dsimp only; rw [hdropped]⟩
      · cases h
    · cases h

/-- There is a slot for the event, and its storage was not freed. -/
def HasSlot (a : GrowAnswers) (x : Incoming β) (q : EventQueue β) : Prop :=
  ∃ i q₁, enqueueSlot a x q = some (i, q₁) ∧ (q₁.storage (q₁.events i).events).isSome

/-- The time in the slot of an event, when `mieqEnqueue` returns. -/
def storedTime (a : GrowAnswers) (x : Incoming β) (q : EventQueue β) : Option ℕ :=
  (enqueueSlot a x q).bind fun (i, _) => (mieqEnqueue a x q).bind fun q' =>
    (q'.storage (q'.events i).events).map InternalEvent.time

omit [Inhabited β] in
/-- What a slot holds after an event went into it. -/
theorem storeEvent_live {i : ℕ} {e : InternalEvent β} (x : Incoming β) (m : ℕ) (he : q.storage (q.events i).events = some e) :
    ∃ q', storeEvent x m i q = some q' ∧ q'.lastEventTime = x.event.time ∧ q'.dropped = q.dropped ∧
      (q'.events i).events = (q.events i).events ∧ q'.storage (q.events i).events = some x.event := by
  unfold storeEvent
  dsimp only
  rw [he]
  refine ⟨_, rfl, rfl, rfl, ?_, ?_⟩
  · dsimp only
    rw [Function.update_self]
  · exact Function.update_self ..

/-- **The stored time** is the one the event came in with, and it is what the next event is
compared to. -/
theorem storedTime_eq (h : HasSlot a x q) :
    storedTime a x q = some x.event.time ∧
      ∃ q', mieqEnqueue a x q = some q' ∧ q'.lastEventTime = x.event.time ∧ q'.dropped = q.dropped := by
  obtain ⟨i, q₁, hslot, hlive⟩ := h
  obtain ⟨e, he⟩ := isSome_iff_exists.1 hlive
  obtain ⟨q', hstore, hlast, hdropped, hevents, hstorage⟩ := storeEvent_live x x.motionId he
  have hrun : mieqEnqueue a x q = some q' := (mieqEnqueue_slot hslot).trans hstore
  refine ⟨?_, q', hrun, hlast, hdropped.trans (enqueueSlot_kept hslot)⟩
  unfold storedTime
  rw [hslot, hrun]
  dsimp only [bind_some]
  rw [hevents, hstorage]
  rfl

/-- Without a live slot nothing is stored: the event is dropped, or the run ends. -/
theorem storedTime_eq_none (h : ¬HasSlot a x q) :
    storedTime a x q = none ∧ (mieqEnqueue a x q = none ∨
      ∃ q', mieqEnqueue a x q = some q' ∧ q'.lastEventTime = q.lastEventTime ∧ q'.dropped = q.dropped + 1) := by
  unfold storedTime
  cases hslot : enqueueSlot a x q with
  | none => exact ⟨rfl, .inr (mieqEnqueue_dropped hslot)⟩
  | some slot =>
    obtain ⟨i, q₁⟩ := slot
    have hfreed : q₁.storage (q₁.events i).events = none := by
      rw [← not_isSome_iff_eq_none]
      exact fun hlive => h ⟨i, q₁, hslot, hlive⟩
    have hrun : mieqEnqueue a x q = none := by
      rw [mieqEnqueue_slot hslot]
      unfold storeEvent
      dsimp only
      rw [hfreed]
    rw [hrun]
    exact ⟨rfl, .inl rfl⟩

end Slots

/-! ### Runs -/

section Runs

variable [Inhabited β]

/-- The time a step stores, if it does. -/
def stepTime (st : QueueRun β) (op : QueueOp β) : Option ℕ :=
  match st, op with
  | some (q, _), .enqueue x a => storedTime a x q
  | _, _ => none

/-- The times a run stores, one for each event the queue takes. -/
def storedTimes : QueueRun β → List (QueueOp β) → List ℕ
  | _, [] => []
  | st, op :: ops => (stepTime st op).toList ++ storedTimes (queueStep st op) ops

/-- No time is behind the one before it, unless by 10000 ms or more. -/
def TimesOrdered (times : List ℕ) : Prop := times.IsChain fun t t' => t ≤ t' ∨ t' + 10000 ≤ t

instance (times : List ℕ) : Decidable (TimesOrdered times) :=
  inferInstanceAs (Decidable (List.IsChain _ _))

/-- The condition on a step: an event that is stored after others does not meet the test of
the correction. -/
def NotBehindStep (st : QueueRun β) (op : QueueOp β) : Prop :=
  ∀ q log, st = some (q, log) → ∀ x a, op = .enqueue x a →
    log.taken ≠ [] → HasSlot a x q → ¬LittleBehind x q

/-- The time of the last event, if there was one. -/
def lastTime (q : EventQueue β) (log : QueueLog β) : List ℕ :=
  if log.taken = [] then [] else [q.lastEventTime]

omit [Inhabited β] in
theorem take_ne_nil (log : QueueLog β) (x : Incoming β) : (log.take x).taken ≠ [] := by
  unfold QueueLog.take
  split
  · exact append_ne_nil_of_right_ne_nil _ (cons_ne_nil _ _)
  · exact append_ne_nil_of_right_ne_nil _ (cons_ne_nil _ _)

theorem storedTimes_none (ops : List (QueueOp β)) : storedTimes (none : QueueRun β) ops = [] := by
  induction ops with
  | nil => rfl
  | cons op ops ih =>
    cases op with
    | enqueue x a => exact ih
    | resume => exact ih
    | dequeue => exact ih

theorem notBehindStep_none (ops : List (QueueOp β)) : AllSteps queueStep NotBehindStep (none : QueueRun β) ops := by
  induction ops with
  | nil => trivial
  | cons op ops ih => exact ⟨fun _ _ h => (nomatch h), ih⟩

omit [Inhabited β] in
/-- A time after the last one is in order when the test of the correction fails. -/
theorem lastTime_ordered (q : EventQueue β) (log : QueueLog β) (x : Incoming β) (times : List ℕ) :
    TimesOrdered (lastTime q log ++ x.event.time :: times) ↔
      (log.taken ≠ [] → ¬LittleBehind x q) ∧ TimesOrdered (x.event.time :: times) := by
  unfold lastTime TimesOrdered
  by_cases htaken : log.taken = []
  · rw [if_pos htaken]
    exact (and_iff_right (absurd htaken)).symm
  · rw [if_neg htaken, singleton_append, isChain_cons_cons]
    have : (q.lastEventTime ≤ x.event.time ∨ x.event.time + 10000 ≤ q.lastEventTime) ↔
        ¬(x.event.time < q.lastEventTime ∧ q.lastEventTime - x.event.time < 10000) := by
      omega
    rw [this]
    exact ⟨fun h => ⟨fun _ => h.1, h.2⟩, fun h => ⟨h.1 htaken, h.2⟩⟩

omit [Inhabited β] in
theorem lastTime_only (q : EventQueue β) (log : QueueLog β) : TimesOrdered (lastTime q log ++ []) := by
  unfold lastTime
  split
  · exact isChain_nil
  · exact isChain_singleton _

omit [Inhabited β] in
theorem dequeue_time {q q' : EventQueue β} {y : Option (Item β)} (h : dequeue q = some (q', y)) :
    q'.lastEventTime = q.lastEventTime := by
  unfold dequeue at h
  split at h
  · obtain ⟨e, -, he⟩ := map_eq_some_iff.1 h
    obtain ⟨rfl, -⟩ := Prod.mk.inj he
    rfl
  · exact congrArg EventQueue.lastEventTime (Prod.mk.inj (some.inj h)).1.symm

/-- The run from any state: what it stores comes after the last time. -/
theorem storedTimes_ordered (ops : List (QueueOp β)) (q : EventQueue β) (log : QueueLog β) :
    TimesOrdered (lastTime q log ++ storedTimes (some (q, log)) ops) ↔
      AllSteps queueStep NotBehindStep (some (q, log)) ops := by
  induction ops generalizing q log with
  | nil => exact iff_of_true (lastTime_only q log) trivial
  | cons op ops ih =>
    unfold storedTimes AllSteps
    cases op with
    | resume =>
      have hcond : NotBehindStep (some (q, log)) .resume := by
        intro _ _ _ _ _ h
        cases h
      rw [and_iff_right hcond]
      exact ih { q with dropped := 0 } log
    | dequeue =>
      have hcond : NotBehindStep (some (q, log)) .dequeue := by
        intro _ _ _ _ _ h
        cases h
      have hstep : queueStep (some (q, log)) .dequeue = (dequeue q).map fun r =>
          (r.1, { log with given := log.given ++ r.2.toList }) := rfl
      rw [and_iff_right hcond, hstep]
      cases hrun : dequeue q with
      | none =>
        rw [map_none, storedTimes_none]
        exact iff_of_true (lastTime_only q log) (notBehindStep_none ops)
      | some r =>
        rw [map_some, ← ih]
        unfold lastTime
        rw [dequeue_time hrun]
        rfl
    | enqueue x a =>
      have hstep : queueStep (some (q, log)) (.enqueue x a) = (mieqEnqueue a x q).map fun q' =>
          (q', if q'.dropped = q.dropped then log.take x else log) := rfl
      have htime : stepTime (some (q, log)) (.enqueue x a) = storedTime a x q := rfl
      have hcond : NotBehindStep (some (q, log)) (.enqueue x a) ↔
          (log.taken ≠ [] → HasSlot a x q → ¬LittleBehind x q) := by
        constructor
        · exact fun h => h q log rfl x a rfl
        · intro h _ _ hst _ _ hop
          cases hst
          cases hop
          exact h
      rw [hstep, htime, hcond]
      by_cases hslot : HasSlot a x q
      · obtain ⟨hstored, q', hrun, hlast, hdropped⟩ := storedTime_eq hslot
        rw [hstored, hrun, map_some, if_pos hdropped]
        refine (lastTime_ordered q log x _).trans (and_congr ?_ ?_)
        · exact ⟨fun h htaken _ => h htaken, fun h htaken => h htaken hslot⟩
        · rw [← ih q' (log.take x)]
          unfold lastTime
          rw [if_neg (take_ne_nil log x), hlast]
          rfl
      · rw [and_iff_right fun _ h => absurd h hslot]
        obtain ⟨hstored, hrun | ⟨q', hrun, hlast, hdropped⟩⟩ := storedTime_eq_none hslot
        · rw [hstored, hrun, map_none, storedTimes_none]
          exact iff_of_true (lastTime_only q log) (notBehindStep_none ops)
        · rw [hstored, hrun, map_some, if_neg (by omega), ← ih q' log]
          unfold lastTime
          rw [hlast]
          rfl

/-- **The times of the queue**, over every run from `mieqInit` on: each stored time is at
least the one stored before it, or behind it by 10000 ms or more, exactly when no event
stored after another one meets the test of the correction. -/
theorem times_ordered (time : ℕ) (ops : List (QueueOp β)) :
    TimesOrdered (storedTimes (some (mieqInit time, ⟨[], []⟩)) ops) ↔
      AllSteps queueStep NotBehindStep (some (mieqInit time, ⟨[], []⟩)) ops :=
  storedTimes_ordered ops (mieqInit time) ⟨[], []⟩

end Runs

/-- An event of this time that is not of motion. -/
theorem eventAt_device (time : ℕ) : (InternalEvent.mk false time ()).isMotion = true → (none : Option Device).isSome :=
  fun h => Bool.noConfusion h

def eventAt (time : ℕ) : Incoming Unit := ⟨none, ⟨false, time, ()⟩, eventAt_device time⟩

/-- **A small step back** stays in the queue: an event of time 100, then one of time 50. -/
theorem times_go_back :
    storedTimes (some (mieqInit 0, ⟨[], []⟩)) [.enqueue (eventAt 100) plentiful, .enqueue (eventAt 50) plentiful] =
        [100, 50] ∧
      ¬TimesOrdered (storedTimes (some (mieqInit 0, ⟨[], []⟩))
        [.enqueue (eventAt 100) plentiful, .enqueue (eventAt 50) plentiful]) := by
  decide +kernel

end Xenia.Mi
