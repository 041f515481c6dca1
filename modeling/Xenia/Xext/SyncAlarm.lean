import Xenia.Xext.Sync

/-!
# The update of an alarm

An alarm that goes off adds its delta to its test value until the trigger is false.
`alarmLoop_ends`: unless the delta is 0, the loop comes to an end, since the value runs into the
bounds of 64 bits at the latest. `alarmLoop_spec`: where it does not overflow, the trigger is
false at the value it stops at, and that lies on the side of the delta. `updatedAlarm_ends` puts
them together for an alarm that is in order (`AlarmOk`).
-/

namespace Xenia.Xext

open Xenia.Lib Option

/-! ### Checked addition -/

theorem checkedInt64Add_overflow (a b : Int64) :
    (checkedInt64Add a b).2 = true ↔ a.toInt + b.toInt < -2 ^ 63 ∨ 2 ^ 63 ≤ a.toInt + b.toInt := by
  have ha := a.le_toInt
  have ha' := a.toInt_lt
  have hb := b.le_toInt
  have hb' := b.toInt_lt
  have hsum := Int64.toInt_add a b
  rw [Int.bmod_def] at hsum
  unfold checkedInt64Add
  simp only [Int64.lt_iff_toInt_lt, Int64.toInt_zero, Bool.and_eq_true, beq_iff_eq, bne_iff_ne, ne_eq,
    decide_eq_decide]
  split at hsum <;> omega

theorem checkedInt64Add_value {a b : Int64} (h : (checkedInt64Add a b).2 = false) :
    (checkedInt64Add a b).1.toInt = a.toInt + b.toInt := by
  have hno := mt (checkedInt64Add_overflow a b).2 (by simp [h])
  have hsum := Int64.toInt_add a b
  rw [Int.bmod_def] at hsum
  unfold checkedInt64Add
  dsimp only
  split at hsum <;> omega

/-! ### The loop -/

/-- How far the value may still go. -/
def room (delta testValue : Int64) : ℕ :=
  if 0 < delta.toInt then (2 ^ 63 - 1 - testValue.toInt).toNat else (testValue.toInt + 2 ^ 63).toNat

variable {check : Int64 → Bool} {delta testValue : Int64}

theorem room_lt (delta testValue : Int64) : room delta testValue < 2 ^ 64 := by
  have h := testValue.le_toInt
  have h' := testValue.toInt_lt
  unfold room
  split <;> omega

theorem room_step (hdelta : delta ≠ 0) (h : (checkedInt64Add testValue delta).2 = false) :
    room delta (checkedInt64Add testValue delta).1 < room delta testValue := by
  have hne : delta.toInt ≠ 0 := fun h0 => hdelta (Int64.toInt_inj.1 (by rw [h0, Int64.toInt_zero]))
  have hvalue := checkedInt64Add_value h
  have hlow := (checkedInt64Add testValue delta).1.le_toInt
  have hhigh := (checkedInt64Add testValue delta).1.toInt_lt
  unfold room
  split <;> omega

theorem alarmLoop_ends (check : Int64 → Bool) (hdelta : delta ≠ 0) :
    ∀ fuel testValue, room delta testValue < fuel → ∃ r, alarmLoop check delta fuel testValue = some r := by
  intro fuel
  induction fuel with
  | zero =>
    omega
  | succ fuel ih =>
    intro testValue hroom
    unfold alarmLoop
    dsimp only
    split
    · rename_i hnext
      have hno : (checkedInt64Add testValue delta).2 = false := by simpa using And.left (by simpa using hnext)
      have := room_step hdelta hno
      exact ih _ (by omega)
    · exact ⟨_, rfl⟩

/-- **Where the loop stops**: the trigger is false, and the value has moved with the delta. -/
theorem alarmLoop_spec (fuel : ℕ) : ∀ testValue {v : Int64},
    alarmLoop check delta fuel testValue = some (v, false) →
      check v = false ∧ (0 ≤ delta.toInt → testValue.toInt ≤ v.toInt) ∧
        (delta.toInt ≤ 0 → v.toInt ≤ testValue.toInt) := by
  induction fuel with
  | zero =>
    intro testValue v h
    unfold alarmLoop at h
    simp at h
  | succ fuel ih =>
    intro testValue v h
    unfold alarmLoop at h
    dsimp only at h
    split at h
    · rename_i hnext
      have hno : (checkedInt64Add testValue delta).2 = false := by simpa using And.left (by simpa using hnext)
      have hvalue := checkedInt64Add_value hno
      obtain ⟨hcheck, hup, hdown⟩ := ih _ h
      refine ⟨hcheck, fun h0 => ?_, fun h0 => ?_⟩
      · have := hup h0
        omega
      · have := hdown h0
        omega
    · rename_i hstop
      simp only [some.injEq, Prod.ext_iff] at h
      obtain ⟨rfl, hno⟩ := h
      have hvalue := checkedInt64Add_value hno
      refine ⟨?_, fun h0 => by omega, fun h0 => by omega⟩
      rw [hno] at hstop
      simpa using hstop

/-! ### Alarms in order -/

/-- The function of an alarm is that of its test type, and its delta does not go the wrong way. -/
def AlarmOk (pAlarm : SyncAlarm) : Prop :=
  selectCheckTrigger pAlarm.trigger.testType = some pAlarm.trigger.checkTrigger ∧
    wrongSign pAlarm.trigger.testType pAlarm.delta = false

theorem selectCheckTrigger_cases {testType : ℕ} {check : CheckTrigger} (h : selectCheckTrigger testType = some check) :
    testType = XSyncPositiveTransition ∧ check = .positiveTransition ∨
      testType = XSyncNegativeTransition ∧ check = .negativeTransition ∨
      testType = XSyncPositiveComparison ∧ check = .positiveComparison ∨
      testType = XSyncNegativeComparison ∧ check = .negativeComparison := by
  unfold selectCheckTrigger at h
  split at h
  · exact .inl ⟨‹_›, (some.inj h).symm⟩
  split at h
  · exact .inr (.inl ⟨‹_›, (some.inj h).symm⟩)
  split at h
  · exact .inr (.inr (.inl ⟨‹_›, (some.inj h).symm⟩))
  split at h
  · exact .inr (.inr (.inr ⟨‹_›, (some.inj h).symm⟩))
  · simp at h

/-- A transition needs another value. -/
theorem holds_transition {check : CheckTrigger} (value testValue : Int64)
    (h : check = .positiveTransition ∨ check = .negativeTransition) :
    check.holds value testValue value = false := by
  rcases h with rfl | rfl
  · simp only [CheckTrigger.holds, Bool.and_eq_false_iff, decide_eq_false_iff_not, Int64.lt_iff_toInt_lt, Int64.le_iff_toInt_le]
    omega
  · simp only [CheckTrigger.holds, Bool.and_eq_false_iff, decide_eq_false_iff_not,
      Int64.lt_iff_toInt_lt, Int64.le_iff_toInt_le]
    omega

/-- The loop of an alarm in order that is updated at all comes to an end. -/
theorem AlarmOk.loop {pAlarm : SyncAlarm} (h : AlarmOk pAlarm) (value : Int64)
    (hupdate : ¬(pAlarm.delta = 0 ∧ isComparison pAlarm.trigger.testType = true)) :
    ∃ r, alarmLoop (fun testValue => pAlarm.trigger.checkTrigger.holds value testValue value) pAlarm.delta
      (2 ^ 64) pAlarm.trigger.testValue = some r := by
  by_cases hdelta : pAlarm.delta = 0
  · have htrans : pAlarm.trigger.checkTrigger = .positiveTransition ∨
        pAlarm.trigger.checkTrigger = .negativeTransition := by
      have hno : isComparison pAlarm.trigger.testType ≠ true := fun hc => hupdate ⟨hdelta, hc⟩
      rcases selectCheckTrigger_cases h.1 with ⟨-, hc⟩ | ⟨-, hc⟩ | ⟨ht, -⟩ | ⟨ht, -⟩
      · exact .inl hc
      · exact .inr hc
      · exact absurd (by rw [ht]; rfl) hno
      · exact absurd (by rw [ht]; rfl) hno
    rw [show (2 : ℕ) ^ 64 = (2 ^ 64 - 1) + 1 from rfl]
    unfold alarmLoop
    dsimp only
    rw [holds_transition value _ htrans, Bool.and_false]
    exact ⟨_, rfl⟩
  · exact alarmLoop_ends _ hdelta _ _ (room_lt _ _)

theorem updatedAlarm_ends {P : Prop} {pAlarm : SyncAlarm} (h : P → AlarmOk pAlarm) (value : Option Int64) :
    Ends P (fun _ => True) (updatedAlarm pAlarm value) := by
  cases value with
  | none => exact .ok trivial
  | some value =>
    unfold updatedAlarm
    dsimp only
    split
    · exact .ok trivial
    · rename_i hupdate
      split
      · rename_i hloop
        refine .hang fun hP => ?_
        obtain ⟨r, hr⟩ := (h hP).loop value (by simpa using hupdate)
        rw [hr] at hloop
        simp at hloop
      · exact .ok trivial
      · exact .ok trivial

end Xenia.Xext
