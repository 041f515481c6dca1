import Xenia.Dix.Selection

/-!
# Client times

A client sends the milliseconds of a time stamp, and `clientTimeToServerTime` adds the month:
the one that brings it closest to the current time. The months change when the milliseconds
wrap, so a client time from the other side of a wrap belongs to the month before or after.
The test for that compares with `HALFMONTH`, which is the negative `int` value `1<<31` and
more than any difference of two times: the month stays the current one
(`clientTime_month`).

`compareTimeStamps_iff` says that time stamps are ordered as the milliseconds since the
first month. `clientTime_nearest` says for which times the month is right.
-/

namespace Xenia.Dix.Selections

/-! ### The order of time stamps -/

/-- The milliseconds since the start of month 0. -/
def TimeStamp.total (t : TimeStamp) : ℕ := t.months.toNat * 2 ^ 32 + t.milliseconds.toNat

/-- **The order of `compareTimeStamps`** is the order of the total milliseconds. -/
theorem compareTimeStamps_iff (a b : TimeStamp) :
    (compareTimeStamps a b = .EARLIER ↔ a.total < b.total) ∧
      (compareTimeStamps a b = .LATER ↔ b.total < a.total) := by
  have hma := a.milliseconds.toNat_lt
  have hmb := b.milliseconds.toNat_lt
  unfold compareTimeStamps TimeStamp.total
  simp only [UInt32.lt_iff_toNat_lt]
  split
  · simp only [reduceCtorEq, true_iff, false_iff]
    omega
  · split
    · simp only [reduceCtorEq, true_iff, false_iff]
      omega
    · split
      · simp only [reduceCtorEq, true_iff, false_iff]
        omega
      · split
        · simp only [reduceCtorEq, true_iff, false_iff]
          omega
        · simp only [reduceCtorEq, false_iff]
          omega

/-! ### The month of a client time -/

/-- Not more than half a month, which is `2 ^ 31` milliseconds, apart. -/
def WithinHalfMonth (a b : TimeStamp) : Prop := a.total ≤ b.total + 2 ^ 31 ∧ b.total ≤ a.total + 2 ^ 31

/-- The time stamp that client time `c` stands for: no other one with these milliseconds is
within half a month of the current time. -/
structure Nearest (currentTime : TimeStamp) (c : UInt32) (ts : TimeStamp) : Prop where
  milliseconds : ts.milliseconds = c
  within : WithinHalfMonth ts currentTime
  unique : ∀ t : TimeStamp, t.milliseconds = c → WithinHalfMonth t currentTime → t = ts

/-- No difference of two 32-bit times is above `HALFMONTH`. -/
theorem not_above_half {a b : UInt32} (h : b < a) : ¬a.toUInt64 - b.toUInt64 > HALFMONTH := by
  have ha := a.toNat_lt
  rw [UInt32.lt_iff_toNat_lt] at h
  have hle : b.toUInt64 ≤ a.toUInt64 := by
    exact h.le
  rw [gt_iff_lt, UInt64.lt_iff_toNat_lt, UInt64.toNat_sub_of_le _ _ hle, UInt32.toNat_toUInt64]
  have hhalf : HALFMONTH.toNat = 0xFFFFFFFF80000000 := rfl
  omega

/-- **The month** of a client time is always the current one. -/
theorem clientTime_month (currentTime : TimeStamp) {c : UInt32} (hc : c ≠ CurrentTime) :
    clientTimeToServerTime currentTime c = ⟨currentTime.months, c⟩ := by
  unfold clientTimeToServerTime
  rw [if_neg hc]
  split
  · rename_i hlater
    rw [if_neg (not_above_half hlater)]
  · split
    · rename_i hearlier
      rw [if_neg (not_above_half hearlier)]
    · rfl

/-- The condition on a client time: it is less than half a month from the milliseconds of the
current time, or it is just half a month away and there is no month on the other side. -/
def SameMonth (currentTime : TimeStamp) (c : UInt32) : Prop :=
  let now := currentTime.milliseconds.toNat
  c.toNat < now + 2 ^ 31 ∧ now < c.toNat + 2 ^ 31 ∨
    c.toNat = now + 2 ^ 31 ∧ currentTime.months = 0 ∨
    now = c.toNat + 2 ^ 31 ∧ currentTime.months.toNat = 2 ^ 32 - 1

/-- **Client times**: the result is the one time stamp with these milliseconds within half a
month of the current time exactly when that one is in the current month. -/
theorem clientTime_nearest (currentTime : TimeStamp) (c : UInt32) (hc : c ≠ CurrentTime) :
    Nearest currentTime c (clientTimeToServerTime currentTime c) ↔ SameMonth currentTime c := by
  obtain ⟨months, now⟩ := currentTime
  rw [clientTime_month _ hc]
  have hmonths := months.toNat_lt
  have hzero : months = 0 ↔ months.toNat = 0 := by
    rw [← UInt32.toNat_inj]
    rfl
  unfold SameMonth
  dsimp only
  rw [hzero]
  constructor
  · intro h
    obtain ⟨-, hwithin, hunique⟩ := h
    unfold WithinHalfMonth TimeStamp.total at hwithin
    dsimp only at hwithin hunique
    -- the same milliseconds in a neighbouring month are another time stamp
    have hother : ∀ m : UInt32, m.toNat * 2 ^ 32 + c.toNat ≤ months.toNat * 2 ^ 32 + now.toNat + 2 ^ 31 →
        months.toNat * 2 ^ 32 + now.toNat ≤ m.toNat * 2 ^ 32 + c.toNat + 2 ^ 31 → m.toNat = months.toNat := by
      intro m hle hge
      exact congrArg (fun t => t.months.toNat) (hunique ⟨m, c⟩ rfl ⟨hle, hge⟩)
    have hpred : months.toNat ≠ 0 → c.toNat ≠ now.toNat + 2 ^ 31 := by
      intro hpos hhalf
      have hm : (UInt32.ofNat (months.toNat - 1)).toNat = months.toNat - 1 :=
        UInt32.toNat_ofNat_of_lt' (show months.toNat - 1 < 2 ^ 32 by omega)
      have heq := hother (UInt32.ofNat (months.toNat - 1)) (by rw [hm]; omega) (by rw [hm]; omega)
      omega
    have hsucc : months.toNat ≠ 2 ^ 32 - 1 → now.toNat ≠ c.toNat + 2 ^ 31 := by
      intro hlast hhalf
      have hm : (UInt32.ofNat (months.toNat + 1)).toNat = months.toNat + 1 :=
        UInt32.toNat_ofNat_of_lt' (show months.toNat + 1 < 2 ^ 32 by omega)
      have heq := hother (UInt32.ofNat (months.toNat + 1)) (by rw [hm]; omega) (by rw [hm]; omega)
      omega
    omega
  · intro h
    refine ⟨rfl, ?_, ?_⟩
    · unfold WithinHalfMonth TimeStamp.total
      dsimp only
      omega
    · intro t ht hwithin
      obtain ⟨tm, ts⟩ := t
      obtain rfl : ts = c := ht
      have htm := tm.toNat_lt
      unfold WithinHalfMonth TimeStamp.total at hwithin
      dsimp only at hwithin
      have hm : tm = months := UInt32.toNat_inj.1 (by omega)
      rw [hm]

/-- A time of a second ago. -/
theorem clientTime_nearest_near : Nearest ⟨0, 5000⟩ 4000 (clientTimeToServerTime ⟨0, 5000⟩ 4000) :=
  (clientTime_nearest ⟨0, 5000⟩ 4000 (by decide)).2 (.inl ⟨by decide, by decide⟩)

/-- **A wrap is missed**: at the start of month 1 a time of some seconds ago, which is of the
end of month 0, is not the nearest one, and it counts as later than the current time. -/
theorem clientTime_future :
    ¬Nearest ⟨1, 1000⟩ 4294966296 (clientTimeToServerTime ⟨1, 1000⟩ 4294966296) ∧
      compareTimeStamps (clientTimeToServerTime ⟨1, 1000⟩ 4294966296) ⟨1, 1000⟩ = .LATER ∧
      compareTimeStamps ⟨0, 4294966296⟩ ⟨1, 1000⟩ = .EARLIER := by
  refine ⟨?_, by decide, by decide⟩
  intro h
  have hlate := h.within.1
  revert hlate
  decide

end Xenia.Dix.Selections
