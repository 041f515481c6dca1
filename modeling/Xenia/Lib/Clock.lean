import Mathlib.Tactic

/-!
# A wrapping 32-bit clock

Times are `UInt32`; which of two is later is decided by the sign of their difference. The
relation is not transitive on all times. It is on a window of half the clock.

* `ahead a b`: the signed difference, how far `a` is ahead of `b`.
* `Window T`: the times `T` lie less than half the clock from a common base.
* `Window.ahead_eq`: in a window the signed difference is the difference of the distances to
  the base, so `ahead` orders the times of the window (`Window.ahead_trans`).
-/

namespace Xenia.Lib.Clock

/-- How far `a` is ahead of `b`: their difference, read as a signed 32-bit number. -/
def ahead (a b : UInt32) : ℤ := (a - b).toBitVec.toInt

/-- The times `T` start at a common base and span less than half the clock. -/
def Window (T : UInt32 → Prop) : Prop := ∃ base : UInt32, ∀ a, T a → (a - base).toNat < 2 ^ 31

variable {T S : UInt32 → Prop} {a b c : UInt32}

theorem Window.mono (h : Window T) (hS : ∀ a, S a → T a) : Window S := by
  obtain ⟨base, hb⟩ := h
  exact ⟨base, fun a ha => hb a (hS a ha)⟩

theorem ahead_eq_of_base (base : UInt32) (ha : (a - base).toNat < 2 ^ 31) (hb : (b - base).toNat < 2 ^ 31) :
    ahead a b = ((a - base).toNat : ℤ) - (b - base).toNat := by
  have hab : a - b = (a - base) - (b - base) := by
    rw [← UInt32.toBitVec_inj]
    simp only [UInt32.toBitVec_sub]
    bv_omega
  unfold ahead
  rw [hab]
  generalize a - base = x at *
  generalize b - base = y at *
  rw [UInt32.toBitVec_sub, BitVec.toInt_sub, Int.bmod_def]
  have hx : x.toBitVec.toInt = x.toNat := by
    rw [BitVec.toInt_eq_toNat_of_lt]
    · rfl
    · show 2 * x.toNat < 2 ^ 32
      omega
  have hy : y.toBitVec.toInt = y.toNat := by
    rw [BitVec.toInt_eq_toNat_of_lt]
    · rfl
    · show 2 * y.toNat < 2 ^ 32
      omega
  split <;> omega

/-- **In a window the signed difference is a difference**: there is a measure of the times in
the window, and `ahead` compares by it. -/
theorem Window.ahead_eq (h : Window T) :
    ∃ f : UInt32 → ℤ, ∀ a b, T a → T b → ahead a b = f a - f b := by
  obtain ⟨base, hb⟩ := h
  exact ⟨fun a => (a - base).toNat, fun a b ha hb' => ahead_eq_of_base base (hb a ha) (hb b hb')⟩

theorem Window.ahead_neg (h : Window T) (ha : T a) (hb : T b) : ahead a b = -ahead b a := by
  obtain ⟨f, hf⟩ := h.ahead_eq
  rw [hf a b ha hb, hf b a hb ha]
  omega

/-- How far ahead of `c` one gets by way of `b`. -/
theorem Window.ahead_trans (h : Window T) (ha : T a) (hb : T b) (hc : T c) :
    ahead a c = ahead a b + ahead b c := by
  obtain ⟨f, hf⟩ := h.ahead_eq
  rw [hf a c ha hc, hf a b ha hb, hf b c hb hc]
  omega

/-- Half the clock apart, the later of two times cannot be told: each is behind the other. -/
example : ahead 0 0x80000000 < 0 ∧ ahead 0x80000000 0 < 0 := by decide

end Xenia.Lib.Clock
