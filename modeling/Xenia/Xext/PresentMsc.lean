import Mathlib.Order.Bounds.Basic
import Mathlib.Tactic.Ring
import Xenia.Dix.Protocol

/-!
# When a pixmap is presented

A `PresentPixmap` request names a field by its number, the target, or by a divisor and a remainder. `present_get_target_msc` answers the
number of the field at which the pixmap is presented; `checkTarget` is what the handler of the request checks of the numbers before.

* `isLeast_field`: the first field from the current one on with a given remainder.
* `targetMsc_toNat`: the candidate of the formula, before and after the correction.
* `present_target_iff`: the answer is the one that the request asks for exactly when the remainder and that of the current field are less
  than half the range of the numbers apart.
-/

namespace Xenia.Xext.Present

open Xenia.Dix

def PresentOptionAsync : UInt32 := 1
def PresentOptionCopy : UInt32 := 2
def PresentOptionUST : UInt32 := 4
def PresentOptionSuboptimal : UInt32 := 8
def PresentOptionAsyncMayTear : UInt32 := 16
def PresentAllOptions : UInt32 := 31
def PresentAllAsyncOptions : UInt32 := PresentOptionAsync ||| PresentOptionAsyncMayTear

/-- `cast(long)(test - reference) > 0`. -/
def msc_is_after (test reference : UInt64) : Bool := 0 < (test - reference).toInt64

/-- No asynchronous presentation is asked for. -/
def syncedFlip (options : UInt32) : Bool := options &&& PresentAllAsyncOptions == 0

def present_get_target_msc (target_msc_arg crtc_msc divisor remainder : UInt64) (options : UInt32) : UInt64 :=
  let synced_flip := syncedFlip options
  if msc_is_after target_msc_arg crtc_msc then target_msc_arg
  else if divisor = 0 then
    let target_msc := crtc_msc
    if synced_flip then target_msc + 1 else target_msc
  else
    let target_msc := crtc_msc - crtc_msc % divisor + remainder
    if msc_is_after target_msc crtc_msc then target_msc
    else if synced_flip || msc_is_after crtc_msc target_msc then target_msc + divisor
    else target_msc

/-- The checks of the handler, with the error value. -/
def checkTarget (req_options : UInt32) (req_divisor req_remainder : UInt64) : Except (Status × UInt32) Unit :=
  if req_options &&& ~~~PresentAllOptions ≠ 0 then .error (BadValue, req_options)
  else if req_divisor = 0 then
    if req_remainder ≠ 0 then .error (BadValue, req_remainder.toUInt32) else .ok ()
  else if req_remainder ≥ req_divisor then .error (BadValue, req_remainder.toUInt32)
  else .ok ()

/-! ## What the request asks for -/

/-- `a` comes after `b` on the circle of the numbers, by less than half of it. -/
def After (a b : UInt64) : Prop := 0 < (a - b).toNat ∧ (a - b).toNat < 2 ^ 63

/-- The fields that the divisor and the remainder name, from the current one on. -/
def Field (crtc_msc divisor remainder : ℕ) (synced : Bool) : Set ℕ :=
  {m | crtc_msc ≤ m ∧ (synced = true → crtc_msc < m) ∧ m % divisor = remainder}

/-- The answer is the one that is asked for. -/
structure Presents (target_msc_arg crtc_msc divisor remainder : UInt64) (options : UInt32) (msc : UInt64) : Prop where
  later : After target_msc_arg crtc_msc → msc = target_msc_arg
  soon : ¬After target_msc_arg crtc_msc → divisor = 0 → msc = if syncedFlip options then crtc_msc + 1 else crtc_msc
  field : ¬After target_msc_arg crtc_msc → 0 < divisor → ∀ m : ℕ,
    IsLeast (Field crtc_msc.toNat divisor.toNat remainder.toNat (syncedFlip options)) m → m < 2 ^ 64 → msc.toNat = m

/-- The two remainders `r` and `q` are less than half the range apart; half of it is enough on one side. -/
def Near (synced : Bool) (r q : ℕ) : Prop :=
  (r < q + 2 ^ 63 ∧ q < r + 2 ^ 63) ∨ (r = q + 2 ^ 63 ∧ synced = false) ∨ (q = r + 2 ^ 63 ∧ synced = true)

variable {a b c d r t msc : UInt64} {options : UInt32} {synced : Bool}

theorem msc_is_after_iff : msc_is_after a b = true ↔ After a b := by
  unfold msc_is_after After
  generalize a - b = x
  rw [decide_eq_true_iff, Int64.lt_iff_toInt_lt]
  change (0 : ℤ) < x.toBitVec.toInt ↔ 0 < x.toBitVec.toNat ∧ x.toBitVec.toNat < 2 ^ 63
  rw [BitVec.toInt_eq_toNat_cond]
  split <;> omega

/-! ## The field -/

/-- **The first field** with a remainder is the one of this round, or that of the next. -/
theorem isLeast_field {c d r : ℕ} (hr : r < d) : IsLeast (Field c d r synced)
    (c - c % d + if c % d < r ∨ (c % d = r ∧ synced = false) then r else r + d) := by
  have hd : 0 < d := Nat.zero_lt_of_lt hr
  have hq := Nat.mod_lt c hd
  have hround := Nat.div_add_mod c d
  obtain ⟨k, hk⟩ : ∃ k, k = d * (c / d) := ⟨_, rfl⟩
  have hsub : c - c % d = k := by omega
  have hmod : ∀ x, x < d → (k + x) % d = x := by
    intro x hx
    rw [hk, Nat.mul_add_mod, Nat.mod_eq_of_lt hx]
  rw [hsub]
  constructor
  · split
    · rename_i hthis
      refine ⟨by omega, fun hs => ?_, hmod r hr⟩
      rcases hthis with hthis | ⟨-, hno⟩
      · omega
      · exact absurd hs (by rw [hno]; decide)
    · rename_i hnext
      refine ⟨by omega, fun _ => by omega, ?_⟩
      rw [← Nat.add_assoc, Nat.add_mod_right]
      exact hmod r hr
  · rintro m ⟨hle, hlt, hm⟩
    have hround' := Nat.div_add_mod m d
    -- an earlier round ends before the current field
    have hrounds : c / d ≤ m / d := Nat.div_le_div_right hle
    have hmul := Nat.mul_le_mul_left d hrounds
    split
    · omega
    · rename_i hnext
      rcases lt_or_ge (c / d) (m / d) with hlater | hsame
      · have hmul' := Nat.mul_le_mul_left d (Nat.succ_le_of_lt hlater)
        rw [Nat.mul_succ] at hmul'
        omega
      · have heq : m / d = c / d := le_antisymm hsame hrounds
        rw [heq] at hround'
        obtain ⟨hless, hequal⟩ := not_or.1 hnext
        cases hs : synced with
        | true =>
          have := hlt hs
          omega
        | false =>
          have hne : c % d ≠ r := fun heq => hequal ⟨heq, hs⟩
          omega

/-! ## The formula -/

theorem after_sub_iff {q : UInt64} : 0 < (r - q).toNat ∧ (r - q).toNat < 2 ^ 63 ↔
    (q.toNat < r.toNat ∧ r.toNat < q.toNat + 2 ^ 63) ∨ r.toNat + 2 ^ 63 < q.toNat := by
  have hr := r.toNat_lt
  have hq := q.toNat_lt
  rw [UInt64.toNat_sub]
  omega

/-- The candidate comes after the current field if its remainder is greater, by less than half the range. -/
theorem candidate_after : msc_is_after (c - c % d + r) c = true ↔
    (c.toNat % d.toNat < r.toNat ∧ r.toNat < c.toNat % d.toNat + 2 ^ 63) ∨ r.toNat + 2 ^ 63 < c.toNat % d.toNat := by
  have hdiff : c - c % d + r - c = r - c % d := by grind
  rw [msc_is_after_iff, After, hdiff, after_sub_iff, UInt64.toNat_mod]

theorem candidate_before : msc_is_after c (c - c % d + r) = true ↔
    (r.toNat < c.toNat % d.toNat ∧ c.toNat % d.toNat < r.toNat + 2 ^ 63) ∨ c.toNat % d.toNat + 2 ^ 63 < r.toNat := by
  have hdiff : c - (c - c % d + r) = c % d - r := by grind
  rw [msc_is_after_iff, After, hdiff, after_sub_iff, UInt64.toNat_mod]

theorem candidate_toNat : (c - c % d + r).toNat = (c.toNat - c.toNat % d.toNat + r.toNat) % 2 ^ 64 := by
  have hle : (c % d).toNat ≤ c.toNat := by
    exact Nat.mod_le _ _
  rw [UInt64.toNat_add, UInt64.toNat_sub_of_le _ _ (UInt64.le_iff_toNat_le.2 hle), UInt64.toNat_mod]

/-- The answer without a future target, for a divisor. -/
theorem present_get_target_msc_toNat (ht : ¬After t c) (hd : d ≠ 0) : (present_get_target_msc t c d r options).toNat =
    (c.toNat - c.toNat % d.toNat + r.toNat + if msc_is_after (c - c % d + r) c = false ∧
      (syncedFlip options = true ∨ msc_is_after c (c - c % d + r) = true) then d.toNat else 0) % 2 ^ 64 := by
  unfold present_get_target_msc
  rw [← msc_is_after_iff, Bool.not_eq_true] at ht
  dsimp only
  rw [if_neg (by rw [ht]; decide), if_neg hd]
  cases hafter : msc_is_after (c - c % d + r) c with
  | true =>
    rw [if_pos rfl, if_neg (fun h => Bool.noConfusion h.1), Nat.add_zero, candidate_toNat]
  | false =>
    rw [if_neg (by decide)]
    by_cases hcond : (syncedFlip options || msc_is_after c (c - c % d + r)) = true
    · rw [if_pos hcond, if_pos ⟨rfl, by rwa [Bool.or_eq_true] at hcond⟩, UInt64.toNat_add, candidate_toNat, Nat.mod_add_mod]
    · rw [if_neg hcond, if_neg (fun h => hcond (by rw [Bool.or_eq_true]; exact h.2)), add_zero, candidate_toNat]

theorem checkTarget_ok (h : checkTarget options d r = .ok ()) (hd : d ≠ 0) : r.toNat < d.toNat := by
  unfold checkTarget at h
  split at h
  · exact nomatch h
  · split at h
    · exact nomatch h
    · rename_i hlt
      exact UInt64.lt_iff_toNat_lt.1 (UInt64.not_le.1 hlt)

/-- **The field that is answered** is the first one exactly if the remainders are near each other. -/
theorem field_iff {m : ℕ} (ht : ¬After t c) (hr : r.toNat < d.toNat)
    (hm : IsLeast (Field c.toNat d.toNat r.toNat (syncedFlip options)) m) (hlt : m < 2 ^ 64) :
    (present_get_target_msc t c d r options).toNat = m ↔ Near (syncedFlip options) r.toNat (c.toNat % d.toNat) := by
  have hd : d ≠ 0 := by
    rintro rfl
    exact Nat.not_lt_zero _ hr
  obtain rfl := hm.unique (isLeast_field hr)
  rw [present_get_target_msc_toNat ht hd]
  have hafter := candidate_after (c := c) (d := d) (r := r)
  have hbefore := candidate_before (c := c) (d := d) (r := r)
  have hd64 := d.toNat_lt
  -- the step to the next round is taken exactly if it is due
  have hstep : ∀ (step due : Prop) [Decidable step] [Decidable due] (base : ℕ), base + r.toNat + (if due then d.toNat else 0) < 2 ^ 64 →
      ((base + r.toNat + if step then d.toNat else 0) % 2 ^ 64 = base + r.toNat + (if due then d.toNat else 0) ↔ (step ↔ due)) := by
    intro step due _ _ base hbase
    by_cases hs : step <;> by_cases hn : due <;> simp only [hs, hn, if_true, if_false, iff_true, iff_false, not_true] at hbase ⊢
    all_goals omega
  have hdue : (if c.toNat % d.toNat < r.toNat ∨ (c.toNat % d.toNat = r.toNat ∧ syncedFlip options = false) then r.toNat
      else r.toNat + d.toNat) = r.toNat + if ¬(c.toNat % d.toNat < r.toNat ∨ (c.toNat % d.toNat = r.toNat ∧ syncedFlip options = false))
        then d.toNat else 0 := by
    split <;> simp_all
  rw [hdue, ← Nat.add_assoc] at hlt ⊢
  rw [hstep _ _ _ hlt, ← Bool.not_eq_true, hafter, hbefore]
  unfold Near
  cases syncedFlip options <;> simp only [reduceCtorEq, and_true, and_false, or_false, false_or, true_or] <;> omega

/-- **When a pixmap is presented**, for every target, field, divisor and remainder that the request handler lets pass and all options: at
the field that is asked for, exactly if the remainder and that of the current field are near each other. -/
theorem present_target_iff (h : checkTarget options d r = .ok ()) : Presents t c d r options (present_get_target_msc t c d r options) ↔
    (¬After t c → 0 < d → (∃ m ∈ Field c.toNat d.toNat r.toNat (syncedFlip options), m < 2 ^ 64) →
      Near (syncedFlip options) r.toNat (c.toNat % d.toNat)) := by
  have hpos : 0 < d ↔ d ≠ 0 := by
    rw [← UInt64.toNat_inj.ne]
    exact Nat.pos_iff_ne_zero
  constructor
  · rintro hp ht hd ⟨m', hm', hlt'⟩
    have hr := checkTarget_ok h (hpos.1 hd)
    have hleast := @isLeast_field (syncedFlip options) c.toNat _ _ hr
    have hlt := (hleast.2 hm').trans_lt hlt'
    exact (field_iff ht hr hleast hlt).1 (hp.field ht hd _ hleast hlt)
  · intro hnear
    refine ⟨fun ht => ?_, fun ht hd => ?_, fun ht hd m hm hlt => ?_⟩
    · unfold present_get_target_msc
      exact if_pos (msc_is_after_iff.2 ht)
    · unfold present_get_target_msc
      rw [if_neg (fun hafter => ht (msc_is_after_iff.1 hafter)), if_pos hd]
    · have hr := checkTarget_ok h (hpos.1 hd)
      exact (field_iff ht hr hm hlt).2 (hnear ht hd ⟨m, hm.1, hlt⟩)

/-- Ten fields, and every fourth with the remainder three: the next one is the eleventh. -/
theorem present_target_iff_four : Presents 0 10 4 3 0 (present_get_target_msc 0 10 4 3 0) ↔
    (¬After 0 10 → 0 < (4 : UInt64) → (∃ m ∈ Field (10 : UInt64).toNat (4 : UInt64).toNat (3 : UInt64).toNat (syncedFlip 0), m < 2 ^ 64) →
      Near (syncedFlip 0) (3 : UInt64).toNat ((10 : UInt64).toNat % (4 : UInt64).toNat)) :=
  present_target_iff rfl

/-- A remainder of more than half the range, at the field zero: the answer is a field with another remainder. -/
theorem present_target_far : checkTarget 0 0xFFFFFFFFFFFFFFFF 0x8000000000000005 = .ok () ∧
    present_get_target_msc 0 0 0xFFFFFFFFFFFFFFFF 0x8000000000000005 0 = 0x8000000000000004 ∧
    ¬Presents 0 0 0xFFFFFFFFFFFFFFFF 0x8000000000000005 0 (present_get_target_msc 0 0 0xFFFFFFFFFFFFFFFF 0x8000000000000005 0) := by
  have hchecked : checkTarget 0 0xFFFFFFFFFFFFFFFF 0x8000000000000005 = .ok () := by decide +kernel
  have hanswer : present_get_target_msc 0 0 0xFFFFFFFFFFFFFFFF 0x8000000000000005 0 = 0x8000000000000004 := by decide +kernel
  refine ⟨hchecked, hanswer, fun h => ?_⟩
  have hnot : ¬After 0 0 := fun h => lt_irrefl 0 h.1
  have hleast := @isLeast_field (syncedFlip 0) (0 : UInt64).toNat _ _ (checkTarget_ok hchecked (by decide +kernel))
  have hfield := h.field hnot (by decide +kernel) _ hleast (by decide +kernel)
  exact absurd hfield (by decide +kernel)

end Xenia.Xext.Present
