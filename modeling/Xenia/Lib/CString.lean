import Xenia.Lib.Mem

/-!
# C strings

`cstr s` is the C string at the start of the bytes `s`: what stands before the first zero.
`CStr` is a string without zeros, as `strndup` makes it. `strncmp_spec` says what a
length-limited comparison of bytes with such a string means.
-/

namespace Xenia.Lib

open List

/-- The C string in memory that begins with the bytes `s`, up to its terminator. -/
def cstr (s : List Byte) : List Byte := s.takeWhile (· ≠ 0)

theorem cstr_cons_zero (s : List Byte) : cstr (0 :: s) = [] := rfl

theorem cstr_cons {a : Byte} (h : a ≠ 0) (s : List Byte) : cstr (a :: s) = a :: cstr s :=
  takeWhile_cons_of_pos (by simpa using h)

theorem cstr_zero_notMem (s : List Byte) : 0 ∉ cstr s := by
  induction s with
  | nil => simp [cstr]
  | cons a s ih =>
    by_cases h : a = 0
    · rw [h]; exact not_mem_nil
    · rw [cstr_cons h, mem_cons, not_or]; exact ⟨Ne.symm h, ih⟩

theorem cstr_eq_self {s : List Byte} (h : 0 ∉ s) : cstr s = s := by
  induction s with
  | nil => rfl
  | cons a s ih =>
    rw [mem_cons, not_or] at h
    rw [cstr_cons (Ne.symm h.1), ih h.2]

/-- A C string: no zero before its terminator. -/
abbrev CStr := { s : List Byte // 0 ∉ s }

/-- `strndup(s, s.length)`. -/
def strndup (s : List Byte) : CStr := ⟨cstr s, cstr_zero_notMem s⟩

/-- `strncmp`: the difference of the first bytes that differ among the first `n`, or zero if
there are none up to the end of the strings. -/
def strncmp : List Byte → List Byte → ℕ → ℤ
  | _, _, 0 => 0
  | s, t, n + 1 =>
    let a := s.headD 0
    let b := t.headD 0
    if a ≠ b then (a.toNat : ℤ) - b.toNat
    else if a = 0 then 0
    else strncmp s.tail t.tail n

/-- The bytes of a string as numbers, which are ordered lexicographically. -/
def ords (s : List Byte) : List ℕ := s.map BitVec.toNat

theorem ords_injective : Function.Injective ords :=
  map_injective_iff.2 fun _ _ h => BitVec.eq_of_toNat_eq h

private theorem toNat_pos {b : Byte} (h : b ≠ 0) : 0 < b.toNat := by
  rcases Nat.eq_zero_or_pos b.toNat with h0 | h0
  · exact absurd (BitVec.eq_of_toNat_eq h0) h
  · exact h0

/-- A comparison limited to the length of the first argument, with the case of equal bytes
decided by the lengths, is the lexicographic comparison with the C string. -/
theorem strncmp_spec {s t : List Byte} (ht : 0 ∉ t) :
    (strncmp s t s.length < 0 ∨ strncmp s t s.length = 0 ∧ s.length < t.length ↔
      ords (cstr s) < ords t) ∧
    (strncmp s t s.length > 0 ↔ ords t < ords (cstr s)) := by
  induction s generalizing t with
  | nil => cases t <;> simp [strncmp, cstr, ords]
  | cons a s ih =>
    have hstep : strncmp (a :: s) t (a :: s).length =
        if a ≠ t.headD 0 then (a.toNat : ℤ) - (t.headD 0).toNat
        else if a = 0 then 0 else strncmp s t.tail s.length := rfl
    rw [hstep]
    cases t with
    | nil =>
      rw [headD_nil]
      by_cases ha : a = 0
      · subst ha; rw [cstr_cons_zero]; simp [ords]
      · have hpos := toNat_pos ha
        rw [if_pos ha, cstr_cons ha]
        simp [ords]; omega
    | cons b t =>
      rw [mem_cons, not_or] at ht
      rw [headD_cons, tail_cons]
      by_cases hab : a = b
      · subst hab
        rw [if_neg (by simp), if_neg (Ne.symm ht.1), cstr_cons (Ne.symm ht.1)]
        simpa only [ords, map_cons, cons_lt_cons_iff, lt_irrefl, false_or, true_and,
          length_cons, Nat.add_lt_add_iff_right] using ih ht.2
      · have hne : a.toNat ≠ b.toNat := fun h => hab (BitVec.eq_of_toNat_eq h)
        rw [if_pos hab]
        by_cases ha : a = 0
        · subst ha
          have h0 : (0 : Byte).toNat = 0 := rfl
          rw [cstr_cons_zero]
          simp [ords]; omega
        · rw [cstr_cons ha]
          simp only [ords, map_cons, cons_lt_cons_iff]
          omega

end Xenia.Lib
