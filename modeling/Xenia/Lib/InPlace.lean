import Mathlib.Data.List.Pairwise

/-!
# Copying in place

Places are copied one after the other, each from its source, which may be one of the places. When no place is the source of a later one
(`Unspoilt`), the result is that of copying them all from the unmodified sources (`copyEach_eq`).
-/

namespace Xenia.Lib

open List Function

variable {P V : Type*} [DecidableEq P]

def copyEach (src : P → P) (places : List P) (m : P → V) : P → V :=
  places.foldl (fun m p => Function.update m p (m (src p))) m

/-- No place is written before it is read. -/
def Unspoilt (src : P → P) (places : List P) : Prop := places.Pairwise fun p q => p ≠ src q

variable {src : P → P} {places : List P} {m : P → V} {p : P}

@[simp] theorem copyEach_cons :
    copyEach src (p :: places) m = copyEach src places (update m p (m (src p))) := rfl

/-- **The order does not show** in the result when no place is written before it is read. -/
theorem copyEach_eq (h : Unspoilt src places) : copyEach src places m = fun q => if q ∈ places then m (src q) else m q := by
  induction places generalizing m with
  | nil =>
    funext q
    exact (if_neg not_mem_nil).symm
  | cons p places ih =>
    obtain ⟨hp, hrest⟩ := pairwise_cons.1 h
    rw [copyEach_cons, ih hrest]
    funext q
    by_cases hq : q ∈ places
    · -- the source of a later place is still what it was
      rw [if_pos hq, if_pos (mem_cons_of_mem p hq), update_of_ne (hp q hq).symm]
    · rw [if_neg hq]
      by_cases hqp : q = p
      · subst hqp
        rw [if_pos mem_cons_self, update_self]
      · rw [if_neg (by simp [hq, hqp]), update_of_ne hqp]

end Xenia.Lib
