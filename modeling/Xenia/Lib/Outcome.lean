import Mathlib.Logic.Basic

/-!
# Outcomes

A computation that may follow a pointer to freed memory (`fault`) or may not come to an end
(`hang`). `Ends P Q x` says that `x` does not fault, and that `Q` holds of its result; it may
hang only where `P` does not hold. `Ends.bind` goes through a sequence of such computations.
-/

namespace Xenia.Lib

inductive Stop
  | fault
  | hang
  deriving DecidableEq

abbrev Outcome := Except Stop

variable {α β : Type} {P : Prop} {Q : α → Prop} {R : β → Prop}

/-- `*p`. -/
def deref (p : Option α) : Outcome α :=
  match p with
  | none => .error .fault
  | some a => .ok a

@[simp] theorem deref_some (a : α) : deref (some a) = .ok a := rfl

theorem ok_bind (a : α) (f : α → Outcome β) : ((Except.ok a : Outcome α) >>= f) = f a := rfl

variable {x : Outcome α} {f : α → Outcome β}

/-- What comes to an end did so step by step. -/
theorem of_bind_ok {b : β} (h : (x >>= f) = .ok b) : ∃ a, x = .ok a ∧ f a = .ok b := by
  cases x with
  | error e => exact nomatch h
  | ok a => exact ⟨a, rfl, h⟩

theorem error_bind (e : Stop) (f : α → Outcome β) : ((Except.error e : Outcome α) >>= f) = .error e := rfl

inductive Ends (P : Prop) (Q : α → Prop) : Outcome α → Prop
  | ok {x : α} (h : Q x) : Ends P Q (.ok x)
  | hang (h : ¬P) : Ends P Q (.error .hang)

theorem Ends.bind (hx : Ends P Q x) (hf : ∀ a, Q a → Ends P R (f a)) :
    Ends P R (x >>= f) := by
  cases hx with
  | ok h => exact hf _ h
  | hang h => exact .hang h

theorem Ends.mono {Q' : α → Prop} (hx : Ends P Q x) (h : ∀ a, Q a → Q' a) : Ends P Q' x := by
  cases hx with
  | ok hq => exact .ok (h _ hq)
  | hang hp => exact .hang hp

/-- Where the computation has to end, it does, and the result is as it should be. -/
theorem Ends.exists (hx : Ends P Q x) (hP : P) : ∃ a, x = .ok a ∧ Q a := by
  cases hx with
  | ok h => exact ⟨_, rfl, h⟩
  | hang h => exact absurd hP h

/-- The computation comes to an end: it faults, or `Q` holds of its result. -/
def Halts (Q : α → Prop) (x : Outcome α) : Prop := x = .error .fault ∨ ∃ a, x = .ok a ∧ Q a

theorem Halts.bind (hx : Halts Q x) (hf : ∀ a, Q a → Halts R (f a)) :
    Halts R (x >>= f) := by
  rcases hx with rfl | ⟨a, rfl, ha⟩
  · exact .inl rfl
  · exact hf a ha

theorem Halts.mono {Q' : α → Prop} (hx : Halts Q x) (h : ∀ a, Q a → Q' a) : Halts Q' x :=
  hx.imp_right fun ⟨a, ha, hQ⟩ => ⟨a, ha, h a hQ⟩

/-- A check that faults where it fails. -/
theorem halts_ite {c : Prop} [Decidable c] (hx : c → Halts Q x) :
    Halts Q (if c then x else .error .fault) := by
  by_cases hc : c
  · rw [if_pos hc]
    exact hx hc
  · rw [if_neg hc]
    exact .inl rfl

theorem halts_deref (p : Option α) : Halts (fun _ => True) (deref p) := by
  cases p with
  | none => exact .inl rfl
  | some a => exact .inr ⟨a, rfl, trivial⟩

end Xenia.Lib
