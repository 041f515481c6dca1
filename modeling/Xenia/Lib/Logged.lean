import Mathlib.Tactic
import Xenia.Lib.Outcome

/-!
# Computations that say what they use

A `Logged` computation lists what it uses on the way, also where it stops. `Uses p x` says that all
of it is as `p` says; `Uses.bind`, `Uses.or`, `Uses.and` go through a sequence of computations, and
`result_bind`, `result_or`, `result_and` say that the result is that of the same computation without
the list. `Keeps p Q x` says in addition that `Q` holds of the result, where there is one.
-/

namespace Xenia.Lib

structure Logged (ι α : Type) where
  log : List ι
  result : Outcome α

namespace Logged

variable {ι α β : Type} {p : ι → Prop}

instance : Monad (Logged ι) where
  pure a := ⟨[], .ok a⟩
  bind x f :=
    match x.result with
    | .error e => ⟨x.log, .error e⟩
    | .ok a => ⟨x.log ++ (f a).log, (f a).result⟩

/-- A computation that uses `i`. -/
def use (i : ι) (x : Outcome α) : Logged ι α := ⟨[i], x⟩

/-- A computation that uses nothing. -/
def lift (x : Outcome α) : Logged ι α := ⟨[], x⟩

/-- All that is used is as `p` says. -/
def Uses (p : ι → Prop) (x : Logged ι α) : Prop := ∀ i ∈ x.log, p i

/-! ### The result -/

@[simp] theorem result_pure (a : α) : (pure a : Logged ι α).result = .ok a := rfl

@[simp] theorem result_lift (x : Outcome α) : (lift x : Logged ι α).result = x := rfl

@[simp] theorem result_bind (x : Logged ι α) (f : α → Logged ι β) :
    (x >>= f).result = x.result >>= fun a => (f a).result := by
  obtain ⟨log, result⟩ := x
  cases result with
  | error e => rfl
  | ok a => rfl

@[simp] theorem result_or (x y : Logged ι Bool) : (x <||> y).result = (x.result <||> y.result) := by
  unfold orM
  rw [result_bind]
  congr 1
  funext b
  cases b <;> rfl

@[simp] theorem result_and (x y : Logged ι Bool) : (x <&&> y).result = (x.result <&&> y.result) := by
  unfold andM
  rw [result_bind]
  congr 1
  funext b
  cases b <;> rfl

/-! ### What is used -/

theorem uses_pure (a : α) : Uses p (pure a : Logged ι α) := fun _ h => nomatch h

theorem uses_lift (x : Outcome α) : Uses p (lift x) := fun _ h => nomatch h

theorem uses_use {i : ι} (h : p i) (x : Outcome α) : Uses p (use i x) := by
  intro j hj
  rw [List.mem_singleton.1 hj]
  exact h

variable {f : α → Logged ι β}

/-- **A sequence** uses what the first part uses and what the second part uses with its result. -/
theorem Uses.bind {x : Logged ι α} (hx : x.Uses p) (hf : ∀ a, x.result = .ok a → (f a).Uses p) :
    (x >>= f).Uses p := by
  obtain ⟨log, result⟩ := x
  cases result with
  | error e => exact hx
  | ok a =>
    intro i hi
    rcases List.mem_append.1 hi with hi | hi
    · exact hx i hi
    · exact hf a rfl i hi

theorem Uses.or {x y : Logged ι Bool} (hx : x.Uses p) (hy : y.Uses p) : (x <||> y).Uses p := by
  refine hx.bind fun b _ => ?_
  cases b with
  | true => exact uses_pure true
  | false => exact hy

theorem Uses.and {x y : Logged ι Bool} (hx : x.Uses p) (hy : y.Uses p) : (x <&&> y).Uses p := by
  refine hx.bind fun b _ => ?_
  cases b with
  | true => exact hy
  | false => exact uses_pure false

/-! ### What is used, and what holds of the result -/

def Keeps (p : ι → Prop) (Q : α → Prop) (x : Logged ι α) : Prop := x.Uses p ∧ ∀ a, x.result = .ok a → Q a

variable {Q : α → Prop} {R : β → Prop}

theorem keeps_pure {a : α} (h : Q a) : Keeps p Q (pure a : Logged ι α) := by
  refine ⟨uses_pure a, fun a' ha => ?_⟩
  obtain rfl := Except.ok.inj ha
  exact h

theorem Keeps.bind {x : Logged ι α} (hx : x.Keeps p Q) (hf : ∀ a, Q a → (f a).Keeps p R) :
    (x >>= f).Keeps p R := by
  refine ⟨hx.1.bind fun a ha => (hf a (hx.2 a ha)).1, fun b hb => ?_⟩
  rw [result_bind] at hb
  obtain ⟨a, ha, hb⟩ := of_bind_ok hb
  exact (hf a (hx.2 a ha)).2 b hb

end Logged

end Xenia.Lib
