import Mathlib.Order.Basic
import Mathlib.Data.List.Basic

/-!
# Runs of a state machine

A machine is a step function `step : σ → ι → σ`. `run` folds it over a list of
inputs. The induction rules here are the only inductions over runs a development
needs: an invariant (`run_invariant`), an invariant under a condition met by every
step (`AllSteps.invariant`), and an invariant that may speak about the inputs
consumed so far (`AllSteps.history`). `append_singleton_cases` is for properties of a log that
are stated over its splits.
-/

namespace Xenia.Lib

open List

variable {σ ι : Type*} {step : σ → ι → σ}

/-- The state after a list of inputs. -/
def run (step : σ → ι → σ) (s : σ) (is : List ι) : σ := is.foldl step s

@[simp] theorem run_nil (s : σ) : run step s [] = s := rfl

@[simp] theorem run_cons (s : σ) (i : ι) (is : List ι) :
    run step s (i :: is) = run step (step s i) is := rfl

theorem run_append (s : σ) (is js : List ι) :
    run step s (is ++ js) = run step (run step s is) js := foldl_append

theorem run_snoc (s : σ) (is : List ι) (i : ι) :
    run step s (is ++ [i]) = step (run step s is) i := by rw [run_append]; rfl

variable {P : σ → Prop} {s : σ}

/-- A property kept by every step is kept by every run. -/
theorem run_invariant (h : ∀ s i, P s → P (step s i)) (hs : P s) (is : List ι) : P (run step s is) := by
  induction is generalizing s with
  | nil => exact hs
  | cons i is ih => exact ih (h s i hs)

/-- Every step of the run meets the condition `C` in the state it starts from. -/
def AllSteps (step : σ → ι → σ) (C : σ → ι → Prop) : σ → List ι → Prop
  | _, [] => True
  | s, i :: is => C s i ∧ AllSteps step C (step s i) is

instance AllSteps.decidable {C : σ → ι → Prop} [∀ s i, Decidable (C s i)] :
    ∀ (s : σ) (is : List ι), Decidable (AllSteps step C s is)
  | _, [] => inferInstanceAs (Decidable True)
  | s, i :: is =>
    have : Decidable (AllSteps step C (step s i) is) := AllSteps.decidable (step s i) is
    inferInstanceAs (Decidable (C s i ∧ AllSteps step C (step s i) is))

variable {C : σ → ι → Prop} {is : List ι}

theorem allSteps_append {js : List ι} :
    AllSteps step C s (is ++ js) ↔
      AllSteps step C s is ∧ AllSteps step C (run step s is) js := by
  induction is generalizing s with
  | nil => simp [AllSteps]
  | cons i is ih => simp [AllSteps, ih, and_assoc]

theorem AllSteps.imp {D : σ → ι → Prop} (h : ∀ s i, C s i → D s i) (hC : AllSteps step C s is) : AllSteps step D s is := by
  induction is generalizing s with
  | nil => trivial
  | cons i is ih => exact ⟨h s i hC.1, ih hC.2⟩

/-- A property kept by every step that meets `C` is kept by every run whose steps do. -/
theorem AllSteps.invariant (h : ∀ s i, C s i → P s → P (step s i)) (hC : AllSteps step C s is) (hs : P s) : P (run step s is) := by
  induction is generalizing s with
  | nil => exact hs
  | cons i is ih => exact ih hC.2 (h s i hC.1 hs)

/-- The same for a property of the inputs consumed so far and the state reached. -/
theorem AllSteps.history {P : List ι → σ → Prop} (h : ∀ past s i, C s i → P past s → P (past ++ [i]) (step s i))
    (hC : AllSteps step C s is) (hs : P [] s) : P is (run step s is) := by
  have key : ∀ (is past : List ι) (s : σ), AllSteps step C s is → P past s →
      P (past ++ is) (run step s is) := by
    intro is
    induction is with
    | nil => intro past s _ hs; simpa using hs
    | cons i is ih =>
      intro past s hC hs
      have := ih (past ++ [i]) (step s i) hC.2 (h past s i hC.1 hs)
      simpa using this
  simpa using key is [] s hC hs

theorem allSteps_true (s : σ) (is : List ι) : AllSteps step (fun _ _ => True) s is := by
  induction is generalizing s with
  | nil => trivial
  | cons i is ih => exact ⟨trivial, ih _⟩

/-- A property of the inputs so far and the state, kept by every step. -/
theorem run_history {P : List ι → σ → Prop} (h : ∀ past s i, P past s → P (past ++ [i]) (step s i)) (hs : P [] s)
    (is : List ι) : P is (run step s is) :=
  AllSteps.history (fun past s i _ hp => h past s i hp) (allSteps_true s is) hs

/-- What the last input of a run that answers a question says. -/
def lastAnswer (step : σ → ι → σ) (answer : σ → ι → Option Bool) : σ → List ι → Option Bool
  | _, [] => none
  | s, i :: is => (lastAnswer step answer (step s i) is).or (answer s i)

theorem lastAnswer_cons (answer : σ → ι → Option Bool) (s : σ) (i : ι) (is : List ι) :
    lastAnswer step answer s (i :: is) = (lastAnswer step answer (step s i) is).or (answer s i) := rfl

/-- When every step makes `P` what the answer says, and keeps it when there is none, so does a run. -/
theorem AllSteps.iff_lastAnswer {I : σ → Prop} {answer : σ → ι → Option Bool} (hkeep : ∀ s i, C s i → I s → I (step s i))
    (hanswer : ∀ s i, C s i → I s → (P (step s i) ↔ (answer s i).elim (P s) (· = true))) (hC : AllSteps step C s is) (hI : I s) :
    P (run step s is) ↔ (lastAnswer step answer s is).elim (P s) (· = true) := by
  induction is generalizing s with
  | nil => exact Iff.rfl
  | cons i is ih =>
    rw [run_cons, ih hC.2 (hkeep s i hC.1 hI), lastAnswer_cons]
    cases lastAnswer step answer (step s i) is with
    | some b => rfl
    | none => exact hanswer s i hC.1 hI

/-- Two ways to cut a list in two, one of which cuts off a last element. -/
theorem append_singleton_cases {α : Type*} {log past future : List α} {e a : α}
    (h : log ++ [e] = past ++ a :: future) :
    (future = [] ∧ past = log ∧ a = e) ∨ ∃ future', future = future' ++ [e] ∧ log = past ++ a :: future' := by
  rcases eq_nil_or_concat future with rfl | ⟨future', last, rfl⟩
  · obtain ⟨hlog, hlast⟩ := append_inj' h rfl
    exact .inl ⟨rfl, hlog.symm, (singleton_inj.1 hlast).symm⟩
  · have h' : log ++ [e] = (past ++ a :: future') ++ [last] := by
      rw [h]
      simp
    obtain ⟨hlog, hlast⟩ := append_inj' h' rfl
    exact .inr ⟨future', by rw [singleton_inj.1 hlast, concat_eq_append], hlog⟩

end Xenia.Lib
