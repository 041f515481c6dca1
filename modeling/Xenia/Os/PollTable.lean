import Xenia.Lib.Run
import Mathlib.Tactic

/-!
# What a poll table is for

A poll table keeps, for each file descriptor added to it, the events that are listened for, the trigger and the callback with its
data. `Table` is that; `specStep` says what each request makes of it. The variants of `ospoll` are in `Xenia.Os.Epoll` and
`Xenia.Os.Poll`.
-/

namespace Xenia.Os.Ospoll

open Xenia.Lib Function

inductive Trigger
  | edge
  | level
deriving DecidableEq, Repr, Inhabited

/-- A set of `X_NOTIFY_READ`, `X_NOTIFY_WRITE` and `X_NOTIFY_ERROR`, and of the flags of the kernel that they stand for. -/
structure Events where
  read : Bool
  write : Bool
  error : Bool
deriving DecidableEq, Repr, Inhabited

namespace Events

def none : Events := { read := false, write := false, error := false }

/-- `a | b`. -/
def union (a b : Events) : Events :=
  { read := a.read || b.read, write := a.write || b.write, error := a.error || b.error }

/-- `a & ~b`. -/
def diff (a b : Events) : Events :=
  { read := a.read && !b.read, write := a.write && !b.write, error := a.error && !b.error }

/-- What can be listened for: errors are always reported. -/
def inOut (a : Events) : Events := { a with error := false }

end Events

/-- A registration. -/
structure Reg where
  callback : ℕ
  data : ℕ
  trigger : Trigger
  xevents : Events
deriving DecidableEq, Repr

abbrev Table := ℤ → Option Reg

/-- What the system answers to `ospoll_add`: the memory of an entry (none when there is none), whether each array can be made
larger, and whether the kernel takes the descriptor. -/
structure Resources where
  entry : Option ℕ
  array : Bool
  second : Bool
  ctl : Bool
deriving DecidableEq, Repr

inductive Op
  | add (fd : ℤ) (trigger : Trigger) (callback data : ℕ) (resources : Resources)
  | remove (fd : ℤ)
  | listen (fd : ℤ) (xevents : Events)
  | mute (fd : ℤ) (xevents : Events)
  | reset_events (fd : ℤ)
  /-- `ospoll_wait` gets a batch of events from the kernel. -/
  | wait (reported : List (ℤ × Events))
  /-- The loop of `ospoll_wait` goes on with its next event. -/
  | turn
deriving DecidableEq, Repr

/-- A callback that is called. -/
structure Call where
  fd : ℤ
  xevents : Events
  callback : ℕ
  data : ℕ
deriving DecidableEq, Repr

/-- What a request makes of the table; `added` is the answer of `ospoll_add`. -/
def specStep (added : Bool) (T : Table) : Op → Table
  | .add fd trigger callback data _ =>
    if added then
      Function.update T fd (some
        { callback := callback, data := data, trigger := trigger, xevents := (T fd).elim Events.none (·.xevents) })
    else T
  | .remove fd => Function.update T fd none
  | .listen fd xevents => Function.update T fd ((T fd).map fun r => { r with xevents := r.xevents.union xevents.inOut })
  | .mute fd xevents => Function.update T fd ((T fd).map fun r => { r with xevents := r.xevents.diff xevents.inOut })
  | .reset_events _ | .wait _ | .turn => T

theorem specStep_add (T : Table) (fd : ℤ) (trigger : Trigger) (callback data : ℕ) (resources : Resources) :
    specStep true T (.add fd trigger callback data resources) = Function.update T fd (some
      { callback := callback, data := data, trigger := trigger, xevents := (T fd).elim Events.none (·.xevents) }) := rfl

/-- The table after a run, by the answers of `ospoll_add` in it. -/
def specRun {σ : Type*} (step : σ → Op → σ) (added : σ → Op → Bool) : σ → List Op → Table → Table
  | _, [], T => T
  | s, op :: rest, T => specRun step added (step s op) rest (specStep (added s op) T op)

/-- When every request does to the table what is specified, the table after a run is the specified one. -/
theorem run_eq_specRun {σ : Type*} {step : σ → Op → σ} {added : σ → Op → Bool} {I : σ → Prop} {table : σ → Table}
    (hkeep : ∀ s op, I s → I (step s op)) (htable : ∀ s op, I s → table (step s op) = specStep (added s op) (table s) op)
    (ops : List Op) {s : σ} (hs : I s) : table (run step s ops) = specRun step added s ops (table s) := by
  induction ops generalizing s with
  | nil => rfl
  | cons op rest ih =>
    rw [run_cons, ih (hkeep s op hs), htable s op hs]
    rfl

/-- The request does not put the descriptor in the table. -/
def NotAdded {σ : Type*} (added : σ → Op → Bool) (fd : ℤ) (s : σ) (op : Op) : Prop :=
  added s op = true → ∀ trigger callback data resources, op ≠ .add fd trigger callback data resources

/-- A descriptor that is removed is not in the table until it is added again. -/
theorem run_removed {σ : Type*} {step : σ → Op → σ} {added : σ → Op → Bool} {I : σ → Prop} {table : σ → Table}
    (hkeep : ∀ s op, I s → I (step s op)) (htable : ∀ s op, I s → table (step s op) = specStep (added s op) (table s) op)
    {s : σ} (hs : I s) {ops past later : List Op} {fd : ℤ} (hops : ops = past ++ .remove fd :: later)
    (hnot : AllSteps step (NotAdded added fd) (run step s (past ++ [.remove fd])) later) : table (run step s ops) fd = none := by
  have hstep : ∀ s op, NotAdded added fd s op → I s ∧ table s fd = none → I (step s op) ∧ table (step s op) fd = none := by
    rintro s op hno ⟨hs, hnone⟩
    refine ⟨hkeep s op hs, ?_⟩
    rw [htable s op hs]
    cases op with
    | add fd' trigger callback data resources =>
      unfold specStep
      dsimp only
      split
      next hadded =>
        have hne : fd ≠ fd' := by
          rintro rfl
          exact hno hadded trigger callback data resources rfl
        rw [update_of_ne hne]
        exact hnone
      · exact hnone
    | remove fd' =>
      rcases eq_or_ne fd fd' with rfl | hne
      · exact update_self _ _ _
      · exact (update_of_ne hne _ _).trans hnone
    | listen fd' xevents =>
      rcases eq_or_ne fd fd' with rfl | hne
      · exact (update_self _ _ _).trans (by rw [hnone]; rfl)
      · exact (update_of_ne hne _ _).trans hnone
    | mute fd' xevents =>
      rcases eq_or_ne fd fd' with rfl | hne
      · exact (update_self _ _ _).trans (by rw [hnone]; rfl)
      · exact (update_of_ne hne _ _).trans hnone
    | reset_events _ => exact hnone
    | wait _ => exact hnone
    | turn => exact hnone
  have hbefore : I (run step s past) := run_invariant hkeep hs past
  have hremoved : table (run step s (past ++ [.remove fd])) fd = none := by
    rw [run_snoc, htable _ _ hbefore]
    exact update_self _ _ _
  have hstart : I (run step s (past ++ [.remove fd])) := run_invariant hkeep hs _
  have hend := hnot.invariant hstep ⟨hstart, hremoved⟩
  rw [← run_append, List.append_assoc, List.singleton_append, ← hops] at hend
  exact hend.2

end Xenia.Os.Ospoll
