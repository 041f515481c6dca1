import Mathlib.Data.List.TakeWhile
import Xenia.Lib.DList
import Xenia.Lib.Outcome

/-!
# Moving a window in the stack

The children of a window are a list from the top of the stack to the bottom: `first` and `last` are `firstChild` and `lastChild` of the
parent, `next` and `prev` are `nextSib` and `prevSib`. `MoveWindowInStack` takes a window out of the list and puts it before another one, with
a branch of its own for the bottom, for the top and for the middle of the list, and says which window is the highest that has changed.
`moveWindowInStack_spec`: the window stands before the other one, and the rest is in the order it was.
-/

namespace Xenia.WindowStack

open Xenia.Lib List Function Option

variable {ν : Type} [DecidableEq ν]

/-- `p.nextSib = v`. -/
def setNext (l : DList ν) (p v : Option ν) : Outcome (DList ν) :=
  (deref p).map fun p => { l with next := Function.update l.next p v }

/-- `p.prevSib = v`. -/
def setPrev (l : DList ν) (p v : Option ν) : Outcome (DList ν) :=
  (deref p).map fun p => { l with prev := Function.update l.prev p v }

/-- `if (p) p.nextSib = v`. -/
def setNextIf (l : DList ν) (p v : Option ν) : Outcome (DList ν) := if p ≠ none then setNext l p v else .ok l

/-- `if (p) p.prevSib = v`. -/
def setPrevIf (l : DList ν) (p v : Option ν) : Outcome (DList ν) := if p ≠ none then setPrev l p v else .ok l

/-- The list, and `pFirstChange`. -/
abbrev Moved (ν : Type) := DList ν × Option ν

def moveToBottom (l : DList ν) (pWin : ν) : Outcome (Moved ν) := do
  let l := if l.first = some pWin then { l with first := l.next pWin } else l
  let pFirstChange := l.next pWin
  let l ← setPrev l (l.next pWin) (l.prev pWin)
  let l ← setNextIf l (l.prev pWin) (l.next pWin)
  let l ← setNext l l.last (some pWin)
  let l := { l with prev := Function.update l.prev pWin l.last }
  let l := { l with next := Function.update l.next pWin none }
  .ok ({ l with last := some pWin }, pFirstChange)

def moveToTop (l : DList ν) (pWin pNextSib : ν) : Outcome (Moved ν) := do
  let l := if l.last = some pWin then { l with last := l.prev pWin } else l
  let l ← setPrevIf l (l.next pWin) (l.prev pWin)
  let l ← setNextIf l (l.prev pWin) (l.next pWin)
  let l := { l with next := Function.update l.next pWin l.first }
  let l := { l with prev := Function.update l.prev pWin none }
  let l := { l with prev := Function.update l.prev pNextSib (some pWin) }
  .ok ({ l with first := some pWin }, some pWin)

/-- `while ((pFirstChange != pWin) && (pFirstChange != pOldNext))`. -/
def searchFromTop (l : DList ν) (pWin : ν) (pOldNext : Option ν) : ℕ → Option ν → Outcome (Option ν)
  | 0, _ => .error .hang
  | fuel + 1, pFirstChange =>
    if pFirstChange = some pWin ∨ pFirstChange = pOldNext then .ok pFirstChange
    else do
      let p ← deref pFirstChange
      searchFromTop l pWin pOldNext fuel (l.next p)

def moveInMiddle (fuel : ℕ) (l : DList ν) (pWin pNextSib : ν) : Outcome (Moved ν) := do
  let pOldNext := l.next pWin
  let isFirst := l.first = some pWin
  let isLast := l.last = some pWin
  let pFirstChange := if isLast then some pWin else if isFirst then l.next pWin else none
  let l := if isFirst then { l with first := l.next pWin } else l
  let l := if isLast then { l with last := l.prev pWin } else l
  let l ← setPrevIf l (l.next pWin) (l.prev pWin)
  let l ← setNextIf l (l.prev pWin) (l.next pWin)
  let l := { l with next := Function.update l.next pWin (some pNextSib) }
  let l := { l with prev := Function.update l.prev pWin (l.prev pNextSib) }
  let l ← setNextIf l (l.prev pNextSib) (some pWin)
  let l := { l with prev := Function.update l.prev pNextSib (some pWin) }
  if pFirstChange ≠ none then .ok (l, pFirstChange)
  else do
    let pFirstChange ← searchFromTop l pWin pOldNext fuel l.first
    .ok (l, pFirstChange)

/-- `fuel` bounds the search from the top. -/
def moveWindowInStack (fuel : ℕ) (l : DList ν) (pWin : ν) (pNextSib : Option ν) : Outcome (Moved ν) :=
  if l.next pWin ≠ pNextSib then
    match pNextSib with
    | none => moveToBottom l pWin
    | some n => if l.first = some n then moveToTop l pWin n else moveInMiddle fuel l pWin n
  else .ok (l, some pWin)

/-! ## What it is for -/

/-- The list with `w` just before `target`, or at the end. -/
def insertBefore (w : ν) (target : Option ν) (xs : List ν) : List ν :=
  match target with
  | none => xs ++ [w]
  | some n => xs.takeWhile (· ≠ n) ++ w :: xs.dropWhile (· ≠ n)

/-- The stack with a window moved. -/
def restacked (w : ν) (target : Option ν) (xs : List ν) : List ν := insertBefore w target (xs.erase w)

/-- `p` stands at the first place where the lists differ. -/
def FirstChange (w p : ν) (old new : List ν) : Prop :=
  (old = new ∧ p = w) ∨ ∃ i : ℕ, old[i]? ≠ new[i]? ∧ (∀ j < i, old[j]? = new[j]?) ∧ new[i]? = some p

variable {us vs as bs cs xs : List ν} {w n x p : ν} {l : DList ν} {target : Option ν} {fuel : ℕ}

theorem erase_middle (h : (us ++ w :: vs).Nodup) : (us ++ w :: vs).erase w = us ++ vs := by
  have hus : w ∉ us := by
    rw [nodup_middle, nodup_cons] at h
    exact fun hw => h.1 (mem_append_left _ hw)
  rw [erase_append_right _ hus, erase_cons_head]

/-- The window goes between what stands before the other one, and the other one. -/
theorem insertBefore_split (hnodup : (as ++ bs).Nodup) (htarget : bs.head? = target) :
    insertBefore w target (as ++ bs) = as ++ w :: bs := by
  cases bs with
  | nil =>
    subst htarget
    rw [append_nil]
    rfl
  | cons n bs =>
    subst htarget
    have hstop : (n :: bs).takeWhile (· ≠ n) = [] ∧ (n :: bs).dropWhile (· ≠ n) = n :: bs := by simp
    have hall : ∀ x ∈ as, decide (x ≠ n) = true := by
      intro x hx
      rw [nodup_append] at hnodup
      exact decide_eq_true (hnodup.2.2 x hx n mem_cons_self)
    show (as ++ n :: bs).takeWhile _ ++ w :: (as ++ n :: bs).dropWhile _ = _
    rw [takeWhile_append_of_pos hall, dropWhile_append_of_pos hall, hstop.1, hstop.2, append_nil]

omit [DecidableEq ν] in
/-- A list can be parted before each of its nodes, and at its end. -/
theorem exists_split (h : ∀ n, target = some n → n ∈ xs) : ∃ as bs, xs = as ++ bs ∧ bs.head? = target := by
  cases target with
  | none => exact ⟨xs, [], (append_nil xs).symm, rfl⟩
  | some n =>
    obtain ⟨as, bs, hsplit⟩ := append_of_mem (h n rfl)
    exact ⟨as, n :: bs, hsplit, rfl⟩

omit [DecidableEq ν] in
/-- Two different windows at the same place, behind what has not changed. -/
theorem firstChange_of_ne (h : x ≠ p) : FirstChange w p (us ++ x :: vs) (us ++ p :: bs) := by
  have hat : ∀ (y : ν) (ys : List ν), (us ++ y :: ys)[us.length]? = some y := by
    intro y ys
    rw [List.getElem?_append_right (Nat.le_refl _), Nat.sub_self]
    rfl
  refine .inr ⟨us.length, ?_, fun j hj => ?_, hat p bs⟩
  · rw [hat, hat]
    exact fun heq => h (some.inj heq)
  · rw [getElem?_append_left hj, getElem?_append_left hj]

/-! ## The pointers -/

@[simp] theorem setNextIf_eq (l : DList ν) (p v : Option ν) : setNextIf l p v = .ok { l with next := DList.setIf l.next p v } := by
  cases p <;> rfl

@[simp] theorem setPrevIf_eq (l : DList ν) (p v : Option ν) : setPrevIf l p v = .ok { l with prev := DList.setIf l.prev p v } := by
  cases p <;> rfl

theorem setNext_some (l : DList ν) (p : ν) (v : Option ν) : setNext l (some p) v = .ok { l with next := update l.next p v } := rfl

theorem setPrev_some (l : DList ν) (p : ν) (v : Option ν) : setPrev l (some p) v = .ok { l with prev := update l.prev p v } := rfl

omit [DecidableEq ν] in
theorem ite_first (l : DList ν) (c : Prop) [Decidable c] (p : Option ν) :
    (if c then { l with first := p } else l) = { l with first := if c then p else l.first } := by
  by_cases hc : c
  · rw [if_pos hc, if_pos hc]
  · rw [if_neg hc, if_neg hc]

omit [DecidableEq ν] in
theorem ite_last (l : DList ν) (c : Prop) [Decidable c] (p : Option ν) :
    (if c then { l with last := p } else l) = { l with last := if c then p else l.last } := by
  by_cases hc : c
  · rw [if_pos hc, if_pos hc]
  · rw [if_neg hc, if_neg hc]

/-- **The bottom**: the window leaves the list and goes behind the last one. -/
theorem moveToBottom_eq (hnext : l.next w = some x) (hlast : l.last = some p) (hx : x ≠ w) :
    moveToBottom l w = .ok ((l.unlink w).link w (some p) none, some x) := by
  have hw : update l.prev x (l.prev w) w = l.prev w := update_of_ne (Ne.symm hx) _ _
  rw [moveToBottom, ite_first]
  simp only [hnext, hlast, hw, setPrev_some, setNextIf_eq, ok_bind, DList.unlink]
  rfl

/-- **The top**: the window leaves the list and goes before the first one. -/
theorem moveToTop_eq (hfirst : l.first = some n) (hn : n ≠ w) (hnext : l.next w ≠ some w) :
    moveToTop l w n = .ok ((l.unlink w).link w none (some n), some w) := by
  have hw : DList.setIf l.prev (l.next w) (l.prev w) w = l.prev w := DList.setIf_other hnext
  have hswap : update (update (DList.setIf l.prev (l.next w) (l.prev w)) w none) n (some w) =
      update (update (DList.setIf l.prev (l.next w) (l.prev w)) n (some w)) w none := update_comm (Ne.symm hn) _ _ _
  rw [moveToTop, ite_last]
  simp only [hw, hfirst, hswap, setPrevIf_eq, setNextIf_eq, ok_bind]
  rfl

/-- What the middle of the list answers for the first change. -/
def knownChange (l : DList ν) (w : ν) : Option ν :=
  if l.last = some w then some w else if l.first = some w then l.next w else none

/-- **The middle**: the window leaves the list and goes between two others. -/
theorem moveInMiddle_eq (hn : n ≠ w) (hp : p ≠ w) (hnext : l.next w ≠ some w) (hprev : (l.unlink w).prev n = some p) :
    moveInMiddle fuel l w n =
      if knownChange l w ≠ none then .ok ((l.unlink w).link w (some p) (some n), knownChange l w)
      else (searchFromTop ((l.unlink w).link w (some p) (some n)) w (l.next w) fuel (l.unlink w).first).map
        fun change => ((l.unlink w).link w (some p) (some n), change) := by
  have hw : DList.setIf l.prev (l.next w) (l.prev w) w = l.prev w := DList.setIf_other hnext
  have hprev' : DList.setIf l.prev (l.next w) (l.prev w) n = some p := hprev
  have hread : update (DList.setIf l.prev (l.next w) (l.prev w)) w (some p) n = some p := by
    rw [update_of_ne hn]
    exact hprev
  have hlink : (⟨(l.unlink w).first, (l.unlink w).last,
      DList.setIf (update (DList.setIf l.next (l.prev w) (l.next w)) w (some n)) (some p) (some w),
      update (update (DList.setIf l.prev (l.next w) (l.prev w)) w (some p)) n (some w)⟩ : DList ν) =
      (l.unlink w).link w (some p) (some n) := by
    have hnext' : DList.setIf (update (DList.setIf l.next (l.prev w) (l.next w)) w (some n)) (some p) (some w) =
        update (DList.setIf (l.unlink w).next (some p) (some w)) w (some n) := update_comm (Ne.symm hp) _ _ _
    rw [hnext', update_comm (Ne.symm hn)]
    rfl
  rw [moveInMiddle, ite_first, ite_last]
  simp only [hw, hprev', hread, setPrevIf_eq, setNextIf_eq, ok_bind]
  rw [← hlink]
  rfl

/-! ## The search -/

/-- The first of the two windows is found. -/
theorem searchFromTop_spec {old : Option ν} (hpath : Path l.next (as ++ x :: bs)) (hx : x = w ∨ some x = old)
    (has : ∀ y ∈ as, y ≠ w ∧ some y ≠ old) (hfuel : as.length < fuel) :
    searchFromTop l w old fuel (as ++ x :: bs).head? = .ok (some x) := by
  induction as generalizing fuel with
  | nil =>
    obtain ⟨fuel, rfl⟩ := Nat.exists_eq_succ_of_ne_zero (show fuel ≠ 0 by omega)
    have hstop : some x = some w ∨ some x = old := hx.imp (congrArg some) id
    exact if_pos hstop
  | cons a as ih =>
    obtain ⟨fuel, rfl⟩ := Nat.exists_eq_succ_of_ne_zero (show fuel ≠ 0 by omega)
    have ha := has a mem_cons_self
    have hgo : ¬(some a = some w ∨ some a = old) := by
      rintro (heq | heq)
      · exact ha.1 (some.inj heq)
      · exact ha.2 heq
    show searchFromTop l w old (fuel + 1) (some a) = _
    rw [searchFromTop, if_neg hgo, deref_some, ok_bind, hpath.1]
    exact ih hpath.2 (fun y hy => has y (mem_cons_of_mem _ hy)) (Nat.lt_of_succ_lt_succ hfuel)

/-! ## The move -/

/-- What a move leaves: the window between the two lists, the links of all others, and the first change. -/
structure Leaves (l : DList ν) (xs : List ν) (w : ν) (new : List ν) (r : Moved ν) : Prop where
  runs : r.1.Runs new
  others : ∀ x, x ∉ xs → r.1.next x = l.next x ∧ r.1.prev x = l.prev x
  change : ∃ p, r.2 = some p ∧ FirstChange w p xs new

/-- The lists before and after a move, parted at both places. -/
theorem link_runs (h : l.Runs (us ++ w :: vs)) (hsplit : us ++ vs = as ++ bs) :
    ((l.unlink w).link w as.getLast? bs.head?).Runs (as ++ w :: bs) ∧
      ∀ x, x ∉ us ++ w :: vs → ((l.unlink w).link w as.getLast? bs.head?).next x = l.next x ∧
        ((l.unlink w).link w as.getLast? bs.head?).prev x = l.prev x := by
  have hrest := h.unlink
  have hw : w ∉ us ++ vs := by
    have hnodup := h.nodup
    rw [nodup_middle, nodup_cons] at hnodup
    exact hnodup.1
  constructor
  · rw [hsplit] at hrest hw
    exact hrest.link hw
  · intro x hx
    apply h.move_frame _ _ hx
    · intro y hy
      rw [hsplit]
      exact mem_append_left _ (mem_of_getLast? hy)
    · intro y hy
      rw [hsplit]
      exact mem_append_right _ (mem_of_head? hy)

omit [DecidableEq ν] in
/-- In a list without repetition a place is told by what stands there. -/
theorem split_unique (hnodup : (us ++ vs).Nodup) (hsplit : us ++ vs = as ++ bs) (hhead : vs.head? = bs.head?) : us = as ∧ vs = bs := by
  have hnil : ∀ {cs ds : List ν}, cs ++ ds = vs ∨ cs ++ ds = bs → (∀ x ∈ cs, x ∉ ds) → (cs ++ ds).head? = ds.head? → cs = [] := by
    intro cs ds _ hdisjoint heq
    cases cs with
    | nil => rfl
    | cons c cs => exact absurd (mem_of_head? heq.symm) (hdisjoint c mem_cons_self)
  rcases append_eq_append_iff.1 hsplit with ⟨cs, rfl, rfl⟩ | ⟨cs, rfl, rfl⟩
  · rw [nodup_append] at hnodup
    have hdisjoint : ∀ x ∈ cs, x ∉ bs := by
      have hvs := hnodup.2.1
      rw [nodup_append] at hvs
      exact fun x hx hxb => hvs.2.2 x hx x hxb rfl
    obtain rfl := hnil (.inl rfl) hdisjoint hhead
    exact ⟨(append_nil us).symm, rfl⟩
  · have hdisjoint : ∀ x ∈ cs, x ∉ vs := by
      rw [append_assoc, nodup_append] at hnodup
      have hrest := hnodup.2.1
      rw [nodup_append] at hrest
      exact fun x hx hxv => hrest.2.2 x hx x hxv rfl
    obtain rfl := hnil (.inr rfl) hdisjoint hhead.symm
    exact ⟨append_nil as, rfl⟩

omit [DecidableEq ν] in
theorem getLast?_middle (hnodup : w ∉ us ++ vs) : (us ++ w :: vs).getLast? = some w ↔ vs = [] := by
  constructor
  · intro h
    by_contra hvs
    obtain ⟨p, hp, hlast⟩ := exists_getLast hvs
    rw [getLast?_append, getLast?_cons_of_ne hvs, hlast] at h
    rw [some.inj h] at hp
    exact hnodup (mem_append_right _ hp)
  · rintro rfl
    exact getLast?_concat

omit [DecidableEq ν] in
theorem head?_middle (hnodup : w ∉ us ++ vs) : (us ++ w :: vs).head? = some w ↔ us = [] := by
  constructor
  · intro h
    by_contra hus
    rw [head?_append_of_ne hus] at h
    exact hnodup (mem_append_left _ (mem_of_head? h))
  · rintro rfl
    rfl

/-- **In the middle**: the first change is known, or found from the top. -/
theorem moveInMiddle_leaves (h : l.Runs (us ++ w :: vs)) (hsplit : us ++ vs = as ++ n :: bs) (has : as ≠ []) (hvs : vs.head? ≠ some n)
    (hfuel : (us ++ w :: vs).length < fuel) :
    ∃ r, moveInMiddle fuel l w n = .ok r ∧ Leaves l (us ++ w :: vs) w (as ++ w :: n :: bs) r := by
  have hnext := h.next_at
  have hw := h.nodup
  rw [nodup_middle, nodup_cons] at hw
  have hnodup := hw.2
  obtain ⟨hruns, hothers⟩ := link_runs h hsplit
  have hself : l.next w ≠ some w := by
    rw [hnext]
    exact fun heq => hw.1 (mem_append_right _ (mem_of_head? heq))
  obtain ⟨p, hp, hlast⟩ := exists_getLast has
  have hpw : p ≠ w := by
    rintro rfl
    apply hw.1
    rw [hsplit]
    exact mem_append_left _ hp
  have hnw : n ≠ w := by
    rintro rfl
    apply hw.1
    rw [hsplit]
    exact mem_append_right _ mem_cons_self
  have hprev : (l.unlink w).prev n = some p := by
    have hrest := h.unlink
    rw [hsplit] at hrest
    rw [hrest.prev_at, hlast]
  rw [hlast] at hruns hothers
  have hlen : as.length < fuel := by
    have hlength := congrArg length hsplit
    simp only [length_append, length_cons] at hlength hfuel
    omega
  have hfirst : (l.unlink w).first = (as ++ w :: n :: bs).head? := by
    rw [h.unlink.first, hsplit, head?_append_of_ne has, head?_append_of_ne has]
  rw [moveInMiddle_eq hnw hpw hself hprev, knownChange, h.last, h.first, hnext, hfirst]
  rcases append_eq_append_iff.1 hsplit with ⟨cs, rfl, rfl⟩ | ⟨cs, rfl, hbs⟩
  · -- the window goes down
    cases cs with
    | nil => exact absurd rfl hvs
    | cons x cs =>
      have hxw : w ≠ x := by
        rintro rfl
        exact hw.1 (mem_append_right _ mem_cons_self)
      have hchange : FirstChange w x (us ++ w :: (x :: cs ++ n :: bs)) (us ++ x :: cs ++ w :: n :: bs) := by
        rw [append_assoc]
        exact firstChange_of_ne hxw
      rw [if_neg (fun heq => nomatch (getLast?_middle hw.1).1 heq)]
      by_cases hus : us = []
      · rw [if_pos ((head?_middle hw.1).2 hus)]
        exact ⟨_, rfl, hruns, hothers, x, rfl, hchange⟩
      · have hfind : searchFromTop ((l.unlink w).link w (some p) (some n)) w (some x) fuel (us ++ x :: cs ++ w :: n :: bs).head? =
            .ok (some x) := by
          have hpath := hruns.next
          rw [append_assoc] at hpath ⊢
          apply searchFromTop_spec hpath (.inr rfl)
          · intro y hy
            refine ⟨?_, ?_⟩
            · rintro rfl
              exact hw.1 (mem_append_left _ hy)
            · intro heq
              rw [nodup_append] at hnodup
              exact hnodup.2.2 y hy x mem_cons_self (some.inj heq)
          · rw [length_append] at hlen
            omega
        rw [if_neg (fun heq => hus ((head?_middle hw.1).1 heq))]
        show ∃ r, Except.map _ (searchFromTop _ w (some x) fuel _) = .ok r ∧ _
        rw [hfind]
        exact ⟨_, rfl, hruns, hothers, x, rfl, hchange⟩
  · -- the window goes up
    cases cs with
    | nil => exact absurd (congrArg head? hbs).symm hvs
    | cons m cs =>
      obtain ⟨rfl, hrest⟩ := cons.inj hbs
      obtain rfl : bs = cs ++ vs := hrest
      have hchange : FirstChange w w (as ++ n :: cs ++ w :: vs) (as ++ w :: n :: (cs ++ vs)) := by
        rw [append_assoc]
        exact firstChange_of_ne hnw
      have hus : as ++ n :: cs ≠ [] := fun heq => has (append_eq_nil_iff.1 heq).1
      by_cases hvs' : vs = []
      · rw [if_pos ((getLast?_middle hw.1).2 hvs')]
        exact ⟨_, rfl, hruns, hothers, w, rfl, hchange⟩
      · have hfind : searchFromTop ((l.unlink w).link w (some p) (some n)) w vs.head? fuel (as ++ w :: n :: (cs ++ vs)).head? =
            .ok (some w) := by
          apply searchFromTop_spec hruns.next (.inl rfl) _ hlen
          intro y hy
          refine ⟨?_, ?_⟩
          · rintro rfl
            exact hw.1 (mem_append_left _ (mem_append_left _ hy))
          · intro heq
            rw [nodup_append] at hnodup
            exact hnodup.2.2 y (mem_append_left _ hy) y (mem_of_head? heq.symm) rfl
        rw [if_neg (fun heq => hvs' ((getLast?_middle hw.1).1 heq)), if_neg (fun heq => hus ((head?_middle hw.1).1 heq)), hfind]
        exact ⟨_, rfl, hruns, hothers, w, rfl, hchange⟩

/-- **Where the window goes**: every place but the one it has is reached by one of the branches. -/
theorem moveWindowInStack_leaves (h : l.Runs (us ++ w :: vs)) (hsplit : us ++ vs = as ++ bs) (hfuel : (us ++ w :: vs).length < fuel) :
    ∃ r, moveWindowInStack fuel l w bs.head? = .ok r ∧ Leaves l (us ++ w :: vs) w (as ++ w :: bs) r := by
  have hnext := h.next_at
  have hw := h.nodup
  rw [nodup_middle, nodup_cons] at hw
  obtain ⟨hruns, hothers⟩ := link_runs h hsplit
  unfold moveWindowInStack
  rw [hnext]
  by_cases hsame : vs.head? = bs.head?
  · obtain ⟨rfl, rfl⟩ := split_unique hw.2 hsplit hsame
    rw [if_neg (not_not_intro rfl)]
    exact ⟨_, rfl, h, fun x _ => ⟨rfl, rfl⟩, w, rfl, .inl ⟨rfl, rfl⟩⟩
  · rw [if_pos hsame]
    cases bs with
    | nil =>
      rw [append_nil] at hsplit
      subst hsplit
      cases vs with
      | nil => exact absurd rfl hsame
      | cons x vs =>
        have hxw : x ≠ w := by
          rintro rfl
          exact hw.1 (mem_append_right _ mem_cons_self)
        have hne : us ++ x :: vs ≠ [] := fun heq => nomatch (append_eq_nil_iff.1 heq).2
        obtain ⟨p, -, hp⟩ := exists_getLast hne
        have hlast : l.last = some p := by
          rw [h.last, ← hp, getLast?_append, getLast?_append, getLast?_cons_cons]
        rw [hp] at hruns hothers
        have hchange : FirstChange w x (us ++ w :: x :: vs) (us ++ x :: vs ++ [w]) := by
          rw [append_assoc]
          exact firstChange_of_ne (Ne.symm hxw)
        exact ⟨_, moveToBottom_eq hnext hlast hxw, hruns, hothers, x, rfl, hchange⟩
    | cons n bs =>
      have hnw : n ≠ w := by
        rintro rfl
        apply hw.1
        rw [hsplit]
        exact mem_append_right _ mem_cons_self
      show ∃ r, (if l.first = some n then moveToTop l w n else moveInMiddle fuel l w n) = .ok r ∧ _
      by_cases htop : l.first = some n
      · have hself : l.next w ≠ some w := by
          rw [hnext]
          exact fun heq => hw.1 (mem_append_right _ (mem_of_head? heq))
        -- nothing stands before the first window
        obtain ⟨us', rfl⟩ : ∃ us', us = n :: us' := by
          have hhead := h.first
          rw [htop] at hhead
          cases us with
          | nil => exact absurd (some.inj hhead) hnw
          | cons a us' => exact ⟨us', by rw [some.inj hhead]⟩
        obtain ⟨rfl, -⟩ := split_unique (show ([] ++ _ : List ν).Nodup from hw.2) hsplit rfl
        rw [if_pos htop]
        exact ⟨_, moveToTop_eq htop hnw hself, hruns, hothers, w, rfl,
          show FirstChange w w ([] ++ n :: (us' ++ w :: vs)) ([] ++ w :: n :: bs) from firstChange_of_ne hnw⟩
      · rw [if_neg htop]
        apply moveInMiddle_leaves h hsplit _ hsame hfuel
        rintro rfl
        cases us with
        | nil => exact hsame (congrArg head? hsplit)
        | cons a us =>
          apply htop
          rw [h.first]
          exact congrArg some (cons.inj hsplit).1

/-- **Moving a window**: it stands just before the other one, or at the end; the order of the others is as it was, and the window that is
returned stands at the first place that has changed. -/
theorem moveWindowInStack_spec {xs : List ν} (h : l.Runs xs) (hw : w ∈ xs) (htarget : ∀ n, target = some n → n ∈ xs ∧ n ≠ w)
    (hfuel : xs.length < fuel) :
    ∃ r, moveWindowInStack fuel l w target = .ok r ∧ Leaves l xs w (restacked w target xs) r ∧
      (restacked w target xs).erase w = xs.erase w := by
  obtain ⟨us, vs, rfl⟩ := append_of_mem hw
  have hnodup := h.nodup
  have hrest := erase_middle hnodup
  rw [nodup_middle, nodup_cons] at hnodup
  have hmem : ∀ n, target = some n → n ∈ us ++ vs := by
    intro n hn
    obtain ⟨hin, hne⟩ := htarget n hn
    rw [mem_append, mem_cons] at hin
    rw [mem_append]
    exact hin.imp id fun hin => hin.resolve_left hne
  obtain ⟨as, bs, hsplit, hhead⟩ := exists_split hmem
  have hnew : restacked w target (us ++ w :: vs) = as ++ w :: bs := by
    rw [restacked, hrest, hsplit]
    apply insertBefore_split _ hhead
    rw [← hsplit]
    exact hnodup.2
  obtain ⟨r, hr, hleaves⟩ := moveWindowInStack_leaves h hsplit hfuel
  rw [hhead] at hr
  refine ⟨r, hr, by rwa [hnew], ?_⟩
  rw [hnew, hrest, erase_middle hleaves.runs.nodup, hsplit]

/-! ## Three children -/

def threeChildren : DList ℕ where
  first := some 0
  last := some 2
  next := fun x => if x < 2 then some (x + 1) else none
  prev := fun x => if x = 0 then none else some (x - 1)

theorem threeChildren_runs : threeChildren.Runs [0, 1, 2] where
  nodup := by decide
  first := rfl
  last := rfl
  next := ⟨rfl, rfl, rfl, trivial⟩
  prev := ⟨rfl, rfl, rfl, trivial⟩

/-- The lowest of them goes between the two others. -/
theorem moveWindowInStack_three : ∃ r, moveWindowInStack 4 threeChildren 2 (some 1) = .ok r ∧
    Leaves threeChildren [0, 1, 2] 2 [0, 2, 1] r ∧ [0, 2, 1].erase 2 = [0, 1] :=
  moveWindowInStack_spec threeChildren_runs (by decide) (fun n hn => by rw [← some.inj hn]; decide) (by decide)

end Xenia.WindowStack
