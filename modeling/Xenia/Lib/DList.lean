import Mathlib.Data.List.Nodup

/-!
# Doubly linked lists with two ends

`DList ν` is the memory of the links of nodes `ν`, with a pointer to the first and to the last node; `none` is the null pointer at both ends.
`Runs l xs` says that the list runs through the nodes `xs`, in both directions. The pointers that change when a node leaves the list
(`Runs.unlink`), or goes between two neighbours (`Runs.link`), are those of its neighbours and of the ends: `unlink` and `link` write them.
-/

namespace Xenia.Lib

open List Function Option

structure DList (ν : Type) where
  first : Option ν
  last : Option ν
  next : ν → Option ν
  prev : ν → Option ν

/-- Each node points to the one behind it. -/
def Path {ν : Type} (f : ν → Option ν) : List ν → Prop
  | [] => True
  | x :: xs => f x = xs.head? ∧ Path f xs

namespace DList

variable {ν : Type} [DecidableEq ν]

/-- A write through a pointer that may be null. -/
def setIf (f : ν → Option ν) (p v : Option ν) : ν → Option ν :=
  match p with
  | none => f
  | some p => Function.update f p v

/-- The neighbours of a node point to each other. -/
def unlink (l : DList ν) (w : ν) : DList ν where
  first := if l.first = some w then l.next w else l.first
  last := if l.last = some w then l.prev w else l.last
  next := setIf l.next (l.prev w) (l.next w)
  prev := setIf l.prev (l.next w) (l.prev w)

/-- A node goes between two neighbours, or one of them and an end. -/
def link (l : DList ν) (w : ν) (p n : Option ν) : DList ν where
  first := if p = none then some w else l.first
  last := if n = none then some w else l.last
  next := Function.update (setIf l.next p (some w)) w n
  prev := Function.update (setIf l.prev n (some w)) w p

/-- The list runs through these nodes. -/
structure Runs (l : DList ν) (xs : List ν) : Prop where
  nodup : xs.Nodup
  first : l.first = xs.head?
  last : l.last = xs.getLast?
  next : Path l.next xs
  prev : Path l.prev xs.reverse

end DList

variable {ν : Type} [DecidableEq ν] {f g : ν → Option ν} {us vs xs : List ν} {w x : ν} {l : DList ν}

/-! ## One direction -/

omit [DecidableEq ν] in
theorem Path.congr (h : Path f xs) (hfg : ∀ x ∈ xs, g x = f x) : Path g xs := by
  induction xs with
  | nil => exact trivial
  | cons x xs ih =>
    refine ⟨?_, ih h.2 fun y hy => hfg y (mem_cons_of_mem _ hy)⟩
    rw [hfg x mem_cons_self]
    exact h.1

omit [DecidableEq ν] in
theorem Path.at (h : Path f (us ++ x :: vs)) : f x = vs.head? := by
  induction us with
  | nil => exact h.1
  | cons a us ih => exact ih h.2

omit [DecidableEq ν] in
/-- The pointers say which nodes there are. -/
theorem Path.unique {ys : List ν} (hx : Path f xs) (hy : Path f ys) (hhead : xs.head? = ys.head?) : xs = ys := by
  induction xs generalizing ys with
  | nil =>
    cases ys with
    | nil => rfl
    | cons y ys => exact absurd hhead.symm (some_ne_none y)
  | cons x xs ih =>
    cases ys with
    | nil => exact absurd hhead (some_ne_none x)
    | cons y ys =>
      obtain rfl : x = y := some.inj hhead
      rw [ih hx.2 hy.2 (hx.1.symm.trans hy.1)]

omit [DecidableEq ν] in
theorem Path.suffix (h : Path f (us ++ vs)) : Path f vs := by
  induction us with
  | nil => exact h
  | cons a us ih => exact ih h.2

omit [DecidableEq ν] in
theorem getLast?_cons_of_ne {a : ν} (h : us ≠ []) : (a :: us).getLast? = us.getLast? := by
  cases us with
  | nil => exact absurd rfl h
  | cons b us => rw [getLast?_cons_cons]

omit [DecidableEq ν] in
theorem head?_append_of_ne (h : us ≠ []) : (us ++ vs).head? = us.head? := by
  cases us with
  | nil => exact absurd rfl h
  | cons b us => rfl

omit [DecidableEq ν] in
theorem exists_getLast (h : us ≠ []) : ∃ p ∈ us, us.getLast? = some p :=
  ⟨us.getLast h, getLast_mem h, getLast?_eq_some_getLast h⟩

theorem DList.setIf_other {p v : Option ν} (h : p ≠ some x) : DList.setIf f p v x = f x := by
  cases p with
  | none => rfl
  | some p =>
    have hne : x ≠ p := fun hx => h (congrArg some hx.symm)
    exact update_of_ne hne _ _

/-- A write to no node of the list. -/
theorem Path.setIf {p v : Option ν} (h : Path f xs) (hp : ∀ x ∈ xs, p ≠ some x) : Path (DList.setIf f p v) xs :=
  h.congr fun x hx => DList.setIf_other (hp x hx)

/-- The node before points behind the one that leaves. -/
theorem Path.delete (h : Path f (us ++ w :: vs)) (hnodup : (us ++ w :: vs).Nodup) :
    Path (DList.setIf f us.getLast? vs.head?) (us ++ vs) := by
  induction us with
  | nil => exact h.2
  | cons a us ih =>
    rw [cons_append, nodup_cons] at hnodup
    have hrest := ih h.2 hnodup.2
    by_cases hus : us = []
    · subst hus
      refine ⟨update_self a _ _, ?_⟩
      have hvs : Path f vs := h.2.2
      apply hvs.setIf
      intro x hx heq
      obtain rfl : a = x := some.inj heq
      exact hnodup.1 (mem_cons_of_mem _ hx)
    · obtain ⟨p, hp, hlast⟩ := exists_getLast hus
      have hap : a ≠ p := fun heq => hnodup.1 (heq ▸ mem_append_left _ hp)
      have hother : us.getLast? ≠ some a := by
        rw [hlast]
        exact fun heq => hap (some.inj heq).symm
      have hfirst : f a = (us ++ w :: vs).head? := h.1
      rw [getLast?_cons_of_ne hus]
      refine ⟨?_, hrest⟩
      show DList.setIf f us.getLast? vs.head? a = (us ++ vs).head?
      rw [DList.setIf_other hother, hfirst, head?_append_of_ne hus, head?_append_of_ne hus]

/-- The node before points to the one that comes in, and this one behind. -/
theorem Path.insert (h : Path f (us ++ vs)) (hnodup : (us ++ vs).Nodup) (hw : w ∉ us ++ vs) :
    Path (update (DList.setIf f us.getLast? (some w)) w vs.head?) (us ++ w :: vs) := by
  induction us with
  | nil =>
    refine ⟨update_self w _ _, ?_⟩
    have hvs : Path f vs := h
    apply hvs.congr
    intro x hx
    have hne : x ≠ w := fun heq => hw (heq ▸ hx)
    exact update_of_ne hne _ _
  | cons a us ih =>
    rw [cons_append, nodup_cons] at hnodup
    rw [cons_append, mem_cons, not_or] at hw
    have hrest := ih h.2 hnodup.2 hw.2
    by_cases hus : us = []
    · subst hus
      refine ⟨?_, ?_⟩
      · rw [update_of_ne (Ne.symm hw.1)]
        exact update_self a _ _
      · apply hrest.congr
        intro x hx
        by_cases hxw : x = w
        · rw [hxw, update_self, update_self]
        · rw [update_of_ne hxw, update_of_ne hxw]
          apply DList.setIf_other
          intro heq
          obtain rfl : a = x := some.inj heq
          rw [nil_append, mem_cons] at hx
          exact hnodup.1 (hx.resolve_left hxw)
    · obtain ⟨p, hp, hlast⟩ := exists_getLast hus
      have hap : a ≠ p := fun heq => hnodup.1 (heq ▸ mem_append_left _ hp)
      have hother : us.getLast? ≠ some a := by
        rw [hlast]
        exact fun heq => hap (some.inj heq).symm
      have hfirst : f a = (us ++ vs).head? := h.1
      rw [getLast?_cons_of_ne hus]
      refine ⟨?_, hrest⟩
      show update (DList.setIf f us.getLast? (some w)) w vs.head? a = (us ++ w :: vs).head?
      rw [update_of_ne (Ne.symm hw.1), DList.setIf_other hother, hfirst, head?_append_of_ne hus, head?_append_of_ne hus]

/-! ## Both directions -/

namespace DList

omit [DecidableEq ν] in
theorem reverse_middle : (us ++ w :: vs).reverse = vs.reverse ++ w :: us.reverse := by
  rw [reverse_append, reverse_cons, append_assoc]
  rfl

omit [DecidableEq ν] in
theorem Runs.next_at (h : l.Runs (us ++ x :: vs)) : l.next x = vs.head? := h.next.at

omit [DecidableEq ν] in
theorem Runs.prev_at (h : l.Runs (us ++ x :: vs)) : l.prev x = us.getLast? := by
  have hprev := h.prev
  rw [reverse_middle] at hprev
  rw [hprev.at, head?_reverse]

omit [DecidableEq ν] in
theorem Runs.unique {ys : List ν} (hx : l.Runs xs) (hy : l.Runs ys) : xs = ys :=
  hx.next.unique hy.next (hx.first.symm.trans hy.first)

omit [DecidableEq ν] in
/-- No two nodes point to the same one, or behind the end. -/
theorem Runs.next_inj {y : ν} (h : l.Runs xs) (hx : x ∈ xs) (hy : y ∈ xs) (heq : l.next x = l.next y) : x = y := by
  have hback : ∀ {z : ν}, z ∈ xs → (∀ n, l.next z = some n → l.prev n = some z) ∧ (l.next z = none → l.last = some z) := by
    intro z hz
    obtain ⟨as, bs, rfl⟩ := append_of_mem hz
    rw [h.next_at]
    cases bs with
    | nil => exact ⟨fun n hn => absurd hn.symm (some_ne_none n), fun _ => h.last.trans getLast?_concat⟩
    | cons n bs =>
      refine ⟨fun m hm => ?_, fun hnone => absurd hnone (some_ne_none n)⟩
      obtain rfl := some.inj hm
      have hat : l.Runs ((as ++ [z]) ++ n :: bs) := by
        rw [append_assoc]
        exact h
      exact hat.prev_at.trans getLast?_concat
  cases hn : l.next x with
  | none => exact some.inj (((hback hx).2 hn).symm.trans ((hback hy).2 (heq.symm.trans hn)))
  | some n => exact some.inj (((hback hx).1 n hn).symm.trans ((hback hy).1 n (heq.symm.trans hn)))

/-- The first node is the one that leaves, or not. -/
theorem first_of_unlink (hnodup : (us ++ w :: vs).Nodup) :
    (if (us ++ w :: vs).head? = some w then vs.head? else (us ++ w :: vs).head?) = (us ++ vs).head? := by
  cases us with
  | nil => exact if_pos rfl
  | cons a us =>
    rw [cons_append, nodup_cons] at hnodup
    refine if_neg fun heq => hnodup.1 ?_
    rw [some.inj heq]
    exact mem_append_right _ mem_cons_self

/-- **A node leaves the list**. -/
theorem Runs.unlink (h : l.Runs (us ++ w :: vs)) : (l.unlink w).Runs (us ++ vs) := by
  have hrev : (vs.reverse ++ w :: us.reverse).Nodup := by
    rw [← reverse_middle]
    exact nodup_reverse.2 h.nodup
  have hprev := h.prev
  rw [reverse_middle] at hprev
  constructor
  · exact h.nodup.sublist (List.Sublist.append_left (sublist_cons_self w vs) us)
  · show (if l.first = some w then l.next w else l.first) = _
    rw [h.first, h.next_at]
    exact first_of_unlink h.nodup
  · show (if l.last = some w then l.prev w else l.last) = _
    rw [h.last, h.prev_at, ← head?_reverse, ← head?_reverse, ← head?_reverse, reverse_middle, reverse_append]
    exact first_of_unlink hrev
  · show Path (setIf l.next (l.prev w) (l.next w)) _
    rw [h.prev_at, h.next_at]
    exact h.next.delete h.nodup
  · show Path (setIf l.prev (l.next w) (l.prev w)) _
    rw [h.prev_at, h.next_at, reverse_append, ← head?_reverse, ← getLast?_reverse]
    exact hprev.delete hrev

/-- **A node goes into the list**. -/
theorem Runs.link (h : l.Runs (us ++ vs)) (hw : w ∉ us ++ vs) : (l.link w us.getLast? vs.head?).Runs (us ++ w :: vs) := by
  have hprev := h.prev
  rw [reverse_append] at hprev
  constructor
  · rw [nodup_middle, nodup_cons]
    exact ⟨hw, h.nodup⟩
  · show (if us.getLast? = none then some w else l.first) = _
    rw [h.first]
    cases us with
    | nil => rfl
    | cons a us =>
      apply if_neg
      rw [getLast?_eq_none_iff]
      exact cons_ne_nil a us
  · show (if vs.head? = none then some w else l.last) = _
    rw [h.last]
    cases vs with
    | nil =>
      rw [getLast?_concat]
      exact if_pos rfl
    | cons a vs =>
      rw [if_neg (fun hnone => nomatch hnone), getLast?_append, getLast?_append, getLast?_cons_cons]
  · exact h.next.insert h.nodup hw
  · show Path (update (setIf l.prev vs.head? (some w)) w us.getLast?) _
    rw [reverse_middle, ← head?_reverse, ← getLast?_reverse]
    apply hprev.insert
    · rw [← reverse_append]
      exact nodup_reverse.2 h.nodup
    · rw [← reverse_append, mem_reverse]
      exact hw

/-- What is not in the list keeps its links. -/
theorem Runs.move_frame {p n : Option ν} (h : l.Runs (us ++ w :: vs)) (hp : ∀ x, p = some x → x ∈ us ++ vs)
    (hn : ∀ x, n = some x → x ∈ us ++ vs) (hx : x ∉ us ++ w :: vs) :
    ((l.unlink w).link w p n).next x = l.next x ∧ ((l.unlink w).link w p n).prev x = l.prev x := by
  rw [mem_append, mem_cons, not_or, not_or] at hx
  have hout : x ∉ us ++ vs := fun hmem => (mem_append.1 hmem).elim hx.1 hx.2.2
  have hprev : us.getLast? ≠ some x := fun heq => hx.1 (mem_of_getLast? heq)
  have hnext : vs.head? ≠ some x := fun heq => hx.2.2 (mem_of_head? heq)
  constructor
  · show update (setIf (setIf l.next (l.prev w) (l.next w)) p (some w)) w n x = _
    rw [update_of_ne hx.2.1, setIf_other fun heq => hout (hp x heq), h.prev_at, setIf_other hprev]
  · show update (setIf (setIf l.prev (l.next w) (l.prev w)) n (some w)) w p x = _
    rw [update_of_ne hx.2.1, setIf_other fun heq => hout (hn x heq), h.next_at, setIf_other hnext]

end DList

end Xenia.Lib
