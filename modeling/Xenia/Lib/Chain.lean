import Mathlib.Tactic

/-!
# Singly linked lists through their links

A link is a place that holds a pointer to a node: the head of a list, or the field of a node.
Code that keeps a pointer to a link can take nodes out and put nodes in without a special case
for the head. `Chain f a xs b` says that from the link `a` one reads the nodes `xs` and arrives
at the link `b`; what `b` holds is not part of it.

* `Chain.snoc`, `Chain.unlink`: a node written into the last link, and one taken out.
-/

namespace Xenia.Lib

open List Function

/-- The head of a list, or the field of a node. -/
inductive Link (ν : Type*)
  | head
  | next (n : ν)
  deriving DecidableEq

variable {ν : Type*} {f g : Link ν → Option ν} {a b c : Link ν} {xs ys : List ν} {q : ν}

/-- From `a` one reads `xs` and arrives at `b`. -/
def Chain (f : Link ν → Option ν) : Link ν → List ν → Link ν → Prop
  | a, [], b => a = b
  | a, x :: xs, b => f a = some x ∧ Chain f (.next x) xs b

theorem chain_append : Chain f a (xs ++ ys) c ↔ ∃ b, Chain f a xs b ∧ Chain f b ys c := by
  induction xs generalizing a with
  | nil => simp [Chain]
  | cons x xs ih => simp only [cons_append, Chain, ih, and_assoc, exists_and_left]

/-- Where a chain arrives. -/
theorem Chain.end_mem (h : Chain f a xs b) : b ∈ a :: xs.map .next := by
  induction xs generalizing a with
  | nil => exact mem_singleton.2 h.symm
  | cons x xs ih => exact mem_cons_of_mem _ (ih h.2)

theorem Chain.end_unique (h : Chain f a xs b) (h' : Chain g a xs c) : b = c := by
  induction xs generalizing a with
  | nil => exact h.symm.trans h'
  | cons x xs ih => exact ih h.2 h'.2

/-- The link where a chain arrives is not read. -/
theorem Chain.congr (h : Chain f a xs b) (hn : (a :: xs.map Link.next).Nodup)
    (hg : ∀ l ∈ a :: xs.map .next, l ≠ b → g l = f l) : Chain g a xs b := by
  induction xs generalizing a with
  | nil => exact h
  | cons x xs ih =>
    obtain ⟨ha, hn'⟩ := nodup_cons.1 hn
    have hab : a ≠ b := fun heq => ha (heq ▸ h.2.end_mem)
    refine ⟨(hg a (by simp) hab).trans h.1, ih h.2 hn' fun l hl => ?_⟩
    exact hg l (mem_cons_of_mem _ hl)

variable (xs ys) in
/-- Two pieces of one list have different links, but for the one where they meet. -/
theorem nodup_links (h : (xs ++ ys).Nodup) :
    (Link.head :: xs.map Link.next).Nodup ∧ (ys.map Link.next).Nodup ∧
      ∀ l ∈ ys.map Link.next, l ∉ Link.head :: xs.map Link.next := by
  obtain ⟨hx, hy, hxy⟩ := nodup_append.1 h
  have hinj : Function.Injective (Link.next : ν → Link ν) := fun _ _ heq => by cases heq; rfl
  refine ⟨nodup_cons.2 ⟨by simp, hx.map hinj⟩, hy.map hinj, ?_⟩
  intro l hl hmem
  obtain ⟨y, hy, rfl⟩ := mem_map.1 hl
  rcases mem_cons.1 hmem with heq | hmem
  · cases heq
  · obtain ⟨x, hx, heq⟩ := mem_map.1 hmem
    cases heq
    exact hxy _ hx _ hy rfl

variable [DecidableEq ν]

/-- A node written into the last link of a list. -/
theorem Chain.snoc (h : Chain f a xs b) (hn : (a :: xs.map Link.next).Nodup) :
    Chain (update f b (some q)) a (xs ++ [q]) (.next q) := by
  refine chain_append.2 ⟨b, h.congr hn fun l _ hne => update_of_ne hne .., ?_⟩
  exact ⟨update_self .., rfl⟩

/-- The node after `xs` taken out, by writing what its own link holds into the link to it. -/
theorem Chain.unlink (h : Chain f .head (xs ++ q :: ys) c) (hn : (xs ++ q :: ys).Nodup) (hb : Chain f .head xs b) :
    Chain (update f b (f (.next q))) .head xs b ∧
      if ys = [] then c = .next q
      else Chain (update f b (f (.next q))) b ys c := by
  obtain ⟨hl, hr, hlr⟩ := nodup_links _ _ hn
  obtain ⟨b', hxs, hq, hys⟩ := chain_append.1 h
  have hbb : b' = b := hxs.end_unique hb
  subst hbb
  refine ⟨hxs.congr hl fun l _ hne => update_of_ne hne .., ?_⟩
  cases ys with
  | nil => exact hys.symm
  | cons y ys =>
    refine ⟨by rw [update_self]; exact hys.1, hys.2.congr ?_ ?_⟩
    · exact (nodup_cons.1 hr).2
    · intro l hl' _
      refine update_of_ne ?_ ..
      rintro rfl
      exact hlr l (mem_cons_of_mem _ hl') hxs.end_mem

end Xenia.Lib
