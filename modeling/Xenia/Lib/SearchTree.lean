import Mathlib.Tactic

/-!
# Search trees

A binary tree searched by a function that says, at each value, which way to go. When the
directions agree with an order of keys (`Directed`) and the tree is sorted by the keys,
a search finds exactly the value with the key it is directed to (`find_iff`), and a value
put where a failed search ended keeps the tree sorted (`Sorted.insert`).
-/

namespace Xenia.Lib.SearchTree

open BinaryTree

variable {α κ : Type*} [LinearOrder κ] {k : α → κ} {dir : α → Ordering} {key : κ} {t : BinaryTree α}

/-- The value at which a search ends, if it does not fall off the tree. -/
def find (dir : α → Ordering) : BinaryTree α → Option α
  | nil => none
  | node x l r =>
    match dir x with
    | .lt => find dir l
    | .gt => find dir r
    | .eq => some x

/-- A new leaf where the search falls off the tree. -/
def insert (dir : α → Ordering) (y : α) : BinaryTree α → BinaryTree α
  | nil => node y nil nil
  | node x l r =>
    match dir x with
    | .lt => node x (insert dir y l) r
    | .gt => node x l (insert dir y r)
    | .eq => node x l r

def Mem (y : α) : BinaryTree α → Prop
  | nil => False
  | node x l r => y = x ∨ Mem y l ∨ Mem y r

def Sorted (k : α → κ) : BinaryTree α → Prop
  | nil => True
  | node x l r => Sorted k l ∧ Sorted k r ∧ (∀ y, Mem y l → k y < k x) ∧ ∀ y, Mem y r → k x < k y

/-- At each value of the tree the direction is that of the key. -/
def Directed (k : α → κ) (dir : α → Ordering) (key : κ) (t : BinaryTree α) : Prop :=
  ∀ x, Mem x t → (dir x = .lt ↔ key < k x) ∧ (dir x = .gt ↔ k x < key)

omit [LinearOrder κ] in
variable {x : α}

theorem find_mem (h : find dir t = some x) : Mem x t ∧ dir x = .eq := by
  induction t with
  | nil => cases h
  | node y l r ihl ihr =>
    unfold find at h
    split at h
    · exact ⟨.inr (.inl (ihl h).1), (ihl h).2⟩
    · exact ⟨.inr (.inr (ihr h).1), (ihr h).2⟩
    · cases h; exact ⟨.inl rfl, by assumption⟩

theorem Directed.left {l r : BinaryTree α} (h : Directed k dir key (node x l r)) :
    Directed k dir key l := fun y hy => h y (.inr (.inl hy))

theorem Directed.right {l r : BinaryTree α} (h : Directed k dir key (node x l r)) :
    Directed k dir key r := fun y hy => h y (.inr (.inr hy))

/-- A search finds the value with its key, and nothing when there is none. -/
theorem find_iff (hs : Sorted k t) (hd : Directed k dir key t) :
    find dir t = some x ↔ Mem x t ∧ k x = key := by
  constructor
  · intro h
    obtain ⟨hm, he⟩ := find_mem h
    obtain ⟨hlt, hgt⟩ := hd x hm
    refine ⟨hm, le_antisymm (not_lt.1 fun hc => ?_) (not_lt.1 fun hc => ?_)⟩
    · rw [hlt.2 hc] at he; cases he
    · rw [hgt.2 hc] at he; cases he
  · rintro ⟨hm, rfl⟩
    induction t with
    | nil => cases hm
    | node y l r ihl ihr =>
      obtain ⟨hsl, hsr, hl, hr⟩ := hs
      obtain ⟨hlt, hgt⟩ := hd y (.inl rfl)
      unfold find
      rcases hm with rfl | hm | hm
      · cases hdx : dir x with
        | eq => rfl
        | lt => exact absurd (hlt.1 hdx) (lt_irrefl _)
        | gt => exact absurd (hgt.1 hdx) (lt_irrefl _)
      · rw [hlt.2 (hl x hm)]; exact ihl hsl hm hd.left
      · rw [hgt.2 (hr x hm)]; exact ihr hsr hm hd.right

theorem find_none_iff (hs : Sorted k t) (hd : Directed k dir key t) :
    find dir t = none ↔ ∀ x, Mem x t → k x ≠ key := by
  rw [Option.eq_none_iff_forall_ne_some]
  exact forall_congr' fun x => by rw [ne_eq, find_iff hs hd, not_and]

omit [LinearOrder κ] in
theorem mem_insert {y : α} (hnone : find dir t = none) :
    Mem x (insert dir y t) ↔ x = y ∨ Mem x t := by
  induction t with
  | nil => simp [insert, Mem]
  | node z l r ihl ihr =>
    unfold find at hnone
    unfold insert
    split at hnone
    · simp only [Mem]; tauto
    · simp only [Mem]; tauto
    · cases hnone

/-- Inserting where the search for its key fell off. -/
theorem Sorted.insert {y : α} (hs : Sorted k t) (hd : Directed k dir (k y) t)
    (hnone : find dir t = none) : Sorted k (insert dir y t) := by
  induction t with
  | nil => exact ⟨trivial, trivial, fun _ h => h.elim, fun _ h => h.elim⟩
  | node x l r ihl ihr =>
    obtain ⟨hsl, hsr, hl, hr⟩ := hs
    obtain ⟨hlt, hgt⟩ := hd x (.inl rfl)
    unfold find at hnone
    unfold SearchTree.insert
    split at hnone
    · rename_i hx
      refine ⟨ihl hsl hd.left hnone, hsr, fun z hz => ?_, hr⟩
      rcases (mem_insert hnone).1 hz with rfl | hz
      exacts [hlt.1 hx, hl z hz]
    · rename_i hx
      refine ⟨hsl, ihr hsr hd.right hnone, hl, fun z hz => ?_⟩
      rcases (mem_insert hnone).1 hz with rfl | hz
      exacts [hgt.1 hx, hr z hz]
    · cases hnone

end Xenia.Lib.SearchTree
