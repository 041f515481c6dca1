import Mathlib.Tactic
import Mathlib.Order.CompletePartialOrder

/-!
# Tilings of a set by free space and tiles

`Tiled whole free tiles` says that the tiles are pairwise disjoint and disjoint from the free
space, and that with it they make up the whole. A tile that lies in the free space can be placed
(`Tiled.place`), a tile can be given back (`Tiled.release`, `Tiled.releaseAll`) and be cut down
(`Tiled.shrink`), and the order of the tiles says nothing (`Tiled.perm`). Giving a tile back and
taking it out again leaves the free space as it was (`Tiled.restore`).

`removeFirst` takes the first element with a property out of a list.
-/

namespace Xenia.Lib

variable {P : Type*}

structure Tiled (whole free : Set P) (tiles : List (Set P)) : Prop where
  apart : tiles.Pairwise Disjoint
  spare : ∀ t ∈ tiles, Disjoint t free
  covers : ∀ p, p ∈ whole ↔ p ∈ free ∨ ∃ t ∈ tiles, p ∈ t

variable {whole free t t' : Set P} {tiles tiles' : List (Set P)}

theorem Tiled.empty (whole : Set P) : Tiled whole whole [] where
  apart := .nil
  spare := by simp
  covers := by simp

theorem Tiled.perm (h : Tiled whole free tiles) (hperm : tiles.Perm tiles') : Tiled whole free tiles' where
  apart := (hperm.pairwise_iff fun hab => hab.symm).1 h.apart
  spare := fun t ht => h.spare t (hperm.mem_iff.2 ht)
  covers := by
    intro p
    rw [h.covers]
    simp only [hperm.mem_iff]

/-- A tile is placed in the free space. -/
theorem Tiled.place (h : Tiled whole free tiles) (ht : t ⊆ free) : Tiled whole (free \ t) (t :: tiles) where
  apart := by
    refine List.pairwise_cons.2 ⟨fun u hu => ?_, h.apart⟩
    exact ((h.spare u hu).mono_right ht).symm
  spare := by
    intro u hu
    rcases List.mem_cons.1 hu with rfl | hu
    · exact Set.disjoint_sdiff_right
    · exact (h.spare u hu).mono_right Set.sdiff_subset
  covers := by
    intro p
    rw [h.covers]
    simp only [List.mem_cons, exists_eq_or_imp, Set.mem_sdiff]
    tauto

section

variable (h : Tiled whole free (t :: tiles))
include h

/-- A tile is given back. -/
theorem Tiled.release : Tiled whole (free ∪ t) tiles where
  apart := (List.pairwise_cons.1 h.apart).2
  spare := by
    intro u hu
    rw [Set.disjoint_union_right]
    exact ⟨h.spare u (List.mem_cons_of_mem _ hu), ((List.pairwise_cons.1 h.apart).1 u hu).symm⟩
  covers := by
    intro p
    rw [h.covers]
    simp only [List.mem_cons, exists_eq_or_imp, Set.mem_union]
    tauto

/-- A tile is cut down to a part of it, and the rest of it is free. -/
theorem Tiled.shrink (ht : t' ⊆ t) :
    Tiled whole (free ∪ (t \ t')) (t' :: tiles) := by
  have hfree : (free ∪ t) \ t' = free ∪ (t \ t') := by
    have hdisj := Set.disjoint_left.1 ((h.spare t List.mem_cons_self).mono_left ht)
    ext p
    simp only [Set.mem_sdiff, Set.mem_union]
    tauto
  have := h.release.place (t := t') fun p hp => .inr (ht hp)
  rwa [hfree] at this

/-- A tile that is given back and taken out again leaves the free space as it was. -/
theorem Tiled.restore : (free ∪ t) \ t = free := by
  have hdisj := Set.disjoint_left.1 (h.spare t List.mem_cons_self)
  ext p
  simp only [Set.mem_sdiff, Set.mem_union]
  tauto

end

/-! ## The first element with a property -/

variable {α : Type*} {p : α → Bool} {l l' : List α} {a : α}

/-- The elements before the first one with the property, that one, and the elements after it. -/
def removeFirst (p : α → Bool) : List α → Option (List α × α × List α)
  | [] => none
  | a :: l => if p a then some ([], a, l) else (removeFirst p l).map fun r => (a :: r.1, r.2)

theorem removeFirst_some {before after : List α} (h : removeFirst p l = some (before, a, after)) :
    l = before ++ a :: after ∧ p a = true ∧ ∀ b ∈ before, p b = false := by
  induction l generalizing before with
  | nil => exact absurd h (by simp [removeFirst])
  | cons b l ih =>
    unfold removeFirst at h
    by_cases hb : p b = true
    · rw [if_pos hb, Option.some.injEq] at h
      obtain ⟨rfl, rfl, rfl⟩ := h
      exact ⟨rfl, hb, by simp⟩
    · rw [if_neg hb, Option.map_eq_some_iff] at h
      obtain ⟨⟨before', a', after'⟩, hrest, heq⟩ := h
      obtain ⟨rfl, rfl, rfl⟩ := heq
      obtain ⟨rfl, ha, hbefore⟩ := ih hrest
      refine ⟨rfl, ha, fun c hc => ?_⟩
      rcases List.mem_cons.1 hc with rfl | hc
      · simpa using hb
      · exact hbefore c hc

theorem removeFirst_none (h : removeFirst p l = none) : ∀ b ∈ l, p b = false := by
  induction l with
  | nil => simp
  | cons b l ih =>
    unfold removeFirst at h
    by_cases hb : p b = true
    · rw [if_pos hb] at h
      exact absurd h (by simp)
    · rw [if_neg hb, Option.map_eq_none_iff] at h
      intro c hc
      rcases List.mem_cons.1 hc with rfl | hc
      · simpa using hb
      · exact ih h c hc

theorem find?_of_removeFirst {before after : List α} (h : removeFirst p l = some (before, a, after)) :
    l.find? p = some a := by
  obtain ⟨rfl, ha, hbefore⟩ := removeFirst_some h
  rw [List.find?_append, List.find?_eq_none.2 (by simpa using hbefore), List.find?_cons_of_pos ha]
  rfl

end Xenia.Lib
