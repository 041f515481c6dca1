import Mathlib.Tactic

/-!
# Lists of records with a key

Records are looked up in a list by a key, `key a = k`. `mem_map_eraseP` says which keys are left when the record of a key is
taken out, and `find?_key` and `find?_key_eq_none` what a search finds.
-/

namespace Xenia.Lib

open List

variable {α κ : Type*} [BEq κ] [LawfulBEq κ] {key : α → κ} {l : List α} {k k' : κ} {p : α → Bool}

theorem map_eraseP_key (hp : ∀ a ∈ l, p a = true ↔ key a = k) : (l.eraseP p).map key = (l.map key).erase k := by
  induction l with
  | nil => rfl
  | cons a rest ih =>
    rw [eraseP_cons, map_cons, erase_cons]
    by_cases heq : key a = k
    · rw [(hp a mem_cons_self).2 heq, cond_true, heq, beq_self_eq_true, if_pos rfl]
    · have hno : p a = false := by
        rw [Bool.eq_false_iff]
        exact fun hyes => heq ((hp a mem_cons_self).1 hyes)
      rw [hno, cond_false, map_cons, if_neg (by simpa using heq), ih fun b hb => hp b (mem_cons_of_mem _ hb)]

/-- The keys left when the record of a key is taken out. -/
theorem mem_map_eraseP (hnodup : (l.map key).Nodup) (hp : ∀ a ∈ l, p a = true ↔ key a = k) :
    k' ∈ (l.eraseP p).map key ↔ k' ∈ l.map key ∧ k' ≠ k := by
  rw [map_eraseP_key hp, hnodup.mem_erase_iff, and_comm]

theorem find?_key (hin : k ∈ l.map key) : ∃ a ∈ l, key a = k ∧ l.find? (key · == k) = some a := by
  cases hfind : l.find? (key · == k) with
  | none =>
    obtain ⟨a, ha, hkey⟩ := mem_map.1 hin
    exact absurd (beq_iff_eq.2 hkey) (find?_eq_none.1 hfind a ha)
  | some a =>
    have hkey := (find?_eq_some_iff_append.1 hfind).1
    exact ⟨a, mem_of_find?_eq_some hfind, beq_iff_eq.1 hkey, rfl⟩

theorem find?_key_eq_none : l.find? (key · == k) = none ↔ k ∉ l.map key := by
  rw [find?_eq_none, mem_map]
  constructor
  · rintro hno ⟨a, ha, hkey⟩
    exact hno a ha (beq_iff_eq.2 hkey)
  · exact fun hno a ha heq => hno ⟨a, ha, beq_iff_eq.1 heq⟩

omit [LawfulBEq κ] in
theorem find?_key_cons (a : α) (l : List α) (k : κ) :
    (a :: l).find? (key · == k) = if key a == k then some a else l.find? (key · == k) := by
  rw [find?_cons]
  cases key a == k <;> rfl

/-! ## Writing to the record of a key -/

variable [DecidableEq κ] {f : α → α}

omit [BEq κ] [LawfulBEq κ] in
theorem map_key_write (hf : ∀ a, key (f a) = key a) (l : List α) :
    (l.map fun a => if key a = k then f a else a).map key = l.map key := by
  rw [map_map]
  apply map_congr_left
  intro a _
  dsimp only [Function.comp]
  split
  · exact hf a
  · rfl

/-- Only the record of the key is another one. -/
theorem find?_write (hf : ∀ a, key (f a) = key a) (l : List α) (k' : κ) :
    (l.map fun a => if key a = k then f a else a).find? (key · == k') =
      if k' = k then (l.find? (key · == k)).map f else l.find? (key · == k') := by
  induction l with
  | nil => simp
  | cons a rest ih =>
    have hkey : key (if key a = k then f a else a) = key a := by
      split
      · exact hf a
      · rfl
    rw [map_cons, find?_key_cons, find?_key_cons, find?_key_cons, ih, hkey]
    by_cases ha : key a = k
    · rw [if_pos ha]
      subst ha
      by_cases heq : k' = key a
      · subst heq
        simp
      · have hne : ¬ (key a == k') = true := fun h => heq (beq_iff_eq.1 h).symm
        rw [if_neg hne, if_neg heq, if_neg heq, if_neg hne]
    · have hne : ¬ (key a == k) = true := fun h => ha (beq_iff_eq.1 h)
      rw [if_neg ha, if_neg hne]
      by_cases heq : k' = k
      · subst heq
        rw [if_neg hne, if_pos rfl, if_pos rfl]
      · rw [if_neg heq, if_neg heq]

/-- The record of a key is taken out. -/
theorem find?_eraseP (hnodup : (l.map key).Nodup) (k' : κ) :
    (l.eraseP (key · == k)).find? (key · == k') = if k' = k then none else l.find? (key · == k') := by
  by_cases heq : k' = k
  · subst heq
    rw [if_pos rfl, find?_key_eq_none, mem_map_eraseP hnodup fun _ _ => beq_iff_eq]
    exact fun h => h.2 rfl
  · rw [if_neg heq]
    induction l with
    | nil => rfl
    | cons a rest ih =>
      rw [eraseP_cons, find?_key_cons]
      by_cases ha : key a = k
      · have hne : ¬ (key a == k') = true := fun h => heq ((beq_iff_eq.1 h).symm.trans ha)
        rw [beq_iff_eq.2 ha, cond_true, if_neg hne]
      · have hno : (key a == k) = false := by
          rw [Bool.eq_false_iff]
          exact fun h => ha (beq_iff_eq.1 h)
        rw [hno, cond_false, find?_key_cons, ih (nodup_cons.1 hnodup).2]

end Xenia.Lib
