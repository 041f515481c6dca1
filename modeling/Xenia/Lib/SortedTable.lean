import Mathlib.Tactic

/-!
# Sorted tables with binary search

A table is a list of records whose keys go strictly up. `bsearch` looks for a key with two bounds that close in: it answers the
position of the record, or `-p - 1` when there is none and `p` is where one would be put in (`bsearch_spec`). `lookup_insert` and
`lookup_erase` say what a search finds after a record is put in or taken out there.
-/

namespace Xenia.Lib

open List Option

variable {α κ : Type*} [LinearOrder κ] (key : α → κ) {l before after : List α} {a : α} {k k' : κ}

/-- Keys go strictly up. -/
def Sorted (l : List α) : Prop := (l.map key).Pairwise (· < ·)

/-- The loop of the search; each turn uses one unit of fuel. -/
def bsearchLoop (l : List α) (k : κ) : ℕ → ℤ → ℤ → ℤ
  | 0, lo, _ => -(lo + 1)
  | fuel + 1, lo, hi =>
    if lo ≤ hi then
      let m := (lo + hi) / 2
      match l[m.toNat]? with
      | none => -(lo + 1)
      | some a =>
        if key a < k then bsearchLoop l k fuel (m + 1) hi
        else if k < key a then bsearchLoop l k fuel lo (m - 1)
        else m
    else -(lo + 1)

def bsearch (l : List α) (k : κ) : ℤ := bsearchLoop key l k (l.length + 1) 0 (l.length - 1)

/-- The record with a key. -/
def lookup (l : List α) (k : κ) : Option α := l.find? fun a => decide (key a = k)

/-- What a search answers. -/
inductive Searched (l : List α) (k : κ) (r : ℤ) : Prop
  | found (before : List α) (a : α) (after : List α) (hl : l = before ++ a :: after) (hkey : key a = k) (hr : r = before.length)
  | absent (before after : List α) (hl : l = before ++ after) (hbefore : ∀ a ∈ before, key a < k) (hafter : ∀ a ∈ after, k < key a)
      (hr : r = -(before.length + 1))

variable {key}

theorem Sorted.lt_of_lt (hl : Sorted key l) {i j : ℕ} {b : α} (hi : l[i]? = some a) (hj : l[j]? = some b) (hij : i < j) :
    key a < key b := by
  obtain ⟨hi', rfl⟩ := List.getElem?_eq_some_iff.1 hi
  obtain ⟨hj', rfl⟩ := List.getElem?_eq_some_iff.1 hj
  have := pairwise_iff_getElem.1 hl i j (by simpa using hi') (by simpa using hj') hij
  simpa using this

/-- The bounds keep what is left of them below the key and what is right of them above. -/
theorem bsearchLoop_spec (hl : Sorted key l) (fuel : ℕ) (lo hi : ℤ) (hlo : 0 ≤ lo) (hhi : hi < l.length) (hclose : lo ≤ hi + 1)
    (hfuel : hi + 1 - lo < fuel) (hbelow : ∀ i : ℕ, (i : ℤ) < lo → ∀ a, l[i]? = some a → key a < k)
    (habove : ∀ i : ℕ, hi < i → ∀ a, l[i]? = some a → k < key a) : Searched key l k (bsearchLoop key l k fuel lo hi) := by
  induction fuel generalizing lo hi with
  | zero => omega
  | succ fuel ih =>
    unfold bsearchLoop
    split
    next hle =>
      dsimp only
      have hm : ((lo + hi) / 2).toNat < l.length := by omega
      have hget : l[((lo + hi) / 2).toNat]? = some l[((lo + hi) / 2).toNat] := getElem?_eq_getElem hm
      rw [hget]
      dsimp only
      split
      next hlt =>
        apply ih
        · omega
        · omega
        · omega
        · omega
        · intro i hi' a ha
          -- what is at or before the middle is below
          rcases lt_or_ge i ((lo + hi) / 2).toNat with hbefore | hat
          · exact (hl.lt_of_lt ha hget hbefore).trans hlt
          · obtain rfl : i = ((lo + hi) / 2).toNat := by omega
            rw [hget] at ha
            exact some.inj ha ▸ hlt
        · exact habove
      next hnot =>
        split
        next hgt =>
          apply ih
          · omega
          · omega
          · omega
          · omega
          · exact hbelow
          · intro i hi' a ha
            rcases lt_or_ge ((lo + hi) / 2).toNat i with hlater | hat
            · exact hgt.trans (hl.lt_of_lt hget ha hlater)
            · obtain rfl : i = ((lo + hi) / 2).toNat := by omega
              rw [hget] at ha
              exact some.inj ha ▸ hgt
        next hnot' =>
          refine .found (l.take ((lo + hi) / 2).toNat) l[((lo + hi) / 2).toNat] (l.drop (((lo + hi) / 2).toNat + 1)) ?_ ?_ ?_
          · rw [getElem_cons_drop, take_append_drop]
          · exact le_antisymm (not_lt.1 hnot') (not_lt.1 hnot)
          · rw [length_take]
            omega
    next hcrossed =>
      refine .absent (l.take lo.toNat) (l.drop lo.toNat) (take_append_drop _ l).symm ?_ ?_ ?_
      · intro a ha
        obtain ⟨i, hi', heq⟩ := mem_take_iff_getElem.1 ha
        exact hbelow i (by omega) a (heq ▸ getElem?_eq_getElem _)
      · intro a ha
        obtain ⟨i, hi', heq⟩ := mem_drop_iff_getElem.1 ha
        exact habove (lo.toNat + i) (by omega) a (heq ▸ getElem?_eq_getElem _)
      · rw [length_take]
        omega

/-- **Binary search.** -/
theorem bsearch_spec (hl : Sorted key l) (k : κ) : Searched key l k (bsearch key l k) := by
  apply bsearchLoop_spec hl
  · exact le_rfl
  · omega
  · omega
  · omega
  · intro i hi
    omega
  · intro i hi a ha
    have := (List.getElem?_eq_some_iff.1 ha).1
    omega

/-! ## Putting in and taking out -/

theorem insertIdx_append (before after : List α) (a : α) : (before ++ after).insertIdx before.length a = before ++ a :: after := by
  induction before with
  | nil => rfl
  | cons b before ih => simp [ih]

theorem eraseIdx_append (before after : List α) (a : α) : (before ++ a :: after).eraseIdx before.length = before ++ after := by
  induction before with
  | nil => rfl
  | cons b before ih => simp [ih]

theorem lookup_eq_none : lookup key l k = none ↔ ∀ a ∈ l, key a ≠ k := by
  unfold lookup
  simp

theorem lookup_key {a : α} (h : lookup key l k = some a) : a ∈ l ∧ key a = k := by
  have hkey := (find?_eq_some_iff_append.1 h).1
  exact ⟨mem_of_find?_eq_some h, by simpa using hkey⟩

theorem lookup_append (k' : κ) : lookup key (before ++ after) k' = (lookup key before k').or (lookup key after k') := find?_append

theorem lookup_cons (k' : κ) : lookup key (a :: after) k' = if key a = k' then some a else lookup key after k' := by
  unfold lookup
  by_cases h : key a = k' <;> simp [h]

theorem sorted_append : Sorted key (before ++ after) ↔
    Sorted key before ∧ Sorted key after ∧ ∀ a ∈ before, ∀ b ∈ after, key a < key b := by
  unfold Sorted
  rw [map_append, pairwise_append]
  simp

theorem sorted_cons : Sorted key (a :: after) ↔ (∀ b ∈ after, key a < key b) ∧ Sorted key after := by
  unfold Sorted
  simp

theorem Sorted.congr {key' : α → κ} (hl : Sorted key l) (hkey : ∀ a ∈ l, key' a = key a) : Sorted key' l := by
  unfold Sorted
  rw [map_congr_left hkey]
  exact hl

theorem lookup_congr {key' : α → κ} (hkey : ∀ a ∈ l, key' a = key a) (k : κ) : lookup key' l k = lookup key l k := by
  induction l with
  | nil => rfl
  | cons a rest ih =>
    rw [lookup_cons, lookup_cons, hkey a mem_cons_self, ih fun b hb => hkey b (mem_cons_of_mem _ hb)]

/-- A record is put in where the search ended. -/
theorem Sorted.insert (hl : Sorted key (before ++ after)) (hbefore : ∀ b ∈ before, key b < key a)
    (hafter : ∀ b ∈ after, key a < key b) : Sorted key (before ++ a :: after) := by
  obtain ⟨h1, h2, h12⟩ := sorted_append.1 hl
  rw [sorted_append, sorted_cons]
  refine ⟨h1, ⟨hafter, h2⟩, ?_⟩
  intro b hb c hc
  rcases mem_cons.1 hc with rfl | hc
  · exact hbefore b hb
  · exact h12 b hb c hc

theorem Sorted.erase (hl : Sorted key (before ++ a :: after)) : Sorted key (before ++ after) := by
  obtain ⟨h1, h2, h12⟩ := sorted_append.1 hl
  rw [sorted_append]
  exact ⟨h1, (sorted_cons.1 h2).2, fun b hb c hc => h12 b hb c (mem_cons_of_mem _ hc)⟩

theorem lookup_insert (hbefore : ∀ b ∈ before, key b < key a) (k' : κ) :
    lookup key (before ++ a :: after) k' = if key a = k' then some a else lookup key (before ++ after) k' := by
  rw [lookup_append, lookup_append, lookup_cons]
  by_cases h : key a = k'
  · rw [if_pos h, if_pos h]
    have hnone : lookup key before k' = none := by
      rw [lookup_eq_none]
      intro b hb
      exact ne_of_lt (h ▸ hbefore b hb)
    rw [hnone, none_or]
  · rw [if_neg h, if_neg h]

theorem lookup_erase (hl : Sorted key (before ++ a :: after)) (k' : κ) :
    lookup key (before ++ after) k' = if key a = k' then none else lookup key (before ++ a :: after) k' := by
  obtain ⟨-, h2, h12⟩ := sorted_append.1 hl
  by_cases h : key a = k'
  · rw [if_pos h, lookup_eq_none]
    intro b hb
    rcases mem_append.1 hb with hb | hb
    · exact ne_of_lt (h ▸ h12 b hb a mem_cons_self)
    · exact ne_of_gt (h ▸ (sorted_cons.1 h2).1 b hb)
  · rw [if_neg h, lookup_append, lookup_append, lookup_cons, if_neg h]

/-- The record at a position is the one found. -/
theorem lookup_of_mem (hl : Sorted key l) (ha : a ∈ l) : lookup key l (key a) = some a := by
  obtain ⟨before, after, rfl⟩ := append_of_mem ha
  obtain ⟨-, -, h12⟩ := sorted_append.1 hl
  rw [lookup_insert fun b hb => h12 b hb a mem_cons_self, if_pos rfl]

theorem modify_append (before after : List α) (a : α) (f : α → α) :
    (before ++ a :: after).modify before.length f = before ++ f a :: after := by
  induction before with
  | nil => rfl
  | cons b before ih => simp [ih]

/-- A record is written over by one with the same key. -/
theorem lookup_replace (a' : α) (hl : Sorted key (before ++ a :: after)) (hkey : key a' = key a) (k' : κ) :
    lookup key (before ++ a' :: after) k' = if key a = k' then some a' else lookup key (before ++ a :: after) k' := by
  obtain ⟨-, -, h12⟩ := sorted_append.1 hl
  have hlow : ∀ b ∈ before, key b < key a := fun b hb => h12 b hb a mem_cons_self
  rw [lookup_insert (a := a') fun b hb => hkey ▸ hlow b hb, lookup_insert hlow, hkey]
  split <;> rfl

theorem Sorted.replace {a' : α} (hl : Sorted key (before ++ a :: after)) (hkey : key a' = key a) :
    Sorted key (before ++ a' :: after) := by
  unfold Sorted at *
  rw [map_append, map_cons, hkey, ← map_cons, ← map_append]
  exact hl

end Xenia.Lib
