import Xenia.Xext.XkbCoreMap
import Xenia.Xext.XkbTypes
import Mathlib.Data.List.GetD

/-!
# What the rows of the core keyboard map hold

`XkbGetCoreMap_rows`: no row is left, and every row holds the groups of its key in the order of `coreOrder`.

A row is filled from the left: `Row w pCore row` says that the window shows the list `row` and `NoSymbol`
behind it. Where a key has one group, the row may end before all copies of the group are in it.
-/

namespace Xenia.Xext.Xkb

open Xenia.Lib List Option

variable {xkb : XkbDescRec} {map : XkbClientMapRec} {m : ℕ → XkbSymMapRec} {r : XkbSymMapRec} {w p i j k n a first : ℕ}
  {key maxGroups mapWidth : ℕ} {syms row A B : List KeySym} {pCore : ℕ → KeySym} {sym : KeySym} {keys : List ℕ}
  {sizes sizes' : CoreSizes} {out : ℕ × (ℕ → KeySym)} {place : ℕ → ℕ}

/-! ### The order of a row -/

/-- Two levels, with `NoSymbol` for a level that is not there. -/
def firstTwo (group : List KeySym) : List KeySym := [group.getD 0 NoSymbol, group.getD 1 NoSymbol]

/-- `G1L1 G1L2 G2L1 G2L2`, the other levels of group 1 and of group 2, and the other groups. -/
def coreOrder : List (List KeySym) → List KeySym
  | g1 :: g2 :: rest => firstTwo g1 ++ firstTwo g2 ++ g1.drop 2 ++ g2.drop 2 ++ rest.flatten
  | [g1] => firstTwo g1 ++ g1.drop 2
  | [] => []

/-- The number of levels of group `g` of a key. -/
def groupWidth (map : XkbClientMapRec) (r : XkbSymMapRec) (g : ℕ) : ℕ := levelsOf map (r.keyTypeIndex g)

/-- The symbol on level `l` of group `g`. -/
def groupSym (map : XkbClientMapRec) (r : XkbSymMapRec) (g l : ℕ) : KeySym :=
  (map.syms.getD []).getD (r.offset + g * r.width + l) NoSymbol

def groupSyms (map : XkbClientMapRec) (r : XkbSymMapRec) (g : ℕ) : List KeySym :=
  (List.range (groupWidth map r g)).map (groupSym map r g)

/-- The groups in the row of a key: its own, or its only one in place of all on the keyboard. -/
def rowGroups (map : XkbClientMapRec) (r : XkbSymMapRec) (maxNumberOfGroups : ℕ) : List (List KeySym) :=
  if r.numGroups = 1 then List.replicate (max 2 maxNumberOfGroups) (groupSyms map r 0)
  else (List.range r.numGroups).map (groupSyms map r)

/-- The key has up to four groups, each with a type and with its symbols in the array. -/
structure Readable (map : XkbClientMapRec) (r : XkbSymMapRec) : Prop where
  groups : r.numGroups ≤ XkbNumKbdGroups
  types : ∀ g < r.numGroups, ∃ types type, map.types = some types ∧ types[r.keyTypeIndex g]? = some type
  syms : ∀ g < r.numGroups, ∀ l < groupWidth map r g, r.offset + g * r.width + l < (map.syms.getD []).length

/-- The number of groups of the key with the most. -/
def mostGroups (m : ℕ → XkbSymMapRec) (keys : List ℕ) : ℕ := keys.foldl (fun n key => max n (m key).numGroups) 0

@[simp] theorem length_firstTwo (group : List KeySym) : (firstTwo group).length = 2 := rfl

theorem length_groupSyms (map : XkbClientMapRec) (r : XkbSymMapRec) (g : ℕ) :
    (groupSyms map r g).length = groupWidth map r g := by
  unfold groupSyms
  rw [length_map, length_range]

theorem Readable.width (h : Readable map r) (hg : n < r.numGroups) : XkbKeyGroupWidth map r n = .ok (groupWidth map r n) := by
  obtain ⟨types, type, htypes, htype⟩ := h.types n hg
  unfold XkbKeyGroupWidth groupWidth levelsOf
  rw [htypes, deref_some, ok_bind, htype, deref_some, getD_some, htype]
  rfl

/-! ### Writing to a row -/

/-- The window shows `row`, and nothing behind it. -/
def Row (w : ℕ) (pCore : ℕ → KeySym) (row : List KeySym) : Prop := ∀ i < w, pCore i = row.getD i NoSymbol

/-- What the row has no room for is not seen. -/
theorem Row.beyond (h : Row w pCore (A ++ B)) (hfull : w ≤ A.length) (C : List KeySym) : Row w pCore (A ++ C) := by
  intro i hi
  rw [h i hi, getD_append _ _ _ _ (by omega), getD_append _ _ _ _ (by omega)]

theorem Row.more (h : Row w pCore row) (hfull : w ≤ row.length) (B : List KeySym) : Row w pCore (row ++ B) := by
  rw [← append_nil row] at h
  exact h.beyond hfull B

theorem Row.congr (h : Row w pCore row) (heq : ∀ i < w, row.getD i NoSymbol = A.getD i NoSymbol) : Row w pCore A :=
  fun i hi => (h i hi).trans (heq i hi)

/-- A write in the middle of a row. -/
theorem setCore_spec (h : Row w pCore (A ++ sym :: B)) (hA : A.length = j) (hj : j < w) (v : KeySym) :
    ∃ pCore', setCore w pCore j v = .ok pCore' ∧ Row w pCore' (A ++ v :: B) := by
  refine ⟨Function.update pCore j v, if_pos hj, fun i hi => ?_⟩
  rw [Function.update_apply]
  split
  · rename_i heq
    rw [getD_append_right _ _ _ _ (by omega), show i - A.length = 0 by omega, getD_cons_zero]
  · rename_i hne
    rw [h i hi]
    rcases lt_or_ge i A.length with hlt | hge
    · rw [getD_append _ _ _ _ hlt, getD_append _ _ _ _ hlt]
    · rw [getD_append_right _ _ _ _ hge, getD_append_right _ _ _ _ hge]
      obtain ⟨d, hd⟩ : ∃ d, i - A.length = d + 1 := ⟨i - A.length - 1, by omega⟩
      rw [hd, getD_cons_succ, getD_cons_succ]

/-- A write behind a row. -/
theorem setCore_end (h : Row w pCore row) (hj : row.length = j) (hlt : j < w) (v : KeySym) :
    ∃ pCore', setCore w pCore j v = .ok pCore' ∧ Row w pCore' (row ++ [v]) := by
  apply @setCore_spec w j row [] pCore NoSymbol _ hj hlt v
  apply h.congr
  intro i _
  rcases lt_or_ge i row.length with hi | hi
  · rw [getD_append _ _ _ _ hi]
  · rw [getD_eq_default _ _ hi, getD_append_right _ _ _ _ hi]
    cases i - row.length with
    | zero => rfl
    | succ d => rfl

theorem putSym_eq (hread : p + n < syms.length) (j : ℕ) :
    putSym w syms p n j pCore = setCore w pCore j (syms.getD (p + n) NoSymbol) := by
  unfold putSym
  rw [getElem?_eq_getElem hread, deref_some, ok_bind, getD_eq_getElem _ _ hread]

theorem putLevels_spec (h : Row w pCore row) (hroom : ∀ i < k, row.length + i < w) (hplace : ∀ i < k, place (a + i) = row.length + i)
    (hread : ∀ i < k, p + (a + i) < syms.length) :
    ∃ pCore', putLevels w syms p place (range' a k) pCore = .ok pCore' ∧
      Row w pCore' (row ++ (range' a k).map fun n => syms.getD (p + n) NoSymbol) := by
  induction k generalizing a row pCore with
  | zero => exact ⟨pCore, rfl, by simpa using h⟩
  | succ k ih =>
    have hat : place a = row.length := hplace 0 (Nat.succ_pos k)
    have hfirst : p + a < syms.length := hread 0 (Nat.succ_pos k)
    have hin : place a < w := hat ▸ hroom 0 (Nat.succ_pos k)
    obtain ⟨p₁, hset, h₁⟩ := setCore_end h hat.symm hin (syms.getD (p + a) NoSymbol)
    have hlen : (row ++ [syms.getD (p + a) NoSymbol]).length = row.length + 1 := length_append
    have hplace' : ∀ i < k, place (a + 1 + i) = (row ++ [syms.getD (p + a) NoSymbol]).length + i := by
      intro i hi
      rw [hlen, add_assoc, add_assoc, add_comm 1 i]
      exact hplace (i + 1) (by omega)
    have hroom' : ∀ i < k, (row ++ [syms.getD (p + a) NoSymbol]).length + i < w := by
      intro i hi
      rw [hlen, add_assoc, add_comm 1 i]
      exact hroom (i + 1) (by omega)
    have hread' : ∀ i < k, p + (a + 1 + i) < syms.length := by
      intro i hi
      rw [add_assoc a, add_comm 1 i]
      exact hread (i + 1) (by omega)
    obtain ⟨pCore', hrun, h'⟩ := ih h₁ hroom' hplace' hread'
    refine ⟨pCore', ?_, ?_⟩
    · rw [range'_succ, putLevels, putSym_eq hfirst, hset]
      exact hrun
    · rw [range'_succ, map_cons, append_cons]
      exact h'

/-- The first two levels of a group are written where there was nothing. -/
theorem putTwo_spec (h : Row w pCore (A ++ NoSymbol :: NoSymbol :: B)) (hA : A.length = first) (hroom : first + min 2 k ≤ w)
    (hread : ∀ i < k, p + i < syms.length) :
    ∃ pCore', putTwo w syms p first k pCore = .ok pCore' ∧
      Row w pCore' (A ++ firstTwo ((range k).map fun n => syms.getD (p + n) NoSymbol) ++ B) := by
  unfold putTwo onlyIf
  match k with
  | 0 => exact ⟨pCore, rfl, by simpa [firstTwo] using h⟩
  | 1 =>
    obtain ⟨p₁, hset, h₁⟩ := setCore_spec h hA (by omega) (syms.getD (p + 0) NoSymbol)
    refine ⟨p₁, ?_, ?_⟩
    · rw [if_pos (by omega), putSym_eq (hread 0 (by omega)), hset, ok_bind, if_neg (by omega)]
    · rw [append_assoc]
      exact h₁
  | k + 2 =>
    obtain ⟨p₁, hset, h₁⟩ := setCore_spec h hA (by omega) (syms.getD (p + 0) NoSymbol)
    rw [append_cons] at h₁
    have hlen : (A ++ [syms.getD (p + 0) NoSymbol]).length = first + 1 := by rw [length_append, hA]; rfl
    obtain ⟨p₂, hset₂, h₂⟩ := setCore_spec h₁ hlen (by omega) (syms.getD (p + 1) NoSymbol)
    refine ⟨p₂, ?_, ?_⟩
    · rw [if_pos (by omega), putSym_eq (hread 0 (by omega)), hset, ok_bind, if_pos (by omega),
        putSym_eq (hread 1 (by omega)), hset₂]
    · have htwo : firstTwo ((range (k + 2)).map fun n => syms.getD (p + n) NoSymbol) =
          [syms.getD (p + 0) NoSymbol, syms.getD (p + 1) NoSymbol] := by
        simp [firstTwo]
      rw [htwo, append_assoc]
      rw [← append_cons] at h₂
      exact h₂

/-! ### A key with one group -/

/-- A read from the row, and a write behind what is left of it. -/
theorem copyCore_spec (h : Row w pCore (A ++ sym :: B)) (hA : A.length = j) (hi : i < w) (hj : j < w) :
    ∃ pCore', copyCore w i j pCore = .ok pCore' ∧ Row w pCore' (A ++ (A ++ sym :: B).getD i NoSymbol :: B) := by
  obtain ⟨pCore', hset, h'⟩ := setCore_spec h hA hj (pCore i)
  refine ⟨pCore', ?_, ?_⟩
  · unfold copyCore getCore
    rw [if_pos hi]
    exact hset
  · rw [← h i hi]
    exact h'

variable {group : List KeySym}

/-- `AB..CDE... -> ABABCDE...`. -/
theorem spreadTwo_spec {D : List KeySym} (h : Row w pCore (firstTwo group ++ NoSymbol :: NoSymbol :: D)) :
    ∃ pCore₁ pCore₂, onlyIf (group.length > 0 ∧ w ≥ 3) (copyCore w 0 2) pCore = .ok pCore₁ ∧
      onlyIf (group.length > 1 ∧ w ≥ 4) (copyCore w 1 3) pCore₁ = .ok pCore₂ ∧
      Row w pCore₂ (firstTwo group ++ firstTwo group ++ D) := by
  have hfirst : ∃ pCore₁, onlyIf (group.length > 0 ∧ w ≥ 3) (copyCore w 0 2) pCore = .ok pCore₁ ∧
      Row w pCore₁ (firstTwo group ++ group.getD 0 NoSymbol :: NoSymbol :: D) := by
    unfold onlyIf
    split
    · exact copyCore_spec h rfl (by omega) (by omega)
    · rename_i hnot
      refine ⟨pCore, rfl, ?_⟩
      by_cases hpos : 0 < group.length
      · -- the place of the copy is not in the row
        exact h.beyond (show w ≤ 2 by omega) _
      · rw [getD_eq_default group _ (show group.length ≤ 0 by omega)]
        exact h
  obtain ⟨pCore₁, hrun₁, h₁⟩ := hfirst
  have hsecond : ∃ pCore₂, onlyIf (group.length > 1 ∧ w ≥ 4) (copyCore w 1 3) pCore₁ = .ok pCore₂ ∧
      Row w pCore₂ (firstTwo group ++ group.getD 0 NoSymbol :: group.getD 1 NoSymbol :: D) := by
    rw [append_cons] at h₁ ⊢
    unfold onlyIf
    split
    · exact copyCore_spec h₁ rfl (by omega) (by omega)
    · rename_i hnot
      refine ⟨pCore₁, rfl, ?_⟩
      by_cases hpos : 1 < group.length
      · exact h₁.beyond (show w ≤ 3 by omega) _
      · rw [getD_eq_default group _ (show group.length ≤ 1 by omega)]
        exact h₁
  obtain ⟨pCore₂, hrun₂, h₂⟩ := hsecond
  refine ⟨pCore₁, pCore₂, hrun₁, hrun₂, ?_⟩
  exact h₂

/-- The levels behind the first two are copied once more, as far as there is room. -/
theorem doubleLevels_spec {T D : List KeySym} (hT : T.length = 4) (hk : k = D.length + 2) (hn : D.length = i + n)
    (h : Row w pCore (T ++ D ++ D.take i)) :
    ∃ pCore', doubleLevels w k (range' (2 + k + i) n) pCore = .ok pCore' ∧ Row w pCore' (T ++ D ++ D) := by
  induction n generalizing i pCore with
  | zero =>
    refine ⟨pCore, rfl, ?_⟩
    rw [take_of_length_le (by omega)] at h
    exact h
  | succ n ih =>
    have hlt : i < D.length := by omega
    have hlen : (T ++ D ++ D.take i).length = 2 + k + i := by
      simp only [length_append, length_take]
      omega
    rw [range'_succ, doubleLevels]
    split
    · rename_i hin
      obtain ⟨p₁, hset, h₁⟩ := setCore_end h hlen hin (pCore (2 + k + i - k + 2))
      have hval : pCore (2 + k + i - k + 2) = D[i] := by
        rw [h _ (by omega), append_assoc, getD_append_right _ _ _ _ (by omega),
          show 2 + k + i - k + 2 - T.length = i by omega, getD_append _ _ _ _ hlt, getD_eq_getElem _ _ hlt]
      have htake : T ++ D ++ D.take i ++ [D[i]] = T ++ D ++ D.take (i + 1) := by
        rw [append_assoc _ (D.take i), take_concat_get' D i hlt]
      rw [hval, htake] at h₁
      obtain ⟨pCore', hrun, h'⟩ := ih (by omega) h₁
      refine ⟨pCore', ?_, h'⟩
      unfold copyCore getCore
      rw [if_pos (by omega), ok_bind, hset]
      exact hrun
    · rename_i hout
      refine ⟨pCore, rfl, ?_⟩
      have h' := h.more (by omega) (D.drop i)
      rw [append_assoc _ (D.take i), take_append_drop] at h'
      exact h'

/-- The row is filled up to `out.1`, or to its end. -/
def Filled (w : ℕ) (out : ℕ × (ℕ → KeySym)) (row : List KeySym) : Prop :=
  Row w out.2 row ∧ min out.1 w = min row.length w

theorem againLevels_spec {ns : List ℕ} (hread : ∀ n ∈ ns, p + n < syms.length) (h : Filled w out row) :
    ∃ out', againLevels w syms p ns out = .ok out' ∧
      Filled w out' (row ++ ns.map fun n => syms.getD (p + n) NoSymbol) := by
  induction ns generalizing out row with
  | nil => exact ⟨out, rfl, by simpa using h⟩
  | cons n ns ih =>
    obtain ⟨idx, pCore⟩ := out
    obtain ⟨hrow, hidx⟩ := h
    unfold againLevels
    split
    · rename_i hin
      obtain ⟨p₁, hset, h₁⟩ := setCore_end hrow (by omega) hin (syms.getD (p + n) NoSymbol)
      have hlen : (row ++ [syms.getD (p + n) NoSymbol]).length = row.length + 1 := length_append
      have hfilled : Filled w (idx + 1, p₁) (row ++ [syms.getD (p + n) NoSymbol]) := by
        refine ⟨h₁, ?_⟩
        omega
      obtain ⟨out', hrun, h'⟩ := ih (fun n' hn' => hread n' (.tail _ hn')) hfilled
      refine ⟨out', ?_, ?_⟩
      · rw [putSym_eq (hread n mem_cons_self), hset]
        exact hrun
      · rw [map_cons, append_cons]
        exact h'
    · refine ⟨(idx, pCore), rfl, hrow.more (by omega) _, ?_⟩
      rw [length_append]
      omega

theorem againGroups_spec (js : List ℕ) (hread : ∀ n < k, p + n < syms.length) (h : Filled w out row) :
    ∃ out', againGroups w syms p k js out = .ok out' ∧
      Filled w out' (row ++ (replicate js.length ((range k).map fun n => syms.getD (p + n) NoSymbol)).flatten) := by
  induction js generalizing out row with
  | nil => exact ⟨out, rfl, by simpa using h⟩
  | cons j js ih =>
    obtain ⟨out₁, hrun₁, h₁⟩ := againLevels_spec (fun n hn => hread n (mem_range.1 hn)) h
    obtain ⟨out', hrun, h'⟩ := ih h₁
    refine ⟨out', ?_, ?_⟩
    · rw [againGroups, hrun₁]
      exact hrun
    · rw [length_cons, replicate_succ, flatten_cons, ← append_assoc]
      exact h'

theorem coreOrder_replicate (group : List KeySym) (n : ℕ) :
    coreOrder (replicate (max 2 n) group) =
      firstTwo group ++ firstTwo group ++ group.drop 2 ++ group.drop 2 ++ (replicate (n - 2) group).flatten := by
  obtain ⟨d, hd⟩ : ∃ d, max 2 n = d + 2 := ⟨max 2 n - 2, by omega⟩
  rw [hd, replicate_succ, replicate_succ, coreOrder, show d = n - 2 by omega]

/-- **A group in place of all.** Behind the one group of a key come its copies, as far as there is room. -/
theorem spreadGroup_spec (maxGroups : ℕ) (hgroup : group = (range k).map fun n => syms.getD (p + n) NoSymbol)
    (hread : ∀ n < k, p + n < syms.length) (h : Row w pCore (firstTwo group ++ NoSymbol :: NoSymbol :: group.drop 2)) :
    ∃ pCore', spreadGroup w maxGroups syms p k pCore = .ok pCore' ∧
      Row w pCore' (coreOrder (replicate (max 2 maxGroups) group)) := by
  have hlen : group.length = k := by rw [hgroup, length_map, length_range]
  have hdrop : (group.drop 2).length = k - 2 := by rw [length_drop, hlen]
  obtain ⟨p₁, p₂, hrun₁, hrun₂, h₂⟩ := spreadTwo_spec h
  have htwice : ∃ p₃, onlyIf (k > 2) (doubleLevels w k (range' (2 + k) (k * 2 - (2 + k)))) p₂ = .ok p₃ ∧
      Row w p₃ (firstTwo group ++ firstTwo group ++ group.drop 2 ++ group.drop 2) := by
    unfold onlyIf
    split
    · have hstart : Row w p₂ (firstTwo group ++ firstTwo group ++ group.drop 2 ++ (group.drop 2).take 0) := by
        rw [take_zero, append_nil]
        exact h₂
      exact doubleLevels_spec (i := 0) rfl (by omega) (by omega) hstart
    · refine ⟨p₂, rfl, ?_⟩
      rw [drop_eq_nil_of_le (by omega : group.length ≤ 2)] at h₂ ⊢
      exact h₂
  obtain ⟨p₃, hrun₃, h₃⟩ := htwice
  have hfilled : Filled w (if 2 * k < 4 then 4 else 2 * k, p₃)
      (firstTwo group ++ firstTwo group ++ group.drop 2 ++ group.drop 2) := by
    refine ⟨h₃, ?_⟩
    simp only [length_append, length_firstTwo]
    split <;> congr 1 <;> omega
  obtain ⟨out', hrun, h'⟩ := againGroups_spec (range' 3 (maxGroups - 2)) hread hfilled
  refine ⟨out'.2, ?_, ?_⟩
  · rw [hlen] at hrun₁ hrun₂
    unfold spreadGroup
    rw [hrun₁, ok_bind, hrun₂, ok_bind, hrun₃, ok_bind]
    simp only
    rw [hrun]
    rfl
  · rw [coreOrder_replicate]
    rw [length_range', ← hgroup] at h'
    exact h'.1

/-! ### The row of a key -/

variable {g : ℕ}

theorem groupSyms_eq (hp : p = r.offset + g * r.width) :
    groupSyms map r g = (range (groupWidth map r g)).map fun n => (map.syms.getD []).getD (p + n) NoSymbol := by
  rw [hp]
  rfl

theorem groupSyms_drop (hp : p = r.offset + g * r.width) :
    (groupSyms map r g).drop 2 =
      (range' 2 (groupWidth map r g - 2)).map fun n => (map.syms.getD []).getD (p + n) NoSymbol := by
  rw [groupSyms_eq hp, ← map_drop, range_eq_range', drop_range']

theorem Readable.read (h : Readable map r) (hg : g < r.numGroups) (hp : p = r.offset + g * r.width) :
    ∀ l < groupWidth map r g, p + l < (map.syms.getD []).length := by
  rw [hp]
  exact h.syms g hg

/-- The levels behind the first two of a group, at the end of a row. -/
theorem restLevels_spec (place : ℕ → ℕ) (hr : Readable map r) (hg : g < r.numGroups) (hp : p = r.offset + g * r.width)
    (h : Row w pCore row) (hroom : 2 < groupWidth map r g → row.length + (groupWidth map r g - 2) ≤ w)
    (hplace : ∀ i, place (2 + i) = row.length + i) :
    ∃ pCore', putLevels w (map.syms.getD []) p place (range' 2 (groupWidth map r g - 2)) pCore = .ok pCore' ∧
      Row w pCore' (row ++ (groupSyms map r g).drop 2) := by
  rw [groupSyms_drop hp]
  apply putLevels_spec h (fun i hi => by omega) (fun i _ => hplace i)
  intro i hi
  exact hr.read hg hp (2 + i) (by omega)

theorem putGroups_spec (hr : Readable map r) (h : Row w pCore row) (hp : p = r.offset + a * r.width) (hn : a + n ≤ r.numGroups)
    (hroom : (row ++ ((range' a n).map (groupSyms map r)).flatten).length ≤ w) :
    ∃ pCore', putGroups map r w (map.syms.getD []) (range' a n) p row.length pCore = .ok pCore' ∧
      Row w pCore' (row ++ ((range' a n).map (groupSyms map r)).flatten) := by
  induction n generalizing a p row pCore with
  | zero => exact ⟨pCore, rfl, by simpa using h⟩
  | succ n ih =>
    have hg : a < r.numGroups := by omega
    rw [range'_succ, map_cons, flatten_cons, ← append_assoc] at hroom ⊢
    have hlen : (row ++ groupSyms map r a).length = row.length + groupWidth map r a := by
      rw [length_append, length_groupSyms]
    have hfits : row.length + groupWidth map r a ≤ w := by
      rw [length_append] at hroom
      omega
    have hread : ∀ i < groupWidth map r a, p + (0 + i) < (map.syms.getD []).length := by
      intro i hi
      rw [zero_add]
      exact hr.read hg hp i hi
    have hplace : ∀ i < groupWidth map r a, row.length + (0 + i) = row.length + i := fun i _ => by rw [zero_add]
    obtain ⟨p₁, hrun₁, h₁⟩ := putLevels_spec h (fun i hi => by omega) hplace hread
    rw [← range_eq_range'] at hrun₁ h₁
    rw [← groupSyms_eq hp] at h₁
    obtain ⟨pCore', hrun, h'⟩ := ih h₁ (p := p + r.width) (by rw [hp, add_mul, one_mul, add_assoc]) (by omega) hroom
    refine ⟨pCore', ?_, h'⟩
    rw [putGroups, hr.width hg, ok_bind, hrun₁, ← hlen]
    exact hrun

theorem coreOrder_groups (map : XkbClientMapRec) (r : XkbSymMapRec) (n : ℕ) :
    coreOrder ((range (n + 2)).map (groupSyms map r)) =
      firstTwo (groupSyms map r 0) ++ firstTwo (groupSyms map r 1) ++ (groupSyms map r 0).drop 2 ++ (groupSyms map r 1).drop 2 ++
        ((range' 2 n).map (groupSyms map r)).flatten := by
  rw [range_eq_range', range'_succ, range'_succ, map_cons, map_cons, coreOrder]

/-- The row has room for the groups of the key. -/
structure RowRoom (map : XkbClientMapRec) (r : XkbSymMapRec) (w : ℕ) : Prop where
  one : 0 < r.numGroups → 2 ≤ w ∧ (2 < groupWidth map r 0 → groupWidth map r 0 + 2 ≤ w)
  more : 1 < r.numGroups → (coreOrder ((List.range r.numGroups).map (groupSyms map r))).length ≤ w

/-- The part of a turn that every key with a group takes. -/
theorem firstGroup_spec (hr : Readable map r) (hroom : RowRoom map r w) (hpos : 0 < r.numGroups) (h : Row w pCore []) :
    ∃ pCore₁ pCore₂, putTwo w (map.syms.getD []) r.offset 0 (groupWidth map r 0) pCore = .ok pCore₁ ∧
      putLevels w (map.syms.getD []) r.offset (2 + ·) (range' 2 (groupWidth map r 0 - 2)) pCore₁ = .ok pCore₂ ∧
      Row w pCore₂ (firstTwo (groupSyms map r 0) ++ NoSymbol :: NoSymbol :: (groupSyms map r 0).drop 2) := by
  have hp : r.offset = r.offset + 0 * r.width := by omega
  obtain ⟨hw, hrest⟩ := hroom.one hpos
  have hstart : Row w pCore ([] ++ NoSymbol :: NoSymbol :: [NoSymbol, NoSymbol]) := by
    apply h.congr
    intro i _
    match i with
    | 0 | 1 | 2 | 3 => rfl
    | i + 4 => rfl
  obtain ⟨p₁, hrun₁, h₁⟩ := putTwo_spec hstart (show ([] : List KeySym).length = 0 from rfl) (by omega) (hr.read hpos hp)
  rw [← groupSyms_eq hp] at h₁
  obtain ⟨p₂, hrun₂, h₂⟩ := restLevels_spec (2 + ·) hr hpos hp h₁
    (fun hlt => by
      change 4 + _ ≤ w
      omega)
    (fun i => by
      change 2 + (2 + i) = 4 + i
      omega)
  refine ⟨p₁, p₂, hrun₁, hrun₂, ?_⟩
  exact h₂

/-- **One row.** The row of a key holds its groups in order. -/
theorem fillRow_spec (maxGroups : ℕ) (hr : Readable map r) (hroom : RowRoom map r w) (h : Row w pCore []) :
    ∃ pCore', fillRow map r w maxGroups pCore = .ok pCore' ∧ Row w pCore' (coreOrder (rowGroups map r maxGroups)) := by
  unfold fillRow rowGroups onlyIf
  rcases lt_or_ge 0 r.numGroups with hpos | hzero
  · obtain ⟨p₁, p₂, hrun₁, hrun₂, h₂⟩ := firstGroup_spec hr hroom hpos h
    simp only [if_pos hpos, hr.width hpos, ok_bind, hrun₁, hrun₂, pure_bind]
    rcases lt_or_ge 1 r.numGroups with htwo | hone
    · -- two groups or more
      have hp : r.offset + r.width = r.offset + 1 * r.width := by omega
      obtain ⟨d, hd⟩ : ∃ d, r.numGroups = d + 2 := ⟨r.numGroups - 2, by omega⟩
      have hall := hroom.more htwo
      rw [hd, coreOrder_groups] at hall
      have hfits : (firstTwo (groupSyms map r 0) ++ firstTwo (groupSyms map r 1) ++ (groupSyms map r 0).drop 2 ++
          (groupSyms map r 1).drop 2).length ≤ w := by
        rw [length_append] at hall
        omega
      simp only [length_append, length_firstTwo, length_drop, length_groupSyms] at hfits
      obtain ⟨p₃, hrun₃, h₃⟩ := putTwo_spec h₂ (length_firstTwo _) (by omega) (hr.read htwo hp)
      rw [← groupSyms_eq hp] at h₃
      have hnOut : (if groupWidth map r 0 > 2 then groupWidth map r 0 else 2) + 2 = 4 + (groupWidth map r 0 - 2) := by
        split <;> omega
      obtain ⟨p₄, hrun₄, h₄⟩ := restLevels_spec (fun n => 4 + (groupWidth map r 0 - 2) + (n - 2)) hr htwo hp h₃
        (fun _ => by
          simp only [length_append, length_firstTwo, length_drop, length_groupSyms]
          omega)
        (fun i => by
          simp only [length_append, length_firstTwo, length_drop, length_groupSyms]
          omega)
      obtain ⟨pCore', hrun, h'⟩ := putGroups_spec (a := 2) (n := d) (p := r.offset + r.width + r.width) hr h₄
        (by omega) (by omega) hall
      have hend : (if groupWidth map r 1 > 2 then 4 + (groupWidth map r 0 - 2) + (groupWidth map r 1 - 2)
          else 4 + (groupWidth map r 0 - 2)) = (firstTwo (groupSyms map r 0) ++ firstTwo (groupSyms map r 1) ++
            (groupSyms map r 0).drop 2 ++ (groupSyms map r 1).drop 2).length := by
        simp only [length_append, length_firstTwo, length_drop, length_groupSyms]
        split <;> omega
      refine ⟨pCore', ?_, ?_⟩
      · rw [if_neg (by omega), ok_bind, if_pos htwo, hr.width htwo, ok_bind, hrun₃, ok_bind, hnOut, hrun₄, ok_bind, hend, hd]
        exact hrun
      · rw [if_neg (by omega), hd, coreOrder_groups]
        exact h'
    · -- one group
      have hp : r.offset = r.offset + 0 * r.width := by omega
      obtain ⟨pCore', hrun, h'⟩ := spreadGroup_spec maxGroups (groupSyms_eq hp) (hr.read hpos hp) h₂
      have heq : r.numGroups = 1 := by omega
      refine ⟨pCore', ?_, ?_⟩
      · simp only [hrun, heq]
        rfl
      · rw [if_pos heq]
        exact h'
  · -- no group: nothing is written
    have heq : r.numGroups = 0 := by omega
    refine ⟨pCore, ?_, ?_⟩
    · simp only [heq]
      rfl
    · rw [heq]
      exact h

/-! ### The sizes -/

theorem RowRoom.mono {w' : ℕ} (h : RowRoom map r w) (hle : w ≤ w') : RowRoom map r w' :=
  ⟨fun hpos => ⟨(h.one hpos).1.trans hle, fun hlt => ((h.one hpos).2 hlt).trans hle⟩, fun htwo => (h.more htwo).trans hle⟩

/-- What the sizes say of a key they were determined with. -/
structure Measured (map : XkbClientMapRec) (r : XkbSymMapRec) (sizes : CoreSizes) : Prop where
  room : RowRoom map r sizes.maxSymsPerKey
  group1 : 0 < r.numGroups → groupWidth map r 0 ≤ sizes.maxGroup1Width

theorem Measured.mono (h : Measured map r sizes) (hsyms : sizes.maxSymsPerKey ≤ sizes'.maxSymsPerKey)
    (hgroup1 : sizes.maxGroup1Width ≤ sizes'.maxGroup1Width) : Measured map r sizes' :=
  ⟨h.room.mono hsyms, fun hpos => (h.group1 hpos).trans hgroup1⟩

theorem addGroup_eq (hr : Readable map r) (g : ℕ) (add : ℕ → ℕ → ℕ) (tmp : ℕ) :
    addGroup map r g add tmp = .ok (if g < r.numGroups then add tmp (groupWidth map r g) else tmp) := by
  unfold addGroup
  split
  · rename_i hg
    rw [hr.width hg]
    rfl
  · rfl

theorem length_coreOrder_groups (map : XkbClientMapRec) (r : XkbSymMapRec) (n : ℕ) :
    (coreOrder ((range (n + 2)).map (groupSyms map r))).length =
      4 + (groupWidth map r 0 - 2) + (groupWidth map r 1 - 2) + ((range' 2 n).map (groupWidth map r)).sum := by
  have hsum : ((range' 2 n).map (groupSyms map r)).map length = (range' 2 n).map (groupWidth map r) := by
    rw [List.map_map]
    exact map_congr_left fun g _ => length_groupSyms map r g
  rw [coreOrder_groups]
  simp only [length_append, length_firstTwo, length_drop, length_groupSyms, length_flatten, hsum]

theorem addGroup1_eq (w : ℕ) : addGroup1 0 w = 2 + if 2 < w then w else 0 := by
  unfold addGroup1
  split_ifs <;> omega

theorem le_addGroup2 (tmp w : ℕ) : tmp ≤ addGroup2 tmp w := by
  unfold addGroup2
  split_ifs <;> omega

/-- The special cases for widths up to 2 come to two places for each of the first two groups. -/
theorem addGroup2_eq (w₁ w₂ : ℕ) : addGroup2 (addGroup1 0 w₁) w₂ = 4 + (w₁ - 2) + (w₂ - 2) := by
  unfold addGroup2 addGroup1
  split_ifs <;> omega

/-- What is in `tmp` in the end. -/
def keySize (map : XkbClientMapRec) (r : XkbSymMapRec) : ℕ :=
  let tmp := if 0 < r.numGroups then addGroup1 0 (groupWidth map r 0) else 0
  let tmp := if 1 < r.numGroups then addGroup2 tmp (groupWidth map r 1) else tmp
  let tmp := if 2 < r.numGroups then tmp + groupWidth map r 2 else tmp
  if 3 < r.numGroups then tmp + groupWidth map r 3 else tmp

theorem addGroup1_le_keySize (hpos : 0 < r.numGroups) : addGroup1 0 (groupWidth map r 0) ≤ keySize map r := by
  unfold keySize
  simp only [if_pos hpos]
  have htwo := le_addGroup2 (addGroup1 0 (groupWidth map r 0)) (groupWidth map r 1)
  split <;> split <;> split <;> omega

theorem keySize_eq (hgroups : r.numGroups ≤ 4) (htwo : 1 < r.numGroups) :
    keySize map r = (coreOrder ((range r.numGroups).map (groupSyms map r))).length := by
  obtain ⟨d, hd⟩ : ∃ d, r.numGroups = d + 2 := ⟨r.numGroups - 2, by omega⟩
  unfold keySize
  rw [hd, length_coreOrder_groups]
  simp only [if_pos (show 0 < d + 2 by omega), addGroup2_eq]
  match d, (show d ≤ 2 by omega) with
  | 0, _ => rfl
  | 1, _ => rfl
  | 2, _ =>
    exact add_assoc ..

theorem sizeKey_spec (hr : Readable map r) (sizes : CoreSizes) :
    ∃ sizes', sizeKey map r sizes = .ok sizes' ∧ Measured map r sizes' ∧ sizes.maxSymsPerKey ≤ sizes'.maxSymsPerKey ∧
      sizes.maxGroup1Width ≤ sizes'.maxGroup1Width ∧ sizes'.maxNumberOfGroups = max sizes.maxNumberOfGroups r.numGroups := by
  have hrun : sizeKey map r sizes = .ok
      { maxSymsPerKey := max sizes.maxSymsPerKey (keySize map r),
        maxGroup1Width := if 0 < r.numGroups then max sizes.maxGroup1Width (groupWidth map r 0) else sizes.maxGroup1Width,
        maxNumberOfGroups := max sizes.maxNumberOfGroups r.numGroups } := by
    unfold sizeKey
    simp only [addGroup_eq hr]
    rfl
  refine ⟨_, hrun, ⟨⟨fun hpos => ?_, fun htwo => ?_⟩, fun hpos => ?_⟩, le_max_left .., ?_, rfl⟩
  · have hle := (@addGroup1_le_keySize map r hpos).trans (le_max_right sizes.maxSymsPerKey _)
    rw [addGroup1_eq] at hle
    constructor
    · exact (Nat.le_add_right 2 _).trans hle
    · intro hlt
      rw [if_pos hlt, add_comm] at hle
      exact hle
  · rw [← keySize_eq hr.groups htwo]
    exact le_max_right ..
  · simp only [if_pos hpos]
    exact le_max_right ..
  · simp only
    split
    · exact le_max_left ..
    · exact le_refl _

theorem sizeKeys_spec (hr : ∀ key ∈ keys, Readable map (m key)) (sizes : CoreSizes) :
    ∃ sizes', sizeKeys map m keys sizes = .ok sizes' ∧ (∀ key ∈ keys, Measured map (m key) sizes') ∧
      sizes.maxSymsPerKey ≤ sizes'.maxSymsPerKey ∧ sizes.maxGroup1Width ≤ sizes'.maxGroup1Width ∧
      sizes'.maxNumberOfGroups = keys.foldl (fun n key => max n (m key).numGroups) sizes.maxNumberOfGroups := by
  induction keys generalizing sizes with
  | nil => exact ⟨sizes, rfl, fun key hkey => (nomatch hkey), le_rfl, le_rfl, rfl⟩
  | cons key keys ih =>
    obtain ⟨s₁, hrun₁, hkey, hsyms₁, hwidth₁, hgroups₁⟩ := sizeKey_spec (hr key mem_cons_self) sizes
    obtain ⟨s', hrun, hall, hsyms, hwidth, hgroups⟩ := ih (fun k hk => hr k (.tail _ hk)) s₁
    refine ⟨s', ?_, ?_, hsyms₁.trans hsyms, hwidth₁.trans hwidth, ?_⟩
    · rw [sizeKeys, hrun₁]
      exact hrun
    · intro k hk
      rcases mem_cons.1 hk with rfl | hk
      · exact hkey.mono hsyms hwidth
      · exact hall k hk
    · rw [hgroups, hgroups₁]
      rfl

/-- Some key has as many groups as any. -/
theorem mostGroups_attained (m : ℕ → XkbSymMapRec) (keys : List ℕ) (n : ℕ) :
    keys.foldl (fun n key => max n (m key).numGroups) n = n ∨
      ∃ key ∈ keys, (m key).numGroups = keys.foldl (fun n key => max n (m key).numGroups) n := by
  induction keys generalizing n with
  | nil => exact .inl rfl
  | cons key keys ih =>
    rw [foldl_cons]
    rcases ih (max n (m key).numGroups) with heq | ⟨k, hk, heq⟩
    · rw [heq]
      rcases le_total (m key).numGroups n with hle | hle
      · exact .inl (max_eq_left hle)
      · exact .inr ⟨key, mem_cons_self, (max_eq_right hle).symm⟩
    · exact .inr ⟨k, .tail _ hk, heq⟩

/-- Every group has a level. -/
def Leveled (map : XkbClientMapRec) (r : XkbSymMapRec) : Prop := ∀ g < r.numGroups, 1 ≤ groupWidth map r g

/-- A key with at least two groups, each with a level, needs two places for each of the first two. -/
theorem Leveled.length_le (h : Leveled map r) (htwo : 1 < r.numGroups) :
    r.numGroups + 2 ≤ (coreOrder ((range r.numGroups).map (groupSyms map r))).length := by
  obtain ⟨d, hd⟩ : ∃ d, r.numGroups = d + 2 := ⟨r.numGroups - 2, by omega⟩
  have hsum : ((range' 2 d).map (groupWidth map r)).length ≤ ((range' 2 d).map (groupWidth map r)).sum := by
    apply length_le_sum_of_one_le
    intro x hx
    obtain ⟨g, hg, rfl⟩ := mem_map.1 hx
    exact h g (by have := mem_range'_1.1 hg; omega)
  rw [length_map, length_range'] at hsum
  rw [hd, length_coreOrder_groups]
  omega

/-- The copies of the only group of a key have room where some key has more groups. -/
theorem rowGroups_fits (hall : ∀ key ∈ keys, Measured map (m key) sizes)
    (hmost : sizes.maxNumberOfGroups = mostGroups m keys) (hw : sizes.maxSymsPerKey ≤ w)
    (hgroup1 : sizes.maxNumberOfGroups * sizes.maxGroup1Width ≤ w) (hleveled : ∀ key ∈ keys, Leveled map (m key))
    (hkey : key ∈ keys) (hmore : 1 < mostGroups m keys) :
    (coreOrder (rowGroups map (m key) (mostGroups m keys))).length ≤ w := by
  unfold rowGroups
  split
  · rename_i hone
    have hwidth : groupWidth map (m key) 0 ≤ sizes.maxGroup1Width := (hall key hkey).group1 (by omega)
    have hlen : (coreOrder (replicate (max 2 (mostGroups m keys)) (groupSyms map (m key) 0))).length =
        4 + (groupWidth map (m key) 0 - 2) + (groupWidth map (m key) 0 - 2) +
          (mostGroups m keys - 2) * groupWidth map (m key) 0 := by
      rw [coreOrder_replicate]
      simp only [length_append, length_firstTwo, length_drop, length_groupSyms, length_flatten,
        map_replicate, sum_replicate_nat]
    rw [hlen]
    have hmul : mostGroups m keys * groupWidth map (m key) 0 ≤ w := by
      rw [← hmost]
      exact (Nat.mul_le_mul_left _ hwidth).trans hgroup1
    obtain ⟨d, hd⟩ : ∃ d, mostGroups m keys = d + 2 := ⟨mostGroups m keys - 2, by omega⟩
    rw [hd, add_mul] at hmul
    rcases lt_or_ge (groupWidth map (m key) 0) 2 with hnarrow | hwide
    · -- the key with the most groups needs as much
      obtain ⟨most, hmem, heq⟩ : ∃ key ∈ keys, (m key).numGroups = mostGroups m keys := by
        rcases mostGroups_attained m keys 0 with heq | h
        · exact absurd heq (Nat.ne_of_gt (Nat.lt_of_le_of_lt (Nat.zero_le 1) hmore))
        · exact h
      have hroom := (hall most hmem).room.more (by omega)
      have hleast := (hleveled most hmem).length_le (by omega)
      have hle : (mostGroups m keys - 2) * groupWidth map (m key) 0 ≤ (mostGroups m keys - 2) * 1 :=
        Nat.mul_le_mul_left _ (by omega)
      omega
    · rw [hd, Nat.add_sub_cancel]
      omega
  · rename_i hne
    rcases lt_or_ge 1 (m key).numGroups with htwo | hle
    · exact ((hall key hkey).room.more htwo).trans hw
    · rw [show (m key).numGroups = 0 by omega]
      exact Nat.zero_le w

/-! ### All rows -/

theorem row_apart {i : ℕ} (h : i < a * w) (n : ℕ) : i < (a + n) * w := Nat.lt_of_lt_of_le h (Nat.mul_le_mul_right w (by omega))

theorem fillRows_spec (maxGroups min_key_code a n : ℕ) (cells : List KeySym)
    (hkeys : ∀ key ∈ range' (min_key_code + a) n, Readable map (m key) ∧ RowRoom map (m key) w)
    (hlen : cells.length = (a + n) * w) (hzero : ∀ i, a * w ≤ i → i < (a + n) * w → cells[i]? = some NoSymbol) :
    ∃ cells', fillRows map m min_key_code w maxGroups (range' (min_key_code + a) n) cells = .ok cells' ∧
      cells'.length = cells.length ∧ (∀ i < a * w, cells'[i]? = cells[i]?) ∧
      ∀ j < n, ∀ i < w, cells'[(a + j) * w + i]? =
        some ((coreOrder (rowGroups map (m (min_key_code + a + j)) maxGroups)).getD i NoSymbol) := by
  induction n generalizing a cells with
  | zero => exact ⟨cells, rfl, rfl, fun _ _ => rfl, fun j hj => absurd hj (Nat.not_lt_zero j)⟩
  | succ n ih =>
    rw [range'_succ] at hkeys ⊢
    have hnext : (a + 1) * w = a * w + w := by rw [add_mul, one_mul]
    have hend : (a + (n + 1)) * w = (a + 1) * w + n * w := by rw [← add_mul, add_assoc, add_comm 1 n]
    obtain ⟨hr, hroom⟩ := hkeys _ mem_cons_self
    have hempty : Row w (fun j => (slice cells (a * w) w).getD j NoSymbol) [] := by
      intro i hi
      change (slice cells (a * w) w).getD i NoSymbol = NoSymbol
      rw [getD_eq_getElem?_getD, getElem?_slice, if_pos hi, hzero _ (by omega) (by omega)]
      rfl
    obtain ⟨pCore, hfill, hrow⟩ := fillRow_spec maxGroups hr hroom hempty
    have hwritten : ((range w).map pCore).length = w := by rw [length_map, length_range]
    have hin : a * w + ((range w).map pCore).length ≤ cells.length := by omega
    have hlen₁ := length_patch hin
    have hcell : ∀ i, (patch cells (a * w) ((range w).map pCore))[i]? =
        if a * w ≤ i ∧ i < a * w + w then ((range w).map pCore)[i - a * w]? else cells[i]? := by
      intro i
      rw [getElem?_patch (by omega), hwritten]
    obtain ⟨cells', hrun, hlen', hkept, hrows⟩ := ih (a + 1) (patch cells (a * w) ((range w).map pCore))
      (fun key hkey => hkeys key (.tail _ hkey))
      (by rw [hlen₁, hlen, add_assoc, add_comm 1 n])
      (fun i hge hlt => by
        rw [hcell, if_neg (by omega)]
        rw [add_assoc, add_comm 1 n] at hlt
        exact hzero i (by omega) hlt)
    refine ⟨cells', ?_, hlen'.trans hlen₁, ?_, ?_⟩
    · rw [fillRows, Nat.add_sub_cancel_left]
      simp only [peek_eq (by omega : a * w + w ≤ cells.length), ok_bind, hfill, poke_eq hin]
      exact hrun
    · intro i hi
      rw [hkept i (row_apart hi 1), hcell, if_neg (by omega)]
    · intro j hj i hi
      cases j with
      | zero =>
        rw [Nat.add_zero, Nat.add_zero, hkept _ (by omega), hcell, if_pos (by omega), Nat.add_sub_cancel_left,
          getElem?_map, getElem?_range hi, map_some, hrow i hi]
      | succ j =>
        have := hrows j (by omega) i hi
        rw [add_assoc, add_comm 1 j] at this
        rw [this, add_assoc min_key_code, add_assoc min_key_code, add_assoc a, add_comm 1 j]

/-- **The core map of a keyboard.** The call comes to its end, so no write is outside the row of its key. The row of
a key holds its groups, or the copies of its only group, in order; where the key or another has more than one group
they all have room. There is no map only where no key has a group, or no memory. -/
theorem XkbGetCoreMap_rows (hmap : xkb.map = some map) (hm : map.key_sym_map = some m)
    (hr : ∀ key ∈ xkb.keys, Readable map (m key)) (haveSyms haveMap : Bool) :
    ∃ core, XkbGetCoreMap (some xkb) haveSyms haveMap = .ok core ∧
      (core = none → (∀ key ∈ xkb.keys, (m key).numGroups = 0) ∨ haveSyms = false ∨ haveMap = false) ∧
      ∀ syms, core = some syms →
        syms.minKeyCode = xkb.min_key_code ∧ syms.maxKeyCode = xkb.max_key_code ∧
        syms.map.length = xkb.keys.length * syms.mapWidth ∧
        ∀ key ∈ xkb.keys,
          (∀ i < syms.mapWidth, syms.map[(key - xkb.min_key_code) * syms.mapWidth + i]? =
            some ((coreOrder (rowGroups map (m key) (mostGroups m xkb.keys))).getD i NoSymbol)) ∧
          (0 < (m key).numGroups → 2 ≤ syms.mapWidth ∧
            (2 < groupWidth map (m key) 0 → groupWidth map (m key) 0 + 2 ≤ syms.mapWidth)) ∧
          ((∀ key ∈ xkb.keys, Leveled map (m key)) → 1 < mostGroups m xkb.keys →
            (coreOrder (rowGroups map (m key) (mostGroups m xkb.keys))).length ≤ syms.mapWidth) := by
  obtain ⟨sizes, hsizes, hall, -, -, hmost⟩ := sizeKeys_spec hr {}
  have hnone : sizes.maxSymsPerKey = 0 → ∀ key ∈ xkb.keys, (m key).numGroups = 0 := by
    intro hzero key hkey
    by_contra hpos
    have := ((hall key hkey).room.one (pos_of_ne_zero hpos)).1
    omega
  unfold XkbGetCoreMap
  simp only [hmap, hm, deref_some, ok_bind, hsizes]
  split
  · rename_i hzero
    exact ⟨none, rfl, fun _ => .inl (hnone hzero), fun _ h => absurd h.symm (some_ne_none _)⟩
  · rename_i hsome
    cases haveSyms with
    | false => exact ⟨none, rfl, fun _ => .inr (.inl rfl), fun _ h => absurd h.symm (some_ne_none _)⟩
    | true =>
      cases haveMap with
      | false => exact ⟨none, rfl, fun _ => .inr (.inr rfl), fun _ h => absurd h.symm (some_ne_none _)⟩
      | true =>
        obtain ⟨w, hw⟩ : ∃ w, w = if sizes.maxSymsPerKey < sizes.maxNumberOfGroups * sizes.maxGroup1Width then
            sizes.maxNumberOfGroups * sizes.maxGroup1Width else sizes.maxSymsPerKey := ⟨_, rfl⟩
        have hwsyms : sizes.maxSymsPerKey ≤ w := by rw [hw]; split <;> omega
        have hwgroup1 : sizes.maxNumberOfGroups * sizes.maxGroup1Width ≤ w := by rw [hw]; split <;> omega
        rw [← hw]
        have hcount : xkb.keys.length = xkb.max_key_code + 1 - xkb.min_key_code := length_range'
        have hrange : xkb.min_key_code ≤ xkb.max_key_code := by
          by_contra hlt
          have : sizes.maxSymsPerKey = 0 := by
            unfold XkbDescRec.keys at hsizes
            rw [show xkb.max_key_code + 1 - xkb.min_key_code = 0 by omega] at hsizes
            cases hsizes
            rfl
          exact hsome this
        have hcells : xkb.max_key_code - xkb.min_key_code + 1 = xkb.keys.length := by rw [hcount]; omega
        obtain ⟨cells, hrun, hlen, -, hrows⟩ := fillRows_spec (mostGroups m xkb.keys) xkb.min_key_code 0 xkb.keys.length
          (replicate (w * xkb.keys.length) NoSymbol)
          (fun key hkey => by
            rw [hcount] at hkey
            exact ⟨hr key hkey, (hall key hkey).room.mono hwsyms⟩)
          (by rw [length_replicate, zero_add, mul_comm])
          (fun i _ hi => by
            rw [zero_add, mul_comm] at hi
            exact getElem?_replicate_of_lt hi)
        have hall_keys : range' (xkb.min_key_code + 0) xkb.keys.length = xkb.keys := by
          rw [hcount]
          rfl
        rw [hall_keys] at hrun
        simp only [hcells, hmost]
        refine ⟨some { minKeyCode := xkb.min_key_code, maxKeyCode := xkb.max_key_code, mapWidth := w, map := cells }, ?_,
          fun h => absurd h (some_ne_none _), ?_⟩
        · change (fillRows map m xkb.min_key_code w (mostGroups m xkb.keys) xkb.keys _ >>= _) = _
          rw [hrun]
          rfl
        · intro syms hsyms
          cases hsyms
          refine ⟨rfl, rfl, ?_, fun key hkey => ⟨fun i hi => ?_, fun hpos => ?_, fun hleveled hmore => ?_⟩⟩
          · rw [hlen, length_replicate, mul_comm]
          · obtain ⟨hge, hlt⟩ := mem_range'_1.1 hkey
            have := hrows (key - xkb.min_key_code) (by omega) i hi
            rw [Nat.zero_add, Nat.add_zero, Nat.add_sub_cancel' hge] at this
            exact this
          · exact ((hall key hkey).room.mono hwsyms).one hpos
          · exact rowGroups_fits hall hmost hwsyms hwgroup1 hleveled hkey hmore

/-- Key 8 has one group of three levels, key 9 two of two levels. -/
def twoKeysMap : XkbClientMapRec :=
  { types := some [{ num_levels := 3 }, { num_levels := 2 }], syms := some [97, 98, 99, 49, 50, 51, 52],
    key_sym_map := some fun key =>
      if key = 8 then { group_info := 1, width := 3 }
      else { kt_index := fun _ => 1, group_info := 2, width := 2, offset := 3 } }

def twoKeys : XkbDescRec := { min_key_code := 8, max_key_code := 9, map := some twoKeysMap }

theorem twoKeys_readable (key : ℕ) : Readable twoKeysMap
    (if key = 8 then { group_info := 1, width := 3 } else { kt_index := fun _ => 1, group_info := 2, width := 2, offset := 3 }) := by
  split
  · refine ⟨by decide, fun g hg => ⟨_, _, rfl, rfl⟩, fun g hg => ?_⟩
    rw [Nat.lt_one_iff.1 hg]
    decide
  · refine ⟨by decide, fun g hg => ⟨_, _, rfl, rfl⟩, fun g hg => ?_⟩
    match g with
    | 0 => decide
    | 1 => decide

theorem XkbGetCoreMap_rows_twoKeys :
    ∃ syms, XkbGetCoreMap (some twoKeys) true true = .ok (some syms) ∧ syms.map.length = 2 * syms.mapWidth := by
  obtain ⟨core, hrun, hnone, hsome⟩ := @XkbGetCoreMap_rows twoKeys twoKeysMap _ rfl rfl (fun key _ => twoKeys_readable key) true true
  cases core with
  | none =>
    rcases hnone rfl with hzero | h | h
    · exact absurd (hzero 8 (by decide)) (by decide)
    · exact absurd h (by decide)
    · exact absurd h (by decide)
  | some syms => exact ⟨syms, hrun, (hsome syms rfl).2.2.1⟩

example : (XkbGetCoreMap (some twoKeys) true true).toOption.join.map (·.map) =
    some [97, 98, 97, 98, 99, 99, 49, 50, 51, 52, 0, 0] := by
  rfl

end Xenia.Xext.Xkb
