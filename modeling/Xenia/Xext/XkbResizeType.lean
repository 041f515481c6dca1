import Xenia.Xext.XkbTypes
import Mathlib.Data.List.GetD

/-!
# The symbols of a key when a type is resized

When a type gets more levels, the groups of a key that needs more room move apart in the array of symbols. The
record of the key keeps its width, and a reader still finds group `g` at `g` times the old width. `landing` says on
which old symbol the reader comes upon there. `XkbResizeKeyType_preserves_iff` says when all symbols are found where
they were.
-/

namespace Xenia.Xext.Xkb

open Xenia.Lib List

variable {xkb xkb' : XkbDescRec} {map map' : XkbClientMapRec} {m : ℕ → XkbSymMapRec} {r : XkbSymMapRec}
  {keys is : List ℕ} {key type_ndx num_levels new_num_lvls width src n n' g i x : ℕ} {type : XkbKeyTypeRec}
  {old syms syms' : List KeySym} {offs offs' : ℕ → ℕ}

/-! ### Moving the groups apart -/

/-- The symbol at place `j` of a block of groups that have moved apart. -/
def spread (old : List KeySym) (src width new_num_lvls j : ℕ) : KeySym :=
  if j % new_num_lvls < width then old.getD (src + j / new_num_lvls * width + j % new_num_lvls) NoSymbol else NoSymbol

theorem div_mod_of_block (hin : n + new_num_lvls * g ≤ x) (hlt : x < n + new_num_lvls * g + width) (hle : width ≤ new_num_lvls) :
    (x - n) / new_num_lvls = g ∧ (x - n) % new_num_lvls = x - (n + new_num_lvls * g) := by
  obtain ⟨k, hk⟩ : ∃ k, x - n = new_num_lvls * g + k := ⟨x - (n + new_num_lvls * g), by omega⟩
  have hlt' : k < new_num_lvls := by omega
  rw [hk, Nat.mul_add_div (by omega), Nat.div_eq_of_lt hlt', Nat.mul_add_mod, Nat.mod_eq_of_lt hlt']
  omega

variable {newSyms newSyms' : List KeySym} {groups : ℕ}

/-- The places of the groups are written to, and no others. -/
theorem spreadGroups_ok (hle : width ≤ new_num_lvls) (h : spreadGroups old src width n new_num_lvls groups newSyms = .ok newSyms') :
    newSyms'.length = newSyms.length ∧ (0 < groups → 0 < width → n < newSyms.length) ∧ ∀ x, newSyms'.getD x NoSymbol =
      if n ≤ x ∧ x < n + new_num_lvls * groups ∧ (x - n) % new_num_lvls < width then
        spread old src width new_num_lvls (x - n)
      else newSyms.getD x NoSymbol := by
  induction groups generalizing newSyms with
  | zero =>
    cases h
    exact ⟨rfl, fun hpos => absurd hpos (Nat.lt_irrefl 0), fun x => (if_neg (by omega)).symm⟩
  | succ g ih =>
    obtain ⟨block, hpeek, h⟩ := of_bind_ok h
    obtain ⟨newSyms₁, hpoke, h⟩ := of_bind_ok h
    obtain ⟨hblock, hread⟩ := peek_ok hpeek
    obtain ⟨hlen₁, hfits, hget₁⟩ := poke_ok hpoke
    obtain ⟨hlen, -, hget⟩ := ih h
    refine ⟨hlen.trans hlen₁, fun _ hpos => by omega, fun x => ?_⟩
    rw [hget, hget₁, hblock, Nat.mul_succ]
    by_cases hin : n + new_num_lvls * g ≤ x ∧ x < n + new_num_lvls * g + width
    · -- in the group that is written now
      obtain ⟨hdiv, hmod⟩ := div_mod_of_block hin.1 hin.2 hle
      rw [if_neg (by omega), if_pos hin, if_pos (by omega), hread _ _ (by omega)]
      unfold spread
      rw [if_pos (by omega), hdiv, hmod, Nat.mul_comm width g]
    · rw [if_neg hin]
      by_cases hbelow : n ≤ x ∧ x < n + new_num_lvls * g ∧ (x - n) % new_num_lvls < width
      · rw [if_pos hbelow, if_pos (by omega)]
      · rw [if_neg hbelow, if_neg]
        rintro ⟨hge, hlt, hmod⟩
        have hge' : n + new_num_lvls * g ≤ x := by
          by_contra hnot
          exact hbelow ⟨hge, by omega, hmod⟩
        obtain ⟨k, hk⟩ : ∃ k, x - n = new_num_lvls * g + k := ⟨x - (n + new_num_lvls * g), by omega⟩
        rw [hk, Nat.mul_add_mod, Nat.mod_eq_of_lt (by omega)] at hmod
        exact hin ⟨hge', by omega⟩

/-- What the new array holds for a key at place `j` of its block. -/
def grownSym (old : List KeySym) (r : XkbSymMapRec) (new_num_lvls : ℕ) (grown : Prop) [Decidable grown] (j : ℕ) : KeySym :=
  if grown then spread old r.offset r.width new_num_lvls j else old.getD (r.offset + j) NoSymbol

/-- Every key finds its block at its new offset. -/
theorem growSyms_ok (hnodup : keys.Nodup) (hwide : ∀ i ∈ keys, 0 < (m i).numGroups → 0 < (m i).width) (hlen : newSyms.length < 2 ^ 16)
    (hclear : ∀ x, n ≤ x → newSyms.getD x NoSymbol = NoSymbol)
    (h : growSyms old m type_ndx num_levels new_num_lvls keys newSyms n offs = .ok (newSyms', n', offs')) :
    (∀ x < n, newSyms'.getD x NoSymbol = newSyms.getD x NoSymbol) ∧ (∀ i, i ∉ keys → offs' i = offs i) ∧
      ∀ i ∈ keys, ∀ j < grownSyms m type_ndx num_levels new_num_lvls i, newSyms'.getD (offs' i + j) NoSymbol =
        grownSym old (m i) new_num_lvls (grows m type_ndx num_levels new_num_lvls i) j := by
  induction keys generalizing newSyms n offs with
  | nil =>
    cases h
    exact ⟨fun _ _ => rfl, fun _ _ => rfl, fun i hi => (nomatch hi)⟩
  | cons key keys ih =>
    obtain ⟨hnot, hnodup⟩ := nodup_cons.1 hnodup
    obtain ⟨newSyms₁, hstep, h⟩ : ∃ newSyms₁, (if grows m type_ndx num_levels new_num_lvls key then
          spreadGroups old (m key).offset (m key).width n new_num_lvls (m key).numGroups newSyms
        else peek old (m key).offset (m key).numSyms >>= poke newSyms n) = .ok newSyms₁ ∧
        growSyms old m type_ndx num_levels new_num_lvls keys newSyms₁ (n + grownSyms m type_ndx num_levels new_num_lvls key)
          (Function.update offs key (n % 2 ^ 16)) = .ok (newSyms', n', offs') := by
      rw [growSyms] at h
      split at h
      · rename_i hgrows
        rw [if_pos hgrows]
        exact of_bind_ok h
      · rename_i hgrows
        rw [if_neg hgrows]
        rw [← bind_assoc] at h
        exact of_bind_ok h
    -- the block of this key
    have hblock : newSyms₁.length = newSyms.length ∧
        (0 < grownSyms m type_ndx num_levels new_num_lvls key → n < newSyms.length) ∧
        (∀ x < n, newSyms₁.getD x NoSymbol = newSyms.getD x NoSymbol) ∧
        (∀ x, n + grownSyms m type_ndx num_levels new_num_lvls key ≤ x →
          newSyms₁.getD x NoSymbol = newSyms.getD x NoSymbol) ∧
        ∀ j < grownSyms m type_ndx num_levels new_num_lvls key, newSyms₁.getD (n + j) NoSymbol =
          grownSym old (m key) new_num_lvls (grows m type_ndx num_levels new_num_lvls key) j := by
      unfold grownSyms grownSym
      by_cases hgrows : grows m type_ndx num_levels new_num_lvls key
      · rw [if_pos hgrows] at hstep
        simp only [if_pos hgrows, Nat.mul_comm (m key).numGroups]
        obtain ⟨hlen₁, hfits, hget⟩ := spreadGroups_ok hgrows.2.1.le hstep
        have hplace : 0 < new_num_lvls * (m key).numGroups → n < newSyms.length := by
          intro hpos
          have hgroups : 0 < (m key).numGroups := Nat.pos_of_mul_pos_left hpos
          exact hfits hgroups (hwide key mem_cons_self hgroups)
        refine ⟨hlen₁, hplace, fun x hx => ?_, fun x hx => ?_, fun j hj => ?_⟩
        · rw [hget, if_neg (by omega)]
        · rw [hget, if_neg (by omega)]
        · rw [hget, Nat.add_sub_cancel_left]
          by_cases hmod : j % new_num_lvls < (m key).width
          · rw [if_pos ⟨by omega, by omega, hmod⟩]
          · rw [if_neg fun hin => hmod hin.2.2, hclear _ (by omega)]
            exact (if_neg hmod).symm
      · rw [if_neg hgrows] at hstep
        simp only [if_neg hgrows]
        obtain ⟨block, hpeek, hpoke⟩ := of_bind_ok hstep
        obtain ⟨hlen_block, hread⟩ := peek_ok hpeek
        obtain ⟨hlen₁, hfits, hget⟩ := poke_ok hpoke
        refine ⟨hlen₁, fun hpos => by omega, fun x hx => ?_, fun x hx => ?_, fun j hj => ?_⟩
        · rw [hget, if_neg (by omega)]
        · rw [hget, if_neg (by omega)]
        · rw [hget, if_pos (by omega), Nat.add_sub_cancel_left, hread _ _ hj]
    obtain ⟨hlen₁, hplace, hbelow, habove, hat⟩ := hblock
    obtain ⟨hbelow', hoffs', hrest⟩ := ih hnodup (fun i hi => hwide i (.tail _ hi)) (by rw [hlen₁]; exact hlen)
      (fun x hx => by rw [habove x hx]; exact hclear x (by omega)) h
    refine ⟨fun x hx => ?_, fun i hi => ?_, fun i hi j hj => ?_⟩
    · rw [hbelow' x (by omega), hbelow x hx]
    · rw [hoffs' i fun hmem => hi (.tail _ hmem), Function.update_of_ne]
      rintro rfl
      exact hi mem_cons_self
    · rcases mem_cons.1 hi with rfl | hi
      · -- where nothing overflows, the offset is the place of the block
        have hn : n % 2 ^ 16 = n := by
          apply Nat.mod_eq_of_lt
          omega
        rw [hoffs' i hnot, Function.update_self, hn, hbelow' _ (by omega)]
        exact hat j hj
      · exact hrest i hi j hj

/-! ### Levels that are cut off -/

/-- The place belongs to a level from `firstClear` on, of one of the first `groups` groups with the type. -/
def Cleared (r : XkbSymMapRec) (type_ndx firstClear groups x : ℕ) : Prop :=
  ∃ g < groups, r.keyTypeIndex g = type_ndx ∧ r.offset + g * r.width + firstClear ≤ x ∧ x < r.offset + g * r.width + r.width

theorem clearGroups_ok {firstClear : ℕ} (h : clearGroups r type_ndx firstClear groups syms = .ok syms') (x : ℕ) :
    (Cleared r type_ndx firstClear groups x → syms'.getD x NoSymbol = NoSymbol) ∧
      (¬Cleared r type_ndx firstClear groups x → syms'.getD x NoSymbol = syms.getD x NoSymbol) := by
  induction groups generalizing syms with
  | zero =>
    cases h
    refine ⟨?_, fun _ => rfl⟩
    rintro ⟨g, hg, -⟩
    exact absurd hg (Nat.not_lt_zero g)
  | succ g ih =>
    obtain ⟨syms₁, hstep, h⟩ := of_bind_ok (x := if r.keyTypeIndex g = type_ndx ∧ firstClear < r.width then
        poke syms (r.offset + g * r.width + firstClear) (List.replicate (r.width - firstClear) NoSymbol)
      else .ok syms) (f := clearGroups r type_ndx firstClear g) (by
        rw [clearGroups] at h
        split at h
        · rename_i hclear
          rw [if_pos hclear]
          exact h
        · rename_i hclear
          rw [if_neg hclear]
          exact h)
    obtain ⟨hin, hout⟩ := ih h
    -- what this group contributes
    have hgroup : ∀ x, syms₁.getD x NoSymbol = if r.keyTypeIndex g = type_ndx ∧ r.offset + g * r.width + firstClear ≤ x ∧
        x < r.offset + g * r.width + r.width then NoSymbol else syms.getD x NoSymbol := by
      intro x
      split at hstep
      · rename_i hclear
        obtain ⟨-, -, hget⟩ := poke_ok hstep
        rw [hget, length_replicate]
        by_cases hx : r.offset + g * r.width + firstClear ≤ x ∧ x < r.offset + g * r.width + r.width
        · rw [if_pos (by omega), if_pos ⟨hclear.1, hx⟩, getD_replicate _ (by omega)]
        · rw [if_neg (by omega), if_neg fun h => hx h.2]
      · rename_i hclear
        cases hstep
        rw [if_neg]
        rintro ⟨htype, hx⟩
        exact hclear ⟨htype, by omega⟩
    constructor
    · rintro ⟨g', hg', htype, hx⟩
      by_cases hcleared : Cleared r type_ndx firstClear g x
      · exact hin hcleared
      · have heq : g' = g := by
          by_contra hne
          exact hcleared ⟨g', by omega, htype, hx⟩
        subst heq
        rw [hout hcleared, hgroup, if_pos ⟨htype, hx⟩]
    · intro hnot
      have hearlier : ¬Cleared r type_ndx firstClear g x := by
        rintro ⟨g', hg', h⟩
        exact hnot ⟨g', by omega, h⟩
      rw [hout hearlier, hgroup, if_neg]
      rintro ⟨htype, hx⟩
      exact hnot ⟨g, Nat.lt_succ_self g, htype, hx⟩

theorem clearKeys_ok {firstClear : ℕ} (h : clearKeys m type_ndx firstClear is syms = .ok syms') (x : ℕ) :
    ((∃ i ∈ is, Cleared (m i) type_ndx firstClear (m i).numGroups x) → syms'.getD x NoSymbol = NoSymbol) ∧
      ((¬∃ i ∈ is, Cleared (m i) type_ndx firstClear (m i).numGroups x) → syms'.getD x NoSymbol = syms.getD x NoSymbol) := by
  induction is generalizing syms with
  | nil =>
    cases h
    exact ⟨fun ⟨i, hi, _⟩ => (nomatch hi), fun _ => rfl⟩
  | cons key is ih =>
    obtain ⟨syms₁, hstep, h⟩ := of_bind_ok h
    obtain ⟨hin, hout⟩ := ih h
    obtain ⟨hin₁, hout₁⟩ := clearGroups_ok hstep x
    constructor
    · rintro ⟨i, hi, hcleared⟩
      by_cases hrest : ∃ i ∈ is, Cleared (m i) type_ndx firstClear (m i).numGroups x
      · exact hin hrest
      · rw [hout hrest]
        rcases mem_cons.1 hi with rfl | hi
        · exact hin₁ hcleared
        · exact absurd ⟨i, hi, hcleared⟩ hrest
    · intro hnot
      rw [hout fun ⟨i, hi, h⟩ => hnot ⟨i, .tail _ hi, h⟩]
      exact hout₁ fun h => hnot ⟨key, mem_cons_self, h⟩

/-! ### What a reader finds -/

/-- The symbol on level `l` of group `g`. -/
def XkbDescRec.symbolAt (xkb : XkbDescRec) (key g l : ℕ) : KeySym :=
  xkb.allSyms.getD ((xkb.symMap key).offset + g * (xkb.symMap key).width + l) NoSymbol

/-- The number of levels of group `g` of a key. -/
def XkbDescRec.levelsAt (xkb : XkbDescRec) (key g : ℕ) : ℕ :=
  levelsOf (xkb.map.getD {}) ((xkb.symMap key).keyTypeIndex g)

/-- Every symbol is where it was, as far as the group has and had the level. The levels of the resized type that are
new, and those that are cut off, have none. -/
structure Preserved (xkb xkb' : XkbDescRec) (type_ndx key : ℕ) : Prop where
  groups : (xkb'.symMap key).numGroups = (xkb.symMap key).numGroups
  kept : ∀ g < (xkb.symMap key).numGroups, ∀ l, l < xkb.levelsAt key g → l < xkb'.levelsAt key g →
    xkb'.symbolAt key g l = xkb.symbolAt key g l
  added : ∀ g < (xkb.symMap key).numGroups, (xkb.symMap key).keyTypeIndex g = type_ndx →
    ∀ l, xkb.levelsAt key g ≤ l → l < xkb'.levelsAt key g → xkb'.symbolAt key g l = NoSymbol
  cutOff : ∀ g < (xkb.symMap key).numGroups, (xkb.symMap key).keyTypeIndex g = type_ndx →
    ∀ l, xkb'.levelsAt key g ≤ l → l < xkb.levelsAt key g → xkb'.symbolAt key g l = NoSymbol

/-- Where a reader with stride `width` comes upon the groups that lie `new_num_lvls` apart: on level `l'` of group `g'`, or
on nothing. -/
def landing (width new_num_lvls g l : ℕ) : Option (ℕ × ℕ) :=
  let j := g * width + l
  if j % new_num_lvls < width then some (j / new_num_lvls, j % new_num_lvls) else none

/-- A group with `new_num_lvls` levels of the resized type, or with those it had. -/
def levelsAfter (xkb : XkbDescRec) (type_ndx new_num_lvls key g : ℕ) : ℕ :=
  if (xkb.symMap key).keyTypeIndex g = type_ndx then new_num_lvls else xkb.levelsAt key g

/-- The type gets more levels, and the groups of the key move apart. -/
def Grown (xkb : XkbDescRec) (type_ndx new_num_lvls key : ℕ) : Prop :=
  levelsOf (xkb.map.getD {}) type_ndx < new_num_lvls ∧
    grows xkb.symMap type_ndx (levelsOf (xkb.map.getD {}) type_ndx) new_num_lvls key

/-- The symbols are found again: in a key whose groups stay where they are, there is nothing behind the levels of the
type yet; in a key whose groups move apart, a reader happens to come upon the same symbols. -/
structure Untouched (xkb : XkbDescRec) (type_ndx new_num_lvls key : ℕ) : Prop where
  stays : ¬Grown xkb type_ndx new_num_lvls key → ∀ g < (xkb.symMap key).numGroups,
    (xkb.symMap key).keyTypeIndex g = type_ndx → ∀ l, xkb.levelsAt key g ≤ l → l < new_num_lvls →
    xkb.symbolAt key g l = NoSymbol
  moves : Grown xkb type_ndx new_num_lvls key → ∀ g < (xkb.symMap key).numGroups,
    ∀ l < levelsAfter xkb type_ndx new_num_lvls key g,
    (landing (xkb.symMap key).width new_num_lvls g l).elim NoSymbol (fun p => xkb.symbolAt key p.1 p.2) =
      if l < xkb.levelsAt key g then xkb.symbolAt key g l else NoSymbol

/-- The blocks of the keys lie apart from each other, and every group of a key has a type with at least one level and no
more than the key is wide. -/
structure SymsFit (xkb : XkbDescRec) (used : ℕ) : Prop where
  laid : Laid xkb.keys (symsAt xkb.symMap) (symsLen xkb.symMap) used
  pos : ∀ key ∈ xkb.keys, ∀ g < (xkb.symMap key).numGroups, 0 < xkb.levelsAt key g
  le : ∀ key ∈ xkb.keys, ∀ g < (xkb.symMap key).numGroups, xkb.levelsAt key g ≤ (xkb.symMap key).width

/-! ### A call that succeeds -/

/-- The array and the offsets after the symbols have been moved or cleared. -/
structure SymsResized (keys : List ℕ) (m m' : ℕ → XkbSymMapRec) (old syms : List KeySym)
    (type_ndx num_levels new_num_lvls : ℕ) : Prop where
  shape : ∀ i, m' i = setOffset (m i) (m' i).offset
  more : new_num_lvls > num_levels → ∀ i ∈ keys, ∀ j < grownSyms m type_ndx num_levels new_num_lvls i,
    syms.getD ((m' i).offset + j) NoSymbol = grownSym old (m i) new_num_lvls (grows m type_ndx num_levels new_num_lvls i) j
  notMore : new_num_lvls ≤ num_levels → m' = m
  cleared : new_num_lvls < num_levels → ∀ x,
    (∃ i ∈ keys, num_levels ≤ (m i).width ∧ Cleared (m i) type_ndx new_num_lvls (m i).numGroups x) →
    syms.getD x NoSymbol = NoSymbol
  kept : new_num_lvls ≤ num_levels → ∀ x,
    (¬∃ i ∈ keys, num_levels ≤ (m i).width ∧ Cleared (m i) type_ndx new_num_lvls (m i).numGroups x) →
    syms.getD x NoSymbol = old.getD x NoSymbol

theorem of_deref_ok {α : Type} {p : Option α} {a : α} (h : deref p = .ok a) : p = some a := by
  cases p with
  | none => cases h
  | some b =>
    cases h
    rfl

theorem hasType_of (hg : g < r.numGroups) (h : r.keyTypeIndex g = type_ndx) : hasType r type_ndx = true :=
  any_eq_true.2 ⟨g, mem_range.2 hg, decide_eq_true h⟩

theorem resizeTypeSyms_ok (hm : map.key_sym_map = some m) (hwide : ∀ i ∈ xkb.keys, 0 < (m i).numGroups → 0 < (m i).width)
    {ok : Bool} (h : resizeTypeSyms xkb map type_ndx type new_num_lvls ok = .ok (map', true)) :
    ∃ m', map'.key_sym_map = some m' ∧ map'.types = map.types ∧
      SymsResized xkb.keys m m' (map.syms.getD []) (map'.syms.getD []) type_ndx type.num_levels new_num_lvls := by
  have hshape : ∀ i, m i = setOffset (m i) (m i).offset := fun _ => rfl
  unfold resizeTypeSyms at h
  split at h
  · rename_i hmore
    rw [hm, deref_some, ok_bind] at h
    split at h
    · -- no key grows
      rename_i hnone
      cases h
      refine ⟨m, hm, rfl, hshape, fun _ i hi j _ => ?_, fun hle => by omega, fun hlt => by omega, fun hle => by omega⟩
      exact (if_neg fun hgrows => hnone ⟨i, hi, hgrows⟩).symm
    · dsimp only at h
      split at h
      · cases h
      · rename_i newSyms hcalloc
        obtain ⟨⟨newSyms', n', offs'⟩, hrun, h⟩ := of_bind_ok h
        cases h
        have hnew : ∃ size, size < 2 ^ 16 ∧ newSyms = List.replicate size NoSymbol := by
          unfold calloc at hcalloc
          split at hcalloc
          · cases hcalloc
            exact ⟨_, Nat.mod_lt _ (by decide), rfl⟩
          · cases hcalloc
        obtain ⟨size, hsize, rfl⟩ := hnew
        obtain ⟨-, -, hblocks⟩ := growSyms_ok (nodup_keys xkb) hwide (by rw [length_replicate]; exact hsize)
          (fun x _ => by
            rcases Nat.lt_or_ge x size with hx | hx
            · exact getD_replicate _ hx
            · exact getD_eq_default _ _ (by rw [length_replicate]; exact hx)) hrun
        exact ⟨_, rfl, rfl, fun _ => rfl, fun _ => hblocks, fun hle => by omega, fun hlt => by omega, fun hle => by omega⟩
  · rename_i hmore
    split at h
    · rename_i hless
      rw [hm, deref_some, ok_bind] at h
      have hfilter : ∀ x, (∃ i ∈ xkb.keys, type.num_levels ≤ (m i).width ∧ Cleared (m i) type_ndx new_num_lvls (m i).numGroups x) ↔
          ∃ i ∈ xkb.keys.filter fun i => type.num_levels ≤ (m i).width ∧ hasType (m i) type_ndx,
            Cleared (m i) type_ndx new_num_lvls (m i).numGroups x := by
        intro x
        constructor
        · rintro ⟨i, hi, hwidth, hcleared⟩
          obtain ⟨g, hg, htype, hx⟩ := hcleared
          exact ⟨i, mem_filter.2 ⟨hi, decide_eq_true ⟨hwidth, hasType_of hg htype⟩⟩, g, hg, htype, hx⟩
        · rintro ⟨i, hi, hcleared⟩
          obtain ⟨hi, hmatch⟩ := mem_filter.1 hi
          exact ⟨i, hi, (of_decide_eq_true hmatch).1, hcleared⟩
      dsimp only at h
      split at h
      · rename_i hnone
        cases h
        refine ⟨m, hm, rfl, hshape, fun hgt => by omega, fun _ => rfl, fun _ x hx => ?_, fun _ _ _ => rfl⟩
        rw [hfilter, hnone] at hx
        obtain ⟨i, hi, -⟩ := hx
        cases hi
      · obtain ⟨syms, hsyms, h⟩ := of_bind_ok h
        obtain ⟨syms', hrun, h⟩ := of_bind_ok h
        cases h
        rw [of_deref_ok hsyms]
        refine ⟨m, rfl, rfl, hshape, fun hgt => by omega, fun _ => rfl, fun _ x hx => ?_, fun _ x hx => ?_⟩
        · exact (clearKeys_ok hrun x).1 ((hfilter x).1 hx)
        · exact (clearKeys_ok hrun x).2 fun hc => hx ((hfilter x).2 hc)
    · cases h
      exact ⟨m, hm, rfl, hshape, fun hgt => by omega, fun _ => rfl, fun hlt => by omega, fun _ _ _ => rfl⟩

variable {want_preserve : Bool} {answers : KeyTypeAnswers}

theorem resizeKeyType_success {map_count : ℕ} (hmap : xkb.map = some map)
    (h : XkbResizeKeyType xkb type_ndx map_count want_preserve new_num_lvls answers = .ok (xkb', .Success)) :
    1 ≤ new_num_lvls ∧ ∃ types type type' map', map.types = some types ∧ types[type_ndx]? = some type ∧
      type'.num_levels = type.num_levels ∧
      resizeTypeSyms xkb (map.setType type_ndx type') type_ndx type' new_num_lvls answers.syms = .ok (map', true) ∧
      xkb' = xkb.setMap (map'.setType type_ndx { type' with num_levels := new_num_lvls % 256 }) := by
  unfold XkbResizeKeyType at h
  rw [hmap, deref_some, ok_bind] at h
  split at h
  · cases h
  split at h
  · cases h
  split at h
  · cases h
  obtain ⟨types, htypes, h⟩ := of_bind_ok h
  obtain ⟨type, htype, h⟩ := of_bind_ok h
  have hlevels := resizeTypeMap_levels type map_count want_preserve answers
  cases hrun₁ : resizeTypeMap type map_count want_preserve answers with
  | mk type₁ ok₁ =>
  rw [hrun₁] at h hlevels
  dsimp only at h hlevels
  split at h
  · cases h
  have hlevels₂ := resizeTypeNames_levels type₁ new_num_lvls answers
  cases hrun₂ : resizeTypeNames type₁ new_num_lvls answers with
  | mk type₂ ok₂ =>
  rw [hrun₂] at h hlevels₂
  split at h
  · cases h
  obtain ⟨⟨map', ok₃⟩, hrun₃, h⟩ := of_bind_ok h
  split at h
  · cases h
  rename_i hok
  cases h
  have hok₃ : ok₃ = true := by
    cases ok₃ with
    | false => exact absurd rfl hok
    | true => rfl
  rw [hok₃] at hrun₃
  exact ⟨by omega, types, type, type₂, map', of_deref_ok htypes, of_deref_ok htype, hlevels₂.trans hlevels, hrun₃, rfl⟩

theorem group_unique {w l g' : ℕ} (hlo : g' * w ≤ g * w + l) (hhi : g * w + l < g' * w + w) (hl : l < w) : g' = g := by
  rcases Nat.lt_trichotomy g' g with hlt | heq | hgt
  · have := Nat.mul_le_mul_right w (show g' + 1 ≤ g from hlt)
    rw [Nat.succ_mul] at this
    omega
  · exact heq
  · have := Nat.mul_le_mul_right w (show g + 1 ≤ g' from hgt)
    rw [Nat.succ_mul] at this
    omega

/-- The place of a level in the block of its key belongs to no level that is cut off from another group. -/
theorem not_cleared {used l : ℕ} (hlaid : Laid keys (symsAt m) (symsLen m) used) (hkey : key ∈ keys)
    (hg : g < (m key).numGroups) (hl : l < (m key).width)
    (hnot : (m key).keyTypeIndex g = type_ndx → l < new_num_lvls) :
    ¬∃ i ∈ keys, num_levels ≤ (m i).width ∧
      Cleared (m i) type_ndx new_num_lvls (m i).numGroups ((m key).offset + g * (m key).width + l) := by
  rintro ⟨i, hi, -, g', hg', htype, hlo, hhi⟩
  have hblock : ∀ {k g : ℕ}, g < (m k).numGroups → g * (m k).width + (m k).width ≤ (m k).numSyms := by
    intro k g hg
    rw [Nat.mul_comm]
    exact Nat.mul_le_mul_left _ hg
  have hin := hblock hg
  have hin' := hblock hg'
  by_cases hik : i = key
  · subst hik
    have heq : g' = g := group_unique (by omega) (by omega) hl
    subst heq
    omega
  · have := hlaid.apart i hi key hkey hik (show 0 < (m i).numSyms by omega) (show 0 < (m key).numSyms by omega)
    unfold symsAt symsLen at this
    omega

theorem levelsOf_setType {types : List XkbKeyTypeRec} (htypes : map.types = some types) (ht : type_ndx < types.length) (t : ℕ) :
    levelsOf (map.setType type_ndx type) t = if t = type_ndx then type.num_levels else levelsOf map t := by
  unfold levelsOf XkbClientMapRec.setType
  rw [htypes]
  simp only [Option.map_some, Option.getD_some]
  split
  · rename_i heq
    rw [heq, List.getElem?_set_self ht]
    rfl
  · rename_i hne
    rw [List.getElem?_set_ne (Ne.symm hne)]

/-- What a call that succeeds makes of a description. -/
structure Resized (xkb xkb' : XkbDescRec) (type_ndx new_num_lvls : ℕ) (m' : ℕ → XkbSymMapRec) (syms : List KeySym) : Prop where
  groups : ∀ key, (xkb'.symMap key).numGroups = (xkb.symMap key).numGroups
  levels : ∀ key g, xkb'.levelsAt key g = levelsAfter xkb type_ndx new_num_lvls key g
  symbolAt : ∀ key g l, xkb'.symbolAt key g l = syms.getD ((m' key).offset + g * (xkb.symMap key).width + l) NoSymbol
  resized : SymsResized xkb.keys xkb.symMap m' xkb.allSyms syms type_ndx (levelsOf (xkb.map.getD {}) type_ndx) new_num_lvls

theorem resizeKeyType_resized {map_count : ℕ} (hmap : xkb.map = some map) (hm : map.key_sym_map = some m)
    (hwide : ∀ i ∈ xkb.keys, 0 < (m i).numGroups → 0 < (m i).width) (hbyte : new_num_lvls < 256)
    (h : XkbResizeKeyType xkb type_ndx map_count want_preserve new_num_lvls answers = .ok (xkb', .Success)) :
    ∃ m' syms, Resized xkb xkb' type_ndx new_num_lvls m' syms := by
  obtain ⟨-, types, type, type', map', htypes, htype, hlevels, hrun, rfl⟩ := resizeKeyType_success hmap h
  have hsym : xkb.symMap = m := symMap_eq hmap hm
  have hlt : type_ndx < types.length := (List.getElem?_eq_some_iff.1 htype).1
  have hnum : levelsOf map type_ndx = type'.num_levels := by
    unfold levelsOf
    rw [htypes, Option.getD_some, htype, hlevels]
    rfl
  obtain ⟨m', hm', htypes', hsyms⟩ := @resizeTypeSyms_ok xkb (map.setType type_ndx type') map' m type_ndx new_num_lvls type'
    hm hwide _ hrun
  have hsym' : (xkb.setMap (map'.setType type_ndx { type' with num_levels := new_num_lvls % 256 })).symMap = m' :=
    symMap_eq rfl hm'
  have hset : map'.types = some (types.set type_ndx type') := by
    rw [htypes']
    unfold XkbClientMapRec.setType
    rw [htypes]
    rfl
  have hother : ∀ t, t ≠ type_ndx → levelsOf map' t = levelsOf map t := by
    intro t ht
    have hsame : levelsOf map' t = levelsOf (map.setType type_ndx type') t := by
      unfold levelsOf
      rw [htypes']
    rw [hsame, levelsOf_setType htypes hlt, if_neg ht]
  refine ⟨m', map'.syms.getD [], fun key => ?_, fun key g => ?_, fun key g l => ?_, ?_⟩
  · rw [hsym', hsyms.shape key, hsym]
    rfl
  · unfold XkbDescRec.levelsAt levelsAfter
    rw [hsym', hsyms.shape key, hsym]
    change levelsOf (map'.setType _ _) ((m key).keyTypeIndex g) = if (m key).keyTypeIndex g = type_ndx then _ else _
    rw [levelsOf_setType hset (by rw [length_set]; exact hlt)]
    split
    · exact Nat.mod_eq_of_lt hbyte
    · rename_i hne
      rw [hother _ hne]
      unfold XkbDescRec.levelsAt
      rw [hmap, hsym]
      rfl
  · unfold XkbDescRec.symbolAt
    rw [hsym', hsyms.shape key, hsym]
    rfl
  · have hold : xkb.allSyms = map.syms.getD [] := by
      unfold XkbDescRec.allSyms
      rw [hmap]
      rfl
    rw [hsym, hold, hmap, Option.getD_some, hnum]
    exact hsyms

variable {m' : ℕ → XkbSymMapRec} {used : ℕ}

/-- The type has more levels than before. -/
theorem Resized.preserved_iff_more (h : Resized xkb xkb' type_ndx new_num_lvls m' syms) (hfit : SymsFit xkb used)
    (hmore : levelsOf (xkb.map.getD {}) type_ndx < new_num_lvls) (hkey : key ∈ xkb.keys) :
    Preserved xkb xkb' type_ndx key ↔ Untouched xkb type_ndx new_num_lvls key := by
  have hblock := h.resized.more hmore key hkey
  have hle := hfit.le key hkey
  have htype : ∀ g, (xkb.symMap key).keyTypeIndex g = type_ndx → xkb.levelsAt key g = levelsOf (xkb.map.getD {}) type_ndx := by
    intro g hg
    unfold XkbDescRec.levelsAt
    rw [hg]
  have hafter : ∀ g, xkb.levelsAt key g ≤ levelsAfter xkb type_ndx new_num_lvls key g := by
    intro g
    unfold levelsAfter
    split
    · rename_i hg
      rw [htype g hg]
      exact hmore.le
    · exact le_rfl
  by_cases hgrown : Grown xkb type_ndx new_num_lvls key
  · -- the groups have moved apart
    have hread : ∀ g < (xkb.symMap key).numGroups, ∀ l < levelsAfter xkb type_ndx new_num_lvls key g,
        xkb'.symbolAt key g l =
          (landing (xkb.symMap key).width new_num_lvls g l).elim NoSymbol fun p => xkb.symbolAt key p.1 p.2 := by
      intro g hg l hl
      have hlevels : levelsAfter xkb type_ndx new_num_lvls key g ≤ new_num_lvls := by
        unfold levelsAfter
        split
        · exact le_rfl
        · exact (hle g hg).trans hgrown.2.2.1.le
      have hin : g * (xkb.symMap key).width + l < grownSyms xkb.symMap type_ndx (levelsOf (xkb.map.getD {}) type_ndx) new_num_lvls key := by
        unfold grownSyms
        rw [if_pos hgrown.2]
        have h₁ := Nat.mul_le_mul_left g hgrown.2.2.1.le
        have h₂ := Nat.mul_le_mul_right new_num_lvls (show g + 1 ≤ (xkb.symMap key).numGroups from hg)
        rw [Nat.succ_mul] at h₂
        omega
      rw [h.symbolAt, Nat.add_assoc, hblock _ hin]
      unfold grownSym spread landing
      rw [if_pos hgrown.2]
      dsimp only
      split
      · rfl
      · rfl
    constructor
    · intro hp
      refine ⟨fun hnot => absurd hgrown hnot, fun _ g hg l hl => ?_⟩
      rw [← hread g hg l hl]
      split
      · rename_i hold
        exact hp.kept g hg l hold (by rw [h.levels]; exact hl)
      · rename_i hnew
        by_cases hg' : (xkb.symMap key).keyTypeIndex g = type_ndx
        · exact hp.added g hg hg' l (Nat.not_lt.1 hnew) (by rw [h.levels]; exact hl)
        · unfold levelsAfter at hl
          rw [if_neg hg'] at hl
          exact absurd hl hnew
    · intro hu
      refine ⟨h.groups key, fun g hg l hold hl => ?_, fun g hg hg' l hnew hl => ?_, fun g hg hg' l hge hlt => ?_⟩
      · rw [h.levels] at hl
        rw [hread g hg l hl, hu.moves hgrown g hg l hl, if_pos hold]
      · rw [h.levels] at hl
        rw [hread g hg l hl, hu.moves hgrown g hg l hl, if_neg (Nat.not_lt.2 hnew)]
      · rw [h.levels] at hge
        have := hafter g
        omega
  · have hread : ∀ g < (xkb.symMap key).numGroups, ∀ l < levelsAfter xkb type_ndx new_num_lvls key g,
        xkb'.symbolAt key g l = xkb.symbolAt key g l := by
      intro g hg l hl
      have hnot : ¬grows xkb.symMap type_ndx (levelsOf (xkb.map.getD {}) type_ndx) new_num_lvls key := fun hg => hgrown ⟨hmore, hg⟩
      have hl' : l < (xkb.symMap key).width := by
        unfold levelsAfter at hl
        split at hl
        · rename_i hg'
          -- the key is as wide as the type will be
          have := hle g hg
          rw [htype g hg'] at this
          by_contra hlt
          exact hnot ⟨this, by omega, hasType_of hg hg'⟩
        · exact Nat.lt_of_lt_of_le hl (hle g hg)
      have hin : g * (xkb.symMap key).width + l < grownSyms xkb.symMap type_ndx (levelsOf (xkb.map.getD {}) type_ndx) new_num_lvls key := by
        unfold grownSyms XkbSymMapRec.numSyms
        rw [if_neg hnot]
        have := Nat.mul_le_mul_right (xkb.symMap key).width (show g + 1 ≤ (xkb.symMap key).numGroups from hg)
        rw [Nat.succ_mul, Nat.mul_comm (xkb.symMap key).numGroups] at this
        omega
      rw [h.symbolAt, Nat.add_assoc, hblock _ hin]
      unfold grownSym XkbDescRec.symbolAt
      rw [if_neg hnot, Nat.add_assoc]
    constructor
    · intro hp
      refine ⟨fun _ g hg hg' l hnew hl => ?_, fun hg => absurd hg hgrown⟩
      have hl' : l < levelsAfter xkb type_ndx new_num_lvls key g := by
        unfold levelsAfter
        rw [if_pos hg']
        exact hl
      rw [← hread g hg l hl']
      exact hp.added g hg hg' l hnew (by rw [h.levels]; exact hl')
    · intro hu
      refine ⟨h.groups key, fun g hg l _ hl => ?_, fun g hg hg' l hnew hl => ?_, fun g hg hg' l hge hlt => ?_⟩
      · rw [h.levels] at hl
        exact hread g hg l hl
      · rw [h.levels] at hl
        rw [hread g hg l hl]
        apply hu.stays hgrown g hg hg' l hnew
        unfold levelsAfter at hl
        rwa [if_pos hg'] at hl
      · rw [h.levels] at hge
        have := hafter g
        omega

/-- The type has no more levels than before. -/
theorem Resized.preserved_of_less (h : Resized xkb xkb' type_ndx new_num_lvls m' syms) (hfit : SymsFit xkb used)
    (hless : new_num_lvls ≤ levelsOf (xkb.map.getD {}) type_ndx) (hkey : key ∈ xkb.keys) :
    Preserved xkb xkb' type_ndx key := by
  have hsame := h.resized.notMore hless
  have hle := hfit.le key hkey
  have htype : ∀ g, (xkb.symMap key).keyTypeIndex g = type_ndx → xkb.levelsAt key g = levelsOf (xkb.map.getD {}) type_ndx := by
    intro g hg
    unfold XkbDescRec.levelsAt
    rw [hg]
  have hafter : ∀ g, (xkb.symMap key).keyTypeIndex g = type_ndx → levelsAfter xkb type_ndx new_num_lvls key g = new_num_lvls :=
    fun g hg => if_pos hg
  refine ⟨h.groups key, fun g hg l hold hl => ?_, fun g hg hg' l hnew hl => ?_, fun g hg hg' l hge hlt => ?_⟩
  · rw [h.symbolAt, hsame]
    apply h.resized.kept hless
    refine not_cleared hfit.laid hkey hg (Nat.lt_of_lt_of_le hold (hle g hg)) fun hg' => ?_
    rw [h.levels, hafter g hg'] at hl
    exact hl
  · rw [h.levels, hafter g hg'] at hl
    rw [htype g hg'] at hnew
    omega
  · rw [h.levels, hafter g hg'] at hge
    rw [htype g hg'] at hlt
    have hwidth := hle g hg
    rw [htype g hg'] at hwidth
    rw [h.symbolAt, hsame]
    apply h.resized.cleared (by omega)
    exact ⟨key, hkey, hwidth, g, hg, hg', by omega, by omega⟩

/-- **The symbols are preserved** exactly if they are found again untouched. -/
theorem XkbResizeKeyType_preserves_iff {map_count : ℕ} {want_preserve : Bool} {answers : KeyTypeAnswers}
    (hmap : xkb.map = some map) (hm : map.key_sym_map.isSome) (hfit : SymsFit xkb used) (hbyte : new_num_lvls < 256)
    (h : XkbResizeKeyType xkb type_ndx map_count want_preserve new_num_lvls answers = .ok (xkb', .Success)) :
    (∀ key ∈ xkb.keys, Preserved xkb xkb' type_ndx key) ↔ ∀ key ∈ xkb.keys, Untouched xkb type_ndx new_num_lvls key := by
  obtain ⟨m, hm⟩ := Option.isSome_iff_exists.1 hm
  have hwide : ∀ i ∈ xkb.keys, 0 < (m i).numGroups → 0 < (m i).width := by
    intro i hi hgroups
    rw [← symMap_eq hmap hm] at hgroups ⊢
    exact Nat.lt_of_lt_of_le (hfit.pos i hi 0 hgroups) (hfit.le i hi 0 hgroups)
  obtain ⟨m', syms, hresized⟩ := resizeKeyType_resized hmap hm hwide hbyte h
  rcases Nat.lt_or_ge (levelsOf (xkb.map.getD {}) type_ndx) new_num_lvls with hmore | hless
  · exact forall₂_congr fun key hkey => hresized.preserved_iff_more hfit hmore hkey
  · refine ⟨fun _ key hkey => ⟨fun _ g hg hg' l hnew hl => ?_, fun hgrown => absurd hgrown.1 (Nat.not_lt.2 hless)⟩,
      fun _ key hkey => hresized.preserved_of_less hfit hless hkey⟩
    unfold XkbDescRec.levelsAt at hnew
    rw [hg'] at hnew
    omega

/-- A key with `groups` groups of type 4, which has two levels. -/
def twoLevelKey (groups : ℕ) : XkbDescRec :=
  { min_key_code := 8, max_key_code := 8,
    map := some
      { size_types := 5, num_types := 5, types := some (List.replicate 5 { num_levels := 2 }), size_syms := 5, num_syms := 5,
        syms := some [0, 97, 65, 98, 66],
        key_sym_map := some fun _ => { kt_index := fun _ => 4, group_info := groups, width := 2, offset := 1 } } }

theorem twoLevelKey_fit (h : groups ≤ 2) : SymsFit (twoLevelKey groups) 5 := by
  have hgroups : ∀ key, ((twoLevelKey groups).symMap key).numGroups = groups := fun key =>
    Nat.mod_eq_of_lt (show groups < 16 by omega)
  refine ⟨⟨fun k _ _ => ⟨le_rfl, ?_⟩, fun k hk k' hk' hne => ?_⟩, fun key _ g _ => ?_, fun key _ g _ => ?_⟩
  · change 1 + 2 * ((twoLevelKey groups).symMap k).numGroups ≤ 5
    rw [hgroups]
    omega
  · rw [mem_singleton.1 (show k ∈ [8] from hk), mem_singleton.1 (show k' ∈ [8] from hk')] at hne
    exact absurd rfl hne
  · exact Nat.zero_lt_two
  · exact le_rfl

theorem XkbResizeKeyType_preserves_iff_one :
    ∃ xkb', XkbResizeKeyType (twoLevelKey 1) 4 0 false 3 { level_names := some fun _ => 0 } = .ok (xkb', .Success) ∧
      ((∀ key ∈ (twoLevelKey 1).keys, Preserved (twoLevelKey 1) xkb' 4 key) ↔
        ∀ key ∈ (twoLevelKey 1).keys, Untouched (twoLevelKey 1) 4 3 key) := by
  have hrun : XkbResizeKeyType (twoLevelKey 1) 4 0 false 3 { level_names := some fun _ => 0 } = .ok (_, .Success) := rfl
  exact ⟨_, hrun, XkbResizeKeyType_preserves_iff rfl rfl (twoLevelKey_fit (by decide)) (by decide) hrun⟩

/-- With two groups, the first symbol of group 2 reads as `NoSymbol`. -/
theorem XkbResizeKeyType_loses :
    ∃ xkb', XkbResizeKeyType (twoLevelKey 2) 4 0 false 3 { level_names := some fun _ => 0 } = .ok (xkb', .Success) ∧
      ¬∀ key ∈ (twoLevelKey 2).keys, Preserved (twoLevelKey 2) xkb' 4 key := by
  refine ⟨_, rfl, fun h => ?_⟩
  have hkept := (h 8 (by decide)).kept 1 (by decide) 0 (by decide) (by decide)
  exact absurd hkept (by decide)

end Xenia.Xext.Xkb
