import Xenia.Xext.Xkb

/-!
# The arrays of an XKB description

`SymsOk` and `ActsOk` say that the symbols and the actions of the keys lie apart from each other in
their arrays, and that the sizes kept are those allocated. The `_spec` lemmas follow the functions that
move the symbols or actions of one key, or give a type more levels.
-/

namespace Xenia.Xext.Xkb

open Xenia.Lib List Function

variable {xkb xkb' : XkbDescRec} {map map' : XkbClientMapRec} {server server' : XkbServerMapRec}
  {m m' : ℕ → XkbSymMapRec} {a a' : ℕ → ℕ} {keys : List ℕ} {key needed i k p width nGroups : ℕ}
  {syms : List KeySym} {acts : List XkbAction}

/-! ### Blocks of keys -/

def symsAt (m : ℕ → XkbSymMapRec) (i : ℕ) : ℕ := (m i).offset

def symsLen (m : ℕ → XkbSymMapRec) (i : ℕ) : ℕ := (m i).numSyms

def actsLen (m : ℕ → XkbSymMapRec) (a : ℕ → ℕ) (i : ℕ) : ℕ := if a i = 0 then 0 else (m i).numSyms

/-- An array of `size` elements is allocated, `used` of them are in use. -/
structure Sized {α : Type} (cells : Option (List α)) (size used : ℕ) : Prop where
  allocated : cells.elim 0 List.length = size
  fits : used ≤ size
  small : size < 2 ^ 16
  first : cells.isSome → 1 ≤ used

structure SymsOk (keys : List ℕ) (map : XkbClientMapRec) : Prop where
  sized : Sized map.syms map.size_syms map.num_syms
  laid : ∀ m, map.key_sym_map = some m → Laid keys (symsAt m) (symsLen m) map.num_syms
  there : map.key_sym_map.isSome → map.syms.isSome

structure ActsOk (keys : List ℕ) (m : ℕ → XkbSymMapRec) (server : XkbServerMapRec) : Prop where
  sized : Sized server.acts server.size_acts server.num_acts
  laid : ∀ a, server.key_acts = some a → Laid keys a (actsLen m a) server.num_acts
  there : server.key_acts.isSome → server.acts.isSome

theorem roomFor_iff {a b c : ℕ} (h : b ≤ a) (ha : a < 2 ^ 16) : roomFor a b c ↔ b + c ≤ a := by
  unfold roomFor
  omega

theorem nodup_keys (xkb : XkbDescRec) : xkb.keys.Nodup := nodup_range'

/-- The new records differ from the old ones in their offsets. -/
def SameShape (m m' : ℕ → XkbSymMapRec) : Prop := ∀ i, m' i = setOffset (m i) (m' i).offset

theorem SameShape.numSyms (h : SameShape m m') (i : ℕ) : (m' i).numSyms = (m i).numSyms := by
  rw [h i]
  rfl

theorem SameShape.symsLen (h : SameShape m m') : symsLen m' = symsLen m := funext fun i => h.numSyms i

theorem SameShape.actsLen (h : SameShape m m') (a : ℕ → ℕ) : actsLen m' a = actsLen m a := by
  funext i
  unfold Xkb.actsLen
  rw [h.numSyms i]

theorem sameShape_update (m : ℕ → XkbSymMapRec) (key offset : ℕ) :
    SameShape m (update m key (setOffset (m key) offset)) := by
  intro i
  by_cases hi : i = key
  · subst hi
    rw [update_self]
    rfl
  · rw [update_of_ne hi]
    rfl

theorem symsAt_update (m : ℕ → XkbSymMapRec) (key offset : ℕ) :
    symsAt (update m key (setOffset (m key) offset)) = update (symsAt m) key offset := by
  funext i
  unfold symsAt
  by_cases hi : i = key
  · subst hi
    rw [update_self, update_self]
    rfl
  · rw [update_of_ne hi, update_of_ne hi]

/-! ### The symbols of one key move -/

/-- What `XkbResizeKeySyms` leaves: the key has a block for `needed` symbols at `p`, and the blocks of the
others hold what they held. -/
structure SymsMoved (keys : List ℕ) (key needed p : ℕ) (map map' : XkbClientMapRec) (m m' : ℕ → XkbSymMapRec)
    (syms syms' : List KeySym) : Prop where
  keyMap : map'.key_sym_map = some m'
  cells : map'.syms = some syms'
  sized : Sized map'.syms map'.size_syms map'.num_syms
  at_p : symsAt m' key = p
  laid : Laid keys (symsAt m') (Function.update (symsLen m) key (max needed (symsLen m key))) map'.num_syms
  shape : SameShape m m'
  others : ∀ i ∈ keys, i ≠ key → slice syms' (symsAt m' i) (symsLen m i) = slice syms (symsAt m i) (symsLen m i)
  types : map'.types = map.types ∧ map'.num_types = map.num_types ∧ map'.size_types = map.size_types

theorem SymsMoved.symsOk {syms' : List KeySym} (h : SymsMoved keys key needed p map map' m m' syms syms') :
    SymsOk keys map' := by
  refine ⟨h.sized, fun m'' hm'' => ?_, fun _ => by rw [h.cells]; rfl⟩
  rw [h.keyMap] at hm''
  cases hm''
  rw [h.shape.symsLen]
  refine h.laid.shrink (fun i _ => ?_) fun _ _ _ => rfl
  by_cases hi : i = key
  · subst hi
    rw [update_self]
    exact le_max_right _ _
  · rw [update_of_ne hi]

variable {size : ℕ}

theorem Sized.length {α : Type} {cells : List α} {used : ℕ} (h : Sized (some cells) size used) : cells.length = size :=
  h.allocated

/-- The symbols of a key are appended, with room for `needed`. -/
theorem appendSyms_spec (h : SymsOk keys map) (hm : map.key_sym_map = some m) (hsyms : map.syms = some syms)
    (hkey : key ∈ keys) (hold : symsLen m key < needed) (hroom : map.num_syms + needed ≤ map.size_syms) :
    ∃ syms', (do
        let old ← peek syms (m key).offset (m key).numSyms
        let syms ← poke syms map.num_syms old
        poke syms (map.num_syms + (m key).numSyms) (replicate (needed - (m key).numSyms) NoSymbol)) = .ok syms' ∧
      ∀ map', map'.key_sym_map = some (update m key (setOffset (m key) map.num_syms)) → map'.syms = some syms' →
        map'.size_syms = map.size_syms → map'.num_syms = map.num_syms + needed → map'.types = map.types →
        map'.num_types = map.num_types → map'.size_types = map.size_types →
        SymsMoved keys key needed map.num_syms map map' m (update m key (setOffset (m key) map.num_syms)) syms syms' := by
  have hlaid := h.laid m hm
  have hsized := h.sized
  rw [hsyms] at hsized
  have hlen := hsized.length
  have hone := hsized.first rfl
  have hin : symsLen m key = 0 ∨ (m key).offset + (m key).numSyms ≤ syms.length := by
    rcases eq_zero_or_pos (symsLen m key) with hzero | hpos
    · exact .inl hzero
    · have := hlaid.inside key hkey hpos
      unfold symsAt symsLen at this
      omega
  have hpeek : peek syms (m key).offset (m key).numSyms = .ok (slice syms (m key).offset (m key).numSyms) := if_pos hin
  have hblock : (slice syms (m key).offset (m key).numSyms).length = (m key).numSyms := by
    rcases hin with hzero | hle
    · have hzero : (m key).numSyms = 0 := hzero
      rw [hzero]
      rfl
    · exact length_slice hle
  unfold symsLen at hold
  obtain ⟨syms₁, hrun₁, hc₁⟩ : ∃ syms₁, poke syms map.num_syms (slice syms (m key).offset (m key).numSyms) = .ok syms₁ ∧
      Confined map.num_syms (map.num_syms + needed) syms syms₁ := poke_confined le_rfl (by omega) (by omega)
  have hlen₁ := hc₁.length
  obtain ⟨syms₂, hrun₂, hc₂⟩ : ∃ syms₂, poke syms₁ (map.num_syms + (m key).numSyms)
        (replicate (needed - (m key).numSyms) NoSymbol) = .ok syms₂ ∧
      Confined map.num_syms (map.num_syms + needed) syms₁ syms₂ :=
    poke_confined (by omega) (by rw [length_replicate]; omega) (by omega)
  refine ⟨syms₂, ?_, fun map' hm' hsyms' hsize hnum htypes hnumTypes hsizeTypes => ?_⟩
  · rw [hpeek, ok_bind, hrun₁]
    exact hrun₂
  have hc := hc₁.trans hc₂
  refine ⟨hm', hsyms', ?_, ?_, ?_, sameShape_update m key _, fun i hi hne => ?_, htypes, hnumTypes, hsizeTypes⟩
  · rw [hsyms', hsize, hnum]
    exact ⟨by rw [← hsized.allocated]; exact hc.length, hroom, hsized.small, fun _ => by omega⟩
  · rw [symsAt_update, update_self]
  · rw [symsAt_update, hnum]
    refine hlaid.append hone (fun i _ hne => ?_) ?_
    · rw [update_of_ne hne]
    · rw [update_self]
      exact max_le le_rfl (le_of_lt hold)
  · rw [symsAt_update, update_of_ne hne]
    refine hc.slice fun j hlo hhi => .inl ?_
    have := hlaid.inside i hi (by omega)
    omega

theorem symsMove_total (m : ℕ → XkbSymMapRec) (key needed i : ℕ) :
    Move.total (symsMove m key needed) i = if i = key then needed else symsLen m i := by
  unfold Move.total symsMove symsLen
  dsimp only
  by_cases hi : i = key
  · rw [if_neg fun h => h.2 hi]
    simp only [Option.elim]
  · rw [if_neg hi]
    by_cases hzero : (m i).numSyms = 0
    · rw [if_pos ⟨hzero, hi⟩, hzero]
      rfl
    · rw [if_neg fun h => hzero h.1]
      simp only [Option.elim]

/-- The blocks go to a larger array, one behind the other, and that of `key` has room for `needed` cells. -/
theorem repack_spec {α : Type} (zero : α) {old : List α} {plan : ℕ → Option Move} {len offset : ℕ → ℕ} {size₀ used : ℕ}
    (hsized : Sized (some old) size₀ used) (hlaid : Laid keys offset len used) (hnodup : keys.Nodup)
    (hold : len key < needed) (hroom : used + needed ≤ size) (hsize : size < 2 ^ 16)
    (htotal : ∀ i, Move.total plan i = if i = key then needed else len i) (hread : ∀ i ∈ keys, ∀ move, plan i = some move →
      (move.copy = 0 ∨ move.src + move.copy ≤ old.length) ∧ move.copy ≤ move.size) :
    ∃ new n offs, (do
        let blank ← poke (replicate size zero) 0 [zero]
        pack old zero (2 ^ 16) plan keys blank 1 offset) = .ok (new, n, offs) ∧
      n < 2 ^ 16 ∧ Sized (some new) size n ∧ Laid keys offs (update len key (max needed (len key))) n ∧
      Repacked old zero plan keys offset 1 new n offs := by
  have hone := hsized.first rfl
  have hpoke : poke (replicate size zero) 0 [zero] = .ok (patch (replicate size zero) 0 [zero]) :=
    poke_eq (by rw [length_replicate, length_singleton]; omega)
  have hnew : (patch (replicate size zero) 0 [zero]).length = size := by
    rw [length_patch (by rw [length_replicate, length_singleton]; omega), length_replicate]
  have hsum : (keys.map (Move.total plan)).sum ≤ used - 1 + needed := by
    have hothers : ∀ i ∈ keys, i ≠ key → Move.total plan i ≤ len i := fun i _ hne => by
      rw [htotal, if_neg hne]
    have hle := sum_le_grown hnodup hothers (le_of_eq (by rw [htotal, if_pos rfl]))
    have := hlaid.sum_le hnodup
    omega
  obtain ⟨new, n, offs, hrun, hlen, -, hpacked⟩ := pack_spec zero offset hnodup hread (by rw [hnew]; omega)
    (by omega : 1 + (keys.map (Move.total plan)).sum < 2 ^ 16)
  have hn := hpacked.total
  refine ⟨new, n, offs, ?_, by omega, ⟨hlen.trans hnew, by omega, hsize, fun _ => by omega⟩, ?_, hpacked⟩
  · rw [hpoke]
    exact hrun
  · rw [max_eq_left (le_of_lt hold)]
    refine hpacked.laid le_rfl fun i hi => ?_
    rw [htotal]
    by_cases heq : i = key
    · subst heq
      rw [update_self, if_pos rfl]
    · rw [update_of_ne heq, if_neg heq]

/-- The symbols of all keys are laid out anew, with room for `needed` of a key. -/
theorem repackSyms_spec (h : SymsOk keys map) (hnodup : keys.Nodup) (hm : map.key_sym_map = some m) (hsyms : map.syms = some syms)
    (hkey : key ∈ keys) (hold : symsLen m key < needed) (hroom : map.num_syms + needed ≤ size) (hsize : size < 2 ^ 16) :
    ∃ syms' n offs, (do
        let newSyms ← poke (replicate size NoSymbol) 0 [NoSymbol]
        pack syms NoSymbol (2 ^ 16) (symsMove m key needed) keys newSyms 1 fun i => (m i).offset) = .ok (syms', n, offs) ∧
      n < 2 ^ 16 ∧
      ∀ map', map'.key_sym_map = some (fun i => setOffset (m i) (offs i)) → map'.syms = some syms' →
        map'.size_syms = size → map'.num_syms = n → map'.types = map.types → map'.num_types = map.num_types →
        map'.size_types = map.size_types →
        SymsMoved keys key needed (offs key) map map' m (fun i => setOffset (m i) (offs i)) syms syms' := by
  have hlaid := h.laid m hm
  have hsized := h.sized
  rw [hsyms] at hsized
  have hlen := hsized.length
  have hfits := hsized.fits
  -- a block that moves lies in the old array
  have hread : ∀ i ∈ keys, ∀ move, symsMove m key needed i = some move →
      (move.copy = 0 ∨ move.src + move.copy ≤ syms.length) ∧ move.copy ≤ move.size := by
    intro i hi move hmove
    unfold symsMove at hmove
    dsimp only at hmove
    split at hmove
    · cases hmove
    cases hmove
    have hin : (m i).numSyms = 0 ∨ (m i).offset + (m i).numSyms ≤ syms.length := by
      rcases eq_zero_or_pos (symsLen m i) with hzero | hpos
      · exact .inl hzero
      · have := hlaid.inside i hi hpos
        unfold symsAt symsLen at this
        omega
    refine ⟨hin, ?_⟩
    split
    · next heq =>
      subst heq
      exact le_of_lt hold
    · exact le_rfl
  obtain ⟨syms', n, offs, hrun, hn, hsized', hlaid', hpacked⟩ :=
    repack_spec NoSymbol hsized hlaid hnodup hold hroom hsize (symsMove_total m key needed) hread
  refine ⟨syms', n, offs, hrun, hn, fun map' hm' hsyms' hsize' hnum htypes hnumTypes hsizeTypes => ?_⟩
  refine ⟨hm', hsyms', ?_, rfl, ?_, fun _ => rfl, fun i hi hne => ?_, htypes, hnumTypes, hsizeTypes⟩
  · rw [hsyms', hsize', hnum]
    exact hsized'
  · rw [hnum]
    exact hlaid'
  · show slice syms' (offs i) (symsLen m i) = _
    rcases eq_zero_or_pos (symsLen m i) with hzero | hpos
    · rw [hzero, slice_zero, slice_zero]
    · have hmove : symsMove m key needed i = some ⟨(m i).offset, (m i).numSyms, (m i).numSyms⟩ := by
        unfold symsMove
        rw [if_neg fun h => (ne_of_gt hpos) h.1, if_neg hne]
      obtain ⟨-, -, hslice⟩ := hpacked.placed i hi _ hmove
      rw [Nat.sub_self, replicate_zero, append_nil] at hslice
      exact hslice

/-- The array of symbols need not be moved, or there is memory for a larger one. -/
def SymsRoom (map : XkbClientMapRec) (needed : ℕ) (ok : Bool) : Prop :=
  map.num_syms + needed ≤ map.size_syms ∨ ok = true ∧ map.size_syms + max needed 32 < 2 ^ 16

/-- **The symbols of a key get room.** -/
theorem XkbResizeKeySyms_spec (hmap : xkb.map = some map) (h : SymsOk xkb.keys map) (hm : map.key_sym_map = some m)
    (hsyms : map.syms = some syms) (hkey : key ∈ xkb.keys) (hpos : 0 < needed) {ok : Bool}
    (hroom : symsLen m key < needed → SymsRoom map needed ok) :
    ∃ map' m' syms' p, XkbResizeKeySyms xkb key needed ok = .ok (xkb.setMap map', some p) ∧
      SymsMoved xkb.keys key needed p map map' m m' syms syms' := by
  unfold XkbResizeKeySyms
  rw [hmap, deref_some, ok_bind, hm, deref_some, ok_bind]
  dsimp only
  rw [if_neg (by omega)]
  by_cases hold : needed ≤ (m key).numSyms
  · -- the block is large enough
    rw [if_pos hold]
    have hsame : xkb.setMap map = xkb := by
      unfold XkbDescRec.setMap
      rw [← hmap]
    refine ⟨map, m, syms, (m key).offset, ?_, hm, hsyms, h.sized, rfl, ?_, fun _ => rfl, fun _ _ _ => rfl, rfl, rfl, rfl⟩
    · rw [hsame]
      rfl
    · have hmax : max needed (symsLen m key) = symsLen m key := max_eq_right hold
      rw [hmax, update_eq_self]
      exact h.laid m hm
  rw [if_neg hold]
  have hlt : symsLen m key < needed := Nat.lt_of_not_le hold
  have hfits := h.sized.fits
  have hsmall := h.sized.small
  by_cases happend : map.num_syms + needed ≤ map.size_syms
  · rw [if_pos ((roomFor_iff hfits hsmall).2 happend), hsyms, deref_some, ok_bind]
    obtain ⟨syms', hrun, hmoved⟩ := appendSyms_spec h hm hsyms hkey hlt happend
    have hmod : (map.num_syms + needed) % 2 ^ 16 = map.num_syms + needed := Nat.mod_eq_of_lt (by omega)
    rw [hmod]
    refine ⟨{ map with
      syms := some syms'
      num_syms := map.num_syms + needed
      key_sym_map := some (Function.update m key (setOffset (m key) map.num_syms)) }, _, syms', map.num_syms, ?_,
      hmoved _ rfl rfl rfl rfl rfl rfl rfl⟩
    simp only [← bind_assoc] at hrun ⊢
    rw [hrun]
    rfl
  · rw [if_neg fun hr => happend ((roomFor_iff hfits hsmall).1 hr)]
    obtain ⟨rfl, hsize⟩ := (hroom hlt).resolve_left happend
    have hif : (if needed > 32 then needed else 32) = max needed 32 := by
      split <;> omega
    rw [hif, Nat.mod_eq_of_lt hsize, hsyms]
    obtain ⟨syms', n, offs, hrun, hn, hmoved⟩ := repackSyms_spec h (nodup_keys xkb) hm hsyms hkey hlt
      (show map.num_syms + needed ≤ map.size_syms + max needed 32 by omega) hsize
    refine ⟨{ map with
      size_syms := map.size_syms + max needed 32
      syms := some syms'
      num_syms := n
      key_sym_map := some fun i => setOffset (m i) (offs i) }, _, syms', offs key, ?_, hmoved _ rfl rfl rfl rfl rfl rfl rfl⟩
    simp only [calloc, if_true, Option.getD_some]
    simp only [← bind_assoc] at hrun ⊢
    rw [hrun, ok_bind]
    rw [Nat.mod_eq_of_lt hn]
    rfl

/-! ### The actions of one key move -/

/-- What `XkbResizeKeyActions` leaves: the key has a block for `needed` actions at `p`. -/
structure ActsMoved (keys : List ℕ) (m : ℕ → XkbSymMapRec) (key needed p : ℕ) (server server' : XkbServerMapRec)
    (a a' : ℕ → ℕ) (acts acts' : List XkbAction) : Prop where
  keyActs : server'.key_acts = some a'
  cells : server'.acts = some acts'
  sized : Sized server'.acts server'.size_acts server'.num_acts
  at_p : a' key = p
  laid : Laid keys a' (Function.update (actsLen m a) key (max needed (actsLen m a key))) server'.num_acts
  others : ∀ i ∈ keys, i ≠ key →
    slice acts' (a' i) (actsLen m a i) = slice acts (a i) (actsLen m a i) ∧ (a' i = 0 ↔ a i = 0)
  rest : server'.behaviors = server.behaviors ∧ server'.explicit = server.explicit ∧ server'.vmods = server.vmods ∧
    server'.vmodmap = server.vmodmap

theorem actsMove_total (m : ℕ → XkbSymMapRec) (a : ℕ → ℕ) (key needed i : ℕ) :
    Move.total (actsMove m a key needed) i = if i = key then needed else actsLen m a i := by
  unfold Move.total actsMove actsLen numActions
  by_cases hi : i = key
  · rw [if_neg fun h => h.2 hi]
    simp only [Option.elim, if_pos hi]
  · by_cases hzero : a i = 0
    · rw [if_pos ⟨hzero, hi⟩, if_neg hi, if_pos hzero]
      rfl
    · have hne : a i ≠ 0 := hzero
      rw [if_neg fun h => hzero h.1]
      simp only [Option.elim, if_neg hzero, if_pos hne]

/-- The actions of all keys are laid out anew. -/
theorem repackActs_spec (h : ActsOk keys m server) (hnodup : keys.Nodup) (ha : server.key_acts = some a)
    (hacts : server.acts = some acts) (hkey : key ∈ keys) (hpos : 0 < needed) (hold : actsLen m a key < needed)
    (hroom : server.num_acts + needed ≤ size) (hsize : size < 2 ^ 16) :
    ∃ acts' n offs, (do
        let newActs ← poke (replicate size ({} : XkbAction)) 0 [{}]
        pack acts {} (2 ^ 16) (actsMove m a key needed) keys newActs 1 a) = .ok (acts', n, offs) ∧
      n < 2 ^ 16 ∧
      ∀ server', server'.key_acts = some offs → server'.acts = some acts' →
        server'.size_acts = size → server'.num_acts = n → server'.behaviors = server.behaviors →
        server'.explicit = server.explicit → server'.vmods = server.vmods → server'.vmodmap = server.vmodmap →
        ActsMoved keys m key needed (offs key) server server' a offs acts acts' := by
  have hlaid := h.laid a ha
  have hsized := h.sized
  rw [hacts] at hsized
  have hlen := hsized.length
  have hfits := hsized.fits
  have hone := hsized.first rfl
  have hread : ∀ i ∈ keys, ∀ move, actsMove m a key needed i = some move →
      (move.copy = 0 ∨ move.src + move.copy ≤ acts.length) ∧ move.copy ≤ move.size := by
    intro i hi move hmove
    unfold actsMove numActions at hmove
    dsimp only at hmove
    split at hmove
    · cases hmove
    next hnot =>
    cases hmove
    have hin : a i ≠ 0 → (m i).numSyms = 0 ∨ a i + (m i).numSyms ≤ acts.length := by
      intro hne
      rcases eq_zero_or_pos (m i).numSyms with hzero | hlt
      · exact .inl hzero
      · have hact : actsLen m a i = (m i).numSyms := if_neg hne
        have := hlaid.inside i hi (by omega)
        omega
    by_cases heq : i = key
    · subst heq
      simp only [if_true]
      by_cases hne : a i = 0
      · -- a key without actions has the action in cell 0
        rw [if_neg (not_not.2 hne)]
        omega
      · rw [if_pos hne]
        omega
    · simp only [if_neg heq]
      have hne : a i ≠ 0 := fun hzero => hnot ⟨hzero, heq⟩
      rw [if_pos hne]
      exact ⟨hin hne, le_rfl⟩
  obtain ⟨acts', n, offs, hrun, hn, hsized', hlaid', hpacked⟩ :=
    repack_spec {} hsized hlaid hnodup hold hroom hsize (actsMove_total m a key needed) hread
  refine ⟨acts', n, offs, hrun, hn, fun server' ha' hacts' hsize' hnum hb he hv hm => ?_⟩
  refine ⟨ha', hacts', ?_, rfl, ?_, fun i hi hne => ?_, hb, he, hv, hm⟩
  · rw [hacts', hsize', hnum]
    exact hsized'
  · rw [hnum]
    exact hlaid'
  · by_cases hzero : a i = 0
    · have hnone : actsMove m a key needed i = none := if_pos ⟨hzero, hne⟩
      have hact : actsLen m a i = 0 := if_pos hzero
      rw [hact, hpacked.kept i (.inr hnone)]
      exact ⟨rfl, .rfl⟩
    · have hmove : actsMove m a key needed i = some ⟨a i, (m i).numSyms, (m i).numSyms⟩ := by
        unfold actsMove numActions
        rw [if_neg fun h => hzero h.1, if_neg hne, if_neg hne, if_pos hzero]
      have hact : actsLen m a i = (m i).numSyms := if_neg hzero
      obtain ⟨hle, -, hslice⟩ := hpacked.placed i hi _ hmove
      rw [Nat.sub_self, replicate_zero, append_nil] at hslice
      rw [hact]
      exact ⟨hslice, by omega⟩

/-- The array of actions need not be moved, or there is memory for a larger one. -/
def ActsRoom (server : XkbServerMapRec) (needed : ℕ) (ok : Bool) : Prop :=
  server.num_acts + needed ≤ server.size_acts ∨ ok = true ∧ server.num_acts + needed + 8 < 2 ^ 16

/-- **The actions of a key get room.** -/
theorem XkbResizeKeyActions_spec (hmap : xkb.map = some map) (hm : map.key_sym_map = some m)
    (hserver : xkb.server = some server) (h : ActsOk xkb.keys m server) (ha : server.key_acts = some a)
    (hkey : key ∈ xkb.keys) (hpos : 0 < needed) {ok : Bool}
    (hroom : a key = 0 ∨ actsLen m a key < needed → ActsRoom server needed ok) :
    ∃ server' a' acts acts' p, XkbResizeKeyActions xkb key needed ok = .ok (xkb.setServer server', some p) ∧ 0 < p ∧
      server.acts = some acts ∧ ActsMoved xkb.keys m key needed p server server' a a' acts acts' := by
  obtain ⟨acts, hacts⟩ := Option.isSome_iff_exists.1 (h.there (by rw [ha]; rfl))
  have hlaid := h.laid a ha
  unfold XkbResizeKeyActions
  rw [hserver, deref_some, ok_bind, ha, deref_some, ok_bind]
  rw [if_neg (by omega), hmap, deref_some, ok_bind, hm, deref_some, ok_bind]
  have hfits := h.sized.fits
  have hsmall := h.sized.small
  have hone := h.sized.first (by rw [hacts]; rfl)
  by_cases hold : a key ≠ 0 ∧ needed ≤ (m key).numSyms
  · rw [if_pos hold]
    have hsame : xkb.setServer server = xkb := by
      unfold XkbDescRec.setServer
      rw [← hserver]
    have hlen : actsLen m a key = (m key).numSyms := if_neg hold.1
    refine ⟨server, a, acts, acts, a key, ?_, pos_of_ne_zero hold.1, hacts, ha, hacts, h.sized, rfl, ?_,
      fun _ _ _ => ⟨rfl, .rfl⟩, rfl, rfl, rfl, rfl⟩
    · rw [hsame]
      rfl
    · rw [max_eq_right (by omega), update_eq_self]
      exact hlaid
  rw [if_neg hold]
  have hlt : actsLen m a key < needed := by
    unfold actsLen
    split
    · exact hpos
    · next hne => exact Nat.lt_of_not_le fun hle => hold ⟨hne, hle⟩
  by_cases happend : server.num_acts + needed ≤ server.size_acts
  · -- the block is behind the others; what it holds is not copied
    rw [if_pos ((roomFor_iff hfits hsmall).2 happend)]
    have hmod : (server.num_acts + needed) % 2 ^ 16 = server.num_acts + needed := Nat.mod_eq_of_lt (by omega)
    rw [hmod]
    refine ⟨_, update a key server.num_acts, acts, acts, server.num_acts, rfl, by omega, hacts, rfl, hacts, ?_,
      update_self .., ?_, fun i hi hne => ?_, rfl, rfl, rfl, rfl⟩
    · exact ⟨h.sized.allocated, happend, hsmall, fun _ => by dsimp only; omega⟩
    · refine hlaid.append hone (fun i _ hne => ?_) ?_
      · rw [update_of_ne hne]
      · rw [update_self]
        exact max_le le_rfl (le_of_lt hlt)
    · rw [update_of_ne hne]
      exact ⟨rfl, .rfl⟩
  · rw [if_neg fun hr => happend ((roomFor_iff hfits hsmall).1 hr)]
    obtain ⟨rfl, hsize⟩ := (hroom (.inr hlt)).resolve_left happend
    rw [Nat.mod_eq_of_lt hsize, hacts]
    obtain ⟨acts', n, offs, hrun, hn, hmoved⟩ := repackActs_spec h (nodup_keys xkb) ha hacts hkey hpos hlt
      (show server.num_acts + needed ≤ server.num_acts + needed + 8 by omega) hsize
    have hdone := hmoved { server with
      size_acts := server.num_acts + needed + 8
      acts := some acts'
      num_acts := n
      key_acts := some offs } rfl rfl rfl rfl rfl rfl rfl rfl
    refine ⟨_, offs, acts, acts', offs key, ?_, ?_, rfl, hdone⟩
    · simp only [calloc, if_true, Option.getD_some]
      simp only [← bind_assoc] at hrun ⊢
      rw [hrun, ok_bind]
      rw [Nat.mod_eq_of_lt hn]
      rfl
    · have := hdone.laid.inside key hkey (by rw [update_self]; omega)
      omega

end Xenia.Xext.Xkb
