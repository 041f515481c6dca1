import Xenia.Xext.XkbState

/-!
# The types of keys

`changeTypesOfKey_inv`: when a key gets other types, its symbols and actions move to where they have
room, and the other keys are kept. `resizeKeyType_inv`: when a type gets more levels, the symbols of all
keys are laid out anew.
-/

namespace Xenia.Xext.Xkb

open Xenia.Lib List Function

variable {α : Type} {xkb xkb' : XkbDescRec} {map map' : XkbClientMapRec} {server server' : XkbServerMapRec}
  {m m' : ℕ → XkbSymMapRec} {a a' : ℕ → ℕ} {keys is : List ℕ} {key needed i p width oldWidth nGroups w t : ℕ}
  {r : XkbSymMapRec} {syms syms' : List KeySym} {acts acts' : List XkbAction} {newTypes : ℕ → ℕ}
  {types : List XkbKeyTypeRec} {answers : TypesAnswers} {cells old xs : List α} {nCopy : ℕ → Outcome ℕ}

/-! ### The levels that are copied -/

theorem stackCopy_spec (junk : ℕ → α) (h : xs.length ≤ XkbMaxSymsPerKey) :
    ∃ ys, stackCopy junk xs = .ok ys ∧ ys.length = XkbMaxSymsPerKey := by
  refine ⟨_, if_pos h, ?_⟩
  rw [length_append, length_map, length_range]
  omega

/-- The block of the key is written to, and nothing else. -/
theorem copyLevels_spec (hn : ∀ i ∈ is, ∃ n, nCopy i = .ok n ∧ n ≤ width ∧ i * oldWidth + n ≤ old.length)
    (hi : ∀ i ∈ is, i < nGroups) (hcells : p + width * nGroups ≤ cells.length) :
    ∃ cells', copyLevels old p width oldWidth nCopy is cells = .ok cells' ∧
      Confined p (p + width * nGroups) cells cells' := by
  induction is generalizing cells with
  | nil => exact ⟨cells, rfl, .refl ..⟩
  | cons i is ih =>
    obtain ⟨n, hcopy, hwidth, hold⟩ := hn i mem_cons_self
    have hgroup : (i + 1) * width ≤ width * nGroups := by
      rw [Nat.mul_comm width]
      exact Nat.mul_le_mul_right width (hi i mem_cons_self)
    rw [Nat.add_mul] at hgroup
    have hblock : (slice old (i * oldWidth) n).length = n := length_slice hold
    obtain ⟨cells₁, hpoke, hc⟩ : ∃ cells₁, poke cells (p + i * width) (slice old (i * oldWidth) n) = .ok cells₁ ∧
        Confined p (p + width * nGroups) cells cells₁ := poke_confined (by omega) (by omega) hcells
    obtain ⟨cells', hrun, hc'⟩ := ih (fun j hj => hn j (.tail _ hj)) (fun j hj => hi j (.tail _ hj))
      (by rw [hc.length]; exact hcells)
    refine ⟨cells', ?_, hc.trans hc'⟩
    rw [copyLevels, hcopy, ok_bind, peek_eq hold, ok_bind, hpoke]
    exact hrun

/-! ### The levels of types -/

def levelsOf (map : XkbClientMapRec) (t : ℕ) : ℕ := ((map.types.getD [])[t]?).elim 0 XkbKeyTypeRec.num_levels

/-- The number of levels of the widest type. -/
def widest (map : XkbClientMapRec) (newTypes : ℕ → ℕ) (is : List ℕ) (w : ℕ) : ℕ :=
  is.foldl (fun w i => max w (levelsOf map (newTypes i))) w

/-- A type in use is in the array, with between 1 and 63 levels. -/
theorem TypesOk.get (h : TypesOk map) (ht : t < map.num_types) : ∃ types type, map.types = some types ∧ types[t]? = some type ∧
    type.num_levels = levelsOf map t ∧ 1 ≤ levelsOf map t ∧ levelsOf map t ≤ XkbMaxShiftLevel := by
  have hused := h.used
  have hlen := h.allocated
  cases htypes : map.types with
  | none =>
    rw [htypes] at hlen
    simp only [Option.elim] at hlen
    omega
  | some types =>
    rw [htypes] at hlen
    simp only [Option.elim] at hlen
    have hlt : t < types.length := by omega
    have hget : types[t]? = some types[t] := List.getElem?_eq_getElem hlt
    have hlevels : (types[t]).num_levels = levelsOf map t := by
      unfold levelsOf
      rw [htypes, Option.getD_some, hget]
      rfl
    refine ⟨types, types[t], rfl, hget, hlevels, ?_⟩
    rw [← hlevels]
    exact h.levels types htypes t _ ht hget

theorem le_widest (map : XkbClientMapRec) (newTypes : ℕ → ℕ) (is : List ℕ) (w : ℕ) : w ≤ widest map newTypes is w := by
  induction is generalizing w with
  | nil => exact le_rfl
  | cons i is ih => exact (le_max_left _ _).trans (ih _)

theorem levelsOf_le_widest (hi : i ∈ is) : levelsOf map (newTypes i) ≤ widest map newTypes is w := by
  induction is generalizing w with
  | nil => cases hi
  | cons j is ih =>
    rcases mem_cons.1 hi with rfl | hi
    · exact (le_max_right _ _).trans (le_widest ..)
    · exact ih hi

theorem widest_le {n : ℕ} (h : ∀ i ∈ is, levelsOf map (newTypes i) ≤ n) (hw : w ≤ n) : widest map newTypes is w ≤ n := by
  induction is generalizing w with
  | nil => exact hw
  | cons i is ih => exact ih (fun j hj => h j (.tail _ hj)) (max_le hw (h i mem_cons_self))

/-- The call is refused, or every type is one in use. -/
theorem widthLoop_spec (h : TypesOk map) (hne : ∀ i ∈ is, newTypes i ≠ map.num_types) :
    widthLoop map newTypes is w = .ok none ∨
      widthLoop map newTypes is w = .ok (some (widest map newTypes is w)) ∧ ∀ i ∈ is, newTypes i < map.num_types := by
  induction is generalizing w with
  | nil => exact .inr ⟨rfl, fun _ hi => by cases hi⟩
  | cons i is ih =>
    have hi := hne i mem_cons_self
    rw [widthLoop]
    by_cases hgt : newTypes i > map.num_types
    · exact .inl (if_pos hgt)
    · have hlt : newTypes i < map.num_types := by omega
      obtain ⟨types, type, htypes, hget, hlevels, -⟩ := h.get hlt
      rw [if_neg hgt, htypes, deref_some, ok_bind, hget, deref_some, ok_bind, hlevels]
      refine (ih fun j hj => hne j (.tail _ hj)).imp_right fun ⟨hrun, hall⟩ => ⟨hrun, fun j hj => ?_⟩
      rcases mem_cons.1 hj with rfl | hj
      · exact hlt
      · exact hall j hj

theorem copiedLevels_spec (h : TypesOk map) (hold : r.keyTypeIndex i < map.num_types) (hnew : newTypes i < map.num_types) :
    ∃ n, copiedLevels map r newTypes i = .ok n ∧ n ≤ levelsOf map (newTypes i) ∧ n ≤ XkbMaxShiftLevel := by
  obtain ⟨types, oldType, htypes, hget, hlevels, -, hle⟩ := h.get hold
  obtain ⟨types', newType, htypes', hget', hlevels', -, hle'⟩ := h.get hnew
  rw [htypes] at htypes'
  cases htypes'
  refine ⟨if newType.num_levels > oldType.num_levels then oldType.num_levels else newType.num_levels, ?_, ?_⟩
  · unfold copiedLevels
    rw [htypes, deref_some, ok_bind, hget, deref_some, hget', deref_some]
    rfl
  · split <;> omega

/-! ### The symbols and actions of a key with groups -/

/-- What the levels that are copied back need. -/
theorem copiedLevels_fits (ht : TypesOk map) (hshaped : Shaped r) (hnew : ∀ i < nGroups, newTypes i < map.num_types)
    (hwidth : ∀ i < nGroups, levelsOf map (newTypes i) ≤ width)
    (holdTypes : ∀ i < nGroups, i < r.numGroups → r.keyTypeIndex i < map.num_types) (hold : old.length = XkbMaxSymsPerKey) :
    ∀ i ∈ List.range (min nGroups r.numGroups), ∃ n, copiedLevels map r newTypes i = .ok n ∧ n ≤ width ∧
      i * r.width + n ≤ old.length := by
  intro i hi
  have hlt := mem_range.1 hi
  obtain ⟨n, hrun, hle, hmax⟩ :=
    copiedLevels_spec ht (holdTypes i (by omega) (by omega)) (hnew i (by omega))
  refine ⟨n, hrun, hle.trans (hwidth i (by omega)), ?_⟩
  -- group i of the old symbols starts before the last 63 cells of the local array
  have hgroups := hshaped.groups
  have hfirst : i * r.width ≤ 3 * XkbMaxShiftLevel :=
    Nat.mul_le_mul (by unfold XkbNumKbdGroups at hgroups; omega) hshaped.width
  rw [hold]
  unfold XkbMaxSymsPerKey XkbNumKbdGroups
  omega

theorem resizeSyms_spec (hmap : xkb.map = some map) (h : SymsOk xkb.keys map) (ht : TypesOk map)
    (hm : map.key_sym_map = some m) (hsyms : map.syms = some syms) (hkey : key ∈ xkb.keys) (hshaped : Shaped (m key))
    (hpos : 0 < width * nGroups) (hnew : ∀ i < nGroups, newTypes i < map.num_types)
    (hwidth : ∀ i < nGroups, levelsOf map (newTypes i) ≤ width)
    (hold : ∀ i < nGroups, i < (m key).numGroups → (m key).keyTypeIndex i < map.num_types)
    (hroom : (m key).numSyms < width * nGroups → SymsRoom map (width * nGroups) answers.syms) :
    ∃ map' m' syms' p, resizeSyms xkb key nGroups width newTypes answers = .ok (xkb.setMap map', true) ∧
      SymsMoved xkb.keys key (width * nGroups) p map map' m m' syms syms' := by
  have hlaid := h.laid m hm
  have hsized := h.sized
  rw [hsyms] at hsized
  have hlen := hsized.length
  have hfits := hsized.fits
  have hin : (m key).numSyms = 0 ∨ (m key).offset + (m key).numSyms ≤ syms.length := by
    rcases Nat.eq_zero_or_pos (symsLen m key) with hzero | hlt
    · exact .inl hzero
    · have := hlaid.inside key hkey hlt
      unfold symsAt symsLen at this
      omega
  have hblock : (slice syms (m key).offset (m key).numSyms).length ≤ XkbMaxSymsPerKey := by
    refine le_trans ?_ hshaped.numSyms_le
    unfold slice
    rw [length_take]
    exact min_le_left _ _
  obtain ⟨oldSyms, hcopy, holdLen⟩ := stackCopy_spec answers.oldSyms hblock
  obtain ⟨map₁, m₁, syms₁, p, hrun, hmoved⟩ := XkbResizeKeySyms_spec hmap h hm hsyms hkey hpos hroom
  have hsized₁ := hmoved.sized
  rw [hmoved.cells] at hsized₁
  have hend : p + width * nGroups ≤ syms₁.length := by
    have := hmoved.laid.inside key hkey (by rw [update_self]; omega)
    rw [update_self, hmoved.at_p] at this
    have := hsized₁.length
    have := hsized₁.fits
    omega
  obtain ⟨syms₂, hpoke, hc⟩ : ∃ syms₂, poke syms₁ p (List.replicate (width * nGroups) NoSymbol) = .ok syms₂ ∧
      Confined p (p + width * nGroups) syms₁ syms₂ :=
    poke_confined le_rfl (by rw [length_replicate]) hend
  have ht₁ := ht.congr hmoved.types
  have hlevels : ∀ t, levelsOf map₁ t = levelsOf map t := fun t => by
    unfold levelsOf
    rw [hmoved.types.1]
  obtain ⟨syms₃, hrun₃, hc'⟩ : ∃ syms₃, copyLevels oldSyms p width (m key).width (copiedLevels map₁ (m key) newTypes)
        (List.range (min nGroups (m key).numGroups)) syms₂ = .ok syms₃ ∧ Confined p (p + width * nGroups) syms₂ syms₃ := by
    refine copyLevels_spec (copiedLevels_fits ht₁ hshaped ?_ ?_ ?_ holdLen) (fun i hi => ?_) (by rw [hc.length]; exact hend)
    · rw [hmoved.types.2.1]
      exact hnew
    · simpa only [hlevels] using hwidth
    · rw [hmoved.types.2.1]
      exact hold
    · have := mem_range.1 hi
      omega
  refine ⟨_, m₁, syms₃, p, ?_, hmoved.confined hkey (hc.trans hc')⟩
  unfold resizeSyms
  rw [hmap, deref_some, ok_bind, hm, deref_some, ok_bind, hsyms, deref_some, ok_bind]
  rw [show peek syms (m key).offset (m key).numSyms = .ok (slice syms (m key).offset (m key).numSyms) from if_pos hin,
    ok_bind, hcopy, ok_bind, hrun, ok_bind]
  dsimp only
  rw [show (xkb.setMap map₁).map = some map₁ from rfl, deref_some, ok_bind, hmoved.cells, deref_some, ok_bind, hpoke, ok_bind,
    hrun₃]
  rfl

variable (xkb answers) in
theorem resizeActs_spec (hmap : xkb.map = some map) (hm : map.key_sym_map = some m) (hserver : xkb.server = some server)
    (h : ActsOk xkb.keys m server) (ha : server.key_acts = some a) (ht : TypesOk map) (hkey : key ∈ xkb.keys)
    (hshaped : Shaped (m key)) (hpos : 0 < width * nGroups) (hnew : ∀ i < nGroups, newTypes i < map.num_types)
    (hwidth : ∀ i < nGroups, levelsOf map (newTypes i) ≤ width)
    (hold : ∀ i < nGroups, i < (m key).numGroups → (m key).keyTypeIndex i < map.num_types)
    (hroom : a key ≠ 0 → (m key).numSyms < width * nGroups → ActsRoom server (width * nGroups) answers.acts) :
    ∃ server', resizeActs xkb key nGroups width newTypes answers = .ok (xkb.setServer server', true) ∧
      (a key = 0 ∧ server' = server ∨ a key ≠ 0 ∧ ∃ a' acts acts' p, server.acts = some acts ∧
        ActsMoved xkb.keys m key (width * nGroups) p server server' a a' acts acts') := by
  unfold resizeActs
  rw [hmap, deref_some, ok_bind, hm, deref_some, ok_bind, hserver, deref_some, ok_bind, ha, deref_some, ok_bind]
  by_cases hnone : a key = 0
  · have hsame : xkb.setServer server = xkb := by
      unfold XkbDescRec.setServer
      rw [← hserver]
    rw [if_pos hnone]
    exact ⟨server, by rw [hsame]; rfl, .inl ⟨hnone, rfl⟩⟩
  have hlen : actsLen m a key = (m key).numSyms := if_neg hnone
  rw [if_neg hnone]
  obtain ⟨server₁, a₁, acts, acts₁, p, hrun, -, hacts, hmoved⟩ := XkbResizeKeyActions_spec hmap hm hserver h ha hkey hpos
    fun hlt => hroom hnone (by rw [← hlen]; exact hlt.resolve_left hnone)
  have hsized := h.sized
  rw [hacts] at hsized
  have hin : (m key).numSyms = 0 ∨ a key + (m key).numSyms ≤ acts.length := by
    rcases Nat.eq_zero_or_pos (m key).numSyms with hzero | hlt
    · exact .inl hzero
    · have := (h.laid a ha).inside key hkey (by omega)
      have := hsized.length
      have := hsized.fits
      omega
  have hblock : (slice acts (a key) (m key).numSyms).length ≤ XkbMaxSymsPerKey := by
    refine le_trans ?_ hshaped.numSyms_le
    unfold slice
    rw [length_take]
    exact min_le_left _ _
  obtain ⟨oldActs, hcopy, holdLen⟩ := stackCopy_spec answers.oldActs hblock
  have hsized₁ := hmoved.sized
  rw [hmoved.cells] at hsized₁
  have hend : p + width * nGroups ≤ acts₁.length := by
    have := hmoved.laid.inside key hkey (by rw [update_self]; omega)
    rw [update_self, hmoved.at_p] at this
    have := hsized₁.length
    have := hsized₁.fits
    omega
  obtain ⟨acts₂, hpoke, hc⟩ : ∃ acts₂, poke acts₁ p (List.replicate (width * nGroups) ({} : XkbAction)) = .ok acts₂ ∧
      Confined p (p + width * nGroups) acts₁ acts₂ :=
    poke_confined le_rfl (by rw [length_replicate]) hend
  obtain ⟨acts₃, hrun₃, hc'⟩ : ∃ acts₃, copyLevels oldActs p width (m key).width (copiedLevels map (m key) newTypes)
        (List.range (min nGroups (m key).numGroups)) acts₂ = .ok acts₃ ∧ Confined p (p + width * nGroups) acts₂ acts₃ := by
    refine copyLevels_spec (copiedLevels_fits ht hshaped hnew hwidth hold holdLen) (fun i hi => ?_)
      (by rw [hc.length]; exact hend)
    have := mem_range.1 hi
    omega
  refine ⟨_, ?_, .inr ⟨hnone, a₁, acts, acts₃, p, hacts, hmoved.confined hkey (hc.trans hc')⟩⟩
  rw [hacts, deref_some, ok_bind,
    show peek acts (a key) (m key).numSyms = .ok (slice acts (a key) (m key).numSyms) from if_pos hin, ok_bind, hcopy, ok_bind,
    hrun, ok_bind]
  dsimp only
  rw [show (xkb.setServer server₁).server = some server₁ from rfl, deref_some, ok_bind, hmoved.cells, deref_some, ok_bind,
    hpoke, ok_bind, hrun₃]
  rfl

/-! ### The record of a key -/

theorem setKeySym_eq (hmap : xkb.map = some map) (hm : map.key_sym_map = some m) (f : XkbSymMapRec → XkbSymMapRec) :
    xkb.setKeySym key f = .ok (xkb.setMap { map with key_sym_map := some (Function.update m key (f (m key))) }) := by
  unfold XkbDescRec.setKeySym
  rw [hmap, deref_some, ok_bind, hm, deref_some]
  rfl

/-- One key gets a new record, and the symbols and actions of the others are kept. -/
theorem Inv.setKey (h : Inv xkb) (hmap : xkb.map = some map) (hm : map.key_sym_map = some m)
    (hkeys : xkb'.min_key_code = xkb.min_key_code ∧ xkb'.max_key_code = xkb.max_key_code)
    (hmap' : xkb'.map = some map') (hm' : map'.key_sym_map = some (Function.update m' key r)) (hshape : SameShape m m')
    (hshaped : Shaped r) (ht : TypesOk map') (hsyms : SymsOk xkb.keys map')
    (hacts : ∀ server, xkb'.server = some server → ActsOk xkb.keys (Function.update m' key r) server)
    (hsymbols : ∀ i ∈ xkb.keys, i ≠ key → slice xkb'.allSyms (symsAt m' i) (symsLen m i) = xkb.symbols i)
    (hactions : ∀ i ∈ xkb.keys, i ≠ key → slice xkb'.allActs (xkb'.keyActs i) (actsLen m xkb'.keyActs i) = xkb.actions i) :
    Inv xkb' ∧ ∀ i ∈ xkb.keys, i ≠ key → Kept xkb xkb' i := by
  have hsame : xkb'.keys = xkb.keys := by
    unfold XkbDescRec.keys
    rw [hkeys.1, hkeys.2]
  have hsym := symMap_eq hmap hm
  have hsym' := symMap_eq hmap' hm'
  refine ⟨⟨by rw [hkeys.2]; exact h.keycodes, fun i => ?_, fun map'' hmap'' => ?_, fun map'' hmap'' => ?_,
    fun server hserver => ?_⟩, fun i hi hne => ?_⟩
  · rw [hsym']
    by_cases hi : i = key
    · rw [hi, update_self]
      exact hshaped
    · rw [update_of_ne hi]
      exact hshape.shaped (hsym ▸ h.shape i)
  · rw [hmap'] at hmap''
    cases hmap''
    exact ht
  · rw [hmap'] at hmap''
    cases hmap''
    rw [hsame]
    exact hsyms
  · rw [hsame, hsym']
    exact hacts server hserver
  · have hrec : xkb'.symMap i = m' i := by rw [hsym', update_of_ne hne]
    refine ⟨?_, ?_, ?_⟩
    · rw [← hsymbols i hi hne]
      unfold XkbDescRec.symbols symsAt symsLen
      rw [hrec, hshape.numSyms i]
    · rw [← hactions i hi hne]
      unfold XkbDescRec.actions actsLen
      rw [hrec, hshape.numSyms i]
    · rw [hrec, hsym, hshape i]
      rfl

variable {f : XkbSymMapRec → XkbSymMapRec}

/-- The record of a key changes, and the key has no more symbols than before. -/
theorem setKeySym_inv (h : Inv xkb) (hmap : xkb.map = some map) (hm : map.key_sym_map = some m) (hoff : (f (m key)).offset = (m key).offset) (hshaped : Shaped (f (m key)))
    (hle : (f (m key)).numSyms ≤ (m key).numSyms) :
    Inv (xkb.setMap { map with key_sym_map := some (Function.update m key (f (m key))) }) ∧
      ∀ i ∈ xkb.keys, i ≠ key → Kept xkb (xkb.setMap { map with key_sym_map := some (Function.update m key (f (m key))) }) i := by
  have hsym := symMap_eq hmap hm
  have hsymsOk := h.syms map hmap
  refine Inv.setKey h hmap hm ⟨rfl, rfl⟩ rfl rfl (fun _ => rfl) hshaped ((h.types map hmap).congr ⟨rfl, rfl, rfl⟩)
    ⟨hsymsOk.sized, fun m'' hm'' => ?_, fun _ => hsymsOk.there (by rw [hm]; rfl)⟩ (fun server hserver => ?_) (fun i _ _ => ?_)
    fun i _ _ => ?_
  · cases hm''
    refine (hsymsOk.laid m hm).shrink (fun i _ => ?_) fun i _ _ => ?_
    · by_cases hi : i = key
      · subst hi
        unfold symsLen
        rw [update_self]
        exact hle
      · unfold symsLen
        rw [update_of_ne hi]
    · by_cases hi : i = key
      · subst hi
        unfold symsAt
        rw [update_self, hoff]
      · unfold symsAt
        rw [update_of_ne hi]
  · exact (hsym ▸ h.acts server hserver).setKey fun _ _ => .inr hle
  · unfold XkbDescRec.symbols XkbDescRec.allSyms
    rw [hsym, hmap]
    rfl
  · unfold XkbDescRec.actions
    rw [hsym]
    rfl

theorem setNumGroups_mod {g n : ℕ} (hn : n ≤ XkbNumKbdGroups) : XkbSetNumGroups g n % 16 = n := by
  unfold XkbSetNumGroups XkbNumKbdGroups at *
  omega

/-! ### XkbChangeTypesOfKey -/

/-- The symbols that the key is to have. -/
def neededSyms (map : XkbClientMapRec) (r : XkbSymMapRec) (nGroups groups : ℕ) (newTypesIn : ℕ → ℕ) : ℕ :=
  widest map (newType r groups newTypesIn) (List.range nGroups) 0 * nGroups

/-- The number of groups of the key or its width changes. -/
def Retyped (map : XkbClientMapRec) (r : XkbSymMapRec) (nGroups groups : ℕ) (newTypesIn : ℕ → ℕ) : Prop :=
  widest map (newType r groups newTypesIn) (List.range nGroups) 0 ≠ r.width ∨ nGroups ≠ r.numGroups

/-- The types are in use, a key without groups has no actions, and there is room. -/
structure TypesFit (map : XkbClientMapRec) (server : XkbServerMapRec) (m : ℕ → XkbSymMapRec) (a : ℕ → ℕ)
    (key nGroups groups : ℕ) (newTypesIn : ℕ → ℕ) (answers : TypesAnswers) : Prop where
  named : ∀ i < nGroups, newType (m key) groups newTypesIn i ≠ map.num_types
  old : Retyped map (m key) nGroups groups newTypesIn → ∀ i < nGroups, i < (m key).numGroups →
    (m key).keyTypeIndex i < map.num_types
  actions : (m key).numGroups = 0 → a key = 0
  symsRoom : (m key).numSyms < neededSyms map (m key) nGroups groups newTypesIn →
    SymsRoom map (neededSyms map (m key) nGroups groups newTypesIn) answers.syms
  actsRoom : a key ≠ 0 → (m key).numSyms < neededSyms map (m key) nGroups groups newTypesIn →
    ActsRoom server (neededSyms map (m key) nGroups groups newTypesIn) answers.acts

/-- The controls do not matter. -/
theorem Inv.setCtrls (h : Inv xkb) (ctrls : Option XkbControlsRec) : Inv { xkb with ctrls } :=
  ⟨h.keycodes, h.shape, h.types, h.syms, h.acts⟩

/-- The symbols and the actions of a key have moved, and its record changes. -/
theorem Inv.moved (h : Inv xkb) (hmap : xkb.map = some map) (hm : map.key_sym_map = some m) (hsyms : map.syms = some syms)
    (hserver : xkb.server = some server) (ha : server.key_acts = some a)
    (hmoved : SymsMoved xkb.keys key needed p map map' m m' syms syms')
    (hacts : a key = 0 ∧ server' = server ∨ a key ≠ 0 ∧ ∃ a' acts acts' p', server.acts = some acts ∧
      ActsMoved xkb.keys m' key needed p' server server' a a' acts acts')
    (hoff : r.offset = p) (hshaped : Shaped r) (hlen : r.numSyms = needed) (map'' : XkbClientMapRec)
    (hmap'' : map'' = { map' with key_sym_map := some (Function.update m' key r) }) :
    Inv ((xkb.setMap map'').setServer server') ∧
      ∀ i ∈ xkb.keys, i ≠ key → Kept xkb ((xkb.setMap map'').setServer server') i := by
  have hsym := symMap_eq hmap hm
  have hactsOk : ActsOk xkb.keys m' server := (hsym ▸ h.acts server hserver).congr hmoved.shape.numSyms
  have hsymsOk := hmoved.setKey hoff (by omega : r.numSyms ≤ max needed (m key).numSyms)
  subst hmap''
  refine Inv.setKey h hmap hm ⟨rfl, rfl⟩ rfl rfl hmoved.shape hshaped ((h.types map hmap).congr hmoved.types) hsymsOk
    (fun server'' hserver'' => ?_) (fun i hi hne => ?_) fun i hi hne => ?_
  · cases hserver''
    rcases hacts with ⟨hnone, rfl⟩ | ⟨-, a', acts, acts', p', -, hmoved'⟩
    · refine hactsOk.setKey fun a'' ha'' => .inl ?_
      rw [ha] at ha''
      cases ha''
      exact hnone
    · exact hmoved'.setKey (by omega)
  · unfold XkbDescRec.symbols
    rw [hsym, allSyms_eq hmap hsyms]
    have hcells : ((xkb.setMap { map' with key_sym_map := some (Function.update m' key r) }).setServer server').allSyms = syms' :=
      show ((xkb.setMap _).setServer server').allSyms = _ from allSyms_eq rfl hmoved.cells
    rw [hcells]
    exact hmoved.others i hi hne
  · unfold XkbDescRec.actions
    rw [hsym, keyActs_eq hserver ha]
    rcases hacts with ⟨-, rfl⟩ | ⟨-, a', acts, acts', p', hacts, hmoved'⟩
    · rw [show ((xkb.setMap _).setServer server').keyActs = _ from keyActs_eq rfl ha]
      unfold XkbDescRec.allActs
      rw [hserver]
      rfl
    · rw [show ((xkb.setMap _).setServer server').keyActs = _ from keyActs_eq rfl hmoved'.keyActs,
        show ((xkb.setMap _).setServer server').allActs = _ from allActs_eq rfl hmoved'.cells, allActs_eq hserver hacts,
        ← hmoved.shape.actsLen a', ← hmoved.shape.actsLen a]
      exact hmoved'.actions hi hne

/-- A key without groups: its symbols and actions go. -/
theorem noGroups_inv (h : Inv xkb) (hmap : xkb.map = some map) (hm : map.key_sym_map = some m)
    (hserver : xkb.server = some server) (ha : server.key_acts = some a) (hkey : key ∈ xkb.keys) (hoff : (f (m key)).offset = (m key).offset) (hshaped : Shaped (f (m key)))
    (hzero : (f (m key)).numSyms = 0) (answers : TypesAnswers) :
    ∃ xkb₁ xkb₂ xkb₃ p₂ p₃, xkb.setKeySym key f = .ok xkb₁ ∧ XkbResizeKeySyms xkb₁ key 0 answers.syms = .ok (xkb₂, p₂) ∧
      XkbResizeKeyActions xkb₂ key 0 answers.acts = .ok (xkb₃, p₃) ∧ Inv xkb₃ ∧
      ∀ i ∈ xkb.keys, i ≠ key → Kept xkb xkb₃ i := by
  obtain ⟨h₁, hkept₁⟩ := setKeySym_inv h hmap hm hoff hshaped (by omega)
  obtain ⟨map₁, hmap₁⟩ : ∃ map₁, map₁ = { map with key_sym_map := some (Function.update m key (f (m key))) } := ⟨_, rfl⟩
  rw [← hmap₁] at h₁ hkept₁
  have hm₁ : map₁.key_sym_map = some (Function.update m key (f (m key))) := by rw [hmap₁]
  obtain ⟨map₂, m₂, p₂, hrun₂, hm₂, h₂, hkept₂⟩ := resizeKeySyms_inv 0 answers.syms h₁ rfl hm₁ hkey
    (fun _ => by rw [update_self]; exact hzero) (fun hlt => absurd hlt (Nat.not_lt_zero _))
  obtain ⟨xkb₃, p₃, hrun₃, h₃, hkept₃⟩ := resizeKeyActions_inv 0 answers.acts h₂ rfl hm₂ hserver ha hkey
    (.inl rfl) (fun hlt => absurd hlt (Nat.lt_irrefl 0))
  refine ⟨_, _, xkb₃, p₂, p₃, ?_, hrun₂, hrun₃, h₃, fun i hi hne => ?_⟩
  · rw [setKeySym_eq hmap hm, ← hmap₁]
  · exact ((hkept₁ i hi hne).trans (hkept₂ i hi hne)).trans (hkept₃ i hi hne)

variable {groups : ℕ}

theorem newTypes_pos (ht : TypesOk map) {newTypesIn : ℕ → ℕ} (hpos : 0 < nGroups)
    (hnew : ∀ i ∈ List.range nGroups, newType r groups newTypesIn i < map.num_types) :
    0 < neededSyms map r nGroups groups newTypesIn := by
  have hzero : 0 ∈ List.range nGroups := mem_range.2 hpos
  obtain ⟨-, -, -, -, -, hone, -⟩ := ht.get (hnew 0 hzero)
  have hle : levelsOf map (newType r groups newTypesIn 0) ≤ widest map (newType r groups newTypesIn) (List.range nGroups) 0 :=
    levelsOf_le_widest hzero
  exact Nat.mul_pos (by omega) hpos

variable (nGroups answers) in
/-- **A key gets other types.** -/
theorem changeTypesOfKey_inv (h : Inv xkb) (hmap : xkb.map = some map) (hm : map.key_sym_map = some m)
    (hserver : xkb.server = some server) (ha : server.key_acts = some a) (hkey : key ∈ xkb.keys) (groups : ℕ)
    (newTypesIn : Option (ℕ → ℕ))
    (hfit : ∀ types, newTypesIn = some types → nGroups ≠ 0 → groups % 16 ≠ 0 → nGroups ≤ XkbNumKbdGroups →
      TypesFit map server m a key nGroups groups types answers) (changes : Option XkbMapChangesRec) :
    ∃ xkb' changes' status, XkbChangeTypesOfKey xkb key nGroups groups newTypesIn changes answers =
        .ok (xkb', changes', status) ∧ Inv xkb' ∧ ∀ i ∈ xkb.keys, i ≠ key → Kept xkb xkb' i := by
  have ht := h.types map hmap
  have hsymsOk := h.syms map hmap
  have hsym := symMap_eq hmap hm
  have hshaped : Shaped (m key) := hsym ▸ h.shape key
  obtain ⟨syms, hsyms⟩ := Option.isSome_iff_exists.1 (hsymsOk.there (by rw [hm]; rfl))
  have hrefused : ∀ status : Status, ∃ xkb' changes' status', (.ok (xkb, changes, status) : Outcome _) =
      .ok (xkb', changes', status') ∧ Inv xkb' ∧ ∀ i ∈ xkb.keys, i ≠ key → Kept xkb xkb' i :=
    fun status => ⟨_, _, _, rfl, h, fun i _ _ => .refl xkb i⟩
  unfold XkbChangeTypesOfKey
  rw [hmap]
  cases hin : newTypesIn with
  | none => exact hrefused _
  | some typesIn =>
  dsimp only
  by_cases hbad : key < xkb.min_key_code ∨ key > xkb.max_key_code ∨ map.types.isNone ∨ groups % 16 = 0 ∨ nGroups > XkbNumKbdGroups
  · rw [if_pos hbad]
    exact hrefused _
  rw [if_neg hbad]
  push Not at hbad
  obtain ⟨-, -, htypes, hgroups, hmax⟩ := hbad
  by_cases hnone : nGroups = 0
  · rw [if_pos hnone]
    have hmod : XkbSetNumGroups (m key).group_info 0 % 16 = 0 := setNumGroups_mod (Nat.zero_le _)
    obtain ⟨xkb₁, xkb₂, xkb₃, p₂, p₃, hrun₁, hrun₂, hrun₃, hinv, hkept⟩ := noGroups_inv h hmap hm hserver ha hkey
      (f := fun r => { r with kt_index := fun _ => XkbOneLevelIndex, group_info := XkbSetNumGroups r.group_info 0 }) rfl
      ⟨hmod.le.trans (Nat.zero_le _), hshaped.width⟩
      (by unfold XkbSymMapRec.numSyms XkbSymMapRec.numGroups; dsimp only; rw [hmod, Nat.mul_zero]) answers
    exact ⟨xkb₃, changes, .Success, by rw [hrun₁, ok_bind, hrun₂, ok_bind, hrun₃]; rfl, hinv, hkept⟩
  rw [if_neg hnone, hm, deref_some, ok_bind]
  have hfits := hfit typesIn hin hnone hgroups hmax
  rcases widthLoop_spec (w := 0) ht (fun i hi => hfits.named i (mem_range.1 hi)) with hloop | ⟨hloop, hnew⟩
  · rw [hloop]
    exact hrefused _
  rw [hloop, ok_bind]
  dsimp only
  obtain ⟨width, hwidth⟩ : ∃ width, width = widest map (newType (m key) groups typesIn) (List.range nGroups) 0 := ⟨_, rfl⟩
  rw [← hwidth]
  have hneeded : neededSyms map (m key) nGroups groups typesIn = width * nGroups := by rw [hwidth]; rfl
  have hpos : 0 < width * nGroups := hneeded ▸ newTypes_pos ht (Nat.pos_of_ne_zero hnone) hnew
  have hwide : width ≤ XkbMaxShiftLevel := by
    rw [hwidth]
    refine widest_le (fun i hi => ?_) (Nat.zero_le _)
    obtain ⟨-, -, -, -, -, -, hle⟩ := ht.get (hnew i hi)
    exact hle
  have hmodw : width % 256 = width := Nat.mod_eq_of_lt (by unfold XkbMaxShiftLevel at hwide; omega)
  have hlevels : ∀ i < nGroups, levelsOf map (newType (m key) groups typesIn i) ≤ width := fun i hi => by
    rw [hwidth]
    exact levelsOf_le_widest (mem_range.2 hi)
  rw [← hmap]
  obtain ⟨xkb₀, hxkb₀⟩ : ∃ xkb₀, xkb₀ = { xkb with ctrls := xkb.ctrls.map fun ctrls : XkbControlsRec =>
    if nGroups > ctrls.num_groups then { ctrls with num_groups := nGroups } else ctrls } := ⟨_, rfl⟩
  rw [← hxkb₀]
  have h₀ : Inv xkb₀ := hxkb₀ ▸ h.setCtrls _
  have hmap₀ : xkb₀.map = some map := by rw [hxkb₀]; exact hmap
  have hserver₀ : xkb₀.server = some server := by rw [hxkb₀]; exact hserver
  have hkey₀ : key ∈ xkb₀.keys := by rw [hxkb₀]; exact hkey
  have hkept₀ : ∀ {xkb'}, (∀ i ∈ xkb₀.keys, i ≠ key → Kept xkb₀ xkb' i) → ∀ i ∈ xkb.keys, i ≠ key → Kept xkb xkb' i := by
    intro xkb' hk i hi hne
    have := hk i (by rw [hxkb₀]; exact hi) hne
    rw [hxkb₀] at this
    exact ⟨this.symbols, this.actions, this.shape⟩
  have hsame : ∀ map', (xkb₀.setMap map').setServer server = xkb₀.setMap map' := fun map' => by
    unfold XkbDescRec.setServer XkbDescRec.setMap
    rw [← hserver₀]
  have hsyms₀ : SymsOk xkb₀.keys map := h₀.syms map hmap₀
  have hroom := hfits.symsRoom
  rw [hneeded] at hroom
  by_cases hchanged : width ≠ (m key).width ∨ nGroups ≠ (m key).numGroups
  · have hretyped : Retyped map (m key) nGroups groups typesIn := by
      unfold Retyped
      rw [← hwidth]
      exact hchanged
    -- the record that the key has in the end
    have hend : ∀ (m' : ℕ → XkbSymMapRec) p, symsAt m' key = p → SameShape m m' → ∀ r', r'.offset = (m' key).offset →
        r'.group_info = XkbSetNumGroups (m' key).group_info nGroups → r'.width = width →
        r'.offset = p ∧ Shaped r' ∧ r'.numSyms = width * nGroups := by
      intro m' p hp hshape r' hoff hinfo hr'
      have hgroups' : r'.numGroups = nGroups := by
        unfold XkbSymMapRec.numGroups
        rw [hinfo]
        exact setNumGroups_mod hmax
      refine ⟨hoff.trans hp, ⟨by rw [hgroups']; exact hmax, by rw [hr']; exact hwide⟩, ?_⟩
      unfold XkbSymMapRec.numSyms
      rw [hgroups', hr']
    by_cases hfirst : (m key).numGroups = 0
    · -- a key without groups has neither symbols nor actions that could stay
      rw [if_pos ⟨hchanged, hfirst⟩]
      obtain ⟨map', m', syms', p, hrun, hmoved⟩ := XkbResizeKeySyms_spec hmap₀ hsyms₀ hm hsyms hkey₀ hpos hroom
      rw [hrun, ok_bind]
      rw [setKeySym_eq rfl hmoved.keyMap]
      obtain ⟨hoff, hshaped', hlen⟩ := hend m' p hmoved.at_p hmoved.shape
        ((setTypes nGroups (newType (m key) groups typesIn) ∘ setGroups nGroups width) (m' key)) rfl rfl hmodw
      obtain ⟨hinv, hkept⟩ := h₀.moved hmap₀ hm hsyms hserver₀ ha hmoved (.inl ⟨hfits.actions hfirst, rfl⟩) hoff hshaped' hlen _ rfl
      rw [hsame] at hinv hkept
      exact ⟨_, changes, .Success, rfl, hinv, hkept₀ hkept⟩
    · rw [if_neg fun hboth => hfirst hboth.2, if_pos hchanged]
      obtain ⟨map', m', syms', p, hrun, hmoved⟩ := resizeSyms_spec hmap₀ hsyms₀ ht hm hsyms hkey₀ hshaped hpos
        (fun i hi => hnew i (mem_range.2 hi)) hlevels (hfits.old hretyped) hroom
      have hshape := hmoved.shape
      have hrec : m' key = setOffset (m key) (m' key).offset := hshape key
      have htypes' := hmoved.types
      have hactsOk : ActsOk xkb₀.keys m' server := by
        have := h₀.acts server hserver₀
        rw [symMap_eq hmap₀ hm] at this
        exact this.congr hshape.numSyms
      have hlevels' : ∀ i < nGroups, levelsOf map' (newType (m key) groups typesIn i) ≤ width := fun i hi => by
        unfold levelsOf
        rw [htypes'.1]
        exact hlevels i hi
      have hactsRoom := hfits.actsRoom
      rw [hneeded] at hactsRoom
      have hold' : ∀ i < nGroups, i < (m' key).numGroups → (m' key).keyTypeIndex i < map'.num_types := by
        rw [htypes'.2.1, hrec]
        exact hfits.old hretyped
      obtain ⟨server', hrun', hacts⟩ := resizeActs_spec (xkb₀.setMap map') answers rfl hmoved.keyMap hserver₀
        hactsOk ha (ht.congr htypes') hkey₀ (hshape.shaped hshaped) hpos
        (fun i hi => by rw [htypes'.2.1]; exact hnew i (mem_range.2 hi)) hlevels' hold'
        (fun hne hlt => hactsRoom hne (by rw [hshape.numSyms] at hlt; exact hlt))
      rw [hrun, ok_bind]
      rw [if_neg (by rw [Bool.not_true]; exact Bool.false_ne_true), hrun', ok_bind]
      rw [if_neg (by rw [Bool.not_true]; exact Bool.false_ne_true),
        show ((xkb₀.setMap map').setServer server').setKeySym _ _ = _ from setKeySym_eq rfl hmoved.keyMap _, ok_bind, ok_bind]
      rw [setKeySym_eq rfl rfl]
      rw [update_self, update_idem]
      obtain ⟨hoff, hshaped', hlen⟩ := hend m' p hmoved.at_p hshape
        { setTypes nGroups (newType (m key) groups typesIn) (setGroups nGroups width (m' key)) with width := width % 256 }
        rfl rfl hmodw
      obtain ⟨hinv, hkept⟩ := h₀.moved hmap₀ hm hsyms hserver₀ ha hmoved hacts hoff hshaped' hlen _ rfl
      exact ⟨_, _, .Success, rfl, hinv, hkept₀ hkept⟩
  · rw [if_neg fun hboth => hchanged hboth.1, if_neg hchanged, ok_bind]
    rw [setKeySym_eq hmap₀ hm]
    push Not at hchanged
    obtain ⟨hinv, hkept⟩ := setKeySym_inv h₀ hmap₀ hm
      (f := fun r => { setTypes nGroups (newType (m key) groups typesIn) r with width := width % 256 }) rfl
      ⟨hshaped.groups, by rw [hmodw]; exact hwide⟩
      (by unfold XkbSymMapRec.numSyms; dsimp only; rw [hmodw, hchanged.1]; exact le_rfl)
    exact ⟨_, _, .Success, rfl, hinv, hkept₀ hkept⟩

/-! ### More levels -/

variable {type_ndx num_levels new_num_lvls n src : ℕ} {type : XkbKeyTypeRec} {newSyms : List KeySym}

theorem spreadGroups_spec {old : List KeySym} (hle : groups ≤ nGroups) (hwidth : width ≤ new_num_lvls)
    (hsrc : src + width * nGroups ≤ old.length) (hdst : n + nGroups * new_num_lvls ≤ newSyms.length) :
    ∃ newSyms', spreadGroups old src width n new_num_lvls groups newSyms = .ok newSyms' ∧
      newSyms'.length = newSyms.length := by
  induction groups generalizing newSyms with
  | zero => exact ⟨newSyms, rfl, rfl⟩
  | succ g ih =>
    have hg : width * g + width ≤ width * nGroups := by
      exact Nat.mul_le_mul_left width hle
    have hg' : new_num_lvls * g + new_num_lvls ≤ nGroups * new_num_lvls := by
      rw [Nat.mul_comm nGroups]
      exact Nat.mul_le_mul_left new_num_lvls hle
    have hread : src + width * g + width ≤ old.length := by omega
    have hblock : (slice old (src + width * g) width).length = width := length_slice hread
    have hwrite : n + new_num_lvls * g + (slice old (src + width * g) width).length ≤ newSyms.length := by omega
    have hlen := length_patch hwrite
    obtain ⟨newSyms', hrun, hlen'⟩ := ih (by omega) (by rw [hlen]; exact hdst)
    refine ⟨newSyms', ?_, hlen'.trans hlen⟩
    rw [spreadGroups, peek_eq hread, ok_bind, poke_eq hwrite]
    exact hrun

theorem le_grownSyms (m : ℕ → XkbSymMapRec) (type_ndx num_levels new_num_lvls i : ℕ) :
    (m i).numSyms ≤ grownSyms m type_ndx num_levels new_num_lvls i := by
  unfold grownSyms
  split
  · next hgrows =>
    unfold XkbSymMapRec.numSyms
    rw [Nat.mul_comm]
    exact Nat.mul_le_mul_left _ (le_of_lt hgrows.2.1)
  · exact le_rfl

/-- The blocks of the new array, and the offsets that the keys get. -/
theorem growSyms_spec {old : List KeySym} (offs : ℕ → ℕ) (hnodup : keys.Nodup)
    (hread : ∀ i ∈ keys, 0 < (m i).numSyms → (m i).offset + (m i).numSyms ≤ old.length) (hlevels : 1 ≤ num_levels)
    (hfit : n + (keys.map (grownSyms m type_ndx num_levels new_num_lvls)).sum ≤ newSyms.length)
    (hbound : n + (keys.map (grownSyms m type_ndx num_levels new_num_lvls)).sum < 2 ^ 16) :
    ∃ newSyms' n' offs', growSyms old m type_ndx num_levels new_num_lvls keys newSyms n offs = .ok (newSyms', n', offs') ∧
      newSyms'.length = newSyms.length ∧ n' = n + (keys.map (grownSyms m type_ndx num_levels new_num_lvls)).sum ∧
      (∀ i, i ∉ keys → offs' i = offs i) ∧ Placed keys (grownSyms m type_ndx num_levels new_num_lvls) n n' offs' := by
  induction keys generalizing newSyms n offs with
  | nil => exact ⟨newSyms, n, offs, rfl, rfl, rfl, fun _ _ => rfl, .nil ..⟩
  | cons i keys ih =>
    obtain ⟨hnot, hnodup⟩ := nodup_cons.1 hnodup
    rw [map_cons, sum_cons] at hfit hbound
    have hin : (m i).numSyms = 0 ∨ (m i).offset + (m i).numSyms ≤ old.length :=
      (Nat.eq_zero_or_pos _).imp_right (hread i mem_cons_self)
    obtain ⟨newSyms₁, hrun₁, hlen₁⟩ : ∃ newSyms₁, (if grows m type_ndx num_levels new_num_lvls i then
          spreadGroups old (m i).offset (m i).width n new_num_lvls (m i).numGroups newSyms
        else do
          let block ← peek old (m i).offset (m i).numSyms
          poke newSyms n block) = .ok newSyms₁ ∧ newSyms₁.length = newSyms.length := by
      split
      · next hgrows =>
        have hsize : grownSyms m type_ndx num_levels new_num_lvls i = (m i).numGroups * new_num_lvls := if_pos hgrows
        rcases Nat.eq_zero_or_pos (m i).numGroups with hzero | hpos
        · rw [hzero]
          exact ⟨newSyms, rfl, rfl⟩
        · have hsyms : 0 < (m i).numSyms := Nat.mul_pos (by have := hgrows.1; omega) hpos
          exact spreadGroups_spec le_rfl (le_of_lt hgrows.2.1) (hread i mem_cons_self hsyms) (by omega)
      · next hgrows =>
        have hsize : grownSyms m type_ndx num_levels new_num_lvls i = (m i).numSyms := if_neg hgrows
        have hblock : (slice old (m i).offset (m i).numSyms).length = (m i).numSyms := by
          rcases hin with hzero | hle
          · rw [hzero]
            rfl
          · exact length_slice hle
        have hwrite : n + (slice old (m i).offset (m i).numSyms).length ≤ newSyms.length := by omega
        rw [show peek old (m i).offset (m i).numSyms = .ok (slice old (m i).offset (m i).numSyms) from if_pos hin]
        exact ⟨_, poke_eq hwrite, length_patch hwrite⟩
    have hmod : n % 2 ^ 16 = n := Nat.mod_eq_of_lt (by omega)
    obtain ⟨newSyms', n', offs', hrun, hlen, htotal, hkept, hplaced⟩ := ih (Function.update offs i n) hnodup
      (fun j hj => hread j (.tail _ hj))
      (show n + grownSyms m type_ndx num_levels new_num_lvls i +
        (keys.map (grownSyms m type_ndx num_levels new_num_lvls)).sum ≤ newSyms₁.length by omega) (by omega)
    refine ⟨newSyms', n', offs', ?_, hlen.trans hlen₁, ?_, fun j hj => ?_, hplaced.cons (by omega) ?_⟩
    · rw [growSyms]
      by_cases hgrows : grows m type_ndx num_levels new_num_lvls i
      · rw [if_pos hgrows] at hrun₁ ⊢
        rw [hrun₁, hmod]
        exact hrun
      · rw [if_neg hgrows] at hrun₁ ⊢
        simp only [← bind_assoc] at hrun₁ ⊢
        rw [hrun₁, hmod]
        exact hrun
    · rw [map_cons, sum_cons]
      omega
    · have hne : j ≠ i := by
        rintro rfl
        exact hj mem_cons_self
      rw [hkept j fun hmem => hj (.tail _ hmem), update_of_ne hne]
    · rw [hkept i hnot, update_self]

theorem clearGroups_spec {firstClear : ℕ} (hle : groups ≤ r.numGroups) (hin : 0 < r.numSyms → r.offset + r.numSyms ≤ syms.length) :
    ∃ syms', clearGroups r type_ndx firstClear groups syms = .ok syms' ∧ syms'.length = syms.length := by
  induction groups generalizing syms with
  | zero => exact ⟨syms, rfl, rfl⟩
  | succ g ih =>
    obtain ⟨syms₁, hrun₁, hlen₁⟩ : ∃ syms₁, (if r.keyTypeIndex g = type_ndx ∧ firstClear < r.width then
          poke syms (r.offset + g * r.width + firstClear) (List.replicate (r.width - firstClear) NoSymbol)
        else .ok syms) = .ok syms₁ ∧ syms₁.length = syms.length := by
      split
      · next hclear =>
        have hg : g * r.width + r.width ≤ r.numSyms := by
          rw [Nat.mul_comm]
          exact Nat.mul_le_mul_left _ hle
        have hwrite : r.offset + g * r.width + firstClear + (List.replicate (r.width - firstClear) NoSymbol).length ≤
            syms.length := by
          rw [length_replicate]
          omega
        exact ⟨_, poke_eq hwrite, length_patch hwrite⟩
      · exact ⟨syms, rfl, rfl⟩
    obtain ⟨syms', hrun, hlen⟩ := ih (by omega) (by rw [hlen₁]; exact hin)
    refine ⟨syms', ?_, hlen.trans hlen₁⟩
    rw [clearGroups]
    by_cases hclear : r.keyTypeIndex g = type_ndx ∧ firstClear < r.width
    · rw [if_pos hclear] at hrun₁ ⊢
      rw [hrun₁]
      exact hrun
    · rw [if_neg hclear] at hrun₁ ⊢
      rw [hrun₁]
      exact hrun

theorem clearKeys_spec {firstClear : ℕ} (hin : ∀ i ∈ is, 0 < (m i).numSyms → (m i).offset + (m i).numSyms ≤ syms.length) :
    ∃ syms', clearKeys m type_ndx firstClear is syms = .ok syms' ∧ syms'.length = syms.length := by
  induction is generalizing syms with
  | nil => exact ⟨syms, rfl, rfl⟩
  | cons i is ih =>
    obtain ⟨syms₁, hrun₁, hlen₁⟩ : ∃ syms₁, clearGroups (m i) type_ndx firstClear (m i).numGroups syms = .ok syms₁ ∧
        syms₁.length = syms.length := clearGroups_spec le_rfl (hin i mem_cons_self)
    obtain ⟨syms', hrun, hlen⟩ := ih fun j hj => by rw [hlen₁]; exact hin j (.tail _ hj)
    refine ⟨syms', ?_, hlen.trans hlen₁⟩
    rw [clearKeys, hrun₁]
    exact hrun

/-- There is memory for the symbols of all keys, if some key grows. -/
def GrowRoom (keys : List ℕ) (m : ℕ → XkbSymMapRec) (type_ndx num_levels new_num_lvls : ℕ) (ok : Bool) : Prop :=
  (∃ i ∈ keys, grows m type_ndx num_levels new_num_lvls i) →
    ok = true ∧ (1 + (keys.map (grownSyms m type_ndx num_levels new_num_lvls)).sum) * 15 / 10 < 2 ^ 16

/-- The offset of a key without symbols does not matter. -/
theorem resizeTypeSyms_spec (h : SymsOk xkb.keys map) (hm : map.key_sym_map = some m) (hlevels : 1 ≤ type.num_levels)
    {ok : Bool} (hroom : GrowRoom xkb.keys m type_ndx type.num_levels new_num_lvls ok) :
    ∃ map' m', resizeTypeSyms xkb map type_ndx type new_num_lvls ok = .ok (map', true) ∧ map'.key_sym_map = some m' ∧
      SameShape m m' ∧ SymsOk xkb.keys map' ∧
      map'.types = map.types ∧ map'.num_types = map.num_types ∧ map'.size_types = map.size_types := by
  have hlaid := h.laid m hm
  have hsized := h.sized
  obtain ⟨syms, hsyms⟩ := Option.isSome_iff_exists.1 (h.there (by rw [hm]; rfl))
  rw [hsyms] at hsized
  have hread : ∀ i ∈ xkb.keys, 0 < (m i).numSyms → (m i).offset + (m i).numSyms ≤ syms.length := by
    intro i hi hlt
    have hin := (hlaid.inside i hi hlt).2
    have hlen := hsized.length
    have hfits := hsized.fits
    unfold symsAt symsLen at hin
    omega
  have hsame : ∀ map', map' = map → ∃ map'' m', (.ok (map', true) : Outcome _) = .ok (map'', true) ∧
      map''.key_sym_map = some m' ∧ SameShape m m' ∧ SymsOk xkb.keys map'' ∧
      map''.types = map.types ∧ map''.num_types = map.num_types ∧ map''.size_types = map.size_types := by
    rintro map' rfl
    exact ⟨_, m, rfl, hm, fun _ => rfl, h, rfl, rfl, rfl⟩
  unfold resizeTypeSyms
  by_cases hmore : new_num_lvls > type.num_levels
  · rw [if_pos hmore, hm, deref_some, ok_bind]
    by_cases hany : ∃ i ∈ xkb.keys, grows m type_ndx type.num_levels new_num_lvls i
    · -- the new array is half as large again as what the keys need
      rw [if_neg (not_not.2 hany)]
      obtain ⟨rfl, hsize⟩ := hroom hany
      dsimp only
      obtain ⟨total, htotal⟩ : ∃ total, total = (xkb.keys.map (grownSyms m type_ndx type.num_levels new_num_lvls)).sum := ⟨_, rfl⟩
      rw [← htotal] at hsize ⊢
      rw [Nat.mod_eq_of_lt hsize, hsyms]
      obtain ⟨newSyms, n', offs', hrun, hlen, hn', -, hplaced⟩ := growSyms_spec (fun i => (m i).offset) (nodup_keys xkb) hread
        hlevels (show 1 + (xkb.keys.map (grownSyms m type_ndx type.num_levels new_num_lvls)).sum ≤
          (List.replicate ((1 + total) * 15 / 10) NoSymbol).length by rw [length_replicate]; omega)
        (by rw [← htotal]; omega)
      simp only [calloc, if_true, Option.getD_some]
      rw [hrun, ok_bind, Nat.mod_eq_of_lt (show n' < 2 ^ 16 by omega)]
      refine ⟨_, _, rfl, rfl, fun _ => rfl, ⟨⟨?_, by dsimp only; omega, hsize, fun _ => by dsimp only; omega⟩,
        fun m'' hm'' => ?_, fun _ => rfl⟩, rfl, rfl, rfl⟩
      · dsimp only [Option.elim]
        rw [hlen, length_replicate]
      · cases hm''
        exact hplaced.laid le_rfl fun i _ => le_grownSyms m type_ndx type.num_levels new_num_lvls i
    · rw [if_pos hany]
      exact hsame map rfl
  · rw [if_neg hmore]
    by_cases hless : new_num_lvls < type.num_levels
    · rw [if_pos hless, hm, deref_some, ok_bind]
      by_cases hnone : (xkb.keys.filter fun i => type.num_levels ≤ (m i).width ∧ hasType (m i) type_ndx) = []
      · rw [if_pos hnone]
        exact hsame map rfl
      · rw [if_neg hnone, hsyms, deref_some, ok_bind]
        obtain ⟨syms', hrun, hlen⟩ : ∃ syms', clearKeys m type_ndx new_num_lvls
              (xkb.keys.filter fun i => type.num_levels ≤ (m i).width ∧ hasType (m i) type_ndx) syms = .ok syms' ∧
            syms'.length = syms.length := clearKeys_spec fun i hi => hread i (mem_of_mem_filter hi)
        rw [hrun]
        refine ⟨_, m, rfl, rfl, fun _ => rfl, ⟨⟨hlen.trans hsized.length, hsized.fits, hsized.small, fun _ => hsized.first rfl⟩,
          fun m'' hm'' => ?_, fun _ => rfl⟩, rfl, rfl, rfl⟩
        cases hm''
        exact hlaid
    · rw [if_neg hless]
      exact hsame map rfl

/-! ### XkbResizeKeyType -/

theorem resizeTypeMap_levels (type : XkbKeyTypeRec) (map_count : ℕ) (want_preserve : Bool) (answers : KeyTypeAnswers) :
    (resizeTypeMap type map_count want_preserve answers).1.num_levels = type.num_levels := by
  unfold resizeTypeMap
  by_cases hzero : map_count = 0
  · rw [if_pos hzero]
  rw [if_neg hzero]
  by_cases hmap : (if map_count > type.map_count ∨ type.map.isNone then reallocarray answers.map type.map map_count
      else type.map).isNone
  · rw [if_pos hmap]
  · rw [if_neg hmap]
    rw [apply_ite Prod.fst, apply_ite XkbKeyTypeRec.num_levels]
    exact ite_self _

theorem resizeTypeNames_levels (type : XkbKeyTypeRec) (new_num_lvls : ℕ) (answers : KeyTypeAnswers) :
    (resizeTypeNames type new_num_lvls answers).1.num_levels = type.num_levels := by
  unfold resizeTypeNames
  split <;> rfl

theorem TypesOk.setType (h : TypesOk map) (hlevels : 1 ≤ type.num_levels ∧ type.num_levels ≤ XkbMaxShiftLevel) :
    TypesOk (map.setType type_ndx type) := by
  refine ⟨h.used, ?_, fun types htypes t type' ht hget => ?_⟩
  · have := h.allocated
    unfold XkbClientMapRec.setType
    cases htypes : map.types with
    | none =>
      rw [htypes] at this
      exact this
    | some types =>
      rw [htypes] at this
      simp only [Option.map_some, Option.elim, length_set] at this ⊢
      exact this
  · obtain ⟨types₀, htypes₀, rfl⟩ := Option.map_eq_some_iff.1 htypes
    rw [List.getElem?_set] at hget
    split at hget
    · split at hget
      · cases hget
        exact hlevels
      · cases hget
    · exact h.levels types₀ htypes₀ t type' ht hget

/-- Only the types change. -/
theorem Inv.setTypes (h : Inv xkb) (hmap : xkb.map = some map) (hm : map.key_sym_map = some m) (ht : TypesOk map')
    (hsyms : SymsOk xkb.keys map') (hm' : map'.key_sym_map = some m') (hshape : SameShape m m') : Inv (xkb.setMap map') := by
  have hsym := symMap_eq hmap hm
  have hsym' : (xkb.setMap map').symMap = m' := symMap_eq rfl hm'
  refine ⟨h.keycodes, fun i => ?_, fun map'' hmap'' => ?_, fun map'' hmap'' => ?_, fun server hserver => ?_⟩
  · rw [hsym']
    exact hshape.shaped (hsym ▸ h.shape i)
  · cases hmap''
    exact ht
  · cases hmap''
    exact hsyms
  · rw [hsym']
    exact (hsym ▸ h.acts server hserver).congr hshape.numSyms

theorem SymsOk.setType (h : SymsOk keys map) : SymsOk keys (map.setType type_ndx type) := ⟨h.sized, h.laid, h.there⟩

/-- **A type gets another number of levels.** -/
theorem resizeKeyType_inv (h : Inv xkb) (hmap : xkb.map = some map) (hm : map.key_sym_map = some m)
    (map_count : ℕ) (want_preserve : Bool) (answers : KeyTypeAnswers)
    (hfit : type_ndx < map.num_types → new_num_lvls ≤ XkbMaxShiftLevel ∧
      GrowRoom xkb.keys m type_ndx (levelsOf map type_ndx) new_num_lvls answers.syms) :
    ∃ xkb' status, XkbResizeKeyType xkb type_ndx map_count want_preserve new_num_lvls answers = .ok (xkb', status) ∧
      Inv xkb' := by
  have ht := h.types map hmap
  have hsymsOk := h.syms map hmap
  unfold XkbResizeKeyType
  rw [hmap, deref_some, ok_bind]
  by_cases hbad : type_ndx ≥ map.num_types ∨ new_num_lvls < 1
  · rw [if_pos hbad]
    exact ⟨xkb, _, rfl, h⟩
  rw [if_neg hbad]
  push Not at hbad
  by_cases hone : type_ndx = XkbOneLevelIndex ∧ new_num_lvls ≠ 1
  · rw [if_pos hone]
    exact ⟨xkb, _, rfl, h⟩
  rw [if_neg hone]
  by_cases htwo : (type_ndx = XkbTwoLevelIndex ∨ type_ndx = XkbAlphabeticIndex ∨ type_ndx = XkbKeypadIndex) ∧ new_num_lvls ≠ 2
  · rw [if_pos htwo]
    exact ⟨xkb, _, rfl, h⟩
  rw [if_neg htwo]
  obtain ⟨hlevels, hroom⟩ := hfit hbad.1
  obtain ⟨types, type, htypes, hget, hnum, hpos, hle⟩ := ht.get hbad.1
  rw [htypes, deref_some, ok_bind, hget, deref_some, ok_bind]
  rw [← hnum] at hroom hpos hle
  have hmapLevels := resizeTypeMap_levels type map_count want_preserve answers
  cases hmapRun : resizeTypeMap type map_count want_preserve answers with
  | mk type₁ ok₁ =>
  rw [hmapRun] at hmapLevels
  have hset : ∀ type' : XkbKeyTypeRec, type'.num_levels = type.num_levels →
      Inv (xkb.setMap (map.setType type_ndx type')) := fun type' heq =>
    h.setTypes hmap hm (ht.setType (by rw [heq]; exact ⟨hpos, hle⟩)) hsymsOk.setType hm fun _ => rfl
  dsimp only
  cases ok₁ with
  | false => exact ⟨_, _, rfl, hset type₁ hmapLevels⟩
  | true =>
  have hnamesLevels := resizeTypeNames_levels type₁ new_num_lvls answers
  cases hnamesRun : resizeTypeNames type₁ new_num_lvls answers with
  | mk type₂ ok₂ =>
  rw [hnamesRun] at hnamesLevels
  have hlevels₂ : type₂.num_levels = type.num_levels := Eq.trans hnamesLevels hmapLevels
  cases ok₂ with
  | false => exact ⟨_, _, rfl, hset type₂ hlevels₂⟩
  | true =>
  obtain ⟨map', m', hrun, hm', hshape, hsymsOk', htypes'⟩ := resizeTypeSyms_spec
    (hsymsOk.setType : SymsOk xkb.keys (map.setType type_ndx type₂)) hm (by rw [hlevels₂]; exact hpos) (by rw [hlevels₂]; exact hroom)
  rw [hrun]
  refine ⟨_, _, rfl, h.setTypes hmap hm ?_ hsymsOk'.setType hm' hshape⟩
  refine ((ht.setType (by rw [hlevels₂]; exact ⟨hpos, hle⟩)).congr htypes').setType ?_
  rw [Nat.mod_eq_of_lt (by unfold XkbMaxShiftLevel at hlevels; omega)]
  exact ⟨hbad.2, hlevels⟩

end Xenia.Xext.Xkb
