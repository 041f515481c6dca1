import Xenia.Xext.XkbStorage

/-!
# The state of an XKB description

`Inv` collects what holds of a description between calls. `Kept` says that the symbols and actions of a
key are what they were. `resizeKeySyms_inv` and `resizeKeyActions_inv`: a key gets room, and the other
keys are kept.
-/

namespace Xenia.Xext.Xkb

open Xenia.Lib Function Option

variable {xkb xkb' : XkbDescRec} {map map' : XkbClientMapRec} {server server' : XkbServerMapRec}
  {m m' : ℕ → XkbSymMapRec} {a a' : ℕ → ℕ} {keys : List ℕ} {key needed i p : ℕ} {r : XkbSymMapRec}
  {syms syms' : List KeySym} {acts acts' : List XkbAction}

/-! ### What is stored for a key -/

/-- The records of the keys. Before they are allocated, no key has a group. -/
def XkbDescRec.symMap (xkb : XkbDescRec) : ℕ → XkbSymMapRec := (xkb.map.bind (·.key_sym_map)).getD fun _ => {}

def XkbDescRec.keyActs (xkb : XkbDescRec) : ℕ → ℕ := (xkb.server.bind (·.key_acts)).getD fun _ => 0

def XkbDescRec.allSyms (xkb : XkbDescRec) : List KeySym := (xkb.map.bind (·.syms)).getD []

def XkbDescRec.allActs (xkb : XkbDescRec) : List XkbAction := (xkb.server.bind (·.acts)).getD []

/-- The symbols of key `i`. -/
def XkbDescRec.symbols (xkb : XkbDescRec) (i : ℕ) : List KeySym := slice xkb.allSyms (symsAt xkb.symMap i) (symsLen xkb.symMap i)

/-- The actions of key `i`. -/
def XkbDescRec.actions (xkb : XkbDescRec) (i : ℕ) : List XkbAction :=
  slice xkb.allActs (xkb.keyActs i) (actsLen xkb.symMap xkb.keyActs i)

/-- The symbols and actions of key `i` are what they were, and so are its groups. -/
structure Kept (xkb xkb' : XkbDescRec) (i : ℕ) : Prop where
  symbols : xkb'.symbols i = xkb.symbols i
  actions : xkb'.actions i = xkb.actions i
  shape : setOffset (xkb'.symMap i) 0 = setOffset (xkb.symMap i) 0

theorem Kept.refl (xkb : XkbDescRec) (i : ℕ) : Kept xkb xkb i := ⟨rfl, rfl, rfl⟩

theorem Kept.trans {xkb₁ xkb₂ xkb₃ : XkbDescRec} (h : Kept xkb₁ xkb₂ i) (h' : Kept xkb₂ xkb₃ i) : Kept xkb₁ xkb₃ i :=
  ⟨h'.symbols.trans h.symbols, h'.actions.trans h.actions, h'.shape.trans h.shape⟩

theorem symMap_eq (hmap : xkb.map = some map) (hm : map.key_sym_map = some m) : xkb.symMap = m := by
  unfold XkbDescRec.symMap
  rw [hmap, bind_some, hm, getD_some]

theorem keyActs_eq (hserver : xkb.server = some server) (ha : server.key_acts = some a) : xkb.keyActs = a := by
  unfold XkbDescRec.keyActs
  rw [hserver, bind_some, ha, getD_some]

theorem allSyms_eq (hmap : xkb.map = some map) (hsyms : map.syms = some syms) : xkb.allSyms = syms := by
  unfold XkbDescRec.allSyms
  rw [hmap, bind_some, hsyms, getD_some]

theorem allActs_eq (hserver : xkb.server = some server) (hacts : server.acts = some acts) : xkb.allActs = acts := by
  unfold XkbDescRec.allActs
  rw [hserver, bind_some, hacts, getD_some]

/-! ### Invariant -/

/-- The key has at most four groups of at most 63 levels. -/
structure Shaped (r : XkbSymMapRec) : Prop where
  groups : r.numGroups ≤ XkbNumKbdGroups
  width : r.width ≤ XkbMaxShiftLevel

theorem Shaped.numSyms_le (h : Shaped r) : r.numSyms ≤ XkbMaxSymsPerKey := Nat.mul_le_mul h.width h.groups

theorem shaped_default : Shaped {} := ⟨Nat.zero_le _, Nat.zero_le _⟩

/-- The types in use have between 1 and 63 levels. -/
structure TypesOk (map : XkbClientMapRec) : Prop where
  used : map.num_types ≤ map.size_types
  allocated : map.types.elim 0 List.length = map.size_types
  levels : ∀ types, map.types = some types → ∀ t type, t < map.num_types → types[t]? = some type →
    1 ≤ type.num_levels ∧ type.num_levels ≤ XkbMaxShiftLevel

structure Inv (xkb : XkbDescRec) : Prop where
  keycodes : xkb.max_key_code ≤ XkbMaxLegalKeyCode
  shape : ∀ i, Shaped (xkb.symMap i)
  types : ∀ map, xkb.map = some map → TypesOk map
  syms : ∀ map, xkb.map = some map → SymsOk xkb.keys map
  acts : ∀ server, xkb.server = some server → ActsOk xkb.keys xkb.symMap server

/-! ### The record of one key -/

/-- The lengths of the blocks of actions depend on the numbers of symbols only. -/
theorem ActsOk.congr (h : ActsOk keys m server) (hm : ∀ i, (m' i).numSyms = (m i).numSyms) : ActsOk keys m' server := by
  have hlen : ∀ a, actsLen m' a = actsLen m a := by
    intro a
    funext i
    unfold actsLen
    rw [hm i]
  exact ⟨h.sized, fun a ha => by rw [hlen a]; exact h.laid a ha, h.there⟩

/-- The key may have fewer symbols, or more if it has no actions. -/
theorem ActsOk.setKey (h : ActsOk keys m server) (hr : ∀ a, server.key_acts = some a → a key = 0 ∨ r.numSyms ≤ (m key).numSyms) :
    ActsOk keys (update m key r) server := by
  refine ⟨h.sized, fun a ha => (h.laid a ha).shrink (fun i _ => ?_) fun _ _ _ => rfl, h.there⟩
  by_cases hi : i = key
  · subst hi
    unfold actsLen
    rw [update_self]
    have := hr a ha
    split
    · exact le_rfl
    · omega
  · unfold actsLen
    rw [update_of_ne hi]

/-- There is room for as many actions as the key gets symbols. -/
theorem ActsMoved.setKey (h : ActsMoved keys m key needed p server server' a a' acts acts')
    (hr : r.numSyms ≤ max needed (actsLen m a key)) : ActsOk keys (update m key r) server' := by
  refine ⟨h.sized, fun a'' ha'' => ?_, fun _ => by rw [h.cells]; rfl⟩
  rw [h.keyActs] at ha''
  cases ha''
  refine h.laid.shrink (fun i hi => ?_) fun _ _ _ => rfl
  by_cases hik : i = key
  · subst hik
    unfold actsLen at ⊢
    rw [update_self, update_self]
    split
    · exact Nat.zero_le _
    · exact hr
  · have hact := (h.others i hi hik).2
    unfold actsLen
    rw [update_of_ne hik, update_of_ne hik]
    split
    · exact Nat.zero_le _
    · next hne => rw [if_neg fun hzero => hne (hact.2 hzero)]

/-- There is room for the symbols that the key gets. -/
theorem SymsMoved.setKey (h : SymsMoved keys key needed p map map' m m' syms syms') (hp : r.offset = p)
    (hr : r.numSyms ≤ max needed (m key).numSyms) :
    SymsOk keys { map' with key_sym_map := some (update m' key r) } := by
  refine ⟨h.sized, fun m'' hm'' => ?_, fun _ => by dsimp only; rw [h.cells]; rfl⟩
  cases hm''
  refine h.laid.shrink (fun i _ => ?_) fun i _ _ => ?_
  · by_cases hi : i = key
    · subst hi
      unfold symsLen
      rw [update_self, update_self]
      exact hr
    · unfold symsLen
      rw [update_of_ne hi, update_of_ne hi, h.shape.numSyms i]
  · by_cases hi : i = key
    · subst hi
      rw [h.at_p]
      unfold symsAt
      rw [update_self, hp]
    · unfold symsAt
      rw [update_of_ne hi]

/-- What is written into the block of the key does not change the others. -/
theorem SymsMoved.confined {syms'' : List KeySym} (h : SymsMoved keys key needed p map map' m m' syms syms') (hkey : key ∈ keys)
    (hc : Confined p (p + needed) syms' syms'') :
    SymsMoved keys key needed p map { map' with syms := some syms'' } m m' syms syms'' := by
  have hsized := h.sized
  rw [h.cells] at hsized
  refine ⟨h.keyMap, rfl, ⟨?_, hsized.fits, hsized.small, fun _ => hsized.first rfl⟩, h.at_p, h.laid, h.shape, fun i hi hne => ?_,
    h.types⟩
  · exact hc.length.trans hsized.length
  · rw [← h.others i hi hne]
    refine hc.slice fun j hlo hhi => ?_
    have hlen : update (symsLen m) key (max needed (symsLen m key)) i = symsLen m i := update_of_ne hne ..
    rcases eq_zero_or_pos needed with hzero | hpos
    · omega
    · have := h.laid.apart i hi key hkey hne (by rw [hlen]; omega) (by rw [update_self]; omega)
      rw [update_self, h.at_p] at this
      omega

/-- The same for the actions. -/
theorem ActsMoved.confined {acts'' : List XkbAction} (h : ActsMoved keys m key needed p server server' a a' acts acts')
    (hkey : key ∈ keys) (hc : Confined p (p + needed) acts' acts'') :
    ActsMoved keys m key needed p server { server' with acts := some acts'' } a a' acts acts'' := by
  have hsized := h.sized
  rw [h.cells] at hsized
  refine ⟨h.keyActs, rfl, ⟨?_, hsized.fits, hsized.small, fun _ => hsized.first rfl⟩, h.at_p, h.laid, fun i hi hne => ?_, h.rest⟩
  · exact hc.length.trans hsized.length
  · refine ⟨?_, (h.others i hi hne).2⟩
    rw [← (h.others i hi hne).1]
    refine hc.slice fun j hlo hhi => ?_
    have hlen : update (actsLen m a) key (max needed (actsLen m a key)) i = actsLen m a i := update_of_ne hne ..
    rcases eq_zero_or_pos needed with hzero | hpos
    · omega
    · have := h.laid.apart i hi key hkey hne (by rw [hlen]; omega) (by rw [update_self]; omega)
      rw [update_self, h.at_p] at this
      omega

/-! ### What the other keys keep -/

theorem SymsMoved.symbols (h : SymsMoved keys key needed p map map' m m' syms syms') (hi : i ∈ keys) (hne : i ≠ key) :
    slice syms' (symsAt m' i) (symsLen m' i) = slice syms (symsAt m i) (symsLen m i) := by
  rw [h.shape.symsLen]
  exact h.others i hi hne

theorem ActsMoved.actions (h : ActsMoved keys m key needed p server server' a a' acts acts') (hi : i ∈ keys) (hne : i ≠ key) :
    slice acts' (a' i) (actsLen m a' i) = slice acts (a i) (actsLen m a i) := by
  have hlen : actsLen m a' i = actsLen m a i := by
    unfold actsLen
    have := (h.others i hi hne).2
    split <;> split <;> first | rfl | omega
  rw [hlen]
  exact (h.others i hi hne).1

/-! ### Calls for room -/

theorem TypesOk.congr (h : TypesOk map)
    (heq : map'.types = map.types ∧ map'.num_types = map.num_types ∧ map'.size_types = map.size_types) : TypesOk map' := by
  obtain ⟨htypes, hnum, hsize⟩ := heq
  refine ⟨?_, ?_, ?_⟩
  · rw [hnum, hsize]
    exact h.used
  · rw [htypes, hsize]
    exact h.allocated
  · rw [htypes, hnum]
    exact h.levels

theorem SameShape.shaped (h : SameShape m m') (hs : Shaped (m i)) : Shaped (m' i) := by
  rw [h i]
  exact ⟨hs.groups, hs.width⟩

/-- The symbols of one key have moved. -/
theorem Inv.symsMoved (h : Inv xkb) (hmap : xkb.map = some map) (hm : map.key_sym_map = some m) (hsyms : map.syms = some syms)
    (hmoved : SymsMoved xkb.keys key needed p map map' m m' syms syms') :
    Inv (xkb.setMap map') ∧ ∀ i ∈ xkb.keys, i ≠ key → Kept xkb (xkb.setMap map') i := by
  have hsym := symMap_eq hmap hm
  have hsym' : (xkb.setMap map').symMap = m' := symMap_eq rfl hmoved.keyMap
  refine ⟨⟨h.keycodes, fun i => ?_, fun map'' hmap'' => ?_, fun map'' hmap'' => ?_, fun server hserver => ?_⟩,
    fun i hi hne => ⟨?_, ?_, ?_⟩⟩
  · rw [hsym']
    exact hmoved.shape.shaped (hsym ▸ h.shape i)
  · cases hmap''
    exact (h.types map hmap).congr hmoved.types
  · cases hmap''
    exact hmoved.symsOk
  · rw [hsym']
    exact (hsym ▸ h.acts server hserver).congr hmoved.shape.numSyms
  · unfold XkbDescRec.symbols
    rw [hsym', hsym, show (xkb.setMap map').allSyms = _ from allSyms_eq rfl hmoved.cells, allSyms_eq hmap hsyms]
    exact hmoved.symbols hi hne
  · unfold XkbDescRec.actions
    rw [hsym', hmoved.shape.actsLen, hsym]
    rfl
  · rw [hsym', hsym, hmoved.shape i]
    rfl

variable (needed) in
/-- **A key gets room for symbols.** -/
theorem resizeKeySyms_inv (ok : Bool) (h : Inv xkb) (hmap : xkb.map = some map) (hm : map.key_sym_map = some m)
    (hkey : key ∈ xkb.keys) (hzero : needed = 0 → (m key).numSyms = 0) (hroom : (m key).numSyms < needed → SymsRoom map needed ok) :
    ∃ map' m' p, XkbResizeKeySyms xkb key needed ok = .ok (xkb.setMap map', p) ∧ map'.key_sym_map = some m' ∧
      Inv (xkb.setMap map') ∧ ∀ i ∈ xkb.keys, i ≠ key → Kept xkb (xkb.setMap map') i := by
  have hsymsOk := h.syms map hmap
  obtain ⟨syms, hsyms⟩ := isSome_iff_exists.1 (hsymsOk.there (by rw [hm]; rfl))
  rcases eq_zero_or_pos needed with rfl | hpos
  · -- a key without symbols has no block
    have hnone := hzero rfl
    have hmoved : SymsMoved xkb.keys key 0 0 map
        { map with key_sym_map := some (update m key (setOffset (m key) 0)) } m
        (update m key (setOffset (m key) 0)) syms syms := by
      refine ⟨rfl, hsyms, hsymsOk.sized, by rw [symsAt_update, update_self], ?_, sameShape_update m key 0,
        fun i _ hne => ?_, rfl, rfl, rfl⟩
      · have hlen : max 0 (symsLen m key) = symsLen m key := max_eq_right (Nat.zero_le _)
        rw [hlen, update_eq_self, symsAt_update]
        refine (hsymsOk.laid m hm).shrink (fun _ _ => le_rfl) fun i _ hlt => ?_
        have hne : i ≠ key := by
          rintro rfl
          exact absurd hnone (ne_of_gt hlt)
        rw [update_of_ne hne]
      · rw [symsAt_update, update_of_ne hne]
    refine ⟨_, _, map.syms.map fun _ => 0, ?_, rfl, h.symsMoved hmap hm hsyms hmoved⟩
    unfold XkbResizeKeySyms
    rw [hmap, deref_some, ok_bind, hm, deref_some]
    rfl
  · obtain ⟨map', m', syms', p, hrun, hmoved⟩ := XkbResizeKeySyms_spec hmap hsymsOk hm hsyms hkey hpos hroom
    exact ⟨_, _, _, hrun, hmoved.keyMap, h.symsMoved hmap hm hsyms hmoved⟩

/-- The actions of one key have moved. -/
theorem Inv.actsMoved (h : Inv xkb) (hmap : xkb.map = some map) (hm : map.key_sym_map = some m)
    (hserver : xkb.server = some server) (ha : server.key_acts = some a) (hacts : server.acts = some acts)
    (hmoved : ActsMoved xkb.keys m key needed p server server' a a' acts acts')
    (hlen : (m key).numSyms ≤ max needed (actsLen m a key)) :
    Inv (xkb.setServer server') ∧ ∀ i ∈ xkb.keys, i ≠ key → Kept xkb (xkb.setServer server') i := by
  have hsym := symMap_eq hmap hm
  have hsym' : (xkb.setServer server').symMap = m := hsym
  refine ⟨⟨h.keycodes, h.shape, h.types, h.syms, fun server'' hserver'' => ?_⟩, fun i hi hne => ⟨rfl, ?_, rfl⟩⟩
  · cases hserver''
    rw [hsym']
    have := hmoved.setKey hlen
    rwa [update_eq_self] at this
  · unfold XkbDescRec.actions
    rw [show (xkb.setServer server').keyActs = _ from keyActs_eq rfl hmoved.keyActs, keyActs_eq hserver ha,
      show (xkb.setServer server').allActs = _ from allActs_eq rfl hmoved.cells, allActs_eq hserver hacts, hsym', hsym]
    exact hmoved.actions hi hne

variable (needed) in
/-- **A key gets room for actions.** -/
theorem resizeKeyActions_inv (ok : Bool) (h : Inv xkb) (hmap : xkb.map = some map) (hm : map.key_sym_map = some m)
    (hserver : xkb.server = some server) (ha : server.key_acts = some a) (hkey : key ∈ xkb.keys)
    (hlen : needed = 0 ∨ a key ≠ 0 ∨ (m key).numSyms ≤ needed)
    (hroom : 0 < needed → a key = 0 ∨ actsLen m a key < needed → ActsRoom server needed ok) :
    ∃ xkb' p, XkbResizeKeyActions xkb key needed ok = .ok (xkb', p) ∧ Inv xkb' ∧
      ∀ i ∈ xkb.keys, i ≠ key → Kept xkb xkb' i := by
  have hsym := symMap_eq hmap hm
  have hactsOk : ActsOk xkb.keys m server := hsym ▸ h.acts server hserver
  rcases eq_zero_or_pos needed with rfl | hpos
  · -- the key has no actions any more
    obtain ⟨server', hserver'⟩ : ∃ server', server' = { server with key_acts := some (update a key 0) } := ⟨_, rfl⟩
    have ha' : server'.key_acts = some (update a key 0) := by rw [hserver']
    refine ⟨xkb.setServer server', none, ?_, ⟨h.keycodes, h.shape, h.types, h.syms, fun server'' hserver'' => ?_⟩,
      fun i hi hne => ⟨rfl, ?_, rfl⟩⟩
    · unfold XkbResizeKeyActions
      rw [hserver, deref_some, ok_bind, ha, deref_some, hserver']
      rfl
    · cases hserver''
      have hsym' : (xkb.setServer server').symMap = m := hsym
      rw [hsym']
      refine ⟨by rw [hserver']; exact hactsOk.sized, fun a'' ha'' => ?_, fun _ => ?_⟩
      · rw [ha'] at ha''
        cases ha''
        rw [hserver']
        refine (hactsOk.laid a ha).shrink (fun i _ => ?_) fun i _ hlt => ?_
        · unfold actsLen
          by_cases hi : i = key
          · rw [if_pos (by rw [hi, update_self])]
            exact Nat.zero_le _
          · rw [update_of_ne hi]
        · by_cases hi : i = key
          · unfold actsLen at hlt
            rw [if_pos (by rw [hi, update_self])] at hlt
            exact absurd hlt (lt_irrefl 0)
          · rw [update_of_ne hi]
      · rw [hserver']
        exact hactsOk.there (by rw [ha]; rfl)
    · unfold XkbDescRec.actions
      have hacts' : (xkb.setServer server').allActs = xkb.allActs := by
        unfold XkbDescRec.allActs
        rw [hserver, hserver']
        rfl
      have hsame : actsLen m (update a key 0) i = actsLen m a i := by
        unfold actsLen
        rw [update_of_ne hne]
      rw [hacts', show (xkb.setServer server').keyActs = _ from keyActs_eq rfl ha', keyActs_eq hserver ha, update_of_ne hne]
      have hsym' : (xkb.setServer server').symMap = m := hsym
      rw [hsym', hsym, hsame]
  · obtain ⟨server', a', acts, acts', p, hrun, -, hacts, hmoved⟩ :=
      XkbResizeKeyActions_spec hmap hm hserver hactsOk ha hkey hpos (hroom hpos)
    refine ⟨_, _, hrun, h.actsMoved hmap hm hserver ha hacts hmoved ?_⟩
    rcases hlen with hzero | hne | hle
    · omega
    · unfold actsLen
      rw [if_neg hne]
      exact le_max_right _ _
    · exact hle.trans (le_max_left _ _)

end Xenia.Xext.Xkb
