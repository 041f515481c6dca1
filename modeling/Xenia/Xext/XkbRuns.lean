import Xenia.Xext.XkbTypes

/-!
# Runs over an XKB description

The maps of a description are allocated, and its keys get symbols, actions and types, in any order.
`xkb_storage_sound`: the symbols and actions of the keys stay apart, in arrays of the sizes kept, as long
as there is memory and the calls fit together (`Meets`). `xkb_storage_unsound`: otherwise they do not.
-/

namespace Xenia.Xext.Xkb

open Xenia.Lib List Option

variable {xkb xkb' : XkbDescRec} {map map' : XkbClientMapRec} {server server' : XkbServerMapRec}
  {m : ℕ → XkbSymMapRec} {a : ℕ → ℕ} {keys : List ℕ} {which : Mask} {nKeys nTotalTypes nNewActions : ℕ}

/-! ### Steps of an allocation -/

section Steps

variable {α : Type} {f : α → Outcome (α × Status)} {fs : List (α → Outcome (α × Status))} {P Q R : α → Prop} {x y : α} {β : Type} {mask : Mask}

/-- `f` ends, and keeps `P`; `Q` holds if it succeeds. -/
def Goes (P Q : α → Prop) (f : α → Outcome (α × Status)) (x : α) : Prop :=
  ∃ x' status, f x = .ok (x', status) ∧ P x' ∧ (status = .Success → Q x')

theorem goes_nil (hx : P x) (hQ : Q x) : Goes P Q (steps []) x := ⟨x, .Success, rfl, hx, fun _ => hQ⟩

/-- The rest runs if the first step succeeds. -/
theorem Goes.cons (h : Goes P Q f x) (hrest : ∀ x', P x' → Q x' → Goes P R (steps fs) x') :
    Goes P R (steps (f :: fs)) x := by
  obtain ⟨x', status, hrun, hP, hQ⟩ := h
  by_cases hok : status = .Success
  · obtain ⟨x'', status', hrun', hP', hR⟩ := hrest x' hP (hQ hok)
    refine ⟨x'', status', ?_, hP', hR⟩
    rw [steps, hrun, ok_bind]
    dsimp only
    rw [if_pos hok, hrun']
  · refine ⟨x', status, ?_, hP, fun hs => absurd hs hok⟩
    rw [steps, hrun, ok_bind]
    dsimp only
    rw [if_neg hok]
    rfl

theorem goes_asked (hx : P x) (hQ : Q x) (h : which &&& mask ≠ 0 → Goes P Q f x) : Goes P Q (asked which mask f) x := by
  unfold asked
  split
  · next hask => exact h hask
  · exact ⟨x, .Success, rfl, hx, fun _ => hQ⟩

theorem goes_legal (hx : P x) (hQ : Q x) : Goes P Q (legalKeycodes xkb) x := ⟨x, _, rfl, hx, fun _ => hQ⟩

/-- The steps that allocate one map, and keep what is of interest. -/
theorem goes_alloc (hx : P x) (hQ : Q x) {p : Option β} (hf : f x = .ok (y, allocated p)) (hP : P y) (hR : Q y) :
    Goes P Q (asked which mask (steps [legalKeycodes xkb, f])) x :=
  goes_asked hx hQ fun _ => (goes_legal hx (Q := fun x' => x' = x) rfl).cons fun x' _ heq => by
    subst heq
    exact Goes.cons ⟨y, _, hf, hP, fun _ => hR⟩ fun _ hy hR' => goes_nil hy hR'

end Steps

/-! ### Allocation of the client map -/

/-- The symbols of two client maps are the same. -/
structure SameSyms (map map' : XkbClientMapRec) : Prop where
  syms : map'.syms = map.syms
  size : map'.size_syms = map.size_syms
  num : map'.num_syms = map.num_syms
  keyMap : map'.key_sym_map = map.key_sym_map

theorem SameSyms.symsOk (hs : SameSyms map map') (h : SymsOk keys map) : SymsOk keys map' := by
  refine ⟨?_, fun m hm => ?_, ?_⟩
  · rw [hs.syms, hs.size, hs.num]
    exact h.sized
  · rw [hs.num]
    exact h.laid m (hs.keyMap ▸ hm)
  · rw [hs.syms, hs.keyMap]
    exact h.there

theorem typesOk_none (h : map.types = none) (hsize : map.size_types = 0) (hnum : map.num_types = 0) : TypesOk map := by
  refine ⟨by omega, ?_, fun types htypes => ?_⟩
  · rw [h, hsize]
    rfl
  · rw [h] at htypes
    cases htypes

theorem length_reallocarray {α : Type} {f : ℕ → α} {old : List α} {n : ℕ} (h : old.length ≤ n) :
    ∃ cells, reallocarray (some f) (some old) n = some cells ∧ cells.length = n ∧ ∀ i < old.length, cells[i]? = old[i]? := by
  refine ⟨_, rfl, ?_, fun i hi => ?_⟩
  · simp only [length_append, length_take, length_map, length_range]
    omega
  · rw [getD_some, take_of_length_le h, getElem?_append_left hi]

theorem allocTypes_spec (h : TypesOk map) (hfit : nTotalTypes < 256) (answer : Option (ℕ → XkbKeyTypeRec)) :
    ∃ map' status, allocTypes nTotalTypes answer map = .ok (map', status) ∧ TypesOk map' ∧ SameSyms map map' := by
  have hmod : nTotalTypes % 256 = nTotalTypes := Nat.mod_eq_of_lt hfit
  have hlen := h.allocated
  have hused := h.used
  have hsame : ∃ map' status, (.ok (map, .Success) : Outcome (XkbClientMapRec × Status)) = .ok (map', status) ∧ TypesOk map' ∧
      SameSyms map map' := ⟨map, .Success, rfl, h, rfl, rfl, rfl, rfl⟩
  unfold allocTypes
  by_cases hzero : nTotalTypes = 0
  · rw [if_pos hzero]
    exact hsame
  rw [if_neg hzero]
  cases htypes : map.types with
  | none =>
    cases answer with
    | none => exact ⟨map, .BadAlloc, rfl, h, rfl, rfl, rfl, rfl⟩
    | some f =>
      refine ⟨_, .Success, rfl, ⟨Nat.zero_le _, ?_, fun _ _ _ _ ht => absurd ht (Nat.not_lt_zero _)⟩, rfl, rfl, rfl, rfl⟩
      dsimp only [Option.elim]
      rw [length_replicate, hmod]
  | some types =>
    rw [htypes] at hlen
    have hlen : types.length = map.size_types := hlen
    dsimp only
    by_cases hgrow : map.size_types < nTotalTypes
    · rw [if_pos hgrow]
      cases answer with
      | none => exact ⟨_, .BadAlloc, rfl, typesOk_none rfl rfl rfl, rfl, rfl, rfl, rfl⟩
      | some f =>
        obtain ⟨types', hrun, hlen', hold⟩ := length_reallocarray (f := f) (show types.length ≤ nTotalTypes by omega)
        rw [hrun]
        rw [hmod]
        have hwrite : map.num_types + (replicate (nTotalTypes - map.num_types) ({} : XkbKeyTypeRec)).length ≤
            types'.length := by
          rw [length_replicate]
          omega
        unfold clearTypes
        dsimp only
        rw [if_neg (by omega), poke_eq hwrite]
        refine ⟨_, .Success, rfl, ⟨by dsimp only; omega, (length_patch hwrite).trans hlen', fun cells hcells t type ht hget => ?_⟩, rfl,
          rfl, rfl, rfl⟩
        -- the types in use lie before what is cleared
        cases hcells
        have ht : t < map.num_types := ht
        rw [getElem?_patch (by omega), if_neg (by omega), hold t (by omega)] at hget
        exact h.levels types htypes t type ht hget
    · rw [if_neg hgrow]
      exact hsame

theorem allocSyms_spec (h : SymsOk keys map) (hpos : 0 < nKeys) (hmax : nKeys ≤ 256) (ok : Bool) :
    ∃ map' status, allocSyms nKeys ok map = .ok (map', status) ∧ SymsOk keys map' ∧ map'.key_sym_map = map.key_sym_map ∧
      (status = .Success → map'.syms.isSome) ∧
      map'.types = map.types ∧ map'.num_types = map.num_types ∧ map'.size_types = map.size_types := by
  unfold allocSyms
  cases hsyms : map.syms with
  | some syms => exact ⟨map, .Success, rfl, h, rfl, fun _ => by rw [hsyms]; rfl, rfl, rfl, rfl⟩
  | none =>
    -- without an array of symbols there are no records of keys yet
    have hnone : map.key_sym_map = none := by
      cases hm : map.key_sym_map with
      | none => rfl
      | some m =>
        have := h.there (by rw [hm]; rfl)
        rw [hsyms] at this
        cases this
    have hmod : nKeys * 15 / 10 % 2 ^ 16 = nKeys * 15 / 10 := Nat.mod_eq_of_lt (by omega)
    have hsized := h.sized
    rw [hsyms] at hsized
    rw [hmod]
    cases ok with
    | false =>
      have hzero : 0 = map.size_syms := hsized.allocated
      rw [← hzero] at hsized
      refine ⟨_, .BadAlloc, rfl, ⟨hsized, fun m hm => ?_, fun hsome => ?_⟩, rfl, (fun hok => by cases hok), rfl, rfl, rfl⟩
      · cases hnone.symm.trans hm
      · rw [show map.key_sym_map.isSome = false by rw [hnone]; rfl] at hsome
        cases hsome
    | true =>
      have hwrite : 0 + [NoSymbol].length ≤ (replicate (nKeys * 15 / 10) NoSymbol).length := by
        rw [length_replicate, length_singleton]
        omega
      obtain ⟨syms, hpatch⟩ : ∃ syms, syms = patch (replicate (nKeys * 15 / 10) NoSymbol) 0 [NoSymbol] := ⟨_, rfl⟩
      have hlen : syms.length = nKeys * 15 / 10 := by rw [hpatch, length_patch hwrite, length_replicate]
      refine ⟨{ map with size_syms := nKeys * 15 / 10, num_syms := 1, syms := some syms }, .Success, ?_,
        ⟨⟨hlen, by dsimp only; omega, by dsimp only; omega, fun _ => le_rfl⟩, fun m hm => ?_, fun _ => rfl⟩, rfl, fun _ => rfl,
        rfl, rfl, rfl⟩
      · simp only [calloc, if_true]
        rw [poke_eq hwrite, hpatch]
        rfl
      · cases hnone.symm.trans hm

/-- What holds of the client map while it is allocated; `M` are the records of the keys. -/
structure ClientOk (keys : List ℕ) (M : ℕ → XkbSymMapRec) (map : XkbClientMapRec) : Prop where
  types : TypesOk map
  syms : SymsOk keys map
  records : (map.key_sym_map.getD fun _ => {}) = M

variable {M : ℕ → XkbSymMapRec}

theorem Inv.setClient (h : Inv xkb) (hc : ClientOk xkb.keys xkb.symMap map) : Inv { xkb with map := some map } := by
  have hsym : ({ xkb with map := some map } : XkbDescRec).symMap = xkb.symMap := hc.records
  refine ⟨h.keycodes, fun i => ?_, fun map' hmap' => ?_, fun map' hmap' => ?_, fun server hserver => ?_⟩
  · rw [hsym]
    exact h.shape i
  · cases hmap'
    exact hc.types
  · cases hmap'
    exact hc.syms
  · rw [hsym]
    exact h.acts server hserver

/-- The records of the keys are allocated behind the symbols. -/
theorem allocKeySymMap_spec (h : ClientOk keys M map) (hsyms : map.syms.isSome) (ok : Bool) :
    Goes (ClientOk keys M) (fun _ => True) (allocKeySymMap ok) map := by
  refine ⟨_, _, rfl, ?_, fun _ => trivial⟩
  have hrec := h.records
  cases hm : map.key_sym_map with
  | some m =>
    rw [hm] at hrec
    exact ⟨h.types.congr ⟨rfl, rfl, rfl⟩, ⟨h.syms.sized, fun m' hm' => h.syms.laid m' (hm.trans hm'), fun _ => hsyms⟩, hrec⟩
  | none =>
    rw [hm] at hrec
    cases ok with
    | false => exact ⟨h.types.congr ⟨rfl, rfl, rfl⟩, ⟨h.syms.sized, fun m' hm' => (by cases hm'), fun hsome => (by cases hsome)⟩, hrec⟩
    | true =>
      refine ⟨h.types.congr ⟨rfl, rfl, rfl⟩, ⟨h.syms.sized, fun m' hm' => ?_, fun _ => hsyms⟩, hrec⟩
      cases hm'
      exact ⟨fun _ _ hpos => absurd hpos (lt_irrefl 0), fun _ _ _ _ _ hpos => absurd hpos (lt_irrefl 0)⟩

theorem allocClientMap_inv (h : Inv xkb) (hfit : which &&& XkbKeyTypesMask ≠ 0 → nTotalTypes < 256) (answers : ClientAnswers) :
    ∃ xkb' status, XkbAllocClientMap xkb which nTotalTypes answers = .ok (xkb', status) ∧ Inv xkb' := by
  unfold XkbAllocClientMap
  by_cases hfew : 0 < nTotalTypes ∧ nTotalTypes < XkbNumRequiredTypes
  · rw [if_pos hfew]
    exact ⟨xkb, _, rfl, h⟩
  rw [if_neg hfew]
  by_cases hbad : which &&& XkbKeySymsMask ≠ 0 ∧ xkb.badKeycodes
  · rw [if_pos hbad]
    exact ⟨xkb, _, rfl, h⟩
  rw [if_neg hbad]
  cases hor : xkb.map.or (if answers.map then some {} else none) with
  | none => exact ⟨xkb, _, rfl, h⟩
  | some map =>
  have hstart : ClientOk xkb.keys xkb.symMap map := by
    cases hmap : xkb.map with
    | some map' =>
      rw [hmap] at hor
      cases hor
      refine ⟨h.types _ hmap, h.syms _ hmap, ?_⟩
      unfold XkbDescRec.symMap
      rw [hmap]
      rfl
    | none =>
      rw [hmap] at hor
      cases hans : answers.map with
      | false =>
        rw [hans] at hor
        cases hor
      | true =>
        rw [hans] at hor
        cases hor
        refine ⟨typesOk_none rfl rfl rfl, ⟨⟨rfl, le_rfl, by decide, fun hsome => by cases hsome⟩, fun m hm => (by cases hm),
          fun hsome => (by cases hsome)⟩, ?_⟩
        unfold XkbDescRec.symMap
        rw [hmap]
        rfl
  dsimp only
  obtain ⟨map', status, hrun, hclient, -⟩ : Goes (ClientOk xkb.keys xkb.symMap) (fun _ => True) (steps
      [asked which XkbKeyTypesMask (allocTypes nTotalTypes answers.types),
        asked which XkbKeySymsMask (steps [allocSyms (xkb.max_key_code + 1 - xkb.min_key_code) answers.syms,
          allocKeySymMap answers.key_sym_map]),
        asked which XkbModifierMapMask (steps [legalKeycodes xkb, allocModmap answers.modmap])]) map := by
    refine (goes_asked (Q := fun _ => True) hstart trivial fun hask => ?_).cons fun map₁ h₁ _ =>
      (goes_asked (Q := fun _ => True) h₁ trivial fun hask => ?_).cons fun map₂ h₂ _ =>
      Goes.cons (Q := fun _ => True) ?_ fun map₃ h₃ _ => goes_nil h₃ trivial
    · obtain ⟨map', status, hrun, ht, hs⟩ := allocTypes_spec hstart.types (hfit hask) answers.types
      exact ⟨map', status, hrun, ⟨ht, hs.symsOk hstart.syms, by rw [hs.keyMap]; exact hstart.records⟩, fun _ => trivial⟩
    · have hlegal : ¬xkb.badKeycodes := fun hb => hbad ⟨hask, hb⟩
      have hmax := h.keycodes
      unfold XkbDescRec.badKeycodes at hlegal
      unfold XkbMaxLegalKeyCode at hmax
      obtain ⟨map', status, hrun, hsyms, hkeys, hsome, htypes⟩ :=
        allocSyms_spec h₁.syms (show 0 < xkb.max_key_code + 1 - xkb.min_key_code by omega) (by omega) answers.syms
      refine Goes.cons ⟨map', status, hrun, ⟨h₁.types.congr htypes, hsyms, by rw [hkeys]; exact h₁.records⟩, hsome⟩
        fun map'' h' hsome' => (allocKeySymMap_spec h' hsome' _).cons fun _ h'' _ => goes_nil h'' trivial
    · exact goes_alloc h₂ trivial rfl
        ⟨h₂.types.congr ⟨rfl, rfl, rfl⟩, ⟨h₂.syms.sized, h₂.syms.laid, h₂.syms.there⟩, h₂.records⟩ trivial
  exact ⟨_, status, by rw [hrun]; rfl, h.setClient hclient⟩

/-! ### Allocation of the server map -/

/-- There is memory for more actions, if they are needed. -/
def ActsAllocRoom (server : XkbServerMapRec) (n : ℕ) (answer : Option (ℕ → XkbAction)) : Prop :=
  (server.acts.isNone → n + 1 < 2 ^ 16) ∧
    (server.acts.isSome → server.num_acts + n ≤ server.size_acts ∨ answer.isSome ∧ server.num_acts + n < 2 ^ 16)

theorem allocActs_spec {n : ℕ} {answer : Option (ℕ → XkbAction)} (h : ActsOk keys M server) (hn : 1 ≤ n)
    (hroom : ActsAllocRoom server n answer) :
    Goes (ActsOk keys M) (fun server' => server'.acts.isSome) (allocActs n answer) server := by
  have hfits := h.sized.fits
  have hsmall := h.sized.small
  unfold Goes allocActs
  cases hacts : server.acts with
  | none =>
    have hfit := hroom.1 (by rw [hacts]; rfl)
    have hnone : server.key_acts = none := by
      cases ha : server.key_acts with
      | none => rfl
      | some a =>
        have := h.there (by rw [ha]; rfl)
        rw [hacts] at this
        cases this
    cases answer with
    | none => exact ⟨server, .BadAlloc, rfl, h, fun hok => (by cases hok)⟩
    | some f =>
      refine ⟨_, .Success, rfl, ⟨⟨?_, ?_, ?_, fun _ => le_rfl⟩, fun a ha => ?_, fun _ => rfl⟩, fun _ => rfl⟩
      · dsimp only [Option.elim]
        rw [length_replicate, Nat.mod_eq_of_lt hfit]
      · dsimp only
        omega
      · exact Nat.mod_lt _ (by decide)
      · cases hnone.symm.trans ha
  | some acts =>
    have hsized := h.sized
    rw [hacts] at hsized
    have hlen := hsized.length
    have hone := hsized.first rfl
    dsimp only
    by_cases hthere : server.num_acts + n ≤ server.size_acts
    · rw [if_pos ((roomFor_iff hfits hsmall).2 hthere)]
      exact ⟨server, .Success, rfl, h, fun _ => by rw [hacts]; rfl⟩
    · rw [if_neg fun hr => hthere ((roomFor_iff hfits hsmall).1 hr)]
      obtain ⟨hsome, hfit⟩ := (hroom.2 (by rw [hacts]; rfl)).resolve_left hthere
      obtain ⟨f, rfl⟩ := isSome_iff_exists.1 hsome
      obtain ⟨acts', hrun, hlen', -⟩ := length_reallocarray (f := f) (show acts.length ≤ server.num_acts + n by omega)
      have hwrite : server.num_acts + (replicate (server.num_acts + n - server.num_acts) ({} : XkbAction)).length ≤
          acts'.length := by
        rw [length_replicate]
        omega
      rw [hrun]
      dsimp only
      rw [Nat.mod_eq_of_lt hfit, if_neg (by omega), poke_eq hwrite]
      exact ⟨_, .Success, rfl, ⟨⟨(length_patch hwrite).trans hlen', by dsimp only; omega, hfit, fun _ => hone⟩, h.laid,
        fun _ => rfl⟩, fun _ => rfl⟩

theorem allocKeyActs_spec (h : ActsOk keys M server) (hacts : server.acts.isSome) (ok : Bool) :
    Goes (ActsOk keys M) (fun _ => True) (allocKeyActs ok) server := by
  refine ⟨_, _, rfl, ?_, fun _ => trivial⟩
  cases ha : server.key_acts with
  | some a => exact ⟨h.sized, fun a' ha' => h.laid a' (ha.trans ha'), fun _ => hacts⟩
  | none =>
    cases ok with
    | false => exact ⟨h.sized, fun a' ha' => (by cases ha'), fun hsome => (by cases hsome)⟩
    | true =>
      refine ⟨h.sized, fun a' ha' => ?_, fun _ => hacts⟩
      cases ha'
      exact ⟨fun _ _ hpos => absurd hpos (lt_irrefl 0), fun _ _ _ _ _ hpos => absurd hpos (lt_irrefl 0)⟩

theorem allocServerMap_inv (h : Inv xkb) (answers : ServerAnswers)
    (hroom : which &&& XkbKeyActionsMask ≠ 0 → ActsAllocRoom (xkb.server.getD {}) (max nNewActions 1) answers.acts) :
    ∃ xkb' status, XkbAllocServerMap xkb which nNewActions answers = .ok (xkb', status) ∧ Inv xkb' := by
  unfold XkbAllocServerMap
  cases hor : xkb.server.or (if answers.map then some {} else none) with
  | none => exact ⟨xkb, _, rfl, h⟩
  | some server =>
  obtain ⟨hstart, hserver⟩ : ActsOk xkb.keys xkb.symMap server ∧ xkb.server.getD {} = server := by
    cases hserver : xkb.server with
    | some server' =>
      rw [hserver] at hor
      cases hor
      exact ⟨h.acts _ hserver, rfl⟩
    | none =>
      rw [hserver] at hor
      cases hans : answers.map with
      | false =>
        rw [hans] at hor
        cases hor
      | true =>
        rw [hans] at hor
        cases hor
        exact ⟨⟨⟨rfl, le_rfl, by decide, fun hsome => by cases hsome⟩, fun a ha => (by cases ha), fun hsome => (by cases hsome)⟩, rfl⟩
  rw [hserver] at hroom
  dsimp only
  obtain ⟨server', status, hrun, hacts, -⟩ : Goes (ActsOk xkb.keys xkb.symMap) (fun _ => True) (steps
      [asked which XkbExplicitComponentsMask (steps [legalKeycodes xkb, allocExplicit answers.explicit]),
        asked which XkbKeyActionsMask (steps [legalKeycodes xkb, allocActs (max nNewActions 1) answers.acts,
          allocKeyActs answers.key_acts]),
        asked which XkbKeyBehaviorsMask (steps [legalKeycodes xkb, allocBehaviors answers.behaviors]),
        asked which XkbVirtualModMapMask (steps [legalKeycodes xkb, allocVmodmap answers.vmodmap])]) server := by
    -- the step before the actions leaves them alone
    have hroom' : ∀ server', server'.acts = server.acts → server'.num_acts = server.num_acts →
        server'.size_acts = server.size_acts →
        (which &&& XkbKeyActionsMask ≠ 0 → ActsAllocRoom server' (max nNewActions 1) answers.acts) := by
      intro server' hacts hnum hsize hask
      unfold ActsAllocRoom
      rw [hacts, hnum, hsize]
      exact hroom hask
    refine Goes.cons (Q := fun server' => which &&& XkbKeyActionsMask ≠ 0 →
        ActsAllocRoom server' (max nNewActions 1) answers.acts)
      (goes_alloc hstart hroom rfl ⟨hstart.sized, hstart.laid, hstart.there⟩ (hroom' _ rfl rfl rfl)) fun server₁ h₁ hroom₁ =>
      (goes_asked (Q := fun _ => True) h₁ trivial fun hask => ?_).cons fun server₂ h₂ _ =>
      Goes.cons (Q := fun _ => True) ?_ fun server₃ h₃ _ => Goes.cons (Q := fun _ => True) ?_ fun server₄ h₄ _ =>
      goes_nil h₄ trivial
    · exact (goes_legal h₁ (hroom₁ hask)).cons fun server₂ h₂ hroom₂ =>
        (allocActs_spec h₂ (le_max_right _ _) hroom₂).cons fun server₃ h₃ hsome =>
        (allocKeyActs_spec h₃ hsome answers.key_acts).cons fun _ h₄ _ => goes_nil h₄ trivial
    · exact goes_alloc h₂ trivial rfl ⟨h₂.sized, h₂.laid, h₂.there⟩ trivial
    · exact goes_alloc h₃ trivial rfl ⟨h₃.sized, h₃.laid, h₃.there⟩ trivial
  rw [hrun]
  refine ⟨_, status, rfl, h.keycodes, h.shape, h.types, h.syms, fun server'' hserver'' => ?_⟩
  cases hserver''
  exact hacts

/-! ### Calls -/

inductive Op
  | allocClientMap (which : Mask) (nTotalTypes : ℕ) (answers : ClientAnswers)
  | allocServerMap (which : Mask) (nNewActions : ℕ) (answers : ServerAnswers)
  | resizeKeySyms (key needed : ℕ) (ok : Bool)
  | resizeKeyActions (key needed : ℕ) (ok : Bool)
  | changeTypesOfKey (key nGroups groups : ℕ) (newTypesIn : Option (ℕ → ℕ)) (changes : Option XkbMapChangesRec)
    (answers : TypesAnswers)
  | resizeKeyType (type_ndx map_count : ℕ) (want_preserve : Bool) (new_num_lvls : ℕ) (answers : KeyTypeAnswers)

/-- The key that the call is about. -/
def Op.key : Op → Option ℕ
  | .resizeKeySyms key _ _ => some key
  | .resizeKeyActions key _ _ => some key
  | .changeTypesOfKey key _ _ _ _ _ => some key
  | _ => none

def exec (xkb : XkbDescRec) : Op → Outcome XkbDescRec
  | .allocClientMap which nTotalTypes answers => do return (← XkbAllocClientMap xkb which nTotalTypes answers).1
  | .allocServerMap which nNewActions answers => do return (← XkbAllocServerMap xkb which nNewActions answers).1
  | .resizeKeySyms key needed ok => do return (← XkbResizeKeySyms xkb key needed ok).1
  | .resizeKeyActions key needed ok => do return (← XkbResizeKeyActions xkb key needed ok).1
  | .changeTypesOfKey key nGroups groups newTypesIn changes answers => do
    return (← XkbChangeTypesOfKey xkb key nGroups groups newTypesIn changes answers).1
  | .resizeKeyType type_ndx map_count want_preserve new_num_lvls answers => do
    return (← XkbResizeKeyType xkb type_ndx map_count want_preserve new_num_lvls answers).1

def step (w : Outcome XkbDescRec) (op : Op) : Outcome XkbDescRec := w >>= fun xkb => exec xkb op

def XkbDescRec.hasKeys (xkb : XkbDescRec) : Bool := (xkb.map.bind (·.key_sym_map)).isSome

def XkbDescRec.hasActs (xkb : XkbDescRec) : Bool := (xkb.server.bind (·.key_acts)).isSome

/-- The key is one of the description, and the maps that the call reads are there. -/
def Callable (xkb : XkbDescRec) : Op → Prop
  | .allocClientMap _ _ _ => True
  | .allocServerMap _ _ _ => True
  | .resizeKeySyms key _ _ => key ∈ xkb.keys ∧ xkb.hasKeys
  | .resizeKeyActions key _ _ => key ∈ xkb.keys ∧ xkb.hasKeys ∧ xkb.hasActs
  | .changeTypesOfKey key _ _ _ _ _ => key ∈ xkb.keys ∧ xkb.hasKeys ∧ xkb.hasActs
  | .resizeKeyType _ _ _ _ _ => xkb.hasKeys

/-- When the call goes right. Sizes fit into their fields and there is memory where an array is to grow.
Symbols are given up only by a key without symbols. A key gets actions for all of its symbols. The types
of the groups are in use, and a key without groups has no actions. A type has at most 63 levels. -/
def Fits (xkb : XkbDescRec) : Op → Prop
  | .allocClientMap which nTotalTypes _ => which &&& XkbKeyTypesMask ≠ 0 → nTotalTypes < 256
  | .allocServerMap which nNewActions answers =>
    which &&& XkbKeyActionsMask ≠ 0 → ActsAllocRoom (xkb.server.getD {}) (max nNewActions 1) answers.acts
  | .resizeKeySyms key needed ok =>
    (needed = 0 → (xkb.symMap key).numSyms = 0) ∧
      ((xkb.symMap key).numSyms < needed → SymsRoom (xkb.map.getD {}) needed ok)
  | .resizeKeyActions key needed ok =>
    (needed = 0 ∨ xkb.keyActs key ≠ 0 ∨ (xkb.symMap key).numSyms ≤ needed) ∧
      (0 < needed → xkb.keyActs key = 0 ∨ actsLen xkb.symMap xkb.keyActs key < needed →
        ActsRoom (xkb.server.getD {}) needed ok)
  | .changeTypesOfKey key nGroups groups newTypesIn _ answers =>
    nGroups ≠ 0 → groups % 16 ≠ 0 → nGroups ≤ XkbNumKbdGroups → newTypesIn.isSome →
      TypesFit (xkb.map.getD {}) (xkb.server.getD {}) xkb.symMap xkb.keyActs key nGroups groups
        (newTypesIn.getD fun _ => 0) answers
  | .resizeKeyType type_ndx _ _ new_num_lvls answers =>
    type_ndx < (xkb.map.getD {}).num_types → new_num_lvls ≤ XkbMaxShiftLevel ∧
      GrowRoom xkb.keys xkb.symMap type_ndx (levelsOf (xkb.map.getD {}) type_ndx) new_num_lvls answers.syms

/-- The array is as large as its size says, and the blocks of the keys lie apart from each other in the
cells in use. -/
structure Stored {α : Type} (keys : List ℕ) (cells : Option (List α)) (size used : ℕ) (off len : ℕ → ℕ) : Prop where
  allocated : cells.elim 0 List.length = size
  fits : used ≤ size
  laid : Laid keys off len used

structure Sound (xkb : XkbDescRec) : Prop where
  syms : ∀ map, xkb.map = some map →
    Stored xkb.keys map.syms map.size_syms map.num_syms (symsAt xkb.symMap) (symsLen xkb.symMap)
  acts : ∀ server, xkb.server = some server →
    Stored xkb.keys server.acts server.size_acts server.num_acts xkb.keyActs (actsLen xkb.symMap xkb.keyActs)

theorem laid_default (keys : List ℕ) (offs : ℕ → ℕ) (used : ℕ) : Laid keys offs (fun _ => 0) used :=
  ⟨fun _ _ hpos => absurd hpos (lt_irrefl 0), fun _ _ _ _ _ hpos => absurd hpos (lt_irrefl 0)⟩

theorem Inv.sound (h : Inv xkb) : Sound xkb := by
  refine ⟨fun map hmap => ?_, fun server hserver => ?_⟩
  · have hsyms := h.syms map hmap
    refine ⟨hsyms.sized.allocated, hsyms.sized.fits, ?_⟩
    cases hm : map.key_sym_map with
    | some m =>
      rw [symMap_eq hmap hm]
      exact hsyms.laid m hm
    | none =>
      have hsym : xkb.symMap = fun _ => {} := by
        unfold XkbDescRec.symMap
        rw [hmap, bind_some, hm]
        rfl
      rw [hsym]
      exact laid_default _ _ _
  · have hacts := h.acts server hserver
    refine ⟨hacts.sized.allocated, hacts.sized.fits, ?_⟩
    cases ha : server.key_acts with
    | some a =>
      rw [keyActs_eq hserver ha]
      exact hacts.laid a ha
    | none =>
      have hkeys : xkb.keyActs = fun _ => 0 := by
        unfold XkbDescRec.keyActs
        rw [hserver, bind_some, ha]
        rfl
      rw [hkeys]
      exact laid_default _ _ _

theorem hasKeys_get (h : xkb.hasKeys) : ∃ map m, xkb.map = some map ∧ map.key_sym_map = some m := by
  obtain ⟨m, hm⟩ := isSome_iff_exists.1 h
  obtain ⟨map, hmap, hm⟩ := bind_eq_some_iff.1 hm
  exact ⟨map, m, hmap, hm⟩

theorem hasActs_get (h : xkb.hasActs) : ∃ server a, xkb.server = some server ∧ server.key_acts = some a := by
  obtain ⟨a, ha⟩ := isSome_iff_exists.1 h
  obtain ⟨server, hserver, ha⟩ := bind_eq_some_iff.1 ha
  exact ⟨server, a, hserver, ha⟩

/-- **A call keeps the invariant**, does not fault, and keeps what belongs to other keys. -/
theorem exec_inv {op : Op} (h : Inv xkb) (hc : Callable xkb op) (hf : Fits xkb op) :
    ∃ xkb', exec xkb op = .ok xkb' ∧ Inv xkb' ∧
      ∀ key, op.key = some key → ∀ i ∈ xkb.keys, i ≠ key → Kept xkb xkb' i := by
  cases op with
  | allocClientMap which nTotalTypes answers =>
    obtain ⟨xkb', status, hrun, hinv⟩ := allocClientMap_inv h hf answers
    exact ⟨xkb', by rw [exec, hrun]; rfl, hinv, fun _ hkey => by cases hkey⟩
  | allocServerMap which nNewActions answers =>
    obtain ⟨xkb', status, hrun, hinv⟩ := allocServerMap_inv h answers hf
    exact ⟨xkb', by rw [exec, hrun]; rfl, hinv, fun _ hkey => by cases hkey⟩
  | resizeKeySyms key needed ok =>
    obtain ⟨hkey, hkeys⟩ := hc
    obtain ⟨map, m, hmap, hm⟩ := hasKeys_get hkeys
    unfold Fits at hf
    rw [symMap_eq hmap hm, hmap] at hf
    obtain ⟨map', m', p, hrun, -, hinv, hkept⟩ := resizeKeySyms_inv _ _ h hmap hm hkey hf.1 hf.2
    refine ⟨_, by rw [exec, hrun]; rfl, hinv, fun key' hkey' => ?_⟩
    cases hkey'
    exact hkept
  | resizeKeyActions key needed ok =>
    obtain ⟨hkey, hkeys, hacts⟩ := hc
    obtain ⟨map, m, hmap, hm⟩ := hasKeys_get hkeys
    obtain ⟨server, a, hserver, ha⟩ := hasActs_get hacts
    unfold Fits at hf
    rw [symMap_eq hmap hm, keyActs_eq hserver ha, hserver] at hf
    obtain ⟨xkb', p, hrun, hinv, hkept⟩ := resizeKeyActions_inv _ _ h hmap hm hserver ha hkey hf.1 hf.2
    refine ⟨xkb', by rw [exec, hrun]; rfl, hinv, fun key' hkey' => ?_⟩
    cases hkey'
    exact hkept
  | changeTypesOfKey key nGroups groups newTypesIn changes answers =>
    obtain ⟨hkey, hkeys, hacts⟩ := hc
    obtain ⟨map, m, hmap, hm⟩ := hasKeys_get hkeys
    obtain ⟨server, a, hserver, ha⟩ := hasActs_get hacts
    unfold Fits at hf
    rw [symMap_eq hmap hm, keyActs_eq hserver ha, hserver, hmap] at hf
    obtain ⟨xkb', changes', status, hrun, hinv, hkept⟩ :=
      changeTypesOfKey_inv nGroups answers h hmap hm hserver ha hkey groups newTypesIn (fun types htypes hne hgroups hmax => by
          have := hf hne hgroups hmax (by rw [htypes]; rfl)
          rwa [htypes] at this) changes
    refine ⟨xkb', by rw [exec, hrun]; rfl, hinv, fun key' hkey' => ?_⟩
    cases hkey'
    exact hkept
  | resizeKeyType type_ndx map_count want_preserve new_num_lvls answers =>
    obtain ⟨map, m, hmap, hm⟩ := hasKeys_get hc
    unfold Fits at hf
    rw [symMap_eq hmap hm, hmap] at hf
    obtain ⟨xkb', status, hrun, hinv⟩ := resizeKeyType_inv h hmap hm map_count want_preserve answers hf
    exact ⟨xkb', by rw [exec, hrun]; rfl, hinv, fun _ hkey => by cases hkey⟩

/-! ### Deciding the conditions -/

section Decidable

variable {n key nGroups groups : ℕ} {newTypesIn : ℕ → ℕ} {answers : TypesAnswers} {ok : Bool}

instance : Decidable (SymsRoom map n ok) := inferInstanceAs (Decidable (_ ∨ _))

instance : Decidable (ActsRoom server n ok) := inferInstanceAs (Decidable (_ ∨ _))

instance {answer : Option (ℕ → XkbAction)} : Decidable (ActsAllocRoom server n answer) :=
  inferInstanceAs (Decidable ((_ → _) ∧ (_ → _)))

instance {type_ndx num_levels new_num_lvls : ℕ} : Decidable (GrowRoom keys m type_ndx num_levels new_num_lvls ok) :=
  inferInstanceAs (Decidable (_ → _))

instance {r : XkbSymMapRec} : Decidable (Retyped map r nGroups groups newTypesIn) := inferInstanceAs (Decidable (_ ∨ _))

instance : Decidable (TypesFit map server m a key nGroups groups newTypesIn answers) :=
  decidable_of_iff ((∀ i < nGroups, newType (m key) groups newTypesIn i ≠ map.num_types) ∧
      (Retyped map (m key) nGroups groups newTypesIn → ∀ i < nGroups, i < (m key).numGroups →
        (m key).keyTypeIndex i < map.num_types) ∧
      ((m key).numGroups = 0 → a key = 0) ∧
      ((m key).numSyms < neededSyms map (m key) nGroups groups newTypesIn →
        SymsRoom map (neededSyms map (m key) nGroups groups newTypesIn) answers.syms) ∧
      (a key ≠ 0 → (m key).numSyms < neededSyms map (m key) nGroups groups newTypesIn →
        ActsRoom server (neededSyms map (m key) nGroups groups newTypesIn) answers.acts))
    ⟨fun ⟨h₁, h₂, h₃, h₄, h₅⟩ => ⟨h₁, h₂, h₃, h₄, h₅⟩, fun h => ⟨h.named, h.old, h.actions, h.symsRoom, h.actsRoom⟩⟩

instance Callable.decidable (xkb : XkbDescRec) : ∀ op, Decidable (Callable xkb op)
  | .allocClientMap _ _ _ => inferInstanceAs (Decidable True)
  | .allocServerMap _ _ _ => inferInstanceAs (Decidable True)
  | .resizeKeySyms _ _ _ => inferInstanceAs (Decidable (_ ∧ _))
  | .resizeKeyActions _ _ _ => inferInstanceAs (Decidable (_ ∧ _))
  | .changeTypesOfKey _ _ _ _ _ _ => inferInstanceAs (Decidable (_ ∧ _))
  | .resizeKeyType _ _ _ _ _ => inferInstanceAs (Decidable (xkb.hasKeys = true))

instance Fits.decidable (xkb : XkbDescRec) : ∀ op, Decidable (Fits xkb op)
  | .allocClientMap _ _ _ => inferInstanceAs (Decidable (_ → _))
  | .allocServerMap _ _ _ => inferInstanceAs (Decidable (_ → _))
  | .resizeKeySyms _ _ _ => inferInstanceAs (Decidable ((_ → _) ∧ (_ → _)))
  | .resizeKeyActions _ _ _ => inferInstanceAs (Decidable (_ ∧ (_ → _ → _)))
  | .changeTypesOfKey _ _ _ _ _ _ => inferInstanceAs (Decidable (_ → _ → _ → _ → _))
  | .resizeKeyType _ _ _ _ _ => inferInstanceAs (Decidable (_ → _))

end Decidable

/-! ### Runs -/

def Allowed (w : Outcome XkbDescRec) (op : Op) : Prop :=
  match w with
  | .ok xkb => Callable xkb op
  | .error _ => True

def Meets (w : Outcome XkbDescRec) (op : Op) : Prop :=
  match w with
  | .ok xkb => Fits xkb op
  | .error _ => True

instance Allowed.decidable : ∀ w op, Decidable (Allowed w op)
  | .ok xkb, op => inferInstanceAs (Decidable (Callable xkb op))
  | .error _, _ => inferInstanceAs (Decidable True)

instance Meets.decidable : ∀ w op, Decidable (Meets w op)
  | .ok xkb, op => inferInstanceAs (Decidable (Fits xkb op))
  | .error _, _ => inferInstanceAs (Decidable True)

theorem run_inv {ops : List Op} (h : Inv xkb)
    (hsteps : AllSteps step (fun w op => Allowed w op ∧ Meets w op) (.ok xkb) ops) :
    ∃ xkb', run step (.ok xkb) ops = .ok xkb' ∧ Inv xkb' := by
  refine AllSteps.invariant (P := fun w => ∃ xkb', w = .ok xkb' ∧ Inv xkb') ?_ hsteps ⟨xkb, rfl, h⟩
  rintro w op ⟨ha, hm⟩ ⟨xkb', rfl, hinv⟩
  obtain ⟨xkb'', hexec, hinv', -⟩ := exec_inv hinv ha hm
  exact ⟨xkb'', hexec, hinv'⟩

/-- **XKB storage**: after a run of calls that go right, the arrays of symbols and actions are sound, and no
call about a key changed what belongs to another one. -/
theorem xkb_storage_sound {ops : List Op} (h : Inv xkb)
    (hsteps : AllSteps step (fun w op => Allowed w op ∧ Meets w op) (.ok xkb) ops) :
    (∃ xkb', run step (.ok xkb) ops = .ok xkb' ∧ Sound xkb') ∧
      ∀ past op future, ops = past ++ op :: future → ∃ x x', run step (.ok xkb) past = .ok x ∧ exec x op = .ok x' ∧
        ∀ key, op.key = some key → ∀ i ∈ x.keys, i ≠ key → x'.symbols i = x.symbols i ∧ x'.actions i = x.actions i := by
  obtain ⟨xkb', hrun, hinv⟩ := run_inv h hsteps
  refine ⟨⟨xkb', hrun, hinv.sound⟩, ?_⟩
  rintro past op future rfl
  obtain ⟨hpast, hrest⟩ := allSteps_append.1 hsteps
  obtain ⟨x, hx, hxinv⟩ := run_inv h hpast
  rw [hx] at hrest
  obtain ⟨ha, hm⟩ := hrest.1
  obtain ⟨x', hexec, -, hkept⟩ := exec_inv hxinv ha hm
  exact ⟨x, x', hx, hexec, fun key hkey i hi hne => ⟨(hkept key hkey i hi hne).symbols, (hkept key hkey i hi hne).actions⟩⟩

/-- Two keys, and types of one and two levels. -/
def twoTypes : XkbDescRec where
  min_key_code := 8
  max_key_code := 9
  map := some { types := some [{ num_levels := 1 }, { num_levels := 2 }], num_types := 2, size_types := 2 }

theorem inv_twoTypes : Inv twoTypes := by
  refine ⟨by decide, fun _ => shaped_default, fun map hmap => ?_, fun map hmap => ?_, fun server hserver => by cases hserver⟩
  · cases hmap
    refine ⟨by decide, rfl, fun types htypes t type ht hget => ?_⟩
    cases htypes
    obtain rfl | rfl : t = 0 ∨ t = 1 := by
      have : t < 2 := ht
      omega
    · cases hget
      decide
    · cases hget
      decide
  · cases hmap
    exact ⟨⟨rfl, le_rfl, by decide, fun hsome => by cases hsome⟩, fun m hm => (by cases hm), fun hsome => (by cases hsome)⟩

/-- A key gets symbols and actions, and then a second group, for which the symbols are laid out anew. -/
theorem xkb_storage_sound_two_groups :
    (∃ xkb', run step (.ok twoTypes) [.allocClientMap XkbKeySymsMask 0 {},
        .allocServerMap XkbKeyActionsMask 0 { acts := some fun _ => {} }, .changeTypesOfKey 8 1 1 (some fun _ => 1) none {},
        .resizeKeyActions 8 2 true, .changeTypesOfKey 8 2 3 (some id) none {}, .resizeKeySyms 9 1 true] = .ok xkb' ∧
      Sound xkb') ∧
      ∀ past op future, [.allocClientMap XkbKeySymsMask 0 {},
        .allocServerMap XkbKeyActionsMask 0 { acts := some fun _ => {} }, .changeTypesOfKey 8 1 1 (some fun _ => 1) none {},
        .resizeKeyActions 8 2 true, .changeTypesOfKey 8 2 3 (some id) none {}, .resizeKeySyms 9 1 true] =
          past ++ op :: future → ∃ x x', run step (.ok twoTypes) past = .ok x ∧ exec x op = .ok x' ∧
        ∀ key, op.key = some key → ∀ i ∈ x.keys, i ≠ key → x'.symbols i = x.symbols i ∧ x'.actions i = x.actions i := by
  exact xkb_storage_sound inv_twoTypes (by decide +kernel)

/-- The size that is kept for the symbols is not the one allocated. -/
def missized (w : Outcome XkbDescRec) : Bool :=
  match w with
  | .ok xkb => xkb.map.any fun map => map.syms.elim 0 List.length ≠ map.size_syms
  | .error _ => false

theorem unsound_of_missized {w : Outcome XkbDescRec} (h : missized w) : ∃ xkb', w = .ok xkb' ∧ ¬Sound xkb' := by
  match w, h with
  | .ok xkb', h =>
    refine ⟨xkb', rfl, fun hs => ?_⟩
    obtain ⟨map, hmap, hne⟩ := (any_eq_true _ _).1 h
    exact of_decide_eq_true hne (hs.syms map hmap).allocated

/-- There is no memory for the symbols of a key: the array stays, its size is counted up, and the next call
writes behind its end. -/
theorem xkb_storage_unsound :
    (AllSteps step Allowed (.ok twoTypes) [.allocClientMap XkbKeySymsMask 0 {}, .resizeKeySyms 8 3 false] ∧
      ∃ xkb', run step (.ok twoTypes) [.allocClientMap XkbKeySymsMask 0 {}, .resizeKeySyms 8 3 false] = .ok xkb' ∧
        ¬Sound xkb') ∧
    AllSteps step Allowed (.ok twoTypes) [.allocClientMap XkbKeySymsMask 0 {}, .resizeKeySyms 8 3 false,
        .resizeKeySyms 8 3 true] ∧
      run step (.ok twoTypes) [.allocClientMap XkbKeySymsMask 0 {}, .resizeKeySyms 8 3 false, .resizeKeySyms 8 3 true] =
        .error .fault := by
  exact ⟨⟨by decide +kernel, unsound_of_missized (by decide +kernel)⟩, by decide +kernel, rfl⟩

end Xenia.Xext.Xkb
