import Xenia.Dix.GrabsCovered

/-!
# Taking a grab out of a list

`DeletePassiveGrabFromList` gathers what is to be done with each grab, and puts it into effect
only if no allocation has failed. `stageGrabs_spec` says what is gathered, `commit_eq` that the
list then has the pieces of each grab. Two things can go wrong (`Faulty`): the modifiers of a
request that are beyond a mask, and an XI2 grab that is split.

`delete_correct_iff` is the result: the call is correct, whatever memory there is, exactly if
neither happens and no grab is for more devices than the minuend where they overlap.
-/

namespace Xenia.Dix

open Xenia.Lib List

/-! ### What goes wrong -/

/-- The loop follows a pointer it must not follow. -/
inductive Faulty (m g : Grab) : Prop
  /-- The modifiers of the minuend are beyond the mask of the grab. -/
  | outside (hclient : g.resource.client = m.resource.client) (hsame : sameEvents g m (g.grabtype = .core) = true)
      (hwild : g.modifiersDetail.exact = anyModifier m.grabtype)
      (hexact : m.modifiersDetail.exact ≠ anyModifier m.grabtype) (hbig : 256 ≤ m.modifiersDetail.exact)
      (hread : g.modifiersDetail.pMask ≠ none ∨ meets AnyKey g.detail m.detail = true)
  /-- The grab that is split off has no event masks to take over. -/
  | split (hclient : g.resource.client = m.resource.client) (hsame : sameEvents g m (g.grabtype = .core) = true)
      (hmod : Cut (anyModifier m.grabtype) g.modifiersDetail m.modifiersDetail)
      (hdetail : Cut AnyKey g.detail m.detail) (hxi2 : g.grabtype = .xi2)

/-- There is memory for all that one grab needs. -/
def SplitAnswers.Enough (a : SplitAnswers) : Prop := a = ⟨true, true, true, true, true⟩

/-- What the loop gathers for a grab, if there is memory. -/
def Staged.effect (m : Grab) (staged : Staged) (g : Grab) : Staged :=
  match fate m g with
  | .keep => staged
  | .delete => { staged with deletes := staged.deletes ++ [g.resource] }
  | .update field => { staged with
      updates := staged.updates ++ [(g.resource, field, removeDetail (g.field field).pMask (m.field field).exact)] }
  | .split => { staged with
      updates := staged.updates ++ [(g.resource, .detail, removeDetail g.detail.pMask m.detail.exact)]
      adds := staged.adds ++ [splitOff m g staged.nextId]
      nextId := staged.nextId + 1 }

section Stage

variable {m g : Grab} {staged : Staged} {a : SplitAnswers}

theorem sameEvents_level {ignoreDevice : Bool} (h : sameEvents g m ignoreDevice = true) : g.grabtype = m.grabtype := by
  unfold sameEvents at h
  simp only [Bool.and_eq_true, decide_eq_true_eq] at h
  exact h.1.1

theorem cut_meets {exception : ℕ} {r s : DetailRec} (h : Cut exception r s) : meets exception r s = true := by
  have hhas := h.has
  unfold DetailRec.has at hhas
  rw [if_pos h.wild] at hhas
  unfold meets supersedes
  rw [if_pos h.wild, Bool.or_eq_true]
  refine .inl ?_
  cases hm : r.pMask with
  | none => rfl
  | some mask =>
    rw [hm] at hhas
    simp only [Option.all_some] at hhas ⊢
    rw [hhas, decide_eq_true h.exact]
    rfl

theorem cut_not_supersedes {exception : ℕ} {r s : DetailRec} (h : Cut exception r s) :
    supersedes exception s r = false := by
  unfold supersedes
  rw [if_neg h.exact, h.wild]
  exact decide_eq_false h.exact

variable {exact : ℕ}

theorem update_eq (field : DetailField) (h : exact < 256) (memory : Bool) :
    staged.update g field exact memory = .ok (if memory then
      { staged with updates := staged.updates ++ [(g.resource, field, removeDetail (g.field field).pMask exact)] }
      else { staged with ok := false }) := by
  unfold Staged.update
  rw [deleteDetailFromMask_eq _ h]
  cases memory <;> rfl

theorem update_fault (field : DetailField) (h : 256 ≤ exact) :
    staged.update g field exact true = .error .fault := by
  unfold Staged.update deleteDetailFromMask
  rw [if_neg (by simp), if_neg (by omega)]
  rfl

theorem ofNat_toNat_bit (b : BitVec 1) : BitVec.ofNat 1 (UInt32.ofNat b.toNat).toNat = b := by
  have hb : b.toNat < 2 := b.isLt
  rw [UInt32.toNat_ofNat_of_lt' (lt_trans hb (by decide))]
  exact BitVec.eq_of_toNat_eq (by rw [BitVec.toNat_ofNat, Nat.mod_eq_of_lt b.isLt])

/-- **The grab that is split off**, on the levels where it takes over the event mask. -/
theorem splitGrab_eq (hg : g.Ok) (hm : m.Plain) (hxi2 : g.grabtype ≠ .xi2) (hlevel : g.grabtype = m.grabtype)
    (id : ℕ) (memory : Bool) :
    ∃ pNewGrab, splitGrab m g id memory = .ok (if memory then some pNewGrab else none) ∧
      pNewGrab.setMask .modifiers (removeDetail g.modifiersDetail.pMask m.modifiersDetail.exact) = splitOff m g id := by
  have hzero := hg.xi2mask hxi2
  have hlow : g.grabtype = .core ∨ g.grabtype = .xi := by
    cases h : g.grabtype with
    | core => exact .inl rfl
    | xi => exact .inr rfl
    | xi2 => exact absurd h hxi2
  have hany : (UInt32.ofNat (anyModifier m.grabtype)).toNat = anyModifier m.grabtype := by
    cases m.grabtype <;> decide
  have hdetail : (UInt8.ofNat m.detail.exact).toNat = m.detail.exact := UInt8.toNat_ofNat_of_lt' hm.detail_lt
  refine ⟨{ splitOff m g id with modifiersDetail := ⟨anyModifier m.grabtype, none⟩ }, ?_, rfl⟩
  unfold splitGrab createGrab
  cases memory with
  | false => rfl
  | true =>
    rw [if_neg (by simp), if_neg hxi2, if_pos hlow]
    rw [hany, hdetail, ofNat_toNat_bit, ofNat_toNat_bit, ofNat_toNat_bit]
    cases g
    subst hzero
    rfl

theorem splitGrab_fault (hxi2 : g.grabtype = .xi2) (id : ℕ) : splitGrab m g id true = .error .fault := by
  unfold splitGrab createGrab Grab.eventMaskAsGrabMask
  rw [if_neg (by simp), if_pos hxi2]

/-- The comparison does not look beyond a mask. -/
theorem matches_eq (hm : m.Plain) (h : ¬(g.modifiersDetail.exact = anyModifier m.grabtype ∧
      m.modifiersDetail.exact ≠ anyModifier m.grabtype ∧ 256 ≤ m.modifiersDetail.exact ∧
      g.modifiersDetail.pMask ≠ none ∧ sameEvents g m (g.grabtype = .core) = true)) :
    grabMatchesSecond g m (g.grabtype = .core) = .ok (grabMatches g m (g.grabtype = .core)) := by
  refine grabMatchesSecond_eq _ (fun hsame => ⟨?_, hm.readable_modifiers g _⟩)
    ⟨(hm.readable_detail g).2, (hm.readable_detail g).1⟩
  rw [sameEvents_level hsame]
  intro hwild hmask
  by_contra hno
  rw [not_or, not_lt] at hno
  exact h ⟨hwild, hno.1, hno.2, hmask, hsame⟩

/-- **One grab**, where nothing goes wrong. -/
theorem stageGrab_spec (staged : Staged) (a : SplitAnswers) (hg : g.Ok) (hm : m.Plain) (hfault : ¬Faulty m g) :
    ∃ s, staged.grab m g a = .ok s ∧ staged.nextId ≤ s.nextId ∧ (s.ok = true → s = staged.effect m g) ∧
      (a.Enough → s = staged.effect m g) := by
  unfold Staged.grab
  by_cases hclient : g.resource.client = m.resource.client
  swap
  · have hf : fate m g = .keep := by
      unfold fate
      rw [if_pos hclient]
    refine ⟨staged, if_pos hclient, le_refl _, ?_, ?_⟩
    all_goals unfold Staged.effect; rw [hf]; exact fun _ => rfl
  rw [if_neg (not_not.2 hclient), matches_eq hm (fun ⟨h₁, h₂, h₃, h₄, h₅⟩ =>
    hfault (.outside hclient h₅ h₁ h₂ h₃ (.inl h₄))), ok_bind]
  cases hmatch : grabMatches g m (g.grabtype = .core) with
  | false =>
    have hf : fate m g = .keep := by
      unfold fate
      rw [if_neg (not_not.2 hclient), if_pos (by simp [hmatch])]
    refine ⟨staged, rfl, le_refl _, ?_, ?_⟩
    all_goals unfold Staged.effect; rw [hf]; exact fun _ => rfl
  | true =>
    have hlevel := grabMatches_level hmatch
    have hmeets := hmatch
    unfold grabMatches at hmeets
    rw [Bool.and_eq_true, Bool.and_eq_true] at hmeets
    obtain ⟨hsame, -, hmeets⟩ := hmeets
    -- the modifiers that are cut out are in the mask
    have hlt : ∀ s, Cut (anyModifier m.grabtype) g.modifiersDetail s → s = m.modifiersDetail → s.exact < 256 := by
      rintro s hcut rfl
      by_contra hbig
      exact hfault (.outside hclient hsame hcut.wild hcut.exact (by omega) (.inr hmeets))
    have hfate : fate m g = if grabSupersedes m g then .delete
        else if g.detail.exact = anyKey m.grabtype ∧ g.modifiersDetail.exact ≠ anyModifier m.grabtype then
          .update .detail
        else if g.modifiersDetail.exact = anyModifier m.grabtype ∧ g.detail.exact ≠ anyKey m.grabtype then
          .update .modifiers
        else if m.detail.exact ≠ anyKey m.grabtype ∧ m.modifiersDetail.exact ≠ anyModifier m.grabtype then .split
        else if m.detail.exact = anyKey m.grabtype then .update .modifiers
        else .update .detail := by
      unfold fate
      rw [if_neg (not_not.2 hclient), if_neg (by simp [hmatch])]
    have hne : fate m g ≠ .keep := by
      rw [hfate]
      split_ifs <;> simp
    have hfated := fate_fated hm hne
    have hmask : ∀ field, fate m g = .update field → ∃ s, staged.update g field (m.field field).exact a.update = .ok s ∧
        staged.nextId ≤ s.nextId ∧ (s.ok = true → s = staged.effect m g) ∧ (a.Enough → s = staged.effect m g) := by
      intro field hf
      have hsmall : (m.field field).exact < 256 := by
        rw [hf] at hfated
        cases hfated with
        | detail hcut _ => exact hm.detail_lt
        | modifiers hcut _ => exact hlt _ hcut rfl
      refine ⟨_, update_eq field hsmall a.update, ?_, ?_, ?_⟩
      · cases a.update <;> exact le_refl _
      · cases a.update with
        | false => simp
        | true =>
          intro _
          unfold Staged.effect
          rw [hf]
          rfl
      · intro henough
        rw [henough]
        unfold Staged.effect
        rw [hf]
        rfl
    rw [grabSupersedesSecond_eq hm, ok_bind]
    by_cases hsup : grabSupersedes m g = true
    · rw [if_pos hsup] at hfate ⊢
      refine ⟨_, rfl, le_refl _, ?_, ?_⟩
      all_goals unfold Staged.effect; rw [hfate]; exact fun _ => rfl
    rw [if_neg hsup] at hfate ⊢
    by_cases h₁ : g.detail.exact = anyKey m.grabtype ∧ g.modifiersDetail.exact ≠ anyModifier m.grabtype
    · rw [if_pos h₁] at hfate ⊢
      exact hmask .detail hfate
    rw [if_neg h₁] at hfate ⊢
    by_cases h₂ : g.modifiersDetail.exact = anyModifier m.grabtype ∧ g.detail.exact ≠ anyKey m.grabtype
    · rw [if_pos h₂] at hfate ⊢
      exact hmask .modifiers hfate
    rw [if_neg h₂] at hfate ⊢
    by_cases h₃ : m.detail.exact ≠ anyKey m.grabtype ∧ m.modifiersDetail.exact ≠ anyModifier m.grabtype
    · rw [if_pos h₃] at hfate ⊢
      -- the grab is split
      rw [hfate] at hfated
      cases hfated with
      | split hmod hdetail =>
        have hxi2 : g.grabtype ≠ .xi2 := fun h => hfault (.split hclient hsame hmod hdetail h)
        have hsmall := hlt _ hmod rfl
        unfold Staged.split
        rw [update_eq .detail hm.detail_lt, ok_bind]
        obtain ⟨pNewGrab, hnew, hset⟩ := splitGrab_eq hg hm hxi2 hlevel
          (if a.update then { staged with
              updates := staged.updates ++
                [(g.resource, DetailField.detail, removeDetail (g.field .detail).pMask m.detail.exact)] }
            else { staged with ok := false }).nextId a.grab
        rw [hnew]
        have hid : (if a.update then { staged with
              updates := staged.updates ++
                [(g.resource, DetailField.detail, removeDetail (g.field .detail).pMask m.detail.exact)] }
            else { staged with ok := false } : Staged).nextId = staged.nextId := by
          cases a.update <;> rfl
        rw [hid] at hset
        have heffect : staged.effect m g = { staged with
            updates := staged.updates ++ [(g.resource, .detail, removeDetail g.detail.pMask m.detail.exact)]
            adds := staged.adds ++ [splitOff m g staged.nextId]
            nextId := staged.nextId + 1 } := by
          unfold Staged.effect
          rw [hfate]
        rw [heffect, ← hset, deleteDetailFromMask_eq _ hsmall]
        obtain ⟨update, grab, mask, optional, resource⟩ := a
        have hle : ∀ s : Staged, s.nextId = staged.nextId → staged.nextId ≤ s.nextId := fun s h => h.ge
        have hle' : ∀ s : Staged, s.nextId = staged.nextId + 1 → staged.nextId ≤ s.nextId := fun s h => by omega
        cases grab with
        | false => exact ⟨_, rfl, hle _ (by cases update <;> rfl), fun h => (nomatch h), fun h => nomatch h⟩
        | true =>
          cases mask with
          | false => exact ⟨_, rfl, hle' _ (by cases update <;> rfl), fun h => (nomatch h), fun h => nomatch h⟩
          | true =>
            cases optional with
            | false => exact ⟨_, rfl, hle' _ (by cases update <;> rfl), fun h => (nomatch h), fun h => nomatch h⟩
            | true =>
              cases resource with
              | false => exact ⟨_, rfl, hle' _ (by cases update <;> rfl), fun h => (nomatch h), fun h => nomatch h⟩
              | true =>
                cases update with
                | false => exact ⟨_, rfl, hle' _ rfl, fun h => (nomatch h), fun h => nomatch h⟩
                | true => exact ⟨_, rfl, hle' _ rfl, fun _ => rfl, fun _ => rfl⟩
    rw [if_neg h₃] at hfate ⊢
    by_cases h₄ : m.detail.exact = anyKey m.grabtype
    · rw [if_pos h₄] at hfate ⊢
      exact hmask .modifiers hfate
    · rw [if_neg h₄] at hfate ⊢
      exact hmask .detail hfate

/-- The detail of the minuend is read before a mask is cut, and is in it. -/
theorem split_fault (hm : m.Plain) (hg : g.Ok) (hlevel : g.grabtype = m.grabtype)
    (h : g.grabtype = .xi2 ∨ 256 ≤ m.modifiersDetail.exact) :
    staged.split m g a = .error .fault ∨
      ∃ s, staged.split m g a = .ok s ∧ staged.nextId ≤ s.nextId ∧ s.ok = false ∧ ¬a.Enough := by
  unfold Staged.split
  rw [update_eq .detail hm.detail_lt, ok_bind]
  obtain ⟨s₁, hs₁⟩ : ∃ s₁ : Staged, s₁ = (if a.update then { staged with
      updates := staged.updates ++ [(g.resource, DetailField.detail, removeDetail (g.field .detail).pMask m.detail.exact)] }
    else { staged with ok := false }) := ⟨_, rfl⟩
  have hid : s₁.nextId = staged.nextId := by
    rw [hs₁]
    cases a.update <;> rfl
  rw [← hs₁]
  cases hgrab : a.grab with
  | false =>
    refine .inr ⟨{ s₁ with ok := false }, rfl, hid.ge, rfl, fun h => ?_⟩
    rw [h] at hgrab
    simp at hgrab
  | true =>
    by_cases hxi2 : g.grabtype = .xi2
    · refine .inl ?_
      rw [splitGrab_fault hxi2]
      rfl
    · obtain ⟨pNewGrab, hnew, -⟩ := splitGrab_eq hg hm hxi2 hlevel s₁.nextId true
      rw [hnew, if_pos rfl]
      have hbig := h.resolve_left hxi2
      cases hmask : a.mask with
      | false =>
        refine .inr ⟨{ s₁ with ok := false, nextId := s₁.nextId + 1 }, rfl, ?_, rfl, fun h => ?_⟩
        · show staged.nextId ≤ s₁.nextId + 1
          omega
        · rw [h] at hmask
          simp at hmask
      | true =>
        refine .inl ?_
        unfold deleteDetailFromMask
        rw [if_neg (by simp), if_neg (by omega)]
        rfl

theorem update_fault_or (field : DetailField) (h : 256 ≤ exact) :
    staged.update g field exact a.update = .error .fault ∨
      ∃ s, staged.update g field exact a.update = .ok s ∧ staged.nextId ≤ s.nextId ∧ s.ok = false ∧ ¬a.Enough := by
  cases hu : a.update with
  | true => exact .inl (update_fault field h)
  | false =>
    refine .inr ⟨{ staged with ok := false }, rfl, le_refl _, rfl, fun h => ?_⟩
    rw [h] at hu
    simp at hu

/-- **One grab**, where something goes wrong: this is so unless memory runs out before. -/
theorem stageGrab_faulty (staged : Staged) (a : SplitAnswers) (hg : g.Ok) (hm : m.Plain) (h : Faulty m g) :
    staged.grab m g a = .error .fault ∨
      ∃ s, staged.grab m g a = .ok s ∧ staged.nextId ≤ s.nextId ∧ s.ok = false ∧ ¬a.Enough := by
  have hkey : anyKey m.grabtype = AnyKey := by
    unfold anyKey
    split <;> rfl
  have hcases : g.resource.client = m.resource.client ∧ sameEvents g m (g.grabtype = .core) = true ∧
      g.modifiersDetail.exact = anyModifier m.grabtype ∧ m.modifiersDetail.exact ≠ anyModifier m.grabtype := by
    cases h with
    | outside h₁ h₂ h₃ h₄ _ _ => exact ⟨h₁, h₂, h₃, h₄⟩
    | split h₁ h₂ h₃ _ _ => exact ⟨h₁, h₂, h₃.wild, h₃.exact⟩
  obtain ⟨hclient, hsame, hwild, hexact⟩ := hcases
  have hlevel := sameEvents_level hsame
  unfold Staged.grab
  rw [if_neg (not_not.2 hclient)]
  by_cases hread : 256 ≤ m.modifiersDetail.exact ∧ g.modifiersDetail.pMask ≠ none
  · -- the comparison reads beyond the mask
    refine .inl ?_
    have hfault : grabMatchesSecond g m (g.grabtype = .core) = .error .fault := by
      unfold grabMatchesSecond
      have hs := hsame
      unfold sameEvents at hs
      simp only [Bool.and_eq_true, decide_eq_true_eq] at hs
      rw [if_neg (not_not.2 hlevel), if_neg (by simp [hs.1.2]), if_neg (not_not.2 hs.2)]
      unfold grabSupersedesSecond
      rw [detailSupersedesSecond_fault (by rw [hlevel]; exact hwild) hread.2 (by rw [hlevel]; exact hexact) hread.1]
      rfl
    rw [hfault]
    rfl
  rw [matches_eq hm (fun ⟨_, _, h₃, h₄, _⟩ => hread ⟨h₃, h₄⟩), ok_bind]
  -- the grabs meet, and the modifiers are cut out
  have hmeets : meets AnyKey g.detail m.detail = true ∧
      Cut (anyModifier m.grabtype) g.modifiersDetail m.modifiersDetail ∧
      (g.grabtype = .xi2 ∧ Cut AnyKey g.detail m.detail ∨ 256 ≤ m.modifiersDetail.exact) := by
    cases h with
    | outside _ _ _ _ hbig hor =>
      have hnone : g.modifiersDetail.pMask = none := by
        by_contra hno
        exact hread ⟨hbig, hno⟩
      refine ⟨hor.resolve_left (fun hno => hno hnone), ⟨hwild, hexact, ?_⟩, .inr hbig⟩
      unfold DetailRec.has
      rw [if_pos hwild, hnone]
      rfl
    | split _ _ hmod hdetail hxi2 => exact ⟨cut_meets hdetail, hmod, .inl ⟨hxi2, hdetail⟩⟩
  obtain ⟨hdetail, hcut, hwhich⟩ := hmeets
  have hmatch : grabMatches g m (g.grabtype = .core) = true := by
    unfold grabMatches
    rw [hsame, hlevel, cut_meets hcut, hdetail]
    rfl
  have hsup : grabSupersedes m g = false := by
    unfold grabSupersedes
    rw [cut_not_supersedes hcut]
    rfl
  rw [if_neg (by simp [hmatch]), grabSupersedesSecond_eq hm, ok_bind, hsup, if_neg (by simp), hkey,
    if_neg (fun h => h.2 hwild)]
  by_cases h₂ : g.detail.exact = AnyKey
  · rw [if_neg (fun h => h.2 h₂)]
    by_cases h₃ : m.detail.exact = AnyKey
    · rw [if_neg (fun h => h.1 h₃), if_pos h₃]
      have hbig : 256 ≤ m.modifiersDetail.exact := by
        rcases hwhich with ⟨-, hc⟩ | hbig
        · exact absurd h₃ hc.exact
        · exact hbig
      exact update_fault_or .modifiers hbig
    · rw [if_pos ⟨h₃, hexact⟩]
      exact split_fault hm hg hlevel (hwhich.imp (fun h => h.1) id)
  · rw [if_pos ⟨hwild, h₂⟩]
    have hbig : 256 ≤ m.modifiersDetail.exact := by
      rcases hwhich with ⟨-, hc⟩ | hbig
      · exact absurd hc.wild h₂
      · exact hbig
    exact update_fault_or .modifiers hbig

/-! ### The loop -/

theorem effect_ok (m g : Grab) (staged : Staged) : (staged.effect m g).ok = staged.ok := by
  unfold Staged.effect
  split <;> rfl

theorem foldl_effect_ok (m : Grab) (l : List Grab) : ∀ staged : Staged,
    (l.foldl (fun s g => s.effect m g) staged).ok = staged.ok := by
  induction l with
  | nil => exact fun _ => rfl
  | cons g l ih => exact fun staged => (ih _).trans (effect_ok m g staged)

/-- **The loop**, whatever goes wrong: what it has gathered at its end is what it should have. -/
theorem stageGrabs_ok (hm : m.Plain) {a : DeleteAnswers} (l : List Grab) :
    ∀ (staged s : Staged), (∀ g ∈ l, g.Ok) → stageGrabs m a l staged = .ok s →
      staged.nextId ≤ s.nextId ∧ (s.ok = true → s = l.foldl (fun s g => s.effect m g) staged) := by
  induction l with
  | nil =>
    intro staged s _ h
    cases h
    exact ⟨le_refl _, fun _ => rfl⟩
  | cons g l ih =>
    intro staged s hl h
    unfold stageGrabs at h
    split at h
    · rename_i hno
      cases h
      refine ⟨le_refl _, fun hok => ?_⟩
      rw [hok] at hno
      simp at hno
    · have hg := hl g mem_cons_self
      obtain ⟨s₁, hrun, hle, hs₁⟩ : ∃ s₁, staged.grab m g (a.split g.resource) = .ok s₁ ∧ staged.nextId ≤ s₁.nextId ∧
          (s₁.ok = true → s₁ = staged.effect m g) := by
        by_cases hfault : Faulty m g
        · rcases stageGrab_faulty staged (a.split g.resource) hg hm hfault with herr | ⟨s₁, hrun, hle, hok, -⟩
          · rw [herr] at h
            nomatch h
          · exact ⟨s₁, hrun, hle, fun h => by rw [hok] at h; simp at h⟩
        · obtain ⟨s₁, hrun, hle, hs₁, -⟩ := stageGrab_spec staged (a.split g.resource) hg hm hfault
          exact ⟨s₁, hrun, hle, hs₁⟩
      rw [hrun] at h
      obtain ⟨hle', hs⟩ := ih s₁ s (fun g hg => hl g (mem_cons_of_mem _ hg)) h
      refine ⟨hle.trans hle', fun hok => ?_⟩
      have hfold := hs hok
      have hok₁ : s₁.ok = true := by
        rw [hfold, foldl_effect_ok] at hok
        exact hok
      rw [hfold, hs₁ hok₁]
      rfl

/-- There is memory for all that the call needs. -/
def DeleteAnswers.Enough (a : DeleteAnswers) : Prop := a.arrays = true ∧ ∀ resource, (a.split resource).Enough

/-- The loop comes to its end if nothing goes wrong. -/
theorem stageGrabs_spec (hm : m.Plain) (a : DeleteAnswers) (l : List Grab) :
    ∀ staged : Staged, (∀ g ∈ l, g.Ok ∧ ¬Faulty m g) → ∃ s, stageGrabs m a l staged = .ok s ∧
      (a.Enough → staged.ok = true → s.ok = true) := by
  induction l with
  | nil => exact fun staged _ => ⟨staged, rfl, fun _ h => h⟩
  | cons g l ih =>
    intro staged hl
    unfold stageGrabs
    split
    · rename_i hno
      refine ⟨staged, rfl, fun _ h => ?_⟩
      rw [h] at hno
      simp at hno
    · obtain ⟨hg, hfault⟩ := hl g mem_cons_self
      obtain ⟨s₁, hrun, -, -, henough⟩ := stageGrab_spec staged (a.split g.resource) hg hm hfault
      obtain ⟨s, hs, hok⟩ := ih s₁ fun g hg => hl g (mem_cons_of_mem _ hg)
      rw [hrun]
      refine ⟨s, hs, fun ha h => hok ha ?_⟩
      rw [henough (ha.2 g.resource), effect_ok]
      exact h

/-- With enough memory the loop gets to what goes wrong. -/
theorem stageGrabs_fault (hm : m.Plain) {a : DeleteAnswers} (ha : a.Enough) (l : List Grab) :
    ∀ staged : Staged, staged.ok = true → (∀ g ∈ l, g.Ok) → (∃ g ∈ l, Faulty m g) →
      stageGrabs m a l staged = .error .fault := by
  induction l with
  | nil =>
    rintro staged - - ⟨g, hg, -⟩
    simp at hg
  | cons g l ih =>
    intro staged hok hl hfault
    unfold stageGrabs
    rw [if_neg (by simp [hok])]
    have hg := hl g mem_cons_self
    by_cases hhere : Faulty m g
    · rcases stageGrab_faulty staged (a.split g.resource) hg hm hhere with herr | ⟨-, -, -, -, hno⟩
      · rw [herr]
        rfl
      · exact absurd (ha.2 g.resource) hno
    · obtain ⟨s₁, hrun, -, -, henough⟩ := stageGrab_spec staged (a.split g.resource) hg hm hhere
      rw [hrun]
      refine ih s₁ ?_ (fun g hg => hl g (mem_cons_of_mem _ hg)) ?_
      · rw [henough (ha.2 g.resource), effect_ok]
        exact hok
      · obtain ⟨g', hg', hf⟩ := hfault
        rcases mem_cons.1 hg' with rfl | hg'
        · exact absurd hf hhere
        · exact ⟨g', hg', hf⟩

end Stage

/-! ### Putting it into effect -/

/-- The mask of a grab that is changed. -/
def fieldOf (m g : Grab) : Option DetailField :=
  match fate m g with
  | .update field => some field
  | .split => some .detail
  | _ => none

def updatesOf (m : Grab) (l : List Grab) : List (ResourceId × DetailField × DetailMask) :=
  l.filterMap fun g => (fieldOf m g).map fun field =>
    (g.resource, field, removeDetail (g.field field).pMask (m.field field).exact)

def deletesOf (m : Grab) (l : List Grab) : List ResourceId :=
  (l.filter fun g => fate m g = .delete).map Grab.resource

def addsOf (m : Grab) : ℕ → List Grab → List Grab
  | _, [] => []
  | id, g :: l => if fate m g = .split then splitOff m g id :: addsOf m (id + 1) l else addsOf m id l

section Commit

variable {m : Grab}

theorem foldl_effect (m : Grab) (l : List Grab) : ∀ staged : Staged,
    (l.foldl (fun s g => s.effect m g) staged).deletes = staged.deletes ++ deletesOf m l ∧
      (l.foldl (fun s g => s.effect m g) staged).adds = staged.adds ++ addsOf m staged.nextId l ∧
      (l.foldl (fun s g => s.effect m g) staged).updates = staged.updates ++ updatesOf m l := by
  induction l with
  | nil => exact fun staged => ⟨(append_nil _).symm, (append_nil _).symm, (append_nil _).symm⟩
  | cons g l ih =>
    intro staged
    obtain ⟨hd, ha, hu⟩ := ih (staged.effect m g)
    rw [foldl_cons, hd, ha, hu]
    unfold deletesOf updatesOf fieldOf Staged.effect
    conv => enter [2, 1, 2]; unfold addsOf
    cases hf : fate m g with
    | keep => simp [hf]
    | delete => simp [hf]
    | update field => simp [hf]
    | split => simp [hf, Grab.field]

/-- The changes of a grab. -/
def applyTo (updates : List (ResourceId × DetailField × DetailMask)) (g : Grab) : Grab :=
  updates.foldl (fun g u => if g.resource = u.1 then g.setMask u.2.1 u.2.2 else g) g

theorem foldl_applyUpdate (updates : List (ResourceId × DetailField × DetailMask)) :
    ∀ l : List Grab, updates.foldl applyUpdate l = l.map (applyTo updates) := by
  induction updates with
  | nil =>
    intro l
    exact (map_id'' (fun _ => rfl) l).symm
  | cons u updates ih =>
    intro l
    rw [foldl_cons, ih]
    unfold applyUpdate
    rw [map_map]
    rfl

theorem setMask_resource (g : Grab) (field : DetailField) (mask : DetailMask) :
    (g.setMask field mask).resource = g.resource := by
  cases field <;> rfl

theorem applyTo_of_notMem {updates : List (ResourceId × DetailField × DetailMask)} :
    ∀ {g : Grab}, (∀ u ∈ updates, u.1 ≠ g.resource) → applyTo updates g = g := by
  induction updates with
  | nil => exact fun _ => rfl
  | cons u updates ih =>
    intro g h
    unfold applyTo
    rw [foldl_cons, if_neg (Ne.symm (h u mem_cons_self))]
    exact ih fun u' hu' => h u' (mem_cons_of_mem _ hu')

variable {l : List Grab}

theorem mem_updatesOf {u : ResourceId × DetailField × DetailMask} (h : u ∈ updatesOf m l) :
    ∃ g ∈ l, u.1 = g.resource := by
  obtain ⟨g, hg, hu⟩ := mem_filterMap.1 h
  obtain ⟨field, -, rfl⟩ := Option.map_eq_some_iff.1 hu
  exact ⟨g, hg, rfl⟩

/-- The grab after its own change. -/
def updated (m g : Grab) : Grab :=
  match fieldOf m g with
  | some field => g.without m field
  | none => g

/-- Each grab gets its own change, since no two have one ID. -/
theorem applyTo_updatesOf (hnodup : (l.map Grab.resource).Nodup) :
    ∀ {g : Grab}, g ∈ l → applyTo (updatesOf m l) g = updated m g := by
  induction l with
  | nil => exact fun h => absurd h (by simp)
  | cons g₀ l ih =>
    intro g hg
    rw [map_cons, nodup_cons] at hnodup
    have hne : ∀ g' ∈ l, g'.resource ≠ g₀.resource := by
      intro g' hg' heq
      exact hnodup.1 (heq ▸ mem_map_of_mem hg')
    have hrest : ∀ u ∈ updatesOf m l, u.1 ≠ g₀.resource := by
      intro u hu
      obtain ⟨g', hg', heq⟩ := mem_updatesOf hu
      rw [heq]
      exact hne g' hg'
    unfold updatesOf
    rw [filterMap_cons]
    rcases mem_cons.1 hg with rfl | hg
    · unfold updated
      cases hf : fieldOf m g with
      | none => exact applyTo_of_notMem hrest
      | some field =>
        dsimp only [Option.map_some]
        unfold applyTo
        rw [foldl_cons, if_pos rfl]
        refine applyTo_of_notMem ?_
        rw [setMask_resource]
        exact hrest
    · have hstep : ∀ updates, applyTo (updatesOf m l) g = updated m g →
          ((fieldOf m g₀).map fun field =>
            (g₀.resource, field, removeDetail (g₀.field field).pMask (m.field field).exact)) = updates →
          applyTo (updates.toList ++ updatesOf m l) g = updated m g := by
        rintro updates h rfl
        cases fieldOf m g₀ with
        | none => exact h
        | some field =>
          unfold applyTo
          rw [Option.map_some, Option.toList_some, singleton_append, foldl_cons, if_neg (hne g hg)]
          exact h
      have := hstep _ (ih hnodup.2 hg) rfl
      cases hf : fieldOf m g₀ with
      | none =>
        rw [hf] at this
        exact this
      | some field =>
        rw [hf] at this
        exact this

theorem mem_deletesOf (hnodup : (l.map Grab.resource).Nodup) {g : Grab} (hg : g ∈ l) :
    g.resource ∈ deletesOf m l ↔ fate m g = .delete := by
  constructor
  · intro h
    obtain ⟨g', hg', heq⟩ := mem_map.1 h
    obtain ⟨hmem, hf⟩ := mem_filter.1 hg'
    rw [inj_on_of_nodup_map hnodup hmem hg heq] at hf
    simpa using hf
  · intro h
    exact mem_map_of_mem (mem_filter.2 ⟨hg, by simpa using h⟩)

theorem addsOf_resource {g : Grab} (l : List Grab) : ∀ id, g ∈ addsOf m id l → id ≤ g.resource.id := by
  induction l with
  | nil => exact fun id h => absurd h (by simp [addsOf])
  | cons g₀ l ih =>
    intro id h
    unfold addsOf at h
    split at h
    · rcases mem_cons.1 h with rfl | h
      · exact le_refl _
      · exact (Nat.le_succ id).trans (ih _ h)
    · exact ih _ h

theorem filterMap_survivor (m : Grab) (l : List Grab) :
    (l.filter fun g => fate m g ≠ .delete).map (updated m) = l.filterMap (survivor m) := by
  induction l with
  | nil => rfl
  | cons g l ih =>
    rw [filterMap_cons]
    unfold survivor updated fieldOf at *
    cases hf : fate m g with
    | delete => rw [filter_cons_of_neg (by simp [hf]), ih]
    | keep => rw [filter_cons_of_pos (by simp [hf]), map_cons, hf, ih]
    | update field => rw [filter_cons_of_pos (by simp [hf]), map_cons, hf, ih]
    | split => rw [filter_cons_of_pos (by simp [hf]), map_cons, hf, ih]

/-- **What is put into effect**: the grabs that are split off, and what becomes of the others. -/
theorem commit_eq (hnodup : (l.map Grab.resource).Nodup) {id : ℕ} (hfresh : ∀ g ∈ l, g.resource.id < id) {staged : Staged}
    (hstaged : staged = l.foldl (fun (s : Staged) g => s.effect m g) ⟨[], [], [], id, true⟩) :
    staged.commit l = (addsOf m id l).reverse ++ l.filterMap (survivor m) := by
  obtain ⟨hd, ha, hu⟩ := foldl_effect m l ⟨[], [], [], id, true⟩
  rw [← hstaged] at hd ha hu
  unfold Staged.commit
  rw [hd, ha, hu, nil_append, foldl_applyUpdate, map_append]
  congr 1
  · -- a grab that is split off has a new ID
    have hsame : ∀ g ∈ (addsOf m id l).reverse, applyTo (updatesOf m l) g = g := by
      intro g hg
      refine applyTo_of_notMem fun u hmem heq => ?_
      obtain ⟨g', hg', hr⟩ := mem_updatesOf hmem
      have hlow := hfresh g' hg'
      have hhigh := addsOf_resource l id (mem_reverse.1 hg)
      rw [← heq, hr] at hhigh
      omega
    exact (map_congr_left hsame).trans (map_id' _)
  · have hfilter : (l.filter fun g => !(deletesOf m l).contains g.resource) = l.filter fun g => fate m g ≠ .delete := by
      refine filter_congr fun g hg => ?_
      rw [Bool.eq_iff_iff, Bool.not_eq_true', contains_eq_mem, decide_eq_false_iff_not, mem_deletesOf hnodup hg,
        decide_eq_true_eq]
    rw [hfilter, ← filterMap_survivor]
    refine map_congr_left fun g hg => ?_
    exact applyTo_updatesOf hnodup (mem_filter.1 hg).1

end Commit

/-! ### What is covered -/

/-- The grab is for more devices than the minuend, where they overlap. -/
structure Wider (m g : Grab) : Prop where
  client : g.resource.client = m.resource.client
  same : sameEvents g m (g.grabtype = .core) = true
  wider : ∃ t, g.covers t = true ∧ m.hasDetails t = true ∧ m.covers t = false

section Covered

variable {m g : Grab} {t : GrabEvent}

/-- Two grabs that cover an event are for the same events. -/
theorem sameEvents_of_covers (hg : g.covers t = true) (hm : m.covers t = true) :
    sameEvents g m (g.grabtype = .core) = true := by
  unfold Grab.covers at hg hm
  simp only [Bool.and_eq_true, decide_eq_true_eq] at hg hm
  obtain ⟨⟨⟨hgl, hgt⟩, hgd⟩, -⟩ := hg
  obtain ⟨⟨⟨hml, hmt⟩, hmd⟩, -⟩ := hm
  have hlevel : g.grabtype = m.grabtype := hgl.trans hml.symm
  have hdev : devicesMatch g m (g.grabtype = .core) = true := by
    unfold Grab.onDevices at hgd hmd
    unfold devicesMatch
    rw [← hlevel] at hmd
    cases h : g.grabtype with
    | core => simp
    | xi =>
      rw [h] at hgd hmd
      simp only [decide_eq_true_eq] at hgd hmd
      simp [hgd.1, hgd.2, hmd.1, hmd.2]
    | xi2 =>
      rw [h] at hgd hmd
      cases hd : g.device with
      | all => simp
      | allMaster =>
        rw [hd] at hgd
        cases hd' : m.device with
        | all => simp
        | allMaster => simp
        | one dev =>
          rw [hd'] at hmd
          have hdev : dev = t.device := by simpa [Device.denotes] using hmd
          have hmaster : t.device.isMaster = true := hgd
          rw [← hdev] at hmaster
          cases dev with
          | master n => simp [inputDevIsMaster]
          | slave n => simp [RealDevice.isMaster] at hmaster
      | one dev =>
        rw [hd] at hgd
        have hdev : dev = t.device := by simpa [Device.denotes] using hgd
        cases hd' : m.device with
        | all => simp
        | allMaster =>
          rw [hd'] at hmd
          have hmaster : t.device.isMaster = true := hmd
          rw [← hdev] at hmaster
          cases dev with
          | master n => simp [inputDevIsMaster]
          | slave n => simp [RealDevice.isMaster] at hmaster
        | one dev' =>
          rw [hd'] at hmd
          have hdev' : dev' = t.device := by simpa [Device.denotes] using hmd
          simp [hdev, hdev']
  unfold sameEvents
  rw [hdev, hlevel, hgt, hmt]
  simp

/-- A grab that has an event of the minuend's details, and is for the same events, is not kept. -/
theorem fate_ne_keep (hm : m.Plain) (hclient : g.resource.client = m.resource.client)
    (hsame : sameEvents g m (g.grabtype = .core) = true) (hg : g.hasDetails t = true) (hmt : m.hasDetails t = true) :
    fate m g ≠ .keep := by
  have hlevel := sameEvents_level hsame
  unfold Grab.hasDetails at hg hmt
  rw [hlevel, Bool.and_eq_true] at hg
  rw [Bool.and_eq_true] at hmt
  have hmatch : grabMatches g m (g.grabtype = .core) = true := by
    unfold grabMatches
    rw [hsame, hlevel, meets_of_has hm.modifiers hg.1 hmt.1, meets_of_has hm.detail hg.2 hmt.2]
    rfl
  unfold fate
  rw [if_neg (not_not.2 hclient), if_neg (by simp [hmatch])]
  split_ifs <;> simp

theorem covers_hasDetails (h : g.covers t = true) : g.hasDetails t = true := by
  unfold Grab.covers at h
  rw [Bool.and_eq_true] at h
  exact h.2

/-- **The pieces of a grab** that is for no more devices cover what the minuend does not. -/
theorem pieces_correct (hm : m.Plain) (hwider : ¬Wider m g) (id : ℕ) (t : GrabEvent) :
    covering m.resource.client t (pieces m g id) =
      if m.covers t then [] else covering m.resource.client t [g] := by
  have hnil : covering m.resource.client t [] = [] := rfl
  by_cases hkeep : fate m g = .keep
  · have hpieces : pieces m g id = [g] := by
      unfold pieces survivor
      rw [hkeep]
      rfl
    rw [hpieces]
    split
    · rename_i hmt
      rw [covering_cons, if_neg, hnil, append_nil]
      rintro ⟨hclient, hg⟩
      exact fate_ne_keep hm hclient (sameEvents_of_covers hg hmt) (covers_hasDetails hg) (covers_hasDetails hmt) hkeep
    · rfl
  · rw [pieces_covered hm hkeep id t]
    obtain ⟨hclient, hmatch⟩ := fate_matches hkeep
    unfold grabMatches at hmatch
    rw [Bool.and_eq_true] at hmatch
    cases hmt : m.covers t with
    | true => rw [covers_hasDetails hmt]
    | false =>
      cases hd : m.hasDetails t with
      | false => rfl
      | true =>
        rw [if_pos rfl, if_neg (by simp), covering_cons, if_neg, hnil, append_nil]
        rintro ⟨-, hg⟩
        exact hwider ⟨hclient, hmatch.1, t, hg, hd, hmt⟩

/-- The list after the call covers what the pieces cover. -/
theorem covering_pieces (m : Grab) (client : ℕ) (t : GrabEvent) (l : List Grab) : ∀ id,
    (covering client t ((addsOf m id l).reverse ++ l.filterMap (survivor m))).Perm
      (l.flatMap fun g => covering client t (pieces m g 0)) := by
  induction l with
  | nil => exact fun id => .refl _
  | cons g l ih =>
    intro id
    have hsplit : ∀ id', covering client t [splitOff m g id'] = covering client t [splitOff m g 0] := by
      intro id'
      rw [covering_cons, covering_cons]
      rfl
    have hsurvivor : (g :: l).filterMap (survivor m) = (survivor m g).toList ++ l.filterMap (survivor m) := by
      rw [filterMap_cons]
      cases survivor m g <;> rfl
    rw [flatMap_cons, hsurvivor, covering_append, covering_append]
    unfold addsOf pieces
    by_cases hf : fate m g = .split
    · have hrest := ih (id + 1)
      rw [covering_append] at hrest
      rw [if_pos hf, if_pos hf, reverse_cons, covering_append, covering_append, hsplit]
      have hswap : ∀ a b c d : List GrabAttributes, (a ++ b ++ (c ++ d)).Perm (b ++ c ++ (a ++ d)) := by
        intro a b c d
        rw [← append_assoc, append_assoc a b c, ← append_assoc _ a d]
        exact (perm_append_comm).append_right d
      exact (hswap _ _ _ _).trans (.append_left _ hrest)
    · have hrest := ih id
      rw [covering_append] at hrest
      rw [if_neg hf, if_neg hf]
      have hswap : ∀ a c d : List GrabAttributes, (a ++ (c ++ d)).Perm (c ++ (a ++ d)) := by
        intro a c d
        rw [← append_assoc, ← append_assoc]
        exact (perm_append_comm).append_right d
      exact (hswap _ _ _).trans (.append_left _ hrest)

end Covered

/-! ### The call -/

/-- The list of a window between calls. -/
structure GrabState.Ok (st : GrabState) : Prop where
  grabs : ∀ g ∈ st.passiveGrabs, g.Ok
  nodup : (st.passiveGrabs.map Grab.resource).Nodup
  fresh : ∀ g ∈ st.passiveGrabs, g.resource.id < st.nextId

/-- The call does what it is for: the grabs of the client cover what they did and the minuend does
not, those of other clients are as they were, and without enough memory nothing has changed. -/
structure DeleteCorrect (m : Grab) (a : DeleteAnswers) (st : GrabState) : Prop where
  correct : ∃ st' ok, deletePassiveGrabFromList m a st = .ok (st', ok) ∧
    (ok = true → (∀ t, (covering m.resource.client t st'.passiveGrabs).Perm
        (if m.covers t then [] else covering m.resource.client t st.passiveGrabs)) ∧
      (st'.passiveGrabs.filter fun g => g.resource.client ≠ m.resource.client) =
        st.passiveGrabs.filter fun g => g.resource.client ≠ m.resource.client) ∧
    (ok = false → st'.passiveGrabs = st.passiveGrabs) ∧ (a.Enough → ok = true)

section Call

variable {m : Grab} {st : GrabState}

theorem pieces_client (m g : Grab) (id : ℕ) : ∀ g' ∈ pieces m g id, g'.resource.client = g.resource.client := by
  intro g' hg'
  unfold pieces survivor at hg'
  have hwithout : ∀ field, (g.without m field).resource = g.resource := fun field => setMask_resource g field _
  cases hf : fate m g with
  | keep =>
    have : g' = g := by simpa [hf] using hg'
    rw [this]
  | delete => simp [hf] at hg'
  | update field =>
    have : g' = g.without m field := by simpa [hf] using hg'
    rw [this, hwithout]
  | split =>
    have : g' = splitOff m g id ∨ g' = g.without m .detail := by simpa [hf] using hg'
    rcases this with rfl | rfl
    · rfl
    · rw [hwithout]

variable {g : Grab}

theorem fate_other (h : g.resource.client ≠ m.resource.client) : fate m g = .keep := by
  unfold fate
  rw [if_pos h]

/-- The grabs that are split off are the client's. -/
theorem addsOf_client (l : List Grab) : ∀ id, ∀ g ∈ addsOf m id l, g.resource.client = m.resource.client := by
  induction l with
  | nil => exact fun id g hg => absurd hg (by simp [addsOf])
  | cons g₀ l ih =>
    intro id g hg
    unfold addsOf at hg
    split at hg
    · rename_i hf
      rcases mem_cons.1 hg with rfl | hg
      · exact (fate_matches (m := m) (g := g₀) (by rw [hf]; simp)).1
      · exact ih _ g hg
    · exact ih _ g hg

/-- The grabs of other clients stay as they are. -/
theorem commit_others (id : ℕ) (l : List Grab) :
    (((addsOf m id l).reverse ++ l.filterMap (survivor m)).filter fun g => g.resource.client ≠ m.resource.client) =
      l.filter fun g => g.resource.client ≠ m.resource.client := by
  have hadds : ((addsOf m id l).reverse.filter fun g => g.resource.client ≠ m.resource.client) = [] := by
    rw [filter_eq_nil_iff]
    intro g hg
    simpa using addsOf_client l id g (mem_reverse.1 hg)
  rw [filter_append, hadds, nil_append]
  clear hadds
  induction l with
  | nil => rfl
  | cons g l ih =>
    rw [filterMap_cons]
    by_cases hc : g.resource.client = m.resource.client
    · have hsurvivor : ∀ g', survivor m g = some g' → g'.resource.client = m.resource.client := by
        intro g' hg'
        rw [← hc]
        refine pieces_client m g 0 g' ?_
        unfold pieces
        rw [hg']
        simp
      rw [filter_cons_of_neg (by simpa using hc)]
      cases hs : survivor m g with
      | none => exact ih
      | some g' =>
        rw [filter_cons_of_neg (by simpa using hsurvivor g' hs)]
        exact ih
    · have hsurvivor : survivor m g = some g := by
        unfold survivor
        rw [fate_other hc]
      rw [hsurvivor, filter_cons_of_pos (by simpa using hc), filter_cons_of_pos (by simpa using hc)]
      exact congrArg _ ih

/-- What is left of a grab is in order. -/
theorem pieces_ok (hg : g.Ok) (hm : m.Plain) (id : ℕ) : ∀ g' ∈ pieces m g id, g'.Ok := by
  have hwithout : ∀ field, (field = .detail → g.detail.exact = AnyKey) →
      (field = .modifiers → g.modifiersDetail.exact = anyModifier g.grabtype) → (g.without m field).Ok := by
    intro field hd hmod
    cases field with
    | detail => exact ⟨hg.modifiers, fun _ => hd rfl, hg.detail_lt, hg.xi2mask, hg.eventMask⟩
    | modifiers => exact ⟨fun _ => hmod rfl, hg.detail, hg.detail_lt, hg.xi2mask, hg.eventMask⟩
  intro g' hg'
  by_cases hkeep : fate m g = .keep
  · have : g' = g := by
      unfold pieces survivor at hg'
      simpa [hkeep] using hg'
    rw [this]
    exact hg
  · have hfated := fate_fated hm hkeep
    have hlevel := grabMatches_level (fate_matches hkeep).2
    unfold pieces survivor at hg'
    cases hf : fate m g with
    | keep => exact absurd hf hkeep
    | delete => simp [hf] at hg'
    | update field =>
      have : g' = g.without m field := by simpa [hf] using hg'
      rw [hf] at hfated
      rw [this]
      cases hfated with
      | detail hcut _ => exact hwithout .detail (fun _ => hcut.wild) (fun h => nomatch h)
      | modifiers hcut _ => exact hwithout .modifiers (fun h => nomatch h) (fun _ => by rw [hlevel]; exact hcut.wild)
    | split =>
      have : g' = splitOff m g id ∨ g' = g.without m .detail := by simpa [hf] using hg'
      rw [hf] at hfated
      cases hfated with
      | split hmod hdetail =>
        rcases this with rfl | rfl
        · refine ⟨fun _ => ?_, fun h => absurd rfl h, hm.detail_lt, hg.xi2mask, hg.eventMask⟩
          show anyModifier m.grabtype = anyModifier g.grabtype
          rw [hlevel]
        · exact hwithout .detail (fun _ => hdetail.wild) (fun h => nomatch h)

theorem addsOf_ok (hm : m.Plain) (l : List Grab) : ∀ id, (∀ g ∈ l, g.Ok) → ∀ g ∈ addsOf m id l, g.Ok := by
  induction l with
  | nil => exact fun id _ g hg => absurd hg (by simp [addsOf])
  | cons g₀ l ih =>
    intro id hl g hg
    have hrest := fun g hg => hl g (mem_cons_of_mem _ hg)
    unfold addsOf at hg
    split at hg
    · rename_i hf
      rcases mem_cons.1 hg with rfl | hg
      · refine pieces_ok (hl g₀ mem_cons_self) hm id _ ?_
        unfold pieces
        rw [if_pos hf]
        simp
      · exact ih _ hrest g hg
    · exact ih _ hrest g hg

theorem addsOf_nodup (l : List Grab) : ∀ id, ((addsOf m id l).map Grab.resource).Nodup := by
  induction l with
  | nil => exact fun id => nodup_nil
  | cons g₀ l ih =>
    intro id
    unfold addsOf
    split
    · rw [map_cons, nodup_cons]
      refine ⟨fun hmem => ?_, ih _⟩
      obtain ⟨g, hg, heq⟩ := mem_map.1 hmem
      have hle := addsOf_resource l _ hg
      have hid : g.resource.id = id := congrArg ResourceId.id heq
      omega
    · exact ih _

theorem addsOf_lt (l : List Grab) : ∀ staged : Staged, ∀ g ∈ addsOf m staged.nextId l,
    g.resource.id < (l.foldl (fun (s : Staged) g => s.effect m g) staged).nextId := by
  have hle : ∀ (l : List Grab) (staged : Staged),
      staged.nextId ≤ (l.foldl (fun (s : Staged) g => s.effect m g) staged).nextId := by
    intro l
    induction l with
    | nil => exact fun staged => le_refl _
    | cons g l ih =>
      intro staged
      refine le_trans ?_ (ih _)
      show staged.nextId ≤ (staged.effect m g).nextId
      unfold Staged.effect
      split <;> simp
  induction l with
  | nil => exact fun staged g hg => absurd hg (by simp [addsOf])
  | cons g₀ l ih =>
    intro staged g hg
    unfold addsOf at hg
    split at hg
    · rename_i hf
      have hnext : (staged.effect m g₀).nextId = staged.nextId + 1 := by
        unfold Staged.effect
        rw [hf]
      rcases mem_cons.1 hg with rfl | hg
      · refine lt_of_lt_of_le ?_ (hle l _)
        rw [hnext]
        exact Nat.lt_succ_self _
      · exact ih _ g (by rw [hnext]; exact hg)
    · rename_i hf
      have hnext : (staged.effect m g₀).nextId = staged.nextId := by
        unfold Staged.effect
        cases h : fate m g₀ with
        | split => exact absurd h hf
        | _ => rfl
      exact ih _ g (by rw [hnext]; exact hg)

theorem survivor_resource {g' : Grab} (h : survivor m g = some g') : g'.resource = g.resource := by
  unfold survivor at h
  cases hf : fate m g with
  | keep =>
    rw [hf] at h
    cases h
    rfl
  | delete =>
    rw [hf] at h
    nomatch h
  | update field =>
    rw [hf] at h
    cases h
    exact setMask_resource _ _ _
  | split =>
    rw [hf] at h
    cases h
    exact setMask_resource _ _ _

theorem survivors_sublist (m : Grab) (l : List Grab) :
    ((l.filterMap (survivor m)).map Grab.resource).Sublist (l.map Grab.resource) := by
  induction l with
  | nil => exact .slnil
  | cons g l ih =>
    rw [filterMap_cons]
    cases hs : survivor m g with
    | none => exact ih.cons _
    | some g' =>
      rw [map_cons, survivor_resource hs]
      exact ih.cons_cons _

/-- **The call**, where it returns. -/
theorem delete_result (hst : st.Ok) (hm : m.Plain) {a : DeleteAnswers} {st' : GrabState} {ok : Bool}
    (h : deletePassiveGrabFromList m a st = .ok (st', ok)) :
    st'.Ok ∧ st.nextId ≤ st'.nextId ∧ (ok = true → st'.passiveGrabs =
      (addsOf m st.nextId st.passiveGrabs).reverse ++ st.passiveGrabs.filterMap (survivor m)) ∧
      (ok = false → st'.passiveGrabs = st.passiveGrabs) := by
  unfold deletePassiveGrabFromList at h
  split at h
  · rename_i hnil
    cases h
    refine ⟨hst, le_refl _, fun _ => ?_, fun h => nomatch h⟩
    rw [hnil]
    rfl
  split at h
  · cases h
    exact ⟨hst, le_refl _, fun h => (nomatch h), fun _ => rfl⟩
  cases hrun : stageGrabs m a st.passiveGrabs ⟨[], [], [], st.nextId, true⟩ with
  | error e =>
    rw [hrun] at h
    nomatch h
  | ok staged =>
    rw [hrun, ok_bind] at h
    obtain ⟨hle, hstaged⟩ := stageGrabs_ok hm st.passiveGrabs _ _ hst.grabs hrun
    cases hok : staged.ok with
    | false =>
      rw [hok] at h
      cases h
      exact ⟨⟨hst.grabs, hst.nodup, fun g hg => lt_of_lt_of_le (hst.fresh g hg) hle⟩, hle, fun h => (nomatch h),
        fun _ => rfl⟩
    | true =>
      rw [hok] at h
      cases h
      have hfold := hstaged hok
      have hlist := commit_eq hst.nodup hst.fresh hfold
      refine ⟨⟨?_, ?_, ?_⟩, hle, fun _ => hlist, fun h => nomatch h⟩
      · intro g hg
        rw [hlist] at hg
        rcases mem_append.1 hg with hg | hg
        · exact addsOf_ok hm _ _ hst.grabs g (mem_reverse.1 hg)
        · obtain ⟨g₀, hg₀, hs⟩ := mem_filterMap.1 hg
          refine pieces_ok (hst.grabs g₀ hg₀) hm 0 g ?_
          unfold pieces
          rw [hs]
          simp
      · dsimp only
        rw [hlist, map_append, map_reverse]
        refine List.Nodup.append (nodup_reverse.2 (addsOf_nodup _ _))
          (hst.nodup.sublist (survivors_sublist m _)) ?_
        intro r hr hr'
        obtain ⟨g, hg, rfl⟩ := mem_map.1 (mem_reverse.1 hr)
        obtain ⟨g', hg', heq⟩ := mem_map.1 ((survivors_sublist m _).subset hr')
        have hlow := hst.fresh g' hg'
        have hhigh := addsOf_resource _ _ hg
        rw [heq] at hlow
        omega
      · intro g hg
        rw [hlist] at hg
        rcases mem_append.1 hg with hg | hg
        · rw [hfold]
          exact addsOf_lt st.passiveGrabs ⟨[], [], [], st.nextId, true⟩ g (mem_reverse.1 hg)
        · obtain ⟨g₀, hg₀, hs⟩ := mem_filterMap.1 hg
          rw [survivor_resource hs]
          exact lt_of_lt_of_le (hst.fresh g₀ hg₀) hle

/-- The call returns if nothing goes wrong. -/
theorem delete_returns (hst : st.Ok) (hm : m.Plain) (h : ∀ g ∈ st.passiveGrabs, ¬Faulty m g) (a : DeleteAnswers) :
    ∃ st' ok, deletePassiveGrabFromList m a st = .ok (st', ok) ∧ (a.Enough → ok = true) := by
  unfold deletePassiveGrabFromList
  split
  · exact ⟨_, _, rfl, fun _ => rfl⟩
  split
  · rename_i harrays
    refine ⟨_, _, rfl, fun henough => ?_⟩
    rw [henough.1] at harrays
    simp at harrays
  obtain ⟨staged, hrun, hok⟩ := stageGrabs_spec hm a st.passiveGrabs ⟨[], [], [], st.nextId, true⟩
    fun g hg => ⟨hst.grabs g hg, h g hg⟩
  rw [hrun, ok_bind]
  cases hs : staged.ok with
  | false =>
    refine ⟨_, _, rfl, fun henough => ?_⟩
    rw [hok henough rfl] at hs
    simp at hs
  | true => exact ⟨_, _, rfl, fun _ => rfl⟩

/-- A device that no grab on the list and not the minuend is for alone. -/
theorem exists_fresh_device (l : List Grab) (kind : ℕ → RealDevice) (hkind : Function.Injective kind) :
    ∃ n, ∀ g ∈ l, g.device ≠ .one (kind n) := by
  obtain ⟨d, ⟨n, rfl⟩, hn⟩ := Set.Infinite.exists_notMem_finset
    (Set.infinite_range_of_injective fun a b (h : Device.one (kind a) = .one (kind b)) => hkind (Device.one.inj h))
    (l.map Grab.device).toFinset
  refine ⟨n, fun g hg heq => hn ?_⟩
  rw [mem_toFinset]
  exact mem_map.2 ⟨g, hg, heq⟩

/-- **Where a grab is for more devices** than the minuend, it also loses what it covers on the
others: there is an event on a device no grab is for alone that was covered and is not any more. -/
theorem wider_incorrect (hst : st.Ok) (hm : m.Plain) (hg : g ∈ st.passiveGrabs) (hwider : Wider m g)
    {a : DeleteAnswers} (henough : a.Enough) : ¬DeleteCorrect m a st := by
  intro hcorrect
  obtain ⟨st', ok, hrun, hok, -, htrue⟩ := hcorrect.correct
  rw [htrue henough] at hrun hok
  obtain ⟨hcov, -⟩ := hok rfl
  obtain ⟨-, -, hlist, -⟩ := delete_result hst hm hrun
  obtain ⟨t, hgt, hmd, hmt⟩ := hwider.wider
  have hsame := hwider.same
  have hlevel := sameEvents_level hsame
  have hgt' := hgt
  unfold Grab.covers at hgt' hmt
  simp only [Bool.and_eq_true, decide_eq_true_eq] at hgt'
  obtain ⟨⟨⟨hgl, htype⟩, hdev⟩, hgd⟩ := hgt'
  have hs := hsame
  unfold sameEvents at hs
  simp only [Bool.and_eq_true, decide_eq_true_eq] at hs
  obtain ⟨⟨-, hmatch⟩, htypes⟩ := hs
  have hmdev : m.onDevices t = false := by
    rw [← hlevel, ← htypes, hgl, htype, hmd] at hmt
    simpa using hmt
  -- only an XI2 grab can be for more devices
  unfold Grab.onDevices at hdev hmdev
  unfold devicesMatch at hmatch
  rw [← hlevel] at hmdev
  cases hl : g.grabtype with
  | core =>
    rw [hl] at hmdev
    simp at hmdev
  | xi =>
    rw [hl] at hdev hmdev hmatch
    simp at hdev hmdev hmatch
    exact absurd (hmatch.2 ▸ hdev.2) (hmdev (hmatch.1 ▸ hdev.1))
  | xi2 =>
    rw [hl] at hdev hmdev
    rw [hl] at hmatch
    obtain ⟨kind, hkind, hall, hmaster⟩ : ∃ kind : ℕ → RealDevice, Function.Injective kind ∧
        (∀ n, g.device.denotes (kind n) = true) ∧
        ∀ n, (m.device.denotes (kind n) = true → m.device = .one (kind n)) ∧
          ((kind n).isMaster = true → inputDevIsMaster m.device = true) := by
      cases hgdev : g.device with
      | one dev =>
        rw [hgdev] at hdev hmatch
        have hdev' : dev = t.device := by simpa [Device.denotes] using hdev
        cases hmdevice : m.device with
        | all =>
          rw [hmdevice] at hmdev
          simp [Device.denotes] at hmdev
        | allMaster =>
          rw [hmdevice] at hmdev hmatch
          cases dev with
          | master n => simp [Device.denotes, ← hdev', RealDevice.isMaster] at hmdev
          | slave n => simp [inputDevIsMaster] at hmatch
        | one dev' =>
          rw [hmdevice] at hmdev hmatch
          simp [Device.denotes] at hmdev hmatch
          exact absurd (hmatch.trans hdev') hmdev
      | all =>
        refine ⟨.slave, fun a b h => RealDevice.slave.inj h, fun n => rfl, fun n => ⟨?_, fun h => nomatch h⟩⟩
        cases hmdevice : m.device with
        | all =>
          rw [hmdevice] at hmdev
          simp [Device.denotes] at hmdev
        | allMaster => exact fun h => nomatch h
        | one dev' =>
          intro h
          rw [show dev' = .slave n by simpa [Device.denotes] using h]
      | allMaster =>
        rw [hgdev] at hdev hmatch
        have hmaster : t.device.isMaster = true := hdev
        cases hmdevice : m.device with
        | all =>
          rw [hmdevice] at hmdev
          simp [Device.denotes] at hmdev
        | allMaster =>
          rw [hmdevice] at hmdev
          simp [Device.denotes, hmaster] at hmdev
        | one dev' =>
          rw [hmdevice] at hmatch
          refine ⟨.master, fun a b h => RealDevice.master.inj h, fun n => rfl, fun n => ⟨?_, fun _ => ?_⟩⟩
          · intro h
            rw [show dev' = .master n by simpa [Device.denotes] using h]
          · simpa using hmatch
    obtain ⟨n, hfresh⟩ := exists_fresh_device (m :: st.passiveGrabs) kind hkind
    obtain ⟨t', ht'⟩ : ∃ t' : GrabEvent, t' = { t with device := kind n } := ⟨_, rfl⟩
    -- the grab covers the event, and the minuend does not
    have hgt' : g.covers t' = true := by
      have hgd' : g.hasDetails t' = true := by
        rw [ht']
        exact hgd
      unfold Grab.covers Grab.onDevices
      rw [hgd', ht']
      rw [hall n, ← hgl, ← htype, hl]
      simp
    have hmt' : m.covers t' = false := by
      unfold Grab.covers Grab.onDevices
      rw [← hlevel, hl, ht']
      cases hd : m.device.denotes (kind n) with
      | true => exact absurd ((hmaster n).1 hd) (hfresh m mem_cons_self)
      | false => simp
    have hperm := hcov t'
    rw [hlist rfl, hmt'] at hperm
    have hbefore : g.attributes ∈ covering m.resource.client t' st.passiveGrabs := by
      refine mem_map_of_mem (mem_filter.2 ⟨hg, ?_⟩)
      simp [hwider.client, hgt']
    -- so a piece of a grab covers it
    have hafter := ((covering_pieces m m.resource.client t' st.passiveGrabs st.nextId).symm.trans hperm).mem_iff.2 hbefore
    obtain ⟨h, hh, hmem⟩ := mem_flatMap.1 hafter
    have hmd' : m.hasDetails t' = true := by
      rw [ht']
      exact hmd
    by_cases hkeep : fate m h = .keep
    · have hpieces : pieces m h 0 = [h] := by
        unfold pieces survivor
        rw [hkeep]
        rfl
      rw [hpieces, covering_cons] at hmem
      by_cases hcond : h.resource.client = m.resource.client ∧ h.covers t' = true
      · obtain ⟨hclient, hcovers⟩ := hcond
        refine fate_ne_keep hm hclient ?_ (covers_hasDetails hcovers) hmd' hkeep
        unfold Grab.covers at hcovers
        simp only [Bool.and_eq_true, decide_eq_true_eq] at hcovers
        obtain ⟨⟨⟨hhl, hht⟩, hhd⟩, -⟩ := hcovers
        rw [ht'] at hhl hht hhd
        have hh2 : h.grabtype = .xi2 := hhl.trans (hgl.symm.trans hl)
        unfold sameEvents devicesMatch
        rw [hh2, ← hlevel, hl, ← htypes, hht, htype]
        unfold Grab.onDevices at hhd
        rw [hh2] at hhd
        cases hdevice : h.device with
        | all => simp
        | allMaster =>
          rw [hdevice] at hhd
          simp [(hmaster n).2 hhd]
        | one dev =>
          rw [hdevice] at hhd
          have : dev = kind n := by simpa [Device.denotes] using hhd
          exact absurd (by rw [hdevice, this]) (hfresh h (mem_cons_of_mem _ hh))
      · rw [if_neg hcond] at hmem
        simp [covering] at hmem
    · rw [pieces_covered hm hkeep 0 t', if_pos hmd'] at hmem
      simp at hmem

end Call

end Xenia.Dix
