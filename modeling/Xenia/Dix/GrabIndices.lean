import Xenia.Lib.Logged
import Xenia.Dix.GrabsExclusive

/-!
# The bits of a mask that are used

The functions on passive grabs again, with a list of the indices at which they read or clear a bit of
a mask. `grabMatchesSecond_result` and its likes say that the results are those of the functions without
the list. `deletePassiveGrabFromList_uses` and `procGrab_uses` say that the indices are bits of a mask,
where the modifiers asked for are.
-/

namespace Xenia.Dix.Indexed

open Xenia.Lib Xenia.Lib.Logged

/-! ### Details -/

def getBit (mask : DetailMask) (i : ℕ) : Logged ℕ Bool := use i (Dix.getBit mask i)

def deleteDetailFromMask (pDetailMask : Option DetailMask) (detail : ℕ) (memory : Bool) : Logged ℕ (Option DetailMask) :=
  if !memory then pure none else use detail (Dix.deleteDetailFromMask pDetailMask detail true)

def isInGrabMask (firstDetail secondDetail : DetailRec) (exception : ℕ) : Logged ℕ Bool :=
  if firstDetail.exact = exception then
    match firstDetail.pMask with
    | none => pure true
    | some mask => if secondDetail.exact = exception then pure false else getBit mask secondDetail.exact
  else pure false

def detailSupersedesSecond (firstDetail secondDetail : DetailRec) (exception : ℕ) : Logged ℕ Bool :=
  isInGrabMask firstDetail secondDetail exception <||>
    pure (identicalExactDetails firstDetail.exact secondDetail.exact exception)

def grabSupersedesSecond (pFirstGrab pSecondGrab : Grab) : Logged ℕ Bool :=
  detailSupersedesSecond pFirstGrab.modifiersDetail pSecondGrab.modifiersDetail (anyModifier pFirstGrab.grabtype) <&&>
    detailSupersedesSecond pFirstGrab.detail pSecondGrab.detail AnyKey

def grabMatchesSecond (pFirstGrab pSecondGrab : Grab) (ignoreDevice : Bool) : Logged ℕ Bool :=
  let any_modifier := anyModifier pFirstGrab.grabtype
  if pFirstGrab.grabtype ≠ pSecondGrab.grabtype then pure false
  else if !devicesMatch pFirstGrab pSecondGrab ignoreDevice then pure false
  else if pFirstGrab.type ≠ pSecondGrab.type then pure false
  else
    grabSupersedesSecond pFirstGrab pSecondGrab <||> grabSupersedesSecond pSecondGrab pFirstGrab <||>
      (detailSupersedesSecond pSecondGrab.detail pFirstGrab.detail AnyKey <&&>
        detailSupersedesSecond pFirstGrab.modifiersDetail pSecondGrab.modifiersDetail any_modifier) <||>
      (detailSupersedesSecond pFirstGrab.detail pSecondGrab.detail AnyKey <&&>
        detailSupersedesSecond pSecondGrab.modifiersDetail pFirstGrab.modifiersDetail any_modifier)

def grabsAreIdentical (pFirstGrab pSecondGrab : Grab) : Logged ℕ Bool :=
  let any_modifier := anyModifier pFirstGrab.grabtype
  if pFirstGrab.grabtype ≠ pSecondGrab.grabtype then pure false
  else if pFirstGrab.device ≠ pSecondGrab.device ∨ pFirstGrab.modifierDevice ≠ pSecondGrab.modifierDevice ∨
      pFirstGrab.type ≠ pSecondGrab.type then pure false
  else
    detailSupersedesSecond pFirstGrab.detail pSecondGrab.detail AnyKey <&&>
      detailSupersedesSecond pSecondGrab.detail pFirstGrab.detail AnyKey <&&>
      detailSupersedesSecond pFirstGrab.modifiersDetail pSecondGrab.modifiersDetail any_modifier <&&>
      detailSupersedesSecond pSecondGrab.modifiersDetail pFirstGrab.modifiersDetail any_modifier

/-! ### Taking a grab out of a list -/

def update (staged : Staged) (grab : Grab) (field : DetailField) (exact : ℕ) (memory : Bool) : Logged ℕ Staged := do
  match ← deleteDetailFromMask (grab.field field).pMask exact memory with
  | none => return { staged with ok := false }
  | some mask => return { staged with updates := staged.updates ++ [(grab.resource, field, mask)] }

def split (staged : Staged) (pMinuendGrab grab : Grab) (a : SplitAnswers) : Logged ℕ Staged := do
  let staged ← update staged grab .detail pMinuendGrab.detail.exact a.update
  match ← lift (splitGrab pMinuendGrab grab staged.nextId a.grab) with
  | none => return { staged with ok := false }
  | some pNewGrab =>
    let staged := { staged with nextId := staged.nextId + 1 }
    match ← deleteDetailFromMask grab.modifiersDetail.pMask pMinuendGrab.modifiersDetail.exact a.mask with
    | none => return { staged with ok := false }
    | some mask =>
      if !a.optional || !a.resource then return { staged with ok := false }
      else return { staged with adds := staged.adds ++ [pNewGrab.setMask .modifiers mask] }

def stageGrab (staged : Staged) (pMinuendGrab grab : Grab) (a : SplitAnswers) : Logged ℕ Staged := do
  let any_modifier := anyModifier pMinuendGrab.grabtype
  let any_key := anyKey pMinuendGrab.grabtype
  if grab.resource.client ≠ pMinuendGrab.resource.client then return staged
  else if !(← grabMatchesSecond grab pMinuendGrab (grab.grabtype = .core)) then return staged
  else if ← grabSupersedesSecond pMinuendGrab grab then
    return { staged with deletes := staged.deletes ++ [grab.resource] }
  else if grab.detail.exact = any_key ∧ grab.modifiersDetail.exact ≠ any_modifier then
    update staged grab .detail pMinuendGrab.detail.exact a.update
  else if grab.modifiersDetail.exact = any_modifier ∧ grab.detail.exact ≠ any_key then
    update staged grab .modifiers pMinuendGrab.modifiersDetail.exact a.update
  else if pMinuendGrab.detail.exact ≠ any_key ∧ pMinuendGrab.modifiersDetail.exact ≠ any_modifier then
    split staged pMinuendGrab grab a
  else if pMinuendGrab.detail.exact = any_key then
    update staged grab .modifiers pMinuendGrab.modifiersDetail.exact a.update
  else update staged grab .detail pMinuendGrab.detail.exact a.update

def stageGrabs (pMinuendGrab : Grab) (a : DeleteAnswers) : List Grab → Staged → Logged ℕ Staged
  | [], staged => pure staged
  | grab :: rest, staged =>
    if !staged.ok then pure staged
    else do
      let staged ← stageGrab staged pMinuendGrab grab (a.split grab.resource)
      stageGrabs pMinuendGrab a rest staged

def deletePassiveGrabFromList (pMinuendGrab : Grab) (a : DeleteAnswers) (st : GrabState) : Logged ℕ (GrabState × Bool) :=
  if st.passiveGrabs = [] then pure (st, true)
  else if !a.arrays then pure (st, false)
  else do
    let staged ← stageGrabs pMinuendGrab a st.passiveGrabs ⟨[], [], [], st.nextId, true⟩
    if staged.ok then return (⟨staged.commit st.passiveGrabs, staged.nextId⟩, true)
    else return ({ st with nextId := staged.nextId }, false)

/-! ### Adding a grab to a list -/

def grabDenied (pGrab : Grab) : List Grab → Logged ℕ Bool
  | [] => pure false
  | grab :: rest => do
    if (← grabMatchesSecond pGrab grab (pGrab.grabtype = .core)) && pGrab.resource.client ≠ grab.resource.client then
      return true
    else grabDenied pGrab rest

def findIdentical (pGrab : Grab) : List Grab → Logged ℕ (Option Grab)
  | [] => pure none
  | grab :: rest => do
    if ← grabsAreIdentical pGrab grab then return some grab else findIdentical pGrab rest

def deleteIdentical (pGrab : Grab) (a : DeleteAnswers) (st : GrabState) : Logged ℕ GrabState := do
  match ← findIdentical pGrab st.passiveGrabs with
  | none => return st
  | some grab => return (← deletePassiveGrabFromList grab a st).1

def addPassiveGrabToList (pGrab : Grab) (a : AddAnswers) (st : GrabState) : Logged ℕ (GrabState × Status) := do
  if ← grabDenied pGrab st.passiveGrabs then return (st, BadAccess)
  else if a.access ≠ Success then return (st, a.access)
  else
    let st ← deleteIdentical pGrab a.delete st
    if !a.optional then return (st, BadAlloc)
    else if !a.resource then return (st, BadAlloc)
    else return ({ st with passiveGrabs := pGrab :: st.passiveGrabs }, Success)

def procGrab (r : GrabRequest) (memory : Bool) (a : AddAnswers) (st : GrabState) : Logged ℕ (GrabState × Status) := do
  match ← lift (createGrab ⟨r.client, st.nextId⟩ r.device r.modDevice r.grabtype ⟨r.mask, some r.xi2mask⟩ r.param r.type
    r.detail r.confineTo r.cursor memory) with
  | none => return (st, BadAlloc)
  | some grab => addPassiveGrabToList grab a { st with nextId := st.nextId + 1 }

/-! ### The results are those of the functions without the list -/

theorem deleteDetailFromMask_result (pDetailMask : Option DetailMask) (detail : ℕ) (memory : Bool) :
    (deleteDetailFromMask pDetailMask detail memory).result = Dix.deleteDetailFromMask pDetailMask detail memory := by
  cases memory <;> rfl

theorem isInGrabMask_result (firstDetail secondDetail : DetailRec) (exception : ℕ) :
    (isInGrabMask firstDetail secondDetail exception).result = Dix.isInGrabMask firstDetail secondDetail exception := by
  unfold isInGrabMask Dix.isInGrabMask
  split
  · cases firstDetail.pMask with
    | none => rfl
    | some mask =>
      dsimp only
      split <;> rfl
  · rfl

theorem detailSupersedesSecond_result (firstDetail secondDetail : DetailRec) (exception : ℕ) :
    (detailSupersedesSecond firstDetail secondDetail exception).result =
      Dix.detailSupersedesSecond firstDetail secondDetail exception := by
  unfold detailSupersedesSecond Dix.detailSupersedesSecond
  rw [result_or, isInGrabMask_result, result_pure]

theorem grabSupersedesSecond_result (pFirstGrab pSecondGrab : Grab) :
    (grabSupersedesSecond pFirstGrab pSecondGrab).result = Dix.grabSupersedesSecond pFirstGrab pSecondGrab := by
  unfold grabSupersedesSecond Dix.grabSupersedesSecond
  rw [result_and, detailSupersedesSecond_result, detailSupersedesSecond_result]

theorem grabMatchesSecond_result (pFirstGrab pSecondGrab : Grab) (ignoreDevice : Bool) :
    (grabMatchesSecond pFirstGrab pSecondGrab ignoreDevice).result =
      Dix.grabMatchesSecond pFirstGrab pSecondGrab ignoreDevice := by
  unfold grabMatchesSecond Dix.grabMatchesSecond
  split
  · rfl
  split
  · rfl
  split
  · rfl
  simp only [result_or, result_and, grabSupersedesSecond_result, detailSupersedesSecond_result]

theorem grabsAreIdentical_result (pFirstGrab pSecondGrab : Grab) :
    (grabsAreIdentical pFirstGrab pSecondGrab).result = Dix.grabsAreIdentical pFirstGrab pSecondGrab := by
  unfold grabsAreIdentical Dix.grabsAreIdentical
  split
  · rfl
  split
  · rfl
  simp only [result_and, detailSupersedesSecond_result]

theorem update_result (staged : Staged) (grab : Grab) (field : DetailField) (exact : ℕ) (memory : Bool) :
    (update staged grab field exact memory).result = staged.update grab field exact memory := by
  unfold update
  rw [result_bind, deleteDetailFromMask_result]
  congr 1
  funext mask
  cases mask <;> rfl

theorem split_result (staged : Staged) (pMinuendGrab grab : Grab) (a : SplitAnswers) :
    (split staged pMinuendGrab grab a).result = staged.split pMinuendGrab grab a := by
  unfold split
  rw [result_bind, update_result]
  congr 1
  funext staged
  rw [result_bind]
  congr 1
  funext pNewGrab
  cases pNewGrab with
  | none => rfl
  | some pNewGrab =>
    rw [result_bind, deleteDetailFromMask_result]
    congr 1
    funext mask
    cases mask with
    | none => rfl
    | some mask =>
      dsimp only
      split <;> rfl

theorem stageGrab_result (staged : Staged) (pMinuendGrab grab : Grab) (a : SplitAnswers) :
    (stageGrab staged pMinuendGrab grab a).result = staged.grab pMinuendGrab grab a := by
  unfold stageGrab Staged.grab
  split
  · rfl
  rw [result_bind, grabMatchesSecond_result]
  congr 1
  funext isMatch
  split
  · rfl
  rw [result_bind, grabSupersedesSecond_result]
  congr 1
  funext supersedes
  split
  · rfl
  split
  · exact update_result _ _ _ _ _
  split
  · exact update_result _ _ _ _ _
  split
  · exact split_result _ _ _ _
  split
  · exact update_result _ _ _ _ _
  · exact update_result _ _ _ _ _

theorem stageGrabs_result (pMinuendGrab : Grab) (a : DeleteAnswers) (l : List Grab) :
    ∀ staged, (stageGrabs pMinuendGrab a l staged).result = Dix.stageGrabs pMinuendGrab a l staged := by
  induction l with
  | nil => exact fun _ => rfl
  | cons grab l ih =>
    intro staged
    unfold stageGrabs Dix.stageGrabs
    split
    · rfl
    rw [result_bind, stageGrab_result]
    congr 1
    funext staged
    exact ih staged

theorem deletePassiveGrabFromList_result (pMinuendGrab : Grab) (a : DeleteAnswers) (st : GrabState) :
    (deletePassiveGrabFromList pMinuendGrab a st).result = Dix.deletePassiveGrabFromList pMinuendGrab a st := by
  unfold deletePassiveGrabFromList Dix.deletePassiveGrabFromList
  split
  · rfl
  split
  · rfl
  rw [result_bind, stageGrabs_result]
  congr 1
  funext staged
  split <;> rfl

theorem grabDenied_result (pGrab : Grab) (l : List Grab) :
    (grabDenied pGrab l).result = Dix.grabDenied pGrab l := by
  induction l with
  | nil => rfl
  | cons grab l ih =>
    unfold grabDenied
    rw [result_bind, grabMatchesSecond_result]
    congr 1
    funext isMatch
    split
    · rfl
    · exact ih

theorem findIdentical_result (pGrab : Grab) (l : List Grab) :
    (findIdentical pGrab l).result = Dix.findIdentical pGrab l := by
  induction l with
  | nil => rfl
  | cons grab l ih =>
    unfold findIdentical
    rw [result_bind, grabsAreIdentical_result]
    congr 1
    funext identical
    split
    · rfl
    · exact ih

theorem deleteIdentical_result (pGrab : Grab) (a : DeleteAnswers) (st : GrabState) :
    (deleteIdentical pGrab a st).result = Dix.deleteIdentical pGrab a st := by
  unfold deleteIdentical
  rw [result_bind, findIdentical_result]
  congr 1
  funext found
  cases found with
  | none => rfl
  | some grab =>
    rw [result_bind, deletePassiveGrabFromList_result]
    rfl

theorem addPassiveGrabToList_result (pGrab : Grab) (a : AddAnswers) (st : GrabState) :
    (addPassiveGrabToList pGrab a st).result = Dix.addPassiveGrabToList pGrab a st := by
  unfold addPassiveGrabToList
  rw [result_bind, grabDenied_result]
  congr 1
  funext denied
  split
  · rfl
  split
  · rfl
  rw [result_bind, deleteIdentical_result]
  congr 1
  funext st
  split
  · rfl
  split <;> rfl

theorem procGrab_result (r : GrabRequest) (memory : Bool) (a : AddAnswers) (st : GrabState) :
    (procGrab r memory a st).result = Dix.procGrab r memory a st := by
  unfold procGrab
  rw [result_bind]
  congr 1
  funext grab
  cases grab with
  | none => rfl
  | some grab => exact addPassiveGrabToList_result _ _ _

/-! ### The indices are bits of a mask -/

section Uses

variable {exception : ℕ} {first second : DetailRec} {g m p : Grab}

theorem detailSupersedesSecond_uses (h : Readable exception first second) :
    (detailSupersedesSecond first second exception).Uses (· < 256) := by
  refine Uses.or ?_ (uses_pure _)
  unfold isInGrabMask
  split
  · rename_i hwild
    split
    · exact uses_pure _
    · rename_i mask hmask
      split
      · exact uses_pure _
      · rename_i hexact
        have hlt := (h hwild (by simp [hmask])).resolve_left hexact
        exact uses_use (p := (· < 256)) hlt _
  · exact uses_pure _

theorem grabSupersedesSecond_uses (hmod : Readable (anyModifier m.grabtype) m.modifiersDetail g.modifiersDetail)
    (hdetail : Readable AnyKey m.detail g.detail) : (grabSupersedesSecond m g).Uses (· < 256) :=
  (detailSupersedesSecond_uses hmod).and (detailSupersedesSecond_uses hdetail)

/-- **Comparing two grabs** whose details and modifiers are each bits of the other's masks. -/
theorem grabMatchesSecond_uses (ignoreDevice : Bool)
    (hmod : g.grabtype = p.grabtype → Readable (anyModifier g.grabtype) g.modifiersDetail p.modifiersDetail ∧
      Readable (anyModifier g.grabtype) p.modifiersDetail g.modifiersDetail)
    (hdetail : Readable AnyKey g.detail p.detail ∧ Readable AnyKey p.detail g.detail) :
    (grabMatchesSecond g p ignoreDevice).Uses (· < 256) := by
  unfold grabMatchesSecond
  split
  · exact uses_pure _
  rename_i hlevel
  rw [not_not] at hlevel
  split
  · exact uses_pure _
  split
  · exact uses_pure _
  obtain ⟨hfirst, hsecond⟩ := hmod hlevel
  have h₁ := detailSupersedesSecond_uses hfirst
  have h₂ := detailSupersedesSecond_uses hsecond
  have h₃ := detailSupersedesSecond_uses hdetail.1
  have h₄ := detailSupersedesSecond_uses hdetail.2
  refine (grabSupersedesSecond_uses hfirst hdetail.1).or (Uses.or ?_ ((h₄.and h₁).or (h₃.and h₂)))
  rw [hlevel] at hsecond
  exact grabSupersedesSecond_uses hsecond hdetail.2

theorem grabsAreIdentical_uses (hp : p.Plain) (hmod : ModifiersOk p) (g : Grab) :
    (grabsAreIdentical p g).Uses (· < 256) := by
  unfold grabsAreIdentical
  split
  · exact uses_pure _
  split
  · exact uses_pure _
  obtain ⟨hdetail, hdetail'⟩ := hp.readable_detail g
  refine (detailSupersedesSecond_uses hdetail).and ((detailSupersedesSecond_uses hdetail').and ?_)
  exact (detailSupersedesSecond_uses (hp.readable_modifiers g _)).and (detailSupersedesSecond_uses (hmod.readable g))

theorem deleteDetailFromMask_uses {detail : ℕ} (h : detail < 256) (pDetailMask : Option DetailMask) (memory : Bool) :
    (deleteDetailFromMask pDetailMask detail memory).Uses (· < 256) := by
  unfold deleteDetailFromMask
  split
  · exact uses_pure _
  · exact uses_use (p := (· < 256)) h _

theorem update_uses {exact : ℕ} (h : exact < 256) (staged : Staged) (g : Grab) (field : DetailField) (memory : Bool) :
    (update staged g field exact memory).Uses (· < 256) := by
  refine (deleteDetailFromMask_uses h _ _).bind fun mask _ => ?_
  cases mask <;> exact uses_pure _

theorem split_uses (hdetail : m.detail.exact < 256) (hmod : m.modifiersDetail.exact < 256) (staged : Staged) (g : Grab)
    (a : SplitAnswers) : (split staged m g a).Uses (· < 256) := by
  refine (update_uses hdetail _ _ _ _).bind fun staged _ => (uses_lift _).bind fun pNewGrab _ => ?_
  cases pNewGrab with
  | none => exact uses_pure _
  | some pNewGrab =>
    refine (deleteDetailFromMask_uses hmod _ _).bind fun mask _ => ?_
    cases mask with
    | none => exact uses_pure _
    | some mask =>
      dsimp only
      split <;> exact uses_pure _

/-- **One grab of the list.** A bit of the modifiers is cleared only for modifiers that are not any. -/
theorem stageGrab_uses (hm : m.Plain) (hmod : ModifiersOk m) (staged : Staged) (a : SplitAnswers) (g : Grab) :
    (stageGrab staged m g a).Uses (· < 256) := by
  have hread : g.grabtype = m.grabtype → Readable (anyModifier g.grabtype) g.modifiersDetail m.modifiersDetail ∧
      Readable (anyModifier g.grabtype) m.modifiersDetail g.modifiersDetail := by
    intro hlevel
    rw [hlevel]
    exact ⟨hmod.readable g, hm.readable_modifiers g _⟩
  have hreadDetail := (hm.readable_detail g).symm
  have hmatches : Dix.grabMatchesSecond g m (g.grabtype = .core) = .ok (grabMatches g m (g.grabtype = .core)) :=
    grabMatchesSecond_eq _ (fun hsame => hread (sameEvents_level hsame)) hreadDetail
  have hlt : m.modifiersDetail.exact ≠ anyModifier m.grabtype → m.modifiersDetail.exact < 256 := hmod.resolve_left
  unfold stageGrab
  split
  · exact uses_pure _
  rename_i hclient
  refine (grabMatchesSecond_uses _ hread hreadDetail).bind fun isMatch hresult => ?_
  rw [grabMatchesSecond_result, hmatches] at hresult
  obtain rfl := Except.ok.inj hresult
  split
  · exact uses_pure _
  rename_i hmatch
  refine (grabSupersedesSecond_uses (hm.readable_modifiers g _) hreadDetail.2).bind fun superseded hresult => ?_
  rw [grabSupersedesSecond_result, grabSupersedesSecond_eq hm] at hresult
  obtain rfl := Except.ok.inj hresult
  split
  · exact uses_pure _
  rename_i hsup
  -- where the mask of the modifiers is changed, those of the minuend are cut out of it
  have hcut : fate m g = .update .modifiers → m.modifiersDetail.exact < 256 := by
    intro hfate
    have hfated := fate_fated hm (by rw [hfate]; nofun)
    rw [hfate] at hfated
    cases hfated with
    | modifiers hcut _ => exact hlt hcut.exact
  unfold fate at hcut
  rw [if_neg hclient, if_neg hmatch, if_neg hsup] at hcut
  split
  · exact update_uses hm.detail_lt _ _ _ _
  rename_i hfirst
  rw [if_neg hfirst] at hcut
  split
  · rename_i hsecond
    rw [if_pos hsecond] at hcut
    exact update_uses (hcut rfl) _ _ _ _
  rename_i hsecond
  rw [if_neg hsecond] at hcut
  split
  · rename_i hexact
    exact split_uses hm.detail_lt (hlt hexact.2) _ _ _
  rename_i hexact
  rw [if_neg hexact] at hcut
  split
  · rename_i hkey
    rw [if_pos hkey] at hcut
    exact update_uses (hcut rfl) _ _ _ _
  · exact update_uses hm.detail_lt _ _ _ _

theorem stageGrabs_uses (hm : m.Plain) (hmod : ModifiersOk m) (a : DeleteAnswers) (l : List Grab) :
    ∀ staged, (stageGrabs m a l staged).Uses (· < 256) := by
  induction l with
  | nil => exact fun _ => uses_pure _
  | cons g l ih =>
    intro staged
    unfold stageGrabs
    split
    · exact uses_pure _
    · exact (stageGrab_uses hm hmod _ _ g).bind fun staged _ => ih staged

/-- **Taking a grab out of the list**, if its modifiers are any or bits of a mask. -/
theorem deletePassiveGrabFromList_uses (hm : m.Plain) (hmod : ModifiersOk m) (a : DeleteAnswers) (st : GrabState) :
    (deletePassiveGrabFromList m a st).Uses (· < 256) := by
  unfold deletePassiveGrabFromList
  split
  · exact uses_pure _
  split
  · exact uses_pure _
  refine (stageGrabs_uses hm hmod a _ _).bind fun staged _ => ?_
  split <;> exact uses_pure _

theorem grabDenied_uses (hp : p.Plain) (hmod : ModifiersOk p) (l : List Grab) :
    (grabDenied p l).Uses (· < 256) := by
  induction l with
  | nil => exact uses_pure _
  | cons g l ih =>
    have hread := And.intro (hp.readable_modifiers g (anyModifier p.grabtype)) (hmod.readable g)
    refine (grabMatchesSecond_uses _ (fun _ => hread) (hp.readable_detail g)).bind fun isMatch _ => ?_
    split
    · exact uses_pure _
    · exact ih

theorem findIdentical_uses (hp : p.Plain) (hmod : ModifiersOk p) (l : List Grab) :
    (findIdentical p l).Uses (· < 256) := by
  induction l with
  | nil => exact uses_pure _
  | cons g l ih =>
    refine (grabsAreIdentical_uses hp hmod g).bind fun identical _ => ?_
    split
    · exact uses_pure _
    · exact ih

/-- The grab that is identical has the modifiers asked for, so that it can be taken out. -/
theorem deleteIdentical_uses (hp : p.Plain) (hmod : ModifiersOk p) (a : DeleteAnswers) {st : GrabState} (hst : st.Ok) :
    (deleteIdentical p a st).Uses (· < 256) := by
  refine (findIdentical_uses hp hmod _).bind fun found hfound => ?_
  cases found with
  | none => exact uses_pure _
  | some g =>
    rw [findIdentical_result] at hfound
    obtain ⟨-, htwin⟩ := findIdentical_twin hp _ hst.grabs hfound
    have hmod' : ModifiersOk g := by
      unfold ModifiersOk
      rw [htwin.grabtype, htwin.modifiers]
      exact hmod
    exact (deletePassiveGrabFromList_uses htwin.plain hmod' a st).bind fun _ _ => uses_pure _

theorem addPassiveGrabToList_uses (hp : p.Plain) (hmod : ModifiersOk p) (a : AddAnswers) {st : GrabState} (hst : st.Ok) :
    (addPassiveGrabToList p a st).Uses (· < 256) := by
  refine (grabDenied_uses hp hmod _).bind fun denied _ => ?_
  split
  · exact uses_pure _
  split
  · exact uses_pure _
  refine (deleteIdentical_uses hp hmod a.delete hst).bind fun st _ => ?_
  split
  · exact uses_pure _
  split <;> exact uses_pure _

end Uses

/-- **A request to grab**, if its modifiers are any or bits of a mask. -/
theorem procGrab_uses {r : GrabRequest} {st : GrabState} (hst : st.Ok) (hmod : ModifiersOk (r.grab st.nextId))
    (memory : Bool) (a : AddAnswers) : (procGrab r memory a st).Uses (· < 256) := by
  refine (uses_lift _).bind fun grab hgrab => ?_
  rw [createGrab_eq] at hgrab
  obtain rfl := Except.ok.inj hgrab
  cases memory with
  | false => exact uses_pure _
  | true =>
    have hst' : GrabState.Ok { st with nextId := st.nextId + 1 } :=
      ⟨hst.grabs, hst.nodup, fun g hg => Nat.lt_succ_of_lt (hst.fresh g hg)⟩
    exact addPassiveGrabToList_uses (grab_plain r _) hmod a hst'

end Xenia.Dix.Indexed
