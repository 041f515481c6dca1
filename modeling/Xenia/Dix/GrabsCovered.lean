import Xenia.Dix.Grabs

/-!
# What a grab covers

A grab covers the events of its type, on its devices, whose detail and modifiers it has
(`Grab.covers`). The comparisons of grabs are about the sets of details and modifiers:
`detailSupersedesSecond_eq` and `grabMatchesSecond_eq` give them without the accesses to masks,
`supersedes_has` and `meets_iff` say what they mean.

`fate` is what becomes of a grab on the list when another one is taken out, and `pieces` is what
is left of it: `pieces_covered` says that this is what it covered, without what the other covers.
-/

namespace Xenia.Dix

open Xenia.Lib Option List Bool BitVec

/-! ### Details -/

/-- The values of a detail. -/
def DetailRec.has (exception : ℕ) (r : DetailRec) (value : ℕ) : Bool :=
  if r.exact = exception then r.pMask.all fun mask => mask.getLsbD value else r.exact = value

/-- `detailSupersedesSecond` without accesses to masks. -/
def supersedes (exception : ℕ) (first second : DetailRec) : Bool :=
  if first.exact = exception then
    first.pMask.all fun mask => decide (second.exact ≠ exception) && mask.getLsbD second.exact
  else first.exact = second.exact

def meets (exception : ℕ) (first second : DetailRec) : Bool :=
  supersedes exception first second || supersedes exception second first

/-- The mask of the first detail, if there is one, has a bit for the second. -/
def Readable (exception : ℕ) (first second : DetailRec) : Prop :=
  first.exact = exception → first.pMask ≠ none → second.exact = exception ∨ second.exact < 256

section Details

variable {exception value : ℕ} {first second : DetailRec}

theorem ok_orM (a b : Bool) : ((Except.ok a : Outcome Bool) <||> .ok b) = .ok (a || b) := by
  cases a <;> rfl

theorem ok_andM (a b : Bool) : ((Except.ok a : Outcome Bool) <&&> .ok b) = .ok (a && b) := by
  cases a <;> rfl

theorem detailSupersedesSecond_eq (h : Readable exception first second) :
    detailSupersedesSecond first second exception = .ok (supersedes exception first second) := by
  have hin : isInGrabMask first second exception = .ok (if first.exact = exception then
      first.pMask.all fun mask => decide (second.exact ≠ exception) && mask.getLsbD second.exact else false) := by
    unfold isInGrabMask
    by_cases hf : first.exact = exception
    · rw [if_pos hf, if_pos hf]
      cases hm : first.pMask with
      | none => rfl
      | some mask =>
        dsimp only
        by_cases hs : second.exact = exception
        · rw [if_pos hs]
          simp [hs]
        · have hlt : second.exact < 256 := (h hf (by simp [hm])).resolve_left hs
          unfold getBit
          rw [if_pos hlt]
          simp [hs]
    · rw [if_neg hf, if_neg hf]
  unfold detailSupersedesSecond supersedes identicalExactDetails
  rw [hin, ok_orM]
  by_cases hf : first.exact = exception
  · simp [hf]
  · by_cases hs : second.exact = exception
    · simp [hs]
    · simp [hs, hf]

theorem detailSupersedesSecond_fault (hf : first.exact = exception) (hm : first.pMask ≠ none)
    (hs : second.exact ≠ exception) (hlt : 256 ≤ second.exact) :
    detailSupersedesSecond first second exception = .error .fault := by
  unfold detailSupersedesSecond isInGrabMask
  rw [if_pos hf]
  cases hmask : first.pMask with
  | none => exact absurd hmask hm
  | some mask =>
    dsimp only
    rw [if_neg hs]
    unfold getBit
    rw [if_neg (by omega)]
    rfl

/-- A detail has a mask only if it is not exact. -/
def DetailRec.Ok (exception : ℕ) (r : DetailRec) : Prop := r.pMask ≠ none → r.exact = exception

/-- A detail without a mask that supersedes another has its values. -/
theorem supersedes_has (hplain : first.pMask = none)
    (h : supersedes exception first second = true) (hv : second.has exception value = true) :
    first.has exception value = true := by
  unfold supersedes at h
  unfold DetailRec.has at hv ⊢
  by_cases hf : first.exact = exception
  · rw [if_pos hf, hplain]
    rfl
  · rw [if_neg hf] at h ⊢
    have heq : first.exact = second.exact := by simpa using h
    rw [if_neg (heq ▸ hf)] at hv
    rw [heq]
    exact hv

/-- Two details that have a value in common meet. -/
theorem meets_of_has (hplain : second.pMask = none) (h₁ : first.has exception value = true)
    (h₂ : second.has exception value = true) : meets exception first second = true := by
  unfold DetailRec.has at h₁ h₂
  unfold meets supersedes
  by_cases hs : second.exact = exception
  · rw [if_pos hs, hplain]
    simp
  · rw [if_neg hs] at h₂
    have hval : second.exact = value := by simpa using h₂
    rw [if_neg hs]
    by_cases hf : first.exact = exception
    · rw [if_pos hf] at h₁ ⊢
      cases hm : first.pMask with
      | none => simp
      | some mask =>
        rw [hm] at h₁
        simp only [all_some] at h₁ ⊢
        rw [hval, h₁]
        simp [hval ▸ hs]
    · rw [if_neg hf] at h₁
      have : first.exact = value := by simpa using h₁
      simp [hval, this]

/-- The mask without one value. -/
def removeDetail (pMask : Option DetailMask) (detail : ℕ) : DetailMask :=
  pMask.getD (BitVec.allOnes 256) &&& ~~~BitVec.twoPow 256 detail

theorem removeDetail_getLsbD (pMask : Option DetailMask) (detail : ℕ) (hvalue : value < 256) :
    (removeDetail pMask detail).getLsbD value =
      ((pMask.all fun mask => mask.getLsbD value) && decide (value ≠ detail)) := by
  have hbit : (~~~twoPow 256 detail).getLsbD value = decide (value ≠ detail) := by
    by_cases heq : value = detail
    · simp [← heq]
    · simp [hvalue, heq]
  unfold removeDetail
  rw [getLsbD_and, hbit]
  cases pMask with
  | none => rw [getD_none, getLsbD_allOnes, decide_eq_true hvalue]; rfl
  | some mask => rfl

theorem deleteDetailFromMask_eq (pMask : Option DetailMask) {detail : ℕ} (h : detail < 256) (memory : Bool) :
    deleteDetailFromMask pMask detail memory = .ok (if memory then some (removeDetail pMask detail) else none) := by
  unfold deleteDetailFromMask removeDetail
  cases memory <;> simp [h]

end Details

/-! ### Events -/

/-- An event that may activate a grab: what happens on which device, and which modifiers are down
on the modifier device. -/
structure GrabEvent where
  device : RealDevice
  modifierDevice : Device
  grabtype : InputLevel
  type : UInt8
  detail : ℕ
  modifiers : ℕ
  detail_lt : detail < 256
  modifiers_lt : modifiers < 256

def RealDevice.isMaster : RealDevice → Bool
  | .master _ => true
  | .slave _ => false

def Device.denotes : Device → RealDevice → Bool
  | .all, _ => true
  | .allMaster, dev => dev.isMaster
  | .one dev', dev => dev' = dev

/-- The grab is for the devices of the event. A core grab is for any device: it is assigned to
the one that activates it. -/
def Grab.onDevices (g : Grab) (t : GrabEvent) : Bool :=
  match g.grabtype with
  | .core => true
  | .xi => g.device = .one t.device ∧ g.modifierDevice = t.modifierDevice
  | .xi2 => g.device.denotes t.device

/-- The grab has the detail and the modifiers of the event. -/
def Grab.hasDetails (g : Grab) (t : GrabEvent) : Bool :=
  g.modifiersDetail.has (anyModifier g.grabtype) t.modifiers && g.detail.has AnyKey t.detail

def Grab.covers (g : Grab) (t : GrabEvent) : Bool :=
  g.grabtype = t.grabtype && g.type = t.type && g.onDevices t && g.hasDetails t

/-- What a client asks for that is not about which events. -/
structure GrabAttributes where
  ownerEvents : BitVec 1
  keyboardMode : BitVec 1
  pointerMode : BitVec 1
  confineTo : Option ℕ
  cursor : Option ℕ
  eventMask : BitVec 32
  xi2mask : XI2Mask

def Grab.attributes (g : Grab) : GrabAttributes :=
  ⟨g.ownerEvents, g.keyboardMode, g.pointerMode, g.confineTo, g.cursor, g.eventMask, g.xi2mask⟩

/-- The grabs of a client that cover an event, by what else they say. -/
def covering (client : ℕ) (t : GrabEvent) (grabs : List Grab) : List GrabAttributes :=
  (grabs.filter fun g => g.resource.client = client && g.covers t).map Grab.attributes

/-! ### Comparing grabs -/

/-- The grabs are of one level and type, and the devices match. -/
def sameEvents (first second : Grab) (ignoreDevice : Bool) : Bool :=
  first.grabtype = second.grabtype && devicesMatch first second ignoreDevice && first.type = second.type

/-- `grabSupersedesSecond` without accesses to masks. -/
def grabSupersedes (first second : Grab) : Bool :=
  supersedes (anyModifier first.grabtype) first.modifiersDetail second.modifiersDetail &&
    supersedes AnyKey first.detail second.detail

/-- `grabMatchesSecond` without accesses to masks. -/
def grabMatches (first second : Grab) (ignoreDevice : Bool) : Bool :=
  sameEvents first second ignoreDevice &&
    (meets (anyModifier first.grabtype) first.modifiersDetail second.modifiersDetail &&
      meets AnyKey first.detail second.detail)

/-- A grab has masks only for details that are not exact. -/
structure Grab.Ok (g : Grab) : Prop where
  modifiers : g.modifiersDetail.pMask ≠ none → g.modifiersDetail.exact = anyModifier g.grabtype
  detail : g.detail.pMask ≠ none → g.detail.exact = AnyKey
  detail_lt : g.detail.exact < 256
  xi2mask : g.grabtype ≠ .xi2 → g.xi2mask = fun _ => 0
  eventMask : g.grabtype = .xi2 → g.eventMask = 0

/-- A grab without masks. -/
structure Grab.Plain (g : Grab) : Prop where
  modifiers : g.modifiersDetail.pMask = none
  detail : g.detail.pMask = none
  detail_lt : g.detail.exact < 256

section Compare

variable {g m : Grab}

theorem Grab.Plain.readable_detail (hm : m.Plain) (g : Grab) :
    Readable AnyKey m.detail g.detail ∧ Readable AnyKey g.detail m.detail :=
  ⟨fun _ h => absurd hm.detail h, fun _ _ => .inr hm.detail_lt⟩

theorem Grab.Plain.readable_modifiers (hm : m.Plain) (g : Grab) (exception : ℕ) :
    Readable exception m.modifiersDetail g.modifiersDetail := fun _ h => absurd hm.modifiers h

/-- The modifiers of the second grab are looked up in a mask that is long enough. -/
def ModifiersReadable (g m : Grab) : Prop :=
  Readable (anyModifier m.grabtype) g.modifiersDetail m.modifiersDetail

theorem grabSupersedesSecond_eq (hm : m.Plain) (g : Grab) :
    grabSupersedesSecond m g = .ok (grabSupersedes m g) := by
  unfold grabSupersedesSecond grabSupersedes
  rw [detailSupersedesSecond_eq (hm.readable_modifiers g _), detailSupersedesSecond_eq (hm.readable_detail g).1,
    ok_andM]

theorem bool_meets (a b c d : Bool) : (a && b || (c && d || (d && a || b && c))) = ((a || c) && (b || d)) := by
  cases a <;> cases b <;> cases c <;> cases d <;> rfl

/-- **`GrabMatchesSecond`**, where it reads masks only up to their length. -/
theorem grabMatchesSecond_eq {first second : Grab} (ignoreDevice : Bool)
    (hmod : sameEvents first second ignoreDevice = true →
      Readable (anyModifier first.grabtype) first.modifiersDetail second.modifiersDetail ∧
        Readable (anyModifier first.grabtype) second.modifiersDetail first.modifiersDetail)
    (hdetail : Readable AnyKey first.detail second.detail ∧ Readable AnyKey second.detail first.detail) :
    grabMatchesSecond first second ignoreDevice = .ok (grabMatches first second ignoreDevice) := by
  unfold grabMatchesSecond grabMatches sameEvents at *
  by_cases hlevel : first.grabtype = second.grabtype
  · rw [if_neg (not_not.2 hlevel)]
    cases hdev : devicesMatch first second ignoreDevice with
    | false => simp
    | true =>
      by_cases htype : first.type = second.type
      · rw [if_neg (not_not.2 htype)]
        obtain ⟨h₁, h₂⟩ := hmod (by simp [hlevel, hdev, htype])
        unfold grabSupersedesSecond meets
        rw [← hlevel, detailSupersedesSecond_eq h₁, detailSupersedesSecond_eq h₂,
          detailSupersedesSecond_eq hdetail.1, detailSupersedesSecond_eq hdetail.2]
        rw [ok_andM, ok_andM, ok_andM, ok_andM, ok_orM, ok_orM, ok_orM, bool_meets]
        simp [htype]
      · rw [if_pos htype]
        simp [htype]
  · rw [if_pos hlevel]
    simp [hlevel]

end Compare

/-! ### What becomes of a grab -/

/-- The branches of the loop of `DeletePassiveGrabFromList`. -/
inductive Fate
  | keep
  | delete
  | update (field : DetailField)
  | split
  deriving DecidableEq

def fate (m g : Grab) : Fate :=
  if g.resource.client ≠ m.resource.client then .keep
  else if !grabMatches g m (g.grabtype = .core) then .keep
  else if grabSupersedes m g then .delete
  else if g.detail.exact = anyKey m.grabtype ∧ g.modifiersDetail.exact ≠ anyModifier m.grabtype then .update .detail
  else if g.modifiersDetail.exact = anyModifier m.grabtype ∧ g.detail.exact ≠ anyKey m.grabtype then .update .modifiers
  else if m.detail.exact ≠ anyKey m.grabtype ∧ m.modifiersDetail.exact ≠ anyModifier m.grabtype then .split
  else if m.detail.exact = anyKey m.grabtype then .update .modifiers
  else .update .detail

/-- One value is cut out of a detail. -/
structure Cut (exception : ℕ) (r s : DetailRec) : Prop where
  wild : r.exact = exception
  exact : s.exact ≠ exception
  has : r.has exception s.exact = true

/-- What each fate says about the two grabs. -/
inductive Fated (m g : Grab) : Fate → Prop
  | delete (hmod : supersedes (anyModifier m.grabtype) m.modifiersDetail g.modifiersDetail = true)
      (hdetail : supersedes AnyKey m.detail g.detail = true) : Fated m g .delete
  | detail (hcut : Cut AnyKey g.detail m.detail)
      (hmod : supersedes (anyModifier m.grabtype) m.modifiersDetail g.modifiersDetail = true) :
      Fated m g (.update .detail)
  | modifiers (hcut : Cut (anyModifier m.grabtype) g.modifiersDetail m.modifiersDetail)
      (hdetail : supersedes AnyKey m.detail g.detail = true) : Fated m g (.update .modifiers)
  | split (hmod : Cut (anyModifier m.grabtype) g.modifiersDetail m.modifiersDetail)
      (hdetail : Cut AnyKey g.detail m.detail) : Fated m g .split

section Fate

variable {g m : Grab} {exception : ℕ} {r s : DetailRec}

theorem supersedes_of_wild (hplain : s.pMask = none) (hs : s.exact = exception) : supersedes exception s r = true := by
  unfold supersedes
  rw [if_pos hs, hplain]
  rfl

/-- An exact detail that meets another one is among its values. -/
theorem supersedes_of_meets (h : meets exception r s = true) (hr : r.exact ≠ exception) :
    supersedes exception s r = true := by
  unfold meets at h
  rw [or_eq_true] at h
  rcases h with h | h
  · unfold supersedes at h ⊢
    rw [if_neg hr] at h
    have heq : r.exact = s.exact := by simpa using h
    rw [if_neg (heq ▸ hr)]
    simp [heq]
  · exact h

theorem cut_of_meets (h : meets exception r s = true) (hr : r.exact = exception) (hs : s.exact ≠ exception) :
    Cut exception r s := by
  refine ⟨hr, hs, ?_⟩
  unfold meets at h
  rw [or_eq_true] at h
  unfold DetailRec.has
  rw [if_pos hr]
  rcases h with h | h
  · unfold supersedes at h
    rw [if_pos hr] at h
    cases hm : r.pMask with
    | none => rfl
    | some mask =>
      rw [hm] at h
      have : s.exact ≠ exception ∧ mask.getLsbD s.exact = true := by simpa using h
      exact this.2
  · unfold supersedes at h
    rw [if_neg hs] at h
    exact absurd ((decide_eq_true_iff.1 h).trans hr) hs

/-- A grab that is not kept is the client's, and matches. -/
theorem fate_matches (h : fate m g ≠ .keep) :
    g.resource.client = m.resource.client ∧ grabMatches g m (g.grabtype = .core) = true := by
  unfold fate at h
  by_cases hc : g.resource.client = m.resource.client
  · rw [if_neg (not_not.2 hc)] at h
    refine ⟨hc, ?_⟩
    by_contra hno
    rw [if_pos (by simpa using hno)] at h
    exact h rfl
  · rw [if_pos hc] at h
    exact absurd rfl h

theorem grabMatches_level (h : grabMatches g m (g.grabtype = .core) = true) : g.grabtype = m.grabtype := by
  unfold grabMatches sameEvents at h
  simp only [and_eq_true, decide_eq_true_eq] at h
  exact h.1.1.1

/-- **What the branches mean.** -/
theorem fate_fated (hm : m.Plain) (h : fate m g ≠ .keep) : Fated m g (fate m g) := by
  obtain ⟨hc, hmatch⟩ := fate_matches h
  have hlevel := grabMatches_level hmatch
  have hmeets := hmatch
  unfold grabMatches at hmeets
  rw [hlevel, and_eq_true, and_eq_true] at hmeets
  obtain ⟨-, hmod, hdetail⟩ := hmeets
  have hkey : anyKey m.grabtype = AnyKey := by
    unfold anyKey
    split <;> rfl
  unfold fate
  rw [if_neg (not_not.2 hc), if_neg (by simp [hmatch]), hkey]
  by_cases hsup : grabSupersedes m g = true
  · rw [if_pos hsup]
    unfold grabSupersedes at hsup
    rw [and_eq_true] at hsup
    exact .delete hsup.1 hsup.2
  rw [if_neg hsup]
  -- one of the two details is not superseded
  have hnot : supersedes (anyModifier m.grabtype) m.modifiersDetail g.modifiersDetail = true →
      supersedes AnyKey m.detail g.detail = true → False := by
    intro h₁ h₂
    refine hsup ?_
    unfold grabSupersedes
    rw [h₁, h₂]
    rfl
  have hexact₁ : g.modifiersDetail.exact ≠ anyModifier m.grabtype →
      supersedes (anyModifier m.grabtype) m.modifiersDetail g.modifiersDetail = true := supersedes_of_meets hmod
  have hexact₂ : g.detail.exact ≠ AnyKey → supersedes AnyKey m.detail g.detail = true := supersedes_of_meets hdetail
  have hwild₁ : m.modifiersDetail.exact = anyModifier m.grabtype →
      supersedes (anyModifier m.grabtype) m.modifiersDetail g.modifiersDetail = true := supersedes_of_wild hm.modifiers
  have hwild₂ : m.detail.exact = AnyKey → supersedes AnyKey m.detail g.detail = true := supersedes_of_wild hm.detail
  by_cases h₁ : g.detail.exact = AnyKey ∧ g.modifiersDetail.exact ≠ anyModifier m.grabtype
  · rw [if_pos h₁]
    exact .detail (cut_of_meets hdetail h₁.1 fun hw => hnot (hexact₁ h₁.2) (hwild₂ hw)) (hexact₁ h₁.2)
  rw [if_neg h₁]
  by_cases h₂ : g.modifiersDetail.exact = anyModifier m.grabtype ∧ g.detail.exact ≠ AnyKey
  · rw [if_pos h₂]
    exact .modifiers (cut_of_meets hmod h₂.1 fun hw => hnot (hwild₁ hw) (hexact₂ h₂.2)) (hexact₂ h₂.2)
  rw [if_neg h₂]
  -- both are wild
  have hboth : g.modifiersDetail.exact = anyModifier m.grabtype ∧ g.detail.exact = AnyKey := by
    by_contra hno
    rcases not_and_or.1 hno with h | h
    · by_cases hd : g.detail.exact = AnyKey
      · exact h₁ ⟨hd, h⟩
      · exact hnot (hexact₁ h) (hexact₂ hd)
    · by_cases hd : g.modifiersDetail.exact = anyModifier m.grabtype
      · exact h₂ ⟨hd, h⟩
      · exact hnot (hexact₁ hd) (hexact₂ h)
  by_cases h₃ : m.detail.exact ≠ AnyKey ∧ m.modifiersDetail.exact ≠ anyModifier m.grabtype
  · rw [if_pos h₃]
    exact .split (cut_of_meets hmod hboth.1 h₃.2) (cut_of_meets hdetail hboth.2 h₃.1)
  rw [if_neg h₃]
  by_cases h₄ : m.detail.exact = AnyKey
  · rw [if_pos h₄]
    exact .modifiers (cut_of_meets hmod hboth.1 fun hw => hnot (hwild₁ hw) (hwild₂ h₄)) (hwild₂ h₄)
  · rw [if_neg h₄]
    have hw : m.modifiersDetail.exact = anyModifier m.grabtype := by
      by_contra hw
      exact h₃ ⟨h₄, hw⟩
    exact .detail (cut_of_meets hdetail hboth.2 h₄) (hwild₁ hw)

end Fate

/-! ### What is left of a grab -/

/-- The grab with one value of the other grab cut out. -/
def Grab.without (g m : Grab) (field : DetailField) : Grab :=
  g.setMask field (removeDetail (g.field field).pMask (m.field field).exact)

/-- The grab that is split off. -/
def splitOff (m g : Grab) (id : ℕ) : Grab :=
  { g with
    resource := ⟨g.resource.client, id⟩
    modifiersDetail := ⟨anyModifier m.grabtype, some (removeDetail g.modifiersDetail.pMask m.modifiersDetail.exact)⟩
    detail := ⟨m.detail.exact, none⟩
    deviceMask := 0 }

/-- The grab that takes the place of `g` on the list. -/
def survivor (m g : Grab) : Option Grab :=
  match fate m g with
  | .keep => some g
  | .delete => none
  | .update field => some (g.without m field)
  | .split => some (g.without m .detail)

/-- What is left of a grab. -/
def pieces (m g : Grab) (id : ℕ) : List Grab :=
  (if fate m g = .split then [splitOff m g id] else []) ++ (survivor m g).toList

section Pieces

variable {g m : Grab} {t : GrabEvent}

theorem without_detail_covers (h : g.detail.exact = AnyKey) :
    (g.without m .detail).covers t = (g.covers t && decide (t.detail ≠ m.detail.exact)) := by
  have hdetail : (g.without m .detail).detail.has AnyKey t.detail =
      (g.detail.has AnyKey t.detail && decide (t.detail ≠ m.detail.exact)) := by
    unfold Grab.without Grab.setMask DetailRec.has
    dsimp only [Grab.field]
    rw [if_pos h, if_pos h, all_some, removeDetail_getLsbD _ _ t.detail_lt]
  show (decide (g.grabtype = t.grabtype) && decide (g.type = t.type) && g.onDevices t &&
    (g.modifiersDetail.has (anyModifier g.grabtype) t.modifiers &&
      (g.without m .detail).detail.has AnyKey t.detail)) = _
  rw [hdetail]
  unfold Grab.covers Grab.hasDetails
  simp only [Bool.and_assoc]

theorem without_modifiers_covers (h : g.modifiersDetail.exact = anyModifier g.grabtype) :
    (g.without m .modifiers).covers t = (g.covers t && decide (t.modifiers ≠ m.modifiersDetail.exact)) := by
  have hmod : (g.without m .modifiers).modifiersDetail.has (anyModifier g.grabtype) t.modifiers =
      (g.modifiersDetail.has (anyModifier g.grabtype) t.modifiers &&
        decide (t.modifiers ≠ m.modifiersDetail.exact)) := by
    unfold Grab.without Grab.setMask DetailRec.has
    dsimp only [Grab.field]
    rw [if_pos h, if_pos h, all_some, removeDetail_getLsbD _ _ t.modifiers_lt]
  show (decide (g.grabtype = t.grabtype) && decide (g.type = t.type) && g.onDevices t &&
    ((g.without m .modifiers).modifiersDetail.has (anyModifier g.grabtype) t.modifiers &&
      g.detail.has AnyKey t.detail)) = _
  rw [hmod]
  unfold Grab.covers Grab.hasDetails
  simp only [Bool.and_assoc, Bool.and_comm (decide (t.modifiers ≠ _))]

theorem splitOff_covers (id : ℕ) (hlevel : g.grabtype = m.grabtype)
    (hmod : Cut (anyModifier m.grabtype) g.modifiersDetail m.modifiersDetail) (hdetail : Cut AnyKey g.detail m.detail) :
    (splitOff m g id).covers t =
      (g.covers t && (decide (t.modifiers ≠ m.modifiersDetail.exact) && decide (t.detail = m.detail.exact))) := by
  have h₁ : (splitOff m g id).modifiersDetail.has (anyModifier g.grabtype) t.modifiers =
      (g.modifiersDetail.has (anyModifier g.grabtype) t.modifiers &&
        decide (t.modifiers ≠ m.modifiersDetail.exact)) := by
    unfold splitOff DetailRec.has
    rw [if_pos (by rw [hlevel]), hlevel, if_pos hmod.wild, all_some, removeDetail_getLsbD _ _ t.modifiers_lt]
  have h₂ : (splitOff m g id).detail.has AnyKey t.detail =
      (g.detail.has AnyKey t.detail && decide (t.detail = m.detail.exact)) := by
    have hself : (splitOff m g id).detail.has AnyKey t.detail = decide (m.detail.exact = t.detail) := by
      unfold splitOff DetailRec.has
      rw [if_neg hdetail.exact]
    rw [hself]
    by_cases heq : t.detail = m.detail.exact
    · rw [heq, hdetail.has]
      simp
    · simp [heq, Ne.symm heq]
  show (decide (g.grabtype = t.grabtype) && decide (g.type = t.type) && g.onDevices t &&
    ((splitOff m g id).modifiersDetail.has (anyModifier g.grabtype) t.modifiers &&
      (splitOff m g id).detail.has AnyKey t.detail)) = _
  rw [h₁, h₂]
  unfold Grab.covers Grab.hasDetails
  generalize g.modifiersDetail.has (anyModifier g.grabtype) t.modifiers = a
  generalize g.detail.has AnyKey t.detail = b
  generalize decide (t.modifiers ≠ m.modifiersDetail.exact) = c
  generalize decide (t.detail = m.detail.exact) = d
  cases a <;> cases b <;> cases c <;> cases d <;> simp

theorem has_exact {exception value : ℕ} {s : DetailRec} (h : s.exact ≠ exception) :
    s.has exception value = decide (value = s.exact) := by
  unfold DetailRec.has
  rw [if_neg h]
  exact decide_eq_decide.2 eq_comm

/-- The grabs of one client among these, by what else they say. -/
theorem covering_cons (client : ℕ) (t : GrabEvent) (g : Grab) (l : List Grab) :
    covering client t (g :: l) =
      (if g.resource.client = client ∧ g.covers t = true then [g.attributes] else []) ++ covering client t l := by
  unfold covering
  by_cases h : g.resource.client = client ∧ g.covers t = true
  · rw [if_pos h, filter_cons_of_pos (by simpa using h)]
    rfl
  · rw [if_neg h, filter_cons_of_neg (by simpa using h)]
    rfl

theorem covering_append (client : ℕ) (t : GrabEvent) (l l' : List Grab) :
    covering client t (l ++ l') = covering client t l ++ covering client t l' := by
  unfold covering
  rw [filter_append, map_append]

/-- **The pieces of a grab** cover what it covered, without what has the details of the other. -/
theorem pieces_covered (hm : m.Plain) (hkeep : fate m g ≠ .keep) (id : ℕ) (t : GrabEvent) :
    covering m.resource.client t (pieces m g id) =
      if m.hasDetails t then [] else covering m.resource.client t [g] := by
  obtain ⟨hc, hmatch⟩ := fate_matches hkeep
  have hlevel := grabMatches_level hmatch
  have hnil : covering m.resource.client t [] = [] := rfl
  have hcov : g.covers t = true → g.hasDetails t = true := by
    intro h
    unfold Grab.covers at h
    rw [and_eq_true] at h
    exact h.2
  have hdetails : g.hasDetails t = true → g.modifiersDetail.has (anyModifier m.grabtype) t.modifiers = true ∧
      g.detail.has AnyKey t.detail = true := by
    intro h
    unfold Grab.hasDetails at h
    rwa [hlevel, and_eq_true] at h
  unfold pieces survivor
  have hfated := fate_fated hm hkeep
  cases hf : fate m g with
  | keep => exact absurd hf hkeep
  | delete =>
    rw [hf] at hfated
    cases hfated with
    | delete hmod hdetail =>
      rw [if_neg (by simp), toList_none, append_nil]
      split
      · rfl
      · rename_i hno
        rw [covering_cons, if_neg, hnil, append_nil]
        rintro ⟨-, hg⟩
        obtain ⟨h₁, h₂⟩ := hdetails (hcov hg)
        refine hno ?_
        unfold Grab.hasDetails
        rw [supersedes_has hm.modifiers hmod h₁, supersedes_has hm.detail hdetail h₂]
        rfl
  | update field =>
    rw [hf] at hfated
    rw [if_neg (by simp), nil_append, toList_some, covering_cons, covering_cons, hnil]
    have hsame : (g.without m field).resource.client = g.resource.client ∧
        (g.without m field).attributes = g.attributes := by
      cases field <;> exact ⟨rfl, rfl⟩
    have hcovers : (g.without m field).covers t = (g.covers t && !m.hasDetails t) := by
      cases hg : g.covers t with
      | false =>
        cases hfated with
        | detail hcut hmod => rw [without_detail_covers hcut.wild, hg, Bool.false_and, Bool.false_and]
        | modifiers hcut hdetail =>
          rw [without_modifiers_covers (by rw [hlevel]; exact hcut.wild), hg, Bool.false_and, Bool.false_and]
      | true =>
        obtain ⟨h₁, h₂⟩ := hdetails (hcov hg)
        cases hfated with
        | detail hcut hmod =>
          rw [without_detail_covers hcut.wild, hg, Bool.true_and, Bool.true_and]
          unfold Grab.hasDetails
          rw [supersedes_has hm.modifiers hmod h₁, Bool.true_and, has_exact hcut.exact, decide_not]
        | modifiers hcut hdetail =>
          rw [without_modifiers_covers (by rw [hlevel]; exact hcut.wild), hg, Bool.true_and, Bool.true_and]
          unfold Grab.hasDetails
          rw [supersedes_has hm.detail hdetail h₂, Bool.and_true, has_exact hcut.exact, decide_not]
    rw [hsame.1, hsame.2, hcovers]
    cases m.hasDetails t <;> simp
  | split =>
    rw [hf] at hfated
    cases hfated with
    | split hmod hdetail =>
      rw [if_pos rfl, toList_some, singleton_append, covering_cons, covering_cons, covering_cons, hnil, splitOff_covers id hlevel hmod hdetail, without_detail_covers hdetail.wild]
      have hm' : m.hasDetails t =
          (decide (t.modifiers = m.modifiersDetail.exact) && decide (t.detail = m.detail.exact)) := by
        unfold Grab.hasDetails
        rw [has_exact hmod.exact, has_exact hdetail.exact]
      rw [hm', show (splitOff m g id).resource.client = g.resource.client from rfl,
        show (splitOff m g id).attributes = g.attributes from rfl,
        show (g.without m .detail).resource.client = g.resource.client from rfl,
        show (g.without m .detail).attributes = g.attributes from rfl]
      by_cases h₁ : t.modifiers = m.modifiersDetail.exact <;> by_cases h₂ : t.detail = m.detail.exact <;>
        simp [h₁, h₂]

end Pieces

end Xenia.Dix
