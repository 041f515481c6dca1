import Xenia.Dix.GrabsAdd

/-!
# Grabs of different clients

No event is covered by grabs of two clients (`Separate`). `matches_iff` says that a request
matches a grab on the list exactly if there is an event that both cover, unless nothing is left
of the grab on the list. `grabs_exclusive` is about runs: no two clients' grabs ever meet, and a
request is denied with `BadAccess` exactly if it would lead to that.
-/

namespace Xenia.Dix

open Xenia.Lib List

section Matching

variable {p g : Grab}

theorem meets_comm (exception : ℕ) (r s : DetailRec) : meets exception r s = meets exception s r := Bool.or_comm _ _

/-- Details that meet have a value in common, if there is one at all. -/
theorem common_value {exception : ℕ} {r s : DetailRec} (hplain : r.pMask = none)
    (hr : r.exact = exception ∨ r.exact < 256) (hs : ∃ v, v < 256 ∧ s.has exception v = true)
    (h : meets exception r s = true) : ∃ v, v < 256 ∧ r.has exception v = true ∧ s.has exception v = true := by
  by_cases hwild : r.exact = exception
  · obtain ⟨v, hv, hhas⟩ := hs
    refine ⟨v, hv, ?_, hhas⟩
    unfold DetailRec.has
    rw [if_pos hwild, hplain]
    rfl
  · have hlt := hr.resolve_left hwild
    refine ⟨r.exact, hlt, ?_, ?_⟩
    · unfold DetailRec.has
      rw [if_neg hwild]
      exact decide_eq_true rfl
    · by_cases hs' : s.exact = exception
      · rw [meets_comm] at h
        exact (cut_of_meets h hs' hwild).has
      · have hsup := supersedes_of_meets h hwild
        unfold supersedes at hsup
        rw [if_neg hs'] at hsup
        unfold DetailRec.has
        rw [if_neg hs']
        exact hsup

/-- There is a device for both grabs. -/
theorem common_device (hxi : g.grabtype = .xi → ∃ dev, g.device = .one dev)
    (h : sameEvents p g (p.grabtype = .core) = true) :
    ∃ dev modDev, ∀ t : GrabEvent, t.device = dev → t.modifierDevice = modDev →
      p.onDevices t = true ∧ g.onDevices t = true := by
  have hlevel := sameEvents_level h
  have hs := h
  unfold sameEvents at hs
  simp only [Bool.and_eq_true] at hs
  obtain ⟨⟨-, hdev⟩, -⟩ := hs
  unfold devicesMatch at hdev
  unfold Grab.onDevices
  rw [← hlevel] at hxi ⊢
  cases hl : p.grabtype with
  | core => exact ⟨.master 0, .all, fun _ _ _ => ⟨rfl, rfl⟩⟩
  | xi =>
    obtain ⟨dev, hg⟩ := hxi hl
    rw [hl] at hdev
    simp at hdev
    refine ⟨dev, g.modifierDevice, fun t ht hm => ?_⟩
    simp [hdev.1, hdev.2, hg, ht, hm]
  | xi2 =>
    rw [hl] at hdev
    cases hp : p.device with
    | all =>
      cases hg : g.device with
      | all => exact ⟨.master 0, .all, fun _ _ _ => ⟨rfl, rfl⟩⟩
      | allMaster => exact ⟨.master 0, .all, fun t ht _ => ⟨rfl, by rw [ht]; rfl⟩⟩
      | one dev => exact ⟨dev, .all, fun t ht _ => ⟨rfl, by simp [Device.denotes, ht]⟩⟩
    | allMaster =>
      cases hg : g.device with
      | all => exact ⟨.master 0, .all, fun t ht _ => ⟨by rw [ht]; rfl, rfl⟩⟩
      | allMaster => exact ⟨.master 0, .all, fun t ht _ => ⟨by rw [ht]; rfl, by rw [ht]; rfl⟩⟩
      | one dev =>
        rw [hp, hg] at hdev
        cases dev with
        | slave n => simp [inputDevIsMaster] at hdev
        | master n => exact ⟨.master n, .all, fun t ht _ => ⟨by rw [ht]; rfl, by simp [Device.denotes, ht]⟩⟩
    | one dev =>
      cases hg : g.device with
      | all => exact ⟨dev, .all, fun t ht _ => ⟨by simp [Device.denotes, ht], rfl⟩⟩
      | allMaster =>
        rw [hp, hg] at hdev
        cases dev with
        | slave n => simp [inputDevIsMaster] at hdev
        | master n => exact ⟨.master n, .all, fun t ht _ => ⟨by simp [Device.denotes, ht], by rw [ht]; rfl⟩⟩
      | one dev' =>
        rw [hp, hg] at hdev
        simp at hdev
        exact ⟨dev, .all, fun t ht _ => ⟨by simp [Device.denotes, ht], by simp [Device.denotes, ht, hdev]⟩⟩

/-- Something is left of a grab. -/
def Left (g : Grab) : Prop :=
  (∃ v, v < 256 ∧ g.modifiersDetail.has (anyModifier g.grabtype) v = true) ∧ ∃ v, v < 256 ∧ g.detail.has AnyKey v = true

/-- The modifiers are any, or those of a device. -/
def ModifiersOk (g : Grab) : Prop :=
  g.modifiersDetail.exact = anyModifier g.grabtype ∨ g.modifiersDetail.exact < 256

theorem matches_of_covers {t : GrabEvent} (hplain : p.Plain) (hp : p.covers t = true) (hg : g.covers t = true) :
    grabMatches p g (p.grabtype = .core) = true := by
  have hsame := sameEvents_of_covers hp hg
  have hlevel := sameEvents_level hsame
  have h₁ := covers_hasDetails hp
  have h₂ := covers_hasDetails hg
  unfold Grab.hasDetails at h₁ h₂
  rw [← hlevel, Bool.and_eq_true] at h₂
  rw [Bool.and_eq_true] at h₁
  unfold grabMatches
  rw [hsame, meets_comm, meets_comm AnyKey, meets_of_has hplain.modifiers h₂.1 h₁.1, meets_of_has hplain.detail h₂.2 h₁.2]
  rfl

/-- **A match**: there is an event that both grabs cover. -/
theorem matches_iff (hplain : p.Plain) (hmod : ModifiersOk p) (hxi : g.grabtype = .xi → ∃ dev, g.device = .one dev)
    (hleft : sameEvents p g (p.grabtype = .core) = true → Left g) :
    grabMatches p g (p.grabtype = .core) = true ↔ ∃ t, p.covers t = true ∧ g.covers t = true := by
  constructor
  · intro h
    have hm := h
    unfold grabMatches at hm
    rw [Bool.and_eq_true, Bool.and_eq_true] at hm
    obtain ⟨hsame, hmods, hdetails⟩ := hm
    have hlevel := sameEvents_level hsame
    obtain ⟨hleft₁, hleft₂⟩ := hleft hsame
    rw [← hlevel] at hleft₁
    obtain ⟨v, hv, hpv, hgv⟩ := common_value hplain.modifiers hmod hleft₁ hmods
    obtain ⟨w, hw, hpw, hgw⟩ := common_value hplain.detail (.inr hplain.detail_lt) hleft₂ hdetails
    obtain ⟨dev, modDev, hdev⟩ := common_device hxi hsame
    have htype : p.type = g.type := by
      unfold sameEvents at hsame
      simp only [Bool.and_eq_true, decide_eq_true_eq] at hsame
      exact hsame.2
    obtain ⟨t, ht⟩ : ∃ t : GrabEvent, t = ⟨dev, modDev, p.grabtype, p.type, w, v, hw, hv⟩ := ⟨_, rfl⟩
    obtain ⟨hd₁, hd₂⟩ := hdev t (by rw [ht]) (by rw [ht])
    refine ⟨t, ?_, ?_⟩
    · unfold Grab.covers Grab.hasDetails
      rw [hd₁, ht]
      simp [hpv, hpw]
    · unfold Grab.covers Grab.hasDetails
      rw [hd₂, ht, ← hlevel, ← htype]
      simp [hgv, hgw]
  · rintro ⟨t, hp, hg⟩
    exact matches_of_covers hplain hp hg

end Matching

/-! ### Requests -/

/-- What a request must be like. Its modifiers are any or those of a device, an XI grab is for a
device there is, and if the grab on the list it takes the place of is taken out, nothing goes
wrong. -/
structure RequestOk (st : GrabState) (r : GrabRequest) : Prop where
  modifiers : ModifiersOk (r.grab st.nextId)
  device : r.grabtype = .xi → ∃ dev, r.device = .one dev
  twin : ∀ g ∈ st.passiveGrabs, Twin (r.grab st.nextId) g → ∀ h ∈ st.passiveGrabs, ¬Faulty g h

section Requests

variable {st : GrabState} {r : GrabRequest} {p : Grab}

theorem ModifiersOk.readable (h : ModifiersOk p) (g : Grab) :
    Readable (anyModifier p.grabtype) g.modifiersDetail p.modifiersDetail := fun _ _ => h

theorem grabDenied_eq (hplain : p.Plain) (hmod : ModifiersOk p) (l : List Grab) :
    grabDenied p l = .ok (l.any fun g => grabMatches p g (p.grabtype = .core) && p.resource.client ≠ g.resource.client) := by
  induction l with
  | nil => rfl
  | cons g l ih =>
    unfold grabDenied
    rw [grabMatchesSecond_eq _ (fun _ => ⟨hplain.readable_modifiers g _, hmod.readable g⟩) (hplain.readable_detail g),
      ok_bind, any_cons]
    cases grabMatches p g (p.grabtype = .core) && decide (p.resource.client ≠ g.resource.client) with
    | true => rfl
    | false => exact ih

theorem identical_returns (hplain : p.Plain) (hmod : ModifiersOk p) (g : Grab) :
    ∃ b, grabsAreIdentical p g = .ok b := by
  unfold grabsAreIdentical
  dsimp only
  split
  · exact ⟨_, rfl⟩
  split
  · exact ⟨_, rfl⟩
  rw [detailSupersedesSecond_eq (hplain.readable_detail g).1, detailSupersedesSecond_eq (hplain.readable_detail g).2,
    detailSupersedesSecond_eq (hplain.readable_modifiers g _), detailSupersedesSecond_eq (hmod.readable g),
    ok_andM, ok_andM, ok_andM]
  exact ⟨_, rfl⟩

theorem findIdentical_returns (hplain : p.Plain) (hmod : ModifiersOk p) (l : List Grab) :
    ∃ found, findIdentical p l = .ok found := by
  induction l with
  | nil => exact ⟨_, rfl⟩
  | cons g l ih =>
    obtain ⟨b, hb⟩ := identical_returns hplain hmod g
    unfold findIdentical
    rw [hb]
    cases b with
    | true => exact ⟨_, rfl⟩
    | false => exact ih

/-- **A request to grab** comes to an end, and is denied exactly if it matches a grab of another
client. -/
theorem procGrab_denied (hst : st.Ok) (hr : RequestOk st r) (memory : Bool) (a : AddAnswers) :
    ∃ st' rc, procGrab r memory a st = .ok (st', rc) ∧ (memory = true → a.access ≠ BadAccess →
      (rc = BadAccess ↔ ∃ g ∈ st.passiveGrabs, g.resource.client ≠ r.client ∧
        grabMatches (r.grab st.nextId) g ((r.grab st.nextId).grabtype = .core) = true)) := by
  have hplain := grab_plain r st.nextId
  unfold procGrab
  rw [createGrab_eq, ok_bind]
  cases memory with
  | false => exact ⟨_, _, rfl, fun h => nomatch h⟩
  | true =>
    rw [if_pos rfl]
    unfold addPassiveGrabToList
    dsimp only
    rw [grabDenied_eq hplain hr.modifiers, ok_bind]
    have hiff : (st.passiveGrabs.any fun g => grabMatches (r.grab st.nextId) g ((r.grab st.nextId).grabtype = .core) &&
        (r.grab st.nextId).resource.client ≠ g.resource.client) = true ↔
        ∃ g ∈ st.passiveGrabs, g.resource.client ≠ r.client ∧
          grabMatches (r.grab st.nextId) g ((r.grab st.nextId).grabtype = .core) = true := by
      rw [any_eq_true]
      refine exists_congr fun g => and_congr_right fun _ => ?_
      rw [Bool.and_eq_true, decide_eq_true_eq, and_comm]
      exact and_congr_left fun _ => ne_comm
    cases hdenied : (st.passiveGrabs.any fun g =>
        grabMatches (r.grab st.nextId) g ((r.grab st.nextId).grabtype = .core) &&
          (r.grab st.nextId).resource.client ≠ g.resource.client) with
    | true =>
      exact ⟨_, _, rfl, fun _ _ => iff_of_true rfl (hiff.1 hdenied)⟩
    | false =>
      have hno : ¬∃ g ∈ st.passiveGrabs, g.resource.client ≠ r.client ∧
          grabMatches (r.grab st.nextId) g ((r.grab st.nextId).grabtype = .core) = true := by
        rw [← hiff, hdenied]
        simp
      rw [if_neg (by simp)]
      split
      · exact ⟨_, _, rfl, fun _ hne => iff_of_false hne hno⟩
      have hok : ({ st with nextId := st.nextId + 1 } : GrabState).Ok :=
        ⟨hst.grabs, hst.nodup, fun g hg => Nat.lt_succ_of_lt (hst.fresh g hg)⟩
      obtain ⟨st₁, hdel⟩ : ∃ st₁, deleteIdentical (r.grab st.nextId) a.delete { st with nextId := st.nextId + 1 } =
          .ok st₁ := by
        obtain ⟨found, hfound⟩ := findIdentical_returns hplain hr.modifiers st.passiveGrabs
        unfold deleteIdentical
        rw [hfound, ok_bind]
        cases found with
        | none => exact ⟨_, rfl⟩
        | some g =>
          obtain ⟨hmem, htwin⟩ := findIdentical_twin hplain _ hst.grabs hfound
          obtain ⟨st₁, ok, hrun, -⟩ := delete_returns hok htwin.plain (hr.twin g hmem htwin) a.delete
          dsimp only
          rw [hrun]
          exact ⟨_, rfl⟩
      rw [hdel]
      split
      · exact ⟨_, _, rfl, fun _ _ => iff_of_false (by decide) hno⟩
      split
      · exact ⟨_, _, rfl, fun _ _ => iff_of_false (by decide) hno⟩
      · exact ⟨_, _, rfl, fun _ _ => iff_of_false (by decide) hno⟩

end Requests

/-! ### Runs -/

/-- The list of a window: no event is covered by grabs of two clients. -/
structure Separate (st : GrabState) : Prop where
  ok : st.Ok
  device : ∀ g ∈ st.passiveGrabs, g.grabtype = .xi → ∃ dev, g.device = .one dev
  separate : ∀ g ∈ st.passiveGrabs, ∀ h ∈ st.passiveGrabs, g.resource.client ≠ h.resource.client →
    ∀ t, ¬(g.covers t = true ∧ h.covers t = true)

/-- What the steps of a run must be like. -/
inductive StepOk (st : GrabState) : GrabOp → Prop
  | grab {r : GrabRequest} {memory : Bool} {a : AddAnswers} (h : RequestOk st r) : StepOk st (.grab r memory a)
  | ungrab {r : UngrabRequest} {a : DeleteAnswers} (h : ∀ g ∈ st.passiveGrabs, ¬Faulty r.tempGrab g) :
      StepOk st (.ungrab r a)
  | freeResource {resource : ResourceId} : StepOk st (.freeResource resource)

section Runs

variable {st st' : GrabState}

/-- Parts of grabs of different clients do not meet if those do not. -/
theorem Separate.less (h : Separate st) (hok : st'.Ok) (hless : Less st st') : Separate st' := by
  refine ⟨hok, ?_, ?_⟩
  · intro g hg hxi
    obtain ⟨g₀, hg₀, hpart⟩ := hless g hg
    rw [hpart.device]
    exact h.device g₀ hg₀ (hpart.grabtype ▸ hxi)
  · rintro g hg g' hg' hne t ⟨ht, ht'⟩
    obtain ⟨g₀, hg₀, hpart⟩ := hless g hg
    obtain ⟨g₀', hg₀', hpart'⟩ := hless g' hg'
    refine h.separate g₀ hg₀ g₀' hg₀' ?_ t ⟨hpart.covers t ht, hpart'.covers t ht'⟩
    rwa [← hpart.client, ← hpart'.client]

/-- **One request** keeps the grabs of different clients apart. -/
theorem grabStep_separate (h : Separate st) {op : GrabOp} (hop : StepOk st op) :
    ∃ st', grabStep (.ok st) op = .ok st' ∧ Separate st' := by
  cases hop with
  | @grab r memory a hr =>
    obtain ⟨st', rc, hrun, -⟩ := procGrab_denied h.ok hr memory a
    obtain ⟨hok, hcases⟩ := procGrab_result h.ok hrun
    refine ⟨st', ?_, ?_⟩
    · unfold grabStep
      rw [ok_bind]
      dsimp only
      rw [hrun]
      rfl
    rcases hcases with hless | ⟨hdenied, st₁, hless, hlist⟩
    · exact h.less hok hless
    · -- the new grab matches no grab of another client
      have hplain := grab_plain r st.nextId
      rw [grabDenied_eq hplain hr.modifiers] at hdenied
      have hno := Except.ok.inj hdenied
      rw [any_eq_false] at hno
      have hnew : ∀ g ∈ st₁.passiveGrabs, g.resource.client ≠ (r.grab st.nextId).resource.client →
          ∀ t, ¬((r.grab st.nextId).covers t = true ∧ g.covers t = true) := by
        rintro g hg hne t ⟨ht, ht'⟩
        obtain ⟨g₀, hg₀, hpart⟩ := hless g hg
        refine hno g₀ hg₀ ?_
        rw [matches_of_covers hplain ht (hpart.covers t ht'), Bool.true_and, decide_eq_true_eq, ← hpart.client]
        exact hne.symm
      refine ⟨hok, ?_, ?_⟩
      · intro g hg hxi
        rw [hlist] at hg
        rcases mem_cons.1 hg with rfl | hg
        · exact hr.device hxi
        · obtain ⟨g₀, hg₀, hpart⟩ := hless g hg
          rw [hpart.device]
          exact h.device g₀ hg₀ (hpart.grabtype ▸ hxi)
      · rw [hlist]
        rintro g hg g' hg' hne t ⟨ht, ht'⟩
        rcases mem_cons.1 hg with rfl | hg
        · rcases mem_cons.1 hg' with rfl | hg'
          · exact hne rfl
          · exact hnew g' hg' hne.symm t ⟨ht, ht'⟩
        · rcases mem_cons.1 hg' with rfl | hg'
          · exact hnew g hg hne t ⟨ht', ht⟩
          · obtain ⟨g₀, hg₀, hpart⟩ := hless g hg
            obtain ⟨g₀', hg₀', hpart'⟩ := hless g' hg'
            refine h.separate g₀ hg₀ g₀' hg₀' ?_ t ⟨hpart.covers t ht, hpart'.covers t ht'⟩
            rwa [← hpart.client, ← hpart'.client]
  | @ungrab r a hr =>
    obtain ⟨st', ok, hrun, -⟩ := delete_returns h.ok (tempGrab_plain r) hr a
    refine ⟨st', ?_, h.less (delete_result h.ok (tempGrab_plain r) hrun).1 (delete_less h.ok (tempGrab_plain r) hrun)⟩
    unfold grabStep
    rw [ok_bind]
    dsimp only
    rw [hrun]
    rfl
  | @freeResource resource =>
    exact ⟨_, rfl, h.less (freeResource_ok h.ok resource) fun g hg => ⟨g, (mem_filter.1 hg).1, .refl g⟩⟩

end Runs

/-- **Grabs of different clients**, over every run whose requests are as they must be: no two of
them cover an event in common, and a request is denied with `BadAccess` exactly if its grab and
one of another client would. A grab nothing is left of makes no difference to the first, but
requests that match it are denied too. -/
theorem grabs_exclusive {ops : List GrabOp}
    (hops : AllSteps grabStep (fun s op => ∀ st, s = .ok st → StepOk st op) noGrabs ops) :
    ∃ st, run grabStep noGrabs ops = .ok st ∧
      (∀ g ∈ st.passiveGrabs, ∀ h ∈ st.passiveGrabs, g.resource.client ≠ h.resource.client →
        ∀ t, ¬(g.covers t = true ∧ h.covers t = true)) ∧
      ∀ r a, RequestOk st r → (∀ g ∈ st.passiveGrabs, g.resource.client ≠ r.client →
          sameEvents (r.grab st.nextId) g ((r.grab st.nextId).grabtype = .core) = true → Left g) →
        a.access ≠ BadAccess →
        ∃ st' rc, procGrab r true a st = .ok (st', rc) ∧
          (rc = BadAccess ↔ ∃ g ∈ st.passiveGrabs, g.resource.client ≠ r.client ∧
            ∃ t, (r.grab st.nextId).covers t = true ∧ g.covers t = true) := by
  obtain ⟨st, hrun, h⟩ := hops.invariant (P := fun s => ∃ st, s = .ok st ∧ Separate st) (by
      rintro s op hC ⟨st, rfl, h⟩
      exact grabStep_separate h (hC st rfl))
    ⟨_, rfl, ⟨⟨fun g hg => (nomatch hg), nodup_nil, fun g hg => nomatch hg⟩, fun g hg => (nomatch hg),
      fun g hg => nomatch hg⟩⟩
  refine ⟨st, hrun, h.separate, fun r a hr hleft haccess => ?_⟩
  obtain ⟨st', rc, hret, hiff⟩ := procGrab_denied h.ok hr true a
  refine ⟨st', rc, hret, (hiff rfl haccess).trans ?_⟩
  refine exists_congr fun g => and_congr_right fun hg => and_congr_right fun hne => ?_
  exact matches_iff (grab_plain r _) hr.modifiers (h.device g hg) (hleft g hg hne)

/-- A core grab of one key. -/
def grabOneKey (client : ℕ) (modifiers : UInt32) : GrabRequest :=
  ⟨client, .one someDevice, .one someDevice, .core, 3, fun _ => 0, asyncParam modifiers, 2, 38, none, none⟩

/-- The first grab on an empty list. -/
theorem grabs_exclusive_one :
    ∃ st, run grabStep noGrabs [.grab (grabOneKey 1 0) true enoughToAdd] = .ok st ∧
      (∀ g ∈ st.passiveGrabs, ∀ h ∈ st.passiveGrabs, g.resource.client ≠ h.resource.client →
        ∀ t, ¬(g.covers t = true ∧ h.covers t = true)) ∧
      ∀ r a, RequestOk st r → (∀ g ∈ st.passiveGrabs, g.resource.client ≠ r.client →
          sameEvents (r.grab st.nextId) g ((r.grab st.nextId).grabtype = .core) = true → Left g) →
        a.access ≠ BadAccess →
        ∃ st' rc, procGrab r true a st = .ok (st', rc) ∧
          (rc = BadAccess ↔ ∃ g ∈ st.passiveGrabs, g.resource.client ≠ r.client ∧
            ∃ t, (r.grab st.nextId).covers t = true ∧ g.covers t = true) :=
  grabs_exclusive ⟨fun st hst => by
    cases hst
    exact .grab ⟨.inr (by decide), fun h => (nomatch h), fun g hg => nomatch hg⟩, trivial⟩

/-! ### A grab nothing is left of -/

/-- Client 1 grabs a key with any modifiers, and then ungrabs it with each set of modifiers. -/
def emptyGrab : List GrabOp :=
  .grab (grabOneKey 1 0x8000) true enoughToAdd ::
    (List.range 256).map fun modifiers =>
      .ungrab ⟨1, .one someDevice, .one someDevice, .core, 2, 38, .ofNat modifiers⟩ enoughToAdd.delete

/-- What the modifiers of the grabs are, and what a grab of the key by client 2 leads to. -/
def leftOver (st : GrabState) : List (InputLevel × ℕ × Option DetailMask) × Option Status :=
  (st.passiveGrabs.map fun g => (g.grabtype, g.modifiersDetail.exact, g.modifiersDetail.pMask),
    (procGrab (grabOneKey 2 0x8000) true enoughToAdd st).toOption.map Prod.snd)

theorem emptyGrab_leftOver :
    (run grabStep noGrabs emptyGrab).toOption.map leftOver = some ([(.core, 0x8000, some 0)], some BadAccess) := by
  decide +kernel

/-- **Nothing is left of the grab** of client 1, and yet client 2 is denied any grab of the key. -/
theorem grabs_exclusive_fails :
    ∃ st st', run grabStep noGrabs emptyGrab = .ok st ∧
      procGrab (grabOneKey 2 0x8000) true enoughToAdd st = .ok (st', BadAccess) ∧
      ∀ g ∈ st.passiveGrabs, ∀ t, g.covers t = false := by
  have hleft := emptyGrab_leftOver
  cases hrun : run grabStep noGrabs emptyGrab with
  | error e =>
    rw [hrun] at hleft
    nomatch hleft
  | ok st =>
    rw [hrun] at hleft
    obtain ⟨hlist, hproc⟩ := Prod.ext_iff.1 (Option.some.inj hleft)
    cases hresult : procGrab (grabOneKey 2 0x8000) true enoughToAdd st with
    | error e =>
      unfold leftOver at hproc
      rw [hresult] at hproc
      nomatch hproc
    | ok result =>
      unfold leftOver at hproc
      rw [hresult] at hproc
      have hrc : result.2 = BadAccess := Option.some.inj hproc
      refine ⟨st, result.1, rfl, ?_, ?_⟩
      · rw [hresult, ← hrc]
      · intro g hg t
        have hmem : (g.grabtype, g.modifiersDetail.exact, g.modifiersDetail.pMask) ∈ (leftOver st).1 :=
          mem_map_of_mem hg
        rw [hlist, mem_singleton, Prod.ext_iff, Prod.ext_iff] at hmem
        obtain ⟨hlevel, hexact, hmask⟩ := hmem
        dsimp only at hlevel hexact hmask
        have hnone : g.modifiersDetail.has (anyModifier g.grabtype) t.modifiers = false := by
          unfold DetailRec.has
          rw [hlevel, if_pos (show g.modifiersDetail.exact = anyModifier .core from hexact), hmask]
          simp
        unfold Grab.covers Grab.hasDetails
        rw [hnone]
        simp

end Xenia.Dix
