import Xenia.Dix.GrabsDelete

/-!
# Runs of requests to grab and ungrab

`reachable_ok` is what holds of the list of a window after any requests. With it,
`delete_correct_iff` says when taking a grab out of the list is correct.
-/

namespace Xenia.Dix

open Xenia.Lib List

/-! ### Adding a grab -/

/-- The grab a request creates. -/
def GrabRequest.grab (r : GrabRequest) (id : ℕ) : Grab where
  resource := ⟨r.client, id⟩
  device := r.device
  ownerEvents := .ofNat 1 r.param.ownerEvents.toNat
  keyboardMode := .ofNat 1 r.param.thisDeviceMode.toNat
  pointerMode := .ofNat 1 r.param.otherDevicesMode.toNat
  grabtype := r.grabtype
  type := r.type
  modifiersDetail := ⟨r.param.modifiers.toNat, none⟩
  modifierDevice := r.modDevice
  detail := ⟨r.detail.toNat, none⟩
  confineTo := r.confineTo
  cursor := r.cursor
  eventMask := if r.grabtype = .core ∨ r.grabtype = .xi then r.mask else 0
  deviceMask := 0
  xi2mask := if r.grabtype = .xi2 then r.xi2mask else fun _ => 0

section Add

variable {r : GrabRequest} {st st' : GrabState} {p g m : Grab}

theorem createGrab_eq (r : GrabRequest) (id : ℕ) (memory : Bool) :
    createGrab ⟨r.client, id⟩ r.device r.modDevice r.grabtype ⟨r.mask, some r.xi2mask⟩ r.param r.type r.detail
      r.confineTo r.cursor memory = .ok (if memory then some (r.grab id) else none) := by
  unfold createGrab GrabRequest.grab
  cases memory with
  | false => rfl
  | true =>
    rw [if_neg (by simp), if_pos rfl]
    by_cases h : r.grabtype = .xi2
    · have hzero : xi2maskMerge (fun _ => 0) r.xi2mask = r.xi2mask := by
        funext dev
        exact BitVec.zero_or
      simp only [h, if_true]
      rw [hzero]
    · simp only [h, if_false]

theorem grab_plain (r : GrabRequest) (id : ℕ) : (r.grab id).Plain := ⟨rfl, rfl, r.detail.toNat_lt⟩

theorem grab_ok (r : GrabRequest) (id : ℕ) : (r.grab id).Ok := by
  refine ⟨fun h => absurd rfl h, fun h => absurd rfl h, r.detail.toNat_lt, fun h => if_neg h, fun h => ?_⟩
  unfold GrabRequest.grab at h ⊢
  dsimp only at h ⊢
  rw [h]
  rfl

theorem tempGrab_plain (r : UngrabRequest) : r.tempGrab.Plain := ⟨rfl, rfl, r.detail.toNat_lt⟩

theorem andM_true {x y : Outcome Bool} (h : (x <&&> y) = .ok true) : x = .ok true ∧ y = .ok true := by
  cases x with
  | error e => nomatch h
  | ok b =>
    cases b with
    | false => nomatch h
    | true => exact ⟨rfl, h⟩

/-- A detail that supersedes one without a mask, and is superseded by it, has none either. -/
theorem mask_of_identical {exception : ℕ} {s t : DetailRec} (hs : s.pMask = none)
    (ht : t.pMask ≠ none → t.exact = exception) (h₁ : detailSupersedesSecond s t exception = .ok true)
    (h₂ : detailSupersedesSecond t s exception = .ok true) : t.pMask = none := by
  by_contra hmask
  have hwild := ht hmask
  rw [detailSupersedesSecond_eq (fun _ h => absurd hs h)] at h₁
  have hsup : supersedes exception s t = true := Except.ok.inj h₁
  have hs' : s.exact = exception := by
    unfold supersedes at hsup
    by_contra hno
    rw [if_neg hno] at hsup
    exact hno ((decide_eq_true_iff.1 hsup).trans hwild)
  rw [detailSupersedesSecond_eq (fun _ _ => .inl hs')] at h₂
  have hsup' : supersedes exception t s = true := Except.ok.inj h₂
  unfold supersedes at hsup'
  cases hm : t.pMask with
  | none => exact hmask hm
  | some mask =>
    rw [hm] at hsup'
    simp [hs'] at hsup'

/-- A grab with the same devices, type, detail and modifiers. -/
structure Twin (p g : Grab) : Prop where
  grabtype : g.grabtype = p.grabtype
  device : g.device = p.device
  modifierDevice : g.modifierDevice = p.modifierDevice
  type : g.type = p.type
  modifiers : g.modifiersDetail.exact = p.modifiersDetail.exact
  detail : g.detail.exact = p.detail.exact
  plain : g.Plain

theorem exact_of_identical {exception : ℕ} {s t : DetailRec} (hs : s.pMask = none) (ht : t.pMask = none)
    (h₁ : detailSupersedesSecond s t exception = .ok true) (h₂ : detailSupersedesSecond t s exception = .ok true) :
    t.exact = s.exact := by
  rw [detailSupersedesSecond_eq (fun _ h => absurd hs h)] at h₁
  rw [detailSupersedesSecond_eq (fun _ h => absurd ht h)] at h₂
  have hsup : supersedes exception s t = true := Except.ok.inj h₁
  have hsup' : supersedes exception t s = true := Except.ok.inj h₂
  unfold supersedes at hsup hsup'
  by_cases hw : s.exact = exception
  · by_cases hw' : t.exact = exception
    · rw [hw, hw']
    · rw [if_neg hw'] at hsup'
      exact decide_eq_true_iff.1 hsup'
  · rw [if_neg hw] at hsup
    exact (decide_eq_true_iff.1 hsup).symm

/-- A grab that is identical to one without masks has none. -/
theorem identical_twin (hp : p.Plain) (hg : g.Ok) (h : grabsAreIdentical p g = .ok true) : Twin p g := by
  unfold grabsAreIdentical at h
  split at h
  · nomatch h
  rename_i hlevel
  split at h
  · nomatch h
  rename_i hdev
  rw [not_not] at hlevel
  push Not at hdev
  obtain ⟨h₁, h⟩ := andM_true h
  obtain ⟨h₂, h⟩ := andM_true h
  obtain ⟨h₃, h₄⟩ := andM_true h
  have hd := mask_of_identical hp.detail hg.detail h₁ h₂
  have hm := mask_of_identical hp.modifiers (by rw [hlevel]; exact hg.modifiers) h₃ h₄
  exact ⟨hlevel.symm, hdev.1.symm, hdev.2.1.symm, hdev.2.2.symm, exact_of_identical hp.modifiers hm h₃ h₄,
    exact_of_identical hp.detail hd h₁ h₂, ⟨hm, hd, hg.detail_lt⟩⟩

theorem findIdentical_twin (hp : p.Plain) (l : List Grab) :
    (∀ g ∈ l, g.Ok) → ∀ {g : Grab}, findIdentical p l = .ok (some g) → g ∈ l ∧ Twin p g := by
  induction l with
  | nil => exact fun _ _ h => nomatch h
  | cons g₀ l ih =>
    intro hl g h
    unfold findIdentical at h
    cases hid : grabsAreIdentical p g₀ with
    | error e =>
      rw [hid] at h
      nomatch h
    | ok b =>
      rw [hid] at h
      cases b with
      | true =>
        cases h
        exact ⟨mem_cons_self, identical_twin hp (hl _ mem_cons_self) hid⟩
      | false =>
        obtain ⟨hmem, htwin⟩ := ih (fun g hg => hl g (mem_cons_of_mem _ hg)) h
        exact ⟨mem_cons_of_mem _ hmem, htwin⟩

variable {a : DeleteAnswers} {resource : ResourceId}

/-- An ID that was given away and is not on the list does not come back. -/
theorem delete_notMem (hst : st.Ok) (hm : m.Plain) {ok : Bool}
    (h : deletePassiveGrabFromList m a st = .ok (st', ok)) (hlt : resource.id < st.nextId)
    (hnot : resource ∉ st.passiveGrabs.map Grab.resource) : resource ∉ st'.passiveGrabs.map Grab.resource := by
  obtain ⟨-, -, htrue, hfalse⟩ := delete_result hst hm h
  cases ok with
  | false => rwa [hfalse rfl]
  | true =>
    rw [htrue rfl, map_append, mem_append]
    rintro (hmem | hmem)
    · obtain ⟨g, hg, rfl⟩ := mem_map.1 hmem
      have := addsOf_resource _ _ (mem_reverse.1 hg)
      omega
    · exact hnot ((survivors_sublist m _).subset hmem)

/-- A grab of the same client that covers no more. -/
structure Part (g g₀ : Grab) : Prop where
  client : g.resource.client = g₀.resource.client
  grabtype : g.grabtype = g₀.grabtype
  device : g.device = g₀.device
  modifiers : g.modifiersDetail.exact = g₀.modifiersDetail.exact
  covers : ∀ t, g.covers t = true → g₀.covers t = true

theorem Part.refl (g : Grab) : Part g g := ⟨rfl, rfl, rfl, rfl, fun _ h => h⟩

/-- The pieces of a grab are parts of it. -/
theorem pieces_part (hm : m.Plain) (id : ℕ) : ∀ g' ∈ pieces m g id, Part g' g := by
  intro g' hg'
  by_cases hkeep : fate m g = .keep
  · have : g' = g := by
      unfold pieces survivor at hg'
      simpa [hkeep] using hg'
    rw [this]
    exact .refl g
  · have hclient := pieces_client m g id g' hg'
    have hfated := fate_fated hm hkeep
    have hlevel := grabMatches_level (fate_matches hkeep).2
    unfold pieces survivor at hg'
    cases hf : fate m g with
    | keep => exact absurd hf hkeep
    | delete => simp [hf] at hg'
    | update field =>
      have : g' = g.without m field := by simpa [hf] using hg'
      rw [hf] at hfated
      subst this
      cases hfated with
      | detail hcut _ =>
        refine ⟨hclient, rfl, rfl, rfl, fun t ht => ?_⟩
        rw [without_detail_covers hcut.wild, Bool.and_eq_true] at ht
        exact ht.1
      | modifiers hcut _ =>
        refine ⟨hclient, rfl, rfl, rfl, fun t ht => ?_⟩
        rw [without_modifiers_covers (by rw [hlevel]; exact hcut.wild), Bool.and_eq_true] at ht
        exact ht.1
    | split =>
      have : g' = splitOff m g id ∨ g' = g.without m .detail := by simpa [hf] using hg'
      rw [hf] at hfated
      cases hfated with
      | split hmod hdetail =>
        rcases this with rfl | rfl
        · refine ⟨hclient, rfl, rfl, hmod.wild.symm, fun t ht => ?_⟩
          rw [splitOff_covers id hlevel hmod hdetail, Bool.and_eq_true] at ht
          exact ht.1
        · refine ⟨hclient, rfl, rfl, rfl, fun t ht => ?_⟩
          rw [without_detail_covers hdetail.wild, Bool.and_eq_true] at ht
          exact ht.1

/-- The grabs on the second list are parts of those on the first. -/
def Less (st st' : GrabState) : Prop := ∀ g ∈ st'.passiveGrabs, ∃ g₀ ∈ st.passiveGrabs, Part g g₀

theorem delete_less (hst : st.Ok) (hm : m.Plain) {ok : Bool} (h : deletePassiveGrabFromList m a st = .ok (st', ok)) : Less st st' := by
  have hadds : ∀ (l : List Grab) (id : ℕ), ∀ g ∈ addsOf m id l, ∃ g₀ ∈ l, ∃ id', g ∈ pieces m g₀ id' := by
    intro l
    induction l with
    | nil => exact fun id g hg => absurd hg (by simp [addsOf])
    | cons g₀ l ih =>
      intro id g hg
      unfold addsOf at hg
      split at hg
      · rename_i hf
        rcases mem_cons.1 hg with rfl | hg
        · refine ⟨g₀, mem_cons_self, id, ?_⟩
          unfold pieces
          rw [if_pos hf]
          simp
        · obtain ⟨g₁, hg₁, id', hp⟩ := ih _ g hg
          exact ⟨g₁, mem_cons_of_mem _ hg₁, id', hp⟩
      · obtain ⟨g₁, hg₁, id', hp⟩ := ih _ g hg
        exact ⟨g₁, mem_cons_of_mem _ hg₁, id', hp⟩
  obtain ⟨-, -, htrue, hfalse⟩ := delete_result hst hm h
  intro g hg
  cases ok with
  | false =>
    rw [hfalse rfl] at hg
    exact ⟨g, hg, .refl g⟩
  | true =>
    rw [htrue rfl] at hg
    rcases mem_append.1 hg with hg | hg
    · obtain ⟨g₀, hg₀, id, hp⟩ := hadds _ _ g (mem_reverse.1 hg)
      exact ⟨g₀, hg₀, pieces_part hm id g hp⟩
    · obtain ⟨g₀, hg₀, hs⟩ := mem_filterMap.1 hg
      refine ⟨g₀, hg₀, pieces_part hm 0 g ?_⟩
      unfold pieces
      rw [hs]
      simp

/-- **The identical grab**, where the call returns. -/
theorem deleteIdentical_result (hst : st.Ok) (hp : p.Plain) (h : deleteIdentical p a st = .ok st') (hlt : resource.id < st.nextId)
    (hnot : resource ∉ st.passiveGrabs.map Grab.resource) :
    st'.Ok ∧ st.nextId ≤ st'.nextId ∧ resource ∉ st'.passiveGrabs.map Grab.resource ∧ Less st st' := by
  unfold deleteIdentical at h
  cases hid : findIdentical p st.passiveGrabs with
  | error e =>
    rw [hid] at h
    nomatch h
  | ok found =>
    rw [hid, ok_bind] at h
    cases found with
    | none =>
      cases h
      exact ⟨hst, le_refl _, hnot, fun g hg => ⟨g, hg, .refl g⟩⟩
    | some g =>
      obtain ⟨-, htwin⟩ := findIdentical_twin hp _ hst.grabs hid
      dsimp only at h
      cases hdel : deletePassiveGrabFromList g a st with
      | error e =>
        rw [hdel] at h
        nomatch h
      | ok result =>
        rw [hdel] at h
        cases h
        obtain ⟨hok, hle, -⟩ := delete_result hst htwin.plain hdel
        exact ⟨hok, hle, delete_notMem hst htwin.plain hdel hlt hnot, delete_less hst htwin.plain hdel⟩

/-- **A request to grab**, where it returns: if it succeeds, its grab is on the list. -/
theorem procGrab_result (hst : st.Ok) {memory : Bool} {a : AddAnswers} {rc : Status}
    (h : procGrab r memory a st = .ok (st', rc)) :
    st'.Ok ∧ (Less st st' ∨ grabDenied (r.grab st.nextId) st.passiveGrabs = .ok false ∧
      ∃ st₁, Less st st₁ ∧ st'.passiveGrabs = r.grab st.nextId :: st₁.passiveGrabs) := by
  have hrefl : Less st st := fun g hg => ⟨g, hg, .refl g⟩
  unfold procGrab at h
  rw [createGrab_eq, ok_bind] at h
  cases memory with
  | false =>
    cases h
    exact ⟨hst, .inl hrefl⟩
  | true =>
    rw [if_pos rfl] at h
    dsimp only at h
    obtain ⟨st₀, hst₀⟩ : ∃ st₀ : GrabState, st₀ = { st with nextId := st.nextId + 1 } := ⟨_, rfl⟩
    rw [← hst₀] at h
    have hok₀ : st₀.Ok := by
      rw [hst₀]
      exact ⟨hst.grabs, hst.nodup, fun g hg => Nat.lt_succ_of_lt (hst.fresh g hg)⟩
    have hlist : st₀.passiveGrabs = st.passiveGrabs := by rw [hst₀]
    have hless : ∀ {s}, Less st₀ s → Less st s := by
      intro s h
      unfold Less at h
      rwa [hlist] at h
    unfold addPassiveGrabToList at h
    cases hdenied : grabDenied (r.grab st.nextId) st₀.passiveGrabs with
    | error e =>
      rw [hdenied] at h
      nomatch h
    | ok denied =>
      rw [hdenied, ok_bind] at h
      cases denied with
      | true =>
        cases h
        exact ⟨hok₀, .inl (hless fun g hg => ⟨g, hg, .refl g⟩)⟩
      | false =>
        rw [if_neg (by simp)] at h
        split at h
        · cases h
          exact ⟨hok₀, .inl (hless fun g hg => ⟨g, hg, .refl g⟩)⟩
        have hfresh : (r.grab st.nextId).resource.id < st₀.nextId := by
          rw [hst₀]
          exact Nat.lt_succ_self _
        have hnew : (r.grab st.nextId).resource ∉ st₀.passiveGrabs.map Grab.resource := by
          rw [hlist]
          intro hmem
          obtain ⟨g, hg, heq⟩ := mem_map.1 hmem
          have := hst.fresh g hg
          rw [heq] at this
          exact lt_irrefl _ this
        cases hdel : deleteIdentical (r.grab st.nextId) a.delete st₀ with
        | error e =>
          rw [hdel] at h
          nomatch h
        | ok st₁ =>
          rw [hdel] at h
          obtain ⟨hok₁, hle, hnot, hless₁⟩ := deleteIdentical_result hok₀ (grab_plain r _) hdel hfresh hnew
          split at h
          · cases h
            exact ⟨hok₁, .inl (hless hless₁)⟩
          split at h
          · cases h
            exact ⟨hok₁, .inl (hless hless₁)⟩
          cases h
          refine ⟨⟨?_, ?_, ?_⟩, .inr ⟨by rw [← hlist]; exact hdenied, st₁, hless hless₁, rfl⟩⟩
          · intro g hg
            rcases mem_cons.1 hg with rfl | hg
            · exact grab_ok r _
            · exact hok₁.grabs g hg
          · rw [map_cons, nodup_cons]
            exact ⟨hnot, hok₁.nodup⟩
          · intro g hg
            rcases mem_cons.1 hg with rfl | hg
            · exact lt_of_lt_of_le hfresh hle
            · exact hok₁.fresh g hg

end Add

/-! ### Runs -/

theorem freeResource_ok {st : GrabState} (hst : st.Ok) (resource : ResourceId) :
    ({ st with passiveGrabs := st.passiveGrabs.filter fun grab => grab.resource ≠ resource } : GrabState).Ok :=
  ⟨fun g hg => hst.grabs g (mem_filter.1 hg).1, hst.nodup.sublist (filter_sublist.map _),
    fun g hg => hst.fresh g (mem_filter.1 hg).1⟩

/-- **The list of a window** after any requests is in order. -/
theorem reachable_ok {ops : List GrabOp} {st : GrabState} (hrun : run grabStep noGrabs ops = .ok st) : st.Ok := by
  have hinv : ∀ st, run grabStep noGrabs ops = .ok st → st.Ok := by
    refine run_invariant (P := fun s : Outcome GrabState => ∀ st, s = .ok st → st.Ok) ?_ ?_ ops
    · intro s op hs st' h
      cases s with
      | error e => nomatch h
      | ok st =>
        have hst := hs st rfl
        unfold grabStep at h
        rw [ok_bind] at h
        cases op with
        | grab r memory a =>
          dsimp only at h
          cases hgrab : procGrab r memory a st with
          | error e =>
            rw [hgrab] at h
            nomatch h
          | ok result =>
            rw [hgrab] at h
            cases h
            exact (procGrab_result hst hgrab).1
        | ungrab r a =>
          dsimp only at h
          cases hdel : deletePassiveGrabFromList r.tempGrab a st with
          | error e =>
            rw [hdel] at h
            nomatch h
          | ok result =>
            rw [hdel] at h
            cases h
            exact (delete_result hst (tempGrab_plain r) hdel).1
        | freeResource resource =>
          cases h
          exact freeResource_ok hst resource
    · intro st h
      cases h
      exact ⟨fun g hg => (nomatch hg), nodup_nil, fun g hg => nomatch hg⟩
  exact hinv st hrun

theorem enough_answers : (⟨true, fun _ => ⟨true, true, true, true, true⟩⟩ : DeleteAnswers).Enough :=
  ⟨rfl, fun _ => rfl⟩

/-- **Taking a grab out of a list** is correct, whatever memory there is, exactly if no grab of the
client makes the call follow a wrong pointer, and none is for more devices than the minuend where
they overlap. -/
theorem delete_correct_iff {ops : List GrabOp} {st : GrabState} (hrun : run grabStep noGrabs ops = .ok st) {m : Grab}
    (hm : m.Plain) :
    (∀ a, DeleteCorrect m a st) ↔ ∀ g ∈ st.passiveGrabs, ¬Faulty m g ∧ ¬Wider m g := by
  have hst := reachable_ok hrun
  constructor
  · intro hcorrect g hg
    constructor
    · intro hfault
      obtain ⟨st', ok, hret, -⟩ := (hcorrect ⟨true, fun _ => ⟨true, true, true, true, true⟩⟩).correct
      have hne : st.passiveGrabs ≠ [] := ne_nil_of_mem hg
      unfold deletePassiveGrabFromList at hret
      rw [if_neg hne,
        stageGrabs_fault hm enough_answers st.passiveGrabs _ rfl hst.grabs ⟨g, hg, hfault⟩] at hret
      nomatch hret
    · intro hwider
      exact wider_incorrect hst hm hg hwider enough_answers (hcorrect _)
  · intro h a
    obtain ⟨st', ok, hret, henough⟩ := delete_returns hst hm (fun g hg => (h g hg).1) a
    obtain ⟨-, -, htrue, hfalse⟩ := delete_result hst hm hret
    refine ⟨st', ok, hret, fun hok => ?_, hfalse, henough⟩
    rw [htrue hok]
    refine ⟨fun t => ?_, commit_others _ _⟩
    refine (covering_pieces m m.resource.client t st.passiveGrabs st.nextId).trans ?_
    -- each grab covers what it did, without the minuend
    have hall : ∀ l : List Grab, (∀ g ∈ l, ¬Wider m g) →
        (l.flatMap fun g => covering m.resource.client t (pieces m g 0)) =
          if m.covers t then [] else covering m.resource.client t l := by
      intro l
      induction l with
      | nil => exact fun _ => by split <;> rfl
      | cons g l ih =>
        intro hl
        rw [flatMap_cons, ih fun g hg => hl g (mem_cons_of_mem _ hg),
          pieces_correct hm (hl g mem_cons_self) 0 t]
        split
        · rfl
        · exact (covering_append m.resource.client t [g] l).symm
    rw [hall _ fun g hg => (h g hg).2]

def someDevice : RealDevice := .master 2

def asyncParam (modifiers : UInt32) : GrabParameters := ⟨0, 1, 1, modifiers⟩

/-- A request of client 1 to grab keys, of XI2. -/
def grabKeys (device : Device) (detail : UInt8) (modifiers : UInt32) : GrabRequest :=
  ⟨1, device, device, .xi2, 0, fun _ => 0, asyncParam modifiers, 2, detail, none, none⟩

/-- Its request to ungrab one key without modifiers. -/
def ungrabKey (device : Device) : UngrabRequest := ⟨1, device, device, .xi2, 2, 38, 0⟩

def enoughToAdd : AddAnswers := ⟨Success, ⟨true, fun _ => ⟨true, true, true, true, true⟩⟩, true, true⟩

/-- A core grab of one key is taken out. -/
theorem delete_correct_one :
    (∀ a, DeleteCorrect (UngrabRequest.tempGrab ⟨1, .one someDevice, .one someDevice, .core, 2, 38, 0⟩) a
      ⟨[GrabRequest.grab ⟨1, .one someDevice, .one someDevice, .core, 3, fun _ => 0, asyncParam 0, 2, 38, none, none⟩ 1],
        2⟩) ↔
      ∀ g ∈ [GrabRequest.grab
          ⟨1, .one someDevice, .one someDevice, .core, 3, fun _ => 0, asyncParam 0, 2, 38, none, none⟩ 1],
        ¬Faulty (UngrabRequest.tempGrab ⟨1, .one someDevice, .one someDevice, .core, 2, 38, 0⟩) g ∧
          ¬Wider (UngrabRequest.tempGrab ⟨1, .one someDevice, .one someDevice, .core, 2, 38, 0⟩) g :=
  @delete_correct_iff [.grab ⟨1, .one someDevice, .one someDevice, .core, 3, fun _ => 0, asyncParam 0, 2, 38, none,
    none⟩ true enoughToAdd] _ rfl _ (tempGrab_plain _)

/-- An event of a key on a slave device. -/
def keyEvent (dev : ℕ) : GrabEvent := ⟨.slave dev, .all, .xi2, 2, 38, 0, by decide, by decide⟩

/-- **A grab of all keys with all modifiers** of XI2 cannot be split. And a grab for all devices
is taken away whole when the client ungrabs one device. -/
theorem delete_incorrect :
    (∃ st, run grabStep noGrabs [.grab (grabKeys (.one someDevice) 0 0x80000000) true enoughToAdd] = .ok st ∧
      deletePassiveGrabFromList (ungrabKey (.one someDevice)).tempGrab enoughToAdd.delete st = .error .fault) ∧
    ∃ st st', run grabStep noGrabs [.grab (grabKeys .all 38 0) true enoughToAdd] = .ok st ∧
      deletePassiveGrabFromList (ungrabKey (.one (.slave 5))).tempGrab enoughToAdd.delete st = .ok (st', true) ∧
      (ungrabKey (.one (.slave 5))).tempGrab.covers (keyEvent 6) = false ∧
      (covering 1 (keyEvent 6) st.passiveGrabs).length = 1 ∧ covering 1 (keyEvent 6) st'.passiveGrabs = [] :=
  ⟨⟨_, rfl, rfl⟩, _, _, rfl, rfl, rfl, rfl, rfl⟩

end Xenia.Dix
