import Xenia.Lib.Keyed
import Xenia.Lib.Run
import Xenia.Os.Auth

/-!
# Runs of cookie admission

`cookie_admission`: in every run whose requests meet `Meets` a check returns the id of a stored cookie exactly for the live ones. The
list keeps cookies and ids distinct, and local access is switched by what was loaded. `cookie_refused_silently`: a check of
a wrong cookie leaves no reason, because `MitCheckCookie` assigns to its own copy of the pointer.
-/

namespace Xenia.Os.Auth

open Xenia.Lib List

/-! ## Comparing -/

theorem below_eq (p q : UInt8) : below p q = if p.toNat < q.toNat then -1 else 0 := by
  have hp := p.toNat_lt
  have hq := q.toNat_lt
  have hwide : ∀ b : UInt8, (b.toBitVec.setWidth 32).toInt = b.toNat := fun b => by
    have hb := b.toNat_lt
    rw [BitVec.toInt_eq_toNat_of_lt]
    · simp [BitVec.toNat_setWidth]
    · simp [BitVec.toNat_setWidth]
      omega
  apply BitVec.eq_of_toInt_eq
  unfold below
  rw [BitVec.toInt_sshiftRight, BitVec.toInt_sub, hwide, hwide, Int.bmod_eq_of_le (by omega) (by omega),
    Int.shiftRight_eq_div_pow]
  split
  · rw [show (-1 : BitVec 32).toInt = -1 from by decide]
    omega
  · rw [show (0 : BitVec 32).toInt = 0 from by decide]
    omega

/-- What one byte does to the two accumulators. -/
theorem memcmpLoop_cons (res done : BitVec 32) (b1 b2 : UInt8) (p1 p2 : List UInt8) :
    memcmpLoop res done (b1 :: p1) (b2 :: p2) =
      if b1 = b2 then memcmpLoop res done p1 p2
      else memcmpLoop (res ||| ((if b1.toNat < b2.toNat then -1 else 1) &&& ~~~done)) (-1) p1 p2 := by
  rw [memcmpLoop, below_eq, below_eq]
  have hall : ∀ done : BitVec 32, done ||| -1 = -1 := fun done => BitVec.or_allOnes
  by_cases heq : b1 = b2
  · subst heq
    simp
  · have hne : b1.toNat ≠ b2.toNat := fun h => heq (UInt8.toNat_inj.1 h)
    rw [if_neg heq]
    by_cases hless : b1.toNat < b2.toNat
    · rw [if_pos hless, if_neg (by omega), if_pos hless]
      have hcmp : (-1 : BitVec 32) - 0 = -1 := by decide
      have hdone : (-1 : BitVec 32) ||| 0 = -1 := by decide
      rw [hcmp, hdone, hall]
    · rw [if_neg hless, if_pos (by omega), if_neg hless]
      have hcmp : (0 : BitVec 32) - -1 = 1 := by decide
      have hdone : (0 : BitVec 32) ||| -1 = -1 := by decide
      rw [hcmp, hdone, hall]

/-- Once a difference is found the result stays. -/
theorem memcmpLoop_done (res : BitVec 32) (p1 p2 : List UInt8) : memcmpLoop res (-1) p1 p2 = res := by
  induction p1 generalizing p2 with
  | nil => cases p2 <;> rfl
  | cons b1 p1 ih =>
    cases p2 with
    | nil => rfl
    | cons b2 p2 =>
      have hnot : ~~~(-1 : BitVec 32) = 0#32 := by decide
      rw [memcmpLoop_cons, hnot, BitVec.and_zero, BitVec.or_zero, ih, ite_self]

theorem memcmpLoop_eq_zero {p1 p2 : List UInt8} (hlength : p1.length = p2.length) : memcmpLoop 0 0 p1 p2 = 0 ↔ p1 = p2 := by
  induction p1 generalizing p2 with
  | nil =>
    obtain rfl := length_eq_zero_iff.1 hlength.symm
    exact iff_of_true rfl rfl
  | cons b1 p1 ih =>
    cases p2 with
    | nil => simp at hlength
    | cons b2 p2 =>
      rw [memcmpLoop_cons, cons.injEq]
      by_cases heq : b1 = b2
      · rw [if_pos heq, and_iff_right heq]
        exact ih (by simpa using hlength)
      · rw [if_neg heq, memcmpLoop_done]
        refine iff_of_false ?_ fun h => heq h.1
        split <;> decide

variable {s : AuthState} {data d : List UInt8} {supply : Supply} {range : XidRange} {stat : Option ℤ}
  {file : Option (List FileEntry)} {name : List UInt8}

/-! ## The list -/

def AuthState.datas (s : AuthState) : List (List UInt8) := s.mit_auth.map (·.data)

/-- Cookies and ids are distinct, and no cookie has an id that the server has yet to give out. -/
structure Sound (s : AuthState) : Prop where
  datas : s.datas.Nodup
  ids : (s.mit_auth.map (·.id)).Nodup
  valid : ∀ auth ∈ s.mit_auth, 0 < auth.id ∧ auth.id < 2 ^ 29
  fake : s.fakeID ≤ s.endFakeID ∧ 0 < s.endFakeID ∧ s.endFakeID ≤ 2 ^ 29
  away : ∀ auth ∈ s.mit_auth, ¬ (s.fakeID ≤ auth.id ∧ auth.id < s.endFakeID)

/-- The next id needs a new range. -/
def UsedUp (s : AuthState) : Prop := (if s.fakeID = 0 then 1 else s.fakeID) = s.endFakeID

/-- A range that is needed has no id of a live cookie in it. -/
def Clear (s : AuthState) (range : XidRange) : Prop :=
  UsedUp s → ∀ auth ∈ s.mit_auth, ¬ (range.min ≤ auth.id ∧ auth.id ≤ range.max)

/-- The flags of the lazy load are the same. -/
structure SameFlags (s s' : AuthState) : Prop where
  file : s'.authorization_file = s.authorization_file
  should : s'.ShouldLoadAuth = s.ShouldLoadAuth
  lastmod : s'.lastmod = s.lastmod
  loaded : s'.loaded = s.loaded

theorem SameFlags.refl (s : AuthState) : SameFlags s s := ⟨rfl, rfl, rfl, rfl⟩

theorem SameFlags.trans {s s' s'' : AuthState} (h : SameFlags s s') (h' : SameFlags s' s'') : SameFlags s s'' :=
  ⟨h'.file.trans h.file, h'.should.trans h.should, h'.lastmod.trans h.lastmod, h'.loaded.trans h.loaded⟩

/-- Only the list and the ids matter. -/
theorem Sound.congr {s' : AuthState} (hs : Sound s) (hauth : s'.mit_auth = s.mit_auth) (hfake : s'.fakeID = s.fakeID)
    (hend : s'.endFakeID = s.endFakeID) : Sound s' := by
  refine ⟨?_, ?_, ?_, ?_, ?_⟩
  · unfold AuthState.datas
    rw [hauth]
    exact hs.datas
  · rw [hauth]
    exact hs.ids
  · rw [hauth]
    exact hs.valid
  · rw [hfake, hend]
    exact hs.fake
  · rw [hauth, hfake, hend]
    exact hs.away

/-- An id that is given out is new. -/
theorem dixAllocServerXID_spec (hs : Sound s) (hclear : Clear s range) :
    let r := dixAllocServerXID s range
    Sound r.1 ∧ r.1.mit_auth = s.mit_auth ∧ SameFlags s r.1 ∧ (0 < r.2 ∧ r.2 < 2 ^ 29) ∧ (∀ auth ∈ s.mit_auth, auth.id ≠ r.2) ∧
      ¬ (r.1.fakeID ≤ r.2 ∧ r.2 < r.1.endFakeID) := by
  obtain ⟨hle, hpos, hsmall⟩ := hs.fake
  -- 0 is skipped, which keeps the state sound
  have hfirst : ∀ t : AuthState, t = (if s.fakeID = 0 then { s with fakeID := 1 } else s) →
      t.mit_auth = s.mit_auth ∧ t.endFakeID = s.endFakeID ∧ SameFlags s t ∧ s.fakeID ≤ t.fakeID ∧ 0 < t.fakeID ∧
        t.fakeID ≤ t.endFakeID ∧ t.fakeID = if s.fakeID = 0 then 1 else s.fakeID := by
    rintro t rfl
    split
    next hzero => exact ⟨rfl, rfl, ⟨rfl, rfl, rfl, rfl⟩, by simp [hzero], by simp, hpos, rfl⟩
    next hne => exact ⟨rfl, rfl, .refl s, le_rfl, by omega, hle, rfl⟩
  unfold dixAllocServerXID
  generalize (if s.fakeID = 0 then { s with fakeID := 1 } else s) = t at *
  obtain ⟨hauth, hend, hflags, hafter, htpos, htle, hfake⟩ := hfirst t rfl
  dsimp only
  split
  next hmore =>
    refine ⟨⟨?_, ?_, ?_, ?_, ?_⟩, hauth, ⟨hflags.file, hflags.should, hflags.lastmod, hflags.loaded⟩, ?_, fun auth hin => ?_, ?_⟩
    · unfold AuthState.datas
      exact hauth ▸ hs.datas
    · exact hauth ▸ hs.ids
    · exact hauth ▸ hs.valid
    · dsimp only
      omega
    · intro auth hin
      have := hs.away auth (hauth ▸ hin)
      dsimp only
      omega
    · dsimp only
      omega
    · have := hs.away auth hin
      omega
    · dsimp only
      omega
  next hnone =>
    have hmin := range.pos
    have hmax := range.le
    have hlast := range.small
    have haway := hclear (hfake.symm.trans ((not_not.1 hnone).trans hend))
    refine ⟨⟨?_, ?_, ?_, ?_, ?_⟩, hauth, ⟨hflags.file, hflags.should, hflags.lastmod, hflags.loaded⟩, ?_, fun auth hin => ?_, ?_⟩
    · unfold AuthState.datas
      exact hauth ▸ hs.datas
    · exact hauth ▸ hs.ids
    · exact hauth ▸ hs.valid
    · dsimp only
      omega
    · intro auth hin
      have := haway auth (hauth ▸ hin)
      dsimp only
      omega
    · dsimp only
      omega
    · have := haway auth hin
      omega
    · dsimp only
      omega

/-- The ids of a cookie that needs one come from a clear range. -/
def Fresh (s : AuthState) (data : List UInt8) (supply : Supply) : Prop :=
  data ∉ s.datas → supply.alloc = true → Clear s supply.range

/-- A cookie is added once: it is there afterwards if there was memory or it was there before, and then its id is returned. -/
theorem MitAddCookie_spec (hs : Sound s) (hfresh : Fresh s data supply) :
    let r := MitAddCookie s data supply
    Sound r.1 ∧ (∀ d, d ∈ r.1.datas ↔ d ∈ s.datas ∨ data = d ∧ supply.alloc = true) ∧ SameFlags s r.1 ∧
      (r.2 ≠ 0 ↔ supply.alloc = true ∨ data ∈ s.datas) ∧ (r.2 ≠ 0 → { data := data, id := r.2 } ∈ r.1.mit_auth) := by
  unfold MitAddCookie
  by_cases hin : data ∈ s.datas
  · obtain ⟨auth, hauth, hdata, hfind⟩ := find?_key hin
    have hvalid := hs.valid auth hauth
    rw [hfind]
    refine ⟨hs, fun d => (or_iff_left_of_imp ?_).symm, .refl s, ?_, fun _ => ?_⟩
    · rintro ⟨rfl, -⟩
      exact hin
    · exact iff_of_true (by dsimp only; omega) (.inr hin)
    · rw [← hdata]
      exact hauth
  · rw [find?_key_eq_none.2 hin]
    dsimp only
    cases halloc : supply.alloc with
    | false => exact ⟨hs, by simp, .refl s, by simp [hin], by simp⟩
    | true =>
      obtain ⟨hsound, hauth, hflags, hvalid, hnew, haway⟩ := dixAllocServerXID_spec hs (hfresh hin halloc)
      rw [if_neg (by decide)]
      refine ⟨⟨?_, ?_, ?_, hsound.fake, ?_⟩, fun d => ?_, ⟨hflags.file, hflags.should, hflags.lastmod, hflags.loaded⟩, ?_, ?_⟩
      · exact nodup_cons.2 ⟨hin, hs.datas⟩
      · refine nodup_cons.2 ⟨fun hid => ?_, hs.ids⟩
        obtain ⟨auth, hauth, heq⟩ := mem_map.1 hid
        exact hnew auth hauth heq
      · exact forall_mem_cons.2 ⟨hvalid, hs.valid⟩
      · exact forall_mem_cons.2 ⟨haway, fun auth hin => hsound.away auth (hauth ▸ hin)⟩
      · unfold AuthState.datas
        rw [map_cons, mem_cons]
        constructor
        · rintro (rfl | hold)
          · exact .inr ⟨rfl, rfl⟩
          · exact .inl hold
        · rintro (hold | ⟨rfl, -⟩)
          · exact .inr hold
          · exact .inl rfl
      · exact iff_of_true (by omega) (.inl rfl)
      · exact fun _ => mem_cons_self

variable (data) in
/-- Only the cookie with the data goes. -/
theorem MitRemoveCookie_spec (hs : Sound s) :
    Sound (MitRemoveCookie s data).1 ∧ (∀ d, d ∈ (MitRemoveCookie s data).1.datas ↔ d ∈ s.datas ∧ data ≠ d) := by
  unfold MitRemoveCookie
  split
  · have hsub : (s.mit_auth.eraseP (·.data == data)).Sublist s.mit_auth := eraseP_sublist
    refine ⟨⟨hs.datas.sublist (hsub.map _), hs.ids.sublist (hsub.map _), fun auth hin => hs.valid auth (hsub.mem hin), hs.fake,
      fun auth hin => hs.away auth (hsub.mem hin)⟩, fun d => ?_⟩
    exact (mem_map_eraseP hs.datas fun auth _ => beq_iff_eq).trans (and_congr_right fun _ => ne_comm)
  next hno =>
    refine ⟨hs, fun d => (and_iff_left_of_imp ?_).symm⟩
    rintro hin rfl
    obtain ⟨auth, hauth, heq⟩ := mem_map.1 hin
    exact hno (any_eq_true.2 ⟨auth, hauth, by simpa using heq⟩)

/-! ## Loading -/

/-- What an entry of the file is read into the list for: its protocol is the supported one. -/
def FileEntry.supported (auth : FileEntry) : Bool := auth.name == XAUTH_PROTO_MIT

/-- The ids of the entries come from clear ranges. -/
def FreshEntries : AuthState → List FileEntry → Prop
  | _, [] => True
  | s, auth :: rest => (auth.supported = true → Fresh s auth.data auth.supply) ∧ FreshEntries (loadEntry (s, 0) auth).1 rest

theorem loadEntry_spec (hs : Sound s) {auth : FileEntry} (hfresh : auth.supported = true → Fresh s auth.data auth.supply)
    (count : ℤ) :
    let r := loadEntry (s, count) auth
    Sound r.1 ∧ r.1 = (loadEntry (s, 0) auth).1 ∧ SameFlags s r.1 ∧
      (∀ d, d ∈ r.1.datas ↔ d ∈ s.datas ∨ auth.supported = true ∧ auth.data = d ∧ auth.supply.alloc = true) ∧
      r.2 = if auth.supported = true ∧ (auth.supply.alloc = true ∨ auth.data ∈ s.datas) then count + 1 else count := by
  unfold loadEntry
  by_cases hname : XAUTH_PROTO_MIT = auth.name
  · have hsupported : auth.supported = true := beq_iff_eq.2 hname.symm
    obtain ⟨hsound, hdatas, hflags, hid, -⟩ := MitAddCookie_spec hs (hfresh hsupported)
    rw [if_pos hname, if_pos hname]
    refine ⟨hsound, rfl, hflags, fun d => (hdatas d).trans ?_, ?_⟩
    · rw [and_iff_right hsupported]
    · dsimp only
      by_cases hin : auth.supply.alloc = true ∨ auth.data ∈ s.datas
      · rw [if_pos (hid.2 hin), if_pos ⟨hsupported, hin⟩]
      · rw [if_neg fun h => hin (hid.1 h), if_neg fun h => hin h.2]
  · have hsupported : auth.supported = false := by
      rw [Bool.eq_false_iff]
      exact fun h => hname (beq_iff_eq.1 h).symm
    rw [if_neg hname, if_neg hname, hsupported]
    exact ⟨hs, rfl, .refl s, by simp, by simp⟩

variable {entries : List FileEntry}

/-- The entries that count are those of the protocol that are stored, now or already. -/
theorem foldl_loadEntry (hs : Sound s) (hfresh : FreshEntries s entries) (count : ℤ) :
    let r := entries.foldl loadEntry (s, count)
    Sound r.1 ∧ SameFlags s r.1 ∧
      (∀ d, d ∈ r.1.datas ↔ d ∈ s.datas ∨ ∃ auth ∈ entries, auth.supported = true ∧ auth.data = d ∧ auth.supply.alloc = true) ∧
      count ≤ r.2 ∧
      (count < r.2 ↔ ∃ auth ∈ entries, auth.supported = true ∧ (auth.supply.alloc = true ∨ auth.data ∈ s.datas)) := by
  induction entries generalizing s count with
  | nil => exact ⟨hs, .refl s, by simp, le_rfl, by simp⟩
  | cons auth rest ih =>
    obtain ⟨hsound, hsame, hflags, hdatas, hcount⟩ := loadEntry_spec hs hfresh.1 count
    rw [foldl_cons]
    generalize hr : loadEntry (s, count) auth = r at hsound hsame hflags hdatas hcount ⊢
    obtain ⟨t, more⟩ := r
    dsimp only at hsound hsame hflags hdatas hcount
    obtain ⟨hend, hflags', hdatas', hle, hmore⟩ := ih hsound (hsame ▸ hfresh.2) more
    refine ⟨hend, hflags.trans hflags', fun d => ?_, ?_, ?_⟩
    · rw [hdatas' d, hdatas d, exists_mem_cons_iff, or_assoc]
    · split at hcount <;> omega
    · rw [exists_mem_cons_iff]
      by_cases htaken : auth.supported = true ∧ (auth.supply.alloc = true ∨ auth.data ∈ s.datas)
      · rw [if_pos htaken] at hcount
        exact iff_of_true (by omega) (.inl htaken)
      · rw [if_neg htaken] at hcount
        rw [or_iff_right htaken, ← hcount, hmore]
        -- an entry that is not taken stores nothing
        have hkeep : ∀ d, d ∈ t.datas ↔ d ∈ s.datas := fun d => (hdatas d).trans (or_iff_left_of_imp
          fun ⟨hsupported, _, halloc⟩ => absurd ⟨hsupported, .inl halloc⟩ htaken)
        simp only [hkeep]

/-- The state in which the file is read. -/
def atLoad (s : AuthState) (stat : Option ℤ) : AuthState := { noteTime s stat with ShouldLoadAuth := false }

/-- The entries that a check reads. -/
def entriesRead (s : AuthState) (stat : Option ℤ) (file : Option (List FileEntry)) : List FileEntry :=
  if (noteTime s stat).ShouldLoadAuth = true ∧ s.authorization_file = true then file.getD [] else []

/-- Does the file have an entry for this server? -/
def HasEntry (s : AuthState) (stat : Option ℤ) (file : Option (List FileEntry)) : Prop :=
  ∃ auth ∈ entriesRead s stat file, auth.supported = true ∧ (auth.supply.alloc = true ∨ auth.data ∈ s.datas)

/-- What a check does to local access: a file with entries for the server switches it off, one without switches it on, and so
does a failure before any file with entries was loaded. -/
def Switches (s : AuthState) (stat : Option ℤ) (file : Option (List FileEntry)) (access : Option Bool) : Prop :=
  (access = some false ↔ (noteTime s stat).ShouldLoadAuth = true ∧ HasEntry s stat file) ∧
    (access = some true ↔ (noteTime s stat).ShouldLoadAuth = true ∧ ¬ HasEntry s stat file ∧
      ((s.authorization_file = true → file ≠ none) ∨ s.loaded = false))

theorem noteTime_spec (s : AuthState) (stat : Option ℤ) :
    (noteTime s stat).mit_auth = s.mit_auth ∧ (noteTime s stat).fakeID = s.fakeID ∧
      (noteTime s stat).endFakeID = s.endFakeID ∧ (noteTime s stat).authorization_file = s.authorization_file ∧
      (noteTime s stat).loaded = s.loaded := by
  unfold noteTime
  split
  · split <;> exact ⟨rfl, rfl, rfl, rfl, rfl⟩
  · split <;> exact ⟨rfl, rfl, rfl, rfl, rfl⟩

theorem LoadAuthorization_spec {t : AuthState} (ht : Sound t)
    (hentries : entries = if t.authorization_file = true then file.getD [] else [])
    (hfresh : FreshEntries { t with ShouldLoadAuth := false } entries) :
    let r := LoadAuthorization t file
    Sound r.1 ∧ r.1.loaded = t.loaded ∧
      (∀ d, d ∈ r.1.datas ↔ d ∈ t.datas ∨ ∃ auth ∈ entries, auth.supported = true ∧ auth.data = d ∧ auth.supply.alloc = true) ∧
      (0 < r.2 ↔ ∃ auth ∈ entries, auth.supported = true ∧ (auth.supply.alloc = true ∨ auth.data ∈ t.datas)) ∧
      (r.2 < 0 ↔ t.authorization_file = true ∧ file = none) := by
  have hs : Sound { t with ShouldLoadAuth := false } := ht.congr rfl rfl rfl
  unfold LoadAuthorization
  by_cases hnamed : t.authorization_file = true
  · rw [if_pos hnamed] at hentries
    rw [if_neg (by simp [hnamed])]
    cases file with
    | none =>
      obtain rfl : entries = [] := hentries
      exact ⟨hs, rfl, fun d => by simp [AuthState.datas], by simp, by simp [hnamed]⟩
    | some entries' =>
      obtain rfl : entries = entries' := hentries
      obtain ⟨hsound, hflags, hdatas, hle, hcount⟩ := foldl_loadEntry hs hfresh 0
      exact ⟨hsound, hflags.loaded, hdatas, hcount, iff_of_false (by dsimp only; omega) (by simp)⟩
  · rw [if_neg hnamed] at hentries
    subst hentries
    rw [if_pos (by simpa using hnamed)]
    exact ⟨hs, rfl, fun d => by simp [AuthState.datas], by simp, by simp [hnamed]⟩

/-- **The lazy load.** The entries of the file are stored, and local access is switched by what was loaded. -/
theorem loadIfNeeded_spec (hs : Sound s) (hfresh : FreshEntries (atLoad s stat) (entriesRead s stat file)) :
    let r := loadIfNeeded s stat file
    Sound r.1 ∧
      (∀ d, d ∈ r.1.datas ↔ d ∈ s.datas ∨
        ∃ auth ∈ entriesRead s stat file, auth.supported = true ∧ auth.data = d ∧ auth.supply.alloc = true) ∧
      Switches s stat file r.2 ∧ (r.1.loaded = true ↔ s.loaded = true ∨ r.2 = some false) := by
  obtain ⟨hauth, hfake, hend, hfile, hloaded⟩ := noteTime_spec s stat
  have hnoted : Sound (noteTime s stat) := hs.congr hauth hfake hend
  have hsame : (noteTime s stat).datas = s.datas := congrArg (map _) hauth
  unfold loadIfNeeded Switches
  dsimp only
  cases hshould : (noteTime s stat).ShouldLoadAuth with
  | false =>
    have hnone : entriesRead s stat file = [] := by
      unfold entriesRead
      rw [hshould, if_neg fun h => absurd h.1 (by decide)]
    rw [hnone]
    exact ⟨hnoted, by simp [hsame], by simp, by simp [hloaded]⟩
  | true =>
    have hentries : entriesRead s stat file = if (noteTime s stat).authorization_file = true then file.getD [] else [] := by
      unfold entriesRead
      rw [hshould, hfile]
      simp
    obtain ⟨hsound, hsameLoaded, hdatas, hcount, hfailed⟩ := LoadAuthorization_spec hnoted hentries hfresh
    rw [hsame] at hdatas hcount
    rw [hfile] at hfailed
    rw [hloaded] at hsameLoaded
    generalize LoadAuthorization (noteTime s stat) file = r at *
    by_cases hentry : 0 < r.2
    · rw [if_pos hentry]
      have hhas := hcount.1 hentry
      exact ⟨hsound.congr rfl rfl rfl, hdatas, ⟨iff_of_true rfl ⟨rfl, hhas⟩, iff_of_false (by simp) fun h => h.2.1 hhas⟩, by simp⟩
    · have hhas := fun h => hentry (hcount.2 h)
      rw [if_neg hentry]
      by_cases hswitch : r.2 = 0 ∨ r.1.loaded = false
      · rw [if_pos hswitch]
        refine ⟨hsound, hdatas, ⟨iff_of_false (by simp) fun h => hhas h.2, iff_of_true rfl ⟨rfl, hhas, ?_⟩⟩, by simp [hsameLoaded]⟩
        refine hswitch.imp (fun hzero hnamed hnone => ?_) fun h => hsameLoaded ▸ h
        have := hfailed.2 ⟨hnamed, hnone⟩
        omega
      · rw [if_neg hswitch]
        refine ⟨hsound, hdatas, ⟨iff_of_false (by simp) fun h => hhas h.2, iff_of_false (by simp) fun h => ?_⟩, by simp [hsameLoaded]⟩
        apply hswitch
        refine h.2.2.imp (fun hread => ?_) fun h => hsameLoaded.trans h
        have : ¬ r.2 < 0 := fun hneg => hread (hfailed.1 hneg).1 (hfailed.1 hneg).2
        omega

/-! ## Requests -/

variable (data) in
theorem MitCheckCookie_spec (reason : Option String) (hs : Sound s) :
    ((MitCheckCookie s.mit_auth data reason).1 ≠ noXid ↔ data ∈ s.datas) ∧
      (data ∈ s.datas → { data := data, id := (MitCheckCookie s.mit_auth data reason).1 } ∈ s.mit_auth) ∧
      (MitCheckCookie s.mit_auth data reason).2 = reason := by
  have hsearch : s.mit_auth.find? (fun auth => data.length == auth.data.length && timingsafe_memcmp data auth.data == 0) =
      s.mit_auth.find? (·.data == data) := by
    congr 1
    funext auth
    rw [Bool.eq_iff_iff, Bool.and_eq_true, beq_iff_eq, beq_iff_eq, beq_iff_eq]
    constructor
    · rintro ⟨hlength, hzero⟩
      exact ((memcmpLoop_eq_zero hlength).1 hzero).symm
    · rintro rfl
      exact ⟨rfl, (memcmpLoop_eq_zero rfl).2 rfl⟩
  unfold MitCheckCookie
  rw [hsearch]
  by_cases hin : data ∈ s.datas
  · obtain ⟨auth, hauth, hdata, hfind⟩ := find?_key hin
    have hvalid := hs.valid auth hauth
    rw [hfind]
    refine ⟨iff_of_true ?_ hin, fun _ => ?_, rfl⟩
    · unfold noXid
      dsimp only
      omega
    · rw [← hdata]
      exact hauth
  · rw [find?_key_eq_none.2 hin]
    exact ⟨iff_of_false (by simp) hin, fun h => absurd h hin, rfl⟩

/-- What a request does to a cookie: added (true), removed (false) or neither. -/
def stored (data : List UInt8) (s : AuthState) : AuthRequest → Option Bool
  | .AddAuthorization name d supply => if name = XAUTH_PROTO_MIT ∧ d = data ∧ supply.alloc = true then some true else none
  | .RemoveAuthorization name d => if name = XAUTH_PROTO_MIT ∧ d = data then some false else none
  | .GenerateAuthorization name random supply =>
    if name = XAUTH_PROTO_MIT ∧ random.toList = data ∧ supply.alloc = true then some true else none
  | .ResetAuthorization => some false
  | .CheckAuthorization _ _ stat file =>
    if ∃ auth ∈ entriesRead s stat file, auth.supported = true ∧ auth.data = data ∧ auth.supply.alloc = true then some true else none
  | .InitAuthorization _ | .dixAllocServerXID _ => none

/-- Lengths are `CARD16`, ids come from clear ranges, and a check that names the protocol has a cookie that is live. -/
def Meets (s : AuthState) : AuthRequest → Prop
  | .AddAuthorization name data supply => data.length < 2 ^ 16 ∧ (name = XAUTH_PROTO_MIT → Fresh s data supply)
  | .GenerateAuthorization name random supply => name = XAUTH_PROTO_MIT → Fresh s random.toList supply
  | .CheckAuthorization name data stat file =>
    data.length < 2 ^ 16 ∧ FreshEntries (atLoad s stat) (entriesRead s stat file) ∧
      (name = XAUTH_PROTO_MIT → (stored data s (.CheckAuthorization name data stat file)).elim (data ∈ s.datas) (· = true))
  | .dixAllocServerXID range => Clear s range
  | _ => True

theorem ushort_eq (hshort : data.length < 2 ^ 16) : ushort data = data := by
  unfold ushort
  rw [Nat.mod_eq_of_lt hshort, take_length]

variable {request : AuthRequest}

/-- A step keeps the list sound, and has the cookies that the request says. -/
theorem authStep_spec (hmeets : Meets s request) (hs : Sound s) :
    Sound (authStep s request) ∧
      ∀ d, d ∈ (authStep s request).datas ↔ (stored d s request).elim (d ∈ s.datas) (· = true) := by
  -- a cookie is there afterwards when it was before or the condition of the request holds
  have hcase : ∀ (c : Prop) [Decidable c] (d : List UInt8),
      (d ∈ s.datas ∨ c) ↔ (if c then some true else none : Option Bool).elim (d ∈ s.datas) (· = true) := fun c _ d => by
    split
    next h => exact iff_of_true (.inr h) rfl
    next h => exact or_iff_left h
  cases request with
  | InitAuthorization named => exact ⟨hs.congr rfl rfl rfl, fun d => Iff.rfl⟩
  | AddAuthorization name data supply =>
    obtain ⟨hshort, hfresh⟩ := hmeets
    change Sound (AddAuthorization s name data supply).1 ∧ ∀ d, d ∈ (AddAuthorization s name data supply).1.datas ↔
      Option.elim (if name = XAUTH_PROTO_MIT ∧ data = d ∧ supply.alloc = true then some true else none) _ _
    unfold AddAuthorization
    rw [ushort_eq hshort]
    by_cases hname : XAUTH_PROTO_MIT = name
    · obtain ⟨hsound, hdatas, -⟩ := MitAddCookie_spec hs (hfresh hname.symm)
      rw [if_pos hname]
      refine ⟨hsound, fun d => (hdatas d).trans ?_⟩
      rw [← hcase, and_iff_right hname.symm]
    · rw [if_neg hname]
      refine ⟨hs, fun d => ?_⟩
      rw [if_neg fun h => hname h.1.symm]
      exact Iff.rfl
  | RemoveAuthorization name data =>
    change Sound (RemoveAuthorization s name data).1 ∧ ∀ d, d ∈ (RemoveAuthorization s name data).1.datas ↔
      Option.elim (if name = XAUTH_PROTO_MIT ∧ data = d then some false else none) _ _
    unfold RemoveAuthorization
    by_cases hname : XAUTH_PROTO_MIT = name
    · obtain ⟨hsound, hdatas⟩ := MitRemoveCookie_spec data hs
      rw [if_pos hname]
      refine ⟨hsound, fun d => (hdatas d).trans ?_⟩
      by_cases heq : data = d
      · rw [if_pos ⟨hname.symm, heq⟩]
        exact iff_of_false (fun h => h.2 heq) (by simp)
      · rw [if_neg fun h => heq h.2]
        exact and_iff_left heq
    · rw [if_neg hname]
      refine ⟨hs, fun d => ?_⟩
      rw [if_neg fun h => hname h.1.symm]
      exact Iff.rfl
  | GenerateAuthorization name random supply =>
    change Sound (GenerateAuthorization s name random supply).1 ∧ ∀ d, d ∈ (GenerateAuthorization s name random supply).1.datas ↔
      Option.elim (if name = XAUTH_PROTO_MIT ∧ random.toList = d ∧ supply.alloc = true then some true else none) _ _
    unfold GenerateAuthorization
    by_cases hname : XAUTH_PROTO_MIT = name
    · obtain ⟨hsound, hdatas, -⟩ := MitAddCookie_spec hs (hmeets hname.symm)
      rw [if_pos hname]
      refine ⟨hsound, fun d => (hdatas d).trans ?_⟩
      rw [← hcase, and_iff_right hname.symm]
    · rw [if_neg hname]
      refine ⟨hs, fun d => ?_⟩
      rw [if_neg fun h => hname h.1.symm]
      exact Iff.rfl
  | ResetAuthorization =>
    refine ⟨⟨nodup_nil, nodup_nil, fun _ h => absurd h not_mem_nil, hs.fake, fun _ h => absurd h not_mem_nil⟩,
      fun d => iff_of_false not_mem_nil (by simp [stored])⟩
  | CheckAuthorization name data stat file =>
    obtain ⟨hsound, hdatas, -⟩ := loadIfNeeded_spec hs hmeets.2.1
    have hstate : (CheckAuthorization s name data stat file none).1 = (loadIfNeeded s stat file).1 := by
      unfold CheckAuthorization
      split
      · split <;> rfl
      · rfl
    have hstep : authStep s (.CheckAuthorization name data stat file) = (loadIfNeeded s stat file).1 := hstate
    rw [hstep]
    exact ⟨hsound, fun d => (hdatas d).trans (hcase _ d)⟩
  | dixAllocServerXID range =>
    obtain ⟨hsound, hauth, -⟩ := dixAllocServerXID_spec hs hmeets
    exact ⟨hsound, fun d => Iff.of_eq (congrArg (fun l => d ∈ map MitAuth.data l) hauth)⟩

variable (name) in
/-- **A check.** It returns the id of a stored cookie or refuses, and gives a reason unless the protocol is the supported one. -/
theorem CheckAuthorization_spec (hs : Sound s) (hshort : data.length < 2 ^ 16)
    (hfresh : FreshEntries (atLoad s stat) (entriesRead s stat file)) :
    let r := CheckAuthorization s name data stat file none
    (r.2.id ≠ noXid ↔ name = XAUTH_PROTO_MIT ∧ data ∈ r.1.datas) ∧
      (r.2.id ≠ noXid → { data := data, id := r.2.id } ∈ r.1.mit_auth) ∧
      (r.2.reason ≠ none ↔ name ≠ XAUTH_PROTO_MIT) ∧ Switches s stat file r.2.access ∧
      (r.1.loaded = true ↔ s.loaded = true ∨ r.2.access = some false) := by
  obtain ⟨hsound, -, hswitches, hloaded⟩ := loadIfNeeded_spec hs hfresh
  unfold CheckAuthorization
  rw [ushort_eq hshort]
  by_cases hempty : name.length ≠ 0
  · rw [if_pos hempty]
    by_cases hname : XAUTH_PROTO_MIT = name
    · obtain ⟨hid, hin, hreason⟩ := MitCheckCookie_spec data none hsound
      rw [if_pos hname]
      exact ⟨hid.trans (and_iff_right hname.symm).symm, fun h => hin (hid.1 h),
        iff_of_false (fun h => h hreason) fun h => h hname.symm, hswitches, hloaded⟩
    · rw [if_neg hname]
      exact ⟨iff_of_false (by simp) fun h => hname h.1.symm, by simp, iff_of_true (by simp) fun h => hname h.symm, hswitches,
        hloaded⟩
  · have hname : name ≠ XAUTH_PROTO_MIT := by
      rintro rfl
      exact hempty (by decide)
    rw [if_neg hempty]
    exact ⟨iff_of_false (by simp) fun h => hname h.1, by simp, iff_of_true (by simp) hname, hswitches, hloaded⟩

/-- Did a check find a file with entries? -/
def switchedOff (s : AuthState) : AuthRequest → Option Bool
  | .CheckAuthorization name data stat file =>
    if (CheckAuthorization s name data stat file none).2.access = some false then some true else none
  | _ => none

/-- `loaded` is that some check has switched local access off. -/
theorem authStep_loaded (hmeets : Meets s request) (hs : Sound s) :
    (authStep s request).loaded = true ↔ (switchedOff s request).elim (s.loaded = true) (· = true) := by
  cases request with
  | InitAuthorization named => exact Iff.rfl
  | AddAuthorization name data supply =>
    change (AddAuthorization s name data supply).1.loaded = true ↔ s.loaded = true
    unfold AddAuthorization
    rw [ushort_eq hmeets.1]
    split
    next hname => rw [(MitAddCookie_spec hs (hmeets.2 hname.symm)).2.2.1.loaded]
    · rfl
  | RemoveAuthorization name data =>
    change (RemoveAuthorization s name data).1.loaded = true ↔ s.loaded = true
    unfold RemoveAuthorization MitRemoveCookie
    split
    · split <;> rfl
    · rfl
  | GenerateAuthorization name random supply =>
    change (GenerateAuthorization s name random supply).1.loaded = true ↔ s.loaded = true
    unfold GenerateAuthorization MitGenerateCookie
    split
    next hname => rw [(MitAddCookie_spec hs (hmeets hname.symm)).2.2.1.loaded]
    · rfl
  | ResetAuthorization => exact Iff.rfl
  | CheckAuthorization name data stat file =>
    obtain ⟨-, -, -, -, hloaded⟩ := CheckAuthorization_spec name hs hmeets.1 hmeets.2.1
    change (CheckAuthorization s name data stat file none).1.loaded = true ↔
      Option.elim (if (CheckAuthorization s name data stat file none).2.access = some false then some true else none) _ _
    apply hloaded.trans
    split
    next hoff => exact iff_of_true (.inr hoff) rfl
    next hon => exact or_iff_left hon
  | dixAllocServerXID range =>
    change (dixAllocServerXID s range).1.loaded = true ↔ s.loaded = true
    rw [(dixAllocServerXID_spec hs hmeets).2.2.1.loaded]

/-! ## Runs -/

/-- **Cookie admission.** In every run whose requests meet `Meets` cookies and ids are distinct and the live cookies are those whose
last request stored them. A check returns the id of a stored cookie exactly when it names the protocol with a live cookie; a refusal
has a reason, and local access is switched by what was loaded. A cookie that is added or generated is stored under the id returned. -/
theorem cookie_admission (hs : Sound s) {requests : List AuthRequest} (hmeets : AllSteps authStep Meets s requests) :
    let t := run authStep s requests
    t.datas.Nodup ∧ (t.mit_auth.map (·.id)).Nodup ∧
      (∀ d, d ∈ t.datas ↔ (lastAnswer authStep (stored d) s requests).elim (d ∈ s.datas) (· = true)) ∧
      (t.loaded = true ↔ (lastAnswer authStep switchedOff s requests).elim (s.loaded = true) (· = true)) ∧
      (∀ past name data stat file future, requests = past ++ .CheckAuthorization name data stat file :: future →
        let r := CheckAuthorization (run authStep s past) name data stat file none
        (r.2.id ≠ noXid ↔ name = XAUTH_PROTO_MIT ∧
            (lastAnswer authStep (stored data) s (past ++ [.CheckAuthorization name data stat file])).elim (data ∈ s.datas) (· = true)) ∧
          (r.2.id ≠ noXid → { data := data, id := r.2.id } ∈ r.1.mit_auth) ∧ (r.2.id = noXid → r.2.reason ≠ none) ∧
          Switches (run authStep s past) stat file r.2.access) ∧
      (∀ past name data supply future, requests = past ++ .AddAuthorization name data supply :: future →
        let r := AddAuthorization (run authStep s past) name data supply
        r.2 ≠ 0 → { data := data, id := r.2 } ∈ r.1.mit_auth) ∧
      (∀ past name random supply future, requests = past ++ .GenerateAuthorization name random supply :: future →
        let r := GenerateAuthorization (run authStep s past) name random supply
        r.2 ≠ 0 → { data := random.toList, id := r.2 } ∈ r.1.mit_auth) := by
  intro t
  have hkeep : ∀ (s : AuthState) (request : AuthRequest), Meets s request → Sound s → Sound (authStep s request) :=
    fun s request hmeets hs => (authStep_spec hmeets hs).1
  have hlive : ∀ (d : List UInt8) {rs : List AuthRequest}, AllSteps authStep Meets s rs →
      (d ∈ (run authStep s rs).datas ↔ (lastAnswer authStep (stored d) s rs).elim (d ∈ s.datas) (· = true)) := fun d rs hrs =>
    hrs.iff_lastAnswer (I := Sound) (P := fun s => d ∈ s.datas) hkeep (fun s request hmeets hs => (authStep_spec hmeets hs).2 d) hs
  have hsound : Sound t := hmeets.invariant hkeep hs
  refine ⟨hsound.datas, hsound.ids, fun d => hlive d hmeets, ?_, ?_, ?_, ?_⟩
  · exact hmeets.iff_lastAnswer (I := Sound) (P := fun s => s.loaded = true) hkeep
      (fun s request hmeets hs => authStep_loaded hmeets hs) hs
  · rintro past name data stat file future rfl
    obtain ⟨hpast, hcheck, -⟩ := allSteps_append.1 hmeets
    have hbefore : Sound (run authStep s past) := hpast.invariant hkeep hs
    obtain ⟨hid, hin, hreason, hswitches, -⟩ := CheckAuthorization_spec name hbefore hcheck.1 hcheck.2.1
    have hafter := hlive data (allSteps_append.2 ⟨hpast, hcheck, trivial⟩ :
      AllSteps authStep Meets s (past ++ [.CheckAuthorization name data stat file]))
    rw [run_snoc] at hafter
    refine ⟨hid.trans (and_congr_right fun _ => hafter), hin, fun hrefused => ?_, hswitches⟩
    -- the cookie is live when the protocol is named, so a refusal is for another protocol
    rw [hreason]
    intro hname
    have hdata := ((authStep_spec hcheck hbefore).2 data).2 (hcheck.2.2 hname)
    exact (hid.2 ⟨hname, hdata⟩) hrefused
  · rintro past name data supply future rfl
    obtain ⟨hpast, hadd, -⟩ := allSteps_append.1 hmeets
    have hbefore : Sound (run authStep s past) := hpast.invariant hkeep hs
    unfold AddAuthorization
    rw [ushort_eq hadd.1]
    split
    next hname => exact (MitAddCookie_spec hbefore (hadd.2 hname.symm)).2.2.2.2
    · exact fun h => absurd rfl h
  · rintro past name random supply future rfl
    obtain ⟨hpast, hgenerate, -⟩ := allSteps_append.1 hmeets
    have hbefore : Sound (run authStep s past) := hpast.invariant hkeep hs
    unfold GenerateAuthorization
    split
    next hname => exact (MitAddCookie_spec hbefore (hgenerate hname.symm)).2.2.2.2
    · exact fun h => absurd rfl h

section Examples

def laterIds : XidRange := { min := 32, max := 40, pos := by decide, le := by decide, small := by decide }

/-- The server has started, with a file that is yet to be read. -/
def started : AuthState :=
  { authorization_file := true, ShouldLoadAuth := true, lastmod := 0, loaded := false, mit_auth := [], fakeID := 32,
    endFakeID := 2 ^ 21 }

theorem started_sound : Sound started :=
  ⟨nodup_nil, nodup_nil, fun _ h => absurd h not_mem_nil, by decide, fun _ h => absurd h not_mem_nil⟩

def fileCookie : FileEntry := { name := XAUTH_PROTO_MIT, data := [1, 2, 3], supply := { alloc := true, range := laterIds } }

/-- A client with the cookie of the file, then one that names no protocol. -/
def admitted : List AuthRequest :=
  [.CheckAuthorization XAUTH_PROTO_MIT [1, 2, 3] (some 5) (some [fileCookie]), .CheckAuthorization [] [] (some 5) none]

theorem cookie_admission_example :
    AllSteps authStep Meets started admitted ∧
      (run authStep started admitted).mit_auth = [{ data := [1, 2, 3], id := 32 }] ∧ (run authStep started admitted).datas.Nodup := by
  have hclear : ∀ t : AuthState, t.fakeID = 32 → t.endFakeID = 2 ^ 21 → ∀ range, Clear t range := fun t hfake hend range hused => by
    unfold UsedUp at hused
    rw [hfake, hend] at hused
    exact absurd hused (by decide)
  have hread : entriesRead started (some 5) (some [fileCookie]) = [fileCookie] := by rfl
  have hstored : stored [1, 2, 3] started (.CheckAuthorization XAUTH_PROTO_MIT [1, 2, 3] (some 5) (some [fileCookie])) = some true := by
    decide
  have hmeets : AllSteps authStep Meets started admitted := by
    refine ⟨⟨by decide, ?_, fun _ => ?_⟩, ⟨by decide, trivial, fun h => absurd h (by decide)⟩, trivial⟩
    · rw [hread]
      exact ⟨fun _ _ _ => hclear _ rfl rfl _, trivial⟩
    · rw [hstored]
      rfl
  exact ⟨hmeets, by rfl, (cookie_admission started_sound hmeets).1⟩

/-- **A wrong cookie is refused without a reason.** -/
theorem cookie_refused_silently :
    (CheckAuthorization started XAUTH_PROTO_MIT [9] (some 5) (some [fileCookie]) none).2 =
      { id := noXid, reason := none, access := some false } := by rfl

end Examples

end Xenia.Os.Auth
