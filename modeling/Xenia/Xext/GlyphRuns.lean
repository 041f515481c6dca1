import Xenia.Xext.GlyphStore

/-!
# The glyph store over whole runs

A `Story` records what callers did: the references they hold, and the glyphs they added to each set.
`Inv` ties the store to it; the `_inv` lemmas are the steps, and `glyph_store_sound` is the run. Two
runs that go wrong are in `glyph_store_unsound`.
-/

namespace Xenia.Xext.Glyph

open Xenia.Lib List Function Option

variable {s s' : State} {hash hash' : GlyphHashRec} {hs : GlyphHashSetRec} {gs gs' : GlyphSetRec} {i j k g g' id n : ℕ}
  {f f' : Format} {sha1 : Sha1} {glyph : GlyphRec} {added : ℕ → Option ℕ}

/-- `held` are the references of callers, `entered` the glyphs that were added anywhere, `added` the
glyph last added to a set under an id and not deleted since. After a successful `ResizeGlyphSet` `room`
has the set and how many glyphs may still be added. -/
structure Story where
  held : ℕ → ℕ := fun _ => 0
  format : ℕ → Format := fun _ => 0
  entered : ℕ → Bool := fun _ => false
  added : ℕ → ℕ → Option ℕ := fun _ _ => none
  room : Option (ℕ × ℕ) := none

abbrev World := State × Story

/-- A call, with what the allocator answers in it. -/
inductive Op
  | allocateGlyphSet (fdepth : Format) (okGlobal okSet okTable : Bool)
  | referenceGlyphSet (i : ℕ)
  | freeGlyphSet (i : ℕ) (ok : Bool)
  | resizeGlyphSet (i n : ℕ) (ok okGlobal : Bool)
  | allocateGlyph (fdepth : Format) (sha1 : Sha1) (ok : Bool)
  | holdGlyph (fdepth : Format) (sha1 : Sha1)
  | freeGlyph (g : ℕ)
  | addGlyph (i g id : ℕ)
  | deleteGlyph (i id : ℕ)

def Story.newSet (st : Story) (i : ℕ) : Story :=
  { st with added := Function.update st.added i fun _ => none, room := none }

def Story.newGlyph (st : Story) (g : ℕ) (f : Format) : Story :=
  { st with
    held := Function.update st.held g 1
    format := Function.update st.format g f
    entered := Function.update st.entered g false }

def Story.setHeld (st : Story) (g n : ℕ) : Story := { st with held := Function.update st.held g n }

def Story.setAdded (st : Story) (i id : ℕ) (g : Option ℕ) : Story :=
  { st with added := Function.update st.added i (Function.update (st.added i) id g) }

def Story.enter (st : Story) (g : ℕ) : Story := { st with entered := Function.update st.entered g true }

def Story.setRoom (st : Story) (room : Option (ℕ × ℕ)) : Story := { st with room }

def exec : World → Op → Outcome World
  | (s, st), .allocateGlyphSet fdepth okGlobal okSet okTable =>
    .ok (AllocateGlyphSet s fdepth okGlobal okSet okTable, st.newSet s.sets.length)
  | (s, st), .referenceGlyphSet i => do
    let s ← ReferenceGlyphSet s i
    return (s, st)
  | (s, st), .freeGlyphSet i ok => do
    let s ← FreeGlyphSet s i ok
    return (s, st.setRoom none)
  | (s, st), .resizeGlyphSet i n ok okGlobal => do
    let (s, resized) ← ResizeGlyphSet s i n ok okGlobal
    return (s, st.setRoom (if resized then some (i, n) else none))
  | (s, st), .allocateGlyph fdepth sha1 ok =>
    match AllocateGlyph s sha1 ok with
    | (s, none) => .ok (s, st)
    | (s, some g) => .ok (s, st.newGlyph g fdepth)
  | (s, st), .holdGlyph fdepth sha1 => do
    match ← Glyph.holdGlyph s sha1 fdepth with
    | (s, none) => return (s, st)
    | (s, some g) => return (s, st.setHeld g (st.held g + 1))
  | (s, st), .freeGlyph g => do
    let s ← FreeGlyph s g (st.format g)
    return (s, st.setHeld g (st.held g - 1))
  | (s, st), .addGlyph i g id => do
    let s ← AddGlyph s i g id
    return (s, ((st.enter g).setAdded i id (some g)).setRoom (st.room.map fun r => (r.1, r.2 - 1)))
  | (s, st), .deleteGlyph i id => do
    let (s, _) ← DeleteGlyph s i id
    return (s, st.setAdded i id none)

def step (w : Outcome World) (op : Op) : Outcome World := w >>= fun w => exec w op

/-! ### The invariant -/

/-- The glyphs that the global table of a format holds, as long as they are there. -/
def Story.filled (st : Story) (f : Format) (g : ℕ) : Prop := st.entered g = true ∧ st.format g = f

instance Story.decidableFilled (st : Story) (f : Format) (g : ℕ) : Decidable (st.filled f g) :=
  inferInstanceAs (Decidable (st.entered g = true ∧ st.format g = f))

def setRefs (g : ℕ) (o : Option GlyphSetRec) : ℕ := o.elim 0 fun glyphSet => refsIn glyphSet.hash.table g

/-- The references of all glyph sets. -/
def State.refs (s : State) (g : ℕ) : ℕ := (s.sets.map (setRefs g)).sum

/-- A glyph set, with the glyphs added to it. -/
structure SetOk (gs : GlyphSetRec) (added : ℕ → Option ℕ) (filled : Format → ℕ → Prop) : Prop where
  table : SetTable gs.hash added
  filled : ∀ id g, added id = some g → filled gs.fdepth g
  refcnt : 0 < gs.refcnt ∧ gs.refcnt < 2 ^ 32

structure Inv (s : State) (st : Story) : Prop where
  glyphs : Glyphs s st.filled fun g => st.held g + s.refs g
  sets : ∀ i gs, s.set? i = some gs → SetOk gs (st.added i) st.filled
  room : ∀ i k, st.room = some (i, k) → ∀ gs, s.set? i = some gs →
    Roomy gs.hash k ∧ Roomy (s.globalGlyphs gs.fdepth) k

variable {st st' : Story}

theorem Story.filled_unique (hf : st.filled f g) (hf' : st.filled f' g) : f' = f := hf'.2.symm.trans hf.2

section

variable (h : s.set? i = some gs)
include h

theorem set?_lt : i < s.sets.length := by
  unfold State.set? at h
  by_contra hle
  rw [List.getElem?_eq_none (Nat.le_of_not_lt hle)] at h
  cases h

theorem set?_eq : s.sets[i]? = some (some gs) := by
  exact join_eq_some_iff.1 h

theorem set?_set (o : Option GlyphSetRec) (j : ℕ) :
    ((s.sets.set i o)[j]?).join = if j = i then o else s.set? j := by
  rw [getElem?_set]
  by_cases hj : j = i
  · subst hj
    rw [if_pos rfl, if_pos rfl, if_pos (set?_lt h)]
    rfl
  · rw [if_neg fun h => hj h.symm, if_neg hj]
    rfl

theorem setHash_eq (hash : GlyphHashRec) :
    s.setHash i hash = { s with sets := s.sets.set i (some { gs with hash }) } := by
  unfold State.setHash
  rw [modify_eq_set_getElem?, set?_eq h]
  rfl

end

theorem sum_map_set {α : Type*} {l : List α} {a : α} (b : α) (F : α → ℕ) (h : l[i]? = some a) :
    ((l.set i b).map F).sum + F a = (l.map F).sum + F b := by
  induction l generalizing i with
  | nil => cases h
  | cons x l ih =>
    cases i with
    | zero =>
      cases h
      simp only [set_cons_zero, map_cons, sum_cons]
      omega
    | succ i =>
      have := ih h
      simp only [set_cons_succ, map_cons, sum_cons]
      omega

/-- The references when one glyph set changes. -/
theorem refs_set (h : s.set? i = some gs) (o : Option GlyphSetRec) (g : ℕ) :
    ((s.sets.set i o).map (setRefs g)).sum + refsIn gs.hash.table g = s.refs g + setRefs g o :=
  sum_map_set o (setRefs g) (set?_eq h)

theorem refsIn_le (h : s.set? i = some gs) (g : ℕ) : refsIn gs.hash.table g ≤ s.refs g := by
  have := refs_set h none g
  have hnone : setRefs g none = 0 := rfl
  omega

/-- What a glyph set holds is alive. -/
theorem Inv.total_pos (h : Inv s st) (hi : s.set? i = some gs) (ha : st.added i id = some g) : 0 < s.refs g := by
  have hmem := ((h.sets i gs hi).table.holds.mem _).2 ⟨id, g, rfl, ha⟩
  have hpos : 0 < refsIn gs.hash.table g := countP_pos_iff.2 ⟨_, hmem, decide_eq_true rfl⟩
  have := refsIn_le hi g
  omega

/-! ### Queries -/

theorem refGlyph_free {r : GlyphRefRec} (hr : hash.table[i]? = some r) (hentry : r.isEntry = false) :
    refGlyph hash (some i) = .ok .null ∨ refGlyph hash (some i) = .ok .deleted := by
  rw [refGlyph_eq hr]
  rcases glyph_of_not_entry hentry with hglyph | hglyph
  · exact .inl (by rw [hglyph])
  · exact .inr (by rw [hglyph])

/-- **A glyph set finds what was last added.** -/
theorem FindGlyph_spec (h : Inv s st) (hi : s.set? i = some gs) (id : ℕ) : FindGlyph s i id = .ok (st.added i id) := by
  obtain ⟨hs, hh⟩ := (h.sets i gs hi).table.hashed
  obtain ⟨k, r, hfind, hr, hcases⟩ := (h.sets i gs hi).table.find hh s.glyphs id
  unfold FindGlyph
  rw [hi]
  simp only [deref, ok_bind]
  rw [hfind, ok_bind]
  rcases hcases with ⟨g, rfl, hadded⟩ | ⟨hentry, -, hnone⟩
  · rw [refGlyph_eq hr, hadded]
    rfl
  · rw [hnone]
    rcases refGlyph_free hr hentry with hfree | hfree
    all_goals
      rw [hfree]
      rfl

variable {filled : Format → ℕ → Prop} {total : ℕ → ℕ}

/-- **A global table finds its glyphs by their SHA-1.** -/
theorem FindGlyphByHash_spec (h : Glyphs s filled total) (sha1 : Sha1) (f : Format) : ∃ found, FindGlyphByHash s sha1 f = .ok found ∧
      ∀ g, found = some g ↔ shaOf s.glyphs g = some sha1 ∧ filled f g := by
  rcases h.table f with hempty | ⟨hs, hh⟩
  · refine ⟨none, ?_, fun g => ⟨(fun h => by cases h), fun ⟨hsha, hf⟩ => ?_⟩⟩
    · unfold FindGlyphByHash
      rw [hempty]
    · have := h.mem hsha hf
      rw [hempty] at this
      cases this
  · obtain ⟨i, hfind, hanswer⟩ := h.find hh rfl sha1
    unfold FindGlyphByHash
    dsimp only
    rw [hh.hashSet]
    rw [hfind, ok_bind]
    cases hanswer with
    | entry r hr hentry hits =>
      obtain ⟨g, rfl, hsha, hf⟩ := h.hits (mem_entries.2 ⟨i, hr, hentry⟩) hits
      rw [refGlyph_eq hr]
      refine ⟨some g, rfl, fun g' => ⟨?_, fun ⟨hsha', hf'⟩ => ?_⟩⟩
      · rintro ⟨⟩
        exact ⟨hsha, hf⟩
      · rw [h.unique hsha hsha' hf hf']
    | free r hr hentry hreach hnone =>
      refine ⟨none, ?_, fun g => ⟨(fun h => by cases h), fun ⟨hsha, hf⟩ => ?_⟩⟩
      · rcases refGlyph_free hr hentry with hfree | hfree
        all_goals
          rw [hfree]
          rfl
      · exact absurd (hits_of_shaOf hsha) (hnone _ (h.mem hsha hf))

/-! ### References -/

/-- The reference of a caller is dropped. -/
theorem freeGlyph_inv (h : Inv s st) (hheld : 0 < st.held g) (hh : Hashed (s.globalGlyphs (st.format g)) hs)
    (htwin : st.held g + s.refs g = 1 → NoTwin s st.filled (st.format g) g) :
    ∃ s', FreeGlyph s g (st.format g) = .ok s' ∧ Inv s' (st.setHeld g (st.held g - 1)) := by
  have hone : ∀ f', st.filled f' g → f' = st.format g := fun f' hf' => hf'.2.symm
  obtain ⟨glyphs, hash, hrun, hG, hshrunk⟩ := FreeGlyph_spec h.glyphs hh (by omega) hone htwin
  refine ⟨_, hrun, ?_, h.sets, ?_⟩
  · have hsame : update (fun g => st.held g + s.refs g) g (st.held g + s.refs g - 1) =
        fun g' => update st.held g (st.held g - 1) g' + s.refs g' := by
      funext g'
      by_cases heq : g' = g
      · subst heq
        simp only [update_self]
        omega
      · simp only [update_of_ne heq]
    rw [hsame] at hG
    exact hG
  · intro i k hroom gs hi
    obtain ⟨hset, hglobal⟩ := h.room i k hroom gs hi
    refine ⟨hset, ?_⟩
    have htable := hG.table gs.fdepth
    rw [setGlobal_globalGlyphs] at htable ⊢
    by_cases hf : gs.fdepth = st.format g
    · rw [hf] at hglobal htable ⊢
      rw [update_self] at htable ⊢
      exact hglobal.shrunk hshrunk htable
    · rw [update_of_ne hf]
      exact hglobal

/-! ### One glyph set changes -/

theorem SetOk.mono {added : ℕ → Option ℕ} {filled' : Format → ℕ → Prop} (h : SetOk gs added filled)
    (hle : ∀ f g, filled f g → filled' f g) : SetOk gs added filled' :=
  ⟨h.table, fun id g ha => hle _ _ (h.filled id g ha), h.refcnt⟩

variable {o : Option GlyphSetRec}

/-- The other glyph sets stay as they were. -/
theorem Inv.update (h : Inv s st) (hi : s.set? i = some gs) {a : ℕ → Option ℕ}
    (ho : ∀ gs', o = some gs' → SetOk gs' a st'.filled) (ha : st'.added = update st.added i a)
    (hle : ∀ f g, st.filled f g → st'.filled f g) :
    ∀ j gs', ((s.sets.set i o)[j]?).join = some gs' → SetOk gs' (st'.added j) st'.filled := by
  intro j gs' hj
  rw [set?_set hi] at hj
  rw [ha]
  by_cases hij : j = i
  · subst hij
    rw [if_pos rfl] at hj
    rw [update_self]
    exact ho gs' hj
  · rw [if_neg hij] at hj
    rw [update_of_ne hij]
    exact (h.sets j gs' hj).mono hle

/-- Room stays where the tables do not grow. -/
theorem Inv.roomy (h : Inv s st) (hi : s.set? i = some gs) {q : GlyphHashRec} {t : Story}
    (ho : ∀ gs', o = some gs' → gs'.fdepth = gs.fdepth ∧ ∀ n, Roomy gs.hash n → Roomy gs'.hash n)
    (hglobal : ∀ n, Roomy (s.globalGlyphs gs.fdepth) n → Roomy q n) (hroom : t.room = st.room) :
    ∀ j k, t.room = some (j, k) → ∀ gs', ((s.sets.set i o)[j]?).join = some gs' →
      Roomy gs'.hash k ∧ Roomy (Function.update s.globalGlyphs gs.fdepth q gs'.fdepth) k := by
  intro j k hjk gs' hj
  rw [hroom] at hjk
  have hupdate : ∀ f n, Roomy (s.globalGlyphs f) n → Roomy (Function.update s.globalGlyphs gs.fdepth q f) n := by
    intro f n hn
    by_cases hf : f = gs.fdepth
    · subst hf
      rw [update_self]
      exact hglobal n hn
    · rw [update_of_ne hf]
      exact hn
  rw [set?_set hi] at hj
  by_cases hij : j = i
  · subst hij
    rw [if_pos rfl] at hj
    obtain ⟨hsame, hr⟩ := ho gs' hj
    obtain ⟨h₁, h₂⟩ := h.room j k hjk gs hi
    refine ⟨hr k h₁, hupdate _ _ ?_⟩
    rw [hsame]
    exact h₂
  · rw [if_neg hij] at hj
    obtain ⟨h₁, h₂⟩ := h.room j k hjk gs' hj
    exact ⟨h₁, hupdate _ _ h₂⟩

/-- A glyph is taken out of a glyph set. -/
theorem deleteGlyph_inv (h : Inv s st) (hi : s.set? i = some gs) (id : ℕ) :
    ∃ s' b, DeleteGlyph s i id = .ok (s', b) ∧ Inv s' (st.setAdded i id none) := by
  have hok := h.sets i gs hi
  obtain ⟨hs, hh⟩ := hok.table.hashed
  obtain ⟨k, r, hfind, hr, hcases⟩ := hok.table.find hh s.glyphs id
  unfold DeleteGlyph
  rw [hi]
  simp only [deref, ok_bind]
  rw [hfind, ok_bind]
  rw [ok_bind, hr]
  rw [ok_bind]
  rcases hcases with ⟨g, rfl, hadded⟩ | ⟨hentry, -, hnone⟩
  · dsimp only
    have hpos := hh.pos hr rfl
    have hlt := hh.entries_lt
    have hsub : (gs.hash.tableEntries + 2 ^ 32 - 1) % 2 ^ 32 = gs.hash.tableEntries - 1 := by omega
    obtain ⟨hash', hhash'⟩ : ∃ hash' : GlyphHashRec, hash' = { gs.hash with
      table := gs.hash.table.set k ⟨id, .deleted⟩, tableEntries := gs.hash.tableEntries - 1 } := ⟨_, rfl⟩
    rw [hsub, ← hhash', setHash_eq hi]
    obtain ⟨htable, -, hrefs⟩ := hok.table.remove (n := 0) hh hh.room hr hhash'
    have hf := hok.filled id g hadded
    have hgpos := h.total_pos hi hadded
    obtain ⟨hs', hh'⟩ := h.glyphs.hashed hf (by omega)
    have hone : ∀ f', st.filled f' g → f' = gs.fdepth := fun f' hf' => Story.filled_unique hf hf'
    have hG := h.glyphs.withSets (s.sets.set i (some { gs with hash := hash' }))
    obtain ⟨glyphs, hash, hrun, hG', hshrunk⟩ := FreeGlyph_spec hG hh' (by omega) hone fun _ => h.glyphs.noTwin hf
    rw [hrun]
    refine ⟨_, true, rfl, ?_, ?_, ?_⟩
    · have hsame : Function.update (fun g => st.held g + s.refs g) g (st.held g + s.refs g - 1) =
          fun g' => st.held g' + ((s.sets.set i (some { gs with hash := hash' })).map (setRefs g')).sum := by
        funext g'
        have hsum := refs_set hi (some { gs with hash := hash' }) g'
        have hset : setRefs g' (some { gs with hash := hash' }) = refsIn hash'.table g' := rfl
        have hdrop := hrefs g'
        unfold one at hdrop
        by_cases heq : g' = g
        · subst heq
          rw [if_pos rfl] at hdrop
          rw [update_self]
          omega
        · rw [if_neg fun h => heq h.symm] at hdrop
          rw [update_of_ne heq]
          omega
      rw [hsame] at hG'
      exact hG'
    · refine h.update hi (a := Function.update (st.added i) id none) ?_ rfl fun _ _ h => h
      rintro gs' ⟨⟩
      refine ⟨htable, fun id' g' ha => ?_, hok.refcnt⟩
      by_cases hid : id' = id
      · subst hid
        rw [update_self] at ha
        cases ha
      · rw [update_of_ne hid] at ha
        exact hok.filled id' g' ha
    · refine h.roomy hi ?_ ?_ rfl
      · rintro gs' ⟨⟩
        refine ⟨rfl, fun n hn => hn.shrunk ?_ (.inr htable.hashed)⟩
        rw [hhash']
        exact ⟨rfl, Nat.sub_le _ _⟩
      · intro n hn
        have ht := hG'.table gs.fdepth
        rw [setGlobal_globalGlyphs, update_self] at ht
        exact hn.shrunk hshrunk ht
  · have hsame : st.setAdded i id none = st := by
      unfold Story.setAdded
      rw [← hnone, update_eq_self, update_eq_self]
    rw [hsame]
    refine ⟨s, false, ?_, h⟩
    rcases glyph_of_not_entry hentry with hglyph | hglyph
    all_goals
      rw [hglyph]
      rfl

/-- The entry of the glyph set, once the glyph is in the global table. -/
theorem insertRef_spec (hG : Glyphs s filled total) (hi : s.set? i = some gs)
    (hok : SetOk gs added filled) (hroom : Roomy gs.hash (n + 1)) (hg : filled gs.fdepth g)
    (hone : ∀ f g, filled f g → filled gs.fdepth g → f = gs.fdepth) (hpos : ∀ id g, added id = some g → 0 < total g)
    (hgpos : 0 < total g) (hlt : total g + 1 < 2 ^ 32) (id : ℕ) :
    ∃ glyphs global hash, insertRef s i gs g id =
        .ok { s.setGlobal gs.fdepth global with
          glyphs, sets := s.sets.set i (some { gs with hash }) } ∧
      SetTable hash (update added id (some g)) ∧ Roomy hash n ∧
      Shrunk (s.globalGlyphs gs.fdepth) global ∧
      ∃ total', Glyphs { s.setGlobal gs.fdepth global with glyphs } filled total' ∧
        ∀ g', total' g' + refsIn gs.hash.table g' = total g' + refsIn hash.table g' := by
  obtain ⟨hs, hh, hle⟩ := hroom
  obtain ⟨k, r, hfind, hr, hcases⟩ := hok.table.find hh s.glyphs id
  obtain ⟨glyph, hglyph⟩ := isSome_iff_exists.1 (hG.live.2 hgpos)
  have htotal : total g = glyph.refcnt := by rw [hG.refcnt g, hglyph]; rfl
  have hmod : (glyph.refcnt + 1) % 2 ^ 32 = glyph.refcnt + 1 := Nat.mod_eq_of_lt (by omega)
  have hG₁ := hG.count hglyph (n := glyph.refcnt + 1) (by omega)
  obtain ⟨s₁, hs₁⟩ : ∃ s₁, s₁ = s.setGlyph g (some { glyph with refcnt := glyph.refcnt + 1 }) := ⟨_, rfl⟩
  have hi₁ : s₁.set? i = some gs := by rw [hs₁]; exact hi
  unfold insertRef
  dsimp only
  rw [hfind, hglyph]
  simp only [deref, ok_bind]
  rw [hmod, ← hs₁]
  rw [← hs₁] at hG₁
  rcases hcases with ⟨old, rfl, hadded⟩ | ⟨hentry, hreach, hnone⟩
  · -- the glyph that was there loses a reference
    obtain ⟨hash', hhash'⟩ : ∃ hash' : GlyphHashRec, hash' = { gs.hash with
      table := gs.hash.table.set k ⟨id, .glyph g⟩ } := ⟨_, rfl⟩
    obtain ⟨htable, hroomy, hrefs⟩ := hok.table.replace (n := n) hh (by omega) hr hhash'
    have hf := hok.filled id old hadded
    have hopos : 0 < update total g (glyph.refcnt + 1) old := by
      by_cases heq : old = g
      · rw [heq, update_self]
        omega
      · rw [update_of_ne heq]
        exact hpos id old hadded
    obtain ⟨hs', hh'⟩ := hG₁.hashed hf hopos
    obtain ⟨glyphs, global, hrun, hG', hshrunk⟩ :=
      FreeGlyph_spec hG₁ hh' hopos (fun f' hf' => hone f' old hf' hf) fun _ => hG₁.noTwin hf
    rw [refGlyph_eq hr, ok_bind]
    dsimp only
    rw [hrun, ok_bind, ← hhash', setHash_eq (s := { s₁.setGlobal gs.fdepth global with glyphs }) hi₁]
    subst hs₁
    refine ⟨glyphs, global, hash', rfl, htable, hroomy, hshrunk, _, hG', fun g' => ?_⟩
    have hmove := hrefs g'
    unfold one at hmove
    by_cases heq : g' = old <;> by_cases heq' : g' = g
    · subst heq heq'
      simp only [update_self] at hmove ⊢
      omega
    · subst heq
      rw [if_pos rfl, if_neg fun h => heq' h.symm] at hmove
      rw [update_self, update_of_ne heq']
      have := hpos id g' hadded
      omega
    · subst heq'
      rw [if_neg fun h => heq h.symm, if_pos rfl] at hmove
      rw [update_of_ne heq, update_self]
      omega
    · rw [if_neg fun h => heq h.symm, if_neg fun h => heq' h.symm] at hmove
      rw [update_of_ne heq, update_of_ne heq']
      omega
  · have hlt' := hh.entries_lt
    have hadd : (gs.hash.tableEntries + 1) % 2 ^ 32 = gs.hash.tableEntries + 1 := Nat.mod_eq_of_lt (by omega)
    obtain ⟨hash', hhash'⟩ : ∃ hash' : GlyphHashRec, hash' = { gs.hash with
      table := gs.hash.table.set k ⟨id, .glyph g⟩, tableEntries := gs.hash.tableEntries + 1 } := ⟨_, rfl⟩
    obtain ⟨htable, hroomy, hrefs⟩ := hok.table.insert (n := n) hh hle hr hentry hreach hnone hhash'
    refine ⟨s₁.glyphs, s.globalGlyphs gs.fdepth, hash', ?_, htable, hroomy, .refl,
      update total g (glyph.refcnt + 1), ?_, fun g' => ?_⟩
    · have hend : s₁.setHash i hash' = { s.setGlobal gs.fdepth (s.globalGlyphs gs.fdepth) with
          glyphs := s₁.glyphs, sets := s.sets.set i (some { gs with hash := hash' }) } := by
        rw [setHash_eq hi₁, setGlobal_self]
        subst hs₁
        rfl
      rcases refGlyph_free hr hentry with hfree | hfree
      all_goals
        rw [hfree]
        rw [hadd, ← hhash', hend]
        rfl
    · rw [setGlobal_self]
      subst hs₁
      exact hG₁
    · have hmove := hrefs g'
      unfold one at hmove
      by_cases heq : g' = g
      · subst heq
        rw [if_pos rfl] at hmove
        rw [update_self]
        omega
      · rw [if_neg fun h => heq h.symm] at hmove
        rw [update_of_ne heq]
        omega

/-- A glyph is added to a glyph set that has room for it. -/
theorem addGlyph_inv (h : Inv s st) (hi : s.set? i = some gs) (hroom : st.room = some (i, k + 1)) (hheld : 0 < st.held g)
    (hformat : st.format g = gs.fdepth) (htwin : NoTwin s st.filled gs.fdepth g)
    (hlt : st.held g + s.refs g + 1 < 2 ^ 32) (id : ℕ) :
    ∃ s', AddGlyph s i g id = .ok s' ∧
      Inv s' (((st.enter g).setAdded i id (some g)).setRoom (st.room.map fun r => (r.1, r.2 - 1))) := by
  obtain ⟨hset, hglobal⟩ := h.room i (k + 1) hroom gs hi
  obtain ⟨hash₁, hrun₁, hroom₁, hG₁⟩ := enterGlobal_spec h.glyphs hglobal (by omega) htwin
  have hfilled : alsoFilled st.filled gs.fdepth g = (st.enter g).filled := by
    funext f g'
    unfold alsoFilled Story.filled Story.enter
    dsimp only
    by_cases heq : g' = g
    · subst heq
      rw [update_self, hformat]
      refine propext ⟨?_, fun hf => .inr ⟨hf.2.symm, rfl⟩⟩
      rintro (hf | hf)
      · exact ⟨rfl, hf.2⟩
      · exact ⟨rfl, hf.1.symm⟩
    · rw [update_of_ne heq]
      simp [heq]
  have hle : ∀ f g', st.filled f g' → (st.enter g).filled f g' := fun f g' hf => by
    rw [← hfilled]
    exact .inl hf
  have hgf : (st.enter g).filled gs.fdepth g := by
    rw [← hfilled]
    exact .inr ⟨rfl, rfl⟩
  rw [hfilled] at hG₁
  have hok := (h.sets i gs hi).mono hle
  obtain ⟨glyphs, global, hash', hrun₂, htable, hroomy, hshrunk, total', hG₂, hmove⟩ :=
    insertRef_spec (s := s.setGlobal gs.fdepth hash₁) hG₁ hi hok hset hgf (fun f g' hf hf' => Story.filled_unique hf' hf)
      (fun id' g' ha => by have := h.total_pos hi ha; omega) (by omega) hlt id
  have hglobal₁ : (s.setGlobal gs.fdepth hash₁).globalGlyphs gs.fdepth = hash₁ := by
    rw [setGlobal_globalGlyphs, update_self]
  rw [hglobal₁] at hshrunk
  unfold AddGlyph
  rw [hi]
  simp only [deref, ok_bind]
  rw [hrun₁, ok_bind]
  rw [hrun₂]
  refine ⟨_, rfl, ?_, ?_, ?_⟩
  · have hsame : total' = fun g' =>
        st.held g' + ((s.sets.set i (some { gs with hash := hash' })).map (setRefs g')).sum := by
      funext g'
      have hsum := refs_set hi (some { gs with hash := hash' }) g'
      have hset' : setRefs g' (some { gs with hash := hash' }) = refsIn hash'.table g' := rfl
      have := hmove g'
      omega
    rw [hsame] at hG₂
    exact hG₂.withSets _
  · refine h.update hi (a := update (st.added i) id (some g)) ?_ rfl hle
    rintro gs' ⟨⟩
    refine ⟨htable, fun id' g' ha => ?_, hok.refcnt⟩
    by_cases hid : id' = id
    · subst hid
      rw [update_self] at ha
      cases ha
      exact hgf
    · rw [update_of_ne hid] at ha
      exact hok.filled id' g' ha
  · intro j k' hjk gs' hj
    have hroom' : (((st.enter g).setAdded i id (some g)).setRoom (st.room.map fun r => (r.1, r.2 - 1))).room =
        some (i, k) := by
      rw [hroom]
      rfl
    rw [hroom'] at hjk
    cases hjk
    have hj' : ((s.sets.set i (some { gs with hash := hash' }))[i]?).join = some gs' := hj
    rw [set?_set hi, if_pos rfl] at hj'
    cases hj'
    refine ⟨hroomy, ?_⟩
    have ht := hG₂.table gs.fdepth
    rw [setGlobal_globalGlyphs, update_self] at ht ⊢
    exact hroom₁.shrunk hshrunk ht

/-- A glyph is made; the caller holds the first reference. -/
theorem allocateGlyph_inv (h : Inv s st) (f : Format) (sha1 : Sha1) :
    Inv { s.setGlyph s.next (some ⟨1, sha1⟩) with next := s.next + 1 } (st.newGlyph s.next f) := by
  have hfresh : s.glyphs s.next = none := h.glyphs.fresh s.next le_rfl
  have hzero : st.held s.next + s.refs s.next = 0 := by
    have := h.glyphs.refcnt s.next
    rw [hfresh] at this
    exact this
  have hshaOf : ∀ g, g ≠ s.next → shaOf (update s.glyphs s.next (some ⟨1, sha1⟩)) g = shaOf s.glyphs g := by
    intro g hne
    unfold shaOf
    rw [update_of_ne hne]
  have hother : ∀ f', ∀ r ∈ entries (s.globalGlyphs f').table, ∀ g, r.glyph = .glyph g → g ≠ s.next := by
    rintro f' r hr g hg rfl
    have := h.glyphs.allocated f' r hr s.next hg
    rw [hfresh] at this
    cases this
  have hfilled : ∀ f' g, g ≠ s.next → ((st.newGlyph s.next f).filled f' g ↔ st.filled f' g) := by
    intro f' g hne
    unfold Story.filled Story.newGlyph
    dsimp only
    rw [update_of_ne hne, update_of_ne hne]
  have hnew : ∀ f', ¬(st.newGlyph s.next f).filled f' s.next := by
    intro f' hf
    have := hf.1
    unfold Story.newGlyph at this
    dsimp only at this
    rw [update_self] at this
    cases this
  refine ⟨⟨h.glyphs.table, fun f' => ?_, fun f' r => ?_, fun g => ?_, fun g glyph hg => ?_, fun g hlt => ?_⟩,
    fun j gs hj => ?_, h.room⟩
  · exact (h.glyphs.distinct f').congr fun r hr g hg => hshaOf g (hother f' r hr g hg)
  · show r ∈ entries (s.globalGlyphs f').table ↔ _
    rw [h.glyphs.entries f' r]
    constructor
    · rintro ⟨g, sha1', rfl, hsha, hf⟩
      have hne : g ≠ s.next := hother f' _ ((h.glyphs.entries f' _).2 ⟨g, sha1', rfl, hsha, hf⟩) g rfl
      exact ⟨g, sha1', rfl, (hshaOf g hne).trans hsha, (hfilled f' g hne).2 hf⟩
    · rintro ⟨g, sha1', rfl, hsha, hf⟩
      have hne : g ≠ s.next := by
        rintro rfl
        exact hnew f' hf
      exact ⟨g, sha1', rfl, (hshaOf g hne).symm.trans hsha, (hfilled f' g hne).1 hf⟩
  · show (update st.held s.next 1) g + s.refs g = (update s.glyphs s.next (some ⟨1, sha1⟩) g).elim 0 (·.refcnt)
    by_cases heq : g = s.next
    · subst heq
      rw [update_self, update_self]
      simp only [Option.elim]
      omega
    · rw [update_of_ne heq, update_of_ne heq]
      exact h.glyphs.refcnt g
  · have hg' : update s.glyphs s.next (some ⟨1, sha1⟩) g = some glyph := hg
    by_cases heq : g = s.next
    · subst heq
      rw [update_self] at hg'
      cases hg'
      exact one_pos
    · rw [update_of_ne heq] at hg'
      exact h.glyphs.pos g glyph hg'
  · have hlt' : s.next + 1 ≤ g := hlt
    show update s.glyphs s.next (some ⟨1, sha1⟩) g = none
    rw [update_of_ne (by omega)]
    exact h.glyphs.fresh g (by omega)
  · have hok := h.sets j gs hj
    refine ⟨hok.table, fun id g ha => ?_, hok.refcnt⟩
    have hpos := h.total_pos hj ha
    have hne : g ≠ s.next := by
      rintro rfl
      omega
    exact (hfilled _ g hne).2 (hok.filled id g ha)

/-- The caller gets a reference to a glyph that is found. -/
theorem holdGlyph_inv (h : Inv s st) (f : Format)
    (hlt : ∀ g glyph, s.glyphs g = some glyph → glyph.sha1 = sha1 → glyph.refcnt + 1 < 2 ^ 32) :
    (holdGlyph s sha1 f = .ok (s, none)) ∨
      ∃ s' g, holdGlyph s sha1 f = .ok (s', some g) ∧ Inv s' (st.setHeld g (st.held g + 1)) := by
  obtain ⟨found, hfind, hiff⟩ := FindGlyphByHash_spec h.glyphs sha1 f
  unfold holdGlyph
  rw [hfind, ok_bind]
  cases found with
  | none => exact .inl rfl
  | some g =>
    obtain ⟨hsha, -⟩ := (hiff g).1 rfl
    obtain ⟨glyph, hglyph, hsame⟩ := shaOf_eq_some.1 hsha
    have htotal : st.held g + s.refs g = glyph.refcnt := by
      have := h.glyphs.refcnt g
      rw [hglyph] at this
      exact this
    have hmod : (glyph.refcnt + 1) % 2 ^ 32 = glyph.refcnt + 1 := Nat.mod_eq_of_lt (hlt g glyph hglyph hsame)
    refine .inr ⟨s.setGlyph g (some { glyph with refcnt := glyph.refcnt + 1 }), g, ?_, ?_, h.sets, h.room⟩
    · dsimp only
      rw [hglyph]
      simp only [deref, ok_bind]
      rw [hmod]
      rfl
    · have hG := h.glyphs.count hglyph (n := glyph.refcnt + 1) (by omega)
      have hsame : update (fun g => st.held g + s.refs g) g (glyph.refcnt + 1) =
          fun g' => update st.held g (st.held g + 1) g' + s.refs g' := by
        funext g'
        by_cases heq : g' = g
        · subst heq
          simp only [update_self]
          omega
        · simp only [update_of_ne heq]
      rw [hsame] at hG
      exact hG

/-! ### Glyph sets -/

/-- Both tables get room for `n` more glyphs, or nothing is promised. -/
theorem resizeGlyphSet_inv (h : Inv s st) (hi : s.set? i = some gs) (hh : Hashed (s.globalGlyphs gs.fdepth) hs)
    (hfit : gs.hash.tableEntries + n < 2 ^ 32) (hfit' : (s.globalGlyphs gs.fdepth).tableEntries + n < 2 ^ 32)
    (ok okGlobal : Bool) :
    ∃ s' b, ResizeGlyphSet s i n ok okGlobal = .ok (s', b) ∧ Inv s' (st.setRoom (if b then some (i, n) else none)) := by
  have hok := h.sets i gs hi
  obtain ⟨hash', b, hrun, htable, hrefs, hroom⟩ := hok.table.resize hfit s.glyphs ok
  have hsum : ∀ g, ((s.sets.set i (some { gs with hash := hash' })).map (setRefs g)).sum = s.refs g := by
    intro g
    have := refs_set hi (some { gs with hash := hash' }) g
    have hset : setRefs g (some { gs with hash := hash' }) = refsIn hash'.table g := rfl
    have := hrefs g
    omega
  have hsets : ∀ st' : Story, st'.added = st.added → st'.filled = st.filled → ∀ j gs',
      ((s.sets.set i (some { gs with hash := hash' }))[j]?).join = some gs' → SetOk gs' (st'.added j) st'.filled := by
    intro st' ha hf
    refine h.update hi (a := st.added i) ?_ (by rw [ha, update_eq_self]) fun f g hfg => by rw [hf]; exact hfg
    rintro gs' ⟨⟩
    rw [hf]
    exact ⟨htable, hok.filled, hok.refcnt⟩
  have hG := h.glyphs.withSets (s.sets.set i (some { gs with hash := hash' }))
  have hrefs' : (fun g => st.held g + s.refs g) =
      fun g => st.held g + ((s.sets.set i (some { gs with hash := hash' })).map (setRefs g)).sum := by
    funext g
    rw [hsum]
  unfold ResizeGlyphSet
  rw [hi]
  simp only [deref, ok_bind]
  rw [hrun, ok_bind]
  rw [setHash_eq hi]
  cases b with
  | false =>
    refine ⟨_, false, rfl, ?_, hsets _ rfl rfl, fun j k hjk => by cases hjk⟩
    rw [hrefs'] at hG
    exact hG
  | true =>
    obtain ⟨global, b', hrun', hG', hroom'⟩ := ResizeGlobal_spec hG hh hfit' okGlobal
    rw [hrun']
    refine ⟨_, b', rfl, ?_, hsets _ rfl rfl, ?_⟩
    · rw [hrefs'] at hG'
      exact hG'
    · intro j k hjk gs' hj
      cases b' with
      | false => cases hjk
      | true =>
        cases hjk
        have hj' : ((s.sets.set i (some { gs with hash := hash' }))[i]?).join = some gs' := hj
        rw [set?_set hi, if_pos rfl] at hj'
        cases hj'
        refine ⟨hroom rfl, ?_⟩
        rw [setGlobal_globalGlyphs, update_self]
        exact hroom' rfl

theorem setOk_refcnt (h : SetOk gs added filled) (hn : 0 < n) (hlt : n < 2 ^ 32) :
    SetOk { gs with refcnt := n } added filled := ⟨h.table, h.filled, hn, hlt⟩

/-- The number of resources of a glyph set changes, but not to 0. -/
theorem Inv.setRefcnt (h : Inv s st) (hi : s.set? i = some gs) (hn : 0 < n) (hlt : n < 2 ^ 32) :
    Inv { s with sets := s.sets.set i (some { gs with refcnt := n }) } st := by
  have hsum : ∀ g, ((s.sets.set i (some { gs with refcnt := n })).map (setRefs g)).sum = s.refs g := by
    intro g
    have := refs_set hi (some { gs with refcnt := n }) g
    have hset : setRefs g (some { gs with refcnt := n }) = refsIn gs.hash.table g := rfl
    omega
  refine ⟨?_, ?_, ?_⟩
  · have hG := h.glyphs.withSets (s.sets.set i (some { gs with refcnt := n }))
    have hrefs' : (fun g => st.held g + s.refs g) =
        fun g => st.held g + ((s.sets.set i (some { gs with refcnt := n })).map (setRefs g)).sum := by
      funext g
      rw [hsum]
    rw [hrefs'] at hG
    exact hG
  · refine h.update hi (a := st.added i) ?_ (by rw [update_eq_self]) fun _ _ h => h
    rintro gs' ⟨⟩
    exact setOk_refcnt (h.sets i gs hi) hn hlt
  · have := h.roomy hi (o := some { gs with refcnt := n }) (q := s.globalGlyphs gs.fdepth) (t := st)
      (by rintro gs' ⟨⟩; exact ⟨rfl, fun _ h => h⟩) (fun _ h => h) rfl
    rw [update_eq_self] at this
    exact this

theorem referenceGlyphSet_inv (h : Inv s st) (hi : s.set? i = some gs) (hlt : gs.refcnt + 1 < 2 ^ 32) :
    ∃ s', ReferenceGlyphSet s i = .ok s' ∧ Inv s' st := by
  unfold ReferenceGlyphSet
  rw [hi]
  simp only [deref, ok_bind]
  rw [Nat.mod_eq_of_lt hlt]
  exact ⟨_, rfl, h.setRefcnt hi (by omega) hlt⟩

/-- **A glyph set goes** with its last resource, and its references with it. -/
theorem freeGlyphSet_inv (h : Inv s st) (hi : s.set? i = some gs) (ok : Bool) :
    ∃ s', FreeGlyphSet s i ok = .ok s' ∧ Inv s' (st.setRoom none) := by
  have hok := h.sets i gs hi
  obtain ⟨hpos, hlt⟩ := hok.refcnt
  have hsub : (gs.refcnt + 2 ^ 32 - 1) % 2 ^ 32 = gs.refcnt - 1 := by omega
  unfold FreeGlyphSet
  have hderef : deref (some gs) = .ok gs := rfl
  rw [hi, hderef, ok_bind]
  dsimp only
  rw [hsub]
  by_cases hlast : gs.refcnt - 1 = 0
  swap
  · rw [if_pos hlast]
    have hinv := h.setRefcnt hi (n := gs.refcnt - 1) (by omega) (by omega)
    exact ⟨_, rfl, hinv.glyphs, hinv.sets, fun j k hjk => by cases hjk⟩
  rw [if_neg (not_not.2 hlast)]
  have hin : ∀ r ∈ entries gs.hash.table, ∀ g, r.glyph = .glyph g → st.filled gs.fdepth g := by
    intro r hr g hg
    obtain ⟨id, g', rfl, ha⟩ := (hok.table.holds.mem r).1 hr
    cases hg
    exact hok.filled id g ha
  have hle : ∀ g, refsIn gs.hash.table g ≤ st.held g + s.refs g := by
    intro g
    have := refsIn_le hi g
    omega
  have hone : ∀ f' g, st.filled f' g → st.filled gs.fdepth g → f' = gs.fdepth := fun f' g hf hf' =>
    Story.filled_unique hf' hf
  obtain ⟨s₁, hrun, hsets₁, hG⟩ := freeEntries_spec hone h.glyphs hin hle
  rw [hrun, ok_bind]
  have hsame : (fun g => st.held g + s.refs g - refsIn gs.hash.table g) =
      fun g => st.held g + ((s.sets.set i none).map (setRefs g)).sum := by
    funext g
    have hsum := refs_set hi none g
    have hset : setRefs g none = 0 := rfl
    omega
  rw [hsame] at hG
  -- whatever becomes of the global table, the sets are the same
  have hdone : ∀ s₂ : State, s₂.sets = s.sets → Glyphs s₂ st.filled (fun g => st.held g +
      ((s.sets.set i none).map (setRefs g)).sum) → Inv { s₂ with sets := s₂.sets.set i none } (st.setRoom none) := by
    intro s₂ hsets₂ hG₂
    rw [hsets₂]
    refine ⟨hG₂.withSets (s.sets.set i none), ?_, fun j k hjk => by cases hjk⟩
    intro j gs' hj
    have hj' : ((s.sets.set i none)[j]?).join = some gs' := hj
    rw [set?_set hi] at hj'
    by_cases hij : j = i
    · rw [if_pos hij] at hj'
      cases hj'
    · rw [if_neg hij] at hj'
      exact h.sets j gs' hj'
  by_cases hzero : (s₁.globalGlyphs gs.fdepth).tableEntries = 0
  · rw [if_pos hzero]
    have hempty : entries (s₁.globalGlyphs gs.fdepth).table = [] := by
      rcases hG.table gs.fdepth with heq | ⟨hs', hh'⟩
      · rw [heq]
        rfl
      · exact length_eq_zero_iff.1 (hh'.count.symm.trans hzero)
    have hrec : ({ s₁.globalGlyphs gs.fdepth with table := [], hashSet := none } : GlyphHashRec) = {} :=
      congrArg (GlyphHashRec.mk [] none) hzero
    refine ⟨_, rfl, ?_⟩
    rw [hrec]
    exact hdone _ hsets₁ (hG.retable (.inl rfl) (by rw [hempty]; exact .refl _))
  · rw [if_neg hzero]
    rcases hG.table gs.fdepth with heq | ⟨hs', hh'⟩
    · rw [heq] at hzero
      exact absurd rfl hzero
    · have hfit : (s₁.globalGlyphs gs.fdepth).tableEntries + 0 < 2 ^ 32 := by
        have := hh'.entries_lt
        omega
      obtain ⟨global, b, hrun', hG', -⟩ := ResizeGlobal_spec hG hh' hfit ok
      rw [hrun']
      exact ⟨_, rfl, hdone _ hsets₁ hG'⟩

/-- A new glyph set, and a global table for it if there is none. -/
theorem allocateGlyphSet_inv (h : Inv s st) (f : Format) (okGlobal okSet okTable : Bool) :
    Inv (AllocateGlyphSet s f okGlobal okSet okTable) (st.newSet s.sets.length) := by
  have hmem : (⟨32, 43, 41⟩ : GlyphHashSetRec) ∈ glyphHashSets := mem_cons_self
  -- nothing is known of a set that is not there
  have hst : ∀ {s' : State}, s'.sets = s.sets → Inv s' st → Inv s' (st.newSet s.sets.length) := by
    intro s' hsets hinv
    refine ⟨hinv.glyphs, fun j gs hj => ?_, fun j k hjk => by cases hjk⟩
    have hlt := set?_lt hj
    rw [hsets] at hlt
    have hsame : (st.newSet s.sets.length).added j = st.added j := by
      unfold Story.newSet
      dsimp only
      rw [update_of_ne (by omega)]
    rw [hsame]
    exact hinv.sets j gs hj
  obtain ⟨s?, hs?⟩ : ∃ s?, s? = (if (s.globalGlyphs f).hashSet.isNone then
      (AllocateGlyphHash glyphHashSets[0]? okGlobal).map (s.setGlobal f) else some s) := ⟨_, rfl⟩
  have hstart : s? = none ∨ ∃ s₁, s? = some s₁ ∧ s₁.sets = s.sets ∧ Inv s₁ st := by
    rw [hs?]
    by_cases hnone : (s.globalGlyphs f).hashSet.isNone = true
    swap
    · rw [if_neg hnone]
      exact .inr ⟨s, rfl, rfl, h⟩
    rw [if_pos hnone]
    cases okGlobal with
    | false => exact .inl rfl
    | true =>
      obtain ⟨hash, hhash⟩ : ∃ hash, AllocateGlyphHash glyphHashSets[0]? true = some hash := ⟨_, rfl⟩
      obtain ⟨hh, hempty, -⟩ := AllocateGlyphHash_spec hhash hmem
      have hold : s.globalGlyphs f = {} := by
        rcases h.glyphs.table f with heq | ⟨hs, hh⟩
        · exact heq
        · rw [hh.hashSet] at hnone
          cases hnone
      rw [hhash]
      refine .inr ⟨_, rfl, rfl, ?_, h.sets, fun j k hjk gs hj => ?_⟩
      · exact h.glyphs.retable (.inr ⟨_, hh⟩) (by rw [hempty, hold]; exact .refl _)
      · obtain ⟨h₁, hs, hh', hle⟩ := h.room j k hjk gs hj
        refine ⟨h₁, ?_⟩
        rw [setGlobal_globalGlyphs]
        by_cases hf : gs.fdepth = f
        · rw [hf, hold] at hh'
          cases hh'.hashSet
        · rw [update_of_ne hf]
          exact ⟨hs, hh', hle⟩
  unfold AllocateGlyphSet
  rw [← hs?]
  rcases hstart with hnone | ⟨s₁, hsome, hsets₁, hinv₁⟩
  · rw [hnone]
    exact hst rfl h
  rw [hsome]
  cases okSet with
  | false => exact hst hsets₁ hinv₁
  | true =>
    cases okTable with
    | false => exact hst hsets₁ hinv₁
    | true =>
      obtain ⟨hash, hhash⟩ : ∃ hash, AllocateGlyphHash glyphHashSets[0]? true = some hash := ⟨_, rfl⟩
      obtain ⟨hh, hempty, -⟩ := AllocateGlyphHash_spec hhash hmem
      obtain ⟨new, hnew⟩ : ∃ new : GlyphSetRec, new = { refcnt := 1, fdepth := f, hash } := ⟨_, rfl⟩
      have hnewHash : new.hash = hash := by rw [hnew]
      rw [hhash]
      dsimp only
      rw [← hnew]
      have hinv := hst hsets₁ hinv₁
      have hget : ∀ j, ((s₁.sets ++ [some new])[j]?).join =
          if j = s.sets.length then some new else s₁.set? j := by
        intro j
        rw [← hsets₁]
        rcases lt_trichotomy j s₁.sets.length with hlt | rfl | hgt
        · rw [getElem?_append_left hlt, if_neg (by omega)]
          rfl
        · simp
        · unfold State.set?
          rw [if_neg (by omega), getElem?_eq_none (by rw [length_append, length_singleton]; omega),
            getElem?_eq_none (by omega)]
      have hadded : (st.newSet s.sets.length).added s.sets.length = fun _ => none := update_self ..
      refine ⟨?_, fun j gs hj => ?_, fun j k hjk => by cases hjk⟩
      · have hsum : ∀ g, ((s₁.sets ++ [some new]).map (setRefs g)).sum = s₁.refs g := by
          intro g
          have hzero : setRefs g (some new) = 0 := by
            show refsIn new.hash.table g = 0
            unfold refsIn
            rw [hnewHash, hempty]
            rfl
          rw [map_append, sum_append]
          simp only [map_cons]
          rw [hzero]
          rfl
        have hG := hinv.glyphs.withSets (s₁.sets ++ [some new])
        have hrefs : (fun g => (st.newSet s.sets.length).held g + s₁.refs g) = fun g =>
            (st.newSet s.sets.length).held g +
              ((s₁.sets ++ [some new]).map (setRefs g)).sum := by
          funext g
          rw [hsum]
        rw [hrefs] at hG
        exact hG
      · have hj' := (hget j).symm.trans hj
        by_cases hlast : j = s.sets.length
        · subst hlast
          rw [if_pos rfl] at hj'
          cases hj'
          rw [hadded, hnew]
          refine ⟨⟨⟨_, hh⟩, ?_⟩, (fun _ _ ha => by cases ha), Nat.one_pos, Nat.one_lt_two_pow (by omega)⟩
          rw [hempty]
          exact ⟨.nil, fun r => ⟨(fun hr => by cases hr), fun ⟨_, _, _, ha⟩ => by cases ha⟩⟩
        · rw [if_neg hlast] at hj'
          exact hinv.sets j gs hj'

/-! ### Runs -/

/-- What callers see to: they name glyph sets that are there, drop references that they hold, and add a
glyph they hold to a set of its format for which `ResizeGlyphSet` made room. -/
def Allowed : Outcome World → Op → Prop
  | .ok (s, _), .referenceGlyphSet i | .ok (s, _), .freeGlyphSet i _ | .ok (s, _), .resizeGlyphSet i _ _ _
  | .ok (s, _), .deleteGlyph i _ => (s.set? i).isSome
  | .ok (_, st), .freeGlyph g => 0 < st.held g
  | .ok (s, st), .addGlyph i g _ =>
    0 < st.held g ∧ (∃ gs ∈ s.set? i, gs.fdepth = st.format g) ∧ ∃ room ∈ st.room, room.1 = i ∧ 0 < room.2
  | _, _ => True

instance Allowed.decidable : ∀ o op, Decidable (Allowed o op)
  | .ok (s, _), .referenceGlyphSet i | .ok (s, _), .freeGlyphSet i _ | .ok (s, _), .resizeGlyphSet i _ _ _
  | .ok (s, _), .deleteGlyph i _ => inferInstanceAs (Decidable ((s.set? i).isSome = true))
  | .ok (_, st), .freeGlyph g => inferInstanceAs (Decidable (0 < st.held g))
  | .ok (s, st), .addGlyph i g _ => inferInstanceAs (Decidable
    (0 < st.held g ∧ (∃ gs ∈ s.set? i, gs.fdepth = st.format g) ∧ ∃ room ∈ st.room, room.1 = i ∧ 0 < room.2))
  | .ok _, .allocateGlyphSet _ _ _ _ | .ok _, .allocateGlyph _ _ _ | .ok _, .holdGlyph _ _ | .error _, _ => .isTrue trivial

/-- No other glyph with the SHA-1 of the glyph is in the global table. -/
def Twinless (s : State) (f : Format) (g : ℕ) : Prop :=
  ∀ g' < s.next, (∃ r ∈ entries (s.globalGlyphs f).table, r.glyph = .glyph g') →
    shaOf s.glyphs g' = shaOf s.glyphs g → g' = g

instance Twinless.decidable : Decidable (Twinless s f g) :=
  inferInstanceAs (Decidable (∀ g' < s.next, (∃ r ∈ entries (s.globalGlyphs f).table, r.glyph = .glyph g') →
    shaOf s.glyphs g' = shaOf s.glyphs g → g' = g))

/-- The steps that go right: a glyph that is added, or loses its last reference through a caller, has no
twin in the table; the global table is there when it is resized or a caller frees a glyph; and no counter
overflows. -/
def Meets : Outcome World → Op → Prop
  | .ok (s, _), .referenceGlyphSet i => ∀ gs ∈ s.set? i, gs.refcnt + 1 < 2 ^ 32
  | .ok (s, _), .resizeGlyphSet i n _ _ => ∀ gs ∈ s.set? i,
    (s.globalGlyphs gs.fdepth).hashSet.isSome ∧ gs.hash.tableEntries + n < 2 ^ 32 ∧
      (s.globalGlyphs gs.fdepth).tableEntries + n < 2 ^ 32
  | .ok (s, _), .holdGlyph _ sha1 => ∀ g < s.next, ∀ glyph ∈ s.glyphs g,
    glyph.sha1 = sha1 → glyph.refcnt + 1 < 2 ^ 32
  | .ok (s, st), .freeGlyph g => (s.globalGlyphs (st.format g)).hashSet.isSome ∧
    ∀ glyph ∈ s.glyphs g, glyph.refcnt = 1 → Twinless s (st.format g) g
  | .ok (s, st), .addGlyph _ g _ => ∀ glyph ∈ s.glyphs g, glyph.refcnt + 1 < 2 ^ 32 ∧ Twinless s (st.format g) g
  | _, _ => True

instance Meets.decidable : ∀ o op, Decidable (Meets o op)
  | .ok (s, _), .referenceGlyphSet i => inferInstanceAs (Decidable (∀ gs ∈ s.set? i, gs.refcnt + 1 < 2 ^ 32))
  | .ok (s, _), .resizeGlyphSet i n _ _ => inferInstanceAs (Decidable (∀ gs ∈ s.set? i,
    (s.globalGlyphs gs.fdepth).hashSet.isSome ∧ gs.hash.tableEntries + n < 2 ^ 32 ∧
      (s.globalGlyphs gs.fdepth).tableEntries + n < 2 ^ 32))
  | .ok (s, _), .holdGlyph _ sha1 => inferInstanceAs (Decidable (∀ g < s.next, ∀ glyph ∈ s.glyphs g,
    glyph.sha1 = sha1 → glyph.refcnt + 1 < 2 ^ 32))
  | .ok (s, st), .freeGlyph g => inferInstanceAs (Decidable ((s.globalGlyphs (st.format g)).hashSet.isSome ∧
    ∀ glyph ∈ s.glyphs g, glyph.refcnt = 1 → Twinless s (st.format g) g))
  | .ok (s, st), .addGlyph _ g _ => inferInstanceAs (Decidable (∀ glyph ∈ s.glyphs g,
    glyph.refcnt + 1 < 2 ^ 32 ∧ Twinless s (st.format g) g))
  | .ok _, .allocateGlyphSet _ _ _ _ | .ok _, .freeGlyphSet _ _ | .ok _, .allocateGlyph _ _ _ | .ok _, .deleteGlyph _ _
  | .error _, _ => .isTrue trivial

/-- What the store is for. -/
structure Sound (s : State) (st : Story) : Prop where
  findGlyph : ∀ i id, (s.set? i).isSome → FindGlyph s i id = .ok (st.added i id)
  findByHash : ∀ f sha1, ∃ found, FindGlyphByHash s sha1 f = .ok found ∧
    ∀ g, found = some g ↔ shaOf s.glyphs g = some sha1 ∧ st.filled f g
  once : ∀ f g, (s.glyphs g).isSome ∧ st.filled f g → refsIn (s.globalGlyphs f).table g = 1
  only : ∀ f g, ¬((s.glyphs g).isSome ∧ st.filled f g) → refsIn (s.globalGlyphs f).table g = 0
  live : ∀ g, (s.glyphs g).isSome ↔ 0 < st.held g + s.refs g
  refcnt : ∀ g glyph, s.glyphs g = some glyph → glyph.refcnt = st.held g + s.refs g
  globalCount : ∀ f, (s.globalGlyphs f).tableEntries = (entries (s.globalGlyphs f).table).length
  setCount : ∀ i gs, s.set? i = some gs → gs.hash.tableEntries = (entries gs.hash.table).length

theorem Inv.sound (h : Inv s st) : Sound s st := by
  refine ⟨fun i id hi => ?_, fun f sha1 => FindGlyphByHash_spec h.glyphs sha1 f, fun f g hg => ?_, fun f g hg => ?_,
    fun g => h.glyphs.live, fun g glyph hg => ?_, fun f => ?_, fun i gs hi => ?_⟩
  · obtain ⟨gs, hgs⟩ := isSome_iff_exists.1 hi
    exact FindGlyph_spec h hgs id
  · obtain ⟨sha1, hsha⟩ := isSome_iff_exists.1 (shaOf_isSome ▸ hg.1)
    have hperm := perm_cons_erase (h.glyphs.mem hsha hg.2)
    have hd := (h.glyphs.distinct f).perm hperm
    rw [refsIn_perm hperm, countP_cons_glyph]
    have hrest : ((entries (s.globalGlyphs f).table).erase ⟨signatureOf sha1, .glyph g⟩).countP (·.glyph = .glyph g) = 0 := by
      refine countP_eq_zero.2 fun r hr hglyph => ?_
      obtain ⟨g', sha1', rfl, hsha', -⟩ := (h.glyphs.entries f r).1 (mem_of_mem_erase hr)
      obtain rfl : g' = g := Slot.glyph.inj (of_decide_eq_true hglyph)
      rw [hsha] at hsha'
      cases hsha'
      refine rel_of_pairwise_cons hd hr ⟨rfl, ?_⟩
      rintro - g₁ g₂ ⟨⟩ ⟨⟩ glyph₁ glyph₂ hglyph₁ hglyph₂
      rw [hglyph₁] at hglyph₂
      cases hglyph₂
      rfl
    rw [hrest]
    unfold one
    rw [if_pos rfl]
  · refine countP_eq_zero.2 fun r hr hglyph => hg ?_
    obtain ⟨g', sha1', rfl, hsha', hf⟩ := (h.glyphs.entries f r).1 hr
    obtain rfl : g' = g := Slot.glyph.inj (of_decide_eq_true hglyph)
    exact ⟨by rw [← shaOf_isSome, hsha']; rfl, hf⟩
  · have := h.glyphs.refcnt g
    rw [hg] at this
    exact this.symm
  · rcases h.glyphs.table f with hempty | ⟨hs, hh⟩
    · rw [hempty]
      rfl
    · exact hh.count
  · obtain ⟨hs, hh⟩ := (h.sets i gs hi).table.hashed
    exact hh.count

theorem Twinless.noTwin (h : Inv s st) (ht : Twinless s f g) : NoTwin s st.filled f g := by
  intro g' hf hsome hsame
  obtain ⟨sha1, hsha⟩ := isSome_iff_exists.1 hsome
  exact ht g' (h.glyphs.lt (by rw [← shaOf_isSome]; exact hsome)) ⟨_, h.glyphs.mem hsha hf, rfl⟩ hsame


theorem Inv.hashed (h : Inv s st) (hsome : (s.globalGlyphs f).hashSet.isSome) : ∃ hs, Hashed (s.globalGlyphs f) hs := by
  refine (h.glyphs.table f).resolve_left fun hempty => ?_
  rw [hempty] at hsome
  cases hsome

/-- **A step keeps the invariant**, and does not fault. -/
theorem exec_spec {op : Op} (h : Inv s st) (ha : Allowed (.ok (s, st)) op) (hm : Meets (.ok (s, st)) op) :
    ∃ s' st', exec (s, st) op = .ok (s', st') ∧ Inv s' st' := by
  cases op with
  | allocateGlyphSet f okGlobal okSet okTable => exact ⟨_, _, rfl, allocateGlyphSet_inv h f okGlobal okSet okTable⟩
  | referenceGlyphSet i =>
    obtain ⟨gs, hi⟩ := isSome_iff_exists.1 ha
    obtain ⟨s', hrun, hinv⟩ := referenceGlyphSet_inv h hi (hm gs hi)
    exact ⟨s', st, by rw [exec, hrun]; rfl, hinv⟩
  | freeGlyphSet i ok =>
    obtain ⟨gs, hi⟩ := isSome_iff_exists.1 ha
    obtain ⟨s', hrun, hinv⟩ := freeGlyphSet_inv h hi ok
    exact ⟨s', _, by rw [exec, hrun]; rfl, hinv⟩
  | resizeGlyphSet i n ok okGlobal =>
    obtain ⟨gs, hi⟩ := isSome_iff_exists.1 ha
    obtain ⟨hthere, hfit, hfit'⟩ := hm gs hi
    obtain ⟨hs, hh⟩ := h.hashed hthere
    obtain ⟨s', b, hrun, hinv⟩ := resizeGlyphSet_inv h hi hh hfit hfit' ok okGlobal
    exact ⟨s', _, by rw [exec, hrun]; rfl, hinv⟩
  | allocateGlyph f sha1 ok =>
    cases ok with
    | false => exact ⟨s, st, rfl, h⟩
    | true => exact ⟨_, _, rfl, allocateGlyph_inv h f sha1⟩
  | holdGlyph f sha1 =>
    have hlt : ∀ g glyph, s.glyphs g = some glyph → glyph.sha1 = sha1 → glyph.refcnt + 1 < 2 ^ 32 := fun g glyph hg =>
      hm g (h.glyphs.lt (by rw [hg]; rfl)) glyph hg
    rcases holdGlyph_inv h f hlt with hrun | ⟨s', g, hrun, hinv⟩
    · exact ⟨s, st, by rw [exec, hrun]; rfl, h⟩
    · exact ⟨s', _, by rw [exec, hrun]; rfl, hinv⟩
  | freeGlyph g =>
    obtain ⟨hthere, htwin⟩ := hm
    obtain ⟨hs, hh⟩ := h.hashed hthere
    have ha' : 0 < st.held g := ha
    obtain ⟨glyph, hg⟩ := isSome_iff_exists.1 ((h.glyphs.live (g := g)).2 (by omega))
    have hlast : st.held g + s.refs g = 1 → NoTwin s st.filled (st.format g) g := by
      intro hone
      refine Twinless.noTwin h (htwin glyph hg ?_)
      have := h.glyphs.refcnt g
      rw [hg] at this
      exact this.symm.trans hone
    obtain ⟨s', hrun, hinv⟩ := freeGlyph_inv h ha' hh hlast
    exact ⟨s', _, by rw [exec, hrun]; rfl, hinv⟩
  | addGlyph i g id =>
    obtain ⟨hheld, ⟨gs, hi, hformat⟩, ⟨j, n⟩, hroom, hj, hn⟩ := ha
    obtain rfl : j = i := hj
    obtain ⟨k, rfl⟩ : ∃ k, n = k + 1 := ⟨n - 1, by dsimp only at hn; omega⟩
    obtain ⟨glyph, hg⟩ := isSome_iff_exists.1 ((h.glyphs.live (g := g)).2 (by omega))
    obtain ⟨hlt, htwin⟩ := hm glyph hg
    rw [← hformat] at htwin
    have hcount : st.held g + s.refs g = glyph.refcnt := by
      have := h.glyphs.refcnt g
      rw [hg] at this
      exact this
    obtain ⟨s', hrun, hinv⟩ := addGlyph_inv h hi hroom hheld hformat.symm (Twinless.noTwin h htwin) (by omega) id
    exact ⟨s', _, by rw [exec, hrun]; rfl, hinv⟩
  | deleteGlyph i id =>
    obtain ⟨gs, hi⟩ := isSome_iff_exists.1 ha
    obtain ⟨s', b, hrun, hinv⟩ := deleteGlyph_inv h hi id
    exact ⟨s', _, by rw [exec, hrun]; rfl, hinv⟩

theorem inv_init : Inv {} {} := by
  refine ⟨⟨fun _ => .inl rfl, fun _ => .nil, fun f r => ⟨(fun hr => by cases hr), ?_⟩, fun _ => rfl,
    fun g glyph hg => (by cases hg), fun _ _ => rfl⟩, fun i gs hi => ?_, fun i k hroom => by cases hroom⟩
  · rintro ⟨g, sha1, rfl, hsha, -⟩
    cases hsha
  · cases hi

/-- **The glyph store**: a run whose steps are allowed and go right ends, and every state of it is sound. -/
theorem glyph_store_sound {ops : List Op}
    (h : AllSteps step (fun w op => Allowed w op ∧ Meets w op) (.ok ({}, {})) ops) :
    ∃ s st, run step (.ok ({}, {})) ops = .ok (s, st) ∧ Sound s st := by
  have hrun : ∃ s st, run step (.ok ({}, {})) ops = .ok (s, st) ∧ Inv s st := by
    refine AllSteps.invariant (P := fun w => ∃ s st, w = .ok (s, st) ∧ Inv s st) ?_ h ⟨{}, {}, rfl, inv_init⟩
    rintro w op ⟨ha, hm⟩ ⟨s, st, rfl, hinv⟩
    obtain ⟨s', st', hexec, hinv'⟩ := exec_spec hinv ha hm
    exact ⟨s', st', hexec, hinv'⟩
  obtain ⟨s, st, heq, hinv⟩ := hrun
  exact ⟨s, st, heq, hinv.sound⟩

/-- A glyph is added twice under different ids, found again, and deleted. -/
theorem glyph_store_sound_shared :
    ∃ s st, run step (.ok ({}, {})) [.allocateGlyphSet 0 true true true, .allocateGlyph 0 5 true,
      .resizeGlyphSet 0 2 true true, .addGlyph 0 0 7, .freeGlyph 0, .holdGlyph 0 5, .addGlyph 0 0 8,
      .deleteGlyph 0 7] = .ok (s, st) ∧ Sound s st := by
  exact glyph_store_sound (by decide +kernel)

/-- Two glyphs with the same SHA-1: when the second one is freed, the entry of the first one goes. And the
global table goes with the only glyph of its format, while another set still needs it. -/
theorem glyph_store_unsound :
    (AllSteps step Allowed (.ok ({}, {})) [.allocateGlyphSet 0 true true true, .allocateGlyph 0 5 true,
        .allocateGlyph 0 5 true, .resizeGlyphSet 0 2 true true, .addGlyph 0 0 7, .freeGlyph 0, .addGlyph 0 1 8,
        .freeGlyph 1] ∧
      ∃ s st, run step (.ok ({}, {})) [.allocateGlyphSet 0 true true true, .allocateGlyph 0 5 true,
        .allocateGlyph 0 5 true, .resizeGlyphSet 0 2 true true, .addGlyph 0 0 7, .freeGlyph 0, .addGlyph 0 1 8,
        .freeGlyph 1] = .ok (s, st) ∧ ¬Sound s st) ∧
    AllSteps step Allowed (.ok ({}, {})) [.allocateGlyphSet 0 true true true, .allocateGlyphSet 0 true true true,
        .freeGlyphSet 0 true, .resizeGlyphSet 1 1 true true] ∧
      run step (.ok ({}, {})) [.allocateGlyphSet 0 true true true, .allocateGlyphSet 0 true true true,
        .freeGlyphSet 0 true, .resizeGlyphSet 1 1 true true] = .error .fault := by
  refine ⟨⟨by decide +kernel, _, _, rfl, fun h => ?_⟩, by decide +kernel, rfl⟩
  exact absurd (h.once 0 0 (by decide +kernel)) (by decide +kernel)

end Xenia.Xext.Glyph
