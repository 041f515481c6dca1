import Xenia.Xext.GlyphTable

/-!
# Glyphs and the global tables

`Glyphs` is the invariant of the glyphs and the global tables, for given numbers of references:
`FreeGlyph_spec` drops a reference, `enterGlobal_spec` puts a glyph into the table. `Sets` is the
invariant of the tables of the glyph sets.
-/

namespace Xenia.Xext.Glyph

open Xenia.Lib List Function Option

variable {s s' : State} {hash hash' : GlyphHashRec} {hs : GlyphHashSetRec} {r r' : GlyphRefRec} {i k g g' id n : ℕ}
  {f f' : Format} {sha1 : Sha1} {glyphs glyphs' : ℕ → Option GlyphRec} {glyph : GlyphRec}
  {table table' : List GlyphRefRec}

/-! ### SHA-1 -/

def shaOf (glyphs : ℕ → Option GlyphRec) (g : ℕ) : Option Sha1 := (glyphs g).map (·.sha1)

theorem shaOf_eq_some : shaOf glyphs g = some sha1 ↔ ∃ glyph, glyphs g = some glyph ∧ glyph.sha1 = sha1 := by
  exact map_eq_some_iff

theorem shaOf_isSome : (shaOf glyphs g).isSome = (glyphs g).isSome := isSome_map

/-- A new number of references. -/
theorem shaOf_update (h : glyphs g = some glyph) (n : ℕ) :
    shaOf (update glyphs g (some { glyph with refcnt := n })) = shaOf glyphs := by
  funext g'
  unfold shaOf
  by_cases hg : g' = g
  · subst hg
    rw [update_self, h]
    rfl
  · rw [update_of_ne hg]

/-- What tells entries apart depends on the SHA-1s of their glyphs only. -/
theorem Distinct.congr {global : Bool} {l : List GlyphRefRec} (h : Distinct glyphs global l)
    (hsame : ∀ r ∈ l, ∀ g, r.glyph = .glyph g → shaOf glyphs' g = shaOf glyphs g) : Distinct glyphs' global l := by
  refine List.Pairwise.imp_of_mem (fun {r r'} hr hr' hd hc => hd ⟨hc.1, fun hg g g' hrg hrg' glyph glyph' h₁ h₂ => ?_⟩) h
  have hs := hsame r hr g hrg
  have hs' := hsame r' hr' g' hrg'
  unfold shaOf at hs hs'
  rw [h₁] at hs
  rw [h₂] at hs'
  obtain ⟨glyph₁, hglyph₁, hsha₁⟩ := map_eq_some_iff.1 hs
  obtain ⟨glyph₂, hglyph₂, hsha₂⟩ := map_eq_some_iff.1 hs'
  have := hc.2 hg g g' hrg hrg' glyph₁ glyph₂ hglyph₁ hglyph₂
  exact hsha₁.symm.trans (this.trans hsha₂)

/-! ### The global tables -/

/-- `filled` are the glyphs that the table of a format holds, `total` the references of each glyph. -/
structure Glyphs (s : State) (filled : Format → ℕ → Prop) (total : ℕ → ℕ) : Prop where
  table : ∀ f, s.globalGlyphs f = {} ∨ ∃ hs, Hashed (s.globalGlyphs f) hs
  distinct : ∀ f, Distinct s.glyphs true (entries (s.globalGlyphs f).table)
  entries : ∀ f r, r ∈ entries (s.globalGlyphs f).table ↔
    ∃ g sha1, r = ⟨signatureOf sha1, .glyph g⟩ ∧ shaOf s.glyphs g = some sha1 ∧ filled f g
  refcnt : ∀ g, total g = (s.glyphs g).elim 0 (·.refcnt)
  pos : ∀ g glyph, s.glyphs g = some glyph → 0 < glyph.refcnt
  fresh : ∀ g, s.next ≤ g → s.glyphs g = none

variable {filled : Format → ℕ → Prop} {total : ℕ → ℕ}

section

variable (h : Glyphs s filled total)
include h

theorem Glyphs.live : (s.glyphs g).isSome ↔ 0 < total g := by
  rw [h.refcnt]
  cases hg : s.glyphs g with
  | none => simp
  | some glyph => simpa using h.pos g glyph hg

theorem Glyphs.lt (hg : (s.glyphs g).isSome) : g < s.next := by
  by_contra hle
  rw [h.fresh g (by omega)] at hg
  cases hg

theorem Glyphs.allocated (f : Format) :
    Allocated s.glyphs (s.globalGlyphs f).table := by
  intro r hr g hg
  obtain ⟨g', sha1, rfl, hsha, -⟩ := (h.entries f r).1 hr
  cases hg
  rw [← shaOf_isSome, hsha]
  rfl

theorem Glyphs.mem (hsha : shaOf s.glyphs g = some sha1) (hf : filled f g) :
    ⟨signatureOf sha1, .glyph g⟩ ∈ Glyph.entries (s.globalGlyphs f).table :=
  (h.entries f _).2 ⟨g, sha1, rfl, hsha, hf⟩

/-- What a lookup for a SHA-1 in a global table wants. -/
theorem Glyphs.hits (hr : r ∈ Glyph.entries (s.globalGlyphs f).table) (hits : Wanted.hits ⟨signatureOf sha1, some sha1⟩ s.glyphs r) :
    ∃ g, r = ⟨signatureOf sha1, .glyph g⟩ ∧ shaOf s.glyphs g = some sha1 ∧ filled f g := by
  obtain ⟨g, sha1', rfl, hsha, hf⟩ := (h.entries f r).1 hr
  obtain ⟨-, g', hg', hfound⟩ := hits
  cases hg'
  obtain ⟨glyph, hglyph, hsame⟩ := hfound sha1 rfl
  have : shaOf s.glyphs g = some sha1 := shaOf_eq_some.2 ⟨glyph, hglyph, hsame⟩
  rw [this] at hsha
  cases hsha
  exact ⟨g, rfl, this, hf⟩

end

/-- The glyph of a SHA-1 is found. -/
theorem hits_of_shaOf (hsha : shaOf glyphs g = some sha1) :
    Wanted.hits ⟨signatureOf sha1, some sha1⟩ glyphs ⟨signatureOf sha1, .glyph g⟩ := by
  obtain ⟨glyph, hglyph, hsame⟩ := shaOf_eq_some.1 hsha
  refine ⟨rfl, g, rfl, fun sha1' hsha1' => ⟨glyph, hglyph, ?_⟩⟩
  cases hsha1'
  exact hsame

/-- One SHA-1, one glyph. -/
theorem Glyphs.unique (h : Glyphs s filled total) (hsha : shaOf s.glyphs g = some sha1)
    (hsha' : shaOf s.glyphs g' = some sha1) (hf : filled f g) (hf' : filled f g') : g = g' := by
  have hc : Clash s.glyphs true ⟨signatureOf sha1, .glyph g⟩ ⟨signatureOf sha1, .glyph g'⟩ := by
    refine ⟨rfl, ?_⟩
    rintro - g₁ g₂ ⟨⟩ ⟨⟩ glyph glyph' hglyph hglyph'
    unfold shaOf at hsha hsha'
    rw [hglyph] at hsha
    rw [hglyph'] at hsha'
    exact some_inj.1 (hsha.trans hsha'.symm)
  have := (h.distinct f).eq (h.mem hsha hf) (h.mem hsha' hf') hc
  cases this
  rfl

/-- No other glyph with the SHA-1 of the glyph is in the table. -/
def NoTwin (s : State) (filled : Format → ℕ → Prop) (f : Format) (g : ℕ) : Prop :=
  ∀ g', filled f g' → (shaOf s.glyphs g').isSome → shaOf s.glyphs g' = shaOf s.glyphs g → g' = g

theorem Glyphs.noTwin (h : Glyphs s filled total) (hf : filled f g) : NoTwin s filled f g := by
  intro g' hf' hsome hsame
  obtain ⟨sha1, hsha⟩ := isSome_iff_exists.1 hsome
  exact h.unique hsha (hsame ▸ hsha) hf' hf

/-- A lookup by SHA-1 that faults nowhere. -/
theorem Glyphs.find (h : Glyphs s filled total) (hh : Hashed (s.globalGlyphs f) hs) (hsha : shaOf glyphs' = shaOf s.glyphs)
    (sha1 : Sha1) : ∃ i, FindGlyphRef glyphs' (s.globalGlyphs f) ⟨signatureOf sha1, some sha1⟩ = .ok (some i) ∧
      Answer glyphs' (s.globalGlyphs f) hs ⟨signatureOf sha1, some sha1⟩ i := by
  refine FindGlyphRef_spec hh fun _ r hr g hg => ?_
  rw [← shaOf_isSome, hsha, shaOf_isSome]
  exact h.allocated f r hr g hg

theorem hits_congr {w : Wanted} (hsha : shaOf glyphs' = shaOf glyphs) : w.hits glyphs' r ↔ w.hits glyphs r := by
  refine and_congr_right fun _ => exists_congr fun g => and_congr_right fun _ => forall₂_congr fun sha1 _ => ?_
  rw [← shaOf_eq_some, hsha, shaOf_eq_some]

theorem refGlyph_eq (hr : hash.table[i]? = some r) : refGlyph hash (some i) = .ok r.glyph := by
  unfold refGlyph
  simp only [deref, ok_bind, hr]
  rfl

theorem glyph_of_not_entry (hr : r.isEntry = false) : r.glyph = .null ∨ r.glyph = .deleted := by
  unfold GlyphRefRec.isEntry at hr
  cases hglyph : r.glyph with
  | null => exact .inl rfl
  | deleted => exact .inr rfl
  | glyph g =>
    rw [hglyph] at hr
    cases hr

/-! ### A reference is taken or dropped -/

/-- The table has the size it had, and no more entries. -/
def Shrunk (hash hash' : GlyphHashRec) : Prop := hash'.hashSet = hash.hashSet ∧ hash'.tableEntries ≤ hash.tableEntries

theorem Shrunk.refl : Shrunk hash hash := ⟨rfl, le_rfl⟩

@[simp] theorem setGlyph_glyphs (s : State) (g : ℕ) (o : Option GlyphRec) :
    (s.setGlyph g o).glyphs = update s.glyphs g o := rfl

@[simp] theorem setGlyph_globalGlyphs (s : State) (g : ℕ) (o : Option GlyphRec) :
    (s.setGlyph g o).globalGlyphs = s.globalGlyphs := rfl

/-- The number of references changes, but not to 0. -/
theorem Glyphs.count (h : Glyphs s filled total) (hg : s.glyphs g = some glyph) (hn : 0 < n) :
    Glyphs (s.setGlyph g (some { glyph with refcnt := n })) filled (update total g n) := by
  have hsha := shaOf_update hg n
  refine ⟨h.table, fun f => (h.distinct f).congr fun r _ g' _ => congrFun hsha g', fun f r => ?_, fun g' => ?_,
    fun g' glyph' hg' => ?_, fun g' hlt => ?_⟩
  · rw [setGlyph_glyphs, hsha]
    exact h.entries f r
  · rw [setGlyph_glyphs]
    by_cases heq : g' = g
    · subst heq
      simp
    · rw [update_of_ne heq, update_of_ne heq]
      exact h.refcnt g'
  · rw [setGlyph_glyphs] at hg'
    by_cases heq : g' = g
    · subst heq
      rw [update_self] at hg'
      cases hg'
      exact hn
    · rw [update_of_ne heq] at hg'
      exact h.pos g' glyph' hg'
  · have hne : g' ≠ g := by
      rintro rfl
      rw [h.fresh g' hlt] at hg
      cases hg
    rw [setGlyph_glyphs, update_of_ne hne]
    exact h.fresh g' hlt

@[simp] theorem setGlobal_glyphs (s : State) (f : Format) (hash : GlyphHashRec) :
    (s.setGlobal f hash).glyphs = s.glyphs := rfl

@[simp] theorem setGlobal_globalGlyphs (s : State) (f : Format) (hash : GlyphHashRec) :
    (s.setGlobal f hash).globalGlyphs = update s.globalGlyphs f hash := rfl

theorem setGlobal_self (s : State) (f : Format) : s.setGlobal f (s.globalGlyphs f) = s := by
  unfold State.setGlobal
  rw [update_eq_self]

theorem shaOf_free (g g' : ℕ) (hne : g' ≠ g) : shaOf (update glyphs g none) g' = shaOf glyphs g' := by
  unfold shaOf
  rw [update_of_ne hne]

theorem shaOf_freed (g : ℕ) : shaOf (update glyphs g none) g = none := by
  unfold shaOf
  rw [update_self]
  rfl

/-- A glyph goes, and its entry with it. -/
theorem Glyphs.drop (h : Glyphs s filled total) (hone : ∀ f', filled f' g → f' = f)
    (htable : hash = {} ∨ ∃ hs, Hashed hash hs) (hd : Distinct s.glyphs true (Glyph.entries hash.table))
    (hrest : ∀ r, r ∈ Glyph.entries hash.table ↔ r ∈ Glyph.entries (s.globalGlyphs f).table ∧ r.glyph ≠ .glyph g) :
    Glyphs ((s.setGlobal f hash).setGlyph g none) filled (update total g 0) := by
  -- no table has an entry for the glyph any more
  have hnew : ∀ f' r, r ∈ Glyph.entries (update s.globalGlyphs f hash f').table ↔
      r ∈ Glyph.entries (s.globalGlyphs f').table ∧ r.glyph ≠ .glyph g := by
    intro f' r
    by_cases hf : f' = f
    · subst hf
      rw [update_self]
      exact hrest r
    · rw [update_of_ne hf]
      refine ⟨fun hr => ⟨hr, fun hglyph => ?_⟩, fun hr => hr.1⟩
      obtain ⟨g', sha1, rfl, -, hfilled⟩ := (h.entries f' r).1 hr
      cases hglyph
      exact hf (hone f' hfilled)
  refine ⟨fun f' => ?_, fun f' => ?_, fun f' r => ?_, fun g' => ?_, fun g' glyph' hg' => ?_, fun g' hlt => ?_⟩
  · rw [setGlyph_globalGlyphs, setGlobal_globalGlyphs]
    by_cases hf : f' = f
    · subst hf
      rw [update_self]
      exact htable
    · rw [update_of_ne hf]
      exact h.table f'
  · rw [setGlyph_globalGlyphs, setGlyph_glyphs]
    have hdist : Distinct s.glyphs true (Glyph.entries (update s.globalGlyphs f hash f').table) := by
      by_cases hf : f' = f
      · subst hf
        rw [update_self]
        exact hd
      · rw [update_of_ne hf]
        exact h.distinct f'
    refine hdist.congr fun r hr g' hg' => shaOf_free g g' ?_
    rintro rfl
    exact ((hnew f' r).1 hr).2 hg'
  · rw [setGlyph_globalGlyphs, setGlobal_globalGlyphs, setGlyph_glyphs, hnew, h.entries]
    constructor
    · rintro ⟨⟨g', sha1, rfl, hsha, hfilled⟩, hne⟩
      have hne : g' ≠ g := fun heq => hne (by rw [heq])
      exact ⟨g', sha1, rfl, (shaOf_free g g' hne).trans hsha, hfilled⟩
    · rintro ⟨g', sha1, rfl, hsha, hfilled⟩
      have hne : g' ≠ g := by
        rintro rfl
        rw [shaOf_freed] at hsha
        cases hsha
      exact ⟨⟨g', sha1, rfl, (shaOf_free g g' hne).symm.trans hsha, hfilled⟩, fun heq => hne (Slot.glyph.inj heq)⟩
  · rw [setGlyph_glyphs]
    by_cases heq : g' = g
    · subst heq
      simp
    · rw [update_of_ne heq, update_of_ne heq]
      exact h.refcnt g'
  · rw [setGlyph_glyphs] at hg'
    by_cases heq : g' = g
    · subst heq
      rw [update_self] at hg'
      cases hg'
    · rw [update_of_ne heq] at hg'
      exact h.pos g' glyph' hg'
  · rw [setGlyph_glyphs]
    by_cases heq : g' = g
    · rw [heq, update_self]
    · rw [update_of_ne heq]
      exact h.fresh g' hlt

/-- The entry of a glyph whose last reference is gone is removed, as far as there is one. -/
theorem removeGlobal_spec (h : Glyphs s filled total) (hh : Hashed (s.globalGlyphs f) hs) (hg : s.glyphs g = some glyph)
    (hone : ∀ f', filled f' g → f' = f) (htwin : NoTwin s filled f g) :
    ∃ hash, removeGlobal (s.setGlyph g (some { glyph with refcnt := n })) { glyph with refcnt := n } f =
        .ok ((s.setGlyph g (some { glyph with refcnt := n })).setGlobal f hash) ∧
      Glyphs ((s.setGlobal f hash).setGlyph g none) filled (update total g 0) ∧
      Shrunk (s.globalGlyphs f) hash := by
  have hsha := shaOf_update hg n
  have hshag : shaOf s.glyphs g = some glyph.sha1 := shaOf_eq_some.2 ⟨glyph, hg, rfl⟩
  obtain ⟨i, hfind, hanswer⟩ := h.find hh hsha glyph.sha1
  unfold removeGlobal
  dsimp only
  rw [setGlyph_glyphs, setGlyph_globalGlyphs, hfind, ok_bind]
  dsimp only
  cases hanswer with
  | entry r hr hentry hits =>
    -- without a twin it is the entry of this glyph
    have hin : r ∈ Glyph.entries (s.globalGlyphs f).table := mem_entries.2 ⟨i, hr, hentry⟩
    obtain ⟨g', rfl, hsha', hfilled⟩ := h.hits hin ((hits_congr hsha).1 hits)
    obtain rfl : g' = g := htwin g' hfilled (by rw [hsha']; rfl) (hsha'.trans hshag.symm)
    have hperm := entries_set_none (q := ⟨0, .deleted⟩) hr hentry rfl
    have hpos := hh.pos hr hentry
    have hlt := hh.entries_lt
    have hsub : ((s.globalGlyphs f).tableEntries + 2 ^ 32 - 1) % 2 ^ 32 = (s.globalGlyphs f).tableEntries - 1 := by omega
    rw [refGlyph_eq hr]
    rw [hsub]
    have hd := (h.distinct f).perm hperm
    refine ⟨_, rfl, ?_, rfl, Nat.sub_le _ _⟩
    refine h.drop hone (.inr ⟨hs, hh.remove hr hentry rfl⟩) hd.of_cons fun r => ?_
    rw [hperm.mem_iff, mem_cons]
    constructor
    · intro hmem
      refine ⟨.inr hmem, fun hglyph => ?_⟩
      obtain ⟨g'', sha1, rfl, hsha'', -⟩ := (h.entries f r).1 (hperm.symm.subset (.tail _ hmem))
      cases hglyph
      rw [hshag] at hsha''
      cases hsha''
      refine rel_of_pairwise_cons hd hmem ⟨rfl, ?_⟩
      rintro - g₁ g₂ ⟨⟩ ⟨⟩ glyph₁ glyph₂ hglyph₁ hglyph₂
      rw [hglyph₁] at hglyph₂
      cases hglyph₂
      rfl
    · rintro ⟨rfl | hmem, hne⟩
      · exact absurd rfl hne
      · exact hmem
  | free r hr hentry hreach hnone =>
    have hsame := setGlobal_self (s.setGlyph g (some { glyph with refcnt := n })) f
    rw [setGlyph_globalGlyphs] at hsame
    refine ⟨s.globalGlyphs f, ?_, ?_, .refl⟩
    · rw [refGlyph_eq hr, hsame]
      rcases glyph_of_not_entry hentry with hglyph | hglyph <;> rw [hglyph] <;> rfl
    · refine h.drop hone (h.table f) (h.distinct f) fun r => ⟨fun hmem => ⟨hmem, fun hglyph => ?_⟩, fun hr => hr.1⟩
      obtain ⟨g', sha1, rfl, hsha', -⟩ := (h.entries f r).1 hmem
      cases hglyph
      rw [hshag] at hsha'
      cases hsha'
      exact hnone _ hmem ((hits_congr hsha).2 (hits_of_shaOf hshag))

/-- **A reference is dropped.** The glyph goes with the last one. -/
theorem FreeGlyph_spec (h : Glyphs s filled total) (hh : Hashed (s.globalGlyphs f) hs) (hpos : 0 < total g)
    (hone : ∀ f', filled f' g → f' = f) (htwin : total g = 1 → NoTwin s filled f g) :
    ∃ glyphs hash, FreeGlyph s g f = .ok { s.setGlobal f hash with glyphs } ∧
      Glyphs { s.setGlobal f hash with glyphs } filled (update total g (total g - 1)) ∧
      Shrunk (s.globalGlyphs f) hash := by
  obtain ⟨glyph, hg⟩ := isSome_iff_exists.1 (h.live.2 hpos)
  have htotal : total g = glyph.refcnt := by rw [h.refcnt g, hg]; rfl
  unfold FreeGlyph
  have hcheck : CheckDuplicates (s.globalGlyphs f) = .ok () := by
    unfold CheckDuplicates
    rw [hh.hashSet]
    rfl
  rw [hcheck, hg]
  simp only [deref, ok_bind]
  rw [if_neg (by omega), htotal]
  by_cases hlast : glyph.refcnt - 1 = 0
  · rw [hlast]
    obtain ⟨hash, hrun, hG, hshrunk⟩ := removeGlobal_spec (n := 0) h hh hg hone (htwin (by omega))
    rw [hrun, ok_bind]
    refine ⟨_, hash, ?_, hG, hshrunk⟩
    unfold State.setGlyph State.setGlobal
    simp only [update_idem]
    rfl
  · rw [if_pos hlast]
    refine ⟨update s.glyphs g (some { glyph with refcnt := glyph.refcnt - 1 }), s.globalGlyphs f, ?_, ?_, .refl⟩
    · rw [setGlobal_self]
      rfl
    · rw [setGlobal_self]
      exact h.count hg (pos_of_ne_zero hlast)

/-! ### A glyph enters the global table -/

/-- The table of format `f` holds the glyph `g` as well. -/
def alsoFilled (filled : Format → ℕ → Prop) (f : Format) (g : ℕ) : Format → ℕ → Prop :=
  fun f' g' => filled f' g' ∨ f' = f ∧ g' = g

/-- A table with room for `n` more entries. -/
def Roomy (hash : GlyphHashRec) (n : ℕ) : Prop := ∃ hs, Hashed hash hs ∧ hash.tableEntries + n ≤ hs.entries

/-- The table holds a new glyph. -/
theorem Glyphs.enter (h : Glyphs s filled total) (hh : Hashed hash hs) (hsha : shaOf s.glyphs g = some sha1)
    (htwin : NoTwin s filled f g) (hnot : ¬filled f g)
    (hperm : (Glyph.entries hash.table).Perm (⟨signatureOf sha1, .glyph g⟩ :: Glyph.entries (s.globalGlyphs f).table)) :
    Glyphs (s.setGlobal f hash) (alsoFilled filled f g) total := by
  refine ⟨fun f' => ?_, fun f' => ?_, fun f' r => ?_, h.refcnt, h.pos, h.fresh⟩
  · rw [setGlobal_globalGlyphs]
    by_cases hf : f' = f
    · subst hf
      rw [update_self]
      exact .inr ⟨hs, hh⟩
    · rw [update_of_ne hf]
      exact h.table f'
  · rw [setGlobal_globalGlyphs]
    by_cases hf : f' = f
    · subst hf
      rw [update_self]
      refine Distinct.perm (pairwise_cons.2 ⟨fun r hr hc => hnot ?_, h.distinct f'⟩) hperm.symm
      -- an entry that clashes with the new one is that of a twin
      obtain ⟨g', sha1', rfl, hsha', hfilled⟩ := (h.entries f' r).1 hr
      obtain ⟨glyph, hglyph, hsame⟩ := shaOf_eq_some.1 hsha
      obtain ⟨glyph', hglyph', hsame'⟩ := shaOf_eq_some.1 hsha'
      have := hc.2 rfl g g' rfl rfl glyph glyph' hglyph hglyph'
      obtain rfl : g' = g := htwin g' hfilled (by rw [hsha']; rfl) (by rw [hsha, hsha', ← hsame, ← hsame', this])
      exact hfilled
    · rw [update_of_ne hf]
      exact h.distinct f'
  · rw [setGlobal_globalGlyphs, setGlobal_glyphs]
    by_cases hf : f' = f
    · subst hf
      rw [update_self, hperm.mem_iff, mem_cons, h.entries]
      constructor
      · rintro (rfl | ⟨g', sha1', rfl, hsha', hfilled⟩)
        · exact ⟨g, sha1, rfl, hsha, .inr ⟨rfl, rfl⟩⟩
        · exact ⟨g', sha1', rfl, hsha', .inl hfilled⟩
      · rintro ⟨g', sha1', rfl, hsha', hfilled | ⟨-, rfl⟩⟩
        · exact .inr ⟨g', sha1', rfl, hsha', hfilled⟩
        · rw [hsha] at hsha'
          cases hsha'
          exact .inl rfl
    · rw [update_of_ne hf, h.entries]
      refine exists_congr fun g' => exists_congr fun sha1' => and_congr_right fun _ => and_congr_right fun _ => ?_
      exact ⟨.inl, fun hfilled => hfilled.elim id fun heq => absurd heq.1 hf⟩

theorem enterGlobal_spec (h : Glyphs s filled total) (hroom : Roomy (s.globalGlyphs f) (n + 1)) (hpos : 0 < total g)
    (htwin : NoTwin s filled f g) :
    ∃ hash, enterGlobal s f g = .ok (s.setGlobal f hash, g) ∧ Roomy hash n ∧
      Glyphs (s.setGlobal f hash) (alsoFilled filled f g) total := by
  obtain ⟨hs, hh, hle⟩ := hroom
  obtain ⟨glyph, hg⟩ := isSome_iff_exists.1 (h.live.2 hpos)
  have hsha : shaOf s.glyphs g = some glyph.sha1 := shaOf_eq_some.2 ⟨glyph, hg, rfl⟩
  obtain ⟨i, hfind, hanswer⟩ := h.find (f := f) hh rfl glyph.sha1
  have hcheck : CheckDuplicates (s.globalGlyphs f) = .ok () := by
    unfold CheckDuplicates
    rw [hh.hashSet]
    rfl
  unfold enterGlobal
  dsimp only
  rw [hcheck, hg]
  simp only [deref, ok_bind]
  rw [hfind, ok_bind]
  cases hanswer with
  | entry r hr hentry hits =>
    have hin : r ∈ Glyph.entries (s.globalGlyphs f).table := mem_entries.2 ⟨i, hr, hentry⟩
    obtain ⟨g', rfl, hsha', hfilled⟩ := h.hits hin hits
    obtain rfl : g' = g := htwin g' hfilled (by rw [hsha']; rfl) (hsha'.trans hsha.symm)
    rw [refGlyph_eq hr]
    have hsame : alsoFilled filled f g' = filled := by
      funext f' g''
      refine propext ⟨?_, .inl⟩
      rintro (hf | ⟨rfl, rfl⟩)
      · exact hf
      · exact hfilled
    refine ⟨s.globalGlyphs f, ?_, ⟨hs, hh, by omega⟩, ?_⟩
    · rw [setGlobal_self]
      rfl
    · rw [setGlobal_self, hsame]
      exact h
  | free r hr hentry hreach hnone =>
    have hlt := hh.entries_lt
    have hadd : ((s.globalGlyphs f).tableEntries + 1) % 2 ^ 32 = (s.globalGlyphs f).tableEntries + 1 :=
      Nat.mod_eq_of_lt (by omega)
    rw [refGlyph_eq hr]
    have hnew := hh.insert (q := ⟨signatureOf glyph.sha1, .glyph g⟩) hr hentry rfl hreach (by omega)
    refine ⟨_, ?_, ⟨hs, hnew, ?_⟩, h.enter hnew hsha htwin (fun hfilled => ?_) (entries_set_new hr hentry rfl)⟩
    · rcases glyph_of_not_entry hentry with hglyph | hglyph
      all_goals
        rw [hglyph, hadd]
        rfl
    · dsimp only
      omega
    · exact hnone _ (h.mem hsha hfilled) (hits_of_shaOf hsha)

/-! ### The table of a glyph set -/

/-- The entries are those of the glyphs `added`, each under its id. -/
structure Holds (l : List GlyphRefRec) (added : ℕ → Option ℕ) : Prop where
  distinct : l.Pairwise fun r r' => r.signature ≠ r'.signature
  mem : ∀ r, r ∈ l ↔ ∃ id g, r = ⟨id, .glyph g⟩ ∧ added id = some g

variable {added : ℕ → Option ℕ} {l l' : List GlyphRefRec}

theorem Holds.perm (h : Holds l added) (hp : l.Perm l') : Holds l' added :=
  ⟨List.Pairwise.perm h.distinct hp fun h => h.symm, fun r => by rw [← hp.mem_iff]; exact h.mem r⟩

theorem Holds.cons (h : Holds l added) (hnone : added id = none) (g : ℕ) :
    Holds (⟨id, .glyph g⟩ :: l) (update added id (some g)) := by
  refine ⟨pairwise_cons.2 ⟨fun r hr heq => ?_, h.distinct⟩, fun r => ?_⟩
  · obtain ⟨id', g', rfl, hadded⟩ := (h.mem r).1 hr
    obtain rfl : id = id' := heq
    rw [hnone] at hadded
    cases hadded
  · rw [mem_cons, h.mem]
    constructor
    · rintro (rfl | ⟨id', g', rfl, hadded⟩)
      · exact ⟨id, g, rfl, update_self ..⟩
      · have hne : id' ≠ id := by
          rintro rfl
          rw [hnone] at hadded
          cases hadded
        exact ⟨id', g', rfl, by rw [update_of_ne hne]; exact hadded⟩
    · rintro ⟨id', g', rfl, hadded⟩
      by_cases hid : id' = id
      · subst hid
        rw [update_self] at hadded
        cases hadded
        exact .inl rfl
      · rw [update_of_ne hid] at hadded
        exact .inr ⟨id', g', rfl, hadded⟩

theorem Holds.tail (h : Holds (⟨id, .glyph g⟩ :: l) added) : Holds l (update added id none) := by
  obtain ⟨hhead, htail⟩ := pairwise_cons.1 h.distinct
  refine ⟨htail, fun r => ⟨fun hr => ?_, ?_⟩⟩
  · obtain ⟨id', g', rfl, hadded⟩ := (h.mem r).1 (.tail _ hr)
    refine ⟨id', g', rfl, ?_⟩
    rw [update_of_ne fun heq => hhead _ hr heq.symm]
    exact hadded
  · rintro ⟨id', g', rfl, hadded⟩
    by_cases hid : id' = id
    · subst hid
      rw [update_self] at hadded
      cases hadded
    · rw [update_of_ne hid] at hadded
      rcases mem_cons.1 ((h.mem _).2 ⟨id', g', rfl, hadded⟩) with heq | hmem
      · cases heq
        exact absurd rfl hid
      · exact hmem

structure SetTable (hash : GlyphHashRec) (added : ℕ → Option ℕ) : Prop where
  hashed : ∃ hs, Hashed hash hs
  holds : Holds (entries hash.table) added

/-- What a lookup for an id ends with. -/
theorem SetTable.find (h : SetTable hash added) (hh : Hashed hash hs) (glyphs : ℕ → Option GlyphRec) (id : ℕ) :
    ∃ i r, FindGlyphRef glyphs hash ⟨id, none⟩ = .ok (some i) ∧ hash.table[i]? = some r ∧
      ((∃ g, r = ⟨id, .glyph g⟩ ∧ added id = some g) ∨
        r.isEntry = false ∧ Reached hash.table hs id i ∧ added id = none) := by
  have hno : (⟨id, none⟩ : Wanted).sha1.isSome → Allocated glyphs hash.table := fun h => by cases h
  obtain ⟨i, hfind, hanswer⟩ := FindGlyphRef_spec hh hno
  cases hanswer with
  | entry r hr hentry hits =>
    obtain ⟨id', g, rfl, hadded⟩ := (h.holds.mem r).1 (mem_entries.2 ⟨i, hr, hentry⟩)
    obtain rfl : id' = id := hits.1
    exact ⟨i, _, hfind, hr, .inl ⟨g, rfl, hadded⟩⟩
  | free r hr hentry hreach hnone =>
    refine ⟨i, r, hfind, hr, .inr ⟨hentry, hreach, ?_⟩⟩
    cases hadded : added id with
    | none => rfl
    | some g =>
      exact absurd ⟨rfl, g, rfl, fun _ h => by cases h⟩ (hnone _ ((h.holds.mem _).2 ⟨id, g, rfl, hadded⟩))

/-- The references of the entries of a table to a glyph. -/
def refsIn (table : List GlyphRefRec) (g : ℕ) : ℕ := (entries table).countP (·.glyph = .glyph g)

def one (g g' : ℕ) : ℕ := if g = g' then 1 else 0

theorem refsIn_perm (h : (entries table).Perm l) (g : ℕ) :
    refsIn table g = l.countP (·.glyph = .glyph g) := h.countP_eq _

theorem countP_cons_glyph (g' : ℕ) : (⟨id, .glyph g⟩ :: l).countP (·.glyph = .glyph g') =
    l.countP (·.glyph = .glyph g') + one g g' := by
  rw [countP_cons]
  unfold one
  simp only [Slot.glyph.injEq, decide_eq_true_eq]

section

variable (h : SetTable hash added)
include h

/-- A glyph is put under an id that is free. -/
theorem SetTable.insert (hh : Hashed hash hs) (hle : hash.tableEntries + (n + 1) ≤ hs.entries)
    (hr : hash.table[i]? = some r) (hentry : r.isEntry = false) (hreach : Reached hash.table hs id i) (hnone : added id = none)
    (hhash : hash' = { hash with table := hash.table.set i ⟨id, .glyph g⟩, tableEntries := hash.tableEntries + 1 }) :
    SetTable hash' (update added id (some g)) ∧ Roomy hash' n ∧
      ∀ g', refsIn hash'.table g' = refsIn hash.table g' + one g g' := by
  subst hhash
  have hperm := entries_set_new (q := ⟨id, .glyph g⟩) hr hentry rfl
  have hnew := hh.insert (q := ⟨id, .glyph g⟩) hr hentry rfl hreach (by omega)
  refine ⟨⟨⟨hs, hnew⟩, (h.holds.cons hnone g).perm hperm.symm⟩, ⟨hs, hnew, by dsimp only; omega⟩, fun g' => ?_⟩
  rw [refsIn_perm hperm, countP_cons_glyph]
  rfl

/-- The glyph under an id gives way to another one. -/
theorem SetTable.replace (hh : Hashed hash hs) (hle : hash.tableEntries + n ≤ hs.entries)
    (hr : hash.table[i]? = some ⟨id, .glyph g⟩) (hhash : hash' = { hash with table := hash.table.set i ⟨id, .glyph k⟩ }) :
    SetTable hash' (update added id (some k)) ∧ Roomy hash' n ∧
      ∀ g', refsIn hash'.table g' + one g g' = refsIn hash.table g' + one k g' := by
  subst hhash
  obtain ⟨rest, hold, hnewp⟩ := entries_set_replace (q := ⟨id, .glyph k⟩) hr rfl rfl
  have hnew := hh.replace (q := ⟨id, .glyph k⟩) hr rfl rfl rfl
  have hrest := (h.holds.perm hold).tail.cons (update_self ..) k
  rw [update_idem] at hrest
  refine ⟨⟨⟨hs, hnew⟩, hrest.perm hnewp.symm⟩, ⟨hs, hnew, hle⟩, fun g' => ?_⟩
  rw [refsIn_perm hold, refsIn_perm hnewp, countP_cons_glyph, countP_cons_glyph]
  omega

/-- The glyph under an id is taken out. -/
theorem SetTable.remove (hh : Hashed hash hs) (hle : hash.tableEntries + n ≤ hs.entries) (hr : hash.table[i]? = some ⟨id, .glyph g⟩)
    (hhash : hash' = { hash with table := hash.table.set i ⟨id, .deleted⟩, tableEntries := hash.tableEntries - 1 }) :
    SetTable hash' (update added id none) ∧ Roomy hash' n ∧
      ∀ g', refsIn hash'.table g' + one g g' = refsIn hash.table g' := by
  subst hhash
  have hperm := entries_set_none (q := ⟨id, .deleted⟩) hr rfl rfl
  have hnew := hh.remove (q := ⟨id, .deleted⟩) hr rfl rfl
  refine ⟨⟨⟨hs, hnew⟩, (h.holds.perm hperm).tail⟩, ⟨hs, hnew, by dsimp only; omega⟩, fun g' => ?_⟩
  rw [refsIn_perm hperm, countP_cons_glyph]
  rfl

/-- A resize of the table of a glyph set. -/
theorem SetTable.resize {change : ℕ} (hfit : hash.tableEntries + change < 2 ^ 32) (glyphs : ℕ → Option GlyphRec) (ok : Bool) :
    ∃ hash' b, ResizeGlyphHash glyphs hash change false ok = .ok (hash', b) ∧ SetTable hash' added ∧
      (∀ g, refsIn hash'.table g = refsIn hash.table g) ∧ (b = true → Roomy hash' change) := by
  obtain ⟨hs, hh⟩ := h.hashed
  have hd : Distinct glyphs false (entries hash.table) := h.holds.distinct.imp fun hne hc => hne hc.1
  have hno : (false = true) → Allocated glyphs hash.table := fun h => by cases h
  obtain ⟨hash', b, hs', hrun, hh', hperm, hroom⟩ := ResizeGlyphHash_spec ok hh hno hd hfit
  exact ⟨hash', b, hrun, ⟨⟨hs', hh'⟩, h.holds.perm hperm.symm⟩, fun g => refsIn_perm hperm g,
    fun hb => ⟨hs', hh', hroom hb⟩⟩

end

/-! ### Other tables for the same glyphs -/

theorem Glyphs.withSets (h : Glyphs s filled total) (sets : List (Option GlyphSetRec)) :
    Glyphs { s with sets } filled total := ⟨h.table, h.distinct, h.entries, h.refcnt, h.pos, h.fresh⟩

/-- A table with the same entries takes the place of a global one. -/
theorem Glyphs.retable (h : Glyphs s filled total) (htable : hash = {} ∨ ∃ hs, Hashed hash hs)
    (hperm : (Glyph.entries hash.table).Perm (Glyph.entries (s.globalGlyphs f).table)) :
    Glyphs (s.setGlobal f hash) filled total := by
  refine ⟨fun f' => ?_, fun f' => ?_, fun f' r => ?_, h.refcnt, h.pos, h.fresh⟩
  all_goals
    rw [setGlobal_globalGlyphs]
    by_cases hf : f' = f
    · subst hf
      rw [update_self]
      first
        | exact htable
        | exact (h.distinct f').perm hperm.symm
        | exact hperm.mem_iff.trans (h.entries f' r)
    · rw [update_of_ne hf]
      first
        | exact h.table f'
        | exact h.distinct f'
        | exact h.entries f' r

/-- The table of a glyph that is in it is there. -/
theorem Glyphs.hashed (h : Glyphs s filled total) (hf : filled f g) (hpos : 0 < total g) :
    ∃ hs, Hashed (s.globalGlyphs f) hs := by
  refine (h.table f).resolve_left fun hempty => ?_
  obtain ⟨sha1, hsha⟩ := isSome_iff_exists.1 (shaOf_isSome ▸ h.live.2 hpos)
  have := h.mem hsha hf
  rw [hempty] at this
  cases this

theorem Roomy.shrunk (h : Roomy hash n) (hs : Shrunk hash hash') (htable : hash' = {} ∨ ∃ hs, Hashed hash' hs) :
    Roomy hash' n := by
  obtain ⟨hs₀, hh, hle⟩ := h
  rcases htable with rfl | ⟨hs', hh'⟩
  · have := hs.1.trans hh.hashSet
    cases this
  · obtain rfl : hs' = hs₀ := some_inj.1 (hh'.hashSet.symm.trans (hs.1.trans hh.hashSet))
    have := hs.2
    exact ⟨hs', hh', by omega⟩

theorem ResizeGlobal_spec (h : Glyphs s filled total) (hh : Hashed (s.globalGlyphs f) hs) {change : ℕ}
    (hfit : (s.globalGlyphs f).tableEntries + change < 2 ^ 32) (ok : Bool) :
    ∃ hash b, ResizeGlyphHash s.glyphs (s.globalGlyphs f) change true ok = .ok (hash, b) ∧
      Glyphs (s.setGlobal f hash) filled total ∧ (b = true → Roomy hash change) := by
  obtain ⟨hash, b, hs', hrun, hh', hperm, hroom⟩ :=
    ResizeGlyphHash_spec ok hh (fun _ => h.allocated f) (h.distinct f) hfit
  exact ⟨hash, b, hrun, h.retable (.inr ⟨hs', hh'⟩) hperm, fun hb => ⟨hs', hh', hroom hb⟩⟩

/-- The references of the entries of a table are dropped. -/
theorem freeEntries_spec (hone : ∀ f' g, filled f' g → filled f g → f' = f) :
    ∀ {table : List GlyphRefRec} {s : State} {total : ℕ → ℕ}, Glyphs s filled total →
      (∀ r ∈ entries table, ∀ g, r.glyph = .glyph g → filled f g) → (∀ g, refsIn table g ≤ total g) →
      ∃ s', freeEntries f table s = .ok s' ∧ s'.sets = s.sets ∧ Glyphs s' filled fun g => total g - refsIn table g := by
  intro table
  induction table with
  | nil =>
    intro s total h _ _
    exact ⟨s, rfl, rfl, h⟩
  | cons r table ih =>
    intro s total h hin hle
    unfold freeEntries
    by_cases hr : r.isEntry = true
    · obtain ⟨g, hg⟩ := isEntry_iff.1 hr
      have htake : entries (r :: table) = r :: entries table := filter_cons_of_pos hr
      have hcount : ∀ g', refsIn (r :: table) g' = refsIn table g' + one g g' := by
        intro g'
        obtain ⟨sig, glyph⟩ := r
        obtain rfl : glyph = .glyph g := hg
        unfold refsIn
        rw [htake, countP_cons_glyph]
      have hpos : 0 < total g := by
        have := hle g
        rw [hcount] at this
        unfold one at this
        simp only [if_true] at this
        omega
      have hf : filled f g := hin r (by rw [htake]; exact mem_cons_self) g hg
      obtain ⟨hs, hh⟩ := h.hashed hf hpos
      obtain ⟨glyphs, hash, hrun, hG, -⟩ := FreeGlyph_spec h hh hpos (fun f' hf' => hone f' g hf' hf) fun _ => h.noTwin hf
      have hle' : ∀ g', refsIn table g' ≤ update total g (total g - 1) g' := by
        intro g'
        have := hle g'
        rw [hcount] at this
        unfold one at this
        by_cases heq : g' = g
        · subst heq
          rw [update_self]
          simp only [if_true] at this
          omega
        · rw [update_of_ne heq]
          omega
      obtain ⟨s', hrun', hsets, hG'⟩ := ih hG (fun r' hr' => hin r' (by rw [htake]; exact .tail _ hr')) hle'
      rw [hg]
      dsimp only
      rw [hrun]
      refine ⟨s', hrun', hsets, ?_⟩
      have hsame : (fun g' => update total g (total g - 1) g' - refsIn table g') =
          fun g' => total g' - refsIn (r :: table) g' := by
        funext g'
        rw [hcount]
        unfold one
        by_cases heq : g' = g
        · subst heq
          rw [update_self]
          simp only [if_true]
          omega
        · rw [update_of_ne heq, if_neg fun h => heq h.symm]
          rfl
      rw [hsame] at hG'
      exact hG'
    · have hskip : entries (r :: table) = entries table := filter_cons_of_neg hr
      have hcount : ∀ g, refsIn (r :: table) g = refsIn table g := by
        intro g
        unfold refsIn
        rw [hskip]
      rw [hskip] at hin
      simp only [hcount] at hle ⊢
      rcases glyph_of_not_entry (Bool.not_eq_true _ ▸ hr) with hglyph | hglyph <;> rw [hglyph] <;> exact ih h hin hle

end Xenia.Xext.Glyph
