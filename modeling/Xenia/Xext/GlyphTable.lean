import Xenia.Xext.Glyph
import Xenia.Lib.Probe

/-!
# One glyph table

`Hashed` says of a table that every entry can be reached from its signature without crossing a slot
that was never used, and that there is room. Then a lookup ends, and finds the entry it wants if
there is one (`FindGlyphRef_spec`); an entry put where a lookup ended (`Hashed.insert`), taken out
(`Hashed.remove`) or replaced (`Hashed.replace`) leaves the table so, and so does a resize, which
keeps the entries (`ResizeGlyphHash_spec`).
-/

namespace Xenia.Xext.Glyph

open Xenia.Lib List Option

variable {glyphs : ℕ → Option GlyphRec} {hash hash' : GlyphHashRec} {hs : GlyphHashSetRec} {w : Wanted}
  {table : List GlyphRefRec} {r r' q : GlyphRefRec} {i j k g s : ℕ}

/-! ### The sizes are prime -/

/-- No odd number from 3 to `2 * k + 1` divides `n`. -/
def noOddDivisor (n : ℕ) : ℕ → Bool
  | 0 => true
  | k + 1 => n % (2 * k + 3) != 0 && noOddDivisor n k

theorem noOddDivisor_spec {n : ℕ} : ∀ {k : ℕ}, noOddDivisor n k = true → ∀ j < k, ¬(2 * j + 3 ∣ n) := by
  intro k
  induction k with
  | zero =>
    omega
  | succ k ih =>
    intro h j hj
    simp only [noOddDivisor, Bool.and_eq_true, bne_iff_ne] at h
    rcases Nat.lt_succ_iff_lt_or_eq.1 hj with hj | rfl
    · exact ih h.2 j hj
    · exact fun hd => h.1 (Nat.mod_eq_zero_of_dvd hd)

theorem prime_of_noOddDivisor {n : ℕ} (hn : 1 < n) (hodd : n % 2 = 1) (h : noOddDivisor n (n.sqrt / 2) = true) :
    n.Prime := by
  rw [Nat.prime_def_le_sqrt]
  refine ⟨hn, fun m hm hle hd => ?_⟩
  have hmodd : m % 2 = 1 := by
    rcases Nat.mod_two_eq_zero_or_one m with h0 | h1
    · have : 2 ∣ n := (Nat.dvd_of_mod_eq_zero h0).trans hd
      omega
    · exact h1
  have hm : 2 * ((m - 3) / 2) + 3 = m := by omega
  exact noOddDivisor_spec h ((m - 3) / 2) (by omega) (by rwa [hm])

theorem glyphHashSets_spec (h : hs ∈ glyphHashSets) :
    hs.size.Prime ∧ 0 < hs.rehash ∧ hs.rehash < hs.size ∧ hs.entries < hs.size ∧ hs.size < 2 ^ 31 := by
  have hprime : ∀ hs ∈ glyphHashSets, noOddDivisor hs.size (hs.size.sqrt / 2) = true := by decide +kernel
  have hrange : ∀ hs ∈ glyphHashSets, 1 < hs.size ∧ hs.size % 2 = 1 ∧ 0 < hs.rehash ∧ hs.rehash < hs.size ∧
      hs.entries < hs.size ∧ hs.size < 2 ^ 31 := by decide
  obtain ⟨hn, hodd, hrest⟩ := hrange hs h
  exact ⟨prime_of_noOddDivisor hn hodd (hprime hs h), hrest⟩

theorem rehashStep_spec (h : hs ∈ glyphHashSets) (s : ℕ) :
    rehashStep s hs.rehash < hs.size ∧ Nat.Coprime (rehashStep s hs.rehash) hs.size := by
  obtain ⟨hprime, hpos, hlt, -⟩ := glyphHashSets_spec h
  have hmod := Nat.mod_lt s hpos
  have hstep : 0 < rehashStep s hs.rehash ∧ rehashStep s hs.rehash < hs.size := by
    unfold rehashStep
    split <;> omega
  refine ⟨hstep.2, Nat.Coprime.symm ((Nat.Prime.coprime_iff_not_dvd hprime).2 fun hd => ?_)⟩
  have := Nat.le_of_dvd hstep.1 hd
  omega

/-! ### Entries -/

def GlyphRefRec.isEntry (r : GlyphRefRec) : Bool :=
  match r.glyph with
  | .glyph _ => true
  | _ => false

theorem isEntry_iff : r.isEntry = true ↔ ∃ g, r.glyph = .glyph g := by
  unfold GlyphRefRec.isEntry
  cases r.glyph <;> simp

/-- The entries of a table that hold a glyph. -/
def entries (table : List GlyphRefRec) : List GlyphRefRec := table.filter (·.isEntry)

theorem mem_entries : r ∈ entries table ↔ ∃ i : ℕ, table[i]? = some r ∧ r.isEntry := by
  unfold entries
  rw [mem_filter, mem_iff_getElem?]
  simp only [exists_and_right]

/-- A slot is filled. -/
theorem entries_set_new (hi : table[i]? = some r) (hr : r.isEntry = false) (hr' : q.isEntry = true) :
    (entries (table.set i q)).Perm (q :: entries table) := by
  obtain ⟨hlt, rfl⟩ := List.getElem?_eq_some_iff.1 hi
  unfold entries
  have hold : table.filter (·.isEntry) = (table.take i).filter (·.isEntry) ++ (table.drop (i + 1)).filter (·.isEntry) := by
    conv_lhs => rw [← take_append_drop i table, drop_eq_getElem_cons hlt]
    rw [filter_append, filter_cons_of_neg (by simp [hr])]
  rw [set_eq_take_append_cons_drop, if_pos hlt, filter_append, filter_cons_of_pos hr', hold]
  exact perm_middle

/-- A slot is emptied. -/
theorem entries_set_none (hi : table[i]? = some r) (hr : r.isEntry = true) (hr' : q.isEntry = false) :
    (entries table).Perm (r :: entries (table.set i q)) := by
  have hset : (table.set i q).set i r = table := by
    obtain ⟨hlt, rfl⟩ := List.getElem?_eq_some_iff.1 hi
    rw [set_set, set_getElem_self]
  have hlt : i < table.length := (List.getElem?_eq_some_iff.1 hi).1
  have hget : (table.set i q)[i]? = some q := by rw [getElem?_set_self hlt]
  have := entries_set_new hget hr' hr
  rwa [hset] at this

/-- A slot is refilled. -/
theorem entries_set_replace (hi : table[i]? = some r) (hr : r.isEntry = true) (hr' : q.isEntry = true) :
    ∃ rest, (entries table).Perm (r :: rest) ∧ (entries (table.set i q)).Perm (q :: rest) := by
  have hlt : i < table.length := (List.getElem?_eq_some_iff.1 hi).1
  let hole : GlyphRefRec := ⟨0, .deleted⟩
  refine ⟨entries (table.set i hole), entries_set_none hi hr rfl, ?_⟩
  have hget : (table.set i hole)[i]? = some hole := by rw [getElem?_set_self hlt]
  have := entries_set_new hget rfl hr'
  rwa [set_set] at this

/-! ### Lookup -/

/-- The slot of turn `k` of a lookup. -/
def turn (hs : GlyphHashSetRec) (s : ℕ) : ℕ → ℕ := probe hs.size (rehashStep s hs.rehash) (s % hs.size)

/-- Index `i` can be reached from the signature `s` without crossing a slot that was never used. -/
def Reached (table : List GlyphRefRec) (hs : GlyphHashSetRec) (s i : ℕ) : Prop :=
  ∃ k, turn hs s k = i ∧ ∀ j < k, ∀ r, table[turn hs s j]? = some r → r.glyph ≠ .null

structure Hashed (hash : GlyphHashRec) (hs : GlyphHashSetRec) : Prop where
  hashSet : hash.hashSet = some hs
  mem : hs ∈ glyphHashSets
  length : hash.table.length = hs.size
  placed : ∀ i r, hash.table[i]? = some r → r.isEntry → Reached hash.table hs r.signature i
  count : hash.tableEntries = (entries hash.table).length
  room : hash.tableEntries ≤ hs.entries

/-- The entry is one that the lookup wants. -/
def Wanted.hits (w : Wanted) (glyphs : ℕ → Option GlyphRec) (r : GlyphRefRec) : Prop :=
  r.signature = w.signature ∧ ∃ g, r.glyph = .glyph g ∧
    ∀ sha1, w.sha1 = some sha1 → ∃ glyph, glyphs g = some glyph ∧ glyph.sha1 = sha1

/-- What the lookup can follow is there. -/
def Allocated (glyphs : ℕ → Option GlyphRec) (table : List GlyphRefRec) : Prop :=
  ∀ r ∈ entries table, ∀ g, r.glyph = .glyph g → (glyphs g).isSome

theorem matches_spec (h : w.sha1.isSome → (glyphs g).isSome) :
    ∃ b, w.matches glyphs s g = .ok b ∧ (b = true ↔ w.hits glyphs ⟨s, .glyph g⟩) := by
  unfold Wanted.matches Wanted.hits
  by_cases hs : s = w.signature
  · rw [if_neg (not_not.2 hs)]
    cases hsha : w.sha1 with
    | none => exact ⟨true, rfl, fun _ => ⟨hs, g, rfl, fun _ h => by cases h⟩, fun _ => rfl⟩
    | some sha1 =>
      obtain ⟨glyph, hglyph⟩ := isSome_iff_exists.1 (h (by rw [hsha]; rfl))
      rw [hglyph]
      refine ⟨decide (glyph.sha1 = sha1), rfl, ?_⟩
      rw [decide_eq_true_iff]
      constructor
      · rintro rfl
        exact ⟨hs, g, rfl, fun _ h => ⟨glyph, hglyph, some_inj.1 h⟩⟩
      · rintro ⟨-, g', hg', hfound⟩
        cases hg'
        obtain ⟨glyph', hglyph', hsame⟩ := hfound sha1 rfl
        rw [hglyph] at hglyph'
        cases hglyph'
        exact hsame
  · rw [if_pos hs]
    exact ⟨false, rfl, (fun h => by cases h), fun h => absurd h.1 hs⟩

open Classical in
/-- What the loop sees in a slot. -/
noncomputable def slotOf (glyphs : ℕ → Option GlyphRec) (w : Wanted) (table : List GlyphRefRec) (i : ℕ) : Probed :=
  match table[i]? with
  | none => .miss
  | some r =>
    match r.glyph with
    | .null => .empty
    | .deleted => .deleted
    | .glyph _ => if w.hits glyphs r then .hit else .miss

/-- The loop is the search of the library. -/
theorem findLoop_eq {size step : ℕ} (hlen : table.length = size) (hstep : step < size)
    (halloc : w.sha1.isSome → Allocated glyphs table) : ∀ {fuel elt : ℕ} {del : Option ℕ}, elt < size →
      ∀ {i}, search (slotOf glyphs w table) size step fuel elt del = some i →
        findLoop glyphs w table size step fuel elt del = .ok i := by
  intro fuel
  induction fuel with
  | zero =>
    intro elt del _ i h
    cases h
  | succ fuel ih =>
    intro elt del hlt i h
    have hnext : advance size step elt < size := by
      unfold advance
      split <;> omega
    have hget : table[elt]? = some table[elt] := getElem?_eq_getElem (by omega)
    unfold findLoop
    unfold search at h
    unfold slotOf at h
    rw [hget] at h ⊢
    dsimp only at h ⊢
    cases hglyph : table[elt].glyph with
    | null =>
      rw [hglyph] at h
      cases h
      rfl
    | deleted =>
      rw [hglyph] at h
      cases del with
      | none => exact ih hnext h
      | some d =>
        dsimp only at h ⊢
        split
        · next heq =>
          rw [if_pos heq] at h
          cases h
          rfl
        · next hne =>
          rw [if_neg hne] at h
          exact ih hnext h
    | glyph g =>
      have hmem : table[elt] ∈ entries table :=
        mem_entries.2 ⟨elt, hget, isEntry_iff.2 ⟨g, hglyph⟩⟩
      have heta : (⟨table[elt].signature, .glyph g⟩ : GlyphRefRec) = table[elt] := by rw [← hglyph]
      have hthere : w.sha1.isSome → (glyphs g).isSome := fun hsome => halloc hsome _ hmem g hglyph
      obtain ⟨b, hb, hhits⟩ := matches_spec (s := table[elt].signature) hthere
      rw [heta] at hhits
      dsimp only
      rw [hb]
      rw [hglyph] at h
      cases b with
      | true =>
        rw [if_pos (hhits.1 rfl)] at h
        cases h
        rfl
      | false =>
        rw [if_neg fun hh => by cases hhits.2 hh] at h
        exact ih hnext h

theorem Hashed.exists_free (h : Hashed hash hs) (glyphs : ℕ → Option GlyphRec) (w : Wanted) :
    ∃ i < hs.size, slotOf glyphs w hash.table i ≠ .miss := by
  by_contra hall
  simp only [not_exists, not_and] at hall
  have hfull : entries hash.table = hash.table := by
    refine filter_eq_self.2 fun r hr => ?_
    obtain ⟨i, hi⟩ := mem_iff_getElem?.1 hr
    have hlt : i < hash.table.length := (List.getElem?_eq_some_iff.1 hi).1
    have hmiss := hall i (h.length ▸ hlt)
    unfold slotOf at hmiss
    rw [hi] at hmiss
    cases hglyph : r.glyph with
    | null => simp [hglyph] at hmiss
    | deleted => simp [hglyph] at hmiss
    | glyph g => exact isEntry_iff.2 ⟨g, hglyph⟩
  have := h.count
  rw [hfull, h.length] at this
  have := (glyphHashSets_spec h.mem).2.2.2.1
  have := h.room
  omega

/-- What a lookup answers with: an entry that it wants, or a free slot when there is none. -/
inductive Answer (glyphs : ℕ → Option GlyphRec) (hash : GlyphHashRec) (hs : GlyphHashSetRec) (w : Wanted) (i : ℕ) : Prop
  | entry (r : GlyphRefRec) (hi : hash.table[i]? = some r) (hr : r.isEntry = true) (hits : w.hits glyphs r)
  | free (r : GlyphRefRec) (hi : hash.table[i]? = some r) (hr : r.isEntry = false)
    (hreach : Reached hash.table hs w.signature i) (hnone : ∀ r ∈ entries hash.table, ¬w.hits glyphs r)

/-- **A lookup ends**, with an entry that it wants if there is one. -/
theorem FindGlyphRef_spec (h : Hashed hash hs) (halloc : w.sha1.isSome → Allocated glyphs hash.table) :
    ∃ i, FindGlyphRef glyphs hash w = .ok (some i) ∧ Answer glyphs hash hs w i := by
  obtain ⟨hstep, hc⟩ := rehashStep_spec h.mem w.signature
  have hpos : 0 < hs.size := by omega
  have hstart : w.signature % hs.size < hs.size := Nat.mod_lt _ hpos
  obtain ⟨i, hi, hsearch, hfound⟩ := search_spec hc hstep hstart (h.exists_free glyphs w) le_rfl
  have hloop := findLoop_eq h.length hstep halloc hstart hsearch
  refine ⟨i, ?_, ?_⟩
  · unfold FindGlyphRef
    rw [h.hashSet]
    dsimp only
    rw [hloop]
    rfl
  -- a slot that is not empty was not crossed as one that was never used
  have hcrossed : ∀ k, Crossed (slotOf glyphs w hash.table) (turn hs w.signature) k ↔
      ∀ j < k, ∀ r, hash.table[turn hs w.signature j]? = some r → r.glyph ≠ .null := by
    intro k
    refine forall₂_congr fun j hj => ?_
    have hlt : turn hs w.signature j < hash.table.length := by
      rw [h.length]
      exact probe_lt hpos
    have hget := getElem?_eq_getElem hlt
    unfold slotOf
    rw [hget]
    dsimp only
    constructor
    · rintro hne r ⟨⟩ hnull
      rw [hnull] at hne
      exact hne rfl
    · intro hne hempty
      have := hne _ rfl
      cases hglyph : hash.table[turn hs w.signature j].glyph with
      | null => exact this hglyph
      | deleted => simp [hglyph] at hempty
      | glyph g =>
        rw [hglyph] at hempty
        dsimp only at hempty
        split at hempty <;> cases hempty
  have hget : ∀ k, ∃ r, hash.table[turn hs w.signature k]? = some r := by
    intro k
    have hlt : turn hs w.signature k < hash.table.length := by
      rw [h.length]
      exact probe_lt hpos
    exact ⟨_, getElem?_eq_getElem hlt⟩
  cases hfound with
  | hit k hslot hpath =>
    obtain ⟨r, hr⟩ := hget k
    unfold slotOf at hslot
    have hr' : hash.table[probe hs.size (rehashStep w.signature hs.rehash) (w.signature % hs.size) k]? = some r := hr
    rw [hr'] at hslot
    dsimp only at hslot
    cases hglyph : r.glyph with
    | null => simp [hglyph] at hslot
    | deleted => simp [hglyph] at hslot
    | glyph g =>
      rw [hglyph] at hslot
      dsimp only at hslot
      split at hslot
      · next hits => exact .entry r hr (isEntry_iff.2 ⟨g, hglyph⟩) hits
      · cases hslot
  | free k hslot hpath hnone =>
    obtain ⟨r, hr⟩ := hget k
    have hr' : hash.table[probe hs.size (rehashStep w.signature hs.rehash) (w.signature % hs.size) k]? = some r := hr
    refine .free r hr ?_ ⟨k, rfl, (hcrossed k).1 hpath⟩ ?_
    · unfold slotOf at hslot
      rw [hr'] at hslot
      dsimp only at hslot
      unfold GlyphRefRec.isEntry
      cases hglyph : r.glyph with
      | null => rfl
      | deleted => rfl
      | glyph g =>
        rw [hglyph] at hslot
        dsimp only at hslot
        split at hslot <;> simp at hslot
    · -- an entry that is wanted lies on the path of its signature
      intro r' hr' hits
      obtain ⟨i', hi', hentry⟩ := mem_entries.1 hr'
      obtain ⟨m, hm, hreach⟩ := h.placed i' r' hi' hentry
      rw [hits.1] at hm hreach
      refine hnone m ((hcrossed m).2 hreach) ?_
      unfold slotOf
      have hm' : probe hs.size (rehashStep w.signature hs.rehash) (w.signature % hs.size) m = i' := hm
      rw [hm', hi']
      obtain ⟨g, hg⟩ := isEntry_iff.1 hentry
      dsimp only
      rw [hg]
      exact if_pos hits

/-! ### Entries put in and taken out -/

/-- A slot in use stays in use. -/
theorem Reached.set (h : Reached table hs s i) (hr : r.glyph ≠ .null) : Reached (table.set k r) hs s i := by
  obtain ⟨m, hm, hpath⟩ := h
  refine ⟨m, hm, fun j hj r' hr' => ?_⟩
  rw [getElem?_set] at hr'
  split at hr'
  · split at hr'
    · cases hr'
      exact hr
    · cases hr'
  · exact hpath j hj r' hr'

section

variable (h : Hashed hash hs)
include h

/-- A new entry where a lookup of its signature ended. -/
theorem Hashed.insert (hi : hash.table[i]? = some r) (hr : r.isEntry = false)
    (hr' : q.isEntry = true) (hreach : Reached hash.table hs q.signature i) (hroom : hash.tableEntries < hs.entries) :
    Hashed { hash with table := hash.table.set i q, tableEntries := hash.tableEntries + 1 } hs := by
  obtain ⟨g, hg⟩ := isEntry_iff.1 hr'
  have hne : q.glyph ≠ .null := by rw [hg]; exact Slot.noConfusion
  refine ⟨h.hashSet, h.mem, by rw [length_set]; exact h.length, ?_, ?_, hroom⟩
  · intro k r₀ hk hentry
    rw [getElem?_set] at hk
    split at hk
    · next heq =>
      subst heq
      split at hk
      · cases hk
        exact hreach.set hne
      · cases hk
    · exact (h.placed k r₀ hk hentry).set hne
  · rw [(entries_set_new hi hr hr').length_eq, length_cons, h.count]

/-- An entry is marked as deleted. -/
theorem Hashed.remove (hi : hash.table[i]? = some r) (hr : r.isEntry = true) (hr' : q.glyph = .deleted) :
    Hashed { hash with table := hash.table.set i q, tableEntries := hash.tableEntries - 1 } hs := by
  have hne : q.glyph ≠ .null := by rw [hr']; exact Slot.noConfusion
  have hno : q.isEntry = false := by unfold GlyphRefRec.isEntry; rw [hr']
  refine ⟨h.hashSet, h.mem, by rw [length_set]; exact h.length, ?_, ?_, ?_⟩
  · intro k r₀ hk hentry
    rw [getElem?_set] at hk
    split at hk
    · split at hk
      · cases hk
        rw [hno] at hentry
        cases hentry
      · cases hk
    · exact (h.placed k r₀ hk hentry).set hne
  · have hperm := (entries_set_none hi hr hno).length_eq
    rw [length_cons] at hperm
    have := h.count
    show hash.tableEntries - 1 = (entries (hash.table.set i q)).length
    omega
  · have := h.room
    show hash.tableEntries - 1 ≤ _
    omega

/-- An entry is replaced by one with the same signature. -/
theorem Hashed.replace (hi : hash.table[i]? = some r) (hr : r.isEntry = true)
    (hr' : q.isEntry = true) (hsame : q.signature = r.signature) :
    Hashed { hash with table := hash.table.set i q } hs := by
  obtain ⟨g, hg⟩ := isEntry_iff.1 hr'
  have hne : q.glyph ≠ .null := by rw [hg]; exact Slot.noConfusion
  refine ⟨h.hashSet, h.mem, by rw [length_set]; exact h.length, ?_, ?_, h.room⟩
  · intro k r₀ hk hentry
    rw [getElem?_set] at hk
    split at hk
    · next heq =>
      subst heq
      split at hk
      · cases hk
        rw [hsame]
        exact (h.placed i r hi hr).set hne
      · cases hk
    · exact (h.placed k r₀ hk hentry).set hne
  · obtain ⟨rest, hold, hnew⟩ := entries_set_replace hi hr hr'
    rw [h.count, hold.length_eq, hnew.length_eq, length_cons, length_cons]

theorem Hashed.pos (hi : hash.table[i]? = some r) (hr : r.isEntry = true) :
    0 < hash.tableEntries := by
  rw [h.count]
  exact length_pos_of_mem (mem_entries.2 ⟨i, hi, hr⟩)

theorem Hashed.entries_lt : hash.tableEntries < 2 ^ 31 := by
  have := glyphHashSets_spec h.mem
  have := h.room
  omega

end

/-! ### Resizing -/

/-- A lookup for one of the two would find the other. -/
def Clash (glyphs : ℕ → Option GlyphRec) (global : Bool) (r r' : GlyphRefRec) : Prop :=
  r.signature = r'.signature ∧ (global = true → ∀ g g', r.glyph = .glyph g → r'.glyph = .glyph g' →
    ∀ glyph glyph', glyphs g = some glyph → glyphs g' = some glyph' → glyph.sha1 = glyph'.sha1)

variable {global : Bool}

theorem Clash.symm (h : Clash glyphs global r r') : Clash glyphs global r' r :=
  ⟨h.1.symm, fun hg g g' hr hr' glyph glyph' hglyph hglyph' => (h.2 hg g' g hr' hr glyph' glyph hglyph' hglyph).symm⟩

/-- No two entries can be mistaken for each other. -/
def Distinct (glyphs : ℕ → Option GlyphRec) (global : Bool) (l : List GlyphRefRec) : Prop :=
  l.Pairwise fun r r' => ¬Clash glyphs global r r'

variable {l : List GlyphRefRec}

theorem Distinct.perm {l' : List GlyphRefRec} (h : Distinct glyphs global l) (hp : l.Perm l') :
    Distinct glyphs global l' := List.Pairwise.perm h hp fun h hc => h hc.symm

theorem Distinct.eq (h : Distinct glyphs global l) (hr : r ∈ l) (hr' : r' ∈ l) (hc : Clash glyphs global r r') : r = r' := by
  by_contra hne
  have hp : (r :: l.erase r).Perm l := (perm_cons_erase hr).symm
  have hmem : r' ∈ l.erase r := by
    rcases mem_cons.1 (hp.symm.subset hr') with heq | hmem
    · exact absurd heq.symm hne
    · exact hmem
  exact rel_of_pairwise_cons (h.perm hp.symm) hmem hc

theorem wantedOf_spec (hr : r.glyph = .glyph g) (halloc : global = true → (glyphs g).isSome) :
    ∃ w, wantedOf glyphs global r.signature g = .ok w ∧ w.signature = r.signature ∧ (w.sha1.isSome ↔ global = true) ∧
      ∀ r', w.hits glyphs r' → Clash glyphs global r r' := by
  unfold wantedOf
  cases global with
  | false =>
    refine ⟨⟨r.signature, none⟩, rfl, rfl, by simp, fun r' hits => ⟨hits.1.symm, fun h => by cases h⟩⟩
  | true =>
    obtain ⟨glyph, hglyph⟩ := isSome_iff_exists.1 (halloc rfl)
    rw [hglyph]
    refine ⟨⟨r.signature, some glyph.sha1⟩, rfl, rfl, by simp, fun r' hits => ⟨hits.1.symm, fun _ => ?_⟩⟩
    intro g₁ g' hg₁ hg' glyph₁ glyph' hglyph₁ hglyph'
    rw [hr] at hg₁
    cases hg₁
    rw [hglyph] at hglyph₁
    cases hglyph₁
    obtain ⟨-, g₂, hg₂, hsha⟩ := hits
    rw [hg'] at hg₂
    cases hg₂
    obtain ⟨glyph₂, hglyph₂, hsame⟩ := hsha glyph.sha1 rfl
    rw [hglyph'] at hglyph₂
    cases hglyph₂
    exact hsame.symm

theorem rehash_spec : ∀ {table : List GlyphRefRec} {newHash : GlyphHashRec}, Hashed newHash hs →
    (global = true → Allocated glyphs newHash.table ∧ Allocated glyphs table) →
    Distinct glyphs global (entries newHash.table ++ entries table) → newHash.tableEntries + (entries table).length ≤ hs.entries →
      ∃ hash', rehash glyphs global table newHash = .ok hash' ∧ Hashed hash' hs ∧
        (entries hash'.table).Perm (entries newHash.table ++ entries table) := by
  intro table
  induction table with
  | nil =>
    intro newHash h _ _ _
    exact ⟨newHash, rfl, h, by rw [show entries [] = [] from rfl, append_nil]⟩
  | cons old table ih =>
    intro newHash h halloc hd hroom
    unfold rehash
    cases hglyph : old.glyph with
    | null =>
      have hskip : entries (old :: table) = entries table :=
        filter_cons_of_neg (by simp [GlyphRefRec.isEntry, hglyph])
      unfold Allocated at halloc
      rw [hskip] at hd hroom halloc ⊢
      exact ih h halloc hd hroom
    | deleted =>
      have hskip : entries (old :: table) = entries table :=
        filter_cons_of_neg (by simp [GlyphRefRec.isEntry, hglyph])
      unfold Allocated at halloc
      rw [hskip] at hd hroom halloc ⊢
      exact ih h halloc hd hroom
    | glyph g =>
      have hold : old.isEntry = true := isEntry_iff.2 ⟨g, hglyph⟩
      have htake : entries (old :: table) = old :: entries table := filter_cons_of_pos hold
      have hg : global = true → (glyphs g).isSome := fun hglobal =>
        (halloc hglobal).2 old (by rw [htake]; exact mem_cons_self) g hglyph
      obtain ⟨w, hw, hsig, hsome, hclash⟩ := wantedOf_spec hglyph hg
      obtain ⟨i, hi, hanswer⟩ := FindGlyphRef_spec (w := w) h fun hs => (halloc (hsome.1 hs)).1
      have heta : (⟨old.signature, .glyph g⟩ : GlyphRefRec) = old := by rw [← hglyph]
      dsimp only
      rw [hw, ok_bind, hi, heta]
      rw [htake] at hd hroom ⊢
      cases hanswer with
      | entry r hr hentry hits =>
        -- no other entry is mistaken for this one
        have hin : r ∈ entries newHash.table := mem_entries.2 ⟨i, hr, hentry⟩
        have := (pairwise_append.1 hd).2.2 r hin old mem_cons_self
        exact absurd (hclash r hits).symm this
      | free r hr hentry hreach hnone =>
        rw [length_cons] at hroom
        have hnew := h.insert hr hentry hold (by rw [← hsig]; exact hreach) (by omega)
        have hperm := entries_set_new hr hentry hold
        have hmove : (entries newHash.table ++ old :: entries table).Perm
            (entries (newHash.table.set i old) ++ entries table) :=
          perm_middle.trans (hperm.symm.append_right _)
        have hnewAlloc : global = true → Allocated glyphs (newHash.table.set i old) ∧ Allocated glyphs table := by
          intro hglobal
          refine ⟨fun r' hr' g' hg' => ?_, fun r' hr' => (halloc hglobal).2 r' (by rw [htake]; exact .tail _ hr')⟩
          rcases mem_cons.1 (hperm.subset hr') with rfl | hr'
          · rw [hglyph] at hg'
            cases hg'
            exact hg hglobal
          · exact (halloc hglobal).1 r' hr' g' hg'
        obtain ⟨hash', hrun, hhash', hperm'⟩ := ih hnew hnewAlloc (hd.perm hmove) (by dsimp only; omega)
        exact ⟨hash', hrun, hhash', hperm'.trans hmove.symm⟩

theorem AllocateGlyphHash_spec (h : AllocateGlyphHash (some hs) true = some hash) (hmem : hs ∈ glyphHashSets) :
    Hashed hash hs ∧ entries hash.table = [] ∧ hash.tableEntries = 0 := by
  cases h
  have hempty : entries (replicate hs.size ⟨0, .null⟩) = [] :=
    filter_eq_nil_iff.2 fun r hr => by rw [eq_of_mem_replicate hr]; decide
  refine ⟨⟨rfl, hmem, length_replicate, fun i r hi hr => ?_, ?_, Nat.zero_le _⟩, hempty, rfl⟩
  · have : r ∈ entries (replicate hs.size ⟨0, .null⟩) := mem_entries.2 ⟨i, hi, hr⟩
    rw [hempty] at this
    cases this
  · show 0 = _
    rw [hempty]
    rfl

/-- **A resize keeps the entries**, and after a success there is room for `change` more. -/
theorem ResizeGlyphHash_spec (ok : Bool) {change : ℕ} (h : Hashed hash hs)
    (halloc : global = true → Allocated glyphs hash.table) (hd : Distinct glyphs global (entries hash.table))
    (hfit : hash.tableEntries + change < 2 ^ 32) :
    ∃ hash' b hs', ResizeGlyphHash glyphs hash change global ok = .ok (hash', b) ∧ Hashed hash' hs' ∧
      (entries hash'.table).Perm (entries hash.table) ∧ (b = true → hash'.tableEntries + change ≤ hs'.entries) := by
  unfold ResizeGlyphHash
  dsimp only
  rw [Nat.mod_eq_of_lt hfit]
  have hfind : ∀ hs', FindGlyphHashSet (hash.tableEntries + change) = some hs' →
      hs' ∈ glyphHashSets ∧ hash.tableEntries + change ≤ hs'.entries := fun hs' hfound =>
    ⟨mem_of_find?_eq_some hfound, by simpa using find?_some hfound⟩
  by_cases hsame : FindGlyphHashSet (hash.tableEntries + change) = hash.hashSet
  · rw [if_pos hsame]
    exact ⟨hash, true, hs, rfl, h, .refl _, fun _ => (hfind hs (hsame.trans h.hashSet)).2⟩
  rw [if_neg hsame]
  have hcheck : CheckDuplicates hash = .ok () := by
    unfold CheckDuplicates
    rw [h.hashSet]
    rfl
  rw [hcheck, ok_bind, ite_self]
  cases hfound : FindGlyphHashSet (hash.tableEntries + change) with
  | none => exact ⟨hash, false, hs, rfl, h, .refl _, fun hb => by cases hb⟩
  | some hs' =>
    obtain ⟨hmem, hle⟩ := hfind hs' hfound
    cases ok with
    | false => exact ⟨hash, false, hs, rfl, h, .refl _, fun hb => by cases hb⟩
    | true =>
      cases hnew : AllocateGlyphHash (some hs') true with
      | none => cases hnew
      | some newHash =>
        obtain ⟨hhashed, hempty, hzero⟩ := AllocateGlyphHash_spec hnew hmem
        have hno : Allocated glyphs newHash.table := by
          intro r hr
          rw [hempty] at hr
          cases hr
        have hall : global = true → Allocated glyphs newHash.table ∧ Allocated glyphs hash.table :=
          fun hg => ⟨hno, halloc hg⟩
        have hd' : Distinct glyphs global (entries newHash.table ++ entries hash.table) := by
          rw [hempty]
          exact hd
        obtain ⟨hash', hrun, hhash', hperm⟩ := rehash_spec hhashed hall hd' (by have := h.count; omega)
        rw [hempty, nil_append] at hperm
        dsimp only
        rw [hrun]
        refine ⟨hash', true, hs', rfl, hhash', hperm, fun _ => ?_⟩
        rw [hhash'.count, hperm.length_eq, ← h.count]
        exact hle

end Xenia.Xext.Glyph
