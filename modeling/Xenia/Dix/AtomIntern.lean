import Xenia.Dix.Atom

/-!
# Interning

What the atom table knows of a name is its key: the fingerprint of all its bytes and its C
string. `Represents` says that a table holds a list of distinct keys, the atom of a key
being its place in the list; `makeAtom_spec` says that `MakeAtom` looks a key up in that
list or appends it. Over a run (`atoms_intern`) names with the same key get the same atom,
which for names without a zero byte means equal names, and the table gives back the C
string of a name.

Names with zeros are told apart by their fingerprints only, and the counter of atoms wraps
around at `2 ^ 32`; both are shown in `atoms_exceptions`.
-/

namespace Xenia.Dix

open Xenia.Lib List

/-! ### Keys -/

/-- What is compared of a name. -/
abbrev Key := BitVec 32 × List Byte

def key (s : List Byte) : Key := (fingerPrint s, cstr s)

def Node.key (nd : Node) : Key := (nd.fingerPrint, nd.string.1)

/-- Keys are ordered by fingerprint, then by string. -/
def rank (k : Key) : ℕ ×ₗ List ℕ := toLex (k.1.toNat, ords k.2)

theorem rank_injective : Function.Injective rank := by
  rintro ⟨f, s⟩ ⟨g, u⟩ h
  have h' : (f.toNat, ords s) = (g.toNat, ords u) := toLex.injective h
  rw [Prod.mk.injEq] at h'
  rw [BitVec.eq_of_toNat_eq h'.1, ords_injective h'.2]

/-- Names without zeros have the same key only if they are equal. -/
theorem key_inj {s u : List Byte} (hs : 0 ∉ s) (hu : 0 ∉ u) : key s = key u ↔ s = u := by
  refine ⟨fun h => ?_, fun h => h ▸ rfl⟩
  have : cstr s = cstr u := congrArg Prod.snd h
  rwa [cstr_eq_self hs, cstr_eq_self hu] at this

/-- The search goes the way of the key. -/
theorem direction_spec (s : List Byte) (np : Node) :
    (direction s (fingerPrint s) np = .lt ↔ rank (key s) < rank np.key) ∧
      (direction s (fingerPrint s) np = .gt ↔ rank np.key < rank (key s)) := by
  obtain ⟨hlt, hgt⟩ := strncmp_spec (s := s) np.string.2
  unfold direction rank key Node.key
  rw [Prod.Lex.toLex_lt_toLex, Prod.Lex.toLex_lt_toLex, ← hlt, ← hgt]
  simp only [BitVec.lt_def]
  rcases lt_trichotomy (fingerPrint s).toNat np.fingerPrint.toNat with h | h | h
  · simp [h, h.ne', h.not_gt]
  · simp only [h, lt_irrefl, if_false, false_or]
    split
    · rename_i hc; simp only [hc, true_and, reduceCtorEq, false_iff]; omega
    · rename_i hc
      split <;> simp_all
  · simp [h, h.ne', h.not_gt]

theorem directed (s : List Byte) (t : BinaryTree Node) :
    SearchTree.Directed (fun nd => rank nd.key) (direction s (fingerPrint s)) (rank (key s)) t :=
  fun np _ => direction_spec s np

/-! ### Tables -/

/-- The table holds the keys, the atom of the key at place `i` being `i + 1`. -/
structure Represents (t : AtomTable) (keys : List Key) : Prop where
  last : t.lastAtom = keys.length
  small : keys.length < 2 ^ 32
  nodup : keys.Nodup
  length : t.nodeTable.length = t.tableLength
  room : keys.length < t.tableLength
  null : t.nodeTable[0]? = some .null
  slots : ∀ i (h : i < keys.length), ∃ nd, t.nodeTable[i + 1]? = some (.node nd) ∧
    nd.a = i + 1 ∧ nd.key = keys[i]
  sorted : SearchTree.Sorted (fun nd => rank nd.key) t.atomRoot
  mem : ∀ nd, SearchTree.Mem nd t.atomRoot ↔
    ∃ i < keys.length, t.nodeTable[i + 1]? = some (.node nd)

section Table

variable {t : AtomTable} {keys : List Key} {s : List Byte}

variable (h : Represents t keys)
include h

/-- A search finds the node of a key that is there. -/
theorem Represents.find_mem (hk : key s ∈ keys) :
    ∃ nd, SearchTree.find (direction s (fingerPrint s)) t.atomRoot = some nd ∧
      nd.a = keys.idxOf (key s) + 1 := by
  have hi := idxOf_lt_length_of_mem hk
  obtain ⟨nd, hnd, ha, hkey⟩ := h.slots _ hi
  rw [getElem_idxOf] at hkey
  exact ⟨nd, (SearchTree.find_iff h.sorted (directed s _)).2
    ⟨(h.mem nd).2 ⟨_, hi, hnd⟩, by rw [hkey]⟩, ha⟩

theorem Represents.find_notMem (hk : key s ∉ keys) :
    SearchTree.find (direction s (fingerPrint s)) t.atomRoot = none := by
  refine (SearchTree.find_none_iff h.sorted (directed s _)).2 fun nd hnd heq => hk ?_
  obtain ⟨i, hi, hslot⟩ := (h.mem nd).1 hnd
  obtain ⟨nd', hslot', -, hkey⟩ := h.slots i hi
  rw [hslot] at hslot'
  cases hslot'
  rw [← rank_injective heq, hkey]
  exact getElem_mem hi

/-- The name of an atom is the string of its key. -/
theorem Represents.nameForAtom (atom : ℕ) :
    ∃ r, Dix.nameForAtom atom t = some r ∧
      ∀ i (hi : i < keys.length), atom = i + 1 → r.map Subtype.val = some keys[i].2 := by
  unfold Dix.nameForAtom
  by_cases hbig : atom > t.lastAtom
  · exact ⟨none, by rw [if_pos hbig], fun i hi hat => by have := h.last; omega⟩
  · rw [if_neg hbig]
    rcases eq_zero_or_pos atom with rfl | hpos
    · rw [h.null]; exact ⟨none, rfl, fun i _ hat => by omega⟩
    · obtain ⟨i, rfl⟩ : ∃ i, atom = i + 1 := ⟨atom - 1, by omega⟩
      have hlast := h.last
      obtain ⟨nd, hslot, -, hkey⟩ := h.slots i (by omega)
      rw [hslot]
      refine ⟨some nd.string, rfl, fun j hj hat => ?_⟩
      obtain rfl : i = j := by omega
      rw [← hkey]; rfl

/-- The table with one more node, in memory that has room for it. -/
theorem Represents.append (hk : key s ∉ keys) (hsmall : keys.length + 1 < 2 ^ 32) {table : List Slot} {tableLength : ℕ}
    (hlen : table.length = tableLength) (hroom : keys.length + 1 < tableLength)
    (hkeep : ∀ i ≤ keys.length, table[i]? = t.nodeTable[i]?) :
    Represents ⟨keys.length + 1,
        SearchTree.insert (direction s (fingerPrint s)) ⟨keys.length + 1, fingerPrint s, strndup s⟩ t.atomRoot,
        tableLength, table.set (keys.length + 1) (.node ⟨keys.length + 1, fingerPrint s, strndup s⟩)⟩
      (keys ++ [key s]) := by
  have hnone := h.find_notMem hk
  have hold : ∀ i ≤ keys.length, (table.set (keys.length + 1)
      (Slot.node ⟨keys.length + 1, fingerPrint s, strndup s⟩))[i]? = t.nodeTable[i]? := fun i hi => by
    rw [getElem?_set_ne (by omega), hkeep i hi]
  have hnew : (table.set (keys.length + 1)
      (Slot.node ⟨keys.length + 1, fingerPrint s, strndup s⟩))[keys.length + 1]? =
        some (Slot.node ⟨keys.length + 1, fingerPrint s, strndup s⟩) :=
    getElem?_set_self (by omega)
  refine ⟨by simp, by simpa using hsmall, ?_, by simpa using hlen, by simpa using hroom,
    (hold 0 (Nat.zero_le _)).trans h.null, fun i hi => ?_, ?_, fun nd => ?_⟩
  · exact nodup_append.2 ⟨h.nodup, by simp, fun a ha b hb => by
      rw [mem_singleton.1 hb]; exact fun hab => hk (hab ▸ ha)⟩
  · rw [length_append, length_singleton] at hi
    by_cases hi' : i < keys.length
    · obtain ⟨nd, h1, h2, h3⟩ := h.slots i hi'
      exact ⟨nd, (hold (i + 1) hi').trans h1, h2, by rw [h3, getElem_append_left hi']⟩
    · obtain rfl : i = keys.length := by omega
      exact ⟨_, hnew, rfl, by rw [getElem_concat_length rfl]; rfl⟩
  · have hd : SearchTree.Directed (fun nd => rank nd.key) (direction s (fingerPrint s))
        (rank (Node.key ⟨keys.length + 1, fingerPrint s, strndup s⟩)) t.atomRoot := directed s _
    exact h.sorted.insert hd hnone
  · rw [SearchTree.mem_insert hnone, h.mem, length_append, length_singleton]
    constructor
    · rintro (rfl | ⟨i, hi, hs⟩)
      · exact ⟨keys.length, by omega, hnew⟩
      · exact ⟨i, by omega, (hold (i + 1) hi).trans hs⟩
    · rintro ⟨i, hi, hs⟩
      by_cases hi' : i < keys.length
      · exact .inr ⟨i, hi', (hold (i + 1) hi').symm.trans hs⟩
      · obtain rfl : i = keys.length := by omega
        rw [show (_ : Option Slot) = _ from hnew] at hs
        cases hs; exact .inl rfl

/-- A name that is there is found. -/
theorem makeAtom_mem {s : Name} (hk : key s.1 ∈ keys) (alloc : AtomAlloc)
    (makeit : Bool) : makeAtom alloc s makeit t = some (t, keys.idxOf (key s.1) + 1) := by
  obtain ⟨nd, hfind, ha⟩ := h.find_mem hk
  unfold makeAtom
  dsimp only
  rw [hfind, ← ha]

theorem makeAtom_absent {s : Name} (hk : key s.1 ∉ keys) (alloc : AtomAlloc) :
    makeAtom alloc s false t = some (t, 0) := by
  unfold makeAtom
  dsimp only
  rw [h.find_notMem hk]
  rfl

/-- **A new name** gets the next atom, unless an allocation is refused; then nothing changes. -/
theorem makeAtom_new {s : Name} (hk : key s.1 ∉ keys) (alloc : AtomAlloc) (hsmall : keys.length + 1 < 2 ^ 32) :
    (makeAtom alloc s true t = some (t, BAD_RESOURCE) ∧ alloc ≠ granted) ∨
      ∃ t', makeAtom alloc s true t = some (t', keys.length + 1) ∧ Represents t' (keys ++ [key s.1]) := by
  have hmod : (t.lastAtom + 1) % 2 ^ 32 = keys.length + 1 := by rw [h.last, Nat.mod_eq_of_lt hsmall]
  unfold makeAtom
  dsimp only
  rw [h.find_notMem hk]
  simp only [if_true]
  split
  · exact .inl ⟨rfl, by rintro rfl; contradiction⟩
  split
  · rename_i hc; exact .inl ⟨rfl, by rintro rfl; exact absurd hc.2 (by decide)⟩
  split
  · rename_i hc; exact .inl ⟨rfl, by rintro rfl; exact absurd hc.2 (by decide)⟩
  right
  have hroom := h.room
  by_cases hgrow : keys.length + 1 ≥ t.tableLength
  · have hglen : (growTable t.nodeTable t.tableLength).length = 2 * t.tableLength := by
      simp [growTable]; omega
    simp only [if_pos hgrow, writeSlot, hmod]
    rw [if_pos (by omega)]
    refine ⟨_, rfl, h.append hk hsmall hglen (by omega) fun i hi => ?_⟩
    have hi' : i < t.nodeTable.length := by rw [h.length]; omega
    rw [growTable, take_of_length_le (by rw [h.length]; omega), getElem?_append_left hi']
  · simp only [if_neg hgrow, writeSlot, h.length, hmod]
    rw [if_pos (by omega)]
    exact ⟨_, rfl, h.append hk hsmall h.length (by omega) fun i _ => rfl⟩

end Table

/-! ### The predeclared atoms -/

def predeclaredKeys : List Key := predeclaredNames.map fun s => key s.1

/-- The predeclared names hold neither a zero nor a one, and none is empty. -/
theorem predeclared_bytes : ∀ s ∈ predeclaredAtoms.map nameOf, 0 ∉ s ∧ 1 ∉ s ∧ s ≠ [] := by
  decide +kernel

theorem predeclaredKeys_string : predeclaredKeys.map Prod.snd = predeclaredAtoms.map nameOf := by
  have hnames : predeclaredNames.map Subtype.val = predeclaredAtoms.map nameOf := by
    rw [predeclaredNames, map_map]
    exact attach_map_subtype_val _
  rw [predeclaredKeys, map_map]
  refine map_congr_left fun s hs => cstr_eq_self ?_
  exact (predeclared_bytes _ (hnames ▸ mem_map_of_mem hs)).1

theorem predeclaredKeys_nodup : predeclaredKeys.Nodup := by
  refine List.Nodup.of_map Prod.snd ?_
  decide +kernel

theorem length_predeclaredKeys : predeclaredKeys.length = XA_LAST_PREDEFINED := by
  rfl

variable {keys : List Key}

theorem makePredeclaredAtoms_spec (names : List Name) {t : AtomTable}
    (h : Represents t keys) (hnd : (keys ++ names.map fun s => key s.1).Nodup) (hsmall : keys.length + names.length < 2 ^ 32) :
    ∃ t', makePredeclaredAtoms names (keys.length + 1) t = some t' ∧
      Represents t' (keys ++ names.map fun s => key s.1) := by
  induction names generalizing t keys with
  | nil => exact ⟨t, rfl, by simpa using h⟩
  | cons s names ih =>
    rw [map_cons] at hnd ⊢
    rw [length_cons] at hsmall
    have hk : key s.1 ∉ keys := fun hk =>
      (nodup_append.1 hnd).2.2 _ hk _ (mem_cons_self ..) rfl
    rcases makeAtom_new h hk granted (by omega) with ⟨-, hg⟩ | ⟨t', hmake, h'⟩
    · exact absurd rfl hg
    · have happ : keys ++ key s.1 :: names.map (fun s => key s.1) =
          keys ++ [key s.1] ++ names.map fun s => key s.1 := by simp
      rw [happ] at hnd ⊢
      obtain ⟨t'', hrest, h''⟩ := ih h' hnd (by rw [length_append, length_singleton]; omega)
      refine ⟨t'', ?_, h''⟩
      rw [makePredeclaredAtoms, hmake]
      simpa using hrest

/-- `InitAtoms` succeeds and leaves the predeclared names in the table. -/
theorem initAtoms_spec : ∃ t, initAtoms = some t ∧ Represents t predeclaredKeys := by
  have hempty : Represents ⟨0, .nil, InitialTableSize, replicate InitialTableSize .null⟩ [] :=
    ⟨rfl, by decide, by simp, by simp, by decide, rfl, fun i hi => absurd hi (Nat.not_lt_zero i),
      trivial, fun nd => ⟨False.elim, fun ⟨i, hi, _⟩ => absurd hi (Nat.not_lt_zero i)⟩⟩
  have hlen : predeclaredNames.length = XA_LAST_PREDEFINED := by
    rw [← length_predeclaredKeys, predeclaredKeys, length_map]
  obtain ⟨t, ht, hrep⟩ := makePredeclaredAtoms_spec predeclaredNames hempty predeclaredKeys_nodup
    (by rw [hlen]; decide)
  refine ⟨t, ?_, hrep⟩
  unfold initAtoms
  dsimp only
  rw [show makePredeclaredAtoms predeclaredNames 1 _ = some t from ht]
  have hlast : t.lastAtom = XA_LAST_PREDEFINED := by
    rw [hrep.last, nil_append, length_map, hlen]
  simp [hlast]

/-! ### Runs -/

/-- The results of a run as places in the list of keys, which begins with the predeclared
ones and holds nothing that was not interned. -/
structure Interned (calls : List AtomCall) (atoms : List ℕ) (keys : List Key) : Prop where
  length : atoms.length = calls.length
  atom : ∀ i (hc : i < calls.length) (ha : i < atoms.length), atoms[i] ≠ BAD_RESOURCE →
    key calls[i].name.1 ∈ keys ∧ atoms[i] = keys.idxOf (key calls[i].name.1) + 1
  origin : ∀ k ∈ keys, k ∈ predeclaredKeys ∨
    ∃ i, ∃ (hc : i < calls.length) (ha : i < atoms.length),
      key calls[i].name.1 = k ∧ atoms[i] = keys.idxOf k + 1
  predeclared : ∃ more, keys = predeclaredKeys ++ more

/-- One more call whose result is `a`, with one more key if it was new. -/
theorem Interned.snoc {calls : List AtomCall} {atoms : List ℕ} (h : Interned calls atoms keys) (c : AtomCall) (a : ℕ) (more : List Key)
    (ha : a ≠ BAD_RESOURCE → key c.name.1 ∈ keys ++ more ∧ a = (keys ++ more).idxOf (key c.name.1) + 1)
    (hmore : ∀ k ∈ more, k = key c.name.1 ∧ a = (keys ++ more).idxOf k + 1) :
    Interned (calls ++ [c]) (atoms ++ [a]) (keys ++ more) := by
  have hlen := h.length
  refine ⟨by simp [hlen], fun i hc hai hne => ?_, fun k hk => ?_, ?_⟩
  · rw [length_append, length_singleton] at hc
    by_cases hi : i < calls.length
    · rw [getElem_append_left (by omega)] at hne ⊢
      rw [getElem_append_left (by omega)]
      obtain ⟨h1, h2⟩ := h.atom i hi (by omega) hne
      exact ⟨mem_append_left _ h1, by rw [idxOf_append_of_mem h1]; exact h2⟩
    · obtain rfl : i = calls.length := by omega
      rw [getElem_concat_length hlen.symm] at hne ⊢
      rw [getElem_concat_length rfl]
      exact ha hne
  · rcases mem_append.1 hk with hk | hk
    · rcases h.origin k hk with hp | ⟨i, hc, hai, hkey, hat⟩
      · exact .inl hp
      · refine .inr ⟨i, by simp; omega, by simp; omega, ?_, ?_⟩
        · rw [getElem_append_left hc]; exact hkey
        · rw [getElem_append_left hai, idxOf_append_of_mem hk]; exact hat
    · obtain ⟨rfl, hat⟩ := hmore k hk
      refine .inr ⟨calls.length, by simp, by simp [hlen], ?_, ?_⟩
      · rw [getElem_concat_length rfl]
      · rw [getElem_concat_length hlen.symm]; exact hat
  · obtain ⟨rest, rfl⟩ := h.predeclared
    exact ⟨rest ++ more, by simp⟩

/-- After fewer than `2 ^ 32 - 68` calls the table holds the names interned. -/
theorem makeAtoms_spec {t₀ : AtomTable} (h₀ : Represents t₀ predeclaredKeys) (calls : List AtomCall)
    (hn : calls.length + XA_LAST_PREDEFINED < 2 ^ 32) :
    ∃ t atoms keys, makeAtoms calls t₀ = some (t, atoms) ∧ Represents t keys ∧
      Interned calls atoms keys ∧ keys.length ≤ calls.length + XA_LAST_PREDEFINED := by
  let P : List AtomCall → Option (AtomTable × List ℕ) → Prop := fun past s =>
    past.length + XA_LAST_PREDEFINED < 2 ^ 32 → ∃ t atoms keys, s = some (t, atoms) ∧
      Represents t keys ∧ Interned past atoms keys ∧ keys.length ≤ past.length + XA_LAST_PREDEFINED
  have hlen := length_predeclaredKeys
  have hstart : P [] (some (t₀, [])) := fun _ => ⟨t₀, [], predeclaredKeys, rfl, h₀,
    ⟨rfl, fun i hc => absurd hc (Nat.not_lt_zero i), fun k hk => .inl hk, [], by simp⟩, by simp [hlen]⟩
  refine run_history (P := P) (fun past s c ih hsmall => ?_) hstart calls hn
  rw [length_append, length_singleton] at hsmall
  obtain ⟨t, atoms, keys, rfl, hrep, hint, hle⟩ := ih (by omega)
  unfold atomStep
  by_cases hk : key c.name.1 ∈ keys
  · refine ⟨t, atoms ++ [keys.idxOf (key c.name.1) + 1], keys, ?_, hrep, ?_, by simp; omega⟩
    · simp [makeAtom_mem hrep hk]
    · have := hint.snoc c (keys.idxOf (key c.name.1) + 1) []
        (fun _ => by simpa using hk) (by simp)
      simpa using this
  · rcases makeAtom_new hrep hk c.alloc (by omega) with ⟨hmake, -⟩ | ⟨t', hmake, hrep'⟩
    · refine ⟨t, atoms ++ [BAD_RESOURCE], keys, by simp [hmake], hrep, ?_, by simp; omega⟩
      have := hint.snoc c BAD_RESOURCE [] (fun hne => absurd rfl hne) (by simp)
      simpa using this
    · have hidx : (keys ++ [key c.name.1]).idxOf (key c.name.1) = keys.length := by
        rw [idxOf_append_of_notMem hk]; simp
      refine ⟨t', atoms ++ [keys.length + 1], keys ++ [key c.name.1], by simp [hmake], hrep', ?_, by simp; omega⟩
      refine hint.snoc c _ _ (fun _ => ⟨by simp, by rw [hidx]⟩) fun k hk' => ?_
      rw [mem_singleton.1 hk', hidx]
      exact ⟨rfl, rfl⟩

/-- What the atom table promises after the calls `calls`, which had the results `atoms`. -/
structure Atoms (calls : List AtomCall) (atoms : List ℕ) (t : AtomTable) : Prop where
  /-- every call had a result -/
  length : atoms.length = calls.length
  /-- two calls that got atoms got the same one exactly if the names have the same key -/
  same : ∀ i j (hi : i < calls.length) (hj : j < calls.length) (ai : i < atoms.length)
    (aj : j < atoms.length), atoms[i] ≠ BAD_RESOURCE → atoms[j] ≠ BAD_RESOURCE →
      (atoms[i] = atoms[j] ↔ key calls[i].name.1 = key calls[j].name.1)
  /-- a name without zeros gets the atom of another only if they are equal -/
  equal : ∀ i j (hi : i < calls.length) (hj : j < calls.length) (ai : i < atoms.length)
    (aj : j < atoms.length), atoms[i] ≠ BAD_RESOURCE → atoms[j] ≠ BAD_RESOURCE →
      0 ∉ calls[i].name.1 → 0 ∉ calls[j].name.1 →
      (atoms[i] = atoms[j] ↔ calls[i].name = calls[j].name)
  /-- the next call finds an atom handed out before, or gets the next one, or fails for want
  of memory; only in the second case the table changes -/
  next : ∀ (c : AtomCall), calls.length + 1 + XA_LAST_PREDEFINED < 2 ^ 32 →
    ∃ t' a, makeAtom c.alloc c.name true t = some (t', a) ∧
      ((t' = t ∧ 0 < a ∧ a ≤ t.lastAtom) ∨ (a = t.lastAtom + 1 ∧ t'.lastAtom = t.lastAtom + 1) ∨
        (t' = t ∧ a = BAD_RESOURCE ∧ c.alloc ≠ granted))
  /-- a lookup finds what was interned -/
  found : ∀ i (hi : i < calls.length) (ai : i < atoms.length) (alloc : AtomAlloc) (name : Name),
    atoms[i] ≠ BAD_RESOURCE → key name.1 = key calls[i].name.1 →
      makeAtom alloc name false t = some (t, atoms[i])
  /-- and the predeclared names -/
  predeclared : ∀ (alloc : AtomAlloc) (name : Name), key name.1 ∈ predeclaredKeys →
    makeAtom alloc name false t = some (t, predeclaredKeys.idxOf (key name.1) + 1)
  /-- and nothing else -/
  only : ∀ (alloc : AtomAlloc) (name : Name), ∃ a, makeAtom alloc name false t = some (t, a) ∧
    (a ≠ 0 → key name.1 ∈ predeclaredKeys ∨
      ∃ i, ∃ (hi : i < calls.length) (ai : i < atoms.length),
        atoms[i] = a ∧ key name.1 = key calls[i].name.1)
  /-- the table is read within its memory for every atom -/
  bounds : ∀ atom, nameForAtom atom t ≠ none
  /-- the name of an atom is the C string of the name interned -/
  name : ∀ i (hi : i < calls.length) (ai : i < atoms.length), atoms[i] ≠ BAD_RESOURCE →
    (nameForAtom atoms[i] t).map (Option.map Subtype.val) = some (some (cstr calls[i].name.1))

/-- **The atom table.** After `InitAtoms` and any calls of `MakeAtom`, as long as the counter
of atoms does not wrap around. -/
theorem atoms_intern (calls : List AtomCall) (hn : calls.length + XA_LAST_PREDEFINED < 2 ^ 32) :
    ∃ t₀, initAtoms = some t₀ ∧ t₀.lastAtom = XA_LAST_PREDEFINED ∧
      ∃ t atoms, makeAtoms calls t₀ = some (t, atoms) ∧ Atoms calls atoms t := by
  obtain ⟨t₀, h₀, hrep₀⟩ := initAtoms_spec
  obtain ⟨t, atoms, keys, hrun, hrep, hint, hle⟩ := makeAtoms_spec hrep₀ calls hn
  have hlen := length_predeclaredKeys
  have hsame : ∀ i j (hi : i < calls.length) (hj : j < calls.length) (ai : i < atoms.length)
      (aj : j < atoms.length), atoms[i] ≠ BAD_RESOURCE → atoms[j] ≠ BAD_RESOURCE →
      (atoms[i] = atoms[j] ↔ key calls[i].name.1 = key calls[j].name.1) := by
    intro i j hi hj ai aj hni hnj
    obtain ⟨mi, ei⟩ := hint.atom i hi ai hni
    obtain ⟨mj, ej⟩ := hint.atom j hj aj hnj
    rw [ei, ej, add_right_cancel_iff]
    exact idxOf_inj mi
  refine ⟨t₀, h₀, hrep₀.last.trans hlen, t, atoms, hrun, ⟨hint.length, hsame, ?_, ?_, ?_, ?_, ?_, ?_, ?_⟩⟩
  · intro i j hi hj ai aj hni hnj zi zj
    rw [hsame i j hi hj ai aj hni hnj, key_inj zi zj, Subtype.ext_iff]
  · intro c hsmall
    by_cases hk : key c.name.1 ∈ keys
    · have hi := idxOf_lt_length_of_mem hk
      exact ⟨t, _, makeAtom_mem hrep hk c.alloc true, .inl ⟨rfl, Nat.succ_pos _, by rw [hrep.last]; omega⟩⟩
    · rcases makeAtom_new hrep hk c.alloc (by omega) with ⟨hmake, hg⟩ | ⟨t', hmake, hrep'⟩
      · exact ⟨t, _, hmake, .inr (.inr ⟨rfl, rfl, hg⟩)⟩
      · exact ⟨t', _, hmake, .inr (.inl ⟨by rw [hrep.last], by rw [hrep'.last, hrep.last]; simp⟩)⟩
  · intro i hi ai alloc name hne hkey
    obtain ⟨hm, he⟩ := hint.atom i hi ai hne
    rw [he, ← hkey] at *
    exact makeAtom_mem hrep hm alloc false
  · intro alloc name hk
    obtain ⟨more, rfl⟩ := hint.predeclared
    rw [makeAtom_mem hrep (mem_append_left _ hk), idxOf_append_of_mem hk]
  · intro alloc name
    by_cases hk : key name.1 ∈ keys
    · refine ⟨_, makeAtom_mem hrep hk alloc false, fun _ => ?_⟩
      rcases hint.origin _ hk with hp | ⟨i, hi, ai, hkey, hat⟩
      · exact .inl hp
      · exact .inr ⟨i, hi, ai, hat, hkey.symm⟩
    · exact ⟨0, makeAtom_absent hrep hk alloc, fun h => absurd rfl h⟩
  · intro atom hnone
    obtain ⟨r, hr, -⟩ := hrep.nameForAtom atom
    rw [hr] at hnone; cases hnone
  · intro i hi ai hne
    obtain ⟨hm, he⟩ := hint.atom i hi ai hne
    obtain ⟨r, hr, hname⟩ := hrep.nameForAtom atoms[i]
    have hidx := idxOf_lt_length_of_mem hm
    rw [hr, Option.map_some, hname _ hidx he, getElem_idxOf]
    rfl

/-- One name interned. -/
theorem atoms_intern_one : ∃ t₀, initAtoms = some t₀ ∧ t₀.lastAtom = XA_LAST_PREDEFINED ∧
    ∃ t atoms, makeAtoms [⟨⟨[65], by decide⟩, granted⟩] t₀ = some (t, atoms) ∧
      Atoms [⟨⟨[65], by decide⟩, granted⟩] atoms t :=
  atoms_intern [⟨⟨[65], by decide⟩, granted⟩] (by decide)

/-! ### Where the promise ends -/

/-- Two different names with zeros, the same fingerprint and the same C string. -/
def zeroName : Name := ⟨[0, 1, 0, 65], by decide⟩
def zeroName' : Name := ⟨[0, 0, 27, 65], by decide⟩

/-- With `2 ^ 32 - 1` atoms in the table the next one is number 0. -/
theorem makeAtom_wraps {t : AtomTable} (h : Represents t keys) {s : Name} (hk : key s.1 ∉ keys) (hfull : keys.length + 1 = 2 ^ 32) :
    ∃ t', makeAtom granted s true t = some (t', 0) ∧ t'.lastAtom = 0 := by
  have hmod : (t.lastAtom + 1) % 2 ^ 32 = 0 := by rw [h.last, hfull, Nat.mod_self]
  have hroom := h.room
  have hgrow : ¬ 0 ≥ t.tableLength := by omega
  have hwrite : 0 < t.nodeTable.length := by rw [h.length]; omega
  unfold makeAtom
  dsimp only
  rw [h.find_notMem hk]
  simp only [granted, Bool.not_true, Bool.false_eq_true, if_false, and_false, hmod, hgrow,
    writeSlot, hwrite]
  exact ⟨_, rfl, rfl⟩

/-- Names that are all different, for any number of calls. -/
def ones (i : ℕ) : Name := ⟨List.replicate ((i + 1) % 2 ^ 32) 1, by
  rw [List.length_replicate]; exact Nat.mod_lt _ (by norm_num)⟩

def onesCalls (n : ℕ) : List AtomCall := (List.range n).map fun i => ⟨ones i, granted⟩

theorem key_ones {i : ℕ} (hi : i + 1 < 2 ^ 32) : (key (ones i).1).2 = replicate (i + 1) 1 := by
  have h0 : (0 : Byte) ∉ (ones i).1 := fun h => absurd (eq_of_mem_replicate h) (by decide)
  show cstr (ones i).1 = _
  rw [cstr_eq_self h0]
  exact congrArg (fun n => List.replicate n 1) (Nat.mod_eq_of_lt hi)

theorem makeAtoms_ones {t₀ : AtomTable} (h₀ : Represents t₀ predeclaredKeys) (n : ℕ)
    (hn : n + XA_LAST_PREDEFINED < 2 ^ 32) :
    ∃ t atoms, makeAtoms (onesCalls n) t₀ = some (t, atoms) ∧
      Represents t (predeclaredKeys ++ (range n).map fun i => key (ones i).1) ∧
      key (ones n).1 ∉ predeclaredKeys ++ (range n).map fun i => key (ones i).1 := by
  have hlen := length_predeclaredKeys
  have hno : ∀ k ∈ predeclaredKeys, (1 : Byte) ∉ k.2 := fun k hk =>
    (predeclared_bytes k.2 (predeclaredKeys_string ▸ mem_map_of_mem hk)).2.1
  have hfresh : ∀ n, n + XA_LAST_PREDEFINED < 2 ^ 32 →
      key (ones n).1 ∉ predeclaredKeys ++ (range n).map fun i => key (ones i).1 := by
    intro n hn hm
    have hsmall : n + 1 < 2 ^ 32 := by unfold XA_LAST_PREDEFINED at hn; omega
    rcases mem_append.1 hm with hm | hm
    · exact hno _ hm (by rw [key_ones hsmall]; simp)
    · obtain ⟨i, hi, heq⟩ := mem_map.1 hm
      have hi' := mem_range.1 hi
      have := congrArg (fun k : Key => k.2.length) heq
      simp only [key_ones hsmall, key_ones (show i + 1 < 2 ^ 32 by omega), length_replicate] at this
      omega
  induction n with
  | zero => exact ⟨t₀, [], rfl, by simpa using h₀, hfresh 0 hn⟩
  | succ n ih =>
    obtain ⟨t, atoms, hrun, hrep, hnew⟩ := ih (by omega)
    rcases makeAtom_new hrep hnew granted (by
        rw [length_append, length_map, length_range]; omega) with
      ⟨-, hg⟩ | ⟨t', hmake, hrep'⟩
    · exact absurd rfl hg
    · generalize (predeclaredKeys ++ _ : List Key).length + 1 = a at hmake
      refine ⟨t', atoms ++ [a], ?_, ?_, hfresh (n + 1) hn⟩
      · rw [makeAtoms, onesCalls, range_succ, map_append, map_singleton, run_snoc]
        rw [show run atomStep (some (t₀, [])) ((range n).map fun i => ⟨ones i, granted⟩) =
          some (t, atoms) from hrun, atomStep]
        simp [hmake]
      · rw [range_succ, map_append]
        exact hrep'

/-- Different names can get the same atom, whose name is then neither of them; and after
`2 ^ 32 - 69` names the next one gets the atom 0 and not the one after the last. -/
theorem atoms_exceptions : ∃ t₀, initAtoms = some t₀ ∧
    (zeroName ≠ zeroName' ∧ ∃ t a, makeAtoms [⟨zeroName, granted⟩, ⟨zeroName', granted⟩] t₀ =
      some (t, [a, a]) ∧ a ≠ BAD_RESOURCE ∧
      (nameForAtom a t).map (Option.map Subtype.val) ≠ some (some zeroName.1)) ∧
    ∃ calls t atoms t', makeAtoms calls t₀ = some (t, atoms) ∧
      (∃ name, makeAtom granted name true t = some (t', 0)) ∧ t.lastAtom + 1 ≠ 0 := by
  obtain ⟨t₀, h₀, hrep₀⟩ := initAtoms_spec
  have hlen := length_predeclaredKeys
  refine ⟨t₀, h₀, ⟨by decide, ?_⟩, ?_⟩
  · have hk : key zeroName.1 ∉ predeclaredKeys := fun hk =>
      (predeclared_bytes _ (predeclaredKeys_string ▸ mem_map_of_mem hk)).2.2 rfl
    have hkey : key zeroName'.1 = key zeroName.1 := by decide +kernel
    rcases makeAtom_new hrep₀ hk granted (by rw [hlen]; decide) with ⟨-, hg⟩ | ⟨t, hmake, hrep⟩
    · exact absurd rfl hg
    have hidx : (predeclaredKeys ++ [key zeroName.1]).idxOf (key zeroName.1) = predeclaredKeys.length := by
      rw [idxOf_append_of_notMem hk]; simp
    have hsame := makeAtom_mem hrep (s := zeroName') (by rw [hkey]; simp) granted true
    rw [hkey, hidx] at hsame
    refine ⟨t, predeclaredKeys.length + 1, ?_, by rw [hlen]; decide, ?_⟩
    · simp [makeAtoms, atomStep, hmake, hsame]
    · obtain ⟨r, hr, hname⟩ := hrep.nameForAtom (predeclaredKeys.length + 1)
      rw [hr, Option.map_some, hname predeclaredKeys.length (by simp) rfl]
      decide
  · obtain ⟨t, atoms, hrun, hrep, hnew⟩ := makeAtoms_ones hrep₀ (2 ^ 32 - 69) (by decide)
    obtain ⟨t', hmake, -⟩ := makeAtom_wraps hrep hnew (by
      rw [length_append, length_map, length_range]; rfl)
    exact ⟨_, t, atoms, t', hrun, ⟨_, hmake⟩, Nat.succ_ne_zero _⟩

end Xenia.Dix
