import Mathlib.Tactic

/-!
# Ranges of unused resource IDs

The resource table of a client, as far as its IDs go: `AddResource` with `RebuildTable`, the two
ways of freeing, and `GetXIDRange`, which narrows the ID space of the client around the resources
in the table. A table has each ID in the bucket of its hash.

* `foldl_avoids`: the range has no ID of the table.
* `get_xid_range_complete`: it is empty although there are unused IDs where the narrowing keeps the
  wrong side of a resource, or has no ID to spare (not `KeepsFree`).
-/

namespace Xenia.Dix

open List

def SERVER_BIT : ℕ := 0x40000000
def SERVER_MINID : ℕ := 32
def RESOURCE_AND_CLIENT_COUNT : ℕ := 29
def RESOURCE_INITHASHSIZE : ℕ := 6
def RESOURCE_MAXHASHSIZE : ℕ := 16

/-- The loop of `ilog2`, over the bits of an `int`. -/
def ilog2Loop : ℕ → ℕ → ℕ → ℕ
  | 0, _, bits => bits
  | n + 1, val, bits => if val ≠ 0 then ilog2Loop n (val >>> 1) (bits + 1) else bits

def ilog2 (val : ℕ) : ℕ := if val = 0 then 0 else ilog2Loop 32 val 0 - 1

/-- `CLIENTOFFSET`, for the number of clients the server is started with. -/
def CLIENTOFFSET (limitClients : ℕ) : ℕ := RESOURCE_AND_CLIENT_COUNT - ilog2 limitClients

def RESOURCE_ID_MASK (limitClients : ℕ) : ℕ := 1 <<< CLIENTOFFSET limitClients - 1

def hashResourceID (limitClients id numBits : ℕ) : ℕ :=
  let id := id &&& RESOURCE_ID_MASK limitClients
  if numBits < 9 then (id ^^^ (id >>> numBits) ^^^ (id >>> (numBits <<< 1))) % 2 ^ numBits
  else (id ^^^ (id >>> numBits)) % 2 ^ numBits

/-- `ClientResourceRec`: the IDs in the chains of the buckets. -/
structure ClientResource (limitClients : ℕ) where
  resources : List (List ℕ)
  elements : ℕ
  hashsize : ℕ
  length : resources.length = 2 ^ hashsize
  inBucket : ∀ i, ∀ id ∈ resources.getD i [], hashResourceID limitClients id hashsize = i
  ne_zero : ∀ chain ∈ resources, ∀ id ∈ chain, id ≠ 0

variable {limitClients : ℕ}

/-- All IDs of a table, in the order of its buckets and chains. -/
def ClientResource.ids (t : ClientResource limitClients) : List ℕ := t.resources.flatten

/-! ### Tables -/

/-- `InitClientResources` -/
def initClientResources (limitClients : ℕ) : ClientResource limitClients where
  resources := List.replicate (2 ^ RESOURCE_INITHASHSIZE) []
  elements := 0
  hashsize := RESOURCE_INITHASHSIZE
  length := List.length_replicate
  inBucket i id hid := by
    rw [List.getD_eq_getElem?_getD, List.getElem?_replicate] at hid
    split at hid <;> exact absurd hid (by simp)
  ne_zero chain hchain id hid := by
    obtain rfl := List.eq_of_mem_replicate hchain
    exact absurd hid (by simp)

/-- `RebuildTable`: twice as many buckets, the chains in the order in which the old ones are gone
through. -/
def rebuildTable (granted : Bool) (t : ClientResource limitClients) : ClientResource limitClients :=
  if granted then
    { resources := (List.range (2 ^ (t.hashsize + 1))).map fun j =>
        t.ids.filter fun id => hashResourceID limitClients id (t.hashsize + 1) = j
      elements := t.elements
      hashsize := t.hashsize + 1
      length := by rw [List.length_map, List.length_range]
      inBucket := by
        intro i id hid
        rw [List.getD_eq_getElem?_getD, List.getElem?_map] at hid
        cases hi : (List.range (2 ^ (t.hashsize + 1)))[i]? with
        | none => simp [hi] at hid
        | some j =>
          obtain rfl : i = j := by
            rw [List.getElem?_range (by
              have := (List.getElem?_eq_some_iff.1 hi).1
              rwa [List.length_range] at this)] at hi
            exact Option.some.inj hi
          rw [hi, Option.map_some, Option.getD_some] at hid
          simpa using (List.mem_filter.1 hid).2
      ne_zero := by
        intro chain hchain id hid
        obtain ⟨j, -, rfl⟩ := List.mem_map.1 hchain
        obtain ⟨old, hold, hmem⟩ := List.mem_flatten.1 (List.mem_filter.1 hid).1
        exact t.ne_zero old hold id hmem }
  else t

/-- A new resource at the head of its chain. -/
def ClientResource.insert (t : ClientResource limitClients) (id : ℕ) (hid : id ≠ 0) : ClientResource limitClients where
  resources := t.resources.modify (hashResourceID limitClients id t.hashsize) (id :: ·)
  elements := t.elements + 1
  hashsize := t.hashsize
  length := by rw [List.length_modify, t.length]
  inBucket := by
    intro i x hx
    rw [List.getD_eq_getElem?_getD, List.getElem?_modify] at hx
    cases hi : t.resources[i]? with
    | none => simp [hi] at hx
    | some chain =>
      have hold : x ∈ chain → hashResourceID limitClients x t.hashsize = i := fun hmem =>
        t.inBucket i x (by rw [List.getD_eq_getElem?_getD, hi]; exact hmem)
      rw [hi] at hx
      by_cases hb : hashResourceID limitClients id t.hashsize = i
      · rcases List.mem_cons.1 (by simpa [hb] using hx) with rfl | hmem
        · exact hb
        · exact hold hmem
      · exact hold (by simpa [hb] using hx)
  ne_zero := by
    intro chain hchain x hx
    obtain ⟨i, hi, rfl⟩ := List.getElem_of_mem hchain
    rw [List.getElem_modify] at hx
    have hi' : i < t.resources.length := by rwa [List.length_modify] at hi
    have hold : x ∈ t.resources[i] → x ≠ 0 := t.ne_zero _ (List.getElem_mem hi') x
    split at hx
    · rcases List.mem_cons.1 hx with rfl | hmem
      · exact hid
      · exact hold hmem
    · exact hold hx

/-- `AddResource`; the answers are those to the allocations of `RebuildTable` and of the record. -/
def addResource (rebuild record : Bool) (id : ℕ) (hid : id ≠ 0) (t : ClientResource limitClients) :
    ClientResource limitClients × Bool :=
  let t := if t.elements ≥ 4 * t.resources.length ∧ t.hashsize < RESOURCE_MAXHASHSIZE then rebuildTable rebuild t else t
  if record then (t.insert id hid, true) else (t, false)

/-- `FreeResource`: every resource of this ID. -/
def freeResource (id : ℕ) (t : ClientResource limitClients) : ClientResource limitClients where
  resources := t.resources.map fun chain => chain.filter (· ≠ id)
  elements := t.elements - t.ids.count id
  hashsize := t.hashsize
  length := by rw [List.length_map, t.length]
  inBucket := by
    intro i x hx
    rw [List.getD_eq_getElem?_getD, List.getElem?_map] at hx
    cases hi : t.resources[i]? with
    | none => simp [hi] at hx
    | some chain =>
      rw [hi, Option.map_some, Option.getD_some] at hx
      exact t.inBucket i x (by rw [List.getD_eq_getElem?_getD, hi]; exact (List.mem_filter.1 hx).1)
  ne_zero := by
    intro chain hchain x hx
    obtain ⟨old, hold, rfl⟩ := List.mem_map.1 hchain
    exact t.ne_zero old hold x (List.mem_filter.1 hx).1

/-! ### GetXIDRange -/

/-- Whether a resource of this ID is in the bucket of its hash. -/
def ClientResource.inUse (t : ClientResource limitClients) (id : ℕ) : Bool :=
  (t.resources.getD (hashResourceID limitClients id t.hashsize) []).contains id

def availableID (t : ClientResource limitClients) (id maxid goodid : ℕ) : ℕ :=
  if goodid ≥ id ∧ goodid ≤ maxid then goodid
  else ((List.range' id (maxid + 1 - id)).find? fun id => !t.inUse id).getD 0

/-- The variables of the loop. -/
structure XIDRange where
  id : ℕ
  maxid : ℕ
  goodid : ℕ

/-- The body of the loop, for one resource. -/
def narrow (t : ClientResource limitClients) (s : XIDRange) (res : ℕ) : XIDRange :=
  if res < s.id ∨ res > s.maxid then s
  else
    let searchLeft := res - s.id ≥ s.maxid - res
    let goodid :=
      if searchLeft then availableID t s.id (res - 1) s.goodid
      else availableID t (res + 1) s.maxid s.goodid
    if goodid = 0 then ⟨s.id, res - 1, goodid⟩ else ⟨res + 1, s.maxid, goodid⟩

/-- Where the ID space of the client starts. -/
def firstID (limitClients client : ℕ) (server : Bool) : ℕ :=
  let id := client <<< CLIENTOFFSET limitClients
  if server then id ||| (if client ≠ 0 then SERVER_BIT else SERVER_MINID) else id

def getXIDRange (t : ClientResource limitClients) (client : ℕ) (server : Bool) : ℕ × ℕ :=
  let id := firstID limitClients client server
  let s := t.ids.foldl (narrow t) ⟨id, id ||| RESOURCE_ID_MASK limitClients, 0⟩
  if s.id > s.maxid then (0, 0) else (s.id, s.maxid)

/-! ### What the range is to be -/

/-- An ID between the two that is not in the list. -/
def HasFree (ids : List ℕ) (lo hi : ℕ) : Prop := ∃ x, lo ≤ x ∧ x ≤ hi ∧ x ∉ ids

/-- A range that starts and ends in the ID space, has an ID and none in use; or none at all. -/
def RangeSound (ids : List ℕ) (lo hi : ℕ) (r : ℕ × ℕ) : Prop :=
  r = (0, 0) ∨ lo ≤ r.1 ∧ r.1 ≤ r.2 ∧ r.2 ≤ hi ∧ ∀ x, r.1 ≤ x → x ≤ r.2 → x ∉ ids

/-- None at all only where every ID is in use. -/
def RangeComplete (ids : List ℕ) (lo hi : ℕ) (r : ℕ × ℕ) : Prop := r = (0, 0) → ¬HasFree ids lo hi

/-- What is left of a range when it is narrowed around some resources has a free ID: a resource
in the lower half leaves what is above it, or what is below it if nothing is free there; one in
the upper half must have a free ID on both sides, since what is above it is left. A range that starts
at 0 keeps its lower part, and must keep more than the 0. -/
def KeepsFree (ids : List ℕ) : ℕ → ℕ → List ℕ → Prop
  | lo, hi, [] => ¬(lo = 0 ∧ hi = 0)
  | lo, hi, res :: l =>
    if res < lo ∨ hi < res then KeepsFree ids lo hi l
    else if hi - res ≤ res - lo then
      if lo = 0 then KeepsFree ids lo (res - 1) l
      else HasFree ids lo (res - 1) ∧ HasFree ids (res + 1) hi ∧ KeepsFree ids (res + 1) hi l
    else
      HasFree ids (res + 1) hi ∧ KeepsFree ids (res + 1) hi l ∨
        ¬HasFree ids (res + 1) hi ∧ KeepsFree ids lo (res - 1) l

/-! ### The loop -/

section Loop

variable {t : ClientResource limitClients} {lo hi good x : ℕ} {s : XIDRange}

theorem ClientResource.inUse_iff (t : ClientResource limitClients) (id : ℕ) : t.inUse id = true ↔ id ∈ t.ids := by
  unfold ClientResource.inUse ClientResource.ids
  rw [contains_iff_mem, mem_flatten]
  constructor
  · intro hmem
    refine ⟨_, ?_, hmem⟩
    rw [getD_eq_getElem?_getD] at hmem ⊢
    cases hget : t.resources[hashResourceID limitClients id t.hashsize]? with
    | none => simp [hget] at hmem
    | some chain => simpa using mem_of_getElem? hget
  · rintro ⟨chain, hchain, hid⟩
    obtain ⟨i, hi, rfl⟩ := getElem_of_mem hchain
    have hget : t.resources.getD i [] = t.resources[i] := by simp [hi]
    rw [t.inBucket i id (hget ▸ hid), hget]
    exact hid

theorem ClientResource.ids_ne_zero (t : ClientResource limitClients) : 0 ∉ t.ids := by
  intro hmem
  obtain ⟨chain, hchain, hid⟩ := mem_flatten.1 hmem
  exact t.ne_zero chain hchain 0 hid rfl

/-- **`AvailableID`** above 0: a free ID, or 0 where there is none. -/
theorem availableID_spec (t : ClientResource limitClients) (hlo : lo ≠ 0) (hgood : good = 0 ∨ good ∉ t.ids) (hi : ℕ) :
    (availableID t lo hi good ≠ 0 ↔ HasFree t.ids lo hi) ∧
      (availableID t lo hi good = 0 ∨ availableID t lo hi good ∉ t.ids) := by
  unfold availableID
  by_cases hcache : good ≥ lo ∧ good ≤ hi
  · rw [if_pos hcache]
    have hfree : good ∉ t.ids := hgood.resolve_left (by omega)
    exact ⟨iff_of_true (by omega) ⟨good, hcache.1, hcache.2, hfree⟩, .inr hfree⟩
  · rw [if_neg hcache]
    cases hfind : (range' lo (hi + 1 - lo)).find? fun id => !t.inUse id with
    | none =>
      refine ⟨iff_of_false (fun h => h rfl) ?_, .inl rfl⟩
      rintro ⟨x, hx, hx', hfree⟩
      have huse := find?_eq_none.1 hfind x (mem_range'_1.2 ⟨hx, by omega⟩)
      exact hfree ((t.inUse_iff x).1 (by simpa using huse))
    | some x =>
      have hmem := mem_range'_1.1 (mem_of_find?_eq_some hfind)
      have huse : t.inUse x = false := by simpa using find?_some hfind
      have hfree : x ∉ t.ids := fun hmem => by
        rw [(t.inUse_iff x).2 hmem] at huse
        exact Bool.noConfusion huse
      refine ⟨iff_of_true ?_ ⟨x, hmem.1, by omega, hfree⟩, .inr hfree⟩
      change x ≠ 0
      omega

theorem availableID_zero (t : ClientResource limitClients) (hi : ℕ) : availableID t 0 hi 0 = 0 :=
  if_pos ⟨le_rfl, Nat.zero_le _⟩

variable {res : ℕ}

theorem narrow_out (h : res < s.id ∨ s.maxid < res) : narrow t s res = s := if_pos h

theorem narrow_in (h : ¬(res < s.id ∨ s.maxid < res)) :
    narrow t s res =
      let goodid := if s.maxid - res ≤ res - s.id then availableID t s.id (res - 1) s.goodid
        else availableID t (res + 1) s.maxid s.goodid
      if goodid = 0 then ⟨s.id, res - 1, goodid⟩ else ⟨res + 1, s.maxid, goodid⟩ := if_neg h

/-- One resource: the range gets smaller, and does not have the resource. -/
theorem narrow_avoids (t : ClientResource limitClients) (s : XIDRange) (hres : res ≠ 0) :
    s.id ≤ (narrow t s res).id ∧ (narrow t s res).maxid ≤ s.maxid ∧
      (res < (narrow t s res).id ∨ (narrow t s res).maxid < res) := by
  by_cases hout : res < s.id ∨ s.maxid < res
  · rw [narrow_out hout]
    exact ⟨le_rfl, le_rfl, hout⟩
  · rw [narrow_in hout]
    generalize (if s.maxid - res ≤ res - s.id then availableID t s.id (res - 1) s.goodid
      else availableID t (res + 1) s.maxid s.goodid) = good
    by_cases hgood : good = 0
    · rw [if_pos hgood]
      exact ⟨le_rfl, by dsimp only; omega, .inr (by dsimp only; omega)⟩
    · rw [if_neg hgood]
      exact ⟨by dsimp only; omega, le_rfl, .inl (Nat.lt_succ_self _)⟩

/-- **The range** has none of the resources it was narrowed around. -/
theorem foldl_avoids (t : ClientResource limitClients) {l : List ℕ} (hl : ∀ res ∈ l, res ≠ 0) (s : XIDRange) :
    s.id ≤ (l.foldl (narrow t) s).id ∧ (l.foldl (narrow t) s).maxid ≤ s.maxid ∧
      ∀ res ∈ l, res < (l.foldl (narrow t) s).id ∨ (l.foldl (narrow t) s).maxid < res := by
  induction l generalizing s with
  | nil => exact ⟨le_rfl, le_rfl, fun res hres => absurd hres (by simp)⟩
  | cons r l ih =>
    obtain ⟨h1, h2, h3⟩ := narrow_avoids t s (hl r mem_cons_self)
    obtain ⟨i1, i2, i3⟩ := ih (fun res hres => hl res (mem_cons_of_mem _ hres)) (narrow t s r)
    rw [foldl_cons]
    refine ⟨h1.trans i1, i2.trans h2, fun res hres => ?_⟩
    rcases mem_cons.1 hres with rfl | hres
    · omega
    · exact i3 res hres

/-- The end of the loop as `GetXIDRange` returns it. -/
def XIDRange.result (s : XIDRange) : ℕ × ℕ := if s.id > s.maxid then (0, 0) else (s.id, s.maxid)

theorem result_eq_zero (s : XIDRange) : s.result = (0, 0) ↔ s.maxid < s.id ∨ s.id = 0 ∧ s.maxid = 0 := by
  unfold XIDRange.result
  by_cases h : s.id > s.maxid
  · rw [if_pos h]
    exact iff_of_true rfl (.inl h)
  · rw [if_neg h, Prod.mk.injEq]
    omega

/-- A range with nothing free comes out empty. -/
theorem foldl_full (t : ClientResource limitClients) {l : List ℕ} (hl : ∀ res ∈ l, res ∈ t.ids)
    (hleft : ∀ x ∈ t.ids, s.id ≤ x → x ≤ s.maxid → x ∈ l) (hfull : ¬HasFree t.ids s.id s.maxid) :
    (l.foldl (narrow t) s).result = (0, 0) := by
  have hne : ∀ res ∈ l, res ≠ 0 := fun res hres h0 => t.ids_ne_zero (h0 ▸ hl res hres)
  obtain ⟨h1, h2, h3⟩ := foldl_avoids t hne s
  rw [result_eq_zero]
  by_contra hcon
  have hmem : (l.foldl (narrow t) s).id ∈ t.ids := by
    by_contra hfree
    exact hfull ⟨_, h1, by omega, hfree⟩
  have hin := h3 _ (hleft _ hmem h1 (by omega))
  omega

/-- What the loop keeps: the cached ID is free, and the resources of the range are still to come. -/
structure Narrowing (t : ClientResource limitClients) (l : List ℕ) (s : XIDRange) : Prop where
  inTable : ∀ res ∈ l, res ∈ t.ids
  left : ∀ x ∈ t.ids, s.id ≤ x → x ≤ s.maxid → x ∈ l
  good : s.goodid = 0 ∨ s.goodid ∉ t.ids
  zero : s.id = 0 → s.goodid = 0

/-- **The loop** ends with no range exactly where the narrowing does not keep a free ID. -/
theorem foldl_empty_iff (t : ClientResource limitClients) (l : List ℕ) (s : XIDRange) (h : Narrowing t l s)
    (hfree : HasFree t.ids s.id s.maxid) :
    (l.foldl (narrow t) s).result = (0, 0) ↔ ¬KeepsFree t.ids s.id s.maxid l := by
  induction l generalizing s with
  | nil =>
    obtain ⟨x, hx, hx', -⟩ := hfree
    rw [foldl_nil, result_eq_zero, KeepsFree]
    omega
  | cons res l ih =>
    have hres : res ∈ t.ids := h.inTable res mem_cons_self
    have hrest : ∀ r ∈ l, r ∈ t.ids := fun r hr => h.inTable r (mem_cons_of_mem _ hr)
    have hne : res ≠ 0 := fun h0 => t.ids_ne_zero (h0 ▸ hres)
    -- the resources of a smaller range without this one are still to come
    have hleft : ∀ lo hi, s.id ≤ lo → hi ≤ s.maxid → (res < lo ∨ hi < res) →
        ∀ x ∈ t.ids, lo ≤ x → x ≤ hi → x ∈ l := by
      intro lo hi hlo hhi hout x hx hx1 hx2
      rcases mem_cons.1 (h.left x hx (by omega) (by omega)) with rfl | hmem
      · omega
      · exact hmem
    rw [foldl_cons, KeepsFree]
    by_cases hout : res < s.id ∨ s.maxid < res
    · rw [narrow_out hout, if_pos hout]
      exact ih s ⟨hrest, hleft _ _ le_rfl le_rfl hout, h.good, h.zero⟩ hfree
    · rw [narrow_in hout, if_neg hout]
      -- the range above the resource, and the one below it
      have habove : ∀ good, good = 0 ∨ good ∉ t.ids → HasFree t.ids (res + 1) s.maxid →
          ((l.foldl (narrow t) ⟨res + 1, s.maxid, good⟩).result = (0, 0) ↔ ¬KeepsFree t.ids (res + 1) s.maxid l) :=
        fun good hgood => ih ⟨res + 1, s.maxid, good⟩
          ⟨hrest, hleft _ _ (by dsimp only; omega) le_rfl (.inl (Nat.lt_succ_self _)), hgood, fun h0 => absurd h0 (Nat.succ_ne_zero _)⟩
      have hbelow : HasFree t.ids s.id (res - 1) →
          ((l.foldl (narrow t) ⟨s.id, res - 1, 0⟩).result = (0, 0) ↔ ¬KeepsFree t.ids s.id (res - 1) l) :=
        ih ⟨s.id, res - 1, 0⟩ ⟨hrest, hleft _ _ le_rfl (by dsimp only; omega) (.inr (by dsimp only; omega)), .inl rfl, fun _ => rfl⟩
      by_cases hup : s.maxid - res ≤ res - s.id
      · rw [if_pos hup, if_pos hup]
        by_cases h0 : s.id = 0
        · have hzero : availableID t s.id (res - 1) s.goodid = 0 := by
            rw [h.zero h0, h0]
            exact availableID_zero t _
          rw [if_pos h0, hzero]
          apply hbelow
          exact ⟨0, by omega, Nat.zero_le _, t.ids_ne_zero⟩
        · obtain ⟨hfound, hgood⟩ := availableID_spec t h0 h.good (res - 1)
          rw [if_neg h0]
          by_cases hl : HasFree t.ids s.id (res - 1)
          · rw [if_neg (hfound.2 hl)]
            by_cases hr : HasFree t.ids (res + 1) s.maxid
            · rw [habove _ hgood hr]
              tauto
            · apply iff_of_true
              · exact foldl_full t hrest (hleft _ _ (by dsimp only; omega) le_rfl (.inl (Nat.lt_succ_self _))) hr
              · exact fun hk => hr hk.2.1
          · rw [if_pos (not_not.1 fun h => hl (hfound.1 h))]
            apply iff_of_true
            · exact foldl_full t hrest (hleft _ _ le_rfl (by dsimp only; omega) (.inr (by dsimp only; omega))) hl
            · exact fun hk => hl hk.1
      · rw [if_neg hup, if_neg hup]
        obtain ⟨hfound, hgood⟩ := availableID_spec t (by omega : res + 1 ≠ 0) h.good s.maxid
        by_cases hr : HasFree t.ids (res + 1) s.maxid
        · rw [if_neg (hfound.2 hr), habove _ hgood hr]
          tauto
        · have hzero : availableID t (res + 1) s.maxid s.goodid = 0 := not_not.1 fun h => hr (hfound.1 h)
          have hl : HasFree t.ids s.id (res - 1) := by
            obtain ⟨x, hx1, hx2, hx⟩ := hfree
            have hxr : x ≠ res := fun heq => hx (heq ▸ hres)
            have hle : x ≤ res := not_lt.1 fun hlt => hr ⟨x, hlt, hx2, hx⟩
            exact ⟨x, hx1, by omega, hx⟩
          rw [if_pos hzero, hzero]
          tauto

theorem getXIDRange_eq (t : ClientResource limitClients) (client : ℕ) (server : Bool) :
    getXIDRange t client server = (t.ids.foldl (narrow t) ⟨firstID limitClients client server,
      firstID limitClients client server ||| RESOURCE_ID_MASK limitClients, 0⟩).result := rfl

/-- **`GetXIDRange`** never gives a range with an ID in use; it gives none although there are
unused IDs exactly where the narrowing does not keep one. -/
theorem get_xid_range_complete (t : ClientResource limitClients) (client : ℕ) (server : Bool) :
    let lo := firstID limitClients client server
    let hi := lo ||| RESOURCE_ID_MASK limitClients
    RangeSound t.ids lo hi (getXIDRange t client server) ∧
      (RangeComplete t.ids lo hi (getXIDRange t client server) ↔ ¬HasFree t.ids lo hi ∨ KeepsFree t.ids lo hi t.ids) := by
  intro lo hi
  have hne : ∀ res ∈ t.ids, res ≠ 0 := fun res hres h0 => t.ids_ne_zero (h0 ▸ hres)
  rw [getXIDRange_eq]
  constructor
  · obtain ⟨h1, h2, h3⟩ := foldl_avoids t hne ⟨lo, hi, 0⟩
    unfold XIDRange.result
    by_cases hempty : (t.ids.foldl (narrow t) ⟨lo, hi, 0⟩).id > (t.ids.foldl (narrow t) ⟨lo, hi, 0⟩).maxid
    · exact .inl (if_pos hempty)
    · rw [if_neg hempty]
      refine .inr ⟨h1, not_lt.1 hempty, h2, fun x hx hx' hmem => ?_⟩
      rcases h3 x hmem with hlt | hlt
      · exact absurd hx (not_le.2 hlt)
      · exact absurd hx' (not_le.2 hlt)
  · unfold RangeComplete
    by_cases hfree : HasFree t.ids lo hi
    · have hiff := foldl_empty_iff t t.ids ⟨lo, hi, 0⟩
        ⟨fun _ h => h, fun _ h _ _ => h, .inl rfl, fun _ => rfl⟩ hfree
      tauto
    · exact iff_of_true (fun _ => hfree) (.inl hfree)

end Loop

/-! ### One resource -/

/-- A table with one resource. -/
def oneResource (id : ℕ) (hid : id ≠ 0) : ClientResource 256 :=
  (addResource true true id hid (initClientResources 256)).1

/-- With the last ID of a client in use and no other, no range is found. -/
theorem last_id_in_use :
    ¬RangeComplete (oneResource 0x3fffff (by decide)).ids (firstID 256 1 false)
      (firstID 256 1 false ||| RESOURCE_ID_MASK 256) (getXIDRange (oneResource 0x3fffff (by decide)) 1 false) := by
  have hnone : getXIDRange (oneResource 0x3fffff (by decide)) 1 false = (0, 0) := by decide +kernel
  intro hcomplete
  apply hcomplete hnone
  exact ⟨0x200000, by decide, by decide, by decide +kernel⟩

end Xenia.Dix
