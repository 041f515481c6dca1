import Xenia.Xext.HashTable

/-!
# What a hash table stores

`Spread` says that the lists of a table hold its elements, each in the bucket of its key.
`double_size` empties the old lists into the new ones one node at a time; `Moving` is the
state of affairs in between, and `doubleSize_spread` the result. `Holds` adds what the user
knows: the keys stored, with the pointers `ht_add` gave out for them.

`hashTable_stored` is the result over all runs. The counter of elements is an `int`, and
`hashTable_elements_wraps` shows what that means for a table of `2 ^ 31` keys.
-/

namespace Xenia.Xext

open Xenia.Lib List Function Option

variable {κ : Type} {K : KeyOps κ}

/-! ### The bucket arrays -/

/-- The heads of a bucket array. -/
def heads (array n : ℕ) : Set HtNode := {h | ∃ i < n, h = .bucket array i}

theorem bucket_mem_heads {array n i : ℕ} (hi : i < n) : HtNode.bucket array i ∈ heads array n :=
  ⟨i, hi, rfl⟩

theorem heads_succ (array n : ℕ) : heads array (n + 1) = insert (.bucket array n) (heads array n) := by
  ext h
  constructor
  · rintro ⟨i, hi, rfl⟩
    rcases Nat.lt_succ_iff_lt_or_eq.1 hi with hi | rfl
    · exact .inr (bucket_mem_heads hi)
    · exact .inl rfl
  · rintro (rfl | ⟨i, hi, rfl⟩)
    · exact bucket_mem_heads (Nat.lt_succ_self n)
    · exact bucket_mem_heads (Nat.lt_succ_of_lt hi)

/-- A new array adds empty rings to those that are there. -/
theorem initBuckets_rings {l : Links HtNode} {H : Set HtNode} {c : HtNode → List HtNode} (array : ℕ)
    (hR : Links.Rings l H c) (hnot : ∀ i, HtNode.bucket array i ∉ H)
    (hc : ∀ k ∈ H, ∀ i, HtNode.bucket array i ∉ c k) (n : ℕ) :
    ∃ d, Links.Rings (initBuckets array n l) (heads array n ∪ H) d ∧ (∀ k ∈ H, d k = c k) ∧
      ∀ i < n, d (.bucket array i) = [] := by
  induction n with
  | zero =>
    refine ⟨c, ?_, fun _ _ => rfl, fun i hi => absurd hi (Nat.not_lt_zero i)⟩
    have : heads array 0 ∪ H = H := by
      ext h; simp [heads]
    rw [this]; exact hR
  | succ n ih =>
    obtain ⟨d, hd, hkeep, hnil⟩ := ih
    have hnew : HtNode.bucket array n ∉ heads array n ∪ H := by
      rintro (⟨i, hi, heq⟩ | h)
      · injection heq with _ h; omega
      · exact hnot n h
    have hfree : ∀ k ∈ heads array n ∪ H, HtNode.bucket array n ∉ k :: d k := by
      rintro k hk hmem
      rcases mem_cons.1 hmem with rfl | hmem
      · exact hnew hk
      · rcases hk with ⟨i, hi, rfl⟩ | hk
        · rw [hnil i hi] at hmem; simp at hmem
        · rw [hkeep k hk] at hmem; exact hc k hk n hmem
    refine ⟨update d (.bucket array n) [], ?_, fun k hk => ?_, fun i hi => ?_⟩
    · rw [heads_succ, Set.insert_union, initBuckets, range_succ, foldl_append]
      exact hd.init hfree hnew
    · rw [update_of_ne (fun heq : k = .bucket array n => hnot n (heq ▸ hk)), hkeep k hk]
    · by_cases hin : i = n
      · rw [hin, update_self]
      · rw [update_of_ne (by simpa using hin), hnil i (by omega)]

/-! ### Elements in their buckets -/

/-- The node is an element whose key belongs in bucket `i`. -/
def InPlace (K : KeyOps κ) (elems : ℕ → Option (BucketRec κ)) (bits i : ℕ) (n : HtNode) : Prop :=
  ∃ e b, n = .elem e ∧ elems e = some b ∧ K.hash b.key bits = i

/-- The lists `d` of the table hold its elements, each in the bucket of its key. -/
structure Spread (K : KeyOps κ) (t : HashTable κ) (d : HtNode → List HtNode) : Prop where
  rings : Links.Rings t.links (heads t.buckets (2 ^ t.bucketBits)) d
  inPlace : ∀ i < 2 ^ t.bucketBits, ∀ n ∈ d (.bucket t.buckets i), InPlace K t.elems t.bucketBits i n
  all : ∀ e b, t.elems e = some b → .elem e ∈ d (.bucket t.buckets (K.hash b.key t.bucketBits))
  fresh : ∀ e b, t.elems e = some b → e < t.nextElem
  array : t.buckets < t.nextArray

section Spread

variable {t t' : HashTable κ} {d : HtNode → List HtNode} {e i : ℕ} {b : BucketRec κ}

section

variable (h : Spread K t d)
include h

theorem Spread.length_lt (hi : i < 2 ^ t.bucketBits) :
    (d (.bucket t.buckets i)).length < t.nextElem + 1 := by
  have hnd := (nodup_cons.1 (h.rings.ring _ (bucket_mem_heads hi)).nodup).2
  have hsub : d (.bucket t.buckets i) ⊆ (range t.nextElem).map HtNode.elem := by
    intro n hn
    obtain ⟨e, b, rfl, he, -⟩ := h.inPlace i hi n hn
    exact mem_map.2 ⟨e, mem_range.2 (h.fresh e b he), rfl⟩
  have := (hnd.subperm hsub).length_le
  rw [length_map, length_range] at this
  omega

/-- A loop over a bucket meets the nodes of its list. -/
theorem Spread.bucketList (hi : i < 2 ^ t.bucketBits) :
    t.bucketList i = d (.bucket t.buckets i) :=
  (h.rings.ring _ (bucket_mem_heads hi)).walk (h.length_lt hi)

/-- The place of an element in its list. -/
theorem Spread.split (he : t.elems e = some b) :
    ∃ us vs, d (.bucket t.buckets (K.hash b.key t.bucketBits)) = us ++ .elem e :: vs :=
  append_of_mem (h.all e b he)

/-- A node that is not an element is on no list. -/
theorem Spread.notMem (he : t.elems e = none) :
    ∀ k ∈ heads t.buckets (2 ^ t.bucketBits), HtNode.elem e ∉ k :: d k := by
  rintro k ⟨i, hi, rfl⟩ hmem
  rcases mem_cons.1 hmem with heq | hmem
  · exact absurd heq (by simp)
  · obtain ⟨e', b, heq, he', -⟩ := h.inPlace i hi _ hmem
    cases heq
    exact absurd (he.symm.trans he') (by simp)

theorem Spread.next_free : t.elems t.nextElem = none := by
  cases he : t.elems t.nextElem with
  | none => rfl
  | some b => exact absurd (h.fresh _ b he) (lt_irrefl _)

end

theorem htCreate_spread {dataSize : ℕ} {table buckets : Bool}
    (h : htCreate dataSize table buckets = some t) :
    ∃ d, Spread K t d ∧ t.elements = 0 ∧ ∀ e, t.elems e = none := by
  unfold htCreate at h
  split at h
  · cases h
    have hnull : Links.Rings (⟨fun _ => none, fun _ => none⟩ : Links HtNode) ∅ fun _ => [] :=
      ⟨fun _ h => absurd h (by simp), fun _ h => absurd h (by simp)⟩
    obtain ⟨d, hd, -, hnil⟩ := initBuckets_rings 0 hnull (by simp) (by simp) (2 ^ INITHASHSIZE)
    rw [Set.union_empty] at hd
    refine ⟨d, ⟨hd, fun i hi n hn => ?_, fun e b he => ?_, fun e b he => ?_, one_pos⟩, rfl, fun _ => rfl⟩
    · rw [hnil i hi] at hn; simp at hn
    · exact absurd he (by simp)
    · exact absurd he (by simp)
  · exact absurd h (by simp)

/-! ### Inserting and removing -/

theorem insertElem_spread (h : Spread K t d) (b : BucketRec κ) :
    Spread K (insertElem K b t)
      (update d (.bucket t.buckets (K.hash b.key t.bucketBits))
        (.elem t.nextElem :: d (.bucket t.buckets (K.hash b.key t.bucketBits)))) := by
  have hnext := h.next_free
  have hne : ∀ {e b}, t.elems e = some b → e ≠ t.nextElem := by
    rintro e b he rfl
    exact absurd (hnext.symm.trans he) (by simp)
  refine ⟨h.rings.add (bucket_mem_heads (K.hash_lt ..)) (h.notMem hnext), fun i hi n hn => ?_,
    fun e b' he => ?_, fun e b' he => ?_, h.array⟩
  · dsimp only [insertElem] at hi hn ⊢
    have hold : n ∈ d (.bucket t.buckets i) →
        InPlace K (update t.elems t.nextElem (some b)) t.bucketBits i n := fun hn => by
      obtain ⟨e, b', rfl, he, hi'⟩ := h.inPlace i hi n hn
      exact ⟨e, b', rfl, by rw [update_of_ne (hne he)]; exact he, hi'⟩
    by_cases hib : i = K.hash b.key t.bucketBits
    · subst hib
      rw [update_self] at hn
      rcases mem_cons.1 hn with rfl | hn
      · exact ⟨_, b, rfl, update_self .., rfl⟩
      · exact hold hn
    · rw [update_of_ne (by simpa using hib)] at hn
      exact hold hn
  · dsimp only [insertElem] at he ⊢
    by_cases heq : e = t.nextElem
    · subst heq
      rw [update_self] at he
      cases he
      rw [update_self]
      exact mem_cons_self
    · rw [update_of_ne heq] at he
      have hmem := h.all e b' he
      by_cases hib : K.hash b'.key t.bucketBits = K.hash b.key t.bucketBits
      · rw [hib, update_self, ← hib]; exact mem_cons_of_mem _ hmem
      · rw [update_of_ne (by simpa using hib)]; exact hmem
  · dsimp only [insertElem] at he ⊢
    by_cases heq : e = t.nextElem
    · omega
    · rw [update_of_ne heq] at he
      exact Nat.lt_succ_of_lt (h.fresh e b' he)

/-- The insertion undone: the lists are what they were. -/
theorem insertElem_del_rings (h : Spread K t d) (b : BucketRec κ) :
    Links.Rings ((insertElem K b t).links.del (.elem t.nextElem))
      (heads t.buckets (2 ^ t.bucketBits)) d := by
  set head := HtNode.bucket t.buckets (K.hash b.key t.bucketBits) with hhead
  have hmem : head ∈ heads t.buckets (2 ^ t.bucketBits) := bucket_mem_heads (K.hash_lt ..)
  have hadd := h.rings.add hmem (h.notMem h.next_free)
  have hself : update d head (.elem t.nextElem :: d head) head =
      [] ++ .elem t.nextElem :: d head := update_self ..
  have hdel := (hadd.del hmem hself).1
  refine hdel.congr fun k _ => ?_
  by_cases hk : k = head
  · rw [hk, update_self, nil_append]
  · rw [update_of_ne hk, update_of_ne hk]

theorem remove_spread (h : Spread K t d) (he : t.elems e = some b) (n : ℤ) :
    ∃ d', Spread K { t with
      links := t.links.del (.elem e), elements := n, elems := update t.elems e none } d' := by
  obtain ⟨us, vs, hsplit⟩ := h.split he
  have hmem : HtNode.bucket t.buckets (K.hash b.key t.bucketBits) ∈ _ := bucket_mem_heads (K.hash_lt ..)
  obtain ⟨hrings, hout⟩ := h.rings.del hmem hsplit
  have hkeep : ∀ i n, n ≠ .elem e →
      (n ∈ update d (.bucket t.buckets (K.hash b.key t.bucketBits)) (us ++ vs)
        (.bucket t.buckets i) ↔ n ∈ d (.bucket t.buckets i)) := by
    intro i n hn
    by_cases hib : i = K.hash b.key t.bucketBits
    · subst hib; rw [hsplit]; simp [hn]
    · rw [update_of_ne (by simpa using hib)]
  refine ⟨_, hrings, fun i hi n hn => ?_, fun e' b' he' => ?_, fun e' b' he' => ?_, h.array⟩
  · have hne : n ≠ .elem e := fun heq =>
      hout _ (bucket_mem_heads hi) (mem_cons_of_mem _ (heq ▸ hn))
    obtain ⟨e', b', rfl, he', hi'⟩ := h.inPlace i hi n ((hkeep i n hne).1 hn)
    exact ⟨e', b', rfl, (update_of_ne (by simpa using hne) ..).trans he', hi'⟩
  · dsimp only at he' ⊢
    by_cases heq : e' = e
    · subst heq; simp at he'
    · rw [update_of_ne heq] at he'
      exact (hkeep _ _ (by simpa using heq)).2 (h.all e' b' he')
  · dsimp only at he' ⊢
    by_cases heq : e' = e
    · subst heq; simp at he'
    · exact h.fresh e' b' ((update_of_ne heq ..).symm.trans he')

end Spread

/-! ### Doubling -/

/-- While an array of `2 ^ bits` lists is emptied into one of twice as many: the lists
before `j` are empty, `ns` is what is left of list `j`, the lists after `j` are still `c`. -/
def Moving (K : KeyOps κ) (elems : ℕ → Option (BucketRec κ)) (old new bits : ℕ)
    (c : HtNode → List HtNode) (j : ℕ) (ns : List HtNode) (l : Links HtNode) : Prop :=
  ∃ d, Links.Rings l (heads new (2 ^ (bits + 1)) ∪ heads old (2 ^ bits)) d ∧
    (∀ i < 2 ^ bits, d (.bucket old i) =
      if i < j then [] else if i = j then ns else c (.bucket old i)) ∧
    (∀ i < 2 ^ bits, ∀ n ∈ d (.bucket old i), InPlace K elems bits i n) ∧
    (∀ i < 2 ^ (bits + 1), ∀ n ∈ d (.bucket new i), InPlace K elems (bits + 1) i n) ∧
    ∀ e b, elems e = some b → .elem e ∈ d (.bucket old (K.hash b.key bits)) ∨
      .elem e ∈ d (.bucket new (K.hash b.key (bits + 1)))

section Moving

variable {elems : ℕ → Option (BucketRec κ)} {old new bits j : ℕ} {c : HtNode → List HtNode}
  {l : Links HtNode}

/-- One turn of the loop over a list. -/
theorem Moving.step (hon : old ≠ new) (hj : j < 2 ^ bits) (n : HtNode) (ns : List HtNode)
    (l : Links HtNode) (h : Moving K elems old new bits c j (n :: ns) l) :
    n ≠ .bucket old j ∧ l.next n = some (ns.headD (.bucket old j)) ∧
      Moving K elems old new bits c j ns (rehash K elems new (bits + 1) n l) := by
  obtain ⟨d, hR, hold, hin, hnew, hall⟩ := h
  have hdj : d (.bucket old j) = n :: ns := by rw [hold j hj, if_neg (lt_irrefl j), if_pos rfl]
  obtain ⟨e, b, rfl, he, -⟩ := hin j hj n (by rw [hdj]; exact mem_cons_self)
  have hjmem : HtNode.bucket old j ∈ heads new (2 ^ (bits + 1)) ∪ heads old (2 ^ bits) :=
    .inr (bucket_mem_heads hj)
  have hring := hR.ring _ hjmem
  rw [hdj] at hring
  obtain ⟨hdel, hout⟩ := hR.del hjmem (hdj.trans (nil_append _).symm)
  have hadd := hdel.add (h := .bucket new (K.hash b.key (bits + 1)))
    (.inl (bucket_mem_heads (K.hash_lt ..))) hout
  have hne : ∀ i k, HtNode.bucket new k ≠ .bucket old i := fun i k heq => by
    injection heq with heq; exact hon heq.symm
  have hdnew : ∀ k, update d (.bucket old j) ([] ++ ns) (.bucket new k) = d (.bucket new k) :=
    fun k => update_of_ne (hne j k) ..
  rw [hdnew] at hadd
  refine ⟨by simp, hring.next.2.first, update (update d (.bucket old j) ([] ++ ns))
    (.bucket new (K.hash b.key (bits + 1))) (.elem e :: d (.bucket new (K.hash b.key (bits + 1)))), ?_,
    fun i hi => ?_, fun i hi m hm => ?_, fun i hi m hm => ?_,
    fun e' b' he' => ?_⟩
  · have : rehash K elems new (bits + 1) (.elem e) l =
        (l.del (.elem e)).add (.elem e) (.bucket new (K.hash b.key (bits + 1))) := by
      simp only [rehash, he]
    rw [this]; exact hadd
  · rw [update_of_ne (hne i _).symm]
    by_cases hij : i = j
    · subst hij
      rw [update_self, if_neg (lt_irrefl i), if_pos rfl, nil_append]
    · rw [update_of_ne (by simpa using hij), hold i hi, if_neg hij, if_neg hij]
  · rw [update_of_ne (hne i _).symm] at hm
    by_cases hij : i = j
    · subst hij
      rw [update_self] at hm
      exact hin i hi m (by rw [hdj]; exact mem_cons_of_mem _ hm)
    · rw [update_of_ne (by simpa using hij)] at hm
      exact hin i hi m hm
  · by_cases hib : i = K.hash b.key (bits + 1)
    · subst hib
      rw [update_self] at hm
      rcases mem_cons.1 hm with rfl | hm
      · exact ⟨e, b, rfl, he, rfl⟩
      · exact hnew _ hi m hm
    · rw [update_of_ne (by simpa using hib), hdnew] at hm
      exact hnew i hi m hm
  · by_cases hee : e' = e
    · subst hee
      cases he.symm.trans he'
      right
      rw [update_self]
      exact mem_cons_self
    · rcases hall e' b' he' with hmem | hmem
      · left
        rw [update_of_ne (hne _ _).symm]
        by_cases hij : K.hash b'.key bits = j
        · rw [hij, hdj] at hmem
          rw [hij, update_self]
          rcases mem_cons.1 hmem with heq | hmem
          · cases heq; exact absurd rfl hee
          · exact hmem
        · rw [update_of_ne (by simpa using hij)]; exact hmem
      · right
        by_cases hib : K.hash b'.key (bits + 1) = K.hash b.key (bits + 1)
        · rw [hib, update_self, ← hib]; exact mem_cons_of_mem _ hmem
        · rw [update_of_ne (by simpa using hib), hdnew]; exact hmem

/-- The loop over one list. -/
theorem Moving.list (hon : old ≠ new) (hj : j < 2 ^ bits) {fuel : ℕ}
    (hf : (c (.bucket old j)).length < fuel)
    (h : Moving K elems old new bits c j (c (.bucket old j)) l) :
    Moving K elems old new bits c j []
      (Links.forEachSafe id (rehash K elems new (bits + 1)) (.bucket old j) fuel
        (l.next (.bucket old j)) l) := by
  have hfirst : l.next (.bucket old j) = some ((c (.bucket old j)).headD (.bucket old j)) := by
    obtain ⟨d, hR, hold, -⟩ := h
    have hring := hR.ring (.bucket old j) (.inr (bucket_mem_heads hj))
    rw [hold j hj, if_neg (lt_irrefl j), if_pos rfl] at hring
    exact hring.next.first
  rw [hfirst]
  exact Links.forEachSafe_rule (Moving.step hon hj) _ fuel l hf h

/-- The next list. -/
theorem Moving.next (h : Moving K elems old new bits c j [] l) :
    Moving K elems old new bits c (j + 1) (c (.bucket old (j + 1))) l := by
  obtain ⟨d, hR, hold, hrest⟩ := h
  refine ⟨d, hR, fun i hi => ?_, hrest⟩
  rw [hold i hi]
  rcases lt_trichotomy i j with hij | rfl | hij
  · rw [if_pos hij, if_pos (Nat.lt_succ_of_lt hij)]
  · rw [if_neg (lt_irrefl i), if_pos rfl, if_pos (Nat.lt_succ_self i)]
  · rw [if_neg (by omega), if_neg (by omega), if_neg (by omega)]
    split
    · rename_i heq; rw [heq]
    · rfl

end Moving

section Double

variable {t t' : HashTable κ} {d : HtNode → List HtNode}

/-- All lists before `j` have been emptied. -/
theorem doubleSize_moving (h : Spread K t d) :
    ∀ j ≤ 2 ^ t.bucketBits, Moving K t.elems t.buckets t.nextArray t.bucketBits d j
      (d (.bucket t.buckets j))
      ((range j).foldl (fun l c => Links.forEachSafe id
          (rehash K t.elems t.nextArray (t.bucketBits + 1)) (.bucket t.buckets c) (t.nextElem + 1)
          (l.next (.bucket t.buckets c)) l)
        (initBuckets t.nextArray (2 ^ (t.bucketBits + 1)) t.links)) := by
  have hon : t.buckets ≠ t.nextArray := h.array.ne
  intro j
  induction j with
  | zero =>
    intro _
    obtain ⟨d', hR, hkeep, hnil⟩ := initBuckets_rings t.nextArray h.rings
      (by rintro i ⟨_, _, heq⟩; injection heq with heq; exact hon heq.symm)
      (by
        rintro k ⟨i, hi, rfl⟩ m hm
        obtain ⟨_, _, heq, -⟩ := h.inPlace i hi _ hm
        exact absurd heq (by simp))
      (2 ^ (t.bucketBits + 1))
    have hold : ∀ i < 2 ^ t.bucketBits, d' (.bucket t.buckets i) = d (.bucket t.buckets i) :=
      fun i hi => hkeep _ (bucket_mem_heads hi)
    refine ⟨d', hR, fun i hi => ?_, fun i hi n hn => ?_, fun i hi n hn => ?_, fun e b he => .inl ?_⟩
    · rw [hold i hi, if_neg (Nat.not_lt_zero i)]
      split
      · rename_i heq; rw [heq]
      · rfl
    · rw [hold i hi] at hn; exact h.inPlace i hi n hn
    · rw [hnil i hi] at hn; simp at hn
    · rw [hold _ (K.hash_lt ..)]; exact h.all e b he
  | succ j ih =>
    intro hj
    rw [range_succ, foldl_append]
    exact (Moving.list hon (by omega) (h.length_lt (by omega)) (ih (by omega))).next

/-- **`double_size`** loses and duplicates no element. -/
theorem doubleSize_spread (h : Spread K t d) {granted : Bool}
    (ht : doubleSize K granted t = some t') :
    (∃ d', Spread K t' d') ∧ t'.elems = t.elems ∧ t'.elements = t.elements := by
  unfold doubleSize at ht
  split at ht
  · cases ht
    obtain ⟨d', hR, hold, -, hnew, hall⟩ := doubleSize_moving h _ le_rfl
    refine ⟨⟨d', hR.mono (Set.subset_union_left), hnew, fun e b he => ?_, h.fresh, Nat.lt_succ_self _⟩,
      rfl, rfl⟩
    rcases hall e b he with hmem | hmem
    · rw [hold _ (K.hash_lt ..), if_pos (K.hash_lt ..)] at hmem
      simp at hmem
    · exact hmem
  · exact absurd ht (by simp)

end Double

/-! ### Keys -/

section Keys

variable {t t' : HashTable κ} {d : HtNode → List HtNode}

/-- No two elements have the same key. -/
def KeysDiffer (t : HashTable κ) : Prop :=
  ∀ e b e' b', t.elems e = some b → t.elems e' = some b' → b.key = b'.key → e = e'

/-- **A lookup** finds the element with the key. -/
theorem htLookup_iff (h : Spread K t d) (hk : KeysDiffer t) {key : κ} {e : ℕ} {b : BucketRec κ} :
    htLookup K key t = some (e, b) ↔ t.elems e = some b ∧ b.key = key := by
  have hlist : t.bucketList (K.hash key t.bucketBits) = _ := h.bucketList (K.hash_lt ..)
  have sound : ∀ {e b}, htLookup K key t = some (e, b) → t.elems e = some b ∧ b.key = key := by
    intro e b hlook
    obtain ⟨n, -, hn⟩ := exists_of_findSome?_eq_some hlook
    cases n with
    | bucket => exact absurd hn (by simp)
    | elem e' =>
      obtain ⟨b', he', hb'⟩ := bind_eq_some_iff.1 hn
      split at hb'
      · rename_i hcmp
        cases hb'
        exact ⟨he', ((K.compare_eq_zero ..).1 hcmp).symm⟩
      · exact absurd hb' (by simp)
  refine ⟨sound, fun ⟨he, hkey⟩ => ?_⟩
  cases hlook : htLookup K key t with
  | none =>
    have hmem := h.all e b he
    rw [hkey, ← hlist] at hmem
    have := findSome?_eq_none_iff.1 hlook _ hmem
    simp [he, (K.compare_eq_zero key b.key).2 hkey.symm] at this
  | some r =>
    obtain ⟨e', b'⟩ := r
    obtain ⟨he', hkey'⟩ := sound hlook
    obtain rfl := hk e b e' b' he he' (hkey.trans hkey'.symm)
    cases he.symm.trans he'
    rfl

theorem htLookup_none (h : Spread K t d) (hk : KeysDiffer t) {key : κ}
    (hnone : htLookup K key t = none) {e : ℕ} {b : BucketRec κ} (he : t.elems e = some b) :
    b.key ≠ key := fun hkey => by
  have := (htLookup_iff h hk).2 ⟨he, hkey⟩
  rw [hnone] at this
  exact absurd this (by simp)

/-- What a call of `ht_add` does: nothing; an insertion undone; an insertion; or an
insertion followed by a doubling. -/
theorem htAdd_cases (K : KeyOps κ) (a : HtAlloc) (key : κ) (t : HashTable κ) :
    htAdd K a key t = (t, none) ∨
      (let t' := insertElem K ⟨key, a.data⟩ t
       htAdd K a key t = ({ t with
          elements := wrapInt (t'.elements - 1), links := t'.links.del (.elem t.nextElem) }, none) ∨
        ∃ t'', (t'' = t' ∨ doubleSize K a.buckets t' = some t'') ∧
          htAdd K a key t = (t'', some (dataPtr t.nextElem ⟨key, a.data⟩))) := by
  unfold htAdd
  split
  · exact .inl rfl
  split
  · exact .inl rfl
  split
  · exact .inl rfl
  right
  dsimp only
  split
  · cases hd : doubleSize K a.buckets (insertElem K ⟨key, a.data⟩ t) with
    | none => exact .inl rfl
    | some t'' => exact .inr ⟨t'', .inr rfl, rfl⟩
  · exact .inr ⟨_, .inl rfl, rfl⟩

/-- With every allocation granted `ht_add` returns a pointer. -/
theorem htAdd_granted (K : KeyOps κ) (key : κ) (t : HashTable κ) :
    (htAdd K ⟨true, true, true, true⟩ key t).2 = some (.data t.nextElem) := by
  have hdouble : ∀ t : HashTable κ, ∃ t', doubleSize K true t = some t' := fun t => ⟨_, rfl⟩
  unfold htAdd
  simp only [Bool.not_true, Bool.false_eq_true, and_false, if_false]
  split
  · obtain ⟨t', ht'⟩ := hdouble (insertElem K ⟨key, true⟩ t)
    rw [ht']; rfl
  · rfl

end Keys

/-! ### What the user knows -/

/-- The table holds exactly the keys `es`, each with the pointer given out for it. -/
structure Holds (K : KeyOps κ) (t : HashTable κ) (es : Stored κ) : Prop where
  spread : ∃ d, Spread K t d
  stored : ∀ k p, (k, p) ∈ es ↔ ∃ e b, t.elems e = some b ∧ b.key = k ∧ dataPtr e b = p
  nodup : (es.map Prod.fst).Nodup
  elements : t.elements = wrapInt es.length

/-- The same table, for one who walks its lists. -/
structure SameTable (t t' : HashTable κ) : Prop where
  dataSize : t'.dataSize = t.dataSize
  elements : t'.elements = t.elements
  bucketBits : t'.bucketBits = t.bucketBits
  elems : t'.elems = t.elems
  lists : ∀ i < 2 ^ t.bucketBits, t'.bucketList i = t.bucketList i

theorem dataPtr_inj {e e' : ℕ} {b b' : BucketRec κ} (h : dataPtr e b = dataPtr e' b') : e = e' := by
  unfold dataPtr at h
  split at h <;> split at h <;> simp_all

/-- Key and pointer of a node. -/
def entry (t : HashTable κ) : HtNode → Option (κ × DataPtr)
  | .bucket .. => none
  | .elem e => (t.elems e).map fun b => (b.key, dataPtr e b)

/-- The entries of the table, bucket by bucket. -/
def contents (t : HashTable κ) : List (κ × DataPtr) :=
  (List.range (2 ^ t.bucketBits)).flatMap fun c => (t.bucketList c).filterMap (entry t)

section Holds

variable {t t' : HashTable κ} {es : Stored κ}

section

variable (h : Holds K t es)
include h

theorem Holds.keysDiffer : KeysDiffer t := by
  intro e b e' b' he he' hkey
  have h1 := (h.stored b.key (dataPtr e b)).2 ⟨e, b, he, rfl, rfl⟩
  have h2 := (h.stored b.key (dataPtr e' b')).2 ⟨e', b', he', hkey.symm, rfl⟩
  have hp := inj_on_of_nodup_map h.nodup h1 h2 rfl
  exact dataPtr_inj (congrArg Prod.snd hp)

/-- **The contents** of the table are what is stored, each entry once. -/
theorem Holds.contents : (contents t).Perm es := by
  obtain ⟨d, hs⟩ := h.spread
  have hlist : ∀ i ∈ range (2 ^ t.bucketBits),
      (t.bucketList i).filterMap (entry t) = (d (.bucket t.buckets i)).filterMap (entry t) :=
    fun i hi => by rw [hs.bucketList (mem_range.1 hi)]
  -- an entry tells its node
  have hentry : ∀ n n' p, p ∈ entry t n → p ∈ entry t n' → n = n' := by
    intro n n' p hn hn'
    cases n with
    | bucket => exact absurd hn (by simp [entry])
    | elem e =>
      cases n' with
      | bucket => exact absurd hn' (by simp [entry])
      | elem e' =>
        obtain ⟨b, -, rfl⟩ := map_eq_some_iff.1 hn
        obtain ⟨b', -, heq⟩ := map_eq_some_iff.1 hn'
        rw [dataPtr_inj (congrArg Prod.snd heq)]
  unfold Xext.contents
  rw [flatMap_congr hlist]
  refine (perm_ext_iff_of_nodup ?_ h.nodup.of_map).2 ?_
  · refine nodup_flatMap.2 ⟨fun i hi => ?_, nodup_range.imp_of_mem fun hi hj hij => ?_⟩
    · have := (hs.rings.ring _ (bucket_mem_heads (mem_range.1 hi))).nodup
      exact (nodup_cons.1 this).2.filterMap hentry
    · intro p hp hp'
      obtain ⟨n, hn, hpn⟩ := mem_filterMap.1 hp
      obtain ⟨n', hn', hpn'⟩ := mem_filterMap.1 hp'
      obtain rfl := hentry n n' p hpn hpn'
      exact hs.rings.disj _ (bucket_mem_heads (mem_range.1 hi)) _
        (bucket_mem_heads (mem_range.1 hj)) (by simpa using hij) (mem_cons_of_mem _ hn)
        (mem_cons_of_mem _ hn')
  · rintro ⟨k, p⟩
    rw [h.stored]
    constructor
    · intro hmem
      obtain ⟨i, -, hmem⟩ := mem_flatMap.1 hmem
      obtain ⟨n, -, hn⟩ := mem_filterMap.1 hmem
      cases n with
      | bucket => exact absurd hn (by simp [entry])
      | elem e =>
        obtain ⟨b, he, heq⟩ := map_eq_some_iff.1 hn
        cases heq
        exact ⟨e, b, he, rfl, rfl⟩
    · rintro ⟨e, b, he, rfl, rfl⟩
      refine mem_flatMap.2 ⟨_, mem_range.2 (K.hash_lt b.key t.bucketBits), ?_⟩
      exact mem_filterMap.2 ⟨_, hs.all e b he, by simp [entry, he]⟩

theorem Holds.find (key : κ) (p : DataPtr) :
    htFind K key t = some p ↔ (key, p) ∈ es := by
  obtain ⟨d, hs⟩ := h.spread
  rw [h.stored]
  unfold htFind
  constructor
  · intro hf
    obtain ⟨⟨e, b⟩, hlook, rfl⟩ := map_eq_some_iff.1 hf
    obtain ⟨he, hkey⟩ := (htLookup_iff hs h.keysDiffer).1 hlook
    exact ⟨e, b, he, hkey, rfl⟩
  · rintro ⟨e, b, he, hkey, rfl⟩
    rw [(htLookup_iff hs h.keysDiffer).2 ⟨he, hkey⟩]
    rfl

/-- Different keys have different pointers. -/
theorem Holds.pointers : (es.map Prod.snd).Nodup := by
  refine h.nodup.of_map.map_on fun x hx y hy hxy => ?_
  obtain ⟨e, b, he, hk, hp⟩ := (h.stored x.1 x.2).1 hx
  obtain ⟨e', b', he', hk', hp'⟩ := (h.stored y.1 y.2).1 hy
  obtain rfl := dataPtr_inj (hp.trans (hxy.trans hp'.symm))
  cases he.symm.trans he'
  exact Prod.ext (hk.symm.trans hk') hxy

theorem Holds.double {granted : Bool} (ht : doubleSize K granted t = some t') :
    Holds K t' es := by
  obtain ⟨d, hs⟩ := h.spread
  obtain ⟨hs', helems, hn⟩ := doubleSize_spread hs ht
  exact ⟨hs', by rw [helems]; exact h.stored, h.nodup, hn.trans h.elements⟩

/-- **A failed `ht_add`** leaves the table as it was. -/
theorem htAdd_fail (a : HtAlloc) (key : κ) (hnone : (htAdd K a key t).2 = none) :
    SameTable t (htAdd K a key t).1 ∧ Holds K (htAdd K a key t).1 es := by
  obtain ⟨d, hs⟩ := h.spread
  rcases htAdd_cases K a key t with hr | hr | ⟨t'', -, hr⟩
  · rw [hr]; exact ⟨⟨rfl, rfl, rfl, rfl, fun _ _ => rfl⟩, h⟩
  · rw [hr]
    have hrings := insertElem_del_rings hs ⟨key, a.data⟩
    have hcount : wrapInt (wrapInt (t.elements + 1) - 1) = t.elements := by
      rw [wrapInt_sub, add_sub_cancel_right, h.elements, wrapInt_wrapInt]
    have hs' : Spread K { t with
        elements := wrapInt ((insertElem K ⟨key, a.data⟩ t).elements - 1),
        links := (insertElem K ⟨key, a.data⟩ t).links.del (.elem t.nextElem) } d :=
      ⟨hrings, hs.inPlace, hs.all, hs.fresh, hs.array⟩
    refine ⟨⟨rfl, hcount, rfl, rfl, fun i hi => ?_⟩,
      ⟨⟨d, hs'⟩, h.stored, h.nodup, hcount.trans h.elements⟩⟩
    exact (hs'.bucketList hi).trans (hs.bucketList hi).symm
  · rw [hr] at hnone; exact absurd hnone (by simp)

theorem Holds.insert {b : BucketRec κ} (hnew : ∀ p, (b.key, p) ∉ es) :
    Holds K (insertElem K b t) ((b.key, dataPtr t.nextElem b) :: es) := by
  obtain ⟨d, hs⟩ := h.spread
  refine ⟨⟨_, insertElem_spread hs b⟩, fun k p => ?_, ?_, ?_⟩
  · dsimp only [insertElem]
    rw [mem_cons, h.stored]
    constructor
    · rintro (heq | ⟨e, b', he, hk, hp⟩)
      · cases heq
        exact ⟨_, b, update_self .., rfl, rfl⟩
      · have hne : e ≠ t.nextElem := fun heq => lt_irrefl _ (heq ▸ hs.fresh e b' he)
        exact ⟨e, b', by rw [update_of_ne hne]; exact he, hk, hp⟩
    · rintro ⟨e, b', he, hk, hp⟩
      by_cases heq : e = t.nextElem
      · subst heq
        rw [update_self] at he
        cases he
        exact .inl (by rw [← hk, ← hp])
      · rw [update_of_ne heq] at he
        exact .inr ⟨e, b', he, hk, hp⟩
  · rw [map_cons, nodup_cons]
    refine ⟨fun hmem => ?_, h.nodup⟩
    obtain ⟨⟨k, p⟩, hp, rfl⟩ := mem_map.1 hmem
    exact hnew p hp
  · dsimp only [insertElem]
    rw [h.elements, wrapInt_add]
    rfl

theorem htAdd_holds (a : HtAlloc) (key : κ) (hnew : ∀ p, (key, p) ∉ es) :
    Holds K (htAdd K a key t).1
      (match (htAdd K a key t).2 with | some p => (key, p) :: es | none => es) := by
  cases hr : (htAdd K a key t).2 with
  | none => exact (htAdd_fail h a key hr).2
  | some p =>
    rcases htAdd_cases K a key t with h0 | h0 | ⟨t'', ht'', h0⟩
    · rw [h0] at hr; exact absurd hr (by simp)
    · rw [h0] at hr; exact absurd hr (by simp)
    · rw [h0] at hr ⊢
      cases hr
      have hins := h.insert (b := ⟨key, a.data⟩) hnew
      rcases ht'' with rfl | ht''
      · exact hins
      · exact hins.double ht''

end

/-- A key that is stored is stored once. -/
theorem length_filter_key [DecidableEq κ] {α : Type} {es : List (κ × α)} (hnd : (es.map Prod.fst).Nodup)
    {k : κ} {p : α} (hmem : (k, p) ∈ es) :
    (es.filter fun e => e.1 ≠ k).length + 1 = es.length := by
  obtain ⟨us, vs, rfl⟩ := append_of_mem hmem
  rw [map_append, map_cons, nodup_middle, nodup_cons, ← map_append] at hnd
  have hkeep : ∀ e ∈ us ++ vs, decide (e.1 ≠ k) = true := fun e he =>
    decide_eq_true fun heq => hnd.1 (mem_map.2 ⟨e, he, heq⟩)
  have hfilter : (us ++ (k, p) :: vs).filter (fun e => e.1 ≠ k) = us ++ vs := by
    rw [filter_append, filter_cons_of_neg (by simp), ← filter_append,
      filter_eq_self.2 hkeep]
  rw [hfilter, length_append, length_append, length_cons]
  omega

theorem htRemove_holds [DecidableEq κ] (h : Holds K t es) (key : κ) :
    Holds K (htRemove K key t) (es.filter fun e => e.1 ≠ key) := by
  obtain ⟨d, hs⟩ := h.spread
  unfold htRemove
  cases hlook : htLookup K key t with
  | none =>
    have : es.filter (fun e => e.1 ≠ key) = es := by
      refine filter_eq_self.2 fun ⟨k, p⟩ hp => ?_
      obtain ⟨e, b, he, rfl, -⟩ := (h.stored k p).1 hp
      exact decide_eq_true (htLookup_none hs h.keysDiffer hlook he)
    rw [this]; exact h
  | some r =>
    obtain ⟨e, b⟩ := r
    obtain ⟨he, rfl⟩ := (htLookup_iff hs h.keysDiffer).1 hlook
    have hmem : (b.key, dataPtr e b) ∈ es := (h.stored _ _).2 ⟨e, b, he, rfl, rfl⟩
    refine ⟨remove_spread hs he _, fun k p => ?_, h.nodup.sublist (filter_sublist.map _), ?_⟩
    · dsimp only
      rw [mem_filter, h.stored]
      constructor
      · rintro ⟨⟨e', b', he', hk', hp'⟩, hne⟩
        refine ⟨e', b', ?_, hk', hp'⟩
        rw [update_of_ne]
        · exact he'
        · rintro rfl
          cases he.symm.trans he'
          exact absurd hk'.symm (of_decide_eq_true hne)
      · rintro ⟨e', b', he', hk', hp'⟩
        by_cases heq : e' = e
        · subst heq; simp at he'
        · rw [update_of_ne heq] at he'
          exact ⟨⟨e', b', he', hk', hp'⟩, decide_eq_true fun hkk =>
            heq (h.keysDiffer e' b' e b he' he (hk'.trans hkk))⟩
    · dsimp only
      rw [h.elements, wrapInt_sub, ← length_filter_key h.nodup hmem]
      push_cast
      rw [add_sub_cancel_right]

theorem htCreate_holds {dataSize : ℕ} {table buckets : Bool}
    (h : htCreate dataSize table buckets = some t) : Holds K t [] := by
  obtain ⟨d, hs, hn, hempty⟩ := htCreate_spread (K := K) h
  refine ⟨⟨d, hs⟩, fun k p => ?_, by simp, by rw [hn]; simp [wrapInt]⟩
  simp [hempty]

end Holds

/-! ### Runs -/

section Runs

variable [DecidableEq κ] {t : HashTable κ} {es : Stored κ} {ops : List (HtOp κ)}

/-- Only keys that are not there are added. -/
def AddsNew (s : HashTable κ × Stored κ) : HtOp κ → Prop
  | .add key _ => ∀ p, (key, p) ∉ s.2
  | _ => True

theorem htStep_holds (s : HashTable κ × Stored κ) (op : HtOp κ) (hop : AddsNew s op)
    (h : Holds K s.1 s.2) : Holds K (htStep K s op).1 (htStep K s op).2 := by
  cases op with
  | add key a => exact htAdd_holds h a key hop
  | remove key => exact htRemove_holds h key
  | find key => exact h

theorem run_holds (h : Holds K t es) (hops : AllSteps (htStep K) AddsNew (t, es) ops) :
    Holds K (run (htStep K) (t, es) ops).1 (run (htStep K) (t, es) ops).2 :=
  hops.invariant (P := fun s => Holds K s.1 s.2) htStep_holds h

/-- **The hash table** over any run of calls from its creation on: `ht_find` gives back what
`ht_add` returned, for exactly the keys stored; the lists hold each of them once, also after
a doubling; the counter is their number as an `int`; a failed `ht_add` changes nothing. -/
theorem hashTable_stored (K : KeyOps κ) {dataSize : ℕ} {table buckets : Bool}
    (hcreate : htCreate dataSize table buckets = some t)
    (hops : AllSteps (htStep K) AddsNew (t, []) ops) :
    let s := run (htStep K) (t, []) ops
    (∀ key p, htFind K key s.1 = some p ↔ (key, p) ∈ s.2) ∧ (s.2.map Prod.snd).Nodup ∧
      s.1.elements = wrapInt s.2.length ∧ (contents s.1).Perm s.2 ∧
      (∀ granted t', doubleSize K granted s.1 = some t' → (contents t').Perm (contents s.1)) ∧
      ∀ key a, (htAdd K a key s.1).2 = none → SameTable s.1 (htAdd K a key s.1).1 := by
  have h := run_holds (htCreate_holds hcreate) hops
  exact ⟨h.find, h.pointers, h.elements, h.contents,
    fun granted t' ht' => (h.double ht').contents.trans h.contents.symm,
    fun key a hnone => (htAdd_fail h a key hnone).1⟩

end Runs

/-! ### The counter -/

/-- Numbers hashed by their low bits. -/
def natKeys : KeyOps ℕ where
  hash k numBits := k % 2 ^ numBits
  compare l r := (l : ℤ) - r
  hash_lt _ _ := Nat.mod_lt _ (Nat.two_pow_pos _)
  compare_eq_zero l r := by omega

theorem hashTable_stored_one :
    ∃ t, htCreate 4 true true = some t ∧
      htFind natKeys 5 (run (htStep natKeys) (t, []) [.add 5 ⟨true, true, true, true⟩]).1 =
        some (.data 0) := by
  obtain ⟨t, ht, hnext⟩ : ∃ t : HashTable ℕ, htCreate 4 true true = some t ∧ t.nextElem = 0 :=
    ⟨_, rfl, rfl⟩
  have hops : AllSteps (htStep natKeys) AddsNew (t, []) [.add 5 ⟨true, true, true, true⟩] :=
    ⟨by simp [AddsNew], trivial⟩
  refine ⟨t, ht, ((hashTable_stored natKeys ht hops).1 5 (.data 0)).2 ?_⟩
  simp [htStep, htAdd_granted, hnext]

/-- Adding the numbers below `n`. -/
def addRange (n : ℕ) : List (HtOp ℕ) :=
  (List.range n).map fun k => .add k ⟨true, true, true, true⟩

theorem addRange_spec (t : HashTable ℕ) (n : ℕ) :
    AllSteps (htStep natKeys) AddsNew (t, []) (addRange n) ∧
      ((run (htStep natKeys) (t, []) (addRange n)).2.map Prod.fst) = (range n).reverse := by
  induction n with
  | zero => exact ⟨trivial, rfl⟩
  | succ n ih =>
    obtain ⟨hall, hkeys⟩ := ih
    have hsucc : addRange (n + 1) = addRange n ++ [.add n ⟨true, true, true, true⟩] := by
      simp [addRange, range_succ]
    refine ⟨?_, ?_⟩
    · rw [hsucc]
      refine allSteps_append.2 ⟨hall, fun p hp => ?_, trivial⟩
      have : n ∈ (range n).reverse := hkeys ▸ mem_map.2 ⟨_, hp, rfl⟩
      simp at this
    · rw [hsucc, run_snoc, range_succ, reverse_append]
      simp only [htStep, htAdd_granted, map_cons, hkeys, reverse_singleton, singleton_append]

/-- The counter of a table of `2 ^ 31` keys is negative. -/
theorem hashTable_elements_wraps :
    ∃ (t : HashTable ℕ) (ops : List (HtOp ℕ)), htCreate 4 true true = some t ∧
      AllSteps (htStep natKeys) AddsNew (t, []) ops ∧
      (run (htStep natKeys) (t, []) ops).1.elements ≠ (run (htStep natKeys) (t, []) ops).2.length := by
  obtain ⟨t, ht⟩ : ∃ t : HashTable ℕ, htCreate 4 true true = some t := ⟨_, rfl⟩
  obtain ⟨n, hn⟩ : ∃ n, n = 2 ^ 31 := ⟨_, rfl⟩
  obtain ⟨hall, hkeys⟩ := addRange_spec t n
  have hlen := congrArg length hkeys
  rw [length_map, length_reverse, length_range] at hlen
  refine ⟨t, addRange n, ht, hall, fun heq => ?_⟩
  have := wrapInt_lt (run (htStep natKeys) (t, []) (addRange n)).2.length
  rw [← (run_holds (htCreate_holds ht) hall).elements, heq] at this
  omega

end Xenia.Xext
