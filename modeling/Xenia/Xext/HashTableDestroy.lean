import Xenia.Lib.Outcome
import Xenia.Xext.HashTableStored

/-!
# The end of a hash table

`ht_destroy`, with the memory it takes apart: the link fields, and the blocks freed so far.
An access outside the live blocks of the table is a fault, and so is `free` of a pointer that
is not the start of one. The loop over a bucket compares against `head`, a copy of the list
head on the stack, which no node points to.

* `destroyLoop_ne_ok`: the loop does not come to an end.
* `htDestroy_faults`: it therefore runs into a fault, for every table whose elements are numbered
  in order; so are those of every table in use (`run_numbered`).
-/

namespace Xenia.Xext

open Xenia.Lib List

/-! ### Memory -/

/-- What the allocator has handed out to a table. -/
inductive HtBlock
  | table
  | array (a : ℕ)
  | elem (e : ℕ)
  | key (e : ℕ)
  | data (e : ℕ)
  deriving DecidableEq

/-- The pointers `ht_destroy` handles; `headCopy` points to the variable `head`. -/
inductive HtPtr
  | node (n : HtNode)
  | key (e : ℕ)
  | data (e : ℕ)
  | headCopy
  deriving DecidableEq

/-- The block that starts where the pointer points. -/
def HtPtr.block : HtPtr → Option HtBlock
  | .node (.elem e) => some (.elem e)
  | .node (.bucket a 0) => some (.array a)
  | .node (.bucket _ (_ + 1)) => none
  | .key e => some (.key e)
  | .data e => some (.data e)
  | .headCopy => none

structure DestroyState where
  links : Links HtNode
  freed : List HtBlock

variable {κ : Type}

namespace HashTable

/-- The blocks of a table. -/
def hasBlock (t : HashTable κ) : HtBlock → Bool
  | .table => true
  | .array a => a = t.buckets
  | .elem e => (t.elems e).isSome
  | .key e => (t.elems e).isSome
  | .data e => (t.elems e).any BucketRec.data

/-- The link field of this node lies in a live block. -/
def nodeLive (t : HashTable κ) (s : DestroyState) : HtNode → Bool
  | .elem e => t.hasBlock (.elem e) ∧ .elem e ∉ s.freed
  | .bucket a i => t.hasBlock (.array a) ∧ i < 2 ^ t.bucketBits ∧ .array a ∉ s.freed

/-- `free(p)` -/
def free (t : HashTable κ) (p : Option HtPtr) (s : DestroyState) : Outcome DestroyState :=
  match p with
  | none => .ok s
  | some p =>
    match p.block with
    | none => .error .fault
    | some b => if t.hasBlock b ∧ b ∉ s.freed then .ok { s with freed := b :: s.freed } else .error .fault

/-- `it.l.next`, as the entry around it. -/
def nextEntry (t : HashTable κ) (it : HtNode) (s : DestroyState) : Outcome HtNode :=
  if t.nodeLive s it then deref (s.links.next it) else .error .fault

/-- `xorg_list_del(&it.l)` -/
def listDel (t : HashTable κ) (it : HtNode) (s : DestroyState) : Outcome DestroyState :=
  if t.nodeLive s it ∧ (s.links.prev it).any (t.nodeLive s) ∧ (s.links.next it).any (t.nodeLive s) then
    .ok { s with links := s.links.del it }
  else .error .fault

/-- `it.key`; behind the links of a head lie those of the next head. -/
def keyField (t : HashTable κ) (it : HtNode) (s : DestroyState) : Outcome (Option HtPtr) :=
  match it with
  | .elem e => if t.nodeLive s it then .ok (some (.key e)) else .error .fault
  | .bucket a i =>
    if t.nodeLive s (.bucket a (i + 1)) then .ok ((s.links.next (.bucket a (i + 1))).map .node)
    else .error .fault

/-- `it.data` -/
def dataField (t : HashTable κ) (it : HtNode) (s : DestroyState) : Outcome (Option HtPtr) :=
  match it with
  | .elem e =>
    if t.nodeLive s it then .ok (if t.hasBlock (.data e) then some (.data e) else none) else .error .fault
  | .bucket a i =>
    if t.nodeLive s (.bucket a (i + 1)) then .ok ((s.links.prev (.bucket a (i + 1))).map .node)
    else .error .fault

end HashTable

/-! ### ht_destroy -/

/-- The body of the loop over a bucket. -/
def destroyEntry (t : HashTable κ) (it : HtNode) (s : DestroyState) : Outcome DestroyState := do
  let s ← t.listDel it s
  let key ← t.keyField it s
  let s ← t.free key s
  let data ← t.dataField it s
  let s ← t.free data s
  t.free (some (.node it)) s

/-- `xorg_list_for_each_entry_safe`, with the list head it is given. -/
def destroyLoop (t : HashTable κ) (head : HtPtr) : ℕ → HtNode → HtNode → DestroyState → Outcome DestroyState
  | 0, _, _, _ => .error .hang
  | fuel + 1, it, tmp, s =>
    if HtPtr.node it = head then .ok s
    else do
      let s ← destroyEntry t it s
      let next ← t.nextEntry tmp s
      destroyLoop t head fuel tmp next s

/-- One bucket: `head` is a copy of `ht.buckets[c]`, so its links are those of the bucket. -/
def destroyBucket (t : HashTable κ) (fuel : ℕ) (s : DestroyState) (c : ℕ) : Outcome DestroyState := do
  let it ← t.nextEntry (.bucket t.buckets c) s
  let tmp ← t.nextEntry it s
  destroyLoop t .headCopy fuel it tmp s

def htDestroy (fuel : ℕ) (t : HashTable κ) : Outcome DestroyState := do
  let s ← (List.range (2 ^ t.bucketBits)).foldlM (destroyBucket t fuel) ⟨t.links, []⟩
  let s ← t.free (some (.node (.bucket t.buckets 0))) s
  if HtBlock.table ∉ s.freed then .ok { s with freed := .table :: s.freed } else .error .fault

/-- What `ht_destroy` is to do: come to an end without a fault, with every block of the table
freed once. -/
def Destroyed (t : HashTable κ) : Prop :=
  ∃ fuel s, htDestroy fuel t = .ok s ∧ s.freed.Nodup ∧ ∀ b, b ∈ s.freed ↔ t.hasBlock b

/-! ### It faults -/

section Faults

variable {t : HashTable κ} {s : DestroyState}

/-- The blocks freed are blocks of the table, each freed once. -/
structure Owned (t : HashTable κ) (s : DestroyState) : Prop where
  nodup : s.freed.Nodup
  blocks : ∀ b ∈ s.freed, t.hasBlock b = true

/-- At least `n` more blocks are freed. -/
def Frees (t : HashTable κ) (n : ℕ) (s s' : DestroyState) : Prop :=
  Owned t s' ∧ s.freed.length + n ≤ s'.freed.length

theorem free_halts (h : Owned t s) (p : Option HtPtr) : Halts (Frees t 0 s) (t.free p s) := by
  unfold HashTable.free
  split
  · exact .inr ⟨s, rfl, h, le_rfl⟩
  · split
    · exact .inl rfl
    · rename_i b _
      apply halts_ite
      intro hb
      refine .inr ⟨_, rfl, ⟨nodup_cons.2 ⟨hb.2, h.nodup⟩, ?_⟩, by simp⟩
      intro c hc
      rcases mem_cons.1 hc with rfl | hc
      · exact hb.1
      · exact h.blocks c hc

theorem free_node_halts (h : Owned t s) (n : HtNode) : Halts (Frees t 1 s) (t.free (some (.node n)) s) := by
  rcases free_halts h (some (.node n)) with hf | ⟨s', hs', ho, -⟩
  · exact .inl hf
  · refine .inr ⟨s', hs', ho, ?_⟩
    unfold HashTable.free at hs'
    dsimp only at hs'
    split at hs'
    · exact absurd hs' (by simp)
    · split at hs'
      · cases hs'
        simp
      · exact absurd hs' (by simp)

theorem listDel_halts (h : Owned t s) (it : HtNode) : Halts (Frees t 0 s) (t.listDel it s) :=
  halts_ite fun _ => .inr ⟨_, rfl, ⟨h.nodup, h.blocks⟩, le_rfl⟩

theorem nextEntry_halts (it : HtNode) : Halts (fun _ => True) (t.nextEntry it s) :=
  halts_ite fun _ => halts_deref _

theorem keyField_halts (it : HtNode) : Halts (fun _ => True) (t.keyField it s) := by
  unfold HashTable.keyField
  split <;> exact halts_ite fun _ => .inr ⟨_, rfl, trivial⟩

theorem dataField_halts (it : HtNode) : Halts (fun _ => True) (t.dataField it s) := by
  unfold HashTable.dataField
  split <;> exact halts_ite fun _ => .inr ⟨_, rfl, trivial⟩

/-- The body of the loop frees the entry, if it gets that far. -/
theorem destroyEntry_halts (h : Owned t s) (it : HtNode) : Halts (Frees t 1 s) (destroyEntry t it s) := by
  apply (listDel_halts h it).bind
  intro s1 h1
  apply (keyField_halts it).bind
  intro key _
  apply (free_halts h1.1 key).bind
  intro s2 h2
  apply (dataField_halts it).bind
  intro data _
  apply (free_halts h2.1 data).bind
  intro s3 h3
  apply (free_node_halts h3.1 it).mono
  intro s4 h4
  have hfreed := h4.2
  have hfreed1 := h1.2
  have hfreed2 := h2.2
  have hfreed3 := h3.2
  exact ⟨h4.1, by omega⟩

/-- The elements are those handed out so far. -/
def Numbered (t : HashTable κ) : Prop := ∀ e b, t.elems e = some b → e < t.nextElem

/-- There are only so many blocks to free. -/
theorem Owned.length_le (h : Owned t s) (hn : Numbered t) : s.freed.length ≤ 3 * t.nextElem + 2 := by
  let all : List HtBlock := .table :: .array t.buckets :: ((range t.nextElem).map .elem ++
    ((range t.nextElem).map .key ++ (range t.nextElem).map .data))
  have hsub : s.freed ⊆ all := by
    intro b hb
    have hblock := h.blocks b hb
    have hlt : ∀ e, (t.elems e).isSome = true → e ∈ range t.nextElem := by
      intro e he
      obtain ⟨b, hb⟩ := Option.isSome_iff_exists.1 he
      exact mem_range.2 (hn e b hb)
    simp only [all, mem_cons, mem_append, mem_map]
    cases b with
    | table => exact .inl rfl
    | array a => exact .inr (.inl (by rw [of_decide_eq_true hblock]))
    | elem e => exact .inr (.inr (.inl ⟨e, hlt e hblock, rfl⟩))
    | key e => exact .inr (.inr (.inr (.inl ⟨e, hlt e hblock, rfl⟩)))
    | data e =>
      have he : (t.elems e).isSome = true := by
        cases hel : t.elems e with
        | none => simp [HashTable.hasBlock, hel] at hblock
        | some b => rfl
      exact .inr (.inr (.inr (.inr ⟨e, hlt e he, rfl⟩)))
  have hle := (h.nodup.subperm hsub).length_le
  simp only [all, length_cons, length_append, length_map, length_range] at hle
  omega

/-- **The loop does not end**: no node lies where the copy of the head does. -/
theorem destroyLoop_ne_ok (fuel : ℕ) (it tmp : HtNode) (s s' : DestroyState) :
    destroyLoop t .headCopy fuel it tmp s ≠ .ok s' := by
  induction fuel generalizing it tmp s with
  | zero => simp [destroyLoop]
  | succ fuel ih =>
    intro hok
    rw [destroyLoop] at hok
    cases hentry : destroyEntry t it s with
    | error e =>
      rw [hentry] at hok
      exact absurd hok (by simp [error_bind])
    | ok s1 =>
      rw [hentry, ok_bind] at hok
      cases hnext : t.nextEntry tmp s1 with
      | error e =>
        rw [hnext] at hok
        exact absurd hok (by simp [error_bind])
      | ok next =>
        rw [hnext] at hok
        exact ih tmp next s1 hok

/-- Every round of the loop frees a block, and the blocks come to an end. -/
theorem destroyLoop_faults (hn : Numbered t) (fuel : ℕ) (it tmp : HtNode) (s : DestroyState) (h : Owned t s)
    (hfuel : 3 * t.nextElem + 2 < s.freed.length + fuel) :
    destroyLoop t .headCopy fuel it tmp s = .error .fault := by
  induction fuel generalizing it tmp s with
  | zero =>
    have hle := h.length_le hn
    omega
  | succ fuel ih =>
    rw [destroyLoop, if_neg (by simp)]
    rcases destroyEntry_halts h it with hf | ⟨s1, hs1, h1, hfreed⟩
    · rw [hf, error_bind]
    · rw [hs1, ok_bind]
      rcases nextEntry_halts (t := t) (s := s1) tmp with hf | ⟨next, hnext, -⟩
      · rw [hf, error_bind]
      · rw [hnext]
        exact ih tmp next s1 h1 (by omega)

theorem destroyBucket_faults (hn : Numbered t) {fuel : ℕ} (hfuel : 3 * t.nextElem + 2 < fuel) (h : Owned t s)
    (c : ℕ) : destroyBucket t fuel s c = .error .fault := by
  unfold destroyBucket
  rcases nextEntry_halts (t := t) (s := s) (.bucket t.buckets c) with hf | ⟨it, hit, -⟩
  · rw [hf, error_bind]
  · rw [hit, ok_bind]
    rcases nextEntry_halts (t := t) (s := s) it with hf | ⟨tmp, htmp, -⟩
    · rw [hf, error_bind]
    · rw [htmp]
      exact destroyLoop_faults hn fuel it tmp s h (by omega)

theorem destroyBucket_ne_ok (fuel : ℕ) (s s' : DestroyState) (c : ℕ) : destroyBucket t fuel s c ≠ .ok s' := by
  unfold destroyBucket
  rcases nextEntry_halts (t := t) (s := s) (.bucket t.buckets c) with hf | ⟨it, hit, -⟩
  · rw [hf]
    exact fun h => nomatch h
  · rw [hit, ok_bind]
    rcases nextEntry_halts (t := t) (s := s) it with hf | ⟨tmp, htmp, -⟩
    · rw [hf]
      exact fun h => nomatch h
    · rw [htmp]
      exact destroyLoop_ne_ok fuel it tmp s s'

/-- There is a first bucket. -/
theorem htDestroy_eq (fuel : ℕ) (t : HashTable κ) {e : Stop}
    (h : destroyBucket t fuel ⟨t.links, []⟩ 0 = .error e) : htDestroy fuel t = .error e := by
  obtain ⟨n, hn⟩ : ∃ n, 2 ^ t.bucketBits = n + 1 := ⟨2 ^ t.bucketBits - 1, by have := Nat.two_pow_pos t.bucketBits; omega⟩
  unfold htDestroy
  rw [hn, range_succ_eq_map, foldlM_cons, h, error_bind, error_bind]

theorem htDestroy_faults (hn : Numbered t) {fuel : ℕ} (hfuel : 3 * t.nextElem + 2 < fuel) :
    htDestroy fuel t = .error .fault :=
  htDestroy_eq fuel t (destroyBucket_faults hn hfuel ⟨nodup_nil, by simp⟩ 0)

theorem htDestroy_ne_ok (fuel : ℕ) (s : DestroyState) : htDestroy fuel t ≠ .ok s := by
  cases h : destroyBucket t fuel ⟨t.links, []⟩ 0 with
  | error e =>
    rw [htDestroy_eq fuel t h]
    exact fun h => nomatch h
  | ok s' => exact absurd h (destroyBucket_ne_ok fuel _ s' 0)

end Faults

/-! ### Tables in use -/

section Runs

variable {K : KeyOps κ} {t t' : HashTable κ}

theorem doubleSize_elems {granted : Bool} (ht : doubleSize K granted t = some t') :
    t'.elems = t.elems ∧ t'.nextElem = t.nextElem := by
  unfold doubleSize at ht
  split at ht
  · cases ht
    exact ⟨rfl, rfl⟩
  · exact absurd ht (by simp)

theorem insertElem_numbered (h : Numbered t) (b : BucketRec κ) : Numbered (insertElem K b t) := by
  intro e b' he
  dsimp only [insertElem] at he ⊢
  by_cases heq : e = t.nextElem
  · omega
  · rw [Function.update_of_ne heq] at he
    have hlt := h e b' he
    omega

theorem htAdd_numbered (h : Numbered t) (a : HtAlloc) (key : κ) : Numbered (htAdd K a key t).1 := by
  rcases htAdd_cases K a key t with hr | hr | ⟨t'', ht'', hr⟩
  · rw [hr]
    exact h
  · rw [hr]
    exact h
  · rw [hr]
    have hins := insertElem_numbered (K := K) h ⟨key, a.data⟩
    rcases ht'' with rfl | ht''
    · exact hins
    · obtain ⟨helems, hnext⟩ := doubleSize_elems ht''
      intro e b he
      rw [helems] at he
      rw [hnext]
      exact hins e b he

theorem htRemove_numbered (h : Numbered t) (key : κ) : Numbered (htRemove K key t) := by
  unfold htRemove
  split
  · exact h
  · rename_i e b _
    intro e' b' he
    dsimp only at he ⊢
    by_cases heq : e' = e
    · rw [heq] at he
      exact absurd he (by simp)
    · rw [Function.update_of_ne heq] at he
      exact h e' b' he

variable [DecidableEq κ]

theorem htStep_numbered (s : HashTable κ × Stored κ) (op : HtOp κ) (h : Numbered s.1) :
    Numbered (htStep K s op).1 := by
  cases op with
  | add key a => exact htAdd_numbered h a key
  | remove key => exact htRemove_numbered h key
  | find key => exact h

theorem run_numbered {dataSize : ℕ} {table buckets : Bool} (hcreate : htCreate dataSize table buckets = some t)
    (ops : List (HtOp κ)) : Numbered (run (htStep K) (t, []) ops).1 := by
  apply run_invariant (P := fun s : HashTable κ × Stored κ => Numbered s.1) htStep_numbered
  unfold htCreate at hcreate
  split at hcreate
  · cases hcreate
    intro e b he
    exact absurd he (by simp)
  · exact absurd hcreate (by simp)

/-- **`ht_destroy`** destroys no table: after any run of calls from the creation on, it follows
the list of the first bucket past its end and runs into a fault. -/
theorem ht_destroy_faults (K : KeyOps κ) {dataSize : ℕ} {table buckets : Bool}
    (hcreate : htCreate dataSize table buckets = some t) (ops : List (HtOp κ)) :
    let s := run (htStep K) (t, []) ops
    ¬Destroyed s.1 ∧ ∃ n, ∀ fuel > n, htDestroy fuel s.1 = .error .fault := by
  intro s
  have hn : Numbered s.1 := run_numbered hcreate ops
  constructor
  · rintro ⟨fuel, m, hok, -⟩
    exact htDestroy_ne_ok fuel m hok
  · exact ⟨3 * s.1.nextElem + 2, fun fuel hfuel => htDestroy_faults hn hfuel⟩

end Runs

theorem ht_destroy_faults_one :
    ∃ t, htCreate 4 true true = some t ∧
      ¬Destroyed (run (htStep natKeys) (t, []) [.add 5 ⟨true, true, true, true⟩]).1 := by
  obtain ⟨t, ht⟩ : ∃ t : HashTable ℕ, htCreate 4 true true = some t := ⟨_, rfl⟩
  exact ⟨t, ht, (ht_destroy_faults natKeys ht [.add 5 ⟨true, true, true, true⟩]).1⟩

/-- A table without an element: the list head of its first bucket is taken for one. -/
theorem ht_destroy_empty_faults :
    ∃ t : HashTable ℕ, htCreate 4 true true = some t ∧ ¬Destroyed t := by
  refine ⟨_, rfl, ?_⟩
  rintro ⟨fuel, s, hok, -⟩
  exact htDestroy_ne_ok fuel s hok

end Xenia.Xext
