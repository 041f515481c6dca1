import Xenia.Dix.Property

/-!
# What the properties contain

`view` is a property list as a client sees it: for each name the type, the format, the
number of units and the bytes. `ChangeCall.apply` says what a successful call makes of it.
`change_spec` is the result for one call of `dixChangeWindowProperty`, `property_contents`
the one for all runs: the view is the fold of the successful calls, a call that fails leaves
the list alone, and no call touches memory that is not its own.

The byte counts are 32 bits wide. `Fits` is the condition under which they hold the numbers
they stand for; `property_loses_content` is a run of appends beyond it.
-/

namespace Xenia.Dix

open Xenia.Lib List Function Option

/-! ### Views -/

/-- What a client sees of a property. -/
structure Content where
  type : ℕ
  format : ℕ
  size : ℕ
  data : List Byte

abbrev Props := ℕ → Option Content

def content (h : Heap) (p : PropertyRec) : Content := ⟨p.type, p.format, p.size, h.load p.data⟩

def view (l : List PropertyRec) (h : Heap) : Props := fun name =>
  (l.find? fun p => p.propertyName = name).map (content h)

def ChangeCall.numBytes (c : ChangeCall) : ℕ := c.len * c.sizeInBytes

/-- The bytes of the value. -/
def ChangeCall.bytes (c : ChangeCall) : List Byte := c.value.take c.numBytes

/-- The content a call gives to a property that has none, and the one it makes of another. -/
def ChangeCall.fresh (c : ChangeCall) : Content := ⟨c.type, c.format, c.len, c.bytes⟩

def ChangeCall.onto (c : ChangeCall) (x : Content) : Content :=
  match c.mode with
  | .replace => c.fresh
  | .append => { x with size := x.size + c.len, data := x.data ++ c.bytes }
  | .prepend => { x with size := x.size + c.len, data := c.bytes ++ x.data }

/-- What a successful call makes of the properties: appending and prepending need a property
of the same format and type, or none. -/
def ChangeCall.apply (c : ChangeCall) (m : Props) : Option Props :=
  match m c.property with
  | none => some (Function.update m c.property (some c.fresh))
  | some x =>
    if c.mode = .replace ∨ x.format = c.format ∧ x.type = c.type then
      some (Function.update m c.property (some (c.onto x)))
    else none

/-- A property list in memory: the names are distinct, every record has a block of its own
with as many bytes as its size says. -/
structure PropsOk (l : List PropertyRec) (h : Heap) : Prop where
  nodup : (l.map PropertyRec.propertyName).Nodup
  length : ∀ p ∈ l, (h.load p.data).length = p.size * (p.format >>> 3)
  small : ∀ p ∈ l, p.size < 2 ^ 32
  live : ∀ p ∈ l, h.Live p.data
  distinct : (l.filterMap PropertyRec.data).Nodup
  fresh : h.Fresh

/-- The list and the values it points to are as they were. -/
structure Unchanged (s s' : PropState) : Prop where
  properties : s'.properties = s.properties
  events : s'.events = s.events
  contents : ∀ p ∈ s.properties, s'.heap.load p.data = s.heap.load p.data

section List

variable {l us vs : List PropertyRec} {h h' : Heap} {p : PropertyRec} {name : ℕ}

theorem replaceF_middle (us vs : List PropertyRec) {f : PropertyRec → Option PropertyRec} {p' : PropertyRec}
    (hus : ∀ q ∈ us, f q = none) (hp : f p = some p') : (us ++ p :: vs).replaceF f = us ++ p' :: vs := by
  induction us with
  | nil => exact replaceF_cons_of_some f hp
  | cons q us ih =>
    rw [cons_append, replaceF_cons_of_none f (hus q mem_cons_self),
      ih fun r hr => hus r (mem_cons_of_mem _ hr)]
    rfl

/-- Values that are not written to are seen as before. -/
theorem view_agree (ha : ∀ q ∈ l, h.Agree h' q.data) : view l h' = view l h := by
  funext name
  unfold view
  cases hf : l.find? fun p => p.propertyName = name with
  | none => rfl
  | some q =>
    have hq := mem_of_find?_eq_some hf
    simp only [map_some, content, (ha q hq).load]

/-- A record more. -/
theorem view_insert (us vs : List PropertyRec) (h : Heap) (p : PropertyRec)
    (hus : ∀ q ∈ us, q.propertyName ≠ p.propertyName) :
    view (us ++ p :: vs) h =
      update (view (us ++ vs) h) p.propertyName (some (content h p)) := by
  funext name
  unfold view
  by_cases hn : name = p.propertyName
  · subst hn
    rw [update_self, find?_append, find?_eq_none.2 (by simpa using hus)]
    simp
  · rw [update_of_ne hn, find?_append, find?_append, find?_cons_of_neg]
    simpa using Ne.symm hn

/-- A record less. -/
theorem view_remove (hus : ∀ q ∈ us ++ vs, q.propertyName ≠ p.propertyName) :
    view (us ++ vs) h = update (view (us ++ p :: vs) h) p.propertyName none := by
  rw [view_insert _ _ _ _ fun q hq => hus q (mem_append_left _ hq), update_idem]
  symm
  rw [update_eq_self_iff]
  unfold view
  rw [find?_eq_none.2 (by simpa using hus)]
  rfl

theorem PropsOk.sublist (hok : PropsOk l h) (hsub : vs.Sublist l) (hf : h'.Fresh)
    (ha : ∀ q ∈ vs, h.Agree h' q.data) : PropsOk vs h' := by
  have hmem := hsub.subset
  refine ⟨hok.nodup.sublist (hsub.map _), ?_, ?_, ?_, hok.distinct.sublist (hsub.filterMap _), hf⟩
  · intro q hq
    rw [(ha q hq).load]
    exact hok.length q (hmem hq)
  · intro q hq
    exact hok.small q (hmem hq)
  · intro q hq
    exact (ha q hq).live (hok.live q (hmem hq))

theorem PropsOk.insert (hok : PropsOk (us ++ vs) h)
    (hname : ∀ q ∈ us ++ vs, q.propertyName ≠ p.propertyName)
    (hlen : (h.load p.data).length = p.size * (p.format >>> 3)) (hsmall : p.size < 2 ^ 32)
    (hlive : h.Live p.data) (hdiff : ∀ q ∈ us ++ vs, ∀ r, q.data = some r → p.data ≠ some r) :
    PropsOk (us ++ p :: vs) h := by
  have hmem : ∀ q, q ∈ us ++ p :: vs ↔ q = p ∨ q ∈ us ++ vs := by
    simp only [mem_append, mem_cons]
    tauto
  refine ⟨?_, ?_, ?_, ?_, ?_, hok.fresh⟩
  · rw [map_append, map_cons, nodup_middle, nodup_cons, ← map_append]
    refine ⟨?_, hok.nodup⟩
    intro hin
    obtain ⟨q, hq, heq⟩ := mem_map.1 hin
    exact hname q hq heq
  · intro q hq
    rcases (hmem q).1 hq with rfl | hq
    · exact hlen
    · exact hok.length q hq
  · intro q hq
    rcases (hmem q).1 hq with rfl | hq
    · exact hsmall
    · exact hok.small q hq
  · intro q hq
    rcases (hmem q).1 hq with rfl | hq
    · exact hlive
    · exact hok.live q hq
  · rw [filterMap_append]
    cases hp : p.data with
    | none => rw [filterMap_cons_none hp, ← filterMap_append]; exact hok.distinct
    | some r =>
      rw [filterMap_cons_some hp, nodup_middle, nodup_cons, ← filterMap_append]
      refine ⟨?_, hok.distinct⟩
      intro hin
      obtain ⟨q, hq, heq⟩ := mem_filterMap.1 hin
      exact hdiff q hq r heq hp

/-- The other records have other names and other blocks. -/
theorem PropsOk.others (hok : PropsOk (us ++ p :: vs) h) :
    (∀ q ∈ us ++ vs, q.propertyName ≠ p.propertyName) ∧
      ∀ q ∈ us ++ vs, ∀ r, q.data = some r → p.data ≠ some r := by
  have hn := hok.nodup
  have hd := hok.distinct
  rw [map_append, map_cons, nodup_middle, nodup_cons, ← map_append] at hn
  constructor
  · intro q hq heq
    exact hn.1 (mem_map.2 ⟨q, hq, heq⟩)
  · intro q hq r hqr hpr
    rw [filterMap_append, filterMap_cons_some hpr, nodup_middle, nodup_cons,
      ← filterMap_append] at hd
    exact hd.1 (mem_filterMap.2 ⟨q, hq, hqr⟩)

end List

/-! ### New blocks -/

/-- What comes of preparing a value `bs`: `BadAlloc`, for which there is a reason, or a block
that was not there before. -/
inductive Built (h : Heap) (bs : List Byte) (refused : Prop) :
    Option (Except Status (Heap × Option ℕ)) → Prop
  | refused (why : refused) : Built h bs refused (some (.error BadAlloc))
  | block {h' : Heap} {data : Option ℕ} (fresh : h'.Fresh) (load : h'.load data = bs)
      (live : h'.Live data) (new : ∀ q, data = some q → q = h.next)
      (keep : ∀ q, q ≠ h.next → h'.blocks q = h.blocks q) : Built h bs refused (some (.ok (h', data)))

section Blocks

variable {h : Heap} {c : ChangeCall} {p : PropertyRec}

/-- A heap whose newest block is `bs`. -/
theorem built_block (hf : h.Fresh) (bs : List Byte) (refused : Prop) :
    Built h bs refused (some (.ok
      (⟨update h.blocks h.next (some bs), h.next + 1⟩, some h.next))) := by
  refine .block ?_ (by simp [Heap.load]) ?_ (fun q hq => (some.inj hq).symm) ?_
  · intro q hq
    by_cases hqn : q = h.next
    · rw [hqn]; exact Nat.lt_succ_self _
    · simp only [update_of_ne hqn] at hq
      exact Nat.lt_succ_of_lt (hf q hq)
  · intro q hq
    cases hq
    simp
  · intro q hq
    exact update_of_ne hq ..

theorem totalSize_eq (hn : c.numBytes < 2 ^ 31) : c.totalSize = c.numBytes := by
  unfold ChangeCall.totalSize ChangeCall.numBytes at *
  exact wrapInt_eq (by omega) (by omega)

theorem totalSize_neg (hn : c.numBytes < 2 ^ 32) (hn' : 2 ^ 31 ≤ c.numBytes) :
    c.totalSize = c.numBytes - 2 ^ 32 := by
  unfold ChangeCall.totalSize ChangeCall.numBytes wrapInt at *
  exact Int.bmod_eq_iff (by omega) |>.2 (by omega)

theorem length_bytes (c : ChangeCall) : c.bytes.length = c.numBytes := by
  unfold ChangeCall.bytes
  rw [length_take]
  exact min_eq_left c.enough

theorem bytes_nil (hlen : c.len = 0) : c.bytes = [] := by
  refine eq_nil_of_length_eq_zero ?_
  rw [length_bytes, ChangeCall.numBytes, hlen, zero_mul]

theorem valueBlock_spec (c : ChangeCall) (hf : h.Fresh) (granted : Bool) (hn : c.numBytes < 2 ^ 32) :
    Built h c.bytes (granted = false ∨ 2 ^ 31 ≤ c.numBytes) (valueBlock c granted h) := by
  unfold valueBlock
  have hcase : c.numBytes < 2 ^ 31 ∨ 2 ^ 31 ≤ c.numBytes := lt_or_ge ..
  cases hcase with
  | inl hn' =>
    have h64 : c.numBytes < 2 ^ 64 := by omega
    have hlen := length_bytes c
    rw [totalSize_eq hn', toSize_natCast h64]
    cases granted with
    | false =>
      rw [Heap.calloc_refused]
      dsimp only
      split
      · exact .refused (.inl rfl)
      · -- nothing to store, and no block for it
        have h0 : c.bytes = [] := eq_nil_of_length_eq_zero (by omega)
        exact .block hf (by rw [h0]; rfl) (fun q hq => absurd hq (by simp))
          (fun q hq => absurd hq (by simp)) fun _ _ => rfl
    | true =>
      rw [Heap.calloc_granted (by unfold PTRDIFF_MAX; omega)]
      dsimp only
      split
      · rw [if_neg (by simp)]
        have hcopy := Heap.memcpy_block (h := ⟨update h.blocks h.next
          (some (replicate c.numBytes 0)), h.next + 1⟩) 0 (update_self ..)
          h64 c.enough (by simp)
        rw [Nat.cast_zero] at hcopy
        rw [hcopy]
        have hall : memWrite (replicate c.numBytes 0) 0 (c.value.take c.numBytes) = c.bytes := by
          change memWrite _ 0 c.bytes = c.bytes
          simp [memWrite, hlen]
        rw [update_idem, hall]
        exact built_block hf _ _
      · have h0 : c.bytes = replicate c.numBytes 0 := by
          have : c.numBytes = 0 := by omega
          rw [this, replicate_zero]
          exact eq_nil_of_length_eq_zero (by omega)
        rw [h0]
        exact built_block hf _ _
  | inr hn' =>
    have hneg := totalSize_neg hn hn'
    rw [Heap.calloc_huge granted (toSize_neg (by omega) (by omega))]
    dsimp only
    rw [if_pos (by omega), if_pos rfl]
    exact .refused (.inr hn')

/-- Two copies into a block. -/
theorem copy_two (blocks : ℕ → Option (List Byte)) (q next : ℕ) {z x y : List Byte} (i j : ℕ) {n m : ℕ}
    (hn : n < 2 ^ 64) (hm : m < 2 ^ 64) (hx : n ≤ x.length) (hy : m ≤ y.length)
    (hi : i + n ≤ z.length) (hj : j + m ≤ z.length) :
    ((⟨update blocks q (some z), next⟩ : Heap).memcpy (some q) i x n).bind
        (fun h' => h'.memcpy (some q) j y m) =
      some ⟨update blocks q (some (memWrite (memWrite z i (x.take n)) j (y.take m))), next⟩ := by
  have hlen : (memWrite z i (x.take n)).length = z.length := length_memWrite (by simp; omega)
  have h1 := Heap.memcpy_block (h := ⟨update blocks q (some z), next⟩) i
    (update_self ..) hn hx hi
  rw [update_idem] at h1
  have h2 := Heap.memcpy_block (h := ⟨update blocks q (some (memWrite z i (x.take n))), next⟩) j
    (update_self ..) hm hy (by omega)
  rw [update_idem] at h2
  rw [h1, bind_some, h2]

/-- A block filled with `as` and `bs`, in either order of the copies. -/
theorem fill_block (blocks : ℕ → Option (List Byte)) (q next : ℕ) {as bs xs ys : List Byte}
    (hx : xs.take as.length = as) (hy : ys.take bs.length = bs) (ha : as.length < 2 ^ 64)
    (hb : bs.length < 2 ^ 64) :
    let h : Heap := ⟨update blocks q (some (replicate (as.length + bs.length) 0)), next⟩
    let filled : Heap := ⟨update blocks q (some (as ++ bs)), next⟩
    (h.memcpy (some q) 0 xs as.length).bind (fun h' => h'.memcpy (some q) as.length ys bs.length) =
        some filled ∧
      (h.memcpy (some q) as.length ys bs.length).bind (fun h' => h'.memcpy (some q) 0 xs as.length) =
        some filled := by
  have hxlen : as.length ≤ xs.length := by
    have := congrArg length hx
    rw [length_take] at this
    omega
  have hylen : bs.length ≤ ys.length := by
    have := congrArg length hy
    rw [length_take] at this
    omega
  have hzeros : (replicate (as.length + bs.length) (0 : Byte)).length = as.length + bs.length :=
    length_replicate
  obtain ⟨hfirst, hlast⟩ := Heap.memWrite_fill hzeros
  constructor
  · have := copy_two blocks q next 0 as.length ha hb hxlen hylen (by rw [hzeros]; omega)
      (le_of_eq hzeros.symm)
    rw [hx, hy, hfirst] at this
    exact this
  · have := copy_two blocks q next as.length 0 hb ha hylen hxlen (le_of_eq hzeros.symm)
      (by rw [hzeros]; omega)
    rw [hx, hy, hlast] at this
    exact this

/-- The sizes an append or a prepend works with are the numbers they stand for. -/
structure Room (c : ChangeCall) (p : PropertyRec) : Prop where
  new : c.numBytes < 2 ^ 31
  old : p.size * c.sizeInBytes < 2 ^ 32
  units : p.size + c.len < 2 ^ 32

/-- What comes of preparing the new content of a record: `BadAlloc`, the old content, or a
content with a new block. -/
inductive Renewed (c : ChangeCall) (p : PropertyRec) (h : Heap) (refused : Prop) :
    Option (Except Status (Heap × PropertyRec)) → Prop
  | refused (why : refused) : Renewed c p h refused (some (.error BadAlloc))
  | same (onto : content h p = c.onto (content h p)) : Renewed c p h refused (some (.ok (h, p)))
  | block {h' : Heap} {p' : PropertyRec} (name : p'.propertyName = p.propertyName)
      (onto : content h' p' = c.onto (content h p)) (small : p'.size < 2 ^ 32) (fresh : h'.Fresh)
      (live : h'.Live p'.data) (new : ∀ q, p'.data = some q → q = h.next)
      (keep : ∀ q, q ≠ h.next → h'.blocks q = h.blocks q) : Renewed c p h refused (some (.ok (h', p')))

/-- A block with the old and the new bytes in it, in the order `as`, `bs`. -/
theorem renewed_block (hf : h.Fresh) {as bs : List Byte} (hsmall : p.size + c.len < 2 ^ 32)
    (hdata : c.onto (content h p) = { content h p with size := p.size + c.len, data := as ++ bs })
    (refused : Prop) :
    Renewed c p h refused (some (.ok
      (⟨update h.blocks h.next (some (as ++ bs)), h.next + 1⟩,
        { p with data := some h.next, size := (p.size + c.len) % 2 ^ 32 }))) := by
  cases built_block hf (as ++ bs) refused with
  | block hfresh hload hlive hnext hkeep =>
    refine .block rfl ?_ (Nat.mod_lt _ (by decide)) hfresh hlive hnext hkeep
    rw [hdata, Nat.mod_eq_of_lt hsmall]
    unfold content
    rw [hload]

theorem newContent_spec (hf : h.Fresh) (granted : Bool)
    (hlen : (h.load p.data).length = p.size * (p.format >>> 3))
    (hreplace : c.mode = .replace → c.len < 2 ^ 32 ∧ c.numBytes < 2 ^ 32)
    (hjoin : c.mode ≠ .replace → p.format = c.format ∧ (c.len ≠ 0 → Room c p)) :
    Renewed c p h (granted = false ∨ 2 ^ 31 ≤ c.numBytes) (newContent c granted p h) := by
  unfold newContent
  dsimp only
  cases hmode : c.mode with
  | replace =>
    obtain ⟨hunits, hbytes⟩ := hreplace hmode
    have hb := valueBlock_spec c hf granted hbytes
    generalize valueBlock c granted h = r at hb ⊢
    cases hb with
    | refused why => exact .refused why
    | block hfresh hload hlive hnext hkeep =>
      refine .block rfl ?_ (Nat.mod_lt _ (by decide)) hfresh hlive hnext hkeep
      simp only [content, hload, ChangeCall.onto, hmode, ChangeCall.fresh, Nat.mod_eq_of_lt hunits]
  | append =>
    obtain ⟨hformat, hroom⟩ := hjoin (by simp [hmode])
    dsimp only
    by_cases hzero : c.len = 0
    · rw [if_pos hzero]
      refine .same ?_
      simp [ChangeCall.onto, hmode, bytes_nil hzero, hzero]
    rw [if_neg hzero]
    obtain ⟨hnew, hold, hunits⟩ := hroom hzero
    have hlen : (h.load p.data).length = p.size * c.sizeInBytes := by rw [hlen, hformat]; rfl
    cases granted with
    | false =>
      rw [Heap.calloc_refused]
      exact .refused (.inl rfl)
    | true =>
      have hsum : (p.size + c.len) * c.sizeInBytes = (h.load p.data).length + c.bytes.length := by
        rw [hlen, length_bytes]
        exact add_mul ..
      rw [totalSize_eq hnew, Nat.mod_eq_of_lt hold, ← hlen, ← length_bytes, hsum, Heap.calloc_granted
        (by rw [hlen, length_bytes]; unfold PTRDIFF_MAX; omega)]
      have hcopy := (fill_block h.blocks h.next (h.next + 1) (take_length (l := h.load p.data))
        (show c.value.take c.bytes.length = c.bytes by rw [length_bytes]; rfl) (by omega)
        (by rw [length_bytes]; omega)).1
      dsimp only at hcopy ⊢
      rw [if_neg (by simp)]
      simp only [bind_eq_bind]
      rw [← bind_assoc, hcopy]
      exact renewed_block hf hunits (by simp [ChangeCall.onto, hmode, content]) _
  | prepend =>
    obtain ⟨hformat, hroom⟩ := hjoin (by simp [hmode])
    dsimp only
    by_cases hzero : c.len = 0
    · rw [if_pos hzero]
      refine .same ?_
      simp [ChangeCall.onto, hmode, bytes_nil hzero, hzero]
    rw [if_neg hzero]
    obtain ⟨hnew, hold, hunits⟩ := hroom hzero
    have hlen : (h.load p.data).length = p.size * c.sizeInBytes := by rw [hlen, hformat]; rfl
    cases granted with
    | false =>
      rw [Heap.calloc_refused]
      exact .refused (.inl rfl)
    | true =>
      have hsum : (c.len + p.size) * c.sizeInBytes = c.bytes.length + (h.load p.data).length := by
        rw [hlen, length_bytes]
        exact add_mul ..
      rw [totalSize_eq hnew, Nat.mod_eq_of_lt hold, ← hlen, ← length_bytes, hsum, Heap.calloc_granted
        (by rw [hlen, length_bytes]; unfold PTRDIFF_MAX; omega)]
      have hcopy := (fill_block h.blocks h.next (h.next + 1)
        (show c.value.take c.bytes.length = c.bytes by rw [length_bytes]; rfl)
        (take_length (l := h.load p.data)) (by rw [length_bytes]; omega) (by omega)).2
      dsimp only at hcopy ⊢
      rw [if_neg (by simp)]
      simp only [bind_eq_bind]
      rw [← bind_assoc, hcopy]
      exact renewed_block hf hunits (by simp [ChangeCall.onto, hmode, content]) _

end Blocks

/-! ### One call -/

/-- The condition on a call: its bytes and units fit their fields, also together with those
of the property it adds to, and a property that is there is not hidden from it. -/
def Fits (s : PropState) (c : ChangeCall) (lookup : Status) : Prop :=
  match s.lookup c.property with
  | none => c.len < 2 ^ 32 ∧ c.numBytes < 2 ^ 32
  | some p => lookup ≠ BadMatch ∧ (lookup = Success →
      (c.mode = .replace → c.len < 2 ^ 32 ∧ c.numBytes < 2 ^ 32) ∧
        (c.mode ≠ .replace → p.format = c.format → p.type = c.type → c.len ≠ 0 → Room c p))

/-- Everything is granted and allowed. -/
structure ChangeAnswers.Yes (a : ChangeAnswers) : Prop where
  lookup : a.lookup = Success
  content : a.content = Success
  optional : a.optional = true
  record : a.record = true
  data : a.data = true

/-- What a call did: it succeeded and had its effect, or it failed and changed nothing. -/
structure ContentOutcome (s : PropState) (effect : Option Props) (refused : Prop) (r : PropState × Status) :
    Prop where
  ok : PropsOk r.1.properties r.1.heap
  success : r.2 = Success → effect = some (view r.1.properties r.1.heap)
  failure : r.2 ≠ Success → Unchanged s r.1 ∧ (effect = none ∨ refused)

section Call

variable {s : PropState} {c : ChangeCall} {a : ChangeAnswers} {us vs : List PropertyRec} {p : PropertyRec}
  {effect : Option Props} {refused : Prop}

/-- The records around the one of a name. -/
theorem lookup_split (hl : s.lookup c.property = some p) :
    ∃ us vs, s.properties = us ++ p :: vs ∧ p.propertyName = c.property ∧
      ∀ q ∈ us, q.propertyName ≠ c.property := by
  obtain ⟨hname, us, vs, heq, hus⟩ := find?_eq_some_iff_append.1 hl
  exact ⟨us, vs, heq, by simpa using hname, fun q hq => by simpa using hus q hq⟩

theorem ContentOutcome.fail (hok : PropsOk s.properties s.heap) {rc : Status} (hrc : rc ≠ Success)
    (hwhy : effect = none ∨ refused) {value : ℕ} :
    ContentOutcome s effect refused ({ s with errorValue := value }, rc) :=
  ⟨hok, fun h => absurd h hrc, fun _ => ⟨⟨rfl, rfl, fun _ _ => rfl⟩, hwhy⟩⟩

theorem createProperty_spec (hok : PropsOk s.properties s.heap) (hl : s.lookup c.property = none)
    (hunits : c.len < 2 ^ 32) (hbytes : c.numBytes < 2 ^ 32) :
    ∃ r, createProperty c a s = some r ∧
      ContentOutcome s (c.apply (view s.properties s.heap)) (¬a.Yes ∨ 2 ^ 31 ≤ c.numBytes) r := by
  have hview : view s.properties s.heap c.property = none := by
    unfold view
    rw [show s.properties.find? _ = none from hl]
    rfl
  have hnames : ∀ q ∈ s.properties, q.propertyName ≠ c.property := by
    simpa [PropState.lookup] using hl
  have hbad : BadAlloc ≠ Success := by decide
  unfold createProperty
  split
  · rename_i h
    exact ⟨_, rfl, .fail hok hbad (.inr (.inl fun hyes => by simp [hyes.optional] at h))⟩
  split
  · rename_i h
    exact ⟨_, rfl, .fail hok hbad (.inr (.inl fun hyes => by simp [hyes.record] at h))⟩
  have hb := valueBlock_spec c hok.fresh a.data hbytes
  generalize valueBlock c a.data s.heap = r at hb ⊢
  cases hb with
  | refused why =>
    refine ⟨_, rfl, .fail hok hbad (.inr ?_)⟩
    rcases why with h | h
    · exact .inl fun hyes => by simp [hyes.data] at h
    · exact .inr h
  | @block h' data fresh load live new keep =>
    -- the blocks of the records are older than the new one
    have hold : ∀ q ∈ s.properties, ∀ r, q.data = some r → r ≠ s.heap.next := by
      intro q hq r hr heq
      have := hok.fresh r (hok.live q hq r hr)
      omega
    have hagree : ∀ q ∈ s.properties, s.heap.Agree h' q.data := fun q hq r hr => keep r (hold q hq r hr)
    dsimp only
    split
    · rename_i hdeny
      obtain ⟨h'', hfree, hfresh, hkeep⟩ := Heap.free_live live fresh
      have hagree' : ∀ q ∈ s.properties, s.heap.Agree h'' q.data := by
        intro q hq r hr
        rw [hkeep q.data (fun n hn hqn => hold q hq n hqn (new n hn)) r hr]
        exact hagree q hq r hr
      rw [hfree]
      refine ⟨_, rfl, hok.sublist (List.Sublist.refl _) hfresh hagree', fun h => absurd h hdeny, fun _ => ?_⟩
      exact ⟨⟨rfl, rfl, fun q hq => (hagree' q hq).load⟩, .inr (.inl fun hyes => hdeny hyes.content)⟩
    · refine ⟨_, rfl, ?_, fun _ => ?_, fun h => absurd rfl h⟩
      · have hrest : PropsOk ([] ++ s.properties) h' := hok.sublist (List.Sublist.refl _) fresh hagree
        refine hrest.insert hnames ?_ (Nat.mod_lt _ (by decide)) live ?_
        · dsimp only
          rw [load, length_bytes, Nat.mod_eq_of_lt hunits]
          rfl
        · intro q hq r hr heq
          exact hold q hq r hr (new r heq)
      · unfold ChangeCall.apply
        rw [hview]
        have hins := view_insert [] s.properties h'
          ⟨c.property, c.type, c.format, c.len % 2 ^ 32, data⟩ (by simp)
        rw [nil_append, nil_append, view_agree hagree] at hins
        dsimp only
        rw [hins]
        simp only [content, load, Nat.mod_eq_of_lt hunits]
        rfl

/-- Writing a record over the one of its name. -/
theorem store_properties {s : PropState} {us vs : List PropertyRec} {p p' : PropertyRec}
    (hs : s.properties = us ++ p :: vs) (hname : p'.propertyName = p.propertyName)
    (hus : ∀ q ∈ us, q.propertyName ≠ p.propertyName) :
    s.store p' = { s with properties := us ++ p' :: vs } := by
  have hmid := replaceF_middle us vs (p := p)
    (f := fun q => if q.propertyName = p'.propertyName then some p' else none)
    (fun q hq => if_neg (by rw [hname]; exact hus q hq)) (if_pos hname.symm)
  unfold PropState.store
  rw [hs, hmid]

/-- Of two pointers the first is freed, unless they are the same. -/
theorem drop_block {α : Type} {h : Heap} {x y : Option ℕ} (hf : h.Fresh) (hx : h.Live x)
    (k : Heap → α) :
    ∃ h', (if x ≠ y then (h.free x).map k else some (k h)) = some (k h') ∧ h'.Fresh ∧
      ∀ z, (∀ q, x = some q → z ≠ some q) → h.Agree h' z := by
  by_cases hne : x = y
  · rw [if_neg (fun h => h hne)]
    exact ⟨h, rfl, hf, fun _ _ _ _ => rfl⟩
  · rw [if_pos hne]
    obtain ⟨h', hfree, hfresh, hkeep⟩ := Heap.free_live hx hf
    exact ⟨h', by rw [hfree]; rfl, hfresh, hkeep⟩

theorem onto_length {x : Content} (hx : x.data.length = x.size * (x.format >>> 3))
    (hformat : c.mode ≠ .replace → x.format = c.format) :
    (c.onto x).data.length = (c.onto x).size * ((c.onto x).format >>> 3) := by
  have hbytes : c.bytes.length = c.len * (c.format >>> 3) := length_bytes c
  unfold ChangeCall.onto
  cases hm : c.mode with
  | replace => exact hbytes
  | append =>
    dsimp only
    rw [length_append, hx, hbytes, hformat (by simp [hm]), add_mul]
  | prepend =>
    dsimp only
    rw [length_append, hx, hbytes, hformat (by simp [hm]), add_mul, add_comm]

variable (hok : PropsOk s.properties s.heap)
include hok

theorem overwriteProperty_spec (hl : s.lookup c.property = some p)
    (hreplace : c.mode = .replace → c.len < 2 ^ 32 ∧ c.numBytes < 2 ^ 32)
    (hjoin : c.mode ≠ .replace → p.format = c.format → p.type = c.type → c.len ≠ 0 → Room c p) :
    ∃ r, overwriteProperty c a p s = some r ∧
      ContentOutcome s (c.apply (view s.properties s.heap)) (¬a.Yes ∨ 2 ^ 31 ≤ c.numBytes) r := by
  obtain ⟨us, vs, hs, hname, hus⟩ := lookup_split hl
  rw [← hname] at hus
  have hmem : p ∈ s.properties := by simp [hs]
  have hview : view s.properties s.heap c.property = some (content s.heap p) := by
    unfold view
    rw [show s.properties.find? _ = some p from hl]
    rfl
  have hbad : BadMatch ≠ Success := by decide
  have hbad' : BadAlloc ≠ Success := by decide
  unfold overwriteProperty ChangeCall.apply
  rw [hview]
  dsimp only [content]
  split
  · rename_i h
    refine ⟨_, rfl, .fail hok hbad (.inl (if_neg ?_))⟩
    rintro (hm | ⟨hf, -⟩)
    · exact h.2 hm
    · exact h.1 hf.symm
  split
  · rename_i h
    refine ⟨_, rfl, .fail hok hbad (.inl (if_neg ?_))⟩
    rintro (hm | ⟨-, ht⟩)
    · exact h.2 hm
    · exact h.1 ht
  rename_i hformat htype
  have hmatch : c.mode = .replace ∨ p.format = c.format ∧ p.type = c.type := by
    by_cases hm : c.mode = .replace
    · exact .inl hm
    · refine .inr ⟨?_, ?_⟩
      · by_contra hne
        exact hformat ⟨Ne.symm hne, hm⟩
      · by_contra hne
        exact htype ⟨hne, hm⟩
  rw [if_pos hmatch]
  have hb := newContent_spec hok.fresh a.data (hok.length p hmem) hreplace
    (c := c) (fun hm => by
      have := hmatch.resolve_left hm
      exact ⟨this.1, hjoin hm this.1 this.2⟩)
  generalize newContent c a.data p s.heap = r at hb ⊢
  have hok' := hok
  rw [hs] at hok'
  obtain ⟨hnames, hblocks⟩ := hok'.others
  cases hb with
  | refused why =>
    refine ⟨_, rfl, .fail hok hbad' (.inr ?_)⟩
    rcases why with h | h
    · exact .inl fun hyes => by simp [hyes.data] at h
    · exact .inr h
  | same onto =>
    -- nothing to add: the record is stored over itself
    dsimp only
    have hstore : ({ s with heap := s.heap } : PropState).store p = s :=
      (store_properties hs rfl hus).trans (by rw [← hs])
    rw [hstore]
    split
    · rw [if_neg (fun h => h rfl)]
      refine ⟨_, rfl, hok, fun _ => ?_, fun h => absurd rfl h⟩
      rw [show (⟨p.type, p.format, p.size, s.heap.load p.data⟩ : Content) = content s.heap p from rfl,
        ← onto, ← hview, update_eq_self]
    · rename_i hdeny
      rw [if_neg (fun h => h rfl), hstore]
      exact ⟨_, rfl, hok, fun h => absurd h hdeny, fun _ =>
        ⟨⟨rfl, rfl, fun _ _ => rfl⟩, .inr (.inl fun hyes => hdeny hyes.content)⟩⟩
  | @block h' p' name onto small fresh live new keep =>
    have hold : ∀ q ∈ s.properties, ∀ r, q.data = some r → r ≠ s.heap.next := by
      intro q hq r hr heq
      have := hok.fresh r (hok.live q hq r hr)
      omega
    have hagree : ∀ q ∈ s.properties, s.heap.Agree h' q.data := fun q hq r hr => keep r (hold q hq r hr)
    have hrest : ∀ q ∈ us ++ vs, q ∈ s.properties := by
      intro q hq
      rw [hs]
      simp only [mem_append, mem_cons] at hq ⊢
      tauto
    dsimp only
    rw [store_properties (s := { s with heap := h' }) hs name hus]
    have hback : ∀ h'' : Heap, ({ s with properties := us ++ p' :: vs, heap := h'' } : PropState).store p =
        { s with heap := h'' } := by
      intro h''
      rw [store_properties (p := p') rfl name.symm (by rw [name]; exact hus), hs]
    split
    · -- accepted: the old block goes
      obtain ⟨h'', hrun, hfresh, hkeep⟩ := drop_block fresh ((hagree p hmem).live (hok.live p hmem))
        fun h => (({ s with properties := us ++ p' :: vs, heap := h } : PropState), Success)
      have hagree' : ∀ q ∈ us ++ vs, s.heap.Agree h'' q.data := by
        intro q hq r hr
        rw [hkeep q.data (fun n hn hqn => hblocks q hq n hqn hn) r hr]
        exact hagree q (hrest q hq) r hr
      have hnew : h'.Agree h'' p'.data :=
        hkeep p'.data fun n hn hpn => hold p hmem n hn (new n hpn)
      have hcontent : content h'' p' = c.onto (content s.heap p) := by
        rw [← onto]
        unfold content
        rw [hnew.load]
      refine ⟨_, hrun, ?_, fun _ => ?_, fun h => absurd rfl h⟩
      · have hlen := onto_length (c := c) (x := content s.heap p) (hok.length p hmem)
          (fun hm => (hmatch.resolve_left hm).1)
        rw [← hcontent] at hlen
        refine (hok.sublist (by rw [hs]; simp) hfresh hagree').insert ?_ hlen small (hnew.live live) ?_
        · intro q hq
          rw [name]
          exact hnames q hq
        · intro q hq r hr heq
          exact hold q (hrest q hq) r hr (new r heq)
      · have hins := view_insert us vs h'' p' (by rw [name]; exact hus)
        rw [view_agree hagree', hcontent, name, hname] at hins
        have hins' := view_insert us vs s.heap p hus
        rw [← hs, hname] at hins'
        rw [hins, hins', update_idem]
        rfl
    · rename_i hdeny
      obtain ⟨h'', hrun, hfresh, hkeep⟩ := drop_block (y := p.data) fresh live
        fun h => (({ s with heap := h } : PropState), a.content)
      have hagree' : ∀ q ∈ s.properties, s.heap.Agree h'' q.data := by
        intro q hq r hr
        rw [hkeep q.data (fun n hn hqn => hold q hq n hqn (new n hn)) r hr]
        exact hagree q hq r hr
      refine ⟨({ s with heap := h'' }, a.content), ?_, hok.sublist (List.Sublist.refl _) hfresh hagree',
        fun h => absurd h hdeny, fun _ => ?_⟩
      · dsimp only
        simp only [hback]
        rw [if_congr ne_comm rfl rfl]
        exact hrun
      · exact ⟨⟨rfl, rfl, fun q hq => (hagree' q hq).load⟩, .inr (.inl fun hyes => hdeny hyes.content)⟩

/-- **`dixChangeWindowProperty`**: a call that fits succeeds with its effect on the view, or
fails and changes nothing. -/
theorem change_spec (hfit : Fits s c a.lookup) :
    ∃ r, dixChangeWindowProperty c a s = some r ∧
      ContentOutcome s (c.apply (view s.properties s.heap)) (¬a.Yes ∨ 2 ^ 31 ≤ c.numBytes) r := by
  have hok' : PropsOk ({ s with errorValue := c.property } : PropState).properties s.heap := hok
  unfold dixChangeWindowProperty dixLookupProperty
  unfold Fits at hfit
  -- the events delivered at the end are not seen in the properties
  have hdeliver : ∀ r, ContentOutcome s (c.apply (view s.properties s.heap)) (¬a.Yes ∨ 2 ^ 31 ≤ c.numBytes) r →
      ContentOutcome s (c.apply (view s.properties s.heap)) (¬a.Yes ∨ 2 ^ 31 ≤ c.numBytes)
        (if r.2 = Success ∧ c.sendevent then (r.1.deliverPropertyNotifyEvent .newValue c.property, r.2)
          else (r.1, r.2)) := by
    intro r hr
    split
    · rename_i hs
      exact ⟨hr.ok, hr.success, fun h => absurd hs.1 h⟩
    · exact hr
  have hvalue : ∀ r, ContentOutcome ({ s with errorValue := c.property } : PropState)
      (c.apply (view s.properties s.heap)) (¬a.Yes ∨ 2 ^ 31 ≤ c.numBytes) r →
      ContentOutcome s (c.apply (view s.properties s.heap)) (¬a.Yes ∨ 2 ^ 31 ≤ c.numBytes) r := fun r hr =>
    ⟨hr.ok, hr.success, fun h => ⟨⟨(hr.failure h).1.1, (hr.failure h).1.2, (hr.failure h).1.3⟩,
      (hr.failure h).2⟩⟩
  have hlook : ({ s with errorValue := c.property } : PropState).lookup c.property = s.lookup c.property := rfl
  dsimp only
  rw [hlook]
  cases hl : s.lookup c.property with
  | none =>
    rw [hl] at hfit
    obtain ⟨r, hrun, hr⟩ := createProperty_spec (a := a) hok' (hlook.trans hl) hfit.1 hfit.2
    dsimp only
    rw [if_pos rfl, hrun]
    exact ⟨_, rfl, hdeliver r (hvalue r hr)⟩
  | some p =>
    rw [hl] at hfit
    dsimp only
    rw [if_neg hfit.1]
    by_cases hgrant : a.lookup = Success
    · obtain ⟨hreplace, hjoin⟩ := hfit.2 hgrant
      obtain ⟨r, hrun, hr⟩ := overwriteProperty_spec (a := a) hok' (hlook.trans hl) hreplace hjoin
      rw [if_pos hgrant, bind_some, hrun]
      exact ⟨_, rfl, hdeliver r (hvalue r hr)⟩
    · rw [if_neg hgrant]
      refine ⟨_, rfl, hdeliver (_, a.lookup) (.fail hok hgrant (.inr (.inl fun hyes => ?_)))⟩
      exact hgrant hyes.lookup

theorem deleteProperty_spec {name : ℕ} {verdict : Status} (hfit : (s.lookup name).isSome → verdict ≠ BadMatch) :
    ∃ r, deleteProperty name verdict s = some r ∧
      ContentOutcome s (some (update (view s.properties s.heap) name none)) (verdict ≠ Success) r := by
  unfold deleteProperty dixLookupProperty
  have hlook : ({ s with errorValue := name } : PropState).lookup name = s.lookup name := rfl
  dsimp only
  rw [hlook]
  cases hl : s.lookup name with
  | none =>
    refine ⟨_, if_pos rfl, hok, fun _ => ?_, fun h => absurd rfl h⟩
    have hnone : view s.properties s.heap name = none := by
      unfold view
      rw [show s.properties.find? _ = none from hl]
      rfl
    rw [← hnone, update_eq_self]
  | some p =>
    dsimp only
    rw [if_neg (hfit (by rw [hl]; rfl))]
    by_cases hgrant : verdict = Success
    · rw [if_pos hgrant, bind_some]
      obtain ⟨hname, us, vs, hs, hus⟩ := find?_eq_some_iff_append.1 hl
      obtain rfl : p.propertyName = name := by simpa using hname
      have hunlink : s.properties.eraseP (fun q => decide (q.propertyName = p.propertyName)) = us ++ vs := by
        rw [hs, eraseP_append_right _ (by simpa using hus), eraseP_cons_of_pos (by simp)]
      have hok'' := hok
      rw [hs] at hok''
      obtain ⟨hnames, hblocks⟩ := hok''.others
      obtain ⟨h', hfree, hfresh, hkeep⟩ := Heap.free_live (hok.live p (by simp [hs])) hok.fresh
      have hagree : ∀ q ∈ us ++ vs, s.heap.Agree h' q.data := fun q hq =>
        hkeep q.data fun n hn hqn => hblocks q hq n hqn hn
      unfold PropState.deliverPropertyNotifyEvent PropState.unlink
      dsimp only
      rw [hunlink, hfree]
      refine ⟨_, rfl, hok.sublist (by rw [hs]; simp) hfresh hagree, fun _ => ?_, fun h => absurd hgrant h⟩
      dsimp only
      rw [view_agree hagree, view_remove hnames, ← hs]
    · rw [if_neg hgrant]
      exact ⟨_, rfl, .fail hok hgrant (.inr hgrant)⟩

end Call

/-! ### Runs -/

/-- What a successful operation makes of the properties. -/
def PropOp.effect : PropOp → Props → Option Props
  | .change c _, m => c.apply m
  | .request e r _, m =>
    match checkChange e r with
    | .ok c => c.apply m
    -- a filter may answer a request itself, also with success
    | .error _ => some m
  | .delete name _, m => some (Function.update m name none)

def PropOp.Fits (s : PropState) : PropOp → Prop
  | .change c a => Dix.Fits s c a.lookup
  | .request e r a => ∀ c, checkChange e r = .ok c → Dix.Fits s c a.lookup
  | .delete name verdict => (s.lookup name).isSome → verdict ≠ BadMatch

variable {s : PropState}

theorem ContentOutcome.mono {effect : Option Props} {p q : Prop} {r : PropState × Status}
    (h : ContentOutcome s effect p r) (hpq : p → q) : ContentOutcome s effect q r :=
  ⟨h.ok, h.success, fun hrc => ⟨(h.failure hrc).1, (h.failure hrc).2.imp id hpq⟩⟩

theorem op_spec (hok : PropsOk s.properties s.heap) {op : PropOp} (hfit : op.Fits s) :
    ∃ r, op.exec s = some r ∧ ContentOutcome s (op.effect (view s.properties s.heap)) True r := by
  cases op with
  | change c a =>
    obtain ⟨r, hrun, hr⟩ := change_spec hok hfit
    exact ⟨r, hrun, hr.mono fun _ => trivial⟩
  | delete name verdict =>
    obtain ⟨r, hrun, hr⟩ := deleteProperty_spec hok hfit
    exact ⟨r, hrun, hr.mono fun _ => trivial⟩
  | request e req a =>
    change ∃ r, procChangeProperty e req a s = some r ∧ _
    unfold procChangeProperty PropOp.effect
    dsimp only
    cases hc : checkChange e req with
    | ok c =>
      obtain ⟨r, hrun, hr⟩ := change_spec hok (hfit c hc)
      exact ⟨r, hrun, hr.mono fun _ => trivial⟩
    | error err =>
      obtain ⟨rc, value⟩ := err
      refine ⟨({ s with errorValue := value.getD s.errorValue }, rc), rfl, hok, fun _ => rfl, fun _ => ?_⟩
      exact ⟨⟨rfl, rfl, fun _ _ => rfl⟩, .inr trivial⟩

/-- The window, and beside it the fold of the successful operations. -/
abbrev PropRun := Option (PropState × Props)

def propStep (st : PropRun) (op : PropOp) : PropRun :=
  st.bind fun (s, m) => (op.exec s).map fun (s', rc) =>
    (s', if rc = Success then (op.effect m).getD m else m)

theorem propStep_some {s' : PropState} {m : Props} {op : PropOp} {rc : Status} (h : op.exec s = some (s', rc)) :
    propStep (some (s, m)) op = some (s', if rc = Success then (op.effect m).getD m else m) := by
  simp only [propStep, bind_some, h, map_some]

def FitsStep (st : PropRun) (op : PropOp) : Prop := ∀ s m, st = some (s, m) → op.Fits s

/-- The list is in order and shows the fold. -/
def Shows (st : PropRun) : Prop :=
  ∃ s m, st = some (s, m) ∧ PropsOk s.properties s.heap ∧ view s.properties s.heap = m

theorem propStep_shows (st : PropRun) (op : PropOp) (hfit : FitsStep st op) (h : Shows st) :
    Shows (propStep st op) := by
  obtain ⟨s, m, rfl, hok, rfl⟩ := h
  obtain ⟨⟨s', rc⟩, hrun, hr⟩ := op_spec hok (hfit s _ rfl)
  refine ⟨s', _, propStep_some hrun, hr.ok, ?_⟩
  split
  · rename_i hs
    rw [hr.success hs]
    rfl
  · rename_i hf
    obtain ⟨⟨hprops, -, hcontents⟩, -⟩ := hr.failure hf
    dsimp only at hprops hcontents ⊢
    funext name
    unfold view
    rw [hprops]
    cases hfind : s.properties.find? fun p => p.propertyName = name with
    | none => rfl
    | some p => simp only [map_some, content, hcontents p (mem_of_find?_eq_some hfind)]

/-- **The contents of the properties** after any run whose calls fit: the fold of the
successful ones; every name once, every value as long as its size says. Every further call
that fits succeeds with its effect or changes nothing. -/
theorem property_contents {s : PropState} (hok : PropsOk s.properties s.heap) {ops : List PropOp}
    (hops : AllSteps propStep FitsStep (some (s, view s.properties s.heap)) ops) :
    ∃ s' m', run propStep (some (s, view s.properties s.heap)) ops = some (s', m') ∧
      view s'.properties s'.heap = m' ∧ (s'.properties.map PropertyRec.propertyName).Nodup ∧
      (∀ p ∈ s'.properties, (s'.heap.load p.data).length = p.size * (p.format >>> 3) ∧ p.size < 2 ^ 32) ∧
      ∀ op : PropOp, op.Fits s' → ∃ s'' rc, op.exec s' = some (s'', rc) ∧
        (rc = Success → op.effect m' = some (view s''.properties s''.heap)) ∧
        (rc ≠ Success → Unchanged s' s'') := by
  obtain ⟨s', m', hrun, hok', hview⟩ := hops.invariant propStep_shows ⟨s, _, rfl, hok, rfl⟩
  refine ⟨s', m', hrun, hview, hok'.nodup, fun p hp => ⟨hok'.length p hp, hok'.small p hp⟩, ?_⟩
  intro op hop
  obtain ⟨⟨s'', rc⟩, hexec, hr⟩ := op_spec hok' hop
  exact ⟨s'', rc, hexec, fun h => hview ▸ hr.success h, fun h => (hr.failure h).1⟩

/-! ### Beyond 32 bits -/

def noProperties : PropState := ⟨[], ⟨fun _ => none, 0⟩, 0, []⟩

theorem noProperties_ok : PropsOk noProperties.properties noProperties.heap :=
  ⟨nodup_nil, by simp [noProperties], by simp [noProperties], by simp [noProperties],
    nodup_nil, fun q hq => by simp [noProperties] at hq⟩

def start : PropRun := some (noProperties, view noProperties.properties noProperties.heap)

def allGranted : ChangeAnswers := ⟨Success, Success, true, true, true⟩

/-- Appending `units` units of 32 bits, every byte of them `b`. -/
def appendUnits (units : ℕ) (b : Byte) : ChangeCall where
  property := 39
  type := 31
  format := 32
  mode := .append
  len := units
  value := List.replicate (units * 4) b
  sendevent := false
  enough := by simp

def unitsOf (units : ℕ) (b : Byte) : Content := ⟨31, 32, units, List.replicate (units * 4) b⟩

@[simp] theorem appendUnits_sizeInBytes (u : ℕ) (b : Byte) : (appendUnits u b).sizeInBytes = 4 := by
  simp [appendUnits, ChangeCall.sizeInBytes]

theorem appendUnits_bytes (u : ℕ) (b : Byte) :
    (appendUnits u b).numBytes = u * 4 ∧ (appendUnits u b).bytes = replicate (u * 4) b := by
  have hnum : (appendUnits u b).numBytes = u * 4 := by
    rw [ChangeCall.numBytes, appendUnits_sizeInBytes]
    rfl
  refine ⟨hnum, ?_⟩
  unfold ChangeCall.bytes
  rw [hnum]
  exact take_of_length_le (by simp [appendUnits])

/-- A record is what the view shows. -/
theorem lookup_of_view {name : ℕ} {x : Content} (h : view s.properties s.heap name = some x) :
    ∃ p, s.lookup name = some p ∧ p.format = x.format ∧ p.type = x.type ∧ p.size = x.size := by
  obtain ⟨p, hp, rfl⟩ := map_eq_some_iff.1 h
  exact ⟨p, hp, rfl, rfl, rfl⟩

/-- One append to what `k` units were appended to. -/
theorem append_step (hok : PropsOk s.properties s.heap) {u k : ℕ} (hu : 0 < u) (hsmall : u * 4 < 2 ^ 31) (hk : k + u ≤ 2 ^ 30)
    (hview : k = 0 ∧ view s.properties s.heap 39 = none ∨ view s.properties s.heap 39 = some (unitsOf k 1)) :
    FitsStep (some (s, view s.properties s.heap)) (.change (appendUnits u 1) allGranted) ∧
      ∃ s', propStep (some (s, view s.properties s.heap)) (.change (appendUnits u 1) allGranted) =
          some (s', view s'.properties s'.heap) ∧
        PropsOk s'.properties s'.heap ∧ view s'.properties s'.heap 39 = some (unitsOf (k + u) 1) := by
  obtain ⟨hnum, hbytes⟩ := appendUnits_bytes u 1
  have hlen : (appendUnits u 1).len = u := rfl
  have hfit : Fits s (appendUnits u 1) Success := by
    unfold Fits
    rcases hview with ⟨-, hnone⟩ | hsome
    · have hl : s.lookup (appendUnits u 1).property = none := map_eq_none_iff.1 hnone
      rw [hl]
      exact ⟨by omega, by omega⟩
    · obtain ⟨p, hl, -, -, hsize⟩ := lookup_of_view hsome
      rw [show s.lookup (appendUnits u 1).property = some p from hl]
      refine ⟨by decide, fun _ => ⟨fun h => absurd h (by simp [appendUnits]), fun _ _ _ _ => ⟨?_, ?_, ?_⟩⟩⟩
      · omega
      · simp only [appendUnits_sizeInBytes, hsize, unitsOf]
        omega
      · rw [hlen, hsize]
        simp only [unitsOf]
        omega
  have heffect : (appendUnits u 1).apply (view s.properties s.heap) =
      some (update (view s.properties s.heap) 39 (some (unitsOf (k + u) 1))) := by
    unfold ChangeCall.apply
    rcases hview with ⟨rfl, hnone⟩ | hsome
    · rw [show view s.properties s.heap (appendUnits u 1).property = none from hnone]
      simp only [ChangeCall.fresh, hbytes, zero_add]
      rfl
    · rw [show view s.properties s.heap (appendUnits u 1).property = some (unitsOf k 1) from hsome]
      dsimp only
      rw [if_pos (.inr ⟨rfl, rfl⟩)]
      have honto : (appendUnits u 1).onto (unitsOf k 1) =
          { unitsOf k 1 with size := k + u, data := (unitsOf k 1).data ++ (appendUnits u 1).bytes } := rfl
      rw [honto, hbytes]
      simp only [unitsOf, add_mul, replicate_add]
      rfl
  have hyes : allGranted.Yes := ⟨rfl, rfl, rfl, rfl, rfl⟩
  obtain ⟨⟨s', rc⟩, hrun, hr⟩ := change_spec (a := allGranted) hok hfit
  have hrc : rc = Success := by
    by_contra hne
    rcases (hr.failure hne).2 with hnone | hwhy | hbig
    · rw [heffect] at hnone
      exact absurd hnone (by simp)
    · exact hwhy hyes
    · omega
  have hview' := hr.success hrc
  rw [heffect] at hview'
  refine ⟨fun t m ht => ?_, s', ?_, hr.ok, ?_⟩
  · cases ht
    exact hfit
  · have hexec : (PropOp.change (appendUnits u 1) allGranted).exec s = some (s', rc) := hrun
    have hop : (PropOp.change (appendUnits u 1) allGranted).effect (view s.properties s.heap) = _ := heffect
    rw [propStep_some hexec, if_pos hrc, hop, hview']
    rfl
  · rw [← some.inj hview', update_self]

/-- Appending `n + 1` times `u` units. -/
theorem appends_run {u n : ℕ} (hu : 0 < u) (hsmall : u * 4 < 2 ^ 31) (hn : (n + 1) * u ≤ 2 ^ 30) :
    AllSteps propStep FitsStep start (replicate (n + 1) (.change (appendUnits u 1) allGranted)) ∧
      ∃ s, run propStep start (replicate (n + 1) (.change (appendUnits u 1) allGranted)) =
          some (s, view s.properties s.heap) ∧
        PropsOk s.properties s.heap ∧ view s.properties s.heap 39 = some (unitsOf ((n + 1) * u) 1) := by
  induction n with
  | zero =>
    have hnone : view noProperties.properties noProperties.heap 39 = none := rfl
    rw [zero_add, one_mul] at hn ⊢
    have hk : 0 + u ≤ 2 ^ 30 := by rwa [zero_add]
    have hfirst := append_step noProperties_ok hu hsmall hk (.inl ⟨rfl, hnone⟩)
    rw [zero_add] at hfirst
    rw [replicate_one, run_cons, run_nil]
    exact ⟨⟨hfirst.1, trivial⟩, hfirst.2⟩
  | succ n ih =>
    have hmul : (n + 1 + 1) * u = (n + 1) * u + u := Nat.succ_mul ..
    obtain ⟨hall, s, hrun, hok, hview⟩ := ih (by omega)
    obtain ⟨hfit, s', hstep, hs'⟩ := append_step hok hu hsmall (by omega) (.inr hview)
    rw [replicate_succ', hmul]
    refine ⟨allSteps_append.2 ⟨hall, ?_⟩, s', ?_, hs'⟩
    · rw [hrun]
      exact ⟨hfit, trivial⟩
    · rw [run_snoc, hrun, hstep]

theorem property_contents_one :
    ∃ s m, run propStep start [.change (appendUnits 1 1) allGranted] = some (s, m) ∧
      view s.properties s.heap = m := by
  have hall : AllSteps propStep FitsStep (some (noProperties, _)) [.change (appendUnits 1 1) allGranted] :=
    (appends_run (u := 1) (n := 0) (by decide) (by decide) (by decide)).1
  obtain ⟨s, m, hrun, hview, -⟩ := property_contents noProperties_ok hall
  exact ⟨s, m, hrun, hview⟩

/-- When the old byte count wraps to zero, none of the old bytes is copied: the new ones stand
in front, and zeros after them. -/
theorem newContent_wraps {h : Heap} {c : ChangeCall} {p : PropertyRec} (hmode : c.mode = .append)
    (hlen : c.len ≠ 0) (hbytes : c.numBytes < 2 ^ 31) (hwrap : p.size * c.sizeInBytes % 2 ^ 32 = 0)
    (hroom : (p.size + c.len) * c.sizeInBytes ≤ PTRDIFF_MAX) :
    newContent c true p h = some (.ok
      (⟨update h.blocks h.next (some
          (memWrite (replicate ((p.size + c.len) * c.sizeInBytes) 0) 0 c.bytes)), h.next + 1⟩,
        { p with data := some h.next, size := (p.size + c.len) % 2 ^ 32 })) := by
  have hempty : ∀ h' : Heap, h'.memcpy (some h.next) 0 (h.load p.data) ((0 : ℕ) : ℤ) = some h' := by
    intro h'
    simp [Heap.memcpy, toSize]
  have hle : 0 + c.numBytes ≤ (replicate ((p.size + c.len) * c.sizeInBytes) (0 : Byte)).length := by
    rw [length_replicate, zero_add, ChangeCall.numBytes]
    exact Nat.mul_le_mul_right _ (Nat.le_add_left ..)
  have hcopy := Heap.memcpy_block (h := ⟨update h.blocks h.next
    (some (replicate ((p.size + c.len) * c.sizeInBytes) 0)), h.next + 1⟩) (q := h.next) 0
    (update_self ..) (show c.numBytes < 2 ^ 64 by omega) c.enough hle
  dsimp only at hcopy
  rw [update_idem] at hcopy
  unfold newContent
  rw [hmode, totalSize_eq hbytes, hwrap, Heap.calloc_granted hroom]
  dsimp only
  rw [if_neg hlen, if_neg (by simp), bind_eq_bind, hempty, bind_some, hcopy]
  rfl

/-- A call that matches the record and is granted everything puts the new content in place. -/
theorem overwriteProperty_granted (hok : PropsOk s.properties s.heap) {c : ChangeCall}
    {p r : PropertyRec} (hl : s.lookup c.property = some p) (hformat : p.format = c.format)
    (htype : p.type = c.type) (hr : r.propertyName = p.propertyName) (hdata : r.data = some s.heap.next) {blk : List Byte}
    (hnew : newContent c true p s.heap = some (.ok
      (⟨update s.heap.blocks s.heap.next (some blk), s.heap.next + 1⟩, r))) :
    ∃ s', overwriteProperty c allGranted p s = some (s', Success) ∧
      ∃ x, view s'.properties s'.heap c.property = some x ∧ x.data = blk := by
  obtain ⟨us, vs, hs, hname, hus⟩ := lookup_split hl
  rw [← hname] at hus
  have hmem : p ∈ s.properties := by simp [hs]
  have hold : ∀ q, p.data = some q → q < s.heap.next := fun q hq => hok.fresh q (hok.live p hmem q hq)
  cases built_block (h := s.heap) hok.fresh blk True with
  | block hfresh hload _ _ hkeep =>
    generalize Heap.mk (update s.heap.blocks s.heap.next (some blk)) (s.heap.next + 1) = h'
      at hnew hfresh hload hkeep
    have hlive : h'.Live p.data := by
      intro q hq
      rw [hkeep q (hold q hq).ne]
      exact hok.live p hmem q hq
    obtain ⟨h'', hrun, -, hkeep'⟩ := drop_block (y := r.data) hfresh hlive
      fun h => (({ s with properties := us ++ r :: vs, heap := h } : PropState), Success)
    have hload' : h''.load r.data = blk := by
      rw [(hkeep' r.data fun q hq hqn => ?_).load, hdata]
      · exact hload
      · rw [hdata] at hqn
        exact (hold q hq).ne (some.inj hqn).symm
    have hins := view_insert us vs h'' r (by rw [hr]; exact hus)
    refine ⟨{ s with properties := us ++ r :: vs, heap := h'' }, ?_, content h'' r, ?_, hload'⟩
    · unfold overwriteProperty
      rw [if_neg (fun h => h.1 hformat.symm), if_neg (fun h => h.1 htype),
        show allGranted.data = true from rfl, hnew]
      dsimp only
      have hstore : ({ s with heap := h' } : PropState).store r =
          { s with heap := h', properties := us ++ r :: vs } := store_properties hs hr hus
      rw [if_pos (by rfl), hstore]
      exact hrun
    · rw [hins, hr, ← hname, update_self]

/-- **Appends beyond `2 ^ 32` bytes** lose what was there: after 1024 appends of `2 ^ 20` units,
all of bytes 1, one more unit of bytes 2 stands in front of zeros, not behind the others. -/
theorem property_loses_content :
    ∃ ops s m, run propStep start ops = some (s, m) ∧ view s.properties s.heap 39 ≠ m 39 := by
  obtain ⟨u, hu⟩ : ∃ u, u = 2 ^ 20 := ⟨_, rfl⟩
  obtain ⟨-, s, hrun, hok, hview⟩ := appends_run (u := u) (n := 1023) (by omega) (by omega) (by omega)
  obtain ⟨k, hk⟩ : ∃ k, k = (1023 + 1) * u := ⟨_, rfl⟩
  rw [← hk] at hview
  obtain ⟨p, hl, hformat, htype, hsize⟩ := lookup_of_view hview
  have hsz : p.size = k := hsize
  have hnum := (appendUnits_bytes 1 2).1
  have hbytes := (appendUnits_bytes 1 2).2
  have hlen : (appendUnits 1 2).len = 1 := rfl
  have hnew := newContent_wraps (h := s.heap) (c := appendUnits 1 2) (p := p) rfl (by decide)
    (by rw [hnum]; decide) (by rw [appendUnits_sizeInBytes, hsz]; omega)
    (by rw [appendUnits_sizeInBytes, hsz, hlen]; unfold PTRDIFF_MAX; omega)
  obtain ⟨s', hover, x, hview', hdata⟩ := overwriteProperty_granted
    (s := { s with errorValue := (appendUnits 1 2).property }) (c := appendUnits 1 2)
    (r := { p with data := some s.heap.next, size := (p.size + (appendUnits 1 2).len) % 2 ^ 32 })
    hok hl hformat htype rfl rfl hnew
  have hcall : (PropOp.change (appendUnits 1 2) allGranted).exec s = some (s', Success) := by
    change dixChangeWindowProperty (appendUnits 1 2) allGranted s = _
    have hlook : ({ s with errorValue := (appendUnits 1 2).property } : PropState).lookup
        (appendUnits 1 2).property = some p := hl
    unfold dixChangeWindowProperty dixLookupProperty
    dsimp only
    rw [hlook]
    dsimp only
    rw [if_neg (by decide), if_pos (by rfl), bind_some, hover]
    rfl
  have heffect : (PropOp.change (appendUnits 1 2) allGranted).effect (view s.properties s.heap) =
      some (update (view s.properties s.heap) 39
        (some ⟨31, 32, k + 1, (unitsOf k 1).data ++ (appendUnits 1 2).bytes⟩)) := by
    change ChangeCall.apply _ _ = _
    unfold ChangeCall.apply
    rw [show view s.properties s.heap (appendUnits 1 2).property = some (unitsOf k 1) from hview]
    dsimp only
    rw [if_pos (.inr ⟨rfl, rfl⟩)]
    rfl
  have hlast : run propStep start
      (replicate (1023 + 1) (.change (appendUnits u 1) allGranted) ++ [.change (appendUnits 1 2) allGranted]) =
        some (s', update (view s.properties s.heap) 39
          (some ⟨31, 32, k + 1, (unitsOf k 1).data ++ (appendUnits 1 2).bytes⟩)) := by
    rw [run_snoc, hrun, propStep_some hcall, if_pos rfl, heffect, getD_some]
  refine ⟨_, s', _, hlast, ?_⟩
  rw [update_self, show view s'.properties s'.heap 39 = some x from hview']
  intro heq
  have hhead := congrArg (fun y => (Content.data y).head?) (some.inj heq)
  dsimp only at hhead
  have hpos : k * 4 ≠ 0 := by omega
  rw [hdata, hbytes] at hhead
  simp [memWrite, unitsOf, head?_append, head?_replicate, hpos] at hhead

end Xenia.Dix
