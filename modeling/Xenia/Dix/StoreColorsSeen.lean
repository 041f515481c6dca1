import Mathlib.Data.List.Nodup
import Xenia.Dix.StoreColors

/-!
# What the screen sees of stored colours

The value in a place is that of the last item that stores there (`valueIn`), and the loops leave these values (`storeColors_closed`). The
hook gets a record for each cell that an item changes through a shared colour, then one for each accepted item; `tellings` are these records
with the items they are for.

`storeColors_reported`: the hook has got the full colours, and last of all, for each cell that changed, the colour that it has, exactly
when (`Fits`) the items accepted behind a rejected one already have the colours that they leave in their cells, and no cell changes after
the last item that told the hook about it.
-/

namespace Xenia.StoreColors

/-! ## What an item does -/

section Meaning

variable (m : Colormap) (resolveColor : Rgb → Rgb) (values : Values) (defs : List ColorItem)

/-- The cell that a pixel names in a channel. -/
def index (it : ColorItem) (ch : Channel) : ℕ := if m.direct then m.visual.part ch it.pixel else it.pixel.toNat

/-- The item may change the value of the channel. -/
def Writable (it : ColorItem) (ch : Channel) : Prop :=
  if m.direct then
    it.pixel &&& m.visual.rgbbad = 0 ∧ index m it ch < m.visual.num ch ∧ m.refcnt ch (index m it ch) = AllocPrivate
  else index m it ch < m.visual.ColormapEntries ∧ m.refcnt .red (index m it ch) = AllocPrivate

instance (it : ColorItem) (ch : Channel) : Decidable (Writable m it ch) := by
  unfold Writable
  infer_instance

/-- The item is accepted: the pixel is valid and its cells are writable. -/
def Accepted (it : ColorItem) : Prop := ∀ ch ∈ Channel.all, Writable m it ch

instance (it : ColorItem) : Decidable (Accepted m it) := inferInstanceAs (Decidable (∀ ch ∈ Channel.all, _))

/-- The value that an item stores in a place. -/
def stores (ch : Channel) (p : Place) (it : ColorItem) : Option UInt16 :=
  if it.does ch ∧ Writable m it ch ∧ m.place ch (index m it ch) = p then some ((resolveColor it.rgb).get ch) else none

/-- The value that some items leave in a place: that of the last one that stores there. -/
def valueIn (its : List ColorItem) : Values := fun ch p =>
  (its.reverse.findSome? (stores m resolveColor ch p)).getD (values ch p)

/-- The values after the first `k` items. -/
def valueAfter (k : ℕ) : Values := valueIn m resolveColor values (defs.take k)

/-- The first `k` items that are accepted. -/
def acceptedIn (k : ℕ) : List ℕ := (List.range k).filter fun j => Accepted m (item defs j)

/-- A colour that the item changes is counted as shared. -/
def Loud (it : ColorItem) : Prop := ∃ ch ∈ Channel.all, it.does ch ∧ ∃ p ∈ m.pointer (index m it ch), 1 < m.sharedRefcnt ch (p ch)

/-- Another cell has a colour that the item changes. -/
def Shares (it : ColorItem) (t : ℕ) : Prop :=
  t ≠ it.pixel.toNat ∧ ∃ q ∈ m.pointer t, ∃ p ∈ m.pointer it.pixel.toNat, ∃ ch ∈ Channel.all, it.does ch ∧ q ch = p ch

instance (it : ColorItem) : Decidable (Loud m it) := by
  unfold Loud
  infer_instance

instance (it : ColorItem) (t : ℕ) : Decidable (Shares m it t) := by
  unfold Shares
  infer_instance

/-- The cells that the hook is told about at once for the item `k`. -/
def told (k : ℕ) : List ℕ :=
  if ¬m.direct ∧ Accepted m (item defs k) ∧ Loud m (item defs k) then
    (List.range m.visual.ColormapEntries).filter fun t => Shares m (item defs k) t
  else []

/-- The record for such a cell. -/
def toldRecord (k t : ℕ) : ColorItem :=
  (changed m (valueAfter m resolveColor values defs (k + 1)) (item defs k) (item defs k).pixel.toNat t).getD ⟨0, ⟨0, 0, 0⟩, 0⟩

/-- An item with the full colour of its cell. -/
def full (k : ℕ) : ColorItem :=
  { item defs k with
    rgb := .of fun ch => valueAfter m resolveColor values defs (k + 1) ch (m.place ch (index m (item defs k) ch)) }

/-- No item before was rejected. -/
def NoneRejected (k : ℕ) : Prop := ∀ j < k, Accepted m (item defs j)

instance (k : ℕ) : Decidable (NoneRejected m defs k) := by
  unfold NoneRejected
  infer_instance

/-- The record of an accepted item: behind a rejected one, other maps than DirectColor ones pass on what the client sent. -/
def record (k : ℕ) : ColorItem := if m.direct ∨ NoneRejected m defs k then full m resolveColor values defs k else item defs k

/-- All records in their order, with the items they are for. -/
def tellings : List (ℕ × ColorItem) :=
  ((List.range defs.length).flatMap fun k => (told m defs k).map fun t => (k, toldRecord m resolveColor values defs k t)) ++
    (acceptedIn m defs defs.length).map fun k => (k, record m resolveColor values defs k)

end Meaning

/-! ## Passes -/

variable {m : Colormap} {resolveColor : Rgb → Rgb} {values : Values} {defs : List ColorItem} {s s' : Pass} {ch : Channel} {it : ColorItem}

/-- What a pass over one channel does: `W` is whether it may change the channel, `good` whether the item stays all right. -/
structure ChannelStep (place : Channel → Place) (W : Channel → Prop) [DecidablePred W] (good : Channel → Bool) (ch : Channel) (s s' : Pass) :
    Prop where
  pixel : s'.item.pixel = s.item.pixel
  flags : s'.item.flags = s.item.flags
  values : s'.values = if W ch ∧ s.item.does ch then s.values.store ch (place ch) (s.item.rgb.get ch) else s.values
  rgb : s'.item.rgb = if W ch ∧ ¬s.item.does ch then s.item.rgb.set ch (s.values ch (place ch)) else s.item.rgb
  ok : s'.ok = (s.ok && good ch)

/-- What the passes over some channels do. -/
structure Passed (place : Channel → Place) (W : Channel → Prop) [DecidablePred W] (good : Channel → Bool) (chs : List Channel) (s s' : Pass) :
    Prop where
  pixel : s'.item.pixel = s.item.pixel
  flags : s'.item.flags = s.item.flags
  values : ∀ ch p, s'.values ch p = if ch ∈ chs ∧ W ch ∧ s.item.does ch ∧ p = place ch then s.item.rgb.get ch else s.values ch p
  rgb : ∀ ch, s'.item.rgb.get ch = if ch ∈ chs ∧ W ch ∧ ¬s.item.does ch then s.values ch (place ch) else s.item.rgb.get ch
  ok : s'.ok = (s.ok && chs.all good)

section Passes

variable {place : Channel → Place} {W : Channel → Prop} [DecidablePred W] {good : Channel → Bool} {chs : List Channel} {s'' : Pass}

theorem does_congr {a b : ColorItem} (h : a.flags = b.flags) : a.does ch ↔ b.does ch := by
  unfold ColorItem.does
  rw [h]

theorem Passed.refl (s : Pass) : Passed place W good [] s s := by
  refine ⟨rfl, rfl, fun ch p => ?_, fun ch => ?_, ?_⟩
  · rw [if_neg fun h => absurd h.1 List.not_mem_nil]
  · rw [if_neg fun h => absurd h.1 List.not_mem_nil]
  · rw [List.all_nil, Bool.and_true]

/-- A pass over another channel. -/
theorem Passed.snoc (h : Passed place W good chs s s') (hch : ch ∉ chs) (hstep : ChannelStep place W good ch s' s'') :
    Passed place W good (chs ++ [ch]) s s'' := by
  have hdoes : ∀ c, s'.item.does c ↔ s.item.does c := fun c => does_congr h.flags
  have hrgb : s'.item.rgb.get ch = s.item.rgb.get ch := by rw [h.rgb, if_neg fun hc => hch hc.1]
  have hval : ∀ p, s'.values ch p = s.values ch p := by
    intro p
    rw [h.values, if_neg fun hc => hch hc.1]
  refine ⟨hstep.pixel.trans h.pixel, hstep.flags.trans h.flags, fun c p => ?_, fun c => ?_, ?_⟩
  · rw [hstep.values]
    by_cases hc : c = ch
    · subst hc
      have hmem : c ∈ chs ++ [c] := List.mem_append_right _ List.mem_cons_self
      by_cases hw : W c ∧ s'.item.does c
      · rw [if_pos hw]
        have hw' := (hdoes c).1 hw.2
        by_cases hp : p = place c
        · rw [if_pos ⟨hmem, hw.1, hw', hp⟩, Values.store, if_pos ⟨rfl, hp⟩, hrgb]
        · rw [if_neg fun hall => hp hall.2.2.2, Values.store, if_neg fun hall => hp hall.2, hval]
      · rw [if_neg hw, if_neg fun hall => hw ⟨hall.2.1, (hdoes c).2 hall.2.2.1⟩, hval]
    · have hmem : c ∈ chs ++ [ch] ↔ c ∈ chs := by
        rw [List.mem_append, List.mem_singleton]
        exact or_iff_left hc
      have hsame : (if W ch ∧ s'.item.does ch then s'.values.store ch (place ch) (s'.item.rgb.get ch) else s'.values) c p = s'.values c p := by
        split
        · rw [Values.store, if_neg fun hall => hc hall.1]
        · rfl
      rw [hsame, h.values]
      simp only [hmem]
  · rw [hstep.rgb]
    by_cases hc : c = ch
    · subst hc
      have hmem : c ∈ chs ++ [c] := List.mem_append_right _ List.mem_cons_self
      by_cases hw : W c ∧ ¬s'.item.does c
      · rw [if_pos hw, if_pos ⟨hmem, hw.1, fun hd => hw.2 ((hdoes c).2 hd)⟩, Rgb.get_set, if_pos rfl, hval]
      · rw [if_neg hw, if_neg fun hall => hw ⟨hall.2.1, fun hd => hall.2.2 ((hdoes c).1 hd)⟩, hrgb]
    · have hmem : c ∈ chs ++ [ch] ↔ c ∈ chs := by
        rw [List.mem_append, List.mem_singleton]
        exact or_iff_left hc
      have hsame : (if W ch ∧ ¬s'.item.does ch then s'.item.rgb.set ch (s'.values ch (place ch)) else s'.item.rgb).get c = s'.item.rgb.get c := by
        split
        · rw [Rgb.get_set, if_neg hc]
        · rfl
      rw [hsame, h.rgb]
      simp only [hmem]
  · rw [hstep.ok, h.ok, List.all_append, List.all_cons, List.all_nil, Bool.and_true, Bool.and_assoc]

/-- The passes over all three channels. -/
theorem passed_all {f : Pass → Channel → Pass}
    (hf : ∀ s ch, s.item.pixel = it.pixel → s.item.flags = it.flags → ChannelStep place W good ch s (f s ch))
    (hs : s.item.pixel = it.pixel) (hflags : s.item.flags = it.flags) : Passed place W good Channel.all s (Channel.all.foldl f s) := by
  have hred := (Passed.refl s).snoc List.not_mem_nil (hf s .red hs hflags)
  have hgreen := hred.snoc (by decide) (hf _ .green (hred.pixel.trans hs) (hred.flags.trans hflags))
  exact hgreen.snoc (by decide) (hf _ .blue (hgreen.pixel.trans hs) (hgreen.flags.trans hflags))

end Passes

theorem place_direct (hm : m.direct = true) (ch : Channel) (i : ℕ) : m.place ch i = .own i := by
  unfold Colormap.place
  rw [if_pos hm]

theorem index_direct (hm : m.direct = true) (it : ColorItem) (ch : Channel) : index m it ch = m.visual.part ch it.pixel := by
  unfold index
  rw [if_pos hm]

theorem index_pseudo (hm : ¬m.direct = true) (it : ColorItem) (ch : Channel) : index m it ch = it.pixel.toNat := by
  unfold index
  rw [if_neg hm]

theorem writable_direct (hm : m.direct = true) (it : ColorItem) (ch : Channel) :
    Writable m it ch ↔ it.pixel &&& m.visual.rgbbad = 0 ∧ m.visual.part ch it.pixel < m.visual.num ch ∧
      m.refcnt ch (m.visual.part ch it.pixel) = AllocPrivate := by
  unfold Writable
  rw [if_pos hm, index_direct hm]

theorem writable_pseudo (hm : ¬m.direct = true) (it : ColorItem) (ch : Channel) :
    Writable m it ch ↔ it.pixel.toNat < m.visual.ColormapEntries ∧ m.refcnt .red it.pixel.toNat = AllocPrivate := by
  unfold Writable
  rw [if_neg hm, index_pseudo hm]

/-- In a DirectColor map an item stays all right where its cells are writable. -/
theorem directChannel_step (hm : m.direct = true) (hbad : it.pixel &&& m.visual.rgbbad = 0) (hs : s.item.pixel = it.pixel) :
    ChannelStep (fun ch => m.place ch (index m it ch)) (Writable m it) (fun ch => decide (Writable m it ch)) ch s
      (directChannel m s ch) := by
  have hplace : m.place ch (index m it ch) = .own (m.visual.part ch s.item.pixel) := by
    rw [place_direct hm, index_direct hm, hs]
  have hwrite := writable_direct hm it ch
  rw [← hs] at hwrite hbad
  unfold directChannel
  dsimp only
  split
  · rename_i hnum
    have hno : ¬Writable m it ch := fun hw => absurd (hwrite.1 hw).2.1 (by omega)
    refine ⟨rfl, rfl, ?_, ?_, ?_⟩
    · rw [if_neg fun h => hno h.1]
    · rw [if_neg fun h => hno h.1]
    · rw [decide_eq_false hno, Bool.and_false]
  split
  · rename_i _ href
    have hno : ¬Writable m it ch := fun hw => href (hwrite.1 hw).2.2
    refine ⟨rfl, rfl, ?_, ?_, ?_⟩
    · rw [if_neg fun h => hno h.1]
    · rw [if_neg fun h => hno h.1]
    · rw [decide_eq_false hno, Bool.and_false]
  · rename_i hnum href
    have hyes : Writable m it ch := hwrite.2 ⟨hbad, by omega, not_not.1 href⟩
    split
    · rename_i hdoes
      refine ⟨rfl, rfl, ?_, ?_, ?_⟩
      · rw [if_pos ⟨hyes, hdoes⟩, hplace]
      · rw [if_neg fun h => h.2 hdoes]
      · rw [decide_eq_true hyes, Bool.and_true]
    · rename_i hdoes
      refine ⟨rfl, rfl, ?_, ?_, ?_⟩
      · rw [if_neg fun h => hdoes h.2]
      · rw [if_pos ⟨hyes, hdoes⟩, hplace]
      · rw [decide_eq_true hyes, Bool.and_true]

/-- The item changes a colour of this channel that is counted as shared. -/
def LoudIn (m : Colormap) (it : ColorItem) (ch : Channel) : Prop := it.does ch ∧ ∃ p ∈ m.pointer (index m it ch), 1 < m.sharedRefcnt ch (p ch)

instance (it : ColorItem) (ch : Channel) : Decidable (LoudIn m it ch) := by
  unfold LoudIn
  infer_instance

/-- In the other maps it stays all right while nobody shares what changes. -/
theorem pseudoChannel_step (hm : ¬m.direct = true) (hok : Accepted m it) (hs : s.item.pixel = it.pixel) (hflags : s.item.flags = it.flags) :
    ChannelStep (fun ch => m.place ch (index m it ch)) (Writable m it) (fun ch => decide ¬LoudIn m it ch) ch s (pseudoChannel m s ch) := by
  have hyes : Writable m it ch := hok ch ch.mem_all
  have hindex : index m it ch = s.item.pixel.toNat := by rw [index_pseudo hm, hs]
  have hdo : s.item.does ch ↔ it.does ch := does_congr hflags
  have hloud : LoudIn m it ch ↔ s.item.does ch ∧ ∃ p ∈ m.pointer s.item.pixel.toNat, 1 < m.sharedRefcnt ch (p ch) := by
    unfold LoudIn
    rw [hindex, hdo]
  unfold pseudoChannel
  dsimp only
  have hshared : ∀ p, m.pointer s.item.pixel.toNat = some p → m.place ch (index m it ch) = .shared (p ch) := by
    intro p hp
    unfold Colormap.place
    rw [if_neg hm, hindex, hp]
  have hown : m.pointer s.item.pixel.toNat = none → m.place ch (index m it ch) = .own s.item.pixel.toNat := by
    intro hp
    unfold Colormap.place
    rw [if_neg hm, hindex, hp]
  split
  · rename_i hdoes
    cases hpointer : m.pointer s.item.pixel.toNat with
    | some p =>
      have hplace := hshared p hpointer
      rw [hpointer] at hloud
      refine ⟨rfl, rfl, ?_, ?_, ?_⟩
      · rw [if_pos ⟨hyes, hdoes⟩, hplace]
      · rw [if_neg fun h => h.2 hdoes]
      · dsimp only
        split
        · rename_i hcount
          have hyes : LoudIn m it ch := hloud.2 ⟨hdoes, p, rfl, hcount⟩
          rw [decide_eq_false (not_not_intro hyes), Bool.and_false]
        · rename_i hcount
          have hno : ¬LoudIn m it ch := by
            rw [hloud]
            rintro ⟨-, p', hp', hcount'⟩
            obtain rfl := Option.some.inj hp'
            exact hcount hcount'
          rw [decide_eq_true hno, Bool.and_true]
    | none =>
      have hplace := hown hpointer
      rw [hpointer] at hloud
      refine ⟨rfl, rfl, ?_, ?_, ?_⟩
      · rw [if_pos ⟨hyes, hdoes⟩, hplace]
      · rw [if_neg fun h => h.2 hdoes]
      · have hno : ¬LoudIn m it ch := by
          rw [hloud]
          rintro ⟨-, p', hp', -⟩
          exact Option.not_mem_none p' hp'
        rw [decide_eq_true hno, Bool.and_true]
  · rename_i hdoes
    have hno : ¬LoudIn m it ch := fun h => hdoes (hloud.1 h).1
    cases hpointer : m.pointer s.item.pixel.toNat with
    | some p =>
      have hplace := hshared p hpointer
      refine ⟨rfl, rfl, ?_, ?_, ?_⟩
      · rw [if_neg fun h => hdoes h.2]
      · rw [if_pos ⟨hyes, hdoes⟩, hplace]
      · rw [decide_eq_true hno, Bool.and_true]
    | none =>
      have hplace := hown hpointer
      refine ⟨rfl, rfl, ?_, ?_, ?_⟩
      · rw [if_neg fun h => hdoes h.2]
      · rw [if_pos ⟨hyes, hdoes⟩, hplace]
      · rw [decide_eq_true hno, Bool.and_true]

/-! ## The loop -/

variable {k : ℕ}

/-- One more item. -/
theorem valueAfter_succ (hk : k < defs.length) (ch : Channel) (p : Place) :
    valueAfter m resolveColor values defs (k + 1) ch p =
      if Writable m (item defs k) ch ∧ (item defs k).does ch ∧ p = m.place ch (index m (item defs k) ch) then
        (resolveColor (item defs k).rgb).get ch
      else valueAfter m resolveColor values defs k ch p := by
  have hitem : item defs k = defs[k] := List.getD_eq_getElem _ _ hk
  have htake : defs.take (k + 1) = defs.take k ++ [defs[k]] := (List.take_append_getElem hk).symm
  unfold valueAfter valueIn
  rw [htake, List.reverse_append, List.reverse_singleton, List.singleton_append, List.findSome?_cons, ← hitem]
  unfold stores
  by_cases h : (item defs k).does ch ∧ Writable m (item defs k) ch ∧ m.place ch (index m (item defs k) ch) = p
  · rw [if_pos h, if_pos ⟨h.2.1, h.1, h.2.2.symm⟩]
    rfl
  · rw [if_neg h, if_neg fun h' => h ⟨h'.2.1, h'.1, h'.2.2.symm⟩]

theorem valueAfter_zero : valueAfter m resolveColor values defs 0 = values := by
  unfold valueAfter
  rfl

theorem acceptedIn_succ (k : ℕ) :
    acceptedIn m defs (k + 1) = acceptedIn m defs k ++ if Accepted m (item defs k) then [k] else [] := by
  unfold acceptedIn
  rw [List.range_succ, List.filter_append, List.filter_singleton]
  congr 1
  by_cases h : Accepted m (item defs k)
  · rw [if_pos h, decide_eq_true h]
    rfl
  · rw [if_neg h, decide_eq_false h]
    rfl

theorem acceptedIn_length_le (k : ℕ) : (acceptedIn m defs k).length ≤ k := by
  have hle := List.length_filter_le (fun j => decide (Accepted m (item defs j))) (List.range k)
  rwa [List.length_range] at hle

/-- The accepted items fill the front of the array exactly when none was rejected. -/
theorem acceptedIn_length_eq (k : ℕ) : (acceptedIn m defs k).length = k ↔ NoneRejected m defs k := by
  induction k with
  | zero => exact iff_of_true rfl fun j hj => absurd hj (Nat.not_lt_zero j)
  | succ k ih =>
    have hle : (acceptedIn m defs k).length ≤ k := acceptedIn_length_le k
    rw [acceptedIn_succ, List.length_append]
    constructor
    · intro h j hj
      by_cases hacc : Accepted m (item defs k)
      · rw [if_pos hacc, List.length_singleton] at h
        rcases Nat.lt_succ_iff_lt_or_eq.1 hj with hlt | rfl
        · exact ih.1 (by omega) j hlt
        · exact hacc
      · rw [if_neg hacc, List.length_nil] at h
        omega
    · intro h
      rw [if_pos (h k (by omega)), List.length_singleton, ih.2 fun j hj => h j (by omega)]

/-- The loop before the item `k`. -/
structure Stands (m : Colormap) (resolveColor : Rgb → Rgb) (before : Values) (defs : List ColorItem) (k : ℕ) (r : Run) : Prop where
  values : r.values = valueAfter m resolveColor before defs k
  count : r.idef = (acceptedIn m defs k).length
  front : r.defs.take r.idef = (acceptedIn m defs k).map (record m resolveColor before defs)
  ahead : ∀ j, k ≤ j → item r.defs j = item defs j
  length : r.defs.length = defs.length
  calls : r.calls = (List.range k).flatMap fun j => (told m defs j).map fun t => [toldRecord m resolveColor before defs j t]

theorem stands_start (m : Colormap) (resolveColor : Rgb → Rgb) (values : Values) (defs : List ColorItem) (errorValue : UInt32) :
    Stands m resolveColor values defs 0 ⟨values, defs, 0, [], .success, errorValue⟩ :=
  ⟨valueAfter_zero.symm, rfl, rfl, fun _ _ => rfl, rfl, rfl⟩

variable {l : List ColorItem}

theorem item_set {i j : ℕ} (h : i ≠ j) (x : ColorItem) : item (l.set i x) j = item l j := by
  unfold item
  rw [List.getD_eq_getElem?_getD, List.getD_eq_getElem?_getD, List.getElem?_set_ne h]

/-- An accepted item in its new place. -/
theorem take_accept {idef n : ℕ} (hle : idef ≤ n) (hn : n < l.length) :
    (accept l idef n).take (idef + 1) = l.take idef ++ [item l n] := by
  have hitem : item l n = l[n] := List.getD_eq_getElem _ _ hn
  unfold accept
  split
  · rename_i hne
    rw [List.take_add_one, List.take_set_of_le (Nat.le_refl _), List.getElem?_set_self (by omega)]
    rfl
  · rename_i heq
    obtain rfl : idef = n := not_not.1 heq
    rw [hitem, List.take_append_getElem hn]

variable {r : Run}

/-- What the passes over an item leave. -/
theorem passed_item {good : Channel → Bool} (hk : k < defs.length) (hr : Stands m resolveColor values defs k r)
    (h : Passed (fun ch => m.place ch (index m (item defs k) ch)) (Writable m (item defs k)) good Channel.all
      ⟨r.values, resolved resolveColor (item defs k), r.errVal, true⟩ s) :
    s.values = valueAfter m resolveColor values defs (k + 1) ∧
      (Accepted m (item defs k) → s.item = full m resolveColor values defs k) := by
  have hdoes : ∀ ch, (resolved resolveColor (item defs k)).does ch ↔ (item defs k).does ch := fun ch => does_congr rfl
  constructor
  · funext ch p
    have hval := h.values ch p
    rw [hval, valueAfter_succ hk, hr.values]
    simp only [Channel.mem_all, true_and]
    rfl
  · intro hacc
    have hpixel : s.item.pixel = (full m resolveColor values defs k).pixel := h.pixel
    have hflags : s.item.flags = (full m resolveColor values defs k).flags := h.flags
    have hrgb : s.item.rgb = (full m resolveColor values defs k).rgb := by
      apply Rgb.ext_get
      intro ch
      have hval := h.rgb ch
      have hw : Writable m (item defs k) ch := hacc ch ch.mem_all
      have hfull : (full m resolveColor values defs k).rgb.get ch =
          valueAfter m resolveColor values defs (k + 1) ch (m.place ch (index m (item defs k) ch)) := Rgb.get_of _ ch
      rw [hval, hfull, valueAfter_succ hk, hr.values]
      by_cases hd : (item defs k).does ch
      · rw [if_neg fun hall => hall.2.2 ((hdoes ch).2 hd), if_pos ⟨hw, hd, rfl⟩]
        rfl
      · rw [if_pos ⟨ch.mem_all, hw, fun hd' => hd ((hdoes ch).1 hd')⟩, if_neg fun hall => hd hall.2.1]
    generalize full m resolveColor values defs k = f at hpixel hflags hrgb
    obtain ⟨values', ⟨pixel', rgb', flags'⟩, err, ok⟩ := s
    dsimp only at hpixel hflags hrgb ⊢
    rw [hpixel, hflags, hrgb]

/-- A pass over a rejected item, of which nothing is copied. -/
theorem Stands.reject {r' : Run} (h : Stands m resolveColor values defs k r) (hacc : ¬Accepted m (item defs k))
    (hvalues : r'.values = valueAfter m resolveColor values defs (k + 1)) (hidef : r'.idef = r.idef)
    (hdefs : ∃ x, r'.defs = r.defs.set k x) (hcalls : r'.calls = r.calls) : Stands m resolveColor values defs (k + 1) r' := by
  obtain ⟨x, hx⟩ := hdefs
  have hlist : acceptedIn m defs (k + 1) = acceptedIn m defs k := by rw [acceptedIn_succ, if_neg hacc, List.append_nil]
  have htold : told m defs k = [] := if_neg fun hcond => hacc hcond.2.1
  have hle : r.idef ≤ k := h.count ▸ acceptedIn_length_le k
  refine ⟨hvalues, ?_, ?_, fun j hj => ?_, ?_, ?_⟩
  · rw [hidef, hlist, h.count]
  · rw [hidef, hx, List.take_set_of_le hle, hlist, h.front]
  · rw [hx, item_set (by omega), h.ahead j (by omega)]
  · rw [hx, List.length_set, h.length]
  · rw [hcalls, h.calls, List.range_succ, List.flatMap_append, List.flatMap_singleton, htold, List.map_nil, List.append_nil]

/-- A pass over an accepted item, of which the record is put behind those before. -/
theorem Stands.accept {r' : Run} (h : Stands m resolveColor values defs k r)
    (hacc : Accepted m (item defs k)) (hvalues : r'.values = valueAfter m resolveColor values defs (k + 1)) (hidef : r'.idef = r.idef + 1)
    (hfront : r'.defs.take (r.idef + 1) = r.defs.take r.idef ++ [record m resolveColor values defs k])
    (hahead : ∀ j, k < j → item r'.defs j = item r.defs j) (hlength : r'.defs.length = r.defs.length)
    (hcalls : r'.calls = r.calls ++ (told m defs k).map fun t => [toldRecord m resolveColor values defs k t]) :
    Stands m resolveColor values defs (k + 1) r' := by
  have hlist : acceptedIn m defs (k + 1) = acceptedIn m defs k ++ [k] := by rw [acceptedIn_succ, if_pos hacc]
  refine ⟨hvalues, ?_, ?_, fun j hj => ?_, ?_, ?_⟩
  · rw [hidef, hlist, List.length_append, List.length_singleton, h.count]
  · rw [hidef, hfront, hlist, List.map_append, h.front, List.map_singleton]
  · rw [hahead j (by omega), h.ahead j (by omega)]
  · rw [hlength, h.length]
  · rw [hcalls, h.calls, List.range_succ, List.flatMap_append, List.flatMap_singleton]

theorem item_set_self {i : ℕ} (h : i < l.length) (x : ColorItem) : item (l.set i x) i = x := by
  unfold item
  rw [List.getD_eq_getElem?_getD, List.getElem?_set_self h]
  rfl

theorem accept_length (l : List ColorItem) (idef n : ℕ) : (accept l idef n).length = l.length := by
  unfold StoreColors.accept
  split
  · exact List.length_set
  · rfl

theorem item_accept {idef n j : ℕ} (h : idef < j) : item (StoreColors.accept l idef n) j = item l j := by
  unfold StoreColors.accept
  split
  · exact item_set (by omega) _
  · rfl

/-- In a DirectColor map an item is copied when it is filled in. -/
theorem Stands.direct (hm : m.direct = true) (hk : k < defs.length) (h : Stands m resolveColor values defs k r) :
    Stands m resolveColor values defs (k + 1) (directStep m resolveColor r k) := by
  have hitem := h.ahead k (Nat.le_refl k)
  have hle : r.idef ≤ k := h.count ▸ acceptedIn_length_le k
  have hlen := h.length
  unfold directStep
  dsimp only
  rw [hitem]
  split
  · rename_i hbad
    have hno : ∀ ch, ¬Writable m (item defs k) ch := fun ch hw => hbad ((writable_direct hm _ ch).1 hw).1
    refine h.reject (fun hacc => hno .red (hacc .red (by decide))) ?_ rfl ⟨_, rfl⟩ rfl
    funext ch p
    rw [valueAfter_succ hk, if_neg fun hall => hno ch hall.1, h.values]
  · rename_i hbad
    have hgood : (item defs k).pixel &&& m.visual.rgbbad = 0 := not_not.1 hbad
    have hstart : (resolved resolveColor (item defs k)).pixel = (item defs k).pixel := rfl
    have hpass := passed_all (fun s ch hs _ => directChannel_step hm hgood hs)
      (s := ⟨r.values, resolved resolveColor (item defs k), r.errVal, true⟩) hstart rfl
    obtain ⟨hvalues, hfull⟩ := passed_item hk h hpass
    have hok := hpass.ok
    generalize Channel.all.foldl (directChannel m) ⟨r.values, resolved resolveColor (item defs k), r.errVal, true⟩ = s at hvalues hfull hok
    split
    · rename_i hgood
      rw [hgood] at hok
      have hacc : Accepted m (item defs k) := fun ch hch => of_decide_eq_true (List.all_eq_true.1 hok.symm ch hch)
      have htold : told m defs k = [] := if_neg fun hcond => hcond.1 hm
      apply h.accept hacc hvalues rfl
      · dsimp only
        have hn : k < (r.defs.set k s.item).length := by
          rw [List.length_set]
          omega
        rw [take_accept hle hn, List.take_set_of_le hle, item_set_self (by omega), hfull hacc]
        unfold record
        rw [if_pos (.inl hm)]
      · intro j hj
        rw [item_accept (by omega), item_set (by omega)]
      · dsimp only
        rw [accept_length, List.length_set]
      · dsimp only
        rw [htold, List.map_nil, List.append_nil]
    · rename_i hgood
      rw [Bool.not_eq_true] at hgood
      rw [hgood] at hok
      have hacc : ¬Accepted m (item defs k) := by
        intro hacc
        have hall : Channel.all.all (fun ch => decide (Writable m (item defs k) ch)) = true :=
          List.all_eq_true.2 fun ch hch => decide_eq_true (hacc ch hch)
        rw [hall] at hok
        exact absurd hok Bool.false_ne_true
      exact h.reject hacc hvalues rfl ⟨_, rfl⟩ rfl

theorem accepted_pseudo (hm : ¬m.direct = true) (it : ColorItem) :
    Accepted m it ↔ it.pixel.toNat < m.visual.ColormapEntries ∧ m.refcnt .red it.pixel.toNat = AllocPrivate := by
  constructor
  · exact fun h => (writable_pseudo hm it .red).1 (h .red (by decide))
  · exact fun h ch _ => (writable_pseudo hm it ch).2 h

/-- The records for the cells that share what the item changes. -/
theorem changed_isSome (m : Colormap) (values : Values) (it : ColorItem) (t : ℕ) :
    (changed m values it it.pixel.toNat t).isSome = decide (Shares m it t) := by
  unfold changed
  rcases hq : m.pointer t with _ | q
  · rw [decide_eq_false]
    · rfl
    · rintro ⟨-, q, hq', -⟩
      rw [hq] at hq'
      exact nomatch hq'
  rcases hp : m.pointer it.pixel.toNat with _ | p
  · rw [decide_eq_false]
    · rfl
    · rintro ⟨-, -, -, p, hp', -⟩
      rw [hp] at hp'
      exact nomatch hp'
  dsimp only
  split
  · rename_i heq
    rw [decide_eq_false fun h => h.1 heq]
    rfl
  · rename_i hne
    have hiff : Shares m it t ↔
        (it.does .red ∧ q .red = p .red) ∨ (it.does .green ∧ q .green = p .green) ∨ (it.does .blue ∧ q .blue = p .blue) := by
      unfold Shares
      simp only [hq, hp, Channel.all, Option.mem_some_iff, exists_eq_left', List.mem_cons, List.not_mem_nil, or_false, exists_eq_or_imp,
        exists_eq_left, hne, ne_eq, not_false_eq_true, true_and]
    simp only [hiff]
    by_cases hr : it.does .red ∧ q .red = p .red <;> by_cases hg : it.does .green ∧ q .green = p .green <;>
      by_cases hb : it.does .blue ∧ q .blue = p .blue <;> simp [hr, hg, hb]

theorem filterMap_eq_map_filter {α β : Type} {f : α → Option β} {P : α → Bool} (h : ∀ a, (f a).isSome = P a) (d : β) (l : List α) :
    l.filterMap f = (l.filter P).map fun a => (f a).getD d := by
  induction l with
  | nil => rfl
  | cons a l ih =>
    have ha := h a
    rw [List.filterMap_cons, List.filter_cons, ← ha, ih]
    rcases hf : f a with _ | b
    · rfl
    · have hsome : (some b).isSome = true := rfl
      rw [if_pos hsome, List.map_cons, hf]
      rfl

theorem loud_iff (m : Colormap) (it : ColorItem) : Loud m it ↔ ∃ ch ∈ Channel.all, LoudIn m it ch := Iff.rfl

/-- The calls for the cells that share. -/
theorem told_map {ok : Bool} (hm : ¬m.direct = true) (hacc : Accepted m (item defs k))
    (hok : ok = (true && Channel.all.all fun ch => decide ¬LoudIn m (item defs k) ch)) :
    (if ok then []
      else (List.range m.visual.ColormapEntries).filterMap fun t =>
        changed m (valueAfter m resolveColor values defs (k + 1)) (full m resolveColor values defs k)
          (full m resolveColor values defs k).pixel.toNat t).map (fun defChg => [defChg]) =
      (told m defs k).map fun t => [toldRecord m resolveColor values defs k t] := by
  have hloud : ok = true ↔ ¬Loud m (item defs k) := by
    rw [hok, Bool.true_and, List.all_eq_true, loud_iff]
    simp only [decide_eq_true_eq, not_exists, not_and]
  unfold told
  by_cases hl : Loud m (item defs k)
  · rw [if_neg fun h => hloud.1 h hl, if_pos ⟨hm, hacc, hl⟩]
    have hfilter := filterMap_eq_map_filter
      (fun t => changed_isSome m (valueAfter m resolveColor values defs (k + 1)) (item defs k) t) ⟨0, ⟨0, 0, 0⟩, 0⟩
      (List.range m.visual.ColormapEntries)
    have hfull : (fun t => changed m (valueAfter m resolveColor values defs (k + 1)) (full m resolveColor values defs k)
        (full m resolveColor values defs k).pixel.toNat t) =
          fun t => changed m (valueAfter m resolveColor values defs (k + 1)) (item defs k) (item defs k).pixel.toNat t := rfl
    rw [hfull, hfilter, List.map_map]
    rfl
  · rw [if_pos (hloud.2 hl), if_neg fun h => hl h.2.2]
    rfl

/-- In the other maps an item is copied before it is filled in. -/
theorem Stands.pseudo (hm : ¬m.direct = true) (hk : k < defs.length) (h : Stands m resolveColor values defs k r) :
    Stands m resolveColor values defs (k + 1) (pseudoStep m resolveColor r k) := by
  have hitem := h.ahead k (Nat.le_refl k)
  have hle : r.idef ≤ k := h.count ▸ acceptedIn_length_le k
  have hlen := h.length
  have hpseudo := accepted_pseudo hm (item defs k)
  have hkeep : ¬Accepted m (item defs k) → valueAfter m resolveColor values defs (k + 1) = r.values := by
    intro hacc
    funext ch p
    have hno : ¬Writable m (item defs k) ch := fun hw => hacc (hpseudo.2 ((writable_pseudo hm _ ch).1 hw))
    rw [valueAfter_succ hk, if_neg fun hall => hno hall.1, h.values]
  have hsame : r.defs = r.defs.set k (item r.defs k) := by
    have hget : item r.defs k = r.defs[k] := List.getD_eq_getElem _ _ (by omega)
    rw [hget, List.set_getElem_self]
  unfold pseudoStep
  dsimp only
  rw [hitem]
  split
  · rename_i hbig
    have hacc : ¬Accepted m (item defs k) := fun hacc => absurd (hpseudo.1 hacc).1 (by omega)
    exact h.reject hacc (hkeep hacc).symm rfl ⟨_, hsame⟩ rfl
  split
  · rename_i href
    have hacc : ¬Accepted m (item defs k) := fun hacc => href (hpseudo.1 hacc).2
    exact h.reject hacc (hkeep hacc).symm rfl ⟨_, hsame⟩ rfl
  · rename_i hbig href
    have hacc : Accepted m (item defs k) := hpseudo.2 ⟨by omega, not_not.1 href⟩
    have hraw : item (StoreColors.accept r.defs r.idef k) k = item defs k := by
      unfold StoreColors.accept
      split
      · rw [item_set (by omega), hitem]
      · exact hitem
    rw [hraw]
    have hstart : (resolved resolveColor (item defs k)).pixel = (item defs k).pixel := rfl
    have hpass := passed_all (fun s ch hs hf => pseudoChannel_step hm hacc hs hf)
      (s := ⟨r.values, resolved resolveColor (item defs k), r.errVal, true⟩) hstart rfl
    obtain ⟨hvalues, hfull⟩ := passed_item hk h hpass
    have hok := hpass.ok
    generalize Channel.all.foldl (pseudoChannel m) ⟨r.values, resolved resolveColor (item defs k), r.errVal, true⟩ = s at hvalues hfull hok
    have hitem' := hfull hacc
    have hcount : r.idef = k ↔ NoneRejected m defs k := by
      rw [h.count]
      exact acceptedIn_length_eq k
    apply h.accept hacc hvalues rfl
    · dsimp only
      unfold record
      by_cases hfirst : r.idef = k
      · -- The record is in its place already, and is filled in there.
        have hsame : StoreColors.accept r.defs r.idef k = r.defs := if_neg (not_not_intro hfirst)
        have hlt : k < (r.defs.set k s.item).length := by
          rw [List.length_set]
          omega
        rw [if_pos (.inr (hcount.1 hfirst)), hsame, hfirst, ← List.take_append_getElem hlt, List.take_set_of_le (Nat.le_refl k),
          List.getElem_set_self, hitem']
      · -- What is filled in is no more the copy.
        rw [if_neg fun hor => hor.elim hm fun hnone => hfirst (hcount.2 hnone), List.take_set_of_le (by omega),
          take_accept hle (by omega), hitem]
    · intro j hj
      rw [item_set (by omega), item_accept (by omega)]
    · dsimp only
      rw [List.length_set, accept_length]
    · dsimp only
      rw [hitem', hvalues, told_map hm hacc hok]

/-- **The loop** over the first items. -/
theorem stands_loop (m : Colormap) (resolveColor : Rgb → Rgb) (values : Values) (defs : List ColorItem) (errorValue : UInt32)
    (hk : k ≤ defs.length) : Stands m resolveColor values defs k (loop m resolveColor values defs errorValue k) := by
  induction k with
  | zero => exact stands_start m resolveColor values defs errorValue
  | succ k ih =>
    have hbefore := ih (by omega)
    have hnext : loop m resolveColor values defs errorValue (k + 1) =
        step m resolveColor (loop m resolveColor values defs errorValue k) k := by
      unfold loop
      rw [List.range_succ, List.foldl_append]
      rfl
    rw [hnext]
    unfold step
    split
    · rename_i hm
      exact hbefore.direct hm hk
    · rename_i hm
      exact hbefore.pseudo hm hk

theorem flatten_singletons {α β : Type} (f : α → List β) (l : List α) :
    (l.flatMap fun a => (f a).map fun b => [b]).flatten = l.flatMap f := by
  have hone : ∀ bs : List β, (bs.map fun b => [b]).flatten = bs := by
    intro bs
    induction bs with
    | nil => rfl
    | cons b bs ih => rw [List.map_cons, List.flatten_cons, ih, List.singleton_append]
  induction l with
  | nil => rfl
  | cons a l ih => rw [List.flatMap_cons, List.flatten_append, ih, hone, List.flatMap_cons]

/-- What the hook has received, in all its calls. -/
def received (r : Run) : List ColorItem := r.calls.flatten

/-- **What `StoreColors` leaves**: the values that the items store, and the records for the cells that share and for the accepted items. -/
theorem storeColors_closed (hdynamic : m.dynamic = true) (resolveColor : Rgb → Rgb) (values : Values) (defs : List ColorItem)
    (errorValue : UInt32) :
    (storeColors m resolveColor values defs errorValue).values = valueAfter m resolveColor values defs defs.length ∧
      received (storeColors m resolveColor values defs errorValue) = (tellings m resolveColor values defs).map Prod.snd := by
  have hloop := stands_loop m resolveColor values defs errorValue (Nat.le_refl defs.length)
  have htold : (loop m resolveColor values defs errorValue defs.length).calls.flatten =
      (List.range defs.length).flatMap fun k => (told m defs k).map (toldRecord m resolveColor values defs k) := by
    have hone := flatten_singletons (fun k => (told m defs k).map (toldRecord m resolveColor values defs k)) (List.range defs.length)
    simp only [List.map_map] at hone
    rw [hloop.calls]
    exact hone
  have htellings : (tellings m resolveColor values defs).map Prod.snd =
      ((List.range defs.length).flatMap fun k => (told m defs k).map (toldRecord m resolveColor values defs k)) ++
        (acceptedIn m defs defs.length).map (record m resolveColor values defs) := by
    unfold tellings
    rw [List.map_append, List.map_flatMap]
    simp only [List.map_map]
    rfl
  unfold storeColors
  rw [if_neg fun h => by rw [hdynamic] at h; exact absurd h.1 (by decide)]
  dsimp only
  split
  · refine ⟨hloop.values, ?_⟩
    unfold received
    rw [htellings, List.flatten_append, htold, hloop.front]
    simp only [List.flatten_cons, List.flatten_nil, List.append_nil]
  · rename_i hzero
    refine ⟨hloop.values, ?_⟩
    have hnil : acceptedIn m defs defs.length = [] := by
      have hcount := hloop.count
      rw [not_not.1 hzero] at hcount
      exact List.length_eq_zero_iff.1 hcount.symm
    unfold received
    rw [htellings, htold, hnil, List.map_nil, List.append_nil]

/-! ## Cells and what is known of them -/

/-- A cell with its channels: all three of them, or one in a DirectColor map. -/
structure Cell where
  channels : List Channel
  index : ℕ

def IsCell (m : Colormap) (c : Cell) : Prop :=
  if m.direct then ∃ ch, c.channels = [ch] ∧ c.index < m.visual.num ch
  else c.channels = Channel.all ∧ c.index < m.visual.ColormapEntries

/-- The pixel of a record names the cell. -/
def Names (m : Colormap) (r : ColorItem) (c : Cell) : Prop := ∀ ch ∈ c.channels, index m r ch = c.index

instance (r : ColorItem) (c : Cell) : Decidable (Names m r c) := by
  unfold Names
  infer_instance

section Statement

variable (m : Colormap) (resolveColor : Rgb → Rgb) (values : Values) (defs : List ColorItem)

/-- The items that the records are for, in the order of the records. -/
def labels : List ℕ := ((List.range defs.length).flatMap fun k => (told m defs k).map fun _ => k) ++ acceptedIn m defs defs.length

/-- The last item that tells the hook about a cell: first come the cells that share, then the accepted items. -/
def lastTold (c : Cell) : Option ℕ :=
  (((List.range defs.length).filter fun k => c.index ∈ told m defs k) ++
    (acceptedIn m defs defs.length).filter fun k => Names m (item defs k) c).getLast?

/-- A record has the full colour that its cell has after the item that it is for. -/
def Carries (k : ℕ) (r : ColorItem) : Prop :=
  ∀ ch, r.rgb.get ch = valueAfter m resolveColor values defs (k + 1) ch (m.place ch (index m r ch))

/-- **What the screen must see**: full colours in every record, for each cell that has changed its colour at last, and nothing of the cells
that only rejected items name. -/
structure Reported (out : Run) : Prop where
  records : List.Forall₂ (Carries m resolveColor values defs) (labels m defs) (received out)
  last : ∀ c, IsCell m c → (∃ ch ∈ c.channels, out.values ch (m.place ch c.index) ≠ values ch (m.place ch c.index)) →
    ∃ r, ((received out).filter fun r => Names m r c).getLast? = some r ∧
      ∀ ch ∈ c.channels, r.rgb.get ch = out.values ch (m.place ch c.index)
  rejected : ∀ c, IsCell m c → (∃ it ∈ defs, Names m it c) → (∀ it ∈ defs, Names m it c → ¬Accepted m it) →
    (∀ r ∈ received out, ¬Names m r c) ∧ ∀ ch ∈ c.channels, out.values ch (m.place ch c.index) = values ch (m.place ch c.index)

/-- **When it does**: in other maps than DirectColor ones, an item that is accepted behind a rejected one has the colours already that it
leaves in its cell; and a cell that changes has its last colour after the last item that tells the hook about it. -/
structure Fits : Prop where
  copies : ¬m.direct → ∀ k ∈ acceptedIn m defs defs.length, ¬NoneRejected m defs k → ∀ ch,
    (item defs k).rgb.get ch = valueAfter m resolveColor values defs (k + 1) ch (m.place ch (index m (item defs k) ch))
  settled : ∀ c, IsCell m c →
    (∃ ch ∈ c.channels, valueAfter m resolveColor values defs defs.length ch (m.place ch c.index) ≠ values ch (m.place ch c.index)) →
    ∃ k, lastTold m defs c = some k ∧ ∀ ch ∈ c.channels,
      valueAfter m resolveColor values defs (k + 1) ch (m.place ch c.index) =
        valueAfter m resolveColor values defs defs.length ch (m.place ch c.index)

end Statement

/-! ## The records -/

variable {t : ℕ}

section

variable (h : t ∈ told m defs k)
include h

theorem mem_told :
    ¬m.direct = true ∧ t < m.visual.ColormapEntries ∧ Shares m (item defs k) t := by
  unfold told at h
  split at h
  · rename_i hcond
    rw [List.mem_filter, List.mem_range, decide_eq_true_eq] at h
    exact ⟨hcond.1, h.1, h.2⟩
  · exact absurd h List.not_mem_nil

/-- The record of a cell that shares is the cell with its full colour. -/
theorem toldRecord_spec :
    (toldRecord m resolveColor values defs k t).pixel.toNat = t ∧
      ∀ ch, (toldRecord m resolveColor values defs k t).rgb.get ch =
        valueAfter m resolveColor values defs (k + 1) ch (m.place ch t) := by
  obtain ⟨hm, hlt, hshares⟩ := mem_told h
  have hshort := m.visual.short
  have hsome := changed_isSome m (valueAfter m resolveColor values defs (k + 1)) (item defs k) t
  rw [decide_eq_true hshares] at hsome
  obtain ⟨r, hr⟩ := Option.isSome_iff_exists.1 hsome
  have hrec : toldRecord m resolveColor values defs k t = r := by
    unfold toldRecord
    rw [hr]
    rfl
  rw [hrec]
  unfold changed at hr
  split at hr
  · rename_i q p hq hp
    split at hr
    · exact nomatch hr
    · rw [Option.ite_none_right_eq_some] at hr
      obtain rfl := Option.some.inj hr.2
      refine ⟨?_, fun ch => ?_⟩
      · exact UInt32.toNat_ofNat_of_lt' (by change t < 2 ^ 32; omega)
      · have hplace : m.place ch t = .shared (q ch) := by
          unfold Colormap.place
          rw [if_neg hm, hq]
        rw [Rgb.get_of, hplace]
  · exact nomatch hr

theorem toldRecord_index (ch : Channel) :
    index m (toldRecord m resolveColor values defs k t) ch = t := by
  rw [index_pseudo (mem_told h).1]
  exact (toldRecord_spec h).1

theorem toldRecord_carries :
    Carries m resolveColor values defs k (toldRecord m resolveColor values defs k t) := by
  intro ch
  rw [toldRecord_index h]
  exact (toldRecord_spec h).2 ch

end

theorem index_congr {a b : ColorItem} (h : a.pixel = b.pixel) (ch : Channel) : index m a ch = index m b ch := by
  unfold index
  rw [h]

theorem record_pixel (k : ℕ) : (record m resolveColor values defs k).pixel = (item defs k).pixel := by
  unfold record
  split <;> rfl

/-- The record of an accepted item has the full colour if it was filled in, or had it before. -/
theorem record_carries (k : ℕ) :
    Carries m resolveColor values defs k (record m resolveColor values defs k) ↔
      (¬m.direct → ¬NoneRejected m defs k → ∀ ch,
        (item defs k).rgb.get ch = valueAfter m resolveColor values defs (k + 1) ch (m.place ch (index m (item defs k) ch))) := by
  have hindex : ∀ ch, index m (record m resolveColor values defs k) ch = index m (item defs k) ch :=
    fun ch => index_congr (record_pixel k) ch
  unfold Carries
  unfold record
  split
  · rename_i hfilled
    refine iff_of_true (fun ch => ?_) fun hm hno => absurd hfilled (not_or.2 ⟨hm, hno⟩)
    exact Rgb.get_of _ ch
  · rename_i hraw
    obtain ⟨hm, hno⟩ := not_or.1 hraw
    constructor
    · exact fun h _ _ => h
    · exact fun h => h hm hno

theorem labels_eq : labels m defs = (tellings m resolveColor values defs).map Prod.fst := by
  unfold labels tellings
  rw [List.map_append, List.map_flatMap]
  simp only [List.map_map]
  congr 1
  exact (List.map_id _).symm

theorem mem_tellings {r : ColorItem} :
    (k, r) ∈ tellings m resolveColor values defs ↔
      (k < defs.length ∧ ∃ t ∈ told m defs k, toldRecord m resolveColor values defs k t = r) ∨
        (k ∈ acceptedIn m defs defs.length ∧ record m resolveColor values defs k = r) := by
  unfold tellings
  rw [List.mem_append, List.mem_flatMap, List.mem_map]
  constructor
  · rintro (⟨j, hj, hmem⟩ | ⟨j, hj, heq⟩)
    · obtain ⟨t, ht, heq⟩ := List.mem_map.1 hmem
      obtain ⟨rfl, rfl⟩ := Prod.mk.inj heq
      exact .inl ⟨List.mem_range.1 hj, t, ht, rfl⟩
    · obtain ⟨rfl, rfl⟩ := Prod.mk.inj heq
      exact .inr ⟨hj, rfl⟩
  · rintro (⟨hk, t, ht, rfl⟩ | ⟨hk, rfl⟩)
    · exact .inl ⟨k, List.mem_range.2 hk, List.mem_map.2 ⟨t, ht, rfl⟩⟩
    · exact .inr ⟨k, hk, rfl⟩

/-- **Full colours** in every record: those of the accepted items decide. -/
theorem records_iff :
    List.Forall₂ (Carries m resolveColor values defs) (labels m defs) ((tellings m resolveColor values defs).map Prod.snd) ↔
      (¬m.direct → ∀ k ∈ acceptedIn m defs defs.length, ¬NoneRejected m defs k → ∀ ch,
        (item defs k).rgb.get ch = valueAfter m resolveColor values defs (k + 1) ch (m.place ch (index m (item defs k) ch))) := by
  rw [labels_eq, List.forall₂_map_left_iff, List.forall₂_map_right_iff, List.forall₂_same]
  constructor
  · intro h hm k hk
    exact (record_carries k).1 (h (k, _) (mem_tellings.2 (.inr ⟨hk, rfl⟩))) hm
  · rintro h ⟨k, r⟩ hmem
    rcases mem_tellings.1 hmem with ⟨-, t, ht, rfl⟩ | ⟨hk, rfl⟩
    · exact toldRecord_carries ht
    · exact (record_carries k).2 fun hm => h hm k hk

/-! ## The last record of a cell -/

variable {c : Cell}

theorem flatMap_ite_eq_filter (P : ℕ → Prop) [DecidablePred P] (l : List ℕ) :
    (l.flatMap fun k => if P k then [k] else []) = l.filter fun k => P k := by
  induction l with
  | nil => rfl
  | cons k l ih =>
    rw [List.flatMap_cons, List.filter_cons, ih]
    by_cases h : P k
    · rw [if_pos h, if_pos (decide_eq_true h), List.singleton_append]
    · rw [if_neg h, if_neg (by rwa [decide_eq_true_eq]), List.nil_append]

theorem told_nodup (k : ℕ) : (told m defs k).Nodup := by
  unfold told
  split
  · exact List.nodup_range.filter _
  · exact List.nodup_nil

/-- A record for a cell that shares names this cell and no other. -/
theorem toldRecord_names (hc : IsCell m c) (h : t ∈ told m defs k) :
    Names m (toldRecord m resolveColor values defs k t) c ↔ t = c.index := by
  have hm := (mem_told h).1
  unfold IsCell at hc
  rw [if_neg hm] at hc
  unfold Names
  rw [hc.1]
  simp only [toldRecord_index h]
  exact ⟨fun hall => hall .red (Channel.mem_all .red), fun heq _ _ => heq⟩

theorem filter_told (hc : IsCell m c) (k : ℕ) :
    (((told m defs k).map fun t => (k, toldRecord m resolveColor values defs k t)).filter fun p => Names m p.2 c).map Prod.fst =
      if c.index ∈ told m defs k then [k] else [] := by
  have hfilter : (((told m defs k).map fun t => (k, toldRecord m resolveColor values defs k t)).filter fun p => Names m p.2 c) =
      ((told m defs k).filter fun t => t == c.index).map fun t => (k, toldRecord m resolveColor values defs k t) := by
    rw [List.filter_map]
    congr 1
    apply List.filter_congr
    intro t ht
    change decide (Names m (toldRecord m resolveColor values defs k t) c) = (t == c.index)
    rw [beq_eq_decide, decide_eq_decide]
    exact toldRecord_names hc ht
  rw [hfilter, List.filter_beq]
  split
  · rename_i hmem
    rw [List.count_eq_one_of_mem (told_nodup k) hmem]
    rfl
  · rename_i hmem
    rw [List.count_eq_zero_of_not_mem hmem]
    rfl

theorem names_congr {a b : ColorItem} (h : a.pixel = b.pixel) : Names m a c ↔ Names m b c := by
  unfold Names
  simp only [index_congr h]

/-- The items that tell the hook about a cell. -/
theorem tellings_names (hc : IsCell m c) (resolveColor : Rgb → Rgb) (values : Values) :
    ((tellings m resolveColor values defs).filter fun p => Names m p.2 c).map Prod.fst =
      ((List.range defs.length).filter fun k => c.index ∈ told m defs k) ++
        (acceptedIn m defs defs.length).filter fun k => Names m (item defs k) c := by
  unfold tellings
  rw [List.filter_append, List.map_append]
  congr 1
  · rw [List.filter_flatMap, List.map_flatMap, ← flatMap_ite_eq_filter]
    simp only [filter_told hc]
  · rw [List.filter_map, List.map_map]
    have hsame : ((fun p : ℕ × ColorItem => decide (Names m p.2 c)) ∘ fun k => (k, record m resolveColor values defs k)) =
        fun k => decide (Names m (item defs k) c) := by
      funext k
      exact decide_eq_decide.2 (names_congr (record_pixel k))
    rw [hsame]
    exact List.map_id _

theorem lastTold_eq (hc : IsCell m c) (resolveColor : Rgb → Rgb) (values : Values) :
    lastTold m defs c = ((tellings m resolveColor values defs).filter fun p => Names m p.2 c).getLast?.map Prod.fst := by
  unfold lastTold
  rw [← tellings_names hc resolveColor values, List.getLast?_map]

theorem lastReceived_eq (c : Cell) :
    (((tellings m resolveColor values defs).map Prod.snd).filter fun r => Names m r c).getLast? =
      ((tellings m resolveColor values defs).filter fun p => Names m p.2 c).getLast?.map Prod.snd := by
  rw [List.filter_map, List.getLast?_map]
  rfl

/-- A cell that only rejected items name is told about by none. -/
theorem rejected_untold (hc : IsCell m c) (hnamed : ∃ it ∈ defs, Names m it c) (hall : ∀ it ∈ defs, Names m it c → ¬Accepted m it)
    (resolveColor : Rgb → Rgb) (values : Values) :
    ∀ p ∈ tellings m resolveColor values defs, ¬Names m p.2 c := by
  rintro ⟨k, r⟩ hmem hnames
  rcases mem_tellings.1 hmem with ⟨-, t, ht, rfl⟩ | ⟨hk, rfl⟩
  · -- A cell that shares is private, and an item for it is accepted.
    have hindex := (toldRecord_names hc ht).1 hnames
    subst hindex
    obtain ⟨hm, hlt, -, q, hq, -⟩ := mem_told ht
    obtain ⟨it, hit, hname⟩ := hnamed
    apply hall it hit hname
    unfold IsCell at hc
    rw [if_neg hm] at hc
    have hpixel : it.pixel.toNat = c.index := by
      have hred := hname .red (hc.1 ▸ Channel.mem_all .red)
      rwa [index_pseudo hm] at hred
    rw [accepted_pseudo hm, hpixel]
    exact ⟨hlt, m.shared_private c.index (Option.isSome_iff_exists.2 ⟨q, hq⟩)⟩
  · unfold acceptedIn at hk
    rw [List.mem_filter, List.mem_range, decide_eq_true_eq] at hk
    have hitem : item defs k = defs[k] := List.getD_eq_getElem _ _ hk.1
    have hmem : item defs k ∈ defs := hitem ▸ List.getElem_mem hk.1
    exact hall _ hmem ((names_congr (record_pixel k)).1 hnames) hk.2

/-- With full colours in the records, the last one for a cell has the colour that the cell has after its item. -/
theorem last_iff (hrecords : ∀ p ∈ tellings m resolveColor values defs, Carries m resolveColor values defs p.1 p.2) (hc : IsCell m c)
    (final : Values) :
    (∃ r, (((tellings m resolveColor values defs).map Prod.snd).filter fun r => Names m r c).getLast? = some r ∧
        ∀ ch ∈ c.channels, r.rgb.get ch = final ch (m.place ch c.index)) ↔
      ∃ k, lastTold m defs c = some k ∧ ∀ ch ∈ c.channels,
        valueAfter m resolveColor values defs (k + 1) ch (m.place ch c.index) = final ch (m.place ch c.index) := by
  rw [lastReceived_eq, lastTold_eq hc resolveColor values]
  rcases hlast : ((tellings m resolveColor values defs).filter fun p => Names m p.2 c).getLast? with _ | ⟨k, r⟩
  · rw [hlast]
    constructor
    · rintro ⟨r, hr, -⟩
      exact nomatch hr
    · rintro ⟨k, hk, -⟩
      exact nomatch hk
  · rw [hlast]
    have hmem := List.mem_filter.1 (List.mem_of_getLast? hlast)
    have hnames : Names m r c := of_decide_eq_true hmem.2
    have hcarries := hrecords (k, r) hmem.1
    have hval : ∀ ch ∈ c.channels, r.rgb.get ch = valueAfter m resolveColor values defs (k + 1) ch (m.place ch c.index) := by
      intro ch hch
      rw [hcarries ch, hnames ch hch]
    constructor
    · rintro ⟨r', hr', hall⟩
      obtain rfl := Option.some.inj hr'
      exact ⟨k, rfl, fun ch hch => (hval ch hch).symm.trans (hall ch hch)⟩
    · rintro ⟨k', hk', hall⟩
      obtain rfl := Option.some.inj hk'
      exact ⟨r, rfl, fun ch hch => (hval ch hch).trans (hall ch hch)⟩

/-- **Storing colours**: the screen sees them exactly when the request fits. -/
theorem storeColors_reported (m : Colormap) (hdynamic : m.dynamic = true) (resolveColor : Rgb → Rgb) (values : Values)
    (defs : List ColorItem) (errorValue : UInt32) :
    Reported m resolveColor values defs (storeColors m resolveColor values defs errorValue) ↔ Fits m resolveColor values defs := by
  obtain ⟨hvalues, hreceived⟩ := storeColors_closed hdynamic resolveColor values defs errorValue
  generalize storeColors m resolveColor values defs errorValue = out at hvalues hreceived
  have hcarry : List.Forall₂ (Carries m resolveColor values defs) (labels m defs) (received out) →
      ∀ p ∈ tellings m resolveColor values defs, Carries m resolveColor values defs p.1 p.2 := by
    rw [hreceived, labels_eq, List.forall₂_map_left_iff, List.forall₂_map_right_iff, List.forall₂_same]
    exact id
  constructor
  · intro h
    have hrecords := h.records
    have hall := hcarry hrecords
    rw [hreceived] at hrecords
    refine ⟨records_iff.1 hrecords, fun c hc hchange => ?_⟩
    have hlast := h.last c hc
    rw [hreceived, last_iff hall hc, hvalues] at hlast
    exact hlast hchange
  · intro h
    have hrecords := records_iff.2 h.copies
    rw [← hreceived] at hrecords
    have hall := hcarry hrecords
    refine ⟨hrecords, fun c hc hchange => ?_, fun c hc hnamed hrejected => ?_⟩
    · rw [hreceived, last_iff hall hc, hvalues]
      rw [hvalues] at hchange
      exact h.settled c hc hchange
    · have huntold := rejected_untold hc hnamed hrejected resolveColor values
      constructor
      · intro r hr
        rw [hreceived] at hr
        obtain ⟨p, hp, rfl⟩ := List.mem_map.1 hr
        exact huntold p hp
      · intro ch hch
        by_contra hne
        rw [hvalues] at hne
        obtain ⟨k, hk, -⟩ := h.settled c hc ⟨ch, hch, hne⟩
        rw [lastTold_eq hc resolveColor values, Option.map_eq_some_iff] at hk
        obtain ⟨p, hp, -⟩ := hk
        have hmem := List.mem_filter.1 (List.mem_of_getLast? hp)
        exact huntold p hmem.1 (of_decide_eq_true hmem.2)

/-- A map of two cells, the second of which is not writable. -/
def twoCells : Colormap where
  direct := false
  dynamic := true
  beingCreated := false
  visual := ⟨2, 1, fun _ => 0, fun _ => 0, by decide⟩
  refcnt _ i := if i = 0 then AllocPrivate else 1
  pointer _ := none
  sharedRefcnt _ _ := 0
  shared_private _ h := nomatch h

/-- The second cell, which is rejected, and then red alone for the first. -/
def readOnlyFirst : List ColorItem := [⟨1, ⟨0, 0, 0⟩, 7⟩, ⟨0, ⟨5, 9, 9⟩, 1⟩]

/-- The hook gets the green and blue of the request, and not those of the cell. -/
theorem readOnlyFirst_reported :
    received (storeColors twoCells id (fun _ _ => 0) readOnlyFirst 0) = [⟨0, ⟨5, 9, 9⟩, 1⟩] ∧
      ¬Reported twoCells id (fun _ _ => 0) readOnlyFirst (storeColors twoCells id (fun _ _ => 0) readOnlyFirst 0) := by
  have hreceived : received (storeColors twoCells id (fun _ _ => 0) readOnlyFirst 0) = [⟨0, ⟨5, 9, 9⟩, 1⟩] := by decide +kernel
  refine ⟨hreceived, fun h => ?_⟩
  have hrecords := h.records
  have hlabels : labels twoCells readOnlyFirst = [1] := by decide +kernel
  cases hrecords with
  | cons hcarries _ => exact absurd (hcarries .green) (by decide +kernel)

theorem readOnlyFirst_fits :
    twoCells.dynamic = true ∧ (Reported twoCells id (fun _ _ => 0) readOnlyFirst (storeColors twoCells id (fun _ _ => 0) readOnlyFirst 0) ↔
      Fits twoCells id (fun _ _ => 0) readOnlyFirst) :=
  ⟨rfl, storeColors_reported twoCells rfl id (fun _ _ => 0) readOnlyFirst 0⟩

end Xenia.StoreColors
