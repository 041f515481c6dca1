import Mathlib.Algebra.Group.Nat.Defs
import Mathlib.Data.List.GetD

/-!
# Storing colours in a colormap

`StoreColors` goes over the items of a request once. An item that is accepted is put behind those accepted before, in the same array, and at
the end the array goes to the `StoreColors` hook of the screen. In a DirectColor map (`directStep`) the three parts of a pixel name a cell
each, and an item is copied when its three cells were done. In the other maps (`pseudoStep`) it is copied first; and cells that share a
colour with the one that changes are reported at once, each by a call of its own.
-/

namespace Xenia.StoreColors

inductive Channel
  | red
  | green
  | blue
deriving DecidableEq, Repr

namespace Channel

def all : List Channel := [red, green, blue]

/-- `DoRed`, `DoGreen` and `DoBlue`. -/
def doFlag : Channel → UInt8
  | red => 1
  | green => 2
  | blue => 4

theorem mem_all (ch : Channel) : ch ∈ all := by cases ch <;> decide

end Channel

/-! ## Colours -/

structure Rgb where
  red : UInt16
  green : UInt16
  blue : UInt16
deriving DecidableEq, Repr

namespace Rgb

def get (c : Rgb) : Channel → UInt16
  | .red => c.red
  | .green => c.green
  | .blue => c.blue

def set (c : Rgb) (ch : Channel) (v : UInt16) : Rgb :=
  match ch with
  | .red => { c with red := v }
  | .green => { c with green := v }
  | .blue => { c with blue := v }

/-- The colour with these values. -/
def of (f : Channel → UInt16) : Rgb := ⟨f .red, f .green, f .blue⟩

@[simp] theorem get_of (f : Channel → UInt16) (ch : Channel) : (of f).get ch = f ch := by cases ch <;> rfl

theorem get_set (c : Rgb) (ch ch' : Channel) (v : UInt16) : (c.set ch v).get ch' = if ch' = ch then v else c.get ch' := by
  cases ch <;> cases ch' <;> rfl

theorem ext_get {c d : Rgb} (h : ∀ ch, c.get ch = d.get ch) : c = d := by
  obtain ⟨r, g, b⟩ := c
  obtain ⟨r', g', b'⟩ := d
  have hr : r = r' := h .red
  have hg : g = g' := h .green
  have hb : b = b' := h .blue
  rw [hr, hg, hb]

end Rgb

structure ColorItem where
  pixel : UInt32
  rgb : Rgb
  flags : UInt8
deriving DecidableEq, Repr

/-- Whether the item changes the value of a channel. -/
def ColorItem.does (item : ColorItem) (ch : Channel) : Prop := item.flags &&& ch.doFlag ≠ 0

instance (item : ColorItem) (ch : Channel) : Decidable (item.does ch) := inferInstanceAs (Decidable (_ ≠ _))

/-! ## Colormaps -/

/-- The entries are a `short`. -/
structure Visual where
  ColormapEntries : ℕ
  nplanes : ℕ
  mask : Channel → UInt32
  offset : Channel → UInt32
  short : ColormapEntries < 2 ^ 15

/-- `NUMRED`, `NUMGREEN` and `NUMBLUE`. -/
def Visual.num (v : Visual) (ch : Channel) : ℕ := (v.mask ch >>> v.offset ch).toNat + 1

/-- `~RGBMASK(pVisual)`. -/
def Visual.rgbbad (v : Visual) : UInt32 :=
  let rgb := v.mask .red ||| v.mask .green ||| v.mask .blue
  ~~~(rgb ||| if v.nplanes < 32 then 0 else ~~~rgb)

/-- The part of a pixel for a channel. -/
def Visual.part (v : Visual) (ch : Channel) (pixel : UInt32) : ℕ := ((pixel &&& v.mask ch) >>> v.offset ch).toNat

def AllocPrivate : ℤ := -1

/-- What `StoreColors` looks at in a colormap and does not change. `direct` is `(class | DynamicClass) == DirectColor`. `pointer` is there
for the cells with `fShared`, and points to the `SHAREDCOLOR` of each channel, whose `refcnt` is `sharedRefcnt`. Only private cells are
shared. -/
structure Colormap where
  direct : Bool
  dynamic : Bool
  beingCreated : Bool
  visual : Visual
  refcnt : Channel → ℕ → ℤ
  pointer : ℕ → Option (Channel → ℕ)
  sharedRefcnt : Channel → ℕ → ℤ
  shared_private : ∀ i, (pointer i).isSome → refcnt .red i = AllocPrivate

/-- Where the value of a channel of a cell is kept: in the cell, or in a `SHAREDCOLOR`. -/
inductive Place
  | own (index : ℕ)
  | shared (pointer : ℕ)
deriving DecidableEq, Repr

/-- The colours in the memory of a colormap. -/
abbrev Values := Channel → Place → UInt16

def Values.store (values : Values) (ch : Channel) (p : Place) (v : UInt16) : Values :=
  fun ch' p' => if ch' = ch ∧ p' = p then v else values ch' p'

/-- The place of a channel of the cell `i`. -/
def Colormap.place (m : Colormap) (ch : Channel) (i : ℕ) : Place :=
  if m.direct then .own i
  else
    match m.pointer i with
    | some p => .shared (p ch)
    | none => .own i

inductive Status
  | success
  | badValue
  | badAccess
deriving DecidableEq, Repr

/-- `QueryColors`, for one pixel. -/
def queryColor (m : Colormap) (values : Values) (pixel : UInt32) : Option Rgb :=
  if m.direct then
    if pixel &&& m.visual.rgbbad ≠ 0 ∨ ∃ ch ∈ Channel.all, m.visual.num ch ≤ m.visual.part ch pixel then none
    else some (.of fun ch => values ch (m.place ch (m.visual.part ch pixel)))
  else if m.visual.ColormapEntries ≤ pixel.toNat then none
  else some (.of fun ch => values ch (m.place ch pixel.toNat))

/-! ## One item -/

/-- An item while it is worked on. -/
structure Pass where
  values : Values
  item : ColorItem
  errVal : Status
  ok : Bool

/-- The three like parts for a DirectColor map. -/
def directChannel (m : Colormap) (s : Pass) (ch : Channel) : Pass :=
  let pix := m.visual.part ch s.item.pixel
  if m.visual.num ch ≤ pix then { s with errVal := .badValue, ok := false }
  else if m.refcnt ch pix ≠ AllocPrivate then { s with errVal := .badAccess, ok := false }
  else if s.item.does ch then { s with values := s.values.store ch (.own pix) (s.item.rgb.get ch) }
  else { s with item := { s.item with rgb := s.item.rgb.set ch (s.values ch (.own pix)) } }

/-- The three like parts for the other maps; `ok` says that nobody shares what changes. -/
def pseudoChannel (m : Colormap) (s : Pass) (ch : Channel) : Pass :=
  let i := s.item.pixel.toNat
  if s.item.does ch then
    match m.pointer i with
    | some p =>
      { s with
        values := s.values.store ch (.shared (p ch)) (s.item.rgb.get ch)
        ok := if m.sharedRefcnt ch (p ch) > 1 then false else s.ok }
    | none => { s with values := s.values.store ch (.own i) (s.item.rgb.get ch) }
  else
    match m.pointer i with
    | some p => { s with item := { s.item with rgb := s.item.rgb.set ch (s.values ch (.shared (p ch))) } }
    | none => { s with item := { s.item with rgb := s.item.rgb.set ch (s.values ch (.own i)) } }

/-- The record for the cell `t`, which shares what the item changes in the cell `pent`; `none` if it does not. -/
def changed (m : Colormap) (values : Values) (pdef : ColorItem) (pent t : ℕ) : Option ColorItem :=
  match m.pointer t, m.pointer pent with
  | some q, some p =>
    if t = pent then none
    else
      let flags := (if pdef.does .red ∧ q .red = p .red then 1 else 0) ||| (if pdef.does .green ∧ q .green = p .green then 2 else 0) |||
        (if pdef.does .blue ∧ q .blue = p .blue then 4 else 0)
      if flags ≠ 0 then some ⟨UInt32.ofNat t, .of fun ch => values ch (.shared (q ch)), flags⟩ else none
  | _, _ => none

/-! ## The loops -/

/-- `defs` is the array of the request, of which the first `idef` items are accepted. `calls` are those of the screen's hook. -/
structure Run where
  values : Values
  defs : List ColorItem
  idef : ℕ
  calls : List (List ColorItem)
  errVal : Status
  errorValue : UInt32

/-- `defs[n]`. -/
def item (defs : List ColorItem) (n : ℕ) : ColorItem := defs.getD n ⟨0, ⟨0, 0, 0⟩, 0⟩

section Steps

variable (m : Colormap) (resolveColor : Rgb → Rgb)

/-- `ResolveColor` in place. -/
def resolved (pdef : ColorItem) : ColorItem := { pdef with rgb := resolveColor pdef.rgb }

/-- `if (idef != n) defs[idef] = defs[n]; idef++`. -/
def accept (defs : List ColorItem) (idef n : ℕ) : List ColorItem := if idef ≠ n then defs.set idef (item defs n) else defs

def directStep (r : Run) (n : ℕ) : Run :=
  let pdef := resolved resolveColor (item r.defs n)
  if pdef.pixel &&& m.visual.rgbbad ≠ 0 then
    { r with defs := r.defs.set n pdef, errVal := .badValue, errorValue := pdef.pixel }
  else
    let s := Channel.all.foldl (directChannel m) ⟨r.values, pdef, r.errVal, true⟩
    let defs := r.defs.set n s.item
    if s.ok then { r with values := s.values, defs := accept defs r.idef n, idef := r.idef + 1, errVal := s.errVal }
    else { r with values := s.values, defs := defs, errVal := s.errVal, errorValue := s.item.pixel }

def pseudoStep (r : Run) (n : ℕ) : Run :=
  let pdef := item r.defs n
  if m.visual.ColormapEntries ≤ pdef.pixel.toNat then { r with errVal := .badValue, errorValue := pdef.pixel }
  else if m.refcnt .red pdef.pixel.toNat ≠ AllocPrivate then { r with errVal := .badAccess }
  else
    let defs := accept r.defs r.idef n
    -- `pdef` still points to the item `n`, not to its copy
    let s := Channel.all.foldl (pseudoChannel m) ⟨r.values, resolved resolveColor (item defs n), r.errVal, true⟩
    let told :=
      if s.ok then []
      else (List.range m.visual.ColormapEntries).filterMap fun t => changed m s.values s.item s.item.pixel.toNat t
    { r with
      values := s.values, defs := defs.set n s.item, idef := r.idef + 1, errVal := s.errVal
      calls := r.calls ++ told.map fun defChg => [defChg] }

def step (r : Run) (n : ℕ) : Run := if m.direct then directStep m resolveColor r n else pseudoStep m resolveColor r n

/-- The loop over the first `k` items. -/
def loop (values : Values) (defs : List ColorItem) (errorValue : UInt32) (k : ℕ) : Run :=
  (List.range k).foldl (step m resolveColor) ⟨values, defs, 0, [], .success, errorValue⟩

/-- `StoreColors`. -/
def storeColors (values : Values) (defs : List ColorItem) (errorValue : UInt32) : Run :=
  if !m.dynamic ∧ !m.beingCreated then ⟨values, defs, 0, [], .badAccess, errorValue⟩
  else
    let r := loop m resolveColor values defs errorValue defs.length
    if r.idef ≠ 0 then { r with calls := r.calls ++ [r.defs.take r.idef] } else r

end Steps

end Xenia.StoreColors
