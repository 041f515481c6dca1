import Xenia.Lib.BitCount

/-!
# Allocating cells of a colormap

`AllocCP` looks for `count` pixels and a mask of `planes` bits such that all combinations of them are free cells. The easy case takes the
first free cells (`easyCase`). Otherwise a block of adjacent bits is shifted through the planes (`shiftedMasks`), and then all other masks
are tried in their order (`sparseMasks`). Both searches go over the pixels in the same way (`scan`): they differ in how they come to the
next pixel, and in how they count through the combinations. An index outside of the channel is a fault.

`Meets` is what is asked of a call, and `Condition` when it is met.
-/

namespace Xenia.AllocCP

open Xenia.Lib

def AllocPrivate : ℤ := -1

/-- `_CMEntry`, without the colours. -/
structure Entry where
  refcnt : ℤ
  fShared : Bool
deriving DecidableEq, Repr

/-- The cell is there and free. -/
def free (ent : List Entry) (i : ℕ) : Bool := (ent[i]?).any (·.refcnt == 0)

/-- One channel of a colormap, or the only one, with what its visual says. `free` is `freeRed`, `freeGreen` or `freeBlue`. -/
structure Channel where
  colormapEntries : ℕ
  nplanes : ℕ
  freeCells : ℕ
  ent : List Entry
  cells : ∃ k, ent.length = 2 ^ k
  entries : ∃ e, colormapEntries = 2 ^ e ∧ e < 15 ∧ e ≤ nplanes
  planes : nplanes ≤ 32
  fits : ent.length ≤ colormapEntries
  counted : freeCells = (List.range ent.length).countP (free ent)

/-! ## Cells -/

/-- `ent[i].refcnt == 0`. -/
def isFree (ent : List Entry) (i : ℕ) : Outcome Bool := (deref ent[i]?).map (·.refcnt == 0)

/-- `ent[i].refcnt = AllocPrivate; ent[i].fShared = FALSE;`. -/
def allocPrivate (ent : List Entry) (i : ℕ) : Outcome (List Entry) :=
  if i < ent.length then .ok (ent.set i ⟨AllocPrivate, false⟩) else .error .fault

/-- `while (ent.refcnt)`. -/
def skipUsed (ent : List Entry) : ℕ → ℕ → Outcome ℕ
  | 0, _ => .error .hang
  | fuel + 1, pixel => do
    if ← isFree ent pixel then .ok pixel else skipUsed ent fuel (pixel + 1)

/-- Just `count` unallocated cells. -/
def easyCase : ℕ → List Entry → ℕ → List ℕ → Outcome (List Entry × List ℕ)
  | 0, ent, _, pixels => .ok (ent, pixels)
  | count + 1, ent, pixel, pixels => do
    let pixel ← skipUsed ent (ent.length + 1) pixel
    let ent ← allocPrivate ent pixel
    easyCase count ent pixel (pixels ++ [pixel])

/-! ## Going over the pixels -/

/-- The pixels below `entries` are tried in turn; enough of them end the search. -/
def scan (test : ℕ → Outcome Bool) (next : ℕ → ℕ) (count entries : ℕ) : ℕ → ℕ → List ℕ → Outcome (Option (List ℕ))
  | 0, _, _ => .error .hang
  | fuel + 1, pixel, found =>
    if pixel < entries then do
      if ← test pixel then
        if (found ++ [pixel]).length = count then .ok (some (found ++ [pixel]))
        else scan test next count entries fuel (next pixel) (found ++ [pixel])
      else scan test next count entries fuel (next pixel) found
    else .ok none

/-- `pmap.pVisual.ColormapEntries - mask`, in 32 bits. -/
def entriesFor (c : Channel) (mask : ℕ) : ℕ := (c.colormapEntries + 2 ^ 32 - mask) % 2 ^ 32

/-- What a search found: the mask, its lowest bit, and the first pixels. -/
structure Found where
  mask : ℕ
  base : ℕ
  pixels : List ℕ

/-! ## Contiguous planes -/

/-- `while (pixel != maxp && ent[pixel].refcnt == 0) pixel += base;`. -/
def checkRun (ent : List Entry) (maxp base : ℕ) : ℕ → ℕ → Outcome ℕ
  | 0, _ => .error .hang
  | fuel + 1, pixel =>
    if pixel = maxp then .ok pixel
    else do
      if ← isFree ent pixel then checkRun ent maxp base fuel (pixel + base) else .ok pixel

def runFree (ent : List Entry) (mask base pixel : ℕ) : Outcome Bool := do
  let stop ← checkRun ent (pixel + mask + base) base (mask + base + 1) pixel
  .ok (stop == pixel + mask + base)

/-- `pixel = save + 1; if (pixel & mask) pixel += mask;`. -/
def nextRun (mask save : ℕ) : ℕ := if (save + 1) &&& mask ≠ 0 then save + 1 + mask else save + 1

def scanRuns (c : Channel) (count mask base : ℕ) : Outcome (Option (List ℕ)) :=
  scan (runFree c.ent mask base) (nextRun mask) count (entriesFor c mask) (entriesFor c mask + 1) 0 []

/-- `--dplanes >= 0; mask += mask, base += base`. -/
def shiftedMasks (c : Channel) (count : ℕ) : ℕ → ℕ → ℕ → Outcome (Option Found)
  | 0, _, _ => .ok none
  | turns + 1, mask, base => do
    match ← scanRuns c count mask base with
    | some pixels => .ok (some ⟨mask, base, pixels⟩)
    | none => shiftedMasks c count turns (mask + mask) (base + base)

/-! ## Other masks -/

/-- `GetNextBitsOrBreak`, where it does not break. -/
def nextBits (mask base bits : ℕ) : Outcome ℕ := carry mask 33 (bits + base)

/-- `while (ent[pixel + maxp].refcnt == 0)`. -/
def checkBits (ent : List Entry) (mask base pixel : ℕ) : ℕ → ℕ → Outcome ℕ
  | 0, _ => .error .hang
  | fuel + 1, maxp => do
    if ← isFree ent (pixel + maxp) then
      if maxp = mask then .ok maxp
      else do
        let maxp ← nextBits mask base maxp
        checkBits ent mask base pixel fuel maxp
    else .ok maxp

def bitsFree (ent : List Entry) (mask base pixel : ℕ) : Outcome Bool :=
  if pixel &&& mask ≠ 0 then .ok false
  else do
    let maxp ← checkBits ent mask base pixel (mask + 1) 0
    if maxp < mask then .ok false else isFree ent (pixel + mask)

def scanBits (c : Channel) (count mask base : ℕ) : Outcome (Option (List ℕ)) :=
  scan (bitsFree c.ent mask base) (· + 1) count (entriesFor c mask) (entriesFor c mask + 1) 0 []

/-- The "3 magic statements" that count the ones of a mask. -/
def ones (mask : ℕ) : ℕ :=
  let pixel := (mask >>> 1) &&& 0o33333333333
  let pixel := mask - pixel - ((pixel >>> 1) &&& 0o33333333333)
  ((pixel + (pixel >>> 3)) &&& 0o30707070707) % 0o77

/-- `mask <= finalmask; mask++`. -/
def sparseMasks (c : Channel) (count planes : ℕ) : ℕ → ℕ → Outcome (Option Found)
  | 0, _ => .ok none
  | turns + 1, mask =>
    if ones mask ≠ planes then sparseMasks c count planes turns (mask + 1)
    else do
      match ← scanBits c count mask (low 32 mask) with
      | some pixels => .ok (some ⟨mask, low 32 mask, pixels⟩)
      | none => sparseMasks c count planes turns (mask + 1)

/-! ## The allocation -/

/-- The other combinations of one pixel are put behind the pixels there are. -/
def allocGroup (next : ℕ → Outcome ℕ) (mask pixel : ℕ) : ℕ → ℕ → List Entry → List ℕ → Outcome (List Entry × List ℕ)
  | 0, _, _, _ => .error .hang
  | fuel + 1, off, ent, pixels => do
    let ent ← allocPrivate ent (pixel + off)
    if off = mask then .ok (ent, pixels)
    else do
      let off ← next off
      allocGroup next mask pixel fuel off ent (pixels ++ [pixel + off])

def allocGroups (next : ℕ → Outcome ℕ) (mask : ℕ) : List ℕ → List Entry → List ℕ → Outcome (List Entry × List ℕ)
  | [], ent, pixels => .ok (ent, pixels)
  | pixel :: rest, ent, pixels => do
    let done ← allocGroup next mask pixel (mask + 1) 0 ent pixels
    allocGroups next mask rest done.1 done.2

/-- What the call returns and leaves behind. -/
structure Result where
  ok : Bool
  ent : List Entry
  pixels : List ℕ
  mask : ℕ

/-- `while (--count >= 0)`: from the last pixel to the first. -/
def allocFound (c : Channel) (next : ℕ → Outcome ℕ) (f : Found) : Outcome Result := do
  let done ← allocGroups next f.mask f.pixels.reverse c.ent f.pixels
  .ok ⟨true, done.1, done.2, f.mask⟩

def failed (c : Channel) : Result := ⟨false, c.ent, [], 0⟩

/-- The second search, for planes that are not contiguous. -/
def allocSparse (c : Channel) (count planes : ℕ) : Outcome Result :=
  -- `1 << (dplanes-planes-1)` is a shift by a negative count
  if c.nplanes ≤ planes then .error .fault
  else do
    let finalmask := (((1 <<< (planes - 1)) - 1) <<< (c.nplanes - planes + 1)) + (1 <<< (c.nplanes - planes - 1))
    let first := (3 <<< (planes - 1)) - 1
    match ← sparseMasks c count planes (finalmask + 1 - first) first with
    | some f => allocFound c (nextBits f.mask f.base) f
    | none => .ok (failed c)

def allocCP (c : Channel) (count planes : ℕ) (contig : Bool) : Outcome Result :=
  if planes = 0 then do
    let done ← easyCase count c.ent 0 []
    .ok ⟨true, done.1, done.2, 0⟩
  else if c.nplanes < planes then .ok (failed c)
  else do
    match ← shiftedMasks c count (c.nplanes - (planes - 1)) ((1 <<< planes) - 1) 1 with
    | some f => allocFound c (fun off => .ok (off + f.base)) f
    | none => if contig ∨ planes = 1 ∨ c.nplanes < 3 then .ok (failed c) else allocSparse c count planes

/-! ## What is asked of it -/

/-- `c << r`, as an `int`. -/
def npix (count planes : ℕ) : ℤ := Int.bmod (count * 2 ^ planes) (2 ^ 32)

/-- What `AllocDirect` and `AllocPseudo` check before they call. -/
def Checked (c : Channel) (count planes : ℕ) : Prop := planes < 32 ∧ npix count planes ≤ c.freeCells ∧ count ≤ npix count planes

instance (c : Channel) (count planes : ℕ) : Decidable (Checked c count planes) :=
  inferInstanceAs (Decidable (planes < 32 ∧ npix count planes ≤ c.freeCells ∧ count ≤ npix count planes))

/-- All combinations of the pixel with bits of the mask are free cells. -/
def Group (ent : List Entry) (mask x : ℕ) : Prop := x &&& mask = 0 ∧ ∀ t, Submask t mask → free ent (x ||| t) = true

def HasGroups (ent : List Entry) (mask count : ℕ) : Prop := ∃ l : List ℕ, l.length = count ∧ l.Nodup ∧ ∀ x ∈ l, Group ent mask x

/-- A mask of `planes` bits, adjacent ones if asked for. -/
def Allowed (planes : ℕ) (contig : Bool) (mask : ℕ) : Prop :=
  mask < 2 ^ 32 ∧ bitCount 32 mask = planes ∧ (contig → ∃ s, mask = adjacent planes s)

/-- What a successful call leaves. -/
structure Allocated (c : Channel) (count planes : ℕ) (contig : Bool) (r : Result) : Prop where
  allowed : Allowed planes contig r.mask
  length : r.pixels.length = count * 2 ^ planes
  nodup : r.pixels.Nodup
  unmasked : ∀ x ∈ r.pixels.take count, x &&& r.mask = 0
  combinations : ∀ q, q ∈ r.pixels ↔ ∃ x ∈ r.pixels.take count, ∃ t, Submask t r.mask ∧ q = x ||| t
  wasFree : ∀ q ∈ r.pixels, free c.ent q = true
  isPrivate : ∀ q ∈ r.pixels, r.ent[q]? = some ⟨AllocPrivate, false⟩
  others : ∀ i, i ∉ r.pixels → r.ent[i]? = c.ent[i]?

/-- What a call that fails leaves: nothing changed, and there was nothing to find. -/
structure Refused (c : Channel) (count planes : ℕ) (contig : Bool) (r : Result) : Prop where
  unchanged : r.ent = c.ent
  none : ∀ mask, Allowed planes contig mask → ¬HasGroups c.ent mask count

/-- The call stays inside the channel, and leaves what it says. -/
def Meets (c : Channel) (count planes : ℕ) (contig : Bool) : Prop :=
  ∃ r, allocCP c count planes contig = .ok r ∧ (r.ok = true → Allocated c count planes contig r) ∧
    (r.ok = false → Refused c count planes contig r)

/-- Only cells are asked for; or the channel has all entries, and the shifted mask does not leave it, or is found before it does; or the
channel is smaller, and the lowest mask is found. -/
def Condition (c : Channel) (count planes : ℕ) : Prop :=
  planes = 0 ∨
  (c.ent.length = c.colormapEntries ∧
    (c.ent.length = 2 ^ c.nplanes ∨ (planes = 1 ∧ 2 * c.ent.length = 2 ^ c.nplanes) ∨
      ∃ s, HasGroups c.ent (adjacent planes s) count)) ∨
  (c.ent.length < c.colormapEntries ∧ HasGroups c.ent (adjacent planes 0) count)

end Xenia.AllocCP
