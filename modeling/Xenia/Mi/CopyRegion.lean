import Xenia.Lib.InPlace
import Xenia.Mi.Region

/-!
# Copying a region

`miCopyRegion` copies the boxes of a region from a displaced place, which may be in the same drawable. Then it takes the bands from the
last one up when the source is above, and the boxes of each band from right to left when the source is to the left, and tells
`copyProc` how to walk over each box.

`bandsUpward_flatten` and `boxesLeftward_flatten` say what the two walks over the boxes give, and `order_unspoilt` that no pixel is
written before it is read. `miCopyRegion_eq` is the result.
-/

namespace Xenia.Mi

open Xenia.Lib List

structure Drawable where
  id : ℕ
  isWindow : Bool
deriving DecidableEq

def boxAt (pbox : Region) (i : ℕ) : BoxRec := pbox.getD i ⟨0, 0, 0, 0⟩

/-! ## The walks over the boxes -/

/-- `pboxNext` goes down while it is in the band; pointers are one further here. -/
def bandStart (pbox : Region) (y1 : Int16) : ℕ → ℕ
  | 0 => 0
  | next + 1 => if y1 = (boxAt pbox next).y1 then bandStart pbox y1 next else next + 1

/-- Keep ordering in each band, reverse order of bands. -/
def bandsUpward (pbox : Region) : ℕ → ℕ → Region
  | 0, _ => []
  | _, 0 => []
  | fuel + 1, base + 1 =>
    let next := bandStart pbox (boxAt pbox base).y1 (base + 1)
    (List.range' next (base + 1 - next)).map (boxAt pbox) ++ bandsUpward pbox fuel next

/-- `pboxNext` goes up while it is in the band. -/
def bandEnd (pbox : Region) (y1 : Int16) : ℕ → ℕ → ℕ
  | 0, next => next
  | rest + 1, next => if (boxAt pbox next).y1 = y1 then bandEnd pbox y1 rest (next + 1) else next

/-- Reverse order of rects in each band. -/
def boxesLeftward (pbox : Region) : ℕ → ℕ → Region
  | 0, _ => []
  | fuel + 1, base =>
    if base < pbox.length then
      let next := bandEnd pbox (boxAt pbox base).y1 (pbox.length - base) base
      ((List.range' base (next - base)).map (boxAt pbox)).reverse ++ boxesLeftward pbox fuel next
    else []

/-- `calloc1` and `calloc2` say whether there is memory for the boxes in another order. -/
def miCopyRegion {M : Type*} (pSrcDrawable pDstDrawable : Drawable) (pDstRegion : Region) (dx dy : ℤ) (calloc1 calloc2 : Bool)
    (copyProc : Region → Bool → Bool → M → M) (m : M) : M :=
  let pbox := pDstRegion
  let nbox := pbox.length
  let careful := decide (pSrcDrawable = pDstDrawable) || (pSrcDrawable.isWindow && pDstDrawable.isWindow)
  let upsidedown := careful && decide (dy < 0)
  if upsidedown ∧ nbox > 1 ∧ ¬calloc1 then m
  else
    let pbox := if upsidedown ∧ nbox > 1 then bandsUpward pbox nbox nbox else pbox
    let leftward := careful && decide (dx < 0)
    let reverse := leftward && decide (dy ≤ 0)
    if leftward ∧ nbox > 1 ∧ ¬calloc2 then m
    else
      let pbox := if leftward ∧ nbox > 1 then boxesLeftward pbox nbox 0 else pbox
      copyProc pbox reverse upsidedown m

/-! ## Copying boxes -/

def span (lo hi : Int16) (backward : Bool) : List ℤ :=
  let l := (List.range (hi.toInt - lo.toInt).toNat).map fun i : ℕ => lo.toInt + i
  if backward then l.reverse else l

/-- The pixels of a box, rows bottom to top if `upsidedown`, and each row right to left if `reverse`. -/
def boxPixels (reverse upsidedown : Bool) (b : BoxRec) : List (ℤ × ℤ) :=
  (span b.y1 b.y2 upsidedown).flatMap fun y => (span b.x1 b.x2 reverse).map fun x => (x, y)

/-- Where a pixel is copied from. -/
def displaced (dx dy : ℤ) (p : ℤ × ℤ) : ℤ × ℤ := (p.1 + dx, p.2 + dy)

/-- The boxes are copied one after the other, each as a whole. -/
def copyBoxes {V : Type*} (dx dy : ℤ) (pbox : Region) (reverse upsidedown : Bool) (m : ℤ × ℤ → V) : ℤ × ℤ → V :=
  copyEach (displaced dx dy) (pbox.flatMap (boxPixels reverse upsidedown)) m

/-- The boxes are in bands from top to bottom, and in each from left to right. -/
structure YXBanded (pbox : Region) : Prop where
  valid : pbox.Valid
  ordered : pbox.Pairwise fun a b => (a.y1 = b.y1 ∧ a.y2 = b.y2 ∧ a.x2.toInt < b.x1.toInt) ∨ a.y2.toInt ≤ b.y1.toInt

/-! ## Bands -/

/-- The bands of a region: a row for each, and each further down than the one before. -/
structure InBands (bands : List Region) : Prop where
  nonempty : ∀ b ∈ bands, b ≠ []
  row : ∀ b ∈ bands, ∀ p ∈ b, ∀ q ∈ b, p.y1 = q.y1
  across : ∀ b ∈ bands, b.Pairwise fun p q => p.x2.toInt < q.x1.toInt
  down : bands.Pairwise fun b c => ∀ p ∈ b, ∀ q ∈ c, p.y2.toInt ≤ q.y1.toInt
  valid : ∀ b ∈ bands, Region.Valid b

variable {A B C pbox b : Region} {bands : List Region} {y : Int16} {j fuel : ℕ} {p : BoxRec}

/-- **A banded region has bands.** -/
theorem YXBanded.exists_bands (h : YXBanded pbox) : ∃ bands, InBands bands ∧ pbox = bands.flatten := by
  induction pbox with
  | nil => exact ⟨[], ⟨by simp, by simp, by simp, .nil, by simp⟩, rfl⟩
  | cons p pbox ih =>
    obtain ⟨hp, hvalid⟩ := forall_mem_cons.1 h.valid
    obtain ⟨hfirst, hordered⟩ := pairwise_cons.1 h.ordered
    obtain ⟨bands, hb, rfl⟩ := ih ⟨hvalid, hordered⟩
    have hpy := hp.2
    cases bands with
    | nil => exact ⟨[[p]], ⟨by simp, by simp, by simp, by simp, by simpa [Region.Valid] using hp⟩, rfl⟩
    | cons b bands =>
      obtain ⟨q, b, rfl⟩ := exists_cons_of_ne_nil (hb.nonempty b mem_cons_self)
      have hq : q.Valid := hb.valid _ mem_cons_self q mem_cons_self
      have hqy := hq.2
      have hrow : ∀ r ∈ q :: b, r.y1 = q.y1 := fun r hr => hb.row _ mem_cons_self r hr q mem_cons_self
      obtain ⟨hqdown, hdown⟩ := pairwise_cons.1 hb.down
      have hbelow : ∀ c ∈ bands, ∀ r ∈ c, q.y2.toInt ≤ r.y1.toInt := fun c hc r hr => hqdown c hc q mem_cons_self r hr
      have hmem : ∀ c ∈ bands, ∀ r ∈ c, r ∈ (flatten ((q :: b) :: bands)) := fun c hc r hr =>
        mem_flatten.2 ⟨c, mem_cons_of_mem _ hc, hr⟩
      have hmemb : ∀ r ∈ q :: b, r ∈ (flatten ((q :: b) :: bands)) := fun r hr =>
        mem_flatten.2 ⟨_, mem_cons_self, hr⟩
      by_cases hsame : p.y1 = q.y1
      · -- the box is put into the first band
        refine ⟨(p :: q :: b) :: bands, ⟨?_, ?_, ?_, ?_, ?_⟩, rfl⟩
        · exact forall_mem_cons.2 ⟨cons_ne_nil _ _, fun c hc => hb.nonempty c (mem_cons_of_mem _ hc)⟩
        · refine forall_mem_cons.2 ⟨?_, fun c hc => hb.row c (mem_cons_of_mem _ hc)⟩
          have hall : ∀ r ∈ p :: q :: b, r.y1 = q.y1 := forall_mem_cons.2 ⟨hsame, hrow⟩
          intro r hr s hs
          rw [hall r hr, hall s hs]
        · refine forall_mem_cons.2 ⟨pairwise_cons.2 ⟨?_, hb.across _ mem_cons_self⟩,
            fun c hc => hb.across c (mem_cons_of_mem _ hc)⟩
          intro r hr
          rcases hfirst r (hmemb r hr) with ⟨-, -, hlt⟩ | hle
          · exact hlt
          · rw [hrow r hr, ← hsame] at hle
            omega
        · refine pairwise_cons.2 ⟨?_, hdown⟩
          intro c hc
          refine forall_mem_cons.2 ⟨fun r hr => ?_, hqdown c hc⟩
          rcases hfirst r (hmem c hc r hr) with ⟨heq, -, -⟩ | hle
          · have hr := hbelow c hc r hr
            rw [← heq, hsame] at hr
            omega
          · exact hle
        · exact forall_mem_cons.2 ⟨forall_mem_cons.2 ⟨hp, hb.valid _ mem_cons_self⟩,
            fun c hc => hb.valid c (mem_cons_of_mem _ hc)⟩
      · -- the box is a band of its own
        have habove : p.y2.toInt ≤ q.y1.toInt := by
          rcases hfirst q (hmemb q mem_cons_self) with ⟨heq, -, -⟩ | hle
          · exact absurd heq hsame
          · exact hle
        refine ⟨[p] :: (q :: b) :: bands, ⟨?_, ?_, ?_, ?_, ?_⟩, rfl⟩
        · exact forall_mem_cons.2 ⟨cons_ne_nil _ _, hb.nonempty⟩
        · exact forall_mem_cons.2 ⟨by simp, hb.row⟩
        · exact forall_mem_cons.2 ⟨pairwise_singleton _ _, hb.across⟩
        · refine pairwise_cons.2 ⟨forall_mem_cons.2 ⟨?_, ?_⟩, hb.down⟩
          · intro s hs r hr
            rw [mem_singleton.1 hs, hrow r hr]
            exact habove
          · intro c hc s hs r hr
            rw [mem_singleton.1 hs]
            exact habove.trans (hqy.le.trans (hbelow c hc r hr))
        · exact forall_mem_cons.2 ⟨by simpa [Region.Valid] using hp, hb.valid⟩

/-- What the walks go by: the boxes of a band have the same upper side, those of another one have not. -/
structure Separate (bands : List Region) : Prop where
  nonempty : ∀ b ∈ bands, b ≠ []
  row : ∀ b ∈ bands, ∀ p ∈ b, ∀ q ∈ b, p.y1 = q.y1
  tops : bands.Pairwise fun b c => ∀ p ∈ b, ∀ q ∈ c, p.y1 ≠ q.y1

theorem InBands.separate (h : InBands bands) : Separate bands := by
  refine ⟨h.nonempty, h.row, h.down.imp_of_mem ?_⟩
  intro b c hb _ hdown p hp q hq heq
  have hvalid := (h.valid b hb p hp).2
  have hle := hdown p hp q hq
  rw [← heq] at hle
  omega

theorem Separate.reverse (h : Separate bands) : Separate bands.reverse := by
  refine ⟨fun b hb => h.nonempty b (mem_reverse.1 hb), fun b hb => h.row b (mem_reverse.1 hb), ?_⟩
  exact pairwise_reverse.2 (h.tops.imp fun hne p hp q hq => (hne q hq p hp).symm)

/-! ## What the walks give -/

theorem boxAt_append (hj : j < B.length) : boxAt (A ++ B ++ C) (A.length + j) = B[j] := by
  unfold boxAt
  rw [append_assoc, getD_eq_getElem?_getD, List.getElem?_append_right (Nat.le_add_right _ _), Nat.add_sub_cancel_left,
    List.getElem?_append_left hj, List.getElem?_eq_getElem hj, Option.getD_some]

/-- The boxes between two pointers. -/
theorem map_boxAt : (range' A.length B.length).map (boxAt (A ++ B ++ C)) = B := by
  apply ext_getElem
  · simp
  · intro j _ hj
    rw [getElem_map, getElem_range', one_mul, boxAt_append hj]

theorem bandStart_append (hB : ∀ b ∈ B, b.y1 = y) (hA : ∀ b ∈ A, b.y1 ≠ y) (hj : j ≤ B.length) :
    bandStart (A ++ B ++ C) y (A.length + j) = A.length := by
  induction j with
  | zero =>
    cases A using reverseRecOn with
    | nil => rfl
    | append_singleton A a =>
      have ha : boxAt (A ++ [a] ++ B ++ C) A.length = a := by
        have := boxAt_append (A := A) (B := [a]) (C := B ++ C) (j := 0) (by simp)
        simpa using this
      rw [length_append, length_singleton]
      unfold bandStart
      rw [ha, if_neg (hA a (by simp)).symm]
  | succ j ih =>
    rw [← add_assoc]
    unfold bandStart
    rw [boxAt_append hj, hB _ (getElem_mem hj), if_pos rfl]
    exact ih (Nat.le_of_succ_le hj)

theorem bandEnd_append (hB : ∀ b ∈ B, b.y1 = y) (hC : ∀ b ∈ C, b.y1 ≠ y) (hj : j ≤ B.length) :
    bandEnd (A ++ B ++ C) y (j + C.length) (A.length + (B.length - j)) = A.length + B.length := by
  induction j with
  | zero =>
    rw [Nat.sub_zero]
    cases C with
    | nil => rfl
    | cons c C =>
      have hc : boxAt (A ++ B ++ c :: C) (A.length + B.length) = c := by
        have := boxAt_append (A := A ++ B) (B := [c]) (C := C) (j := 0) (by simp)
        simpa using this
      rw [length_cons]
      unfold bandEnd
      rw [hc, if_neg (hC c mem_cons_self)]
  | succ j ih =>
    have hlt : B.length - (j + 1) < B.length := by omega
    have hnext : A.length + (B.length - (j + 1)) + 1 = A.length + (B.length - j) := by omega
    rw [add_right_comm]
    unfold bandEnd
    rw [boxAt_append hlt, hB _ (getElem_mem hlt), if_pos rfl, hnext]
    exact ih (Nat.le_of_succ_le hj)

/-- **The first walk** gives the bands in reverse order. -/
theorem bandsUpward_flatten (h : Separate bands) (hfuel : bands.length ≤ fuel) :
    bandsUpward (bands.flatten ++ C) fuel bands.flatten.length = bands.reverse.flatten := by
  induction bands using reverseRecOn generalizing fuel C with
  | nil =>
    cases fuel <;> rfl
  | append_singleton bands b ih =>
    rw [length_append, length_singleton] at hfuel
    obtain ⟨fuel, rfl⟩ : ∃ f, fuel = f + 1 := ⟨fuel - 1, by omega⟩
    have hlast : b ∈ bands ++ [b] := by simp
    have hpos := length_pos_of_ne_nil (h.nonempty b hlast)
    obtain ⟨htops, -, hcross⟩ := pairwise_append.1 h.tops
    have hsep : Separate bands :=
      ⟨fun c hc => h.nonempty c (mem_append_left _ hc), fun c hc => h.row c (mem_append_left _ hc), htops⟩
    have hbox : boxAt (bands.flatten ++ b ++ C) (bands.flatten.length + (b.length - 1)) = b[b.length - 1] := boxAt_append (by omega)
    generalize hy : (b[b.length - 1]).y1 = y at *
    have hstart := bandStart_append (C := C) (fun p hp => (h.row b hlast p hp _ (getElem_mem _)).trans hy)
      (fun p hp => by
        obtain ⟨c, hc, hpc⟩ := mem_flatten.1 hp
        rw [← hy]
        exact hcross c hc b (mem_singleton.2 rfl) p hpc _ (getElem_mem _)) (le_refl b.length)
    obtain ⟨base, hbase⟩ : ∃ base, bands.flatten.length + b.length = base + 1 := ⟨bands.flatten.length + b.length - 1, by omega⟩
    have hidx : base = bands.flatten.length + (b.length - 1) := by omega
    rw [flatten_append, flatten_singleton, length_append, hbase]
    unfold bandsUpward
    rw [hidx, hbox, hy, ← hidx, ← hbase, hstart]
    dsimp only
    rw [Nat.add_sub_cancel_left, map_boxAt, append_assoc, ih hsep (by omega), reverse_append, reverse_singleton,
      singleton_append, flatten_cons]

/-- **The second walk** gives the boxes of each band in reverse order. -/
theorem boxesLeftward_flatten (h : Separate bands) (hfuel : bands.length ≤ fuel) :
    boxesLeftward (A ++ bands.flatten) fuel A.length = (bands.map reverse).flatten := by
  induction bands generalizing fuel A with
  | nil =>
    unfold boxesLeftward
    cases fuel <;> simp
  | cons b bands ih =>
    rw [length_cons] at hfuel
    obtain ⟨fuel, rfl⟩ : ∃ f, fuel = f + 1 := ⟨fuel - 1, by omega⟩
    have hpos := length_pos_of_ne_nil (h.nonempty b mem_cons_self)
    obtain ⟨hcross, htops⟩ := pairwise_cons.1 h.tops
    have hsep : Separate bands :=
      ⟨fun c hc => h.nonempty c (mem_cons_of_mem _ hc), fun c hc => h.row c (mem_cons_of_mem _ hc), htops⟩
    have hbox : boxAt (A ++ b ++ bands.flatten) A.length = b[0] := boxAt_append (j := 0) hpos
    generalize hy : (b[0]).y1 = y at *
    have hend := bandEnd_append (A := A) (fun p hp => (h.row b mem_cons_self p hp _ (getElem_mem _)).trans hy)
      (fun p hp => by
        obtain ⟨c, hc, hpc⟩ := mem_flatten.1 hp
        rw [← hy]
        exact (hcross c hc _ (getElem_mem _) p hpc).symm) (le_refl b.length)
    rw [Nat.sub_self, Nat.add_zero] at hend
    have hrest : (A ++ b ++ bands.flatten).length - A.length = b.length + bands.flatten.length := by
      rw [length_append, length_append]
      omega
    rw [flatten_cons, ← append_assoc]
    unfold boxesLeftward
    rw [if_pos (by rw [length_append, length_append]; omega), hbox, hy, hrest, hend]
    dsimp only
    rw [Nat.add_sub_cancel_left, map_boxAt, ← length_append, ih hsep (by omega), map_cons, flatten_cons]

/-! ## The order of the pixels -/

/-- The bands from top to bottom or from bottom to top, and the boxes of each from left to right or from right to left. -/
def order (bands : List Region) (upward leftward : Bool) : Region :=
  ((if upward then bands.reverse else bands).map fun b => if leftward then b.reverse else b).flatten

/-- A region of one box has one order. -/
theorem order_single (h : InBands bands) (hone : bands.flatten.length ≤ 1) (upward leftward : Bool) :
    order bands upward leftward = bands.flatten := by
  cases bands with
  | nil => cases upward <;> rfl
  | cons b bands =>
    obtain ⟨p, b, rfl⟩ := exists_cons_of_ne_nil (h.nonempty b mem_cons_self)
    rw [flatten_cons, length_append, length_cons] at hone
    obtain rfl : b = [] := eq_nil_of_length_eq_zero (by omega)
    have hnil : bands.flatten = [] := eq_nil_of_length_eq_zero (by omega)
    obtain rfl : bands = [] := by
      rw [eq_nil_iff_forall_not_mem]
      intro c hc
      exact h.nonempty c (mem_cons_of_mem _ hc) (flatten_eq_nil_iff.1 hnil c hc)
    cases upward <;> cases leftward <;> rfl

theorem mem_order {upward leftward : Bool} : p ∈ order bands upward leftward ↔ p ∈ bands.flatten := by
  have hreverse : (∃ b : Region, b.reverse ∈ bands ∧ p ∈ b) ↔ ∃ b ∈ bands, p ∈ b := by
    constructor
    · rintro ⟨b, hb, hp⟩
      exact ⟨_, hb, mem_reverse.2 hp⟩
    · rintro ⟨b, hb, hp⟩
      exact ⟨b.reverse, b.reverse_reverse.symm ▸ hb, mem_reverse.2 hp⟩
  unfold order
  cases upward <;> cases leftward <;> simp [hreverse]

theorem mem_span {lo hi : Int16} {backward : Bool} {i : ℤ} : i ∈ span lo hi backward ↔ lo.toInt ≤ i ∧ i < hi.toInt := by
  have hiff : (∃ k : ℕ, k < (hi.toInt - lo.toInt).toNat ∧ lo.toInt + (k : ℤ) = i) ↔ lo.toInt ≤ i ∧ i < hi.toInt := by
    constructor
    · rintro ⟨k, hk, rfl⟩
      omega
    · rintro ⟨hlo, hhi⟩
      exact ⟨(i - lo.toInt).toNat, by omega, by omega⟩
  unfold span
  cases backward <;> simpa using hiff

theorem span_ordered (lo hi : Int16) (backward : Bool) :
    (span lo hi backward).Pairwise fun i k => if backward then k < i else i < k := by
  have hup : ((range (hi.toInt - lo.toInt).toNat).map fun i : ℕ => lo.toInt + i).Pairwise (· < ·) := by
    rw [pairwise_map]
    exact pairwise_lt_range.imp fun h => by omega
  cases backward
  · exact hup
  · exact pairwise_reverse.2 hup

theorem mem_boxPixels {reverse upsidedown : Bool} {q : ℤ × ℤ} : q ∈ boxPixels reverse upsidedown p ↔ q ∈ p.points := by
  unfold boxPixels
  rw [mem_flatMap]
  constructor
  · rintro ⟨y, hy, hq⟩
    obtain ⟨x, hx, rfl⟩ := mem_map.1 hq
    have hx := mem_span.1 hx
    have hy := mem_span.1 hy
    exact ⟨hx.1, hx.2, hy⟩
  · rintro ⟨hx, hx', hy⟩
    exact ⟨q.2, mem_span.2 hy, mem_map.2 ⟨q.1, mem_span.2 ⟨hx, hx'⟩, rfl⟩⟩

variable {dx dy : ℤ}

/-- The walk over one box. -/
theorem boxPixels_unspoilt (p : BoxRec) (dx dy : ℤ) :
    Unspoilt (displaced dx dy) (boxPixels (decide (dx < 0) && decide (dy ≤ 0)) (decide (dy < 0)) p) := by
  unfold Unspoilt boxPixels
  rw [pairwise_flatMap]
  constructor
  · intro y _
    rw [pairwise_map]
    refine (span_ordered _ _ _).imp ?_
    intro i k hik heq
    obtain ⟨hx, hy⟩ := Prod.mk.injEq .. ▸ heq
    have hdy : dy = 0 := by omega
    by_cases hdx : dx < 0
    · rw [if_pos (by simp [hdx, hdy])] at hik
      omega
    · rw [if_neg (by simp [hdx])] at hik
      omega
  · refine (span_ordered _ _ _).imp ?_
    intro y y' hyy q hq q' hq' heq
    obtain ⟨x, -, rfl⟩ := mem_map.1 hq
    obtain ⟨x', -, rfl⟩ := mem_map.1 hq'
    obtain ⟨-, hy⟩ := Prod.mk.injEq .. ▸ heq
    by_cases hdy : dy < 0
    · rw [if_pos (by simpa using hdy)] at hyy
      omega
    · rw [if_neg (by simpa using hdy)] at hyy
      omega

/-- **No pixel is written before it is read.** -/
theorem order_unspoilt (h : InBands bands) (dx dy : ℤ) :
    Unspoilt (displaced dx dy) ((order bands (decide (dy < 0)) (decide (dx < 0))).flatMap
      (boxPixels (decide (dx < 0) && decide (dy ≤ 0)) (decide (dy < 0)))) := by
  unfold Unspoilt order
  rw [pairwise_flatMap, pairwise_flatten]
  refine ⟨fun p _ => boxPixels_unspoilt p dx dy, ?_, ?_⟩
  · -- two boxes of a band
    intro c hc
    obtain ⟨b, hb, rfl⟩ := mem_map.1 hc
    have hb' : b ∈ bands := by
      revert hb
      cases decide (dy < 0) <;> simp
    have hacross := h.across b hb'
    by_cases hdx : dx < 0
    · rw [if_pos (by simpa using hdx), pairwise_reverse]
      refine hacross.imp ?_
      intro p q hlt x hx x' hx' heq
      rw [mem_boxPixels, BoxRec.mem_points] at hx hx'
      have hfst : x.1 = x'.1 + dx := congrArg Prod.fst heq
      omega
    · rw [if_neg (by simpa using hdx)]
      refine hacross.imp ?_
      intro p q hlt x hx x' hx' heq
      rw [mem_boxPixels, BoxRec.mem_points] at hx hx'
      have hfst : x.1 = x'.1 + dx := congrArg Prod.fst heq
      omega
  · -- boxes of two bands
    rw [pairwise_map]
    have hmem : ∀ {b : Region} {p : BoxRec}, p ∈ (if decide (dx < 0) then b.reverse else b) → p ∈ b := by
      intro b p hp
      revert hp
      cases decide (dx < 0) <;> simp
    by_cases hdy : dy < 0
    · rw [if_pos (by simpa using hdy), pairwise_reverse]
      refine h.down.imp ?_
      intro b c hdown p hp q hq x hx x' hx' heq
      have hle := hdown q (hmem hq) p (hmem hp)
      rw [mem_boxPixels, BoxRec.mem_points] at hx hx'
      have hsnd : x.2 = x'.2 + dy := congrArg Prod.snd heq
      omega
    · rw [if_neg (by simpa using hdy)]
      refine h.down.imp ?_
      intro b c hdown p hp q hq x hx x' hx' heq
      have hle := hdown p (hmem hp) q (hmem hq)
      rw [mem_boxPixels, BoxRec.mem_points] at hx hx'
      have hsnd : x.2 = x'.2 + dy := congrArg Prod.snd heq
      omega

/-! ## The result -/

theorem Separate.length_le (h : Separate bands) : bands.length ≤ bands.flatten.length := by
  have hpos := h.nonempty
  clear h
  induction bands with
  | nil => exact le_refl _
  | cons b bands ih =>
    obtain ⟨hb, hbands⟩ := forall_mem_cons.1 hpos
    have := length_pos_of_ne_nil hb
    have := ih hbands
    rw [flatten_cons, length_append, length_cons]
    omega

/-- **The boxes that `copyProc` is given.** -/
theorem walks_eq (h : InBands bands) (upward leftward : Bool) {n : ℕ} (hn : bands.flatten.length = n) :
    (if leftward ∧ n > 1 then boxesLeftward (if upward ∧ n > 1 then bandsUpward bands.flatten n n else bands.flatten) n 0
      else if upward ∧ n > 1 then bandsUpward bands.flatten n n else bands.flatten) = order bands upward leftward := by
  have hlen := hn ▸ h.separate.length_le
  by_cases hmany : n > 1
  · -- after the first walk
    have hup : (if upward ∧ n > 1 then bandsUpward bands.flatten n n else bands.flatten) =
        (if upward then bands.reverse else bands).flatten := by
      cases upward
      · rfl
      · have hwalk := bandsUpward_flatten (C := []) h.separate hlen
        rw [append_nil, hn] at hwalk
        rw [if_pos ⟨rfl, hmany⟩, hwalk]
        rfl
    have hsep : Separate (if upward then bands.reverse else bands) := by
      cases upward
      · exact h.separate
      · exact h.separate.reverse
    have hlen' : (if upward then bands.reverse else bands).length ≤ n := by
      cases upward
      · exact hlen
      · exact length_reverse.trans_le hlen
    rw [hup]
    unfold order
    cases leftward
    · simp
    · rw [if_pos ⟨rfl, hmany⟩]
      exact boxesLeftward_flatten (A := []) hsep hlen'
  · rw [if_neg fun h => hmany h.2, if_neg fun h => hmany h.2, order_single h (by omega)]

/-- **Copying in place is right**: every point of the region gets what its source had before, and no other point changes. Without memory
for the boxes in the order that is needed nothing is copied. -/
theorem miCopyRegion_eq {V : Type*} (pDrawable : Drawable) (pDstRegion : Region) (h : YXBanded pDstRegion) (dx dy : ℤ)
    (calloc1 calloc2 : Bool) (m : ℤ × ℤ → V) :
    let result := miCopyRegion pDrawable pDrawable pDstRegion dx dy calloc1 calloc2 (copyBoxes dx dy) m
    if pDstRegion.length > 1 ∧ ((dy < 0 ∧ ¬calloc1) ∨ (dx < 0 ∧ ¬calloc2)) then result = m
    else ∀ q, (q ∈ pDstRegion.points → result q = m (q.1 + dx, q.2 + dy)) ∧ (q ∉ pDstRegion.points → result q = m q) := by
  obtain ⟨bands, hb, rfl⟩ := h.exists_bands
  intro result
  have hresult : result = miCopyRegion pDrawable pDrawable bands.flatten dx dy calloc1 calloc2 (copyBoxes dx dy) m := rfl
  unfold miCopyRegion at hresult
  dsimp only at hresult
  rw [decide_eq_true (rfl : pDrawable = pDrawable), Bool.true_or, Bool.true_and, Bool.true_and, walks_eq hb _ _ rfl] at hresult
  split
  next hfail =>
    obtain ⟨hmany, hfail⟩ := hfail
    by_cases hfirst : dy < 0 ∧ ¬calloc1
    · rw [if_pos ⟨decide_eq_true hfirst.1, hmany, hfirst.2⟩] at hresult
      exact hresult
    · have hsecond := hfail.resolve_left hfirst
      rw [if_neg fun h => hfirst ⟨of_decide_eq_true h.1, h.2.2⟩, if_pos ⟨decide_eq_true hsecond.1, hmany, hsecond.2⟩] at hresult
      exact hresult
  next hfail =>
    rw [if_neg fun h => hfail ⟨h.2.1, .inl ⟨of_decide_eq_true h.1, h.2.2⟩⟩,
      if_neg fun h => hfail ⟨h.2.1, .inr ⟨of_decide_eq_true h.1, h.2.2⟩⟩] at hresult
    unfold copyBoxes at hresult
    rw [copyEach_eq (order_unspoilt hb dx dy)] at hresult
    intro q
    have hmem : (q ∈ (order bands (decide (dy < 0)) (decide (dx < 0))).flatMap
        (boxPixels (decide (dx < 0) && decide (dy ≤ 0)) (decide (dy < 0)))) ↔ q ∈ Region.points bands.flatten := by
      rw [mem_flatMap]
      refine exists_congr fun p => ?_
      rw [mem_order, mem_boxPixels]
    rw [hresult]
    dsimp only
    constructor
    · intro hq
      rw [if_pos (hmem.2 hq)]
      rfl
    · intro hq
      rw [if_neg (hq ∘ hmem.1)]

/-- Two bands that overlap their source, copied down and to the right. -/
theorem miCopyRegion_eq_example :
    let reg : Region := [⟨0, 0, 2, 1⟩, ⟨3, 0, 5, 1⟩, ⟨1, 1, 4, 3⟩]
    let d : Drawable := ⟨1, false⟩
    YXBanded reg ∧ ∀ q, q ∈ reg.points →
      miCopyRegion d d reg (-1) (-1) true true (copyBoxes (-1) (-1)) (fun q => q) q = (q.1 + -1, q.2 + -1) := by
  intro reg d
  have hvalid : Region.Valid reg := by decide
  have h : YXBanded reg := ⟨hvalid, by decide⟩
  have hcopy := miCopyRegion_eq d reg h (-1) (-1) true true (fun q => q)
  exact ⟨h, fun q hq => (hcopy q).1 hq⟩

end Xenia.Mi
