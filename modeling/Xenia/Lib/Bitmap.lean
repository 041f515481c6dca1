import Xenia.Lib.Bits

/-!
# Bit by bit over words

A bitmap is a function from addresses to words of 32 bits; its bits have addresses too. `mapBits` is an operation that works bit by bit,
and two such operations are one (`mapBits_mapBits`). `pieces` is the loop that covers a range with the ends and the copies of a pattern;
when its body works bit by bit, the loop does, with the place in the pattern taken modulo its size (`pieces_mapBits`, and `pieces_pieces_mapBits` for rectangles).
`spread` doubles the beginning of a word until it fills it (`getLsbD_spread`).
-/

namespace Xenia.Lib

open List BitVec

abbrev Words := ℤ → BitVec 32

def Words.store (m : Words) (a : ℤ) (v : BitVec 32) : Words := fun i => if i = a then v else m i

namespace Bitmap

def bit (m : Words) (A : ℤ) : Bool := (m (A / 32)).getLsbD (A % 32).toNat

theorem ext {m m' : Words} (h : ∀ A, bit m A = bit m' A) : m = m' := by
  funext a
  apply eq_of_getLsbD_eq
  intro k hk
  have hbit := h (32 * a + k)
  unfold bit at hbit
  have hdiv : (32 * a + (k : ℤ)) / 32 = a := by omega
  have hmod : ((32 * a + (k : ℤ)) % 32).toNat = k := by omega
  rwa [hdiv, hmod] at hbit

theorem bit_store (m : Words) (a : ℤ) (v : BitVec 32) (A : ℤ) :
    bit (m.store a v) A = if A / 32 = a then v.getLsbD (A % 32).toNat else bit m A := by
  unfold bit Words.store
  split <;> rfl

def mapBits (f : ℤ → Bool → Bool) (m : Words) : Words := fun a => ofBits 32 fun k => f (32 * a + k) ((m a).getLsbD k)

variable {f g : ℤ → Bool → Bool} {m : Words}

theorem bit_mapBits (f : ℤ → Bool → Bool) (m : Words) (A : ℤ) : bit (mapBits f m) A = f A (bit m A) := by
  unfold bit mapBits
  rw [getLsbD_ofBits _ (by omega)]
  have haddr : 32 * (A / 32) + ((A % 32).toNat : ℤ) = A := by omega
  rw [haddr]

theorem eq_mapBits {m' : Words} (h : ∀ A, bit m' A = f A (bit m A)) : m' = mapBits f m := by
  apply ext
  intro A
  rw [h, bit_mapBits]

theorem mapBits_mapBits : mapBits g (mapBits f m) = mapBits (fun A b => g A (f A b)) m := by
  apply eq_mapBits
  intro A
  rw [bit_mapBits, bit_mapBits]

theorem mapBits_congr (h : ∀ A b, f A b = g A b) : mapBits f m = mapBits g m := by
  apply eq_mapBits
  intro A
  rw [bit_mapBits, h]

theorem mapBits_id (h : ∀ A b, f A b = b) : mapBits f m = m := by
  apply ext
  intro A
  rw [bit_mapBits, h]

/-- Operations on disjoint parts, one after the other, are one on all of them. -/
theorem foldl_mapBits {f : ℤ → Bool → Bool} {β : Type} {P : β → ℤ → Prop} [∀ x A, Decidable (P x A)] {l : List β}
    (hl : l.Pairwise fun x y => ∀ A, ¬ (P x A ∧ P y A)) (m : Words) :
    l.foldl (fun m x => mapBits (fun A b => if P x A then f A b else b) m) m =
      mapBits (fun A b => if ∃ x ∈ l, P x A then f A b else b) m := by
  induction l generalizing m with
  | nil =>
    symm
    apply mapBits_id
    intro A b
    rw [if_neg (by simp)]
  | cons x rest ih =>
    rw [pairwise_cons] at hl
    rw [foldl_cons, ih hl.2, mapBits_mapBits]
    apply mapBits_congr
    intro A b
    by_cases hx : P x A
    · have hrest : ¬ ∃ y ∈ rest, P y A := by
        rintro ⟨y, hy, hyA⟩
        exact hl.1 y hy A ⟨hx, hyA⟩
      rw [if_pos hx, if_neg hrest, if_pos ⟨x, mem_cons_self, hx⟩]
    · rw [if_neg hx]
      apply if_congr _ rfl rfl
      constructor
      · rintro ⟨y, hy, hyA⟩
        exact ⟨y, mem_cons_of_mem x hy, hyA⟩
      · rintro ⟨y, hy, hyA⟩
        rcases mem_cons.1 hy with rfl | hrest
        · exact absurd hyA hx
        · exact ⟨y, hrest, hyA⟩

/-! ## Covering a range with a pattern -/

/-- `while (rest) { w = (size - phase) * unit; if (w > rest) w = rest; rest -= w; body; at += w; phase = 0; }` -/
def pieces {M : Type} (size unit : ℤ) (body : ℤ → ℤ → ℤ → M → M) : ℕ → ℤ → ℤ → ℤ → M → M
  | 0, _, _, _, m => m
  | fuel + 1, phase, place, rest, m =>
    if rest = 0 then m
    else
      let w := min ((size - phase) * unit) rest
      pieces size unit body fuel 0 (place + w) (rest - w) (body phase place w m)

variable {size unit phase rest : ℤ} {c : ℤ → ℤ} {G : ℤ → ℤ → Bool → Bool} {body : ℤ → ℤ → ℤ → Words → Words} {fuel : ℕ}

/-- **Covering a range piece by piece**: `c` is the coordinate along the range, `G` what happens at a place of the pattern. -/
theorem pieces_mapBits (place : ℤ) (hunit : 0 < unit)
    (hbody : ∀ phase place w m, 0 ≤ phase → phase < size → w ≤ (size - phase) * unit →
      body phase place w m =
        mapBits (fun A b => if place ≤ c A ∧ c A < place + w then G A (phase * unit + (c A - place)) b else b) m)
    (hphase : 0 ≤ phase) (hsize : phase < size) (hrest : 0 ≤ rest) (hfuel : rest ≤ fuel) :
    pieces size unit body fuel phase place rest m =
      mapBits (fun A b =>
        if place ≤ c A ∧ c A < place + rest then G A ((phase * unit + (c A - place)) % (size * unit)) b else b) m := by
  induction fuel generalizing phase place rest m with
  | zero =>
    have hzero : rest = 0 := by omega
    symm
    apply mapBits_id
    intro A b
    rw [if_neg (by omega)]
  | succ fuel ih =>
    unfold pieces
    by_cases hzero : rest = 0
    · subst hzero
      symm
      apply mapBits_id
      intro A b
      rw [if_neg (by omega)]
    · rw [if_neg hzero]
      dsimp only
      have hroom : 0 < (size - phase) * unit := mul_pos (by omega) hunit
      have hoff : 0 ≤ phase * unit := mul_nonneg hphase (by omega)
      have hsub : (size - phase) * unit = size * unit - phase * unit := sub_mul _ _ _
      generalize hw : min ((size - phase) * unit) rest = w
      rw [hbody _ _ _ _ hphase hsize (by omega), ih _ (le_refl 0) (by omega) (by omega) (by omega), mapBits_mapBits]
      apply mapBits_congr
      intro A b
      rw [Int.zero_mul, Int.zero_add]
      generalize hu : phase * unit = u at *
      generalize hT : size * unit = T at *
      by_cases hfirst : place ≤ c A ∧ c A < place + w
      · rw [if_pos hfirst, if_neg (by omega), if_pos (by omega), Int.emod_eq_of_lt (by omega) (by omega)]
      · rw [if_neg hfirst]
        by_cases hlater : place + w ≤ c A ∧ c A < place + w + (rest - w)
        · have hwrap : u + (c A - place) = c A - (place + w) + T := by omega
          rw [if_pos hlater, if_pos (by omega), hwrap, Int.add_emod_right]
        · rw [if_neg hlater, if_neg (by omega)]

/-- **Covering a rectangle** strip by strip, and each strip piece by piece: `r` and `c` are the coordinates. -/
theorem pieces_pieces_mapBits {sizeY phaseY restY : ℤ} {r : ℤ → ℤ} {G : ℤ → ℤ → ℤ → Bool → Bool}
    {blt : ℤ → ℤ → ℤ → ℤ → ℤ → ℤ → Words → Words} {fuelY : ℕ} (placeY place : ℤ) (hunit : 0 < unit)
    (hblt : ∀ v y h u x w m, blt v y h u x w m =
      mapBits (fun A b => if x ≤ c A ∧ c A < x + w then
        if y ≤ r A ∧ r A < y + h then G A (v + (r A - y)) (u * unit + (c A - x)) b else b else b) m)
    (hphaseY : 0 ≤ phaseY) (hsizeY : phaseY < sizeY) (hrestY : 0 ≤ restY) (hfuelY : restY ≤ fuelY)
    (hphase : 0 ≤ phase) (hsize : phase < size) (hrest : 0 ≤ rest) (hfuel : rest ≤ fuel) :
    pieces sizeY 1 (fun v y h m => pieces size unit (fun u x w m => blt v y h u x w m) fuel phase place rest m) fuelY phaseY placeY
        restY m =
      mapBits (fun A b => if (placeY ≤ r A ∧ r A < placeY + restY) ∧ place ≤ c A ∧ c A < place + rest then
        G A ((phaseY + (r A - placeY)) % sizeY) ((phase * unit + (c A - place)) % (size * unit)) b else b) m := by
  have hstrip : ∀ v y h (m : Words), 0 ≤ v → v < sizeY → h ≤ (sizeY - v) * 1 →
      pieces size unit (fun u x w m => blt v y h u x w m) fuel phase place rest m =
        mapBits (fun A b => if y ≤ r A ∧ r A < y + h then
          if place ≤ c A ∧ c A < place + rest then
            G A (v * 1 + (r A - y)) ((phase * unit + (c A - place)) % (size * unit)) b else b else b) m := by
    intro v y h m _ _ _
    have hpieces := pieces_mapBits (c := c) (G := fun A u b => if y ≤ r A ∧ r A < y + h then G A (v + (r A - y)) u b else b) (m := m)
      place hunit (fun u x w m _ _ _ => hblt v y h u x w m) hphase hsize hrest hfuel
    rw [hpieces]
    apply mapBits_congr
    intro A b
    rw [mul_one]
    by_cases hx : place ≤ c A ∧ c A < place + rest
    · rw [if_pos hx, if_pos hx]
    · rw [if_neg hx, if_neg hx, ite_self]
  have hpieces := pieces_mapBits (c := r)
    (G := fun A v b => if place ≤ c A ∧ c A < place + rest then G A v ((phase * unit + (c A - place)) % (size * unit)) b else b)
    (m := m) placeY one_pos hstrip hphaseY hsizeY hrestY hfuelY
  rw [hpieces]
  apply mapBits_congr
  intro A b
  rw [mul_one, mul_one]
  by_cases hy : placeY ≤ r A ∧ r A < placeY + restY
  · by_cases hx : place ≤ c A ∧ c A < place + rest
    · rw [if_pos hy, if_pos hx, if_pos ⟨hy, hx⟩]
    · rw [if_pos hy, if_neg hx, if_neg fun h => hx h.2]
  · rw [if_neg hy, if_neg fun h => hy h.1]

/-! ## Doubling the beginning of a word -/

/-- `while (w < 32) { b |= b << w; w <<= 1; }`; a width of zero does not occur. -/
def spread (b : BitVec 32) (w : ℕ) : BitVec 32 :=
  if 0 < w ∧ w < 32 then spread (b ||| b <<< w) (w * 2) else b
termination_by 32 - w

/-- The loop keeps the word periodic as far as it has come. -/
theorem getLsbD_spread_of {b b₀ : BitVec 32} {w w₀ k : ℕ} (hdvd : w₀ ∣ w) (hw : 0 < w)
    (hb : ∀ k < 32, b.getLsbD k = (decide (k < w) && b₀.getLsbD (k % w₀))) (hk : k < 32) :
    (spread b w).getLsbD k = b₀.getLsbD (k % w₀) := by
  fun_induction spread b w with
  | case1 b w hlt ih =>
    apply ih (Dvd.dvd.mul_right hdvd 2) (by omega)
    intro j hj
    rw [getLsbD_or, getLsbD_shiftLeft, hb j hj, decide_eq_true hj]
    by_cases hjw : j < w
    · simp [hjw, Nat.lt_of_lt_of_le hjw (Nat.le_mul_of_pos_right w (by decide : 0 < 2))]
    · have hmod : (j - w) % w₀ = j % w₀ := by
        obtain ⟨q, rfl⟩ := hdvd
        conv_rhs => rw [← Nat.sub_add_cancel (Nat.le_of_not_lt hjw)]
        rw [Nat.add_mul_mod_self_left]
      rw [hb (j - w) (by omega), hmod]
      have hiff : decide (j - w < w) = decide (j < w * 2) := by
        apply decide_eq_decide.2
        omega
      simp [hjw, hiff]
  | case2 b w hge =>
    rw [hb k hk, decide_eq_true (by omega), Bool.true_and]

/-- **The word is periodic** when only its beginning had bits. -/
theorem getLsbD_spread {b : BitVec 32} {w k : ℕ} (hw : 0 < w) (hb : ∀ k < 32, w ≤ k → b.getLsbD k = false) (hk : k < 32) :
    (spread b w).getLsbD k = b.getLsbD (k % w) := by
  apply getLsbD_spread_of (dvd_refl w) hw
  · intro j hj
    by_cases hjw : j < w
    · rw [decide_eq_true hjw, Bool.true_and, Nat.mod_eq_of_lt hjw]
    · rw [decide_eq_false hjw]
      exact hb j hj (Nat.le_of_not_lt hjw)
  · exact hk

end Bitmap

end Xenia.Lib
