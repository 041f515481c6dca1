import Xenia.Xext.RecordSet
import Xenia.Lib.Bits

/-!
# The members of a RECORD set

`bitVector_represents`, `intervalList_represents`: in the memory whose size was computed for it, each
representation has the numbers of the intervals as its members, and the iteration lists the maximal
runs of them.

* `recordSet_represents`: so does the set that is created, and both representations agree.
* `recordSet_overflows`: the size is an `int`, which a list of 2^30 intervals does not fit.
-/

namespace Xenia.Xext.Record

open Xenia.Lib List

/-! ### What a set has to be -/

/-- The numbers of an interval. -/
def RecordSetInterval.bounds (i : RecordSetInterval) : ℕ × ℕ := (i.first.toNat, i.last.toNat)

/-- The union of the intervals. -/
def Members (pIntervals : List RecordSetInterval) : ℕ → Prop := Covered (pIntervals.map RecordSetInterval.bounds)

structure Represents (set : RecordSetRec) (pIntervals : List RecordSetInterval) : Prop where
  member : ∀ pm < 65536, ∃ b, RecordIsMemberOfSet set pm = .ok b ∧ (b = true ↔ Members pIntervals pm)
  runs : ∃ rs : List RecordSetInterval, ListsRuns (Members pIntervals) (rs.map RecordSetInterval.bounds) ∧
    ∃ n, ∀ fuel, n ≤ fuel → iterate set fuel 0 = .ok rs

variable {pIntervals : List RecordSetInterval} {ws ws' : List Word} {w : Word} {maxMember : ℤ} {i j k m p : ℕ} {v : Bool}

theorem members_iff : Members pIntervals m ↔ ∃ i ∈ pIntervals, i.first.toNat ≤ m ∧ m ≤ i.last.toNat := by
  unfold Members Covered RecordSetInterval.bounds
  simp

/-! ### Words -/

/-- The bit `m` of the vector. -/
def bit (ws : List Word) (m : ℕ) : Bool := (ws[m / BITS_PER_LONG]?.getD 0).getLsbD (m % BITS_PER_LONG)

theorem mod_lt_bits (m : ℕ) : m % BITS_PER_LONG < 64 := Nat.mod_lt _ (by decide)

theorem test_iff (hk : k < 64) : w &&& 1#64 <<< k ≠ 0 ↔ w.getLsbD k = true := by
  exact and_twoPow_ne_zero_iff w hk

theorem bit_of_length_le (h : ws.length * BITS_PER_LONG ≤ m) : bit ws m = false := by
  have hle : ws.length ≤ m / BITS_PER_LONG := (Nat.le_div_iff_mul_le (by decide)).2 h
  unfold bit
  rw [List.getElem?_eq_none hle]
  exact BitVec.getLsbD_zero

/-- The bits of the word `i`. -/
theorem bit_word (hw : ws[i]? = some w) (hk : k < 64) : bit ws (i * BITS_PER_LONG + k) = w.getLsbD k := by
  unfold bit BITS_PER_LONG
  rw [show (i * 64 + k) / 64 = i by omega, show (i * 64 + k) % 64 = k by omega, hw]
  rfl

theorem setBit_spec (h : j < ws.length * BITS_PER_LONG) :
    ∃ ws', setBit ws j = .ok ws' ∧ ws'.length = ws.length ∧ ∀ m, bit ws' m = (bit ws m || decide (m = j)) := by
  have hlt : j / BITS_PER_LONG < ws.length := (Nat.div_lt_iff_lt_mul (by decide)).2 h
  unfold setBit
  rw [List.getElem?_eq_getElem hlt, deref_some, ok_bind]
  refine ⟨_, rfl, length_set, fun m => ?_⟩
  unfold bit
  by_cases hword : m / BITS_PER_LONG = j / BITS_PER_LONG
  · rw [hword, List.getElem?_set_self hlt, List.getElem?_eq_getElem hlt, Option.getD_some,
      BitVec.getLsbD_or, ← BitVec.twoPow_eq, BitVec.getLsbD_twoPow]
    congr 1
    have hiff : j % BITS_PER_LONG = m % BITS_PER_LONG ↔ m = j := by
      unfold BITS_PER_LONG at *
      omega
    rw [decide_eq_true (mod_lt_bits j), Bool.true_and, decide_eq_decide]
    exact hiff
  · rw [List.getElem?_set_ne (Ne.symm hword), decide_eq_false, Bool.or_false]
    rintro rfl
    exact hword rfl

theorem setBits_spec : ∀ (count j : ℕ) (ws : List Word), j + count ≤ ws.length * BITS_PER_LONG →
    ∃ ws', setBits j count ws = .ok ws' ∧ ws'.length = ws.length ∧
      ∀ m, bit ws' m = (bit ws m || decide (j ≤ m ∧ m < j + count)) := by
  intro count
  induction count with
  | zero =>
    intro j ws _
    refine ⟨ws, rfl, rfl, fun m => ?_⟩
    rw [decide_eq_false (by omega), Bool.or_false]
  | succ count ih =>
    intro j ws h
    obtain ⟨ws₁, hrun₁, hlen₁, hbit₁⟩ := setBit_spec (show j < ws.length * BITS_PER_LONG by omega)
    obtain ⟨ws₂, hrun₂, hlen₂, hbit₂⟩ := ih (j + 1) ws₁ (by rw [hlen₁]; omega)
    unfold setBits
    rw [hrun₁]
    refine ⟨ws₂, hrun₂, hlen₂.trans hlen₁, fun m => ?_⟩
    rw [hbit₂, hbit₁, Bool.or_assoc, ← Bool.decide_or]
    congr 2
    exact propext (by omega)

theorem fillBits_spec : ∀ (pIntervals : List RecordSetInterval) (ws : List Word),
    (∀ i ∈ pIntervals, i.first ≤ i.last ∧ i.last.toNat < ws.length * BITS_PER_LONG) →
    ∃ ws', fillBits pIntervals ws = .ok ws' ∧ ws'.length = ws.length ∧
      ∀ m, bit ws' m = true ↔ bit ws m = true ∨ Members pIntervals m := by
  intro pIntervals
  induction pIntervals with
  | nil =>
    intro ws _
    exact ⟨ws, rfl, rfl, fun m => by simp [members_iff]⟩
  | cons i rest ih =>
    intro ws h
    obtain ⟨hle, hlt⟩ := h i mem_cons_self
    have hle := UInt16.le_iff_toNat_le.1 hle
    obtain ⟨ws₁, hrun₁, hlen₁, hbit₁⟩ := setBits_spec (i.last.toNat + 1 - i.first.toNat) i.first.toNat ws (by omega)
    obtain ⟨ws₂, hrun₂, hlen₂, hbit₂⟩ := ih ws₁ fun j hj => by
      rw [hlen₁]
      exact h j (mem_cons_of_mem _ hj)
    unfold fillBits
    rw [hrun₁]
    refine ⟨ws₂, hrun₂, hlen₂.trans hlen₁, fun m => ?_⟩
    rw [hbit₂, hbit₁, Bool.or_eq_true, decide_eq_true_eq, members_iff, members_iff, exists_mem_cons_iff, or_assoc]
    have hiff : (i.first.toNat ≤ m ∧ m < i.first.toNat + (i.last.toNat + 1 - i.first.toNat)) ↔
        i.first.toNat ≤ m ∧ m ≤ i.last.toNat := by omega
    rw [hiff]

/-! ### Looking for a bit -/

/-- The bits from `k` on, in the mask of the useful ones. -/
theorem getLsbD_useful (hk : k < 64) (hj : j < 64) : (~~~(1#64 <<< k - 1)).getLsbD j = decide (k ≤ j) := by
  have hnat : (1#64 <<< k - 1).toNat = 2 ^ k - 1 := by
    rw [← BitVec.twoPow_eq, BitVec.toNat_sub_of_le]
    · rw [BitVec.toNat_twoPow_of_lt hk]
      rfl
    · rw [BitVec.le_def, BitVec.toNat_twoPow_of_lt hk]
      exact Nat.one_le_two_pow
  rw [BitVec.getLsbD_not, BitVec.getLsbD, hnat, Nat.testBit_two_pow_sub_one, decide_eq_true hj, Bool.true_and,
    ← decide_not, decide_eq_decide]
  omega

theorem getLsbD_skipvalOf (v : Bool) (hj : j < 64) : (skipvalOf v).getLsbD j = !v := by
  unfold skipvalOf
  cases v with
  | true => rw [if_pos rfl, BitVec.ofNat_eq_ofNat, BitVec.getLsbD_zero, Bool.not_true]
  | false => rw [if_neg Bool.false_ne_true, BitVec.getLsbD_not, BitVec.ofNat_eq_ofNat, BitVec.getLsbD_zero, decide_eq_true hj,
      Bool.true_and]

/-- No useful bit of the word is the one that is looked for. -/
theorem useful_eq_iff (hk : k < 64) : w &&& ~~~(1#64 <<< k - 1) = skipvalOf v &&& ~~~(1#64 <<< k - 1) ↔
    ∀ j, k ≤ j → j < 64 → w.getLsbD j ≠ v := by
  rw [BitVec.eq_of_getLsbD_eq_iff]
  constructor
  · intro h j hle hlt heq
    have := h j hlt
    rw [BitVec.getLsbD_and, BitVec.getLsbD_and, getLsbD_useful hk hlt, decide_eq_true hle, Bool.and_true, Bool.and_true,
      getLsbD_skipvalOf v hlt, heq] at this
    exact Bool.not_ne_self v this.symm
  · intro h j hlt
    rw [BitVec.getLsbD_and, BitVec.getLsbD_and, getLsbD_useful hk hlt, getLsbD_skipvalOf v hlt]
    by_cases hle : k ≤ j
    · rw [Bool.eq_not_of_ne (h j hle hlt)]
    · rw [decide_eq_false hle, Bool.and_false, Bool.and_false]

theorem skipval_iff : w = skipvalOf v ↔ ∀ j < 64, w.getLsbD j ≠ v := by
  rw [BitVec.eq_of_getLsbD_eq_iff]
  refine forall₂_congr fun j hj => ?_
  rw [getLsbD_skipvalOf v hj]
  cases w.getLsbD j <;> cases v <;> simp

/-- The loop stops at the first word that has the bit, or behind the last word. -/
theorem skipWords_spec (hlast : ∀ i, i < ws.length ↔ ((i * BITS_PER_LONG : ℕ) : ℤ) ≤ maxMember) :
    ∀ (rest : List Word) (i : ℕ), rest = ws.drop i → i ≤ ws.length →
      ∃ i', skipWords maxMember (skipvalOf v) rest i = .ok i' ∧ i ≤ i' ∧ i' ≤ ws.length ∧
        (∀ x, i ≤ x → x < i' → ∀ j < 64, bit ws (x * BITS_PER_LONG + j) ≠ v) ∧
        (i' < ws.length → ∃ j < 64, bit ws (i' * BITS_PER_LONG + j) = v) := by
  intro rest
  induction rest with
  | nil =>
    intro i hrest hi
    have hlen : ws.length ≤ i := drop_eq_nil_iff.1 hrest.symm
    unfold skipWords
    rw [if_neg (fun hle => absurd ((hlast i).2 hle) (by omega))]
    exact ⟨i, rfl, le_rfl, hi, fun x hx hlt => absurd hlt (by omega), fun hlt => absurd hlt (by omega)⟩
  | cons w rest ih =>
    intro i hrest hi
    have hlt : i < ws.length := by
      by_contra hge
      rw [drop_eq_nil_of_le (by omega)] at hrest
      cases hrest
    rw [drop_eq_getElem_cons hlt] at hrest
    obtain ⟨hw, hrest⟩ := List.cons.inj hrest
    have hword : ws[i]? = some w := by rw [hw, List.getElem?_eq_getElem hlt]
    unfold skipWords
    by_cases hskip : w = (skipvalOf v)
    · rw [if_pos ⟨(hlast i).1 hlt, hskip⟩]
      obtain ⟨i', hrun, hle, hend, hall, hstop⟩ := ih (i + 1) hrest hlt
      refine ⟨i', hrun, by omega, hend, fun x hx hxi j hj => ?_, hstop⟩
      rcases Nat.eq_or_lt_of_le hx with rfl | hgt
      · rw [bit_word hword hj]
        exact skipval_iff.1 hskip j hj
      · exact hall x hgt hxi j hj
    · rw [if_neg (fun h => hskip h.2)]
      refine ⟨i, rfl, le_rfl, hi, fun x hx hxi => absurd hxi (by omega), fun _ => ?_⟩
      rw [skipval_iff] at hskip
      push Not at hskip
      obtain ⟨j, hj, hv⟩ := hskip
      exact ⟨j, hj, by rw [bit_word hword hj]; exact hv⟩

theorem walkBits_spec : ∀ (left k : ℕ), k + left = 64 →
    k ≤ walkBits w v left k ∧ walkBits w v left k ≤ 64 ∧ (∀ j, k ≤ j → j < walkBits w v left k → w.getLsbD j ≠ v) ∧
      (walkBits w v left k < 64 → w.getLsbD (walkBits w v left k) = v) := by
  intro left
  induction left with
  | zero =>
    intro k hk
    unfold walkBits
    exact ⟨le_rfl, by omega, fun j hle hlt => absurd hlt (by omega), fun hlt => absurd hlt (by omega)⟩
  | succ left ih =>
    intro k hk
    have htest : (!decide (w &&& 1#64 <<< k ≠ 0)) = v ↔ w.getLsbD k ≠ v := by
      rw [show decide (w &&& 1#64 <<< k ≠ 0) = w.getLsbD k by
        rw [Bool.eq_iff_iff, decide_eq_true_eq]
        exact test_iff (by omega)]
      cases w.getLsbD k <;> cases v <;> simp
    unfold walkBits
    split_ifs with hwalk
    · obtain ⟨hle, hend, hall, hstop⟩ := ih (k + 1) (by omega)
      refine ⟨by omega, hend, fun j hj hlt => ?_, hstop⟩
      rcases Nat.eq_or_lt_of_le hj with rfl | hgt
      · exact htest.1 hwalk
      · exact hall j hgt hlt
    · refine ⟨le_rfl, by omega, fun j hle hlt => absurd hlt (by omega), fun _ => ?_⟩
      by_contra hne
      exact hwalk (htest.2 hne)

/-- What is found from `p` on: the next bit `v`, or nothing. -/
def Found (ws : List Word) (v : Bool) (p : ℕ) : Option ℕ → Prop
  | none => ∀ m, p ≤ m → m < ws.length * BITS_PER_LONG → bit ws m ≠ v
  | some b => p ≤ b ∧ b < ws.length * BITS_PER_LONG ∧ bit ws b = v ∧ ∀ m, p ≤ m → m < b → bit ws m ≠ v

section

variable (hlast : ∀ i, i < ws.length ↔ ((i * BITS_PER_LONG : ℕ) : ℤ) ≤ maxMember)
include hlast

/-- In a word that has the bit, the walk finds it. -/
theorem findInWord_spec (hbefore : ∀ m, p ≤ m → m < i * BITS_PER_LONG → bit ws m ≠ v) (hi : i ≤ ws.length)
    (hhas : i < ws.length → ∃ j < 64, p ≤ i * BITS_PER_LONG + j ∧ bit ws (i * BITS_PER_LONG + j) = v) :
    ∃ r, findInWord maxMember ws p v i = .ok r ∧ Found ws v p r := by
  unfold findInWord
  by_cases hlt : i < ws.length
  · have hword : ws[i]? = some ws[i] := List.getElem?_eq_getElem hlt
    rw [if_neg (not_lt.2 ((hlast i).1 hlt)), hword, deref_some, ok_bind]
    obtain ⟨k, hk⟩ : ∃ k, k = if i * BITS_PER_LONG < p then p - i * BITS_PER_LONG else 0 := ⟨_, rfl⟩
    have hk64 : k ≤ 64 := by
      rw [hk]
      split_ifs <;> omega
    have hkp : ∀ j, p ≤ i * BITS_PER_LONG + j ↔ k ≤ j := by
      rw [hk]
      split_ifs <;> omega
    rw [← hk]
    obtain ⟨hle, hend, hall, hstop⟩ := walkBits_spec (w := ws[i]) (v := v) (BITS_PER_LONG - k) k
      (by unfold BITS_PER_LONG; omega)
    obtain ⟨r, hr⟩ : ∃ r, r = walkBits ws[i] v (BITS_PER_LONG - k) k := ⟨_, rfl⟩
    rw [← hr] at hle hend hall hstop ⊢
    have hr64 : r < 64 := by
      by_contra hge
      obtain ⟨j, hj, hpj, hv⟩ := hhas hlt
      rw [bit_word hword hj] at hv
      exact hall j ((hkp j).1 hpj) (by omega) hv
    refine ⟨_, rfl, (hkp r).2 hle, ?_, ?_, fun m hm hmr => ?_⟩
    · unfold BITS_PER_LONG
      omega
    · rw [bit_word hword hr64]
      exact hstop hr64
    · rcases Nat.lt_or_ge m (i * BITS_PER_LONG) with hlow | hhigh
      · exact hbefore m hm hlow
      · obtain ⟨j, rfl⟩ := Nat.exists_eq_add_of_le hhigh
        have hj : j < r := by omega
        rw [bit_word hword (by omega)]
        exact hall j ((hkp j).1 hm) hj
  · rw [if_pos (not_le.1 fun hle => hlt ((hlast i).2 hle))]
    refine ⟨none, rfl, fun m hm hmlt => hbefore m hm ?_⟩
    rwa [show i = ws.length by omega]

theorem BitVectorFindBit_spec (p : ℕ) (v : Bool) :
    ∃ r, BitVectorFindBit maxMember ws p v = .ok r ∧ Found ws v p r := by
  unfold BitVectorFindBit
  dsimp only
  have hdiv : p / BITS_PER_LONG * BITS_PER_LONG ≤ p ∧ p < (p / BITS_PER_LONG + 1) * BITS_PER_LONG := by
    unfold BITS_PER_LONG
    omega
  by_cases hlt : p / BITS_PER_LONG < ws.length
  · have hword : ws[p / BITS_PER_LONG]? = some ws[p / BITS_PER_LONG] := List.getElem?_eq_getElem hlt
    rw [if_neg (not_lt.2 ((hlast _).1 hlt)), hword, deref_some, ok_bind]
    have hk : p - p / BITS_PER_LONG * BITS_PER_LONG < 64 := by
      unfold BITS_PER_LONG at *
      omega
    have huseful := useful_eq_iff (w := ws[p / BITS_PER_LONG]) (v := v) hk
    split_ifs with hskip
    · -- the rest of the first word does not have the bit
      obtain ⟨i, hrun, hle, hend, hall, hhas⟩ := skipWords_spec (v := v) hlast (ws.drop (p / BITS_PER_LONG + 1))
        (p / BITS_PER_LONG + 1) rfl hlt
      rw [hrun]
      refine findInWord_spec hlast (fun m hm hmi => ?_) hend fun hi => ?_
      · have hm' : m = m / BITS_PER_LONG * BITS_PER_LONG + m % BITS_PER_LONG := by
          rw [Nat.mul_comm]
          exact (Nat.div_add_mod m BITS_PER_LONG).symm
        rw [hm']
        rcases Nat.lt_or_ge (p / BITS_PER_LONG) (m / BITS_PER_LONG) with hgt | hge
        · refine hall _ hgt ?_ _ (mod_lt_bits m)
          exact (Nat.div_lt_iff_lt_mul (by decide)).2 hmi
        · have heq : m / BITS_PER_LONG = p / BITS_PER_LONG := by
            unfold BITS_PER_LONG at *
            omega
          rw [heq, bit_word hword (mod_lt_bits m)]
          refine huseful.1 hskip _ ?_ (mod_lt_bits m)
          unfold BITS_PER_LONG at *
          omega
      · obtain ⟨j, hj, hv⟩ := hhas hi
        exact ⟨j, hj, by unfold BITS_PER_LONG at *; omega, hv⟩
    · rw [huseful] at hskip
      push Not at hskip
      obtain ⟨j, hj, hj64, hv⟩ := hskip
      refine findInWord_spec hlast (fun m hm hmi => absurd hmi (by omega)) hlt.le fun _ => ?_
      exact ⟨j, hj64, by omega, by rw [bit_word hword hj64]; exact hv⟩
  · rw [if_pos (not_le.1 fun hle => hlt ((hlast _).2 hle))]
    refine ⟨none, rfl, fun m hm hmlt => absurd hmlt ?_⟩
    unfold BITS_PER_LONG at *
    omega

end

/-! ### The bit vector -/

/-- A bit vector whose last word has the greatest member. -/
structure BitsOk (maxMember : ℤ) (ws : List Word) : Prop where
  last : ∀ i, i < ws.length ↔ ((i * BITS_PER_LONG : ℕ) : ℤ) ≤ maxMember
  le : ∀ m, bit ws m = true → (m : ℤ) ≤ maxMember
  lt : maxMember < 65536

section

variable (h : BitsOk maxMember ws)
include h

theorem BitsOk.length_le : ws.length * BITS_PER_LONG ≤ 65536 := by
  by_contra hgt
  have hlt := h.lt
  have := (h.last 1024).1 (by unfold BITS_PER_LONG at *; omega)
  unfold BITS_PER_LONG at this
  omega

theorem BitVectorIsMemberOfSet_spec (m : ℕ) : BitVectorIsMemberOfSet maxMember ws m = .ok (bit ws m) := by
  unfold BitVectorIsMemberOfSet
  split_ifs with hgt
  · have hbit : bit ws m = false := by
      by_contra hne
      exact absurd (h.le m (Bool.eq_true_of_not_eq_false hne)) (not_le.2 hgt)
    rw [hbit]
    rfl
  · have hlt : m / BITS_PER_LONG < ws.length := by
      rw [h.last]
      unfold BITS_PER_LONG
      omega
    rw [List.getElem?_eq_getElem hlt, deref_some]
    refine congrArg Except.ok ?_
    rw [Bool.eq_iff_iff, decide_eq_true_eq, test_iff (mod_lt_bits m)]
    unfold bit
    rw [List.getElem?_eq_getElem hlt]
    rfl

/-- One call of the iterator: the next run, or the end. -/
theorem BitVectorIterateSet_spec (p : ℕ) :
    (BitVectorIterateSet maxMember ws p = .ok none ∧ ∀ m, p ≤ m → ¬ bit ws m = true) ∨
      ∃ i : RecordSetInterval, BitVectorIterateSet maxMember ws p = .ok (some (i.last.toNat + 1, i)) ∧
        p ≤ i.first.toNat ∧ (∀ m, p ≤ m → m < i.first.toNat → ¬ bit ws m = true) ∧ i.first.toNat ≤ i.last.toNat ∧
        (∀ m, i.first.toNat ≤ m → m ≤ i.last.toNat → bit ws m = true) ∧ ¬ bit ws (i.last.toNat + 1) = true ∧
        i.last.toNat < ws.length * BITS_PER_LONG := by
  have hlen := h.length_le
  obtain ⟨r, hrun, hfound⟩ := BitVectorFindBit_spec h.last p true
  unfold BitVectorIterateSet
  rw [hrun, ok_bind]
  cases r with
  | none =>
    refine .inl ⟨rfl, fun m hm hbit => ?_⟩
    rcases Nat.lt_or_ge m (ws.length * BITS_PER_LONG) with hlt | hge
    · exact hfound m hm hlt hbit
    · rw [bit_of_length_le hge] at hbit
      exact Bool.false_ne_true hbit
  | some b =>
    obtain ⟨hpb, hb, hbit, hskip⟩ := hfound
    obtain ⟨r', hrun', hfound'⟩ := BitVectorFindBit_spec h.last b false
    have hfirst : (UInt16.ofNat b).toNat = b := UInt16.toNat_ofNat_of_lt' (by show b < 65536; omega)
    -- the run ends before the next clear bit, or with the last word
    obtain ⟨e, he, hbe, hrunS, hend, helt⟩ : ∃ e : ℕ, (match r' with
        | none => UInt16.ofInt maxMember
        | some b => UInt16.ofNat (b - 1)).toNat = e ∧ b ≤ e ∧ (∀ m, b ≤ m → m ≤ e → bit ws m = true) ∧
        ¬ bit ws (e + 1) = true ∧ e < ws.length * BITS_PER_LONG := by
      cases r' with
      | none =>
        have hall : ∀ m, b ≤ m → m < ws.length * BITS_PER_LONG → bit ws m = true := fun m hm hlt => by
          simpa using hfound' m hm hlt
        have hlastbit := h.le _ (hall (ws.length * BITS_PER_LONG - 1) (by omega) (by omega))
        have hmax : maxMember = ((ws.length * BITS_PER_LONG - 1 : ℕ) : ℤ) := by
          have hnot := (not_congr (h.last ws.length)).1 (lt_irrefl _)
          omega
        refine ⟨ws.length * BITS_PER_LONG - 1, ?_, by omega, fun m hm hle => hall m hm (by omega), ?_, by omega⟩
        · dsimp only
          have hnat : (maxMember % 2 ^ 16).toNat = ws.length * BITS_PER_LONG - 1 := by omega
          unfold UInt16.ofInt
          rw [hnat]
          exact UInt16.toNat_ofNat_of_lt' (by show _ < 65536; omega)
        · rw [bit_of_length_le (by omega)]
          exact Bool.false_ne_true
      | some c =>
        obtain ⟨hbc, hc, hclear, hset⟩ := hfound'
        have hne : b ≠ c := by
          rintro rfl
          rw [hbit] at hclear
          cases hclear
        refine ⟨c - 1, ?_, by omega, fun m hm hle => by simpa using hset m hm (by omega), ?_, by omega⟩
        · exact UInt16.toNat_ofNat_of_lt' (by show _ < 65536; omega)
        · rw [show c - 1 + 1 = c by omega, hclear]
          exact Bool.false_ne_true
    dsimp only
    rw [hrun']
    refine .inr ⟨⟨UInt16.ofNat b, match r' with
        | none => UInt16.ofInt maxMember
        | some b => UInt16.ofNat (b - 1)⟩, rfl, ?_⟩
    rw [he, hfirst]
    exact ⟨hpb, fun m hm hlt => hskip m hm hlt, hbe, hrunS, hend, helt⟩

theorem iterate_bitVector (address : ℕ) (own : Bool) : ∀ (n p : ℕ), ws.length * BITS_PER_LONG ≤ p + n →
    ∃ rs : List RecordSetInterval, (∀ fuel, n + 1 ≤ fuel → iterate (.bitVector address own maxMember ws) fuel p = .ok rs) ∧
      RunsFrom (fun m => bit ws m = true) p (rs.map RecordSetInterval.bounds) := by
  intro n
  induction n with
  | zero =>
    intro p hp
    refine ⟨[], fun fuel hfuel => ?_, .done fun m hm => by rw [bit_of_length_le (by omega)]; exact Bool.false_ne_true⟩
    obtain ⟨fuel, rfl⟩ := Nat.exists_eq_add_of_le' hfuel
    rcases BitVectorIterateSet_spec h p with ⟨hrun, -⟩ | ⟨i, -, hpi, -, hle, -, -, hlt⟩
    · unfold iterate RecordIterateSet
      dsimp only
      rw [hrun]
      rfl
    · omega
  | succ n ih =>
    intro p hp
    rcases BitVectorIterateSet_spec h p with ⟨hrun, hnone⟩ | ⟨i, hrun, hpi, hskip, hle, hrunS, hend, -⟩
    · refine ⟨[], fun fuel hfuel => ?_, .done hnone⟩
      obtain ⟨fuel, rfl⟩ := Nat.exists_eq_add_of_le' hfuel
      unfold iterate RecordIterateSet
      dsimp only
      rw [hrun]
      rfl
    · obtain ⟨rs, hrest, hruns⟩ := ih (i.last.toNat + 1) (by omega)
      refine ⟨i :: rs, fun fuel hfuel => ?_, .next hpi hskip hle hrunS hend hruns⟩
      obtain ⟨fuel, rfl⟩ := Nat.exists_eq_add_of_le' hfuel
      show iterate _ (fuel + n + 1 + 1) p = _
      unfold iterate RecordIterateSet
      dsimp only
      rw [hrun, ok_bind]
      dsimp only
      rw [hrest _ (by omega)]
      rfl

theorem represents_of_bitsOk (hbits : ∀ m, bit ws m = true ↔ Members pIntervals m) (address : ℕ) (own : Bool) :
    Represents (.bitVector address own maxMember ws) pIntervals := by
  refine ⟨fun pm _ => ⟨bit ws pm, BitVectorIsMemberOfSet_spec h pm, hbits pm⟩, ?_⟩
  obtain ⟨rs, hrun, hruns⟩ := iterate_bitVector h address own (ws.length * BITS_PER_LONG) 0 (by omega)
  exact ⟨rs, hruns.listsRuns.congr hbits, _, hrun⟩

end

/-! ### The size of the bit vector -/

theorem maxMember_foldl (pIntervals : List RecordSetInterval) : ∀ max : ℤ,
    let max' := pIntervals.foldl (fun maxMember i => if maxMember < i.last.toNat then i.last.toNat else maxMember) max
    max ≤ max' ∧ (∀ i ∈ pIntervals, (i.last.toNat : ℤ) ≤ max') ∧ (max' = max ∨ ∃ i ∈ pIntervals, max' = i.last.toNat) := by
  induction pIntervals with
  | nil => exact fun max => ⟨le_rfl, (fun i hi => nomatch hi), .inl rfl⟩
  | cons i rest ih =>
    intro max
    obtain ⟨hle, hall, hor⟩ := ih (if max < i.last.toNat then i.last.toNat else max)
    dsimp only [foldl_cons]
    have hstep : max ≤ (if max < (i.last.toNat : ℤ) then (i.last.toNat : ℤ) else max) ∧
        (i.last.toNat : ℤ) ≤ (if max < (i.last.toNat : ℤ) then (i.last.toNat : ℤ) else max) := by
      split_ifs <;> omega
    refine ⟨hstep.1.trans hle, fun j hj => ?_, ?_⟩
    · rcases mem_cons.1 hj with rfl | hj
      · exact hstep.2.trans hle
      · exact hall j hj
    · rcases hor with heq | ⟨j, hj, heq⟩
      · rw [heq]
        split_ifs
        · exact .inr ⟨i, mem_cons_self, rfl⟩
        · exact .inl rfl
      · exact .inr ⟨j, mem_cons_of_mem _ hj, heq⟩

theorem maxMember_spec (pIntervals : List RecordSetInterval) :
    -1 ≤ maxMemberInInterval pIntervals ∧ maxMemberInInterval pIntervals < 65536 ∧
      ∀ i ∈ pIntervals, (i.last.toNat : ℤ) ≤ maxMemberInInterval pIntervals := by
  obtain ⟨hle, hall, hor⟩ := maxMember_foldl pIntervals (-1)
  refine ⟨hle, ?_, hall⟩
  rcases hor with heq | ⟨i, -, heq⟩
  · exact lt_of_eq_of_lt heq (by decide)
  · have := i.last.toNat_lt
    exact lt_of_eq_of_lt heq (by omega)

/-- The size of a bit vector fits, and is that of the words up to the greatest member. -/
theorem bitVector_size (hlo : -1 ≤ maxMember) (hhi : maxMember < 65536) :
    ∃ n : ℕ, BitVectorSetMemoryRequirements maxMember = 16 + n * 8 ∧ n ≤ 1024 ∧
      ∀ i : ℕ, i < n ↔ ((i * BITS_PER_LONG : ℕ) : ℤ) ≤ maxMember := by
  refine ⟨((maxMember + 64) / 64).toNat, ?_, by omega, fun i => by unfold BITS_PER_LONG; omega⟩
  unfold BitVectorSetMemoryRequirements headerSize BITS_PER_LONG
  have hsize : toSize (maxMember + (64 : ℕ)) / 64 = ((maxMember + 64) / 64).toNat := by
    unfold toSize
    omega
  have hwords : wrapInt ((maxMember + 64) / 64).toNat = ((maxMember + 64) / 64).toNat := wrapInt_eq (by omega) (by omega)
  rw [hsize, hwords, wrapInt_eq (by omega) (by omega)]

/-- **The bit vector** in memory of its size, or in its own. -/
theorem bitVector_represents (hvalid : ∀ i ∈ pIntervals, i.first ≤ i.last) (pMem : Option CallerMem) (allocs : Allocs) :
    ∃ set, BitVectorCreateSet pIntervals pMem (Representation.bitVector.memoryRequirements pIntervals) allocs = .ok set ∧
      (setAddress pMem allocs ≠ none → set ≠ none) ∧ ∀ s, set = some s → Represents s pIntervals := by
  obtain ⟨hlo, hhi, hmax⟩ := maxMember_spec pIntervals
  obtain ⟨n, hsize, -, hlast⟩ := bitVector_size hlo hhi
  unfold BitVectorCreateSet Representation.memoryRequirements
  cases hmem : setAddress pMem allocs with
  | none => exact ⟨none, rfl, fun h => absurd rfl h, fun s hs => nomatch hs⟩
  | some a =>
    dsimp only
    rw [hsize, show ((16 + (n : ℤ) * 8 - headerSize) / 8).toNat = n by unfold headerSize; omega]
    have hzero : ∀ m, bit (List.replicate n (0 : Word)) m = false := by
      intro m
      unfold bit
      rw [List.getElem?_replicate]
      split_ifs <;> exact BitVec.getLsbD_zero
    obtain ⟨ws, hrun, hlen, hbits⟩ := fillBits_spec pIntervals (List.replicate n 0) fun i hi => by
      refine ⟨hvalid i hi, ?_⟩
      rw [length_replicate]
      by_contra hge
      have hle := hmax i hi
      have := (hlast n).not.1 (lt_irrefl n)
      omega
    rw [hrun]
    rw [length_replicate] at hlen
    have hmembers : ∀ m, bit ws m = true ↔ Members pIntervals m := by
      intro m
      rw [hbits, hzero]
      simp
    refine ⟨_, rfl, fun _ => Option.some_ne_none _, ?_⟩
    rintro s ⟨⟩
    refine represents_of_bitsOk ⟨fun i => by rw [hlen]; exact hlast i, fun m hm => ?_, hhi⟩ hmembers a.1 a.2
    obtain ⟨i, hi, -, hle⟩ := members_iff.1 ((hmembers m).1 hm)
    have := hmax i hi
    omega

/-! ### Sorting and merging -/

theorem insertInterval_perm (i : RecordSetInterval) (l : List RecordSetInterval) : (insertInterval i l).Perm (i :: l) := by
  induction l with
  | nil => exact .refl _
  | cons j rest ih =>
    unfold insertInterval
    split_ifs
    · exact .refl _
    · exact (ih.cons j).trans (.swap i j rest)

theorem insertInterval_sorted {i : RecordSetInterval} {l : List RecordSetInterval}
    (h : l.Pairwise fun a b => a.first.toNat ≤ b.first.toNat) :
    (insertInterval i l).Pairwise fun a b => a.first.toNat ≤ b.first.toNat := by
  induction l with
  | nil => exact pairwise_singleton _ _
  | cons j rest ih =>
    obtain ⟨hj, hrest⟩ := pairwise_cons.1 h
    unfold insertInterval
    split_ifs with hlt
    · have hlt := UInt16.lt_iff_toNat_lt.1 hlt
      refine pairwise_cons.2 ⟨fun k hk => ?_, h⟩
      rcases mem_cons.1 hk with rfl | hk
      · exact hlt.le
      · exact hlt.le.trans (hj k hk)
    · have hle := not_lt.1 fun hlt' => hlt (UInt16.lt_iff_toNat_lt.2 hlt')
      refine pairwise_cons.2 ⟨fun k hk => ?_, ih hrest⟩
      rcases mem_cons.1 ((insertInterval_perm i rest).mem_iff.1 hk) with rfl | hk
      · exact hle
      · exact hj k hk

theorem sortIntervals_foldl (pIntervals : List RecordSetInterval) : ∀ stack : List RecordSetInterval,
    stack.Pairwise (fun a b => a.first.toNat ≤ b.first.toNat) →
    (pIntervals.foldl (fun stack i => insertInterval i stack) stack).Perm (pIntervals ++ stack) ∧
      (pIntervals.foldl (fun stack i => insertInterval i stack) stack).Pairwise fun a b => a.first.toNat ≤ b.first.toNat := by
  induction pIntervals with
  | nil => exact fun stack h => ⟨.refl _, h⟩
  | cons i rest ih =>
    intro stack h
    obtain ⟨hperm, hsorted⟩ := ih (insertInterval i stack) (insertInterval_sorted h)
    refine ⟨hperm.trans ?_, hsorted⟩
    exact ((insertInterval_perm i stack).append_left rest).trans perm_middle

theorem sortIntervals_spec (pIntervals : List RecordSetInterval) : (sortIntervals pIntervals).Perm pIntervals ∧
    (sortIntervals pIntervals).Pairwise fun a b => a.first.toNat ≤ b.first.toNat := by
  obtain ⟨hperm, hsorted⟩ := sortIntervals_foldl pIntervals [] .nil
  exact ⟨hperm.trans (by rw [append_nil]), hsorted⟩

theorem toNat_max (a b : CARD16) : (max a b).toNat = max a.toNat b.toNat := by
  show (if a ≤ b then b else a).toNat = _
  have hle := UInt16.le_iff_toNat_le (a := a) (b := b)
  split_ifs with h
  · exact (max_eq_right (hle.1 h)).symm
  · exact (max_eq_left (le_of_not_ge fun h' => h (hle.2 h'))).symm

theorem members_cons {i : RecordSetInterval} :
    Members (i :: pIntervals) m ↔ (i.first.toNat ≤ m ∧ m ≤ i.last.toNat) ∨ Members pIntervals m := by
  rw [members_iff, members_iff, exists_mem_cons_iff]

/-- Merging keeps the union, starts where the first interval does, and leaves gaps. -/
theorem mergeFrom_spec (rest : List RecordSetInterval) : ∀ i : RecordSetInterval, i.first ≤ i.last →
    (∀ j ∈ rest, j.first ≤ j.last ∧ i.first.toNat ≤ j.first.toNat) →
    rest.Pairwise (fun a b => a.first.toNat ≤ b.first.toNat) →
    Separated ((mergeFrom i rest).map RecordSetInterval.bounds) ∧
      (∀ j ∈ mergeFrom i rest, i.first.toNat ≤ j.first.toNat) ∧ (mergeFrom i rest).length ≤ rest.length + 1 ∧
      ∀ m, Members (mergeFrom i rest) m ↔ Members (i :: rest) m := by
  induction rest with
  | nil =>
    intro i hi _ _
    refine ⟨⟨?_, pairwise_singleton _ _⟩, ?_, le_rfl, fun m => Iff.rfl⟩
    · intro r hr
      rw [mem_singleton.1 hr]
      exact UInt16.le_iff_toNat_le.1 hi
    · intro j hj
      rw [mem_singleton.1 hj]
  | cons j rest ih =>
    intro i hi hvalid hsorted
    obtain ⟨hj, hij⟩ := hvalid j mem_cons_self
    obtain ⟨hjrest, hrest⟩ := pairwise_cons.1 hsorted
    have hinat := UInt16.le_iff_toNat_le.1 hi
    unfold mergeFrom
    split_ifs with hgap
    · -- disjoint: everything that follows starts behind the gap
      obtain ⟨⟨hle, hgaps⟩, hfrom, hlen, hmembers⟩ := ih j hj
        (fun k hk => ⟨(hvalid k (mem_cons_of_mem _ hk)).1, hjrest k hk⟩) hrest
      refine ⟨⟨?_, ?_⟩, ?_, by simpa using hlen, fun m => ?_⟩
      · intro r hr
        rcases mem_cons.1 hr with rfl | hr
        · exact hinat
        · exact hle r hr
      · refine pairwise_cons.2 ⟨fun r hr => ?_, hgaps⟩
        obtain ⟨k, hk, rfl⟩ := mem_map.1 hr
        exact lt_of_lt_of_le hgap (hfrom k hk)
      · intro k hk
        rcases mem_cons.1 hk with rfl | hk
        · exact le_rfl
        · exact hij.trans (hfrom k hk)
      · rw [members_cons, hmembers]
        exact members_cons.symm
    · have hmax : i.first ≤ max i.last j.last := by
        rw [UInt16.le_iff_toNat_le, toNat_max]
        exact hinat.trans (le_max_left _ _)
      obtain ⟨hsep, hfrom, hlen, hmembers⟩ := ih { i with last := max i.last j.last } hmax
        (fun k hk => ⟨(hvalid k (mem_cons_of_mem _ hk)).1, (hvalid k (mem_cons_of_mem _ hk)).2⟩) hrest
      refine ⟨hsep, hfrom, by simp only [length_cons]; omega, fun m => ?_⟩
      rw [hmembers, members_cons, members_cons, members_cons, ← or_assoc]
      refine or_congr_left ?_
      dsimp only
      rw [toNat_max]
      omega

theorem mergeIntervals_spec (hvalid : ∀ i ∈ pIntervals, i.first ≤ i.last) :
    Separated ((mergeIntervals (sortIntervals pIntervals)).map RecordSetInterval.bounds) ∧
      (mergeIntervals (sortIntervals pIntervals)).length ≤ pIntervals.length ∧
      (pIntervals ≠ [] → mergeIntervals (sortIntervals pIntervals) ≠ []) ∧
      ∀ m, Members (mergeIntervals (sortIntervals pIntervals)) m ↔ Members pIntervals m := by
  obtain ⟨hperm, hsorted⟩ := sortIntervals_spec pIntervals
  have hsame : ∀ m, Members (sortIntervals pIntervals) m ↔ Members pIntervals m := fun m => by
    rw [members_iff, members_iff]
    simp only [hperm.mem_iff]
  cases hsort : sortIntervals pIntervals with
  | nil =>
    rw [hsort] at hperm hsame
    refine ⟨⟨(fun r hr => nomatch hr), .nil⟩, Nat.zero_le _, fun hne => absurd hperm.symm.eq_nil hne, hsame⟩
  | cons i rest =>
    rw [hsort] at hperm hsorted hsame
    obtain ⟨hi, hrest⟩ := pairwise_cons.1 hsorted
    have hall : ∀ j ∈ i :: rest, j.first ≤ j.last := fun j hj => hvalid j (hperm.mem_iff.1 hj)
    obtain ⟨hsep, hfrom, hlen, hmembers⟩ := mergeFrom_spec rest i (hall i mem_cons_self)
      (fun j hj => ⟨hall j (mem_cons_of_mem _ hj), hi j hj⟩) hrest
    refine ⟨hsep, ?_, fun _ heq => ?_, fun m => (hmembers m).trans (hsame m)⟩
    · rw [← hperm.length_eq]
      exact hlen
    · have hfirst : Members (mergeFrom i rest) i.first.toNat := by
        rw [hmembers, members_iff]
        exact ⟨i, mem_cons_self, le_rfl, UInt16.le_iff_toNat_le.1 (hall i mem_cons_self)⟩
      rw [show mergeFrom i rest = [] from heq] at hfirst
      obtain ⟨j, hj, -⟩ := hfirst
      exact nomatch hj

/-! ### The interval list -/

/-- The cells of a list, and what the intervals in them leave room for. -/
structure CellsOk (n : ℕ) (cells : List RecordSetInterval) : Prop where
  le : n ≤ cells.length
  sep : Separated ((cells.take n).map RecordSetInterval.bounds)

variable {n : ℕ} {cells : List RecordSetInterval}

theorem CellsOk.get (h : CellsOk n cells) (hk : k < n) :
    ∃ i, cells[k]? = some i ∧ i ∈ cells.take n ∧ i.first.toNat ≤ i.last.toNat := by
  have hlt : k < cells.length := lt_of_lt_of_le hk h.le
  have hmem : cells[k] ∈ cells.take n := by
    rw [mem_take_iff_getElem]
    exact ⟨k, by omega, rfl⟩
  exact ⟨cells[k], List.getElem?_eq_getElem hlt, hmem, h.sep.le _ (mem_map_of_mem hmem)⟩

/-- The intervals are in order. -/
theorem CellsOk.lt (h : CellsOk n cells) {i j : RecordSetInterval} {k' : ℕ}
    (hi : cells[k]? = some i) (hj : cells[k']? = some j) (hlt : k < k') (hk : k' < n) : i.last.toNat + 1 < j.first.toNat := by
  have hgaps := h.sep.gaps
  rw [pairwise_map, pairwise_iff_getElem] at hgaps
  have hlen : (cells.take n).length = n := length_take_of_le h.le
  have := hgaps k k' (by omega) (by omega) hlt
  rw [getElem_take, getElem_take] at this
  obtain ⟨_, rfl⟩ := List.getElem?_eq_some_iff.1 hi
  obtain ⟨_, rfl⟩ := List.getElem?_eq_some_iff.1 hj
  exact this

theorem readCell_eq {i : RecordSetInterval} (hi : cells[k]? = some i) :
    readCell cells k = .ok i := by
  unfold readCell
  rw [Int.toNat_natCast, hi]
  rfl

/-- **The binary search** finds the interval of a member: it is between `lo` and `hi` all the time. -/
theorem searchIntervals_spec (h : CellsOk n cells) (pm : ℕ) :
    ∀ (fuel : ℕ) (lo hi : ℤ), 0 ≤ lo → hi < n → lo ≤ hi + 1 → hi - lo + 1 < fuel →
      (∀ (k : ℕ) i, k < n → cells[k]? = some i → i.first.toNat ≤ pm → pm ≤ i.last.toNat → lo ≤ k ∧ k ≤ hi) →
      ∃ b, searchIntervals cells pm fuel lo hi = .ok b ∧ (b = true ↔ Members (cells.take n) pm) := by
  intro fuel
  induction fuel with
  | zero =>
    omega
  | succ fuel ih =>
    intro lo hi hlo hhi hend hfuel hin
    unfold searchIntervals
    split_ifs with hle
    · obtain ⟨k, hk⟩ := Int.eq_ofNat_of_zero_le (show 0 ≤ (hi + lo) / 2 by omega)
      have hkn : k < n := by omega
      obtain ⟨i, hi', hmem, hile⟩ := h.get hkn
      dsimp only
      rw [hk]
      rw [show readCell cells (k : ℤ) = .ok i from readCell_eq hi', ok_bind]
      split_ifs with hhit hbelow
      · exact ⟨true, rfl, fun _ => members_iff.2 ⟨i, hmem, hhit.1, hhit.2⟩, fun _ => rfl⟩
      · refine ih lo (k - 1) hlo (by omega) (by omega) (by omega) fun k' j hk' hj hfirst hlast => ?_
        obtain ⟨hlo', hhi'⟩ := hin k' j hk' hj hfirst hlast
        refine ⟨hlo', ?_⟩
        by_contra hge
        rcases Nat.eq_or_lt_of_le (show k ≤ k' by omega) with rfl | hgt
        · rw [hi'] at hj
          cases hj
          omega
        · have := h.lt hi' hj hgt hk'
          omega
      · refine ih (k + 1) hi (by omega) hhi (by omega) (by omega) fun k' j hk' hj hfirst hlast => ?_
        obtain ⟨hlo', hhi'⟩ := hin k' j hk' hj hfirst hlast
        refine ⟨?_, hhi'⟩
        by_contra hge
        rcases Nat.eq_or_lt_of_le (show k' ≤ k by omega) with rfl | hlt
        · rw [hi'] at hj
          cases hj
          exact hhit ⟨hfirst, hlast⟩
        · have := h.lt hj hi' hlt hkn
          omega
    · refine ⟨false, rfl, fun hf => absurd hf Bool.false_ne_true, fun hm => ?_⟩
      obtain ⟨j, hj, hfirst, hlast⟩ := members_iff.1 hm
      obtain ⟨k, hk, hjk⟩ := mem_take_iff_getElem.1 hj
      have := hin k j (by omega) (by rw [← hjk]; exact List.getElem?_eq_getElem (by omega)) hfirst hlast
      omega

/-- The iterator for the cell `k`. -/
def cellPointer (address k : ℕ) : ℕ := if k = 0 then 0 else address + 16 + 4 * k

theorem iterate_intervalList (h : CellsOk n cells) (address : ℕ) (own : Bool) :
    ∀ left k, k + left = n → ∀ fuel, left + 1 ≤ fuel →
      iterate (.intervalList address own n cells) fuel (cellPointer address k) = .ok ((cells.take n).drop k) := by
  have hoffset : ∀ k, ((((if cellPointer address k = 0 then address + 16 else cellPointer address k : ℕ) : ℤ) -
      ((address + 16 : ℕ) : ℤ)) / 4 = k) ∧
      (if cellPointer address k = 0 then address + 16 else cellPointer address k) = address + 16 + 4 * k := by
    intro k
    unfold cellPointer
    split_ifs <;> omega
  intro left
  induction left with
  | zero =>
    intro k hk fuel hfuel
    obtain ⟨fuel, rfl⟩ := Nat.exists_eq_add_of_le' hfuel
    unfold iterate RecordIterateSet IntervalListIterateSet
    dsimp only
    rw [(hoffset k).1, if_neg (by omega), drop_eq_nil_of_le (by rw [length_take]; omega)]
    rfl
  | succ left ih =>
    intro k hk fuel hfuel
    obtain ⟨fuel, rfl⟩ := Nat.exists_eq_add_of_le' hfuel
    obtain ⟨i, hi, -, -⟩ := h.get (show k < n by omega)
    have hlen : k < (cells.take n).length := by
      rw [length_take_of_le h.le]
      omega
    have hget : (cells.take n)[k] = i := by
      rw [getElem_take]
      exact (List.getElem?_eq_some_iff.1 hi).2
    have hnext : address + 16 + 4 * k + 4 = cellPointer address (k + 1) := by
      unfold cellPointer
      rw [if_neg (Nat.succ_ne_zero k)]
      omega
    unfold iterate RecordIterateSet IntervalListIterateSet
    dsimp only
    rw [(hoffset k).1, if_pos (by omega), readCell_eq hi, (hoffset k).2]
    show (do
      if address + 16 + 4 * k + 4 = 0 then (return [] : Outcome (List RecordSetInterval))
      else return i :: (← iterate _ (fuel + left + 1) (address + 16 + 4 * k + 4))) = _
    rw [hnext, ih (k + 1) (by omega) _ (by omega), drop_eq_getElem_cons hlen, hget]
    rfl

theorem represents_of_cellsOk (h : CellsOk n cells)
    (hmembers : ∀ m, Members (cells.take n) m ↔ Members pIntervals m) (address : ℕ) (own : Bool) :
    Represents (.intervalList address own n cells) pIntervals := by
  refine ⟨fun pm _ => ?_, cells.take n, h.sep.listsRuns.congr hmembers, n + 1, fun fuel hfuel => ?_⟩
  · obtain ⟨b, hrun, hb⟩ := searchIntervals_spec h pm (n + 1) 0 (n - 1) le_rfl (by omega) (by omega) (by omega)
      fun k i hk _ _ _ => by omega
    refine ⟨b, ?_, hb.trans (hmembers pm)⟩
    unfold RecordIsMemberOfSet
    dsimp only
    exact hrun
  · have := iterate_intervalList h address own n 0 (by omega) fuel hfuel
    rwa [drop_zero] at this

theorem copyIntervals_spec {stack : List RecordSetInterval} (hlen : stack.length ≤ cells.length) :
    ∃ cells', copyIntervals stack cells = .ok cells' ∧ cells'.take stack.length = stack ∧ stack.length ≤ cells'.length := by
  unfold copyIntervals
  rw [if_pos hlen]
  exact ⟨_, rfl, take_left, by rw [length_append]; omega⟩

/-- There are fewer intervals than fit into an `int` with their size. -/
def Fits (pIntervals : List RecordSetInterval) : Prop := 16 + 4 * pIntervals.length < 2 ^ 31

theorem intervalList_size (h : Fits pIntervals) : IntervalListMemoryRequirements pIntervals.length = 16 + pIntervals.length * 4 := by
  unfold IntervalListMemoryRequirements headerSize
  unfold Fits at h
  exact wrapInt_eq (by omega) (by omega)

/-- **The interval list** in memory of its size, or in its own. -/
theorem intervalList_represents (hvalid : ∀ i ∈ pIntervals, i.first ≤ i.last) (hfits : Fits pIntervals)
    (pMem : Option CallerMem) (allocs : Allocs) :
    ∃ set, IntervalListCreateSet pIntervals pMem (Representation.intervalList.memoryRequirements pIntervals) allocs = .ok set ∧
      (allocs.stackIntervals = true → setAddress pMem allocs ≠ none → set ≠ none) ∧ ∀ s, set = some s → Represents s pIntervals := by
  obtain ⟨hsep, hlen, -, hmembers⟩ := mergeIntervals_spec hvalid
  unfold IntervalListCreateSet Representation.memoryRequirements
  by_cases hno : pIntervals ≠ [] ∧ (!allocs.stackIntervals) = true
  · rw [if_pos hno]
    refine ⟨none, rfl, fun hyes => ?_, fun s hs => nomatch hs⟩
    rw [hyes] at hno
    cases hno.2
  rw [if_neg hno]
  -- wherever the cells are, there are as many as the intervals
  have hcreate : ∀ (address : ℕ) (own : Bool) (cells : List RecordSetInterval),
      (mergeIntervals (sortIntervals pIntervals)).length ≤ cells.length →
      ∃ s, (do
        let cells ← copyIntervals (mergeIntervals (sortIntervals pIntervals)) cells
        return some (.intervalList address own (mergeIntervals (sortIntervals pIntervals)).length cells) :
          Outcome (Option RecordSetRec)) = .ok (some s) ∧ Represents s pIntervals := by
    intro address own cells hroom
    obtain ⟨cells', hrun, htake, hle⟩ := copyIntervals_spec hroom
    rw [hrun]
    exact ⟨_, rfl, represents_of_cellsOk ⟨hle, by rw [htake]; exact hsep⟩ (by rw [htake]; exact hmembers) address own⟩
  rw [intervalList_size hfits]
  cases pMem with
  | some mem =>
    dsimp only
    rw [if_neg (by unfold headerSize; omega)]
    obtain ⟨s, hrun, hs⟩ := hcreate mem.address false
      ((List.range ((16 + (pIntervals.length : ℤ) * 4 - headerSize) / 4).toNat).map mem.cells) (by
        rw [length_map, length_range]
        unfold headerSize
        omega)
    refine ⟨some s, hrun, fun _ _ => Option.some_ne_none s, ?_⟩
    rintro _ ⟨⟩
    exact hs
  | none =>
    dsimp only [setAddress]
    cases hset : allocs.set with
    | none => exact ⟨none, rfl, fun _ hne => absurd rfl hne, fun s hs => nomatch hs⟩
    | some address =>
      obtain ⟨s, hrun, hs⟩ := hcreate address true
        (List.replicate (mergeIntervals (sortIntervals pIntervals)).length ⟨0, 0⟩) (by rw [length_replicate])
      refine ⟨some s, hrun, fun _ _ => Option.some_ne_none s, ?_⟩
      rintro _ ⟨⟩
      exact hs

/-! ### The set that is created -/

theorem Represents.agree {s s' : RecordSetRec} (h : Represents s pIntervals) (h' : Represents s' pIntervals) :
    (∀ pm < 65536, RecordIsMemberOfSet s pm = RecordIsMemberOfSet s' pm) ∧
      ∃ rs n, ∀ fuel, n ≤ fuel → iterate s fuel 0 = .ok rs ∧ iterate s' fuel 0 = .ok rs := by
  refine ⟨fun pm hpm => ?_, ?_⟩
  · obtain ⟨b, hb, hiff⟩ := h.member pm hpm
    obtain ⟨b', hb', hiff'⟩ := h'.member pm hpm
    rw [hb, hb', Bool.eq_iff_iff.2 (hiff.trans hiff'.symm)]
  · obtain ⟨rs, hruns, n, hn⟩ := h.runs
    obtain ⟨rs', hruns', n', hn'⟩ := h'.runs
    have hinj : Function.Injective RecordSetInterval.bounds := by
      rintro ⟨a, b⟩ ⟨c, d⟩ heq
      obtain ⟨hac, hbd⟩ := Prod.mk.inj heq
      exact congrArg₂ RecordSetInterval.mk (UInt16.toNat_inj.1 hac) (UInt16.toNat_inj.1 hbd)
    obtain rfl : rs = rs' := hinj.list_map (hruns.unique hruns')
    exact ⟨rs, max n n', fun fuel hfuel => ⟨hn fuel (by omega), hn' fuel (by omega)⟩⟩

/-- The set that is created has the numbers of the intervals, in memory of the size that is reported
for it or in its own, and it is created where there is memory. The two representations agree. -/
structure Correct (pIntervals : List RecordSetInterval) : Prop where
  created : ∀ pMem memsize allocs, ∃ set, RecordCreateSet pIntervals pMem memsize allocs = .ok set ∧
    (∀ s, set = some s → Represents s pIntervals) ∧
    ((∀ m, pMem = some m → m.address % alignment = 0 ∧ RecordSetMemoryRequirements pIntervals ≤ memsize) →
      allocs.stackIntervals = true → setAddress pMem allocs ≠ none → set ≠ none)
  agree : ∀ (r r' : Representation) pMem pMem' allocs allocs' s s',
    r.createSet pIntervals pMem (r.memoryRequirements pIntervals) allocs = .ok (some s) →
    r'.createSet pIntervals pMem' (r'.memoryRequirements pIntervals) allocs' = .ok (some s') →
    (∀ pm < 65536, RecordIsMemberOfSet s pm = RecordIsMemberOfSet s' pm) ∧
      ∃ rs n, ∀ fuel, n ≤ fuel → iterate s fuel 0 = .ok rs ∧ iterate s' fuel 0 = .ok rs

theorem createSet_represents (hvalid : ∀ i ∈ pIntervals, i.first ≤ i.last) (hfits : Fits pIntervals) (r : Representation)
    (pMem : Option CallerMem) (allocs : Allocs) :
    ∃ set, r.createSet pIntervals pMem (r.memoryRequirements pIntervals) allocs = .ok set ∧
      (allocs.stackIntervals = true → setAddress pMem allocs ≠ none → set ≠ none) ∧ ∀ s, set = some s → Represents s pIntervals := by
  cases r with
  | bitVector =>
    obtain ⟨set, hrun, hsome, hset⟩ := bitVector_represents hvalid pMem allocs
    exact ⟨set, hrun, fun _ => hsome, hset⟩
  | intervalList => exact intervalList_represents hvalid hfits pMem allocs

/-- **A RECORD set** has the numbers of its intervals as its members, whichever way it is stored. -/
theorem recordSet_represents (hvalid : ∀ i ∈ pIntervals, i.first ≤ i.last) (hfits : Fits pIntervals) : Correct pIntervals := by
  refine ⟨fun pMem memsize allocs => ?_, fun r r' pMem pMem' allocs allocs' s s' hs hs' => ?_⟩
  · obtain ⟨set, hrun, hsome, hset⟩ := createSet_represents hvalid hfits (chosen pIntervals) pMem allocs
    unfold RecordCreateSet
    cases pMem with
    | none => exact ⟨set, hrun, hset, fun _ => hsome⟩
    | some m =>
      dsimp only
      split_ifs with hno
      · refine ⟨none, rfl, (fun s hs => nomatch hs), fun hmem => ?_⟩
        obtain ⟨haligned, hsize⟩ := hmem m rfl
        rcases hno with hno | hno
        · exact absurd haligned hno
        · exact absurd hsize (not_le.2 hno)
      · exact ⟨set, hrun, hset, fun _ => hsome⟩
  · obtain ⟨set, hrun, -, hset⟩ := createSet_represents hvalid hfits r pMem allocs
    obtain ⟨set', hrun', -, hset'⟩ := createSet_represents hvalid hfits r' pMem' allocs'
    rw [hs] at hrun
    rw [hs'] at hrun'
    cases hrun
    cases hrun'
    exact (hset s rfl).agree (hset' s' rfl)

/-- Three intervals, of which two overlap. -/
theorem recordSet_represents_three : Correct [⟨300, 400⟩, ⟨3, 9⟩, ⟨1, 4⟩] :=
  recordSet_represents (by decide) (by unfold Fits; decide)

/-- 2^30 intervals, for which a size of 16 bytes is reported. -/
def manyIntervals : List RecordSetInterval := List.replicate (2 ^ 30) ⟨0, 65535⟩

/-- **The size of a long list** is not an `int`: the intervals are copied behind the end of the memory. -/
theorem recordSet_overflows : ¬ Correct manyIntervals := by
  intro h
  have hlen : manyIntervals.length = 2 ^ 30 := length_replicate
  have hmem : (⟨0, 65535⟩ : RecordSetInterval) ∈ manyIntervals := mem_replicate.2 ⟨by decide, rfl⟩
  have hvalid : ∀ i ∈ manyIntervals, i.first ≤ i.last := by
    intro i hi
    rw [(mem_replicate.1 hi).2]
    decide
  obtain ⟨hlo, hhi, hmax⟩ := maxMember_spec manyIntervals
  obtain ⟨n, hsize, -, hlast⟩ := bitVector_size hlo hhi
  have hmaxMember : 255 < maxMemberInInterval manyIntervals := lt_of_lt_of_le (by decide) (hmax _ hmem)
  have hlist : IntervalListMemoryRequirements manyIntervals.length = 16 := by
    rw [hlen]
    decide
  have hpos : 0 < n := (hlast 0).2 (by omega)
  have hchosen : chosen manyIntervals = .intervalList := by
    unfold chosen
    dsimp only
    rw [if_neg]
    omega
  obtain ⟨set, hrun, -⟩ := h.created (some ⟨0, fun _ => ⟨0, 0⟩⟩) 16 ⟨true, none⟩
  obtain ⟨-, -, hne, -⟩ := mergeIntervals_spec hvalid
  have hfault : RecordCreateSet manyIntervals (some ⟨0, fun _ => ⟨0, 0⟩⟩) 16 ⟨true, none⟩ = .error .fault := by
    unfold RecordCreateSet RecordSetMemoryRequirements
    rw [hchosen]
    dsimp only [Representation.memoryRequirements, Representation.createSet]
    rw [hlist, if_neg (by decide)]
    unfold IntervalListCreateSet copyIntervals
    dsimp only
    rw [if_neg (by simp), if_neg (by decide), if_neg]
    · rfl
    · have hpos := length_pos_iff.2 (hne (ne_nil_of_mem hmem))
      simp [headerSize]
      exact hne (ne_nil_of_mem hmem)
  rw [hfault] at hrun
  cases hrun

end Xenia.Xext.Record
