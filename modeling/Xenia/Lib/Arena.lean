import Xenia.Lib.Outcome
import Mathlib.Tactic

/-!
# Blocks of keys in an arena

An arena is a list of cells. Every key has a block in it, given by an offset and a length; cell 0
belongs to no key. `Laid` says that the blocks lie apart from each other in the cells in use. A block
is appended behind them (`Laid.append`), shortened (`Laid.shrink`), or all blocks are copied into a new
arena, one behind the other (`pack_spec`).
-/

namespace Xenia.Lib

open List Function

variable {α : Type} {cells xs : List α} {off o n i : ℕ}

/-! ### Cells -/

def slice (cells : List α) (off n : ℕ) : List α := (cells.drop off).take n

/-- The cells after `memcpy` to `off`. -/
def patch (cells : List α) (off : ℕ) (xs : List α) : List α := cells.take off ++ xs ++ cells.drop (off + xs.length)

/-- `memcpy` from the arena. -/
def peek (cells : List α) (off n : ℕ) : Outcome (List α) :=
  if n = 0 ∨ off + n ≤ cells.length then .ok (slice cells off n) else .error .fault

/-- `memcpy` into the arena. -/
def poke (cells : List α) (off : ℕ) (xs : List α) : Outcome (List α) :=
  if xs.length = 0 ∨ off + xs.length ≤ cells.length then .ok (patch cells off xs) else .error .fault

@[simp] theorem slice_zero : slice cells off 0 = [] := take_zero

@[simp] theorem patch_nil : patch cells off [] = cells := by
  unfold patch
  rw [append_nil, length_nil, add_zero, take_append_drop]

theorem peek_eq (h : off + n ≤ cells.length) : peek cells off n = .ok (slice cells off n) := if_pos (.inr h)

theorem poke_eq (h : off + xs.length ≤ cells.length) : poke cells off xs = .ok (patch cells off xs) := if_pos (.inr h)

theorem getElem?_slice : (slice cells off n)[i]? = if i < n then cells[off + i]? else none := by
  unfold slice
  rw [getElem?_take]
  split
  · rw [getElem?_drop]
  · rfl

theorem length_slice (h : off + n ≤ cells.length) : (slice cells off n).length = n := by
  unfold slice
  rw [length_take, length_drop]
  omega

theorem length_patch (h : off + xs.length ≤ cells.length) : (patch cells off xs).length = cells.length := by
  unfold patch
  simp only [length_append, length_take, length_drop]
  omega

theorem getElem?_patch (h : off ≤ cells.length) :
    (patch cells off xs)[i]? = if off ≤ i ∧ i < off + xs.length then xs[i - off]? else cells[i]? := by
  unfold patch
  have hlen : (cells.take off).length = off := by rw [length_take]; omega
  rcases lt_or_ge i off with hlt | hge
  · rw [if_neg (by omega), append_assoc, getElem?_append_left (by omega), getElem?_take, if_pos hlt]
  · rcases lt_or_ge i (off + xs.length) with hin | hout
    · rw [if_pos ⟨hge, hin⟩, append_assoc, getElem?_append_right (by omega), hlen,
        getElem?_append_left (by omega)]
    · rw [if_neg (by omega), getElem?_append_right (by rw [length_append]; omega), length_append,
        getElem?_drop]
      congr 1
      omega

section

variable (h : off + xs.length ≤ cells.length)
include h

/-- What lies apart from the write is kept. -/
theorem slice_patch (ho : o + n ≤ off ∨ off + xs.length ≤ o) :
    slice (patch cells off xs) o n = slice cells o n := by
  apply ext_getElem?
  intro i
  rw [getElem?_slice, getElem?_slice]
  by_cases hi : i < n
  · rw [if_pos hi, if_pos hi, getElem?_patch (by omega), if_neg (by omega)]
  · rw [if_neg hi, if_neg hi]

/-- What lies in the write is read back. -/
theorem slice_patch_within (hn : i + n ≤ xs.length) :
    slice (patch cells off xs) (off + i) n = slice xs i n := by
  apply ext_getElem?
  intro j
  rw [getElem?_slice, getElem?_slice]
  by_cases hj : j < n
  · rw [if_pos hj, if_pos hj, getElem?_patch (by omega), if_pos (by omega)]
    congr 1
    omega
  · rw [if_neg hj, if_neg hj]

theorem slice_patch_self : slice (patch cells off xs) off xs.length = xs := by
  have := slice_patch_within (i := 0) (n := xs.length) h (by omega)
  rw [add_zero] at this
  rw [this]
  unfold slice
  rw [drop_zero, take_length]

end

theorem slice_add (m : ℕ) : slice cells off (n + m) = slice cells off n ++ slice cells (off + n) m := by
  unfold slice
  rw [take_add, drop_drop]

/-- What a write has done that did not fault. -/
theorem poke_ok {cells' : List α} (h : poke cells off xs = .ok cells') :
    cells'.length = cells.length ∧ (xs.length = 0 ∨ off + xs.length ≤ cells.length) ∧
      ∀ i d, cells'.getD i d = if off ≤ i ∧ i < off + xs.length then xs.getD (i - off) d else cells.getD i d := by
  unfold poke at h
  split at h
  · rename_i hfits
    cases h
    rcases eq_zero_or_pos xs.length with hzero | hpos
    · rw [eq_nil_of_length_eq_zero hzero, patch_nil]
      exact ⟨rfl, .inl rfl, fun i d => (if_neg (by rw [length_nil]; omega)).symm⟩
    · have hin : off + xs.length ≤ cells.length := hfits.resolve_left (by omega)
      refine ⟨length_patch hin, .inr hin, fun i d => ?_⟩
      rw [getD_eq_getElem?_getD, getElem?_patch (by omega), apply_ite (Option.getD · d), ← getD_eq_getElem?_getD,
        ← getD_eq_getElem?_getD]
  · exact nomatch h

theorem peek_ok (h : peek cells off n = .ok xs) :
    xs.length = n ∧ ∀ i d, i < n → xs.getD i d = cells.getD (off + i) d := by
  unfold peek at h
  split at h
  · rename_i hfits
    cases h
    refine ⟨?_, fun i d hi => ?_⟩
    · rcases hfits with hzero | hin
      · rw [hzero]
        rfl
      · exact length_slice hin
    · rw [getD_eq_getElem?_getD, getElem?_slice, if_pos hi, getD_eq_getElem?_getD]
  · exact nomatch h

/-! ### Blocks -/

/-- The blocks of the keys lie apart from each other in `[1, used)`. -/
structure Laid (keys : List ℕ) (off len : ℕ → ℕ) (used : ℕ) : Prop where
  inside : ∀ k ∈ keys, 0 < len k → 1 ≤ off k ∧ off k + len k ≤ used
  apart : ∀ k ∈ keys, ∀ k' ∈ keys, k ≠ k' → 0 < len k → 0 < len k' →
    off k + len k ≤ off k' ∨ off k' + len k' ≤ off k

variable {keys : List ℕ} {offs offs' len len' : ℕ → ℕ} {used used' k k' key needed : ℕ}

/-- Blocks may become shorter, and an empty block may lie anywhere. -/
theorem Laid.shrink (h : Laid keys offs len used) (hlen : ∀ k ∈ keys, len' k ≤ len k)
    (hoff : ∀ k ∈ keys, 0 < len' k → offs' k = offs k) : Laid keys offs' len' used := by
  refine ⟨fun k hk hpos => ?_, fun k hk k' hk' hne hpos hpos' => ?_⟩
  · have := h.inside k hk (by have := hlen k hk; omega)
    have := hlen k hk
    rw [hoff k hk hpos]
    omega
  · have := h.apart k hk k' hk' hne (by have := hlen k hk; omega) (by have := hlen k' hk'; omega)
    have := hlen k hk
    have := hlen k' hk'
    rw [hoff k hk hpos, hoff k' hk' hpos']
    omega

/-- The block of one key moves behind the others. -/
theorem Laid.append (h : Laid keys offs len used) (hone : 1 ≤ used) (hlen : ∀ k ∈ keys, k ≠ key → len' k ≤ len k)
    (hkey : len' key ≤ needed) : Laid keys (update offs key used) len' (used + needed) := by
  refine ⟨fun k hk hpos => ?_, fun k hk k' hk' hne hpos hpos' => ?_⟩
  · by_cases heq : k = key
    · subst heq
      rw [update_self]
      omega
    · rw [update_of_ne heq]
      have := hlen k hk heq
      have := h.inside k hk (by omega)
      omega
  · by_cases heq : k = key <;> by_cases heq' : k' = key
    · exact absurd (heq.trans heq'.symm) hne
    · subst heq
      rw [update_self, update_of_ne heq']
      have := hlen k' hk' heq'
      have := h.inside k' hk' (by omega)
      omega
    · subst heq'
      rw [update_self, update_of_ne heq]
      have := hlen k hk heq
      have := h.inside k hk (by omega)
      omega
    · rw [update_of_ne heq, update_of_ne heq']
      have := hlen k hk heq
      have := hlen k' hk' heq'
      have := h.apart k hk k' hk' hne (by omega) (by omega)
      omega

/-- The blocks fit into the cells in use. -/
theorem Laid.sum_le (h : Laid keys offs len used) (hnodup : keys.Nodup) : (keys.map len).sum ≤ used - 1 := by
  have hcard : (keys.toFinset.biUnion fun k => Finset.Ico (offs k) (offs k + len k)).card = ∑ k ∈ keys.toFinset, len k := by
    rw [Finset.card_biUnion]
    · simp
    · intro k hk k' hk' hne
      refine Finset.disjoint_left.2 fun x hx hx' => ?_
      rw [Finset.mem_Ico] at hx hx'
      have := h.apart k (mem_toFinset.1 hk) k' (mem_toFinset.1 hk') hne (by omega) (by omega)
      omega
  have hsub : (keys.toFinset.biUnion fun k => Finset.Ico (offs k) (offs k + len k)) ⊆ Finset.Ico 1 used := by
    intro x hx
    obtain ⟨k, hk, hx⟩ := Finset.mem_biUnion.1 hx
    rw [Finset.mem_Ico] at hx
    have := h.inside k (mem_toFinset.1 hk) (by omega)
    rw [Finset.mem_Ico]
    omega
  have hle := Finset.card_le_card hsub
  rw [hcard, Nat.card_Ico, ← sum_toFinset len hnodup] at *
  exact hle

/-- The total length when one block grows. -/
theorem sum_le_grown (hnodup : keys.Nodup) (hlen : ∀ k ∈ keys, k ≠ key → len' k ≤ len k) (hkey : len' key ≤ needed) :
    (keys.map len').sum ≤ (keys.map len).sum + needed := by
  induction keys with
  | nil => exact Nat.zero_le _
  | cons k keys ih =>
    obtain ⟨hnot, hnodup⟩ := nodup_cons.1 hnodup
    simp only [map_cons, sum_cons]
    by_cases heq : k = key
    · subst heq
      have hrest : (keys.map len').sum ≤ (keys.map len).sum := by
        refine sum_le_sum fun k' hk' => hlen k' (.tail _ hk') ?_
        rintro rfl
        exact hnot hk'
      omega
    · have := ih hnodup fun k' hk' => hlen k' (.tail _ hk')
      have := hlen k mem_cons_self heq
      omega

/-- The cells differ between `lo` and `hi` only. -/
structure Confined (lo hi : ℕ) (cells cells' : List α) : Prop where
  length : cells'.length = cells.length
  same : ∀ i, i < lo ∨ hi ≤ i → cells'[i]? = cells[i]?

theorem Confined.refl (lo hi : ℕ) (cells : List α) : Confined lo hi cells cells := ⟨rfl, fun _ _ => rfl⟩

variable {lo hi : ℕ}

theorem Confined.trans {cells₁ cells₂ cells₃ : List α} (h : Confined lo hi cells₁ cells₂)
    (h' : Confined lo hi cells₂ cells₃) : Confined lo hi cells₁ cells₃ :=
  ⟨h'.length.trans h.length, fun i hi => (h'.same i hi).trans (h.same i hi)⟩

theorem Confined.slice {cells' : List α} (h : Confined lo hi cells cells')
    (hon : ∀ i, o ≤ i → i < o + n → i < lo ∨ hi ≤ i) : slice cells' o n = slice cells o n := by
  apply ext_getElem?
  intro i
  rw [getElem?_slice, getElem?_slice]
  by_cases hi : i < n
  · rw [if_pos hi, if_pos hi, h.same (o + i) (hon (o + i) (by omega) (by omega))]
  · rw [if_neg hi, if_neg hi]

theorem poke_confined (hlo : lo ≤ off) (hhi : off + xs.length ≤ hi) (hcells : hi ≤ cells.length) :
    ∃ cells', poke cells off xs = .ok cells' ∧ Confined lo hi cells cells' := by
  refine ⟨_, poke_eq (by omega), length_patch (by omega), fun i hi => ?_⟩
  rw [getElem?_patch (by omega), if_neg (by omega)]

/-! ### A new arena -/

/-- What becomes of a block: `copy` cells from `src`, and zeros up to a length of `size`. -/
structure Move where
  src : ℕ
  copy : ℕ
  size : ℕ

/-- The blocks are copied one behind the other, from cell `n` on. An offset is kept modulo `m`. -/
def pack (old : List α) (zero : α) (m : ℕ) (plan : ℕ → Option Move) :
    List ℕ → List α → ℕ → (ℕ → ℕ) → Outcome (List α × ℕ × (ℕ → ℕ))
  | [], cells, n, offs => .ok (cells, n, offs)
  | k :: keys, cells, n, offs =>
    match plan k with
    | none => pack old zero m plan keys cells n offs
    | some move => do
      let block ← peek old move.src move.copy
      let cells ← poke cells n block
      let cells ← poke cells (n + move.copy) (List.replicate (move.size - move.copy) zero)
      pack old zero m plan keys cells (n + move.size) (Function.update offs k (n % m))

def Move.total (plan : ℕ → Option Move) (k : ℕ) : ℕ := (plan k).elim 0 Move.size

/-- The blocks after a walk over `keys` from cell `n` to cell `n'`. -/
structure Repacked (old : List α) (zero : α) (plan : ℕ → Option Move) (keys : List ℕ) (offs : ℕ → ℕ) (n : ℕ)
    (cells' : List α) (n' : ℕ) (offs' : ℕ → ℕ) : Prop where
  total : n' = n + (keys.map (Move.total plan)).sum
  kept : ∀ k, k ∉ keys ∨ plan k = none → offs' k = offs k
  placed : ∀ k ∈ keys, ∀ move, plan k = some move → n ≤ offs' k ∧ offs' k + move.size ≤ n' ∧
    slice cells' (offs' k) move.size = slice old move.src move.copy ++ List.replicate (move.size - move.copy) zero
  apart : ∀ k ∈ keys, ∀ k' ∈ keys, k ≠ k' → ∀ move move', plan k = some move → plan k' = some move' →
    offs' k + move.size ≤ offs' k' ∨ offs' k' + move'.size ≤ offs' k

variable {old cells' : List α} {zero : α} {plan : ℕ → Option Move} {m n' : ℕ}

theorem pack_spec (zero : α) (offs : ℕ → ℕ) (hnodup : keys.Nodup) (hread : ∀ k ∈ keys, ∀ move, plan k = some move →
      (move.copy = 0 ∨ move.src + move.copy ≤ old.length) ∧ move.copy ≤ move.size)
    (hfit : n + (keys.map (Move.total plan)).sum ≤ cells.length) (hm : n + (keys.map (Move.total plan)).sum < m) :
    ∃ cells' n' offs', pack old zero m plan keys cells n offs = .ok (cells', n', offs') ∧
      cells'.length = cells.length ∧ (∀ o l, o + l ≤ n → slice cells' o l = slice cells o l) ∧
      Repacked old zero plan keys offs n cells' n' offs' := by
  induction keys generalizing cells n offs with
  | nil =>
    refine ⟨cells, n, offs, rfl, rfl, fun _ _ _ => rfl, rfl, fun _ _ => rfl, ?_, ?_⟩
    · intro k hk
      cases hk
    · intro k hk
      cases hk
  | cons k keys ih =>
    obtain ⟨hnot, hnodup⟩ := nodup_cons.1 hnodup
    have hread' : ∀ k ∈ keys, ∀ move, plan k = some move →
        (move.copy = 0 ∨ move.src + move.copy ≤ old.length) ∧ move.copy ≤ move.size :=
      fun k hk => hread k (.tail _ hk)
    rw [map_cons, sum_cons] at hfit hm
    unfold pack
    cases hplan : plan k with
    | none =>
      have hzero : Move.total plan k = 0 := by unfold Move.total; rw [hplan]; rfl
      rw [hzero, zero_add] at hfit hm
      obtain ⟨cells', n', offs', hrun, hlen, hbelow, h⟩ := ih offs hnodup hread' hfit hm
      refine ⟨cells', n', offs', hrun, hlen, hbelow, ?_, fun k' hk' => ?_, fun k' hk' move hmove => ?_, ?_⟩
      · rw [map_cons, sum_cons, hzero, zero_add]
        exact h.total
      · refine h.kept k' (hk'.imp_left fun hk' hmem => hk' (.tail _ hmem))
      · rcases mem_cons.1 hk' with rfl | hk'
        · rw [hplan] at hmove
          cases hmove
        · exact h.placed k' hk' move hmove
      · intro k₁ hk₁ k₂ hk₂ hne move₁ move₂ hmove₁ hmove₂
        rcases mem_cons.1 hk₁ with rfl | hk₁
        · rw [hplan] at hmove₁
          cases hmove₁
        rcases mem_cons.1 hk₂ with rfl | hk₂
        · rw [hplan] at hmove₂
          cases hmove₂
        exact h.apart k₁ hk₁ k₂ hk₂ hne move₁ move₂ hmove₁ hmove₂
    | some move =>
      have hsize : Move.total plan k = move.size := by unfold Move.total; rw [hplan]; rfl
      obtain ⟨hsrc, hcopy⟩ := hread k mem_cons_self move hplan
      have hpeek : peek old move.src move.copy = .ok (slice old move.src move.copy) := if_pos hsrc
      have hblock : (slice old move.src move.copy).length = move.copy := by
        rcases hsrc with hzero | hle
        · rw [hzero]
          rfl
        · exact length_slice hle
      have hw₁ : n + (slice old move.src move.copy).length ≤ cells.length := by omega
      obtain ⟨cells₁, hcells₁⟩ : ∃ c, c = patch cells n (slice old move.src move.copy) := ⟨_, rfl⟩
      have hlen₁ : cells₁.length = cells.length := by rw [hcells₁]; exact length_patch hw₁
      have hrep : (replicate (move.size - move.copy) zero).length = move.size - move.copy := length_replicate
      have hw₂ : n + move.copy + (replicate (move.size - move.copy) zero).length ≤ cells₁.length := by omega
      obtain ⟨cells₂, hcells₂⟩ : ∃ c, c = patch cells₁ (n + move.copy) (replicate (move.size - move.copy) zero) :=
        ⟨_, rfl⟩
      have hlen₂ : cells₂.length = cells₁.length := by rw [hcells₂]; exact length_patch hw₂
      have hmod : n % m = n := Nat.mod_eq_of_lt (by omega)
      have hfit' : n + move.size + (keys.map (Move.total plan)).sum ≤ cells₂.length := by omega
      have hm' : n + move.size + (keys.map (Move.total plan)).sum < m := by omega
      obtain ⟨cells', n', offs', hrun, hlen, hbelow, h⟩ :=
        ih (update offs k n) hnodup hread' hfit' hm'
      dsimp only
      rw [hpeek, ok_bind, poke_eq hw₁, ok_bind, ← hcells₁, poke_eq hw₂, ← hcells₂, hmod]
      -- this block is written first, and the later ones behind it
      have hoff : offs' k = n := by rw [h.kept k (.inl hnot), update_self]
      have hhere : slice cells' n move.size =
          slice old move.src move.copy ++ replicate (move.size - move.copy) zero := by
        rw [hbelow n move.size le_rfl, show move.size = move.copy + (move.size - move.copy) by omega, slice_add]
        congr 1
        · rw [hcells₂, slice_patch hw₂ (.inl le_rfl), hcells₁]
          have := slice_patch_self hw₁
          rwa [hblock] at this
        · have := slice_patch_self hw₂
          rw [hrep] at this
          rw [hcells₂, show move.copy + (move.size - move.copy) - move.copy = move.size - move.copy by omega]
          exact this
      have htotal : n' = n + move.size + (keys.map (Move.total plan)).sum := h.total
      refine ⟨cells', n', offs', hrun, by omega, fun o l hol => ?_, ?_, fun k' hk' => ?_, fun k' hk' move' hmove => ?_, ?_⟩
      · rw [hbelow o l (by omega), hcells₂, slice_patch hw₂ (.inl (by omega)), hcells₁, slice_patch hw₁ (.inl (by omega))]
      · rw [map_cons, sum_cons]
        omega
      · have hne : k' ≠ k := by
          rintro rfl
          rcases hk' with hk' | hk'
          · exact hk' mem_cons_self
          · rw [hplan] at hk'
            cases hk'
        rw [h.kept k' (hk'.imp_left fun hk' hmem => hk' (.tail _ hmem)), update_of_ne hne]
      · rcases mem_cons.1 hk' with rfl | hk'
        · rw [hplan] at hmove
          cases hmove
          rw [hoff]
          exact ⟨le_rfl, by omega, hhere⟩
        · obtain ⟨h₁, h₂, h₃⟩ := h.placed k' hk' move' hmove
          exact ⟨by omega, h₂, h₃⟩
      · intro k₁ hk₁ k₂ hk₂ hne move₁ move₂ hmove₁ hmove₂
        rcases mem_cons.1 hk₁ with rfl | hin₁ <;> rcases mem_cons.1 hk₂ with rfl | hin₂
        · exact absurd rfl hne
        · rw [hplan] at hmove₁
          cases hmove₁
          have := (h.placed k₂ hin₂ move₂ hmove₂).1
          omega
        · rw [hplan] at hmove₂
          cases hmove₂
          have := (h.placed k₁ hin₁ move₁ hmove₁).1
          omega
        · exact h.apart k₁ hin₁ k₂ hin₂ hne move₁ move₂ hmove₁ hmove₂

/-- The blocks of a new arena lie apart, if no block is longer than planned and those left out are empty. -/
theorem Repacked.laid (h : Repacked old zero plan keys offs n cells' n' offs') (hone : 1 ≤ n)
    (hlen : ∀ k ∈ keys, len k ≤ Move.total plan k) : Laid keys offs' len n' := by
  have hplan : ∀ k ∈ keys, 0 < len k → ∃ move, plan k = some move ∧ len k ≤ move.size := by
    intro k hk hpos
    have := hlen k hk
    unfold Move.total at this
    cases hp : plan k with
    | none =>
      rw [hp] at this
      simp only [Option.elim] at this
      omega
    | some move =>
      rw [hp] at this
      exact ⟨move, rfl, this⟩
  refine ⟨fun k hk hpos => ?_, fun k hk k' hk' hne hpos hpos' => ?_⟩
  · obtain ⟨move, hmove, hle⟩ := hplan k hk hpos
    obtain ⟨h₁, h₂, -⟩ := h.placed k hk move hmove
    omega
  · obtain ⟨move, hmove, hle⟩ := hplan k hk hpos
    obtain ⟨move', hmove', hle'⟩ := hplan k' hk' hpos'
    have := h.apart k hk k' hk' hne move move' hmove hmove'
    omega

/-! ### Blocks one behind the other -/

/-- The blocks lie apart from each other in `[n, n')`, the empty ones too. -/
structure Placed (keys : List ℕ) (size : ℕ → ℕ) (n n' : ℕ) (offs : ℕ → ℕ) : Prop where
  inside : ∀ k ∈ keys, n ≤ offs k ∧ offs k + size k ≤ n'
  apart : ∀ k ∈ keys, ∀ k' ∈ keys, k ≠ k' → offs k + size k ≤ offs k' ∨ offs k' + size k' ≤ offs k

theorem Placed.nil (size : ℕ → ℕ) (n : ℕ) (offs : ℕ → ℕ) : Placed [] size n n offs :=
  ⟨fun _ hk => absurd hk not_mem_nil, fun _ hk => absurd hk not_mem_nil⟩

/-- The first block lies before the others. -/
theorem Placed.cons {size : ℕ → ℕ} (h : Placed keys size (n + size k) n' offs) (hle : n + size k ≤ n') (hk : offs k = n) :
    Placed (k :: keys) size n n' offs := by
  refine ⟨fun k₁ hk₁ => ?_, fun k₁ hk₁ k₂ hk₂ hne => ?_⟩
  · rcases mem_cons.1 hk₁ with rfl | hk₁
    · omega
    · have := h.inside k₁ hk₁
      omega
  · rcases mem_cons.1 hk₁ with rfl | hin₁ <;> rcases mem_cons.1 hk₂ with rfl | hin₂
    · exact absurd rfl hne
    · have := h.inside k₂ hin₂
      omega
    · have := h.inside k₁ hin₁
      omega
    · exact h.apart k₁ hin₁ k₂ hin₂ hne

theorem Placed.laid {size : ℕ → ℕ} (h : Placed keys size n n' offs) (hone : 1 ≤ n) (hlen : ∀ k ∈ keys, len k ≤ size k) :
    Laid keys offs len n' := by
  refine ⟨fun k hk _ => ?_, fun k hk k' hk' hne _ _ => ?_⟩
  · have := h.inside k hk
    have := hlen k hk
    omega
  · have := h.apart k hk k' hk' hne
    have := hlen k hk
    have := hlen k' hk'
    omega

end Xenia.Lib
