import Mathlib.Tactic

/-!
# Blocks handed out from a growing area

An area that only grows hands out each new block at its end. `Packed lo hi bs` says that the
blocks `bs`, the newest first, lie below each other between `lo` and `hi`: they are pairwise
disjoint (`Packed.pairwise`), stay so when the whole area is shifted (`Packed.shift`), and a
new block or area goes on top (`Packed.push`, `Packed.append`).
-/

namespace Xenia.Lib

open List

variable {β : Type*} {offset extent : β → ℤ} {lo hi : ℤ} {b c : β} {bs : List β}

/-- The blocks `bs`, the newest first, lie below each other in `[lo, hi)`. -/
def Packed (offset extent : β → ℤ) (lo : ℤ) : ℤ → List β → Prop
  | hi, [] => lo ≤ hi
  | hi, b :: bs => offset b + extent b ≤ hi ∧ 0 < extent b ∧ Packed offset extent lo (offset b) bs

theorem Packed.le : ∀ {bs : List β} {hi : ℤ}, Packed offset extent lo hi bs → lo ≤ hi
  | [], _, h => h
  | _ :: _, _, ⟨hend, hpos, h⟩ => by have := h.le; omega

section

variable (h : Packed offset extent lo hi bs)
include h

theorem Packed.mono {hi' : ℤ} (hle : hi ≤ hi') :
    Packed offset extent lo hi' bs := by
  cases bs with
  | nil => exact le_trans h hle
  | cons b bs => exact ⟨le_trans h.1 hle, h.2⟩

theorem Packed.within (hb : b ∈ bs) :
    lo ≤ offset b ∧ offset b + extent b ≤ hi ∧ 0 < extent b := by
  induction bs generalizing hi with
  | nil => cases hb
  | cons c bs ih =>
    obtain ⟨hend, hpos, htail⟩ := h
    rcases mem_cons.1 hb with rfl | hb
    · exact ⟨htail.le, hend, hpos⟩
    · have := ih htail hb
      exact ⟨this.1, by omega, this.2.2⟩

theorem Packed.pairwise :
    bs.Pairwise fun b c => offset c + extent c ≤ offset b := by
  induction bs generalizing hi with
  | nil => exact .nil
  | cons b bs ih => exact .cons (fun c hc => (h.2.2.within hc).2.1) (ih h.2.2)

theorem Packed.push {hi' : ℤ} (hb : offset b = hi) (hpos : 0 < extent b)
    (hend : hi + extent b ≤ hi') : Packed offset extent lo hi' (b :: bs) :=
  ⟨by omega, hpos, by rw [hb]; exact h⟩

end

/-- One packed area on top of another. -/
theorem Packed.append {mid : ℤ} {cs : List β} (h : Packed offset extent mid hi bs)
    (hlow : Packed offset extent lo mid cs) : Packed offset extent lo hi (bs ++ cs) := by
  induction bs generalizing hi with
  | nil => exact hlow.mono h
  | cons b bs ih => exact ⟨h.1, h.2.1, ih h.2.2⟩

/-- Every block is moved by `d`. -/
theorem Packed.shift {f : β → β} {d : ℤ} (h : Packed offset extent lo hi bs)
    (hoffset : ∀ b ∈ bs, offset (f b) = offset b + d) (hextent : ∀ b ∈ bs, extent (f b) = extent b) :
    Packed offset extent (lo + d) (hi + d) (bs.map f) := by
  induction bs generalizing hi with
  | nil => exact Int.add_le_add_right h d
  | cons b bs ih =>
    obtain ⟨hend, hpos, htail⟩ := h
    have hb := hoffset b mem_cons_self
    have he := hextent b mem_cons_self
    have ih := ih htail (fun c hc => hoffset c (mem_cons_of_mem _ hc))
      fun c hc => hextent c (mem_cons_of_mem _ hc)
    refine ⟨by omega, by omega, ?_⟩
    rw [hb]
    exact ih

end Xenia.Lib
