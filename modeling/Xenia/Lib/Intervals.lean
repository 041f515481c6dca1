import Mathlib.Tactic

/-!
# Maximal runs of a set of numbers

A run of a set is an interval that lies in it and cannot be made longer. `ListsRuns` says of a list
that it has the runs of a set in increasing order, each once; there is one such list only
(`ListsRuns.unique`). A list of intervals with gaps between them lists the runs of its union
(`Separated.listsRuns`), and so does a walk that looks for the next member and the next gap in turn
(`RunsFrom.listsRuns`).
-/

namespace Xenia.Lib

open List

/-- The numbers that are in one of the intervals. -/
def Covered (rs : List (ℕ × ℕ)) (m : ℕ) : Prop := ∃ r ∈ rs, r.1 ≤ m ∧ m ≤ r.2

structure IsRun (S : ℕ → Prop) (r : ℕ × ℕ) : Prop where
  le : r.1 ≤ r.2
  inside : ∀ m, r.1 ≤ m → m ≤ r.2 → S m
  before : ∀ m, m + 1 = r.1 → ¬ S m
  after : ¬ S (r.2 + 1)

structure ListsRuns (S : ℕ → Prop) (rs : List (ℕ × ℕ)) : Prop where
  mem_iff : ∀ r, r ∈ rs ↔ IsRun S r
  sorted : rs.Pairwise fun a b => a.1 < b.1

structure Separated (rs : List (ℕ × ℕ)) : Prop where
  le : ∀ r ∈ rs, r.1 ≤ r.2
  gaps : rs.Pairwise fun a b => a.2 + 1 < b.1

variable {S T : ℕ → Prop} {rs rs' : List (ℕ × ℕ)} {r : ℕ × ℕ} {a b m p : ℕ}

theorem ListsRuns.unique (h : ListsRuns S rs) (h' : ListsRuns S rs') : rs = rs' := by
  have hperm : rs.Perm rs' := by
    refine (perm_ext_iff_of_nodup (h.sorted.imp fun hab => ?_) (h'.sorted.imp fun hab => ?_)).2 fun r => ?_
    · exact fun heq => absurd (congrArg Prod.fst heq) hab.ne
    · exact fun heq => absurd (congrArg Prod.fst heq) hab.ne
    · rw [h.mem_iff, h'.mem_iff]
  refine hperm.eq_of_pairwise (fun a b _ _ hab hba => ?_) h.sorted h'.sorted
  exact absurd (hab.trans hba) (lt_irrefl _)

theorem ListsRuns.congr (h : ListsRuns S rs) (hST : ∀ m, S m ↔ T m) : ListsRuns T rs := by
  obtain rfl : S = T := funext fun m => propext (hST m)
  exact h

theorem covered_cons : Covered (r :: rs) m ↔ (r.1 ≤ m ∧ m ≤ r.2) ∨ Covered rs m := by
  unfold Covered
  simp

/-- Two intervals with a gap between them are not parts of one run. -/
theorem Separated.eq_of_mem (h : Separated rs) (hr : r ∈ rs) {q : ℕ × ℕ} (hq : q ∈ rs) (hm : r.1 ≤ m ∧ m ≤ r.2)
    (hm' : q.1 ≤ m + 1 ∧ m ≤ q.2 + 1) : r = q := by
  by_contra hne
  have hgap : r = q ∨ r.2 + 1 < q.1 ∨ q.2 + 1 < r.1 := by
    refine List.Pairwise.forall_of_forall_of_flip (R := fun x y : ℕ × ℕ => x = y ∨ x.2 + 1 < y.1 ∨ y.2 + 1 < x.1)
      (fun _ _ => .inl rfl) ?_ ?_ hr hq
    · exact h.gaps.imp fun hab => .inr (.inl hab)
    · exact h.gaps.imp fun hab => .inr (.inr hab)
  rcases hgap with heq | hlt | hlt
  · exact hne heq
  · omega
  · omega

theorem Separated.listsRuns (h : Separated rs) : ListsRuns (Covered rs) rs := by
  refine ⟨fun r => ⟨fun hr => ?_, fun hr => ?_⟩, ?_⟩
  · have hle := h.le r hr
    refine ⟨hle, fun m hm hm' => ⟨r, hr, hm, hm'⟩, ?_, ?_⟩
    · rintro m hm ⟨q, hq, hlo, hhi⟩
      have := h.eq_of_mem hr hq ⟨le_rfl, hle⟩ ⟨by omega, by omega⟩
      subst this
      omega
    · rintro ⟨q, hq, hlo, hhi⟩
      have := h.eq_of_mem hr hq ⟨hle, le_rfl⟩ ⟨by omega, by omega⟩
      subst this
      omega
  · -- the interval that the run starts in is the run
    have hrle := hr.le
    obtain ⟨q, hq, hlo, hhi⟩ := hr.inside r.1 le_rfl hr.le
    have hqle := h.le q hq
    have hstart : r.1 = q.1 := by
      by_contra hne
      exact hr.before (r.1 - 1) (by omega) ⟨q, hq, by omega, by omega⟩
    have hend : r.2 = q.2 := by
      rcases lt_trichotomy r.2 q.2 with hlt | heq | hgt
      · exact absurd ⟨q, hq, by omega, by omega⟩ hr.after
      · exact heq
      · obtain ⟨q', hq', hlo', hhi'⟩ := hr.inside (q.2 + 1) (by omega) (by omega)
        have := h.eq_of_mem hq hq' ⟨hqle, le_rfl⟩ ⟨by omega, by omega⟩
        subst this
        omega
    obtain rfl : r = q := Prod.ext hstart hend
    exact hq
  · refine List.Pairwise.imp_of_mem (fun ha _ hab => ?_) h.gaps
    have := h.le _ ha
    omega

/-- What a walk over the members finds from `p` on. -/
inductive RunsFrom (S : ℕ → Prop) : ℕ → List (ℕ × ℕ) → Prop
  | done {p : ℕ} (h : ∀ m, p ≤ m → ¬ S m) : RunsFrom S p []
  | next {p a b : ℕ} {rs : List (ℕ × ℕ)} (hp : p ≤ a) (hskip : ∀ m, p ≤ m → m < a → ¬ S m) (hab : a ≤ b)
      (hrun : ∀ m, a ≤ m → m ≤ b → S m) (hend : ¬ S (b + 1)) (hrest : RunsFrom S (b + 1) rs) :
      RunsFrom S p ((a, b) :: rs)

theorem RunsFrom.spec (h : RunsFrom S p rs) :
    Separated rs ∧ (∀ r ∈ rs, p ≤ r.1 ∧ S r.1) ∧ ∀ m, p ≤ m → (S m ↔ Covered rs m) := by
  induction h with
  | done h =>
    refine ⟨⟨(fun r hr => nomatch hr), List.Pairwise.nil⟩, (fun r hr => nomatch hr), fun m hm => ?_⟩
    refine ⟨fun hS => absurd hS (h m hm), ?_⟩
    rintro ⟨r, hr, -⟩
    exact nomatch hr
  | @next p a b rs hp hskip hab hrun hend _ ih =>
    obtain ⟨⟨hle, hgaps⟩, hfrom, hcovered⟩ := ih
    refine ⟨⟨?_, pairwise_cons.2 ⟨fun r hr => ?_, hgaps⟩⟩, ?_, fun m hm => ?_⟩
    · rintro r hr
      rcases mem_cons.1 hr with rfl | hr
      · exact hab
      · exact hle r hr
    · obtain ⟨hge, hS⟩ := hfrom r hr
      have hne : r.1 ≠ b + 1 := fun heq => hend (heq ▸ hS)
      omega
    · rintro r hr
      rcases mem_cons.1 hr with rfl | hr
      · exact ⟨hp, hrun a le_rfl hab⟩
      · obtain ⟨hge, hS⟩ := hfrom r hr
        exact ⟨by omega, hS⟩
    · rw [covered_cons]
      rcases lt_or_ge m a with hlt | hge
      · refine ⟨fun hS => absurd hS (hskip m hm hlt), ?_⟩
        rintro (⟨hlo, -⟩ | ⟨r, hr, hlo, -⟩)
        · exact absurd hlo (not_le.2 hlt)
        · have := (hfrom r hr).1
          omega
      rcases lt_or_ge b m with hgt | hle'
      · rw [hcovered m hgt]
        refine ⟨.inr, ?_⟩
        rintro (⟨-, hhi⟩ | hc)
        · exact absurd hhi (not_le.2 hgt)
        · exact hc
      · exact ⟨fun _ => .inl ⟨hge, hle'⟩, fun _ => hrun m hge hle'⟩

theorem RunsFrom.listsRuns (h : RunsFrom S 0 rs) : ListsRuns S rs := by
  obtain ⟨hsep, -, hcovered⟩ := h.spec
  exact hsep.listsRuns.congr fun m => (hcovered m (Nat.zero_le m)).symm

end Xenia.Lib
