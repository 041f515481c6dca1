import Mathlib.Tactic

/-!
# Circular doubly linked lists

`Links ν` is the memory of the link fields of nodes `ν`: each node has a `next` and a
`prev` pointer (`none` is the null pointer). A list is a ring through a head node.
The operations write the pointers one at a time, as the C code of such lists does.

* `IsRing l h xs`: the ring at head `h` runs through exactly the nodes `xs`.
* `Rings l H c`: the heads `H` have disjoint rings, the ring of `h` runs through `c h`.
  `Rings.add`, `Rings.append` and `Rings.del` say what each operation does to a family
  of rings; what it leaves alone is part of the statement.
* `walk`: the traversal from a head visits the ring in order (`IsRing.walk`).
-/

namespace Xenia.Lib

open List Function

/-- The link fields of all nodes. -/
structure Links (ν : Type*) where
  next : ν → Option ν
  prev : ν → Option ν

namespace Links

variable {ν : Type*} [DecidableEq ν]

/-- A node linked to itself: an empty list. -/
def init (l : Links ν) (n : ν) : Links ν :=
  ⟨Function.update l.next n (some n), Function.update l.prev n (some n)⟩

/-- Initialise a head whose two links are still null. -/
def autoinit (l : Links ν) (h : ν) : Links ν :=
  if l.prev h = none ∧ l.next h = none then l.init h else l

/-- Put `e` between the neighbours `p` and `n`. -/
def link (l : Links ν) (e p n : ν) : Links ν :=
  let l : Links ν := { l with prev := Function.update l.prev n (some e) }
  let l : Links ν := { l with next := Function.update l.next e (some n) }
  let l : Links ν := { l with prev := Function.update l.prev e (some p) }
  { l with next := Function.update l.next p (some e) }

/-- Insert after the head. -/
def add (l : Links ν) (e h : ν) : Links ν :=
  let l := l.autoinit h
  match l.next h with
  | some n => l.link e h n
  | none => l

/-- Insert before the head, at the end of the list. -/
def append (l : Links ν) (e h : ν) : Links ν :=
  let l := l.autoinit h
  match l.prev h with
  | some p => l.link e p h
  | none => l

/-- Make `p` and `n` neighbours. -/
def unlink (l : Links ν) (p n : ν) : Links ν :=
  let l : Links ν := { l with prev := Function.update l.prev n (some p) }
  { l with next := Function.update l.next p (some n) }

/-- Take a node out of its ring and link it to itself. -/
def del (l : Links ν) (e : ν) : Links ν :=
  match l.prev e, l.next e with
  | some p, some n => (l.unlink p n).init e
  | _, _ => l

/-- No node follows the head. -/
def isEmpty (l : Links ν) (h : ν) : Bool := l.next h = none ∨ l.next h = some h

/-- The nodes met from `n` on until the head, at most `fuel` of them. -/
def walkFrom (l : Links ν) (h : ν) : ℕ → Option ν → List ν
  | 0, _ => []
  | _ + 1, none => []
  | fuel + 1, some n => if n = h then [] else n :: walkFrom l h fuel (l.next n)

/-- The nodes of the ring at `h`, in order. -/
def walk (l : Links ν) (fuel : ℕ) (h : ν) : List ν := l.walkFrom h fuel (l.next h)

/-- The first node from `n` on that satisfies `p`, or the head; `none` where the traversal
meets neither in `fuel` steps. -/
def find (l : Links ν) (h : ν) (p : ν → Bool) : ℕ → Option ν → Option ν
  | 0, _ => none
  | _ + 1, none => none
  | fuel + 1, some n =>
    if n = h then some h else if p n then some n else find l h p fuel (l.next n)

/-- The traversal that may take out the node it is at: the successor of a node is
read from the state `s` before the body runs on it. -/
def forEachSafe {σ : Type*} (links : σ → Links ν) (body : ν → σ → σ) (h : ν) :
    ℕ → Option ν → σ → σ
  | 0, _, s => s
  | _ + 1, none, s => s
  | fuel + 1, some n, s =>
    if n = h then s else forEachSafe links body h fuel ((links s).next n) (body n s)

/-! ### Segments

The facts about rings are facts about one pointer field `f : ν → Option ν` at a time:
`next` runs through the nodes of a ring, `prev` through their reverse. -/

/-- Following `f` from `a` meets `xs` and then `b`. -/
def Seg (f : ν → Option ν) : ν → List ν → ν → Prop
  | a, [], b => f a = some b
  | a, x :: xs, b => f a = some x ∧ Seg f x xs b

section Seg

variable {f g : ν → Option ν} {a b e : ν} {us vs xs : List ν}

omit [DecidableEq ν] in
theorem Seg.congr (h : Seg f a xs b) (hg : ∀ x ∈ a :: xs, g x = f x) : Seg g a xs b := by
  induction xs generalizing a with
  | nil => exact (hg a (by simp)).trans h
  | cons x xs ih =>
    exact ⟨(hg a (by simp)).trans h.1, ih h.2 fun y hy => hg y (mem_cons_of_mem _ hy)⟩

omit [DecidableEq ν] in
theorem seg_append : Seg f a (us ++ e :: vs) b ↔ Seg f a us e ∧ Seg f e vs b := by
  induction us generalizing a with
  | nil => rfl
  | cons x us ih => simp only [cons_append, Seg, ih, and_assoc]

omit [DecidableEq ν] in
/-- The first pointer leads to the first node, or to the end. -/
theorem Seg.first (h : Seg f a xs b) : f a = some (xs.headD b) := by
  cases xs with
  | nil => exact h
  | cons x xs => exact h.1

/-- Redirecting the last pointer of a segment. -/
theorem Seg.retarget (h : Seg f a xs b) (hnd : (a :: xs).Nodup) :
    Seg (update f (xs.getLastD a) (some e)) a xs e := by
  induction xs generalizing a with
  | nil => exact update_self ..
  | cons x xs ih =>
    have hnd' := (nodup_cons.1 hnd).2
    rw [getLastD_cons]
    have ha : a ≠ xs.getLastD x := fun heq =>
      (nodup_cons.1 hnd).1 (heq ▸ getLastD_mem_cons)
    exact ⟨by rw [update_of_ne ha]; exact h.1, ih h.2 hnd'⟩

/-- A new node `e` after the nodes `us`. -/
theorem Seg.insert (us vs : List ν) (h : Seg f a (us ++ vs) b) (hnd : (a :: (us ++ vs)).Nodup)
    (he : e ∉ a :: (us ++ vs)) :
    Seg (update (update f e (some (vs.headD b))) (us.getLastD a) (some e))
      a (us ++ e :: vs) b := by
  have hlast : us.getLastD a ≠ e := by
    intro heq
    have := heq ▸ getLastD_mem_cons (l := us) (a := a)
    exact he (by simp only [mem_cons, mem_append] at this ⊢; tauto)
  have hndu : (a :: us).Nodup := hnd.sublist (by simp)
  have hvs : ∀ x ∈ vs, x ≠ e ∧ x ≠ us.getLastD a := by
    refine fun x hx => ⟨fun hxe => he (by simp [← hxe, hx]), fun hxl => ?_⟩
    have hmem : x ∈ a :: us := hxl ▸ getLastD_mem_cons
    rw [← cons_append, nodup_append] at hnd
    exact hnd.2.2 x hmem x hx rfl
  -- the two pieces of the old segment: up to `us`, and from `vs` on
  have hold : Seg f a us (vs.headD b) ∧ ∀ v w, vs = v :: w → Seg f v w b := by
    cases vs with
    | nil => exact ⟨by simpa using h, by simp⟩
    | cons v w => exact ⟨(seg_append.1 h).1, fun _ _ hvw => by cases hvw; exact (seg_append.1 h).2⟩
  refine seg_append.2 ⟨?_, ?_⟩
  · refine Seg.retarget (b := vs.headD b) (hold.1.congr fun x hx => ?_) hndu
    exact update_of_ne (fun hxe => he (by
      subst hxe; simp only [mem_cons, mem_append] at hx ⊢; tauto)) ..
  · have hfe : update (update f e (some (vs.headD b))) (us.getLastD a) (some e) e =
        some (vs.headD b) := by rw [update_of_ne hlast.symm, update_self]
    cases vs with
    | nil => exact hfe
    | cons v w =>
      refine ⟨hfe, (hold.2 v w rfl).congr fun x hx => ?_⟩
      rw [update_of_ne (hvs x hx).2, update_of_ne (hvs x hx).1]

/-- The node `e` taken out. -/
theorem Seg.delete (us vs : List ν) (h : Seg f a (us ++ e :: vs) b) (hnd : (a :: (us ++ e :: vs)).Nodup) :
    Seg (update f (us.getLastD a) (some (vs.headD b))) a (us ++ vs) b := by
  obtain ⟨hu, hv⟩ := seg_append.1 h
  have hndu : (a :: us).Nodup := hnd.sublist (by simp)
  have hvs : ∀ x ∈ vs, x ≠ us.getLastD a := by
    intro x hx hxl
    have hmem : x ∈ a :: us := hxl ▸ getLastD_mem_cons
    rw [← cons_append, nodup_append] at hnd
    exact hnd.2.2 x hmem x (by simp [hx]) rfl
  cases vs with
  | nil => simpa using hu.retarget (e := b) hndu
  | cons v w =>
    refine seg_append.2 ⟨hu.retarget hndu, hv.2.congr fun x hx => ?_⟩
    exact update_of_ne (hvs x hx) ..

end Seg

/-! ### Rings -/

/-- The ring at head `h` runs through exactly the nodes `xs`, in this order. -/
structure IsRing (l : Links ν) (h : ν) (xs : List ν) : Prop where
  next : Seg l.next h xs h
  prev : Seg l.prev h xs.reverse h
  nodup : (h :: xs).Nodup

variable {l l' : Links ν} {h e : ν} {xs us vs : List ν}

omit [DecidableEq ν] in
theorem IsRing.nodup_reverse (hr : IsRing l h xs) : (h :: xs.reverse).Nodup := by
  simpa using hr.nodup

omit [DecidableEq ν] in
theorem IsRing.congr (hr : IsRing l h xs) (hn : ∀ x ∈ h :: xs, l'.next x = l.next x)
    (hp : ∀ x ∈ h :: xs, l'.prev x = l.prev x) : IsRing l' h xs :=
  ⟨hr.next.congr hn, hr.prev.congr fun x hx => hp x (by simpa using hx), hr.nodup⟩

theorem isRing_init (l : Links ν) (h : ν) : IsRing (l.init h) h [] :=
  ⟨update_self .., update_self .., by simp⟩

section

variable (hr : IsRing l h xs)
include hr

theorem IsRing.autoinit : l.autoinit h = l := by
  unfold Links.autoinit
  rw [if_neg]
  rintro ⟨-, hn⟩
  exact absurd (hn.symm.trans hr.next.first) (by simp)

theorem IsRing.isEmpty_iff : l.isEmpty h = true ↔ xs = [] := by
  have hf := hr.next.first
  have hnd := (nodup_cons.1 hr.nodup).1
  cases xs with
  | nil => simp [isEmpty, hf]
  | cons x xs =>
    have : x ≠ h := by rintro rfl; simp at hnd
    simp [isEmpty, hf, this]

/-- Inserting after the head. -/
theorem IsRing.add (he : e ∉ h :: xs) : IsRing (l.add e h) h (e :: xs) := by
  have hnh : l.next h = some (xs.headD h) := hr.next.first
  have hhe : h ≠ e := by rintro rfl; simp at he
  have heq : l.add e h = l.link e h (xs.headD h) := by
    unfold Links.add; rw [hr.autoinit]; simp [hnh]
  rw [heq]
  refine ⟨?_, ?_, ?_⟩
  · exact Seg.insert [] xs hr.next hr.nodup he
  · have h1 := Seg.insert (f := l.prev) (e := e) xs.reverse []
      (by simpa using hr.prev) (by simpa using hr.nodup_reverse) (by simpa using he)
    have h2 : xs.reverse.getLastD h = xs.headD h := by cases xs <;> simp
    have h3 : xs.headD h ≠ e := by
      rintro rfl; cases xs with
      | nil => simp at he
      | cons x xs => simp at he
    rw [h2, update_comm h3.symm] at h1
    simpa [Links.link] using h1
  · exact nodup_cons.2 ⟨by simp [hhe, (nodup_cons.1 hr.nodup).1],
      nodup_cons.2 ⟨fun hm => he (by simp [hm]), (nodup_cons.1 hr.nodup).2⟩⟩

/-- Inserting before the head. -/
theorem IsRing.append (he : e ∉ h :: xs) :
    IsRing (l.append e h) h (xs ++ [e]) := by
  have hph : l.prev h = some (xs.reverse.headD h) := hr.prev.first
  have heq : l.append e h = l.link e (xs.reverse.headD h) h := by
    unfold Links.append; rw [hr.autoinit]; simp [hph]
  have hlast : xs.reverse.headD h = xs.getLastD h := by simp
  rw [heq, hlast]
  refine ⟨?_, ?_, ?_⟩
  · exact Seg.insert xs [] (by simpa using hr.next) (by simpa using hr.nodup)
      (by simpa using he)
  · have h1 := Seg.insert (f := l.prev) (e := e) [] xs.reverse
      (by simpa using hr.prev) (by simpa using hr.nodup_reverse) (by simpa using he)
    have hhe : h ≠ e := by rintro rfl; simp at he
    rw [getLastD_nil, update_comm hhe.symm] at h1
    simpa [Links.link] using h1
  · rw [← cons_append, nodup_append]
    exact ⟨hr.nodup, by simp, fun a ha b hb => by rintro rfl; simp at hb; exact he (hb ▸ ha)⟩

end

/-- Taking a node out: the rest of the ring is as it was, the node is an empty ring. -/
theorem IsRing.del (hr : IsRing l h (us ++ e :: vs)) :
    IsRing (l.del e) h (us ++ vs) ∧ IsRing (l.del e) e [] := by
  have hn : l.next e = some (vs.headD h) := (seg_append.1 hr.next).2.first
  have hrev : (us ++ e :: vs).reverse = vs.reverse ++ e :: us.reverse := by simp
  have hp : l.prev e = some (us.reverse.headD h) := by
    have := hr.prev; rw [hrev] at this; exact (seg_append.1 this).2.first
  have hul : us.reverse.headD h = us.getLastD h := by simp
  have hvl : vs.reverse.getLastD h = vs.headD h := by cases vs <;> simp
  have heq : l.del e = (l.unlink (us.getLastD h) (vs.headD h)).init e := by
    unfold Links.del; rw [hp, hn, hul]
  have hne : ∀ x ∈ h :: (us ++ vs), x ≠ e := by
    rintro x hx rfl
    have hnd := hr.nodup
    rw [← cons_append, nodup_append] at hnd
    obtain ⟨-, hv, hd⟩ := hnd
    rcases mem_append.1 (by simpa using hx : x ∈ (h :: us) ++ vs) with hx | hx
    · exact hd x hx x (by simp) rfl
    · exact (nodup_cons.1 hv).1 hx
  rw [heq]
  refine ⟨IsRing.congr (l := l.unlink (us.getLastD h) (vs.headD h)) ⟨?_, ?_, ?_⟩ ?_ ?_,
    isRing_init _ _⟩
  · exact Seg.delete us vs hr.next hr.nodup
  · have h1 := Seg.delete (f := l.prev) (e := e) (a := h) (b := h) vs.reverse us.reverse
      (by simpa using hr.prev) (by simpa using hr.nodup_reverse)
    simpa [Links.unlink] using h1
  · exact hr.nodup.sublist (by simp)
  · exact fun x hx => update_of_ne (hne x hx) ..
  · exact fun x hx => update_of_ne (hne x hx) ..

omit [DecidableEq ν] in
/-- Every node of a ring may serve as its head. -/
theorem IsRing.rotate {x : ν} (hr : IsRing l h (us ++ x :: vs)) : IsRing l x (vs ++ h :: us) := by
  refine ⟨?_, ?_, ?_⟩
  · obtain ⟨h1, h2⟩ := seg_append.1 hr.next
    exact seg_append.2 ⟨h2, h1⟩
  · have hrev : (us ++ x :: vs).reverse = vs.reverse ++ x :: us.reverse := by simp
    have hp := hr.prev
    rw [hrev] at hp
    obtain ⟨h1, h2⟩ := seg_append.1 hp
    have hrev' : (vs ++ h :: us).reverse = us.reverse ++ h :: vs.reverse := by simp
    rw [hrev']
    exact seg_append.2 ⟨h2, h1⟩
  · have hperm : ((h :: us) ++ x :: vs).Perm ((x :: vs) ++ h :: us) := perm_append_comm
    exact hperm.nodup_iff.1 hr.nodup

/-- Inserting before the first node of `vs`, before the head when there is none. -/
theorem IsRing.insertBefore (hr : IsRing l h (us ++ vs)) (he : e ∉ h :: (us ++ vs)) :
    IsRing (l.append e (vs.headD h)) h (us ++ e :: vs) := by
  cases vs with
  | nil => simpa using hr.append (by simpa using he)
  | cons v vs =>
    have hrot := hr.rotate.append (e := e) (by
      intro hmem
      apply he
      simp only [mem_cons, mem_append] at hmem ⊢
      tauto)
    rw [append_assoc] at hrot
    simpa using hrot.rotate

/-! ### What an operation leaves alone -/

variable {n : ν}

theorem IsRing.add_frame (hr : IsRing l h xs) (hn : n ∉ e :: h :: xs) :
    (l.add e h).next n = l.next n ∧ (l.add e h).prev n = l.prev n := by
  have hnh : l.next h = some (xs.headD h) := hr.next.first
  have hx : n ≠ xs.headD h := by rintro rfl; cases xs <;> simp at hn
  simp only [mem_cons, not_or] at hn
  unfold Links.add; rw [hr.autoinit]
  simp only [hnh, Links.link, update_of_ne hn.1, update_of_ne hn.2.1,
    update_of_ne hx, and_self]

theorem IsRing.append_frame (hr : IsRing l h xs) (hn : n ∉ e :: h :: xs) :
    (l.append e h).next n = l.next n ∧ (l.append e h).prev n = l.prev n := by
  have hph : l.prev h = some (xs.reverse.headD h) := hr.prev.first
  have hx : n ≠ xs.reverse.headD h := by
    rintro rfl
    have hmem : ∀ x, x ∈ xs ↔ x ∈ xs.reverse := fun x => mem_reverse.symm
    cases hxs : xs.reverse with
    | nil => simp [hxs] at hn
    | cons x t => simp [hxs, hmem] at hn
  simp only [mem_cons, not_or] at hn
  unfold Links.append; rw [hr.autoinit]
  simp only [hph, Links.link, update_of_ne hn.1, update_of_ne hn.2.1,
    update_of_ne hx, and_self]

theorem IsRing.insertBefore_frame (hr : IsRing l h (us ++ vs)) (hn : n ∉ e :: h :: (us ++ vs)) :
    (l.append e (vs.headD h)).next n = l.next n ∧ (l.append e (vs.headD h)).prev n = l.prev n := by
  cases vs with
  | nil => exact hr.append_frame (by simpa using hn)
  | cons v vs =>
    apply hr.rotate.append_frame
    intro hmem
    apply hn
    simp only [mem_cons, mem_append] at hmem ⊢
    tauto

theorem IsRing.del_frame (hr : IsRing l h (us ++ e :: vs)) (hn : n ∉ h :: (us ++ e :: vs)) :
    (l.del e).next n = l.next n ∧ (l.del e).prev n = l.prev n := by
  have hne : l.next e = some (vs.headD h) := (seg_append.1 hr.next).2.first
  have hrev : (us ++ e :: vs).reverse = vs.reverse ++ e :: us.reverse := by simp
  have hpe : l.prev e = some (us.reverse.headD h) := by
    have := hr.prev; rw [hrev] at this; exact (seg_append.1 this).2.first
  have h1 : n ≠ vs.headD h := by rintro rfl; cases vs <;> simp at hn
  have h2 : n ≠ us.reverse.headD h := by
    rintro rfl
    have hmem : ∀ x, x ∈ us ↔ x ∈ us.reverse := fun x => mem_reverse.symm
    cases hus : us.reverse with
    | nil => simp [hus] at hn
    | cons x t => simp [hus, hmem] at hn
  have h3 : n ≠ e := by rintro rfl; simp at hn
  unfold Links.del
  simp only [hne, hpe, Links.unlink, Links.init, update_of_ne h1,
    update_of_ne h2, update_of_ne h3, and_self]

/-! ### Families of rings -/

/-- The heads `H` have disjoint rings; the ring of `h` runs through `c h`. -/
structure Rings (l : Links ν) (H : Set ν) (c : ν → List ν) : Prop where
  ring : ∀ h ∈ H, IsRing l h (c h)
  disj : ∀ h ∈ H, ∀ k ∈ H, h ≠ k → List.Disjoint (h :: c h) (k :: c k)

variable {H K : Set ν} {c : ν → List ν}

omit [DecidableEq ν] in
theorem Rings.mono (hR : Rings l H c) (hK : K ⊆ H) : Rings l K c :=
  ⟨fun h hh => hR.ring h (hK hh), fun h hh k hk => hR.disj h (hK hh) k (hK hk)⟩

omit [DecidableEq ν] in
theorem Rings.congr {d : ν → List ν} (hR : Rings l H c) (hd : ∀ h ∈ H, d h = c h) :
    Rings l H d :=
  ⟨fun h hh => hd h hh ▸ hR.ring h hh,
    fun h hh k hk => by rw [hd h hh, hd k hk]; exact hR.disj h hh k hk⟩

omit [DecidableEq ν] in
/-- A member of a ring is no head. -/
theorem Rings.not_head (hR : Rings l H c) (hh : h ∈ H) (he : e ∈ c h) : e ∉ H := by
  intro heH
  by_cases heh : e = h
  · subst heh; exact (nodup_cons.1 (hR.ring _ hh).nodup).1 he
  · exact hR.disj e heH h hh heh (mem_cons_self ..) (mem_cons_of_mem _ he)

/-- One ring of the family changed to `xs`, with nodes that no other ring has. -/
theorem Rings.replace (hR : Rings l H c) (hr : IsRing l' h xs)
    (hfresh : ∀ x ∈ xs, x ∈ c h ∨ ∀ k ∈ H, x ∉ k :: c k)
    (hframe : ∀ k ∈ H, k ≠ h → ∀ x ∈ k :: c k, l'.next x = l.next x ∧ l'.prev x = l.prev x)
    (hh : h ∈ H) : Rings l' H (update c h xs) := by
  have hother : ∀ k ∈ H, k ≠ h → List.Disjoint (h :: xs) (k :: c k) := by
    intro k hk hkh x hx hxk
    have hd := hR.disj h hh k hk hkh.symm
    rcases mem_cons.1 hx with rfl | hx
    · exact hd (mem_cons_self ..) hxk
    · rcases hfresh x hx with hc | hf
      · exact hd (mem_cons_of_mem _ hc) hxk
      · exact hf k hk hxk
  constructor
  · intro k hk
    by_cases hkh : k = h
    · subst hkh; rw [update_self]; exact hr
    · rw [update_of_ne hkh]
      exact (hR.ring k hk).congr (fun x hx => (hframe k hk hkh x hx).1)
        fun x hx => (hframe k hk hkh x hx).2
  · intro k hk m hm hkm
    by_cases hkh : k = h <;> by_cases hmh : m = h
    · exact absurd (hkh.trans hmh.symm) hkm
    · subst hkh; rw [update_self, update_of_ne hmh]; exact hother m hm hmh
    · subst hmh; rw [update_self, update_of_ne hkh]; exact (hother k hk hkh).symm
    · rw [update_of_ne hkh, update_of_ne hmh]; exact hR.disj k hk m hm hkm

theorem Rings.add (hR : Rings l H c) (hh : h ∈ H) (he : ∀ k ∈ H, e ∉ k :: c k) :
    Rings (l.add e h) H (update c h (e :: c h)) := by
  have hr := hR.ring h hh
  refine hR.replace (hr.add (he h hh)) ?_ (fun k hk hkh x hx => hr.add_frame ?_) hh
  · intro x hx
    rcases mem_cons.1 hx with rfl | hx
    · exact .inr he
    · exact .inl hx
  · rw [mem_cons, not_or]
    exact ⟨fun hxe => he k hk (hxe ▸ hx), fun hxh => hR.disj k hk h hh hkh hx hxh⟩

/-- The node taken out belongs to no ring of the family afterwards. -/
theorem Rings.del (hR : Rings l H c) (hh : h ∈ H) (hc : c h = us ++ e :: vs) :
    Rings (l.del e) H (update c h (us ++ vs)) ∧
      ∀ k ∈ H, e ∉ k :: update c h (us ++ vs) k := by
  have hr := hR.ring h hh
  rw [hc] at hr
  constructor
  · refine hR.replace hr.del.1 ?_ (fun k hk hkh x hx => hr.del_frame ?_) hh
    · intro x hx
      exact .inl (hc ▸ by simp only [mem_append] at hx ⊢; tauto)
    · exact fun hxh => hR.disj k hk h hh hkh hx (hc ▸ hxh)
  · have heh : e ∈ c h := by simp [hc]
    have hnd : (us ++ e :: vs).Nodup := (nodup_cons.1 hr.nodup).2
    intro k hk hek
    by_cases hkh : k = h
    · subst hkh
      rw [update_self] at hek
      rcases mem_cons.1 hek with rfl | hek
      · exact hR.not_head hh heh hh
      · exact (nodup_cons.1 (perm_middle.nodup_iff.1 hnd)).1 hek
    · rw [update_of_ne hkh] at hek
      exact hR.disj k hk h hh hkh hek (mem_cons_of_mem _ heh)

/-- A new head with an empty ring. -/
theorem Rings.init (hR : Rings l H c) (hh : ∀ k ∈ H, h ∉ k :: c k) (hnot : h ∉ H) :
    Rings (l.init h) (insert h H) (update c h []) := by
  have hother : ∀ k ∈ H, update c h [] k = c k := fun k hk =>
    update_of_ne (fun hkh : k = h => hnot (hkh ▸ hk)) ..
  refine ⟨fun k hk => ?_, fun k hk m hm hkm => ?_⟩
  · rcases hk with rfl | hk
    · rw [update_self]; exact isRing_init _ _
    · rw [hother k hk]
      have hne : ∀ x ∈ k :: c k, x ≠ h := fun x hx hxh => hh k hk (hxh ▸ hx)
      exact (hR.ring k hk).congr (fun x hx => update_of_ne (hne x hx) ..)
        fun x hx => update_of_ne (hne x hx) ..
  · rcases hk with rfl | hk <;> rcases hm with rfl | hm
    · exact absurd rfl hkm
    · rw [update_self, hother m hm]
      exact fun x hx hxm => hh m hm (mem_singleton.1 hx ▸ hxm)
    · rw [update_self, hother k hk]
      exact fun x hxk hx => hh k hk (mem_singleton.1 hx ▸ hxk)
    · rw [hother k hk, hother m hm]; exact hR.disj k hk m hm hkm

/-! ### Registries

One list whose nodes are linked to themselves while they are not on it. -/

omit [DecidableEq ν] in
/-- A member of a ring is not linked to itself. -/
theorem IsRing.next_mem (hr : IsRing l h xs) (he : e ∈ xs) :
    ∃ n, l.next e = some n ∧ n ≠ e := by
  obtain ⟨us, vs, rfl⟩ := append_of_mem he
  refine ⟨vs.headD h, (seg_append.1 hr.next).2.first, ?_⟩
  have hnd := hr.nodup
  rintro heq
  cases vs with
  | nil => exact (nodup_cons.1 hnd).1 (by simp [show h = e from heq])
  | cons v vs =>
    have hve : v = e := heq
    subst hve
    have := (nodup_append.1 (nodup_cons.1 hnd).2).2.1
    simp at this

/-- Taking out a node that is on no list changes nothing. -/
theorem IsRing.del_self (hr : IsRing l e []) : l.del e = l := by
  have hn : l.next e = some e := hr.next
  have hp : l.prev e = some e := hr.prev
  have hn' : update l.next e (some e) = l.next := by rw [← hn, update_eq_self]
  have hp' : update l.prev e (some e) = l.prev := by rw [← hp, update_eq_self]
  unfold Links.del
  simp only [hp, hn, unlink, init, hn', hp']

/-- The list at `h` runs through `xs`; every other node is linked to itself. -/
structure Registry (l : Links ν) (h : ν) (xs : List ν) : Prop where
  ring : IsRing l h xs
  free : ∀ e, e ∉ h :: xs → IsRing l e []

omit [DecidableEq ν] in
theorem Registry.congr_nil {l : Links ν} (h : ν) (hn : ∀ e, l.next e = some e)
    (hp : ∀ e, l.prev e = some e) : Registry l h [] :=
  ⟨⟨hn h, hp h, by simp⟩, fun e _ => ⟨hn e, hp e, by simp⟩⟩

theorem Registry.isEmpty_iff (hr : Registry l h xs) (he : e ≠ h) :
    l.isEmpty e = true ↔ e ∉ xs := by
  constructor
  · intro hemp hmem
    obtain ⟨n, hn, hne⟩ := hr.ring.next_mem hmem
    simp [Links.isEmpty, hn, hne] at hemp
  · intro hmem
    exact (hr.free e (by simp [he, hmem])).isEmpty_iff.2 rfl

theorem Registry.append (hr : Registry l h xs) (he : e ∉ h :: xs) :
    Registry (l.append e h) h (xs ++ [e]) := by
  refine ⟨hr.ring.append he, fun d hd => ?_⟩
  simp only [mem_cons, mem_append, not_or] at hd
  have hfree := hr.free d (by simp [hd.1, hd.2.1])
  have hframe := hr.ring.append_frame (e := e) (n := d) (by simp [hd.1, hd.2.1, hd.2.2])
  exact hfree.congr (fun x hx => by rw [mem_singleton.1 hx]; exact hframe.1)
    fun x hx => by rw [mem_singleton.1 hx]; exact hframe.2

theorem Registry.insertBefore (hr : Registry l h (us ++ vs)) (he : e ∉ h :: (us ++ vs)) :
    Registry (l.append e (vs.headD h)) h (us ++ e :: vs) := by
  refine ⟨hr.ring.insertBefore he, fun d hd => ?_⟩
  have hd' : d ∉ e :: h :: (us ++ vs) := by
    simp only [mem_cons, mem_append] at hd ⊢
    tauto
  have hfree := hr.free d fun hmem => hd' (mem_cons_of_mem _ hmem)
  have hframe := hr.ring.insertBefore_frame hd'
  exact hfree.congr (fun x hx => by rw [mem_singleton.1 hx]; exact hframe.1)
    fun x hx => by rw [mem_singleton.1 hx]; exact hframe.2

/-- Taking out a node that is on the list. -/
theorem Registry.delMem (hr : Registry l h (us ++ e :: vs)) : Registry (l.del e) h (us ++ vs) := by
  refine ⟨hr.ring.del.1, fun d hd => ?_⟩
  by_cases hde : d = e
  · rw [hde]
    exact hr.ring.del.2
  · have hd' : d ∉ h :: (us ++ e :: vs) := by
      simp only [mem_cons, mem_append] at hd ⊢
      tauto
    have hframe := hr.ring.del_frame hd'
    exact (hr.free d hd').congr (fun x hx => by rw [mem_singleton.1 hx]; exact hframe.1)
      fun x hx => by rw [mem_singleton.1 hx]; exact hframe.2

theorem Registry.del_not_mem (hr : Registry l h xs) (he : e ∉ h :: xs) : l.del e = l :=
  (hr.free e he).del_self

theorem Registry.del (hr : Registry l h xs) (he : e ≠ h) :
    ∃ ys, Registry (l.del e) h ys ∧ ∀ d, d ∈ ys ↔ d ∈ xs ∧ d ≠ e := by
  by_cases hmem : e ∈ xs
  · obtain ⟨us, vs, rfl⟩ := append_of_mem hmem
    have hnd : e ∉ us ++ vs := (nodup_cons.1
      (perm_middle.nodup_iff.1 (nodup_cons.1 hr.ring.nodup).2)).1
    refine ⟨us ++ vs, hr.delMem, fun d => ?_⟩
    by_cases hde : d = e
    · subst hde; simp [hnd]
    · simp [hde]
  · refine ⟨xs, ?_, fun d => ⟨fun hd => ⟨hd, fun hde => hmem (hde ▸ hd)⟩, And.left⟩⟩
    rw [hr.del_not_mem (by simp [he, hmem])]
    exact hr

/-! ### Traversals -/

/-- With fuel for one step more than there are nodes, the walk visits the ring in order. -/
theorem IsRing.walk (hr : IsRing l h xs) {fuel : ℕ} (hf : xs.length < fuel) :
    l.walk fuel h = xs := by
  have key : ∀ (xs : List ν) (a : ν) (fuel : ℕ), Seg l.next a xs h → h ∉ xs → xs.length < fuel →
      l.walkFrom h fuel (l.next a) = xs := by
    intro xs
    induction xs with
    | nil =>
      intro a fuel hs _ hf
      obtain ⟨n, rfl⟩ : ∃ n, fuel = n + 1 := ⟨fuel - 1, by simp at hf; omega⟩
      simp [show l.next a = some h from hs, walkFrom]
    | cons x xs ih =>
      intro a fuel hs hx hf
      simp only [mem_cons, not_or] at hx
      simp only [length_cons] at hf
      obtain ⟨n, rfl⟩ : ∃ n, fuel = n + 1 := ⟨fuel - 1, by omega⟩
      rw [hs.1, walkFrom, if_neg (Ne.symm hx.1), ih x n hs.2 hx.2 (by omega)]
  exact key xs h fuel hr.next (nodup_cons.1 hr.nodup).1 hf

/-- The search along a ring with fuel for all its nodes finds the first one that satisfies `p`,
or comes back to the head. -/
theorem IsRing.find (hr : IsRing l h xs) (p : ν → Bool) {fuel : ℕ} (hf : xs.length < fuel) :
    l.find h p fuel (l.next h) = some ((xs.dropWhile fun x => !p x).headD h) := by
  have key : ∀ (xs : List ν) (a : ν) (fuel : ℕ), Seg l.next a xs h → h ∉ xs → xs.length < fuel →
      l.find h p fuel (l.next a) = some ((xs.dropWhile fun x => !p x).headD h) := by
    intro xs
    induction xs with
    | nil =>
      intro a fuel hs _ hf
      obtain ⟨n, rfl⟩ : ∃ n, fuel = n + 1 := ⟨fuel - 1, by simp at hf; omega⟩
      simp [show l.next a = some h from hs, Links.find]
    | cons x xs ih =>
      intro a fuel hs hx hf
      simp only [mem_cons, not_or] at hx
      simp only [length_cons] at hf
      obtain ⟨n, rfl⟩ : ∃ n, fuel = n + 1 := ⟨fuel - 1, by omega⟩
      rw [hs.1, Links.find, if_neg (Ne.symm hx.1)]
      by_cases hp : p x
      · simp [hp]
      · rw [ih x n hs.2 hx.2 (by omega)]
        simp [hp]
  exact key xs h fuel hr.next (nodup_cons.1 hr.nodup).1 hf

/-- **The safe traversal**, by an invariant over the nodes still ahead: the body must
keep it while the node it is at leaves, and the successor read before the body runs must
be the next node ahead. -/
theorem forEachSafe_rule {σ : Type*} {links : σ → Links ν} {body : ν → σ → σ} {h : ν}
    {I : List ν → σ → Prop}
    (hstep : ∀ n ns s, I (n :: ns) s →
      n ≠ h ∧ (links s).next n = some (ns.headD h) ∧ I ns (body n s)) :
    ∀ (ns : List ν) (fuel : ℕ) (s : σ), ns.length < fuel → I ns s →
      I [] (forEachSafe links body h fuel (some (ns.headD h)) s) := by
  intro ns
  induction ns with
  | nil =>
    intro fuel s hf hI
    obtain ⟨m, rfl⟩ : ∃ m, fuel = m + 1 := ⟨fuel - 1, by simp at hf; omega⟩
    simpa [forEachSafe] using hI
  | cons n ns ih =>
    intro fuel s hf hI
    simp only [length_cons] at hf
    obtain ⟨m, rfl⟩ : ∃ m, fuel = m + 1 := ⟨fuel - 1, by omega⟩
    obtain ⟨hne, hnext, hI'⟩ := hstep n ns s hI
    rw [headD_cons, forEachSafe, if_neg hne, hnext]
    exact ih m (body n s) (by omega) hI'

end Links

end Xenia.Lib
