import Xenia.Dix.ConfigureWindow

/-!
# When a configured window is announced

`Place` is where a stack mode puts a window, in terms of the order of its siblings: `place` follows the description of the modes, and
`whereDoIGoInTheStack_target` says that the answer is the window of that place. `change_eq`: whatever the action is called in the end,
the window has the geometry that was asked for, and was moved in the stack once.

`configure_announced`: the event is sent exactly when the geometry or the order changes, and tells what is there afterwards, unless a
stack mode is given that changes nothing, or puts the window above itself.
-/

namespace Xenia.WindowStack

open Xenia.Lib Xenia.Dix List Function Option
open Xenia.Mi (BoxRec)

variable {ν : Type} [DecidableEq ν]

/-! ## Places -/

/-- The siblings above. -/
def higher (xs : List ν) (w : ν) : List ν := xs.takeWhile (· ≠ w)

/-- The siblings below. -/
def lower (xs : List ν) (w : ν) : List ν := (xs.dropWhile (· ≠ w)).tail

inductive Place (ν : Type) where
  | stay
  | top
  | bottom
  | above (s : ν)
  | below (s : ν)

/-- The sibling, or any of those below the head, is above the window and meets it. -/
def occluded (env : ConfigEnv ν) (c : Children ν) (xs : List ν) (w : ν) (box : BoxRec) : Option ν → Bool
  | some s => c.mapped w && c.mapped s && (env.borderMeets s box && decide (s ∈ higher xs w))
  | none => c.mapped w && ((higher xs w).reverse.takeWhile fun s => decide (env.pHead ≠ some s)).any (overlaps env c w box)

/-- The sibling, or any of them, is below the window and meets it. -/
def occluding (env : ConfigEnv ν) (c : Children ν) (xs : List ν) (w : ν) (box : BoxRec) : Option ν → Bool
  | some s => c.mapped w && c.mapped s && (env.borderMeets s box && !decide (s ∈ higher xs w))
  | none => c.mapped w && (lower xs w).any (overlaps env c w box)

/-- Where the stack mode puts the window. -/
def place (env : ConfigEnv ν) (c : Children ν) (xs : List ν) (w : ν) (box : BoxRec) (sib : Option ν) : StackMode → Place ν
  | .Above =>
    match sib with
    | some s => .above s
    | none => if pFirst env c = some w then .stay else .top
  | .Below =>
    match sib with
    | some s => .below s
    | none => .bottom
  | .TopIf => if occluded env c xs w box sib then .top else .stay
  | .BottomIf => if occluding env c xs w box sib then .bottom else .stay
  | .Opposite =>
    if occluded env c xs w box sib then .top else if occluding env c xs w box sib then .bottom else .stay

/-- The window that stands below the place. -/
def target (l : DList ν) (first : Option ν) (w : ν) : Place ν → Option ν
  | .stay => l.next w
  | .top => first
  | .bottom => none
  | .above s => some s
  | .below s => if l.next s ≠ some w then l.next s else l.next w

/-- The window is there already. -/
def AtPlace (l : DList ν) (first : Option ν) (w : ν) : Place ν → Prop
  | .stay => True
  | .top => l.next w = first
  | .bottom => l.next w = none
  | .above s => l.next w = some s
  | .below s => l.next s = some w

variable {us vs ds xs : List ν} {w s : ν} {l : DList ν} {fuel : ℕ} {meets : ν → Bool} {pHead : Option ν} {env : ConfigEnv ν}
  {c c' : Children ν}

theorem higher_cons {a : ν} (ha : a ≠ w) : higher (a :: ds) w = a :: higher ds w := by simp [higher, ha]

theorem higher_split (hw : w ∉ us) : higher (us ++ w :: vs) w = us := by
  have hall : ∀ x ∈ us, decide (x ≠ w) = true := fun x hx => decide_eq_true fun heq => hw (heq ▸ hx)
  rw [higher, takeWhile_append_of_pos hall, takeWhile_cons_of_neg (by simp), append_nil]

theorem lower_split (hw : w ∉ us) : lower (us ++ w :: vs) w = vs := by
  have hall : ∀ x ∈ us, decide (x ≠ w) = true := fun x hx => decide_eq_true fun heq => hw (heq ▸ hx)
  rw [lower, dropWhile_append_of_pos hall, dropWhile_cons_of_neg (by simp), tail_cons]

/-! ## The walks -/

theorem isSiblingAboveMe_spec (hpath : Path l.next ds) (hne : s ≠ w) (hfuel : ds.length < fuel) :
    isSiblingAboveMe l w s fuel ds.head? = .ok (if s ∈ higher ds w then .Above else .Below) := by
  induction ds generalizing fuel with
  | nil =>
    obtain ⟨fuel, rfl⟩ := Nat.exists_eq_add_of_lt hfuel
    rfl
  | cons a ds ih =>
    obtain _ | fuel := fuel
    · exact absurd hfuel (Nat.not_lt_zero _)
    rw [head?_cons, isSiblingAboveMe]
    by_cases has : a = s
    · subst has
      have hmem : a ∈ higher (a :: ds) w := by
        rw [higher_cons hne]
        exact mem_cons_self
      rw [if_pos rfl, if_pos hmem]
    · rw [if_neg has]
      by_cases haw : a = w
      · have hnone : higher (a :: ds) w = [] := takeWhile_cons_of_neg (by simp [haw])
        rw [if_pos haw, hnone, if_neg not_mem_nil]
      · rw [if_neg haw, hpath.1, ih hpath.2 (Nat.lt_of_succ_lt_succ hfuel), higher_cons haw]
        congr 1
        apply if_congr _ rfl rfl
        rw [mem_cons, or_iff_right (Ne.symm has)]

/-- The walk upwards comes to the head, or follows the null pointer above the first child. -/
theorem anyWindowOverlapsMe_spec (meets : ν → Bool) (pHead : Option ν) (hpath : Path l.prev ds) (hfuel : ds.length < fuel) :
    anyWindowOverlapsMe meets l pHead fuel ds.head? = .ok ((ds.takeWhile fun s => decide (pHead ≠ some s)).any meets) ∨
      (∃ p, pHead = some p ∧ p ∉ ds) ∧ anyWindowOverlapsMe meets l pHead fuel ds.head? = .error .fault := by
  induction ds generalizing fuel with
  | nil =>
    obtain _ | fuel := fuel
    · exact absurd hfuel (Nat.not_lt_zero _)
    cases pHead with
    | none => exact .inl rfl
    | some p => exact .inr ⟨⟨p, rfl, not_mem_nil⟩, rfl⟩
  | cons a ds ih =>
    obtain _ | fuel := fuel
    · exact absurd hfuel (Nat.not_lt_zero _)
    rw [List.head?_cons, anyWindowOverlapsMe]
    by_cases hhead : some a = pHead
    · rw [if_pos hhead, takeWhile_cons_of_neg (by simp [hhead])]
      exact .inl rfl
    · have htake : (a :: ds).takeWhile (fun s => decide (pHead ≠ some s)) = a :: ds.takeWhile fun s => decide (pHead ≠ some s) := by
        simp [Ne.symm hhead]
      rw [if_neg hhead, htake, deref_some, ok_bind, any_cons]
      cases hmeets : meets a with
      | true => exact .inl rfl
      | false =>
        rw [hpath.1]
        refine (ih hpath.2 (Nat.lt_of_succ_lt_succ hfuel)).imp id fun ⟨⟨p, hp, hout⟩, hfault⟩ => ⟨⟨p, hp, ?_⟩, hfault⟩
        rw [mem_cons, not_or]
        exact ⟨fun heq => hhead (by rw [hp, heq]), hout⟩

omit [DecidableEq ν] in
theorem iOverlapAnyWindow_spec (meets : ν → Bool) (hpath : Path l.next ds) (hfuel : ds.length < fuel) :
    iOverlapAnyWindow meets l fuel ds.head? = .ok (ds.any meets) := by
  induction ds generalizing fuel with
  | nil =>
    obtain ⟨fuel, rfl⟩ := Nat.exists_eq_add_of_lt hfuel
    rfl
  | cons a ds ih =>
    obtain _ | fuel := fuel
    · exact absurd hfuel (Nat.not_lt_zero _)
    rw [head?_cons, iOverlapAnyWindow, any_cons]
    cases meets a with
    | true => rfl
    | false =>
      rw [hpath.1]
      exact ih hpath.2 (Nat.lt_of_succ_lt_succ hfuel)

omit [DecidableEq ν] in
theorem not_mem_siblings (h : l.Runs (us ++ w :: vs)) : w ∉ us ++ vs := by
  have hnodup := h.nodup
  rw [nodup_middle, nodup_cons] at hnodup
  exact hnodup.1

/-- An only child stays where it is. -/
theorem target_only (h : c.stack.Runs [w]) (hhead : ∀ p, env.pHead = some p → p = w) (box : BoxRec) (smode : StackMode) :
    target c.stack (pFirst env c) w (place env c [w] w box none smode) = none := by
  have hnext : c.stack.next w = none := DList.Runs.next_at (show c.stack.Runs ([] ++ w :: []) from h)
  have hnone : higher [w] w = [] := higher_split (show w ∉ [] from not_mem_nil)
  have hbelow : lower [w] w = [] := lower_split (show w ∉ [] from not_mem_nil)
  have hcovered : occluded env c [w] w box none = false := by simp [occluded, hnone]
  have hcovers : occluding env c [w] w box none = false := by simp [occluding, hbelow]
  cases smode with
  | Above =>
    show target c.stack (pFirst env c) w (if pFirst env c = some w then .stay else .top) = none
    split
    · exact hnext
    · rename_i hfirst
      unfold pFirst at hfirst ⊢
      cases hp : env.pHead with
      | none =>
        rw [hp] at hfirst
        exact absurd h.first hfirst
      | some p =>
        rw [hhead p hp]
        exact hnext
  | Below => rfl
  | TopIf => simp [place, hcovered, target, hnext]
  | BottomIf => simp [place, hcovers, target, hnext]
  | Opposite => simp [place, hcovered, hcovers, target, hnext]

/-- **Where the window goes**: above the window of its place, unless the walk upwards misses the head. -/
theorem whereDoIGoInTheStack_target (h : c.stack.Runs (us ++ w :: vs)) (hfuel : (us ++ w :: vs).length < env.fuel) {sib : Option ν}
    (hsib : ∀ s, sib = some s → s ∈ us ++ vs) (hhead : ∀ p, env.pHead = some p → p ∈ us ++ w :: vs) (box : BoxRec) (smode : StackMode) :
    whereDoIGoInTheStack env c w sib box smode =
        .ok (target c.stack (pFirst env c) w (place env c (us ++ w :: vs) w box sib smode)) ∨
      (∃ p, env.pHead = some p ∧ p ∉ us) ∧ whereDoIGoInTheStack env c w sib box smode = .error .fault := by
  have hw := not_mem_siblings h
  rw [mem_append, not_or] at hw
  have hlength : us.length + vs.length + 1 < env.fuel := by
    rw [length_append] at hfuel
    omega
  by_cases honly : c.stack.first = some w ∧ c.stack.last = some w
  · -- nothing stands before the first child or behind the last one
    obtain rfl : us = [] := (head?_middle (by rw [mem_append, not_or]; exact hw)).1 (h.first.symm.trans honly.1)
    obtain rfl : vs = [] := (getLast?_middle (by rw [mem_append, not_or]; exact hw)).1 (h.last.symm.trans honly.2)
    obtain rfl : sib = none := by
      cases sib with
      | none => rfl
      | some s => exact absurd (hsib s rfl) not_mem_nil
    have honly' := target_only h (fun p hp => mem_singleton.1 (hhead p hp)) box smode
    unfold whereDoIGoInTheStack
    rw [nil_append, honly', if_pos honly]
    exact .inl rfl
  · have hside : ∀ s, sib = some s → isSiblingAboveMe c.stack w s env.fuel c.stack.first =
        .ok (if s ∈ higher (us ++ w :: vs) w then .Above else .Below) := by
      intro s hs
      rw [h.first]
      refine isSiblingAboveMe_spec h.next (fun heq => ?_) hfuel
      have hmem := hsib s hs
      rw [heq, mem_append] at hmem
      exact hmem.elim hw.1 hw.2
    have hup : Path c.stack.prev (vs.reverse ++ w :: us.reverse) := by
      rw [← DList.reverse_middle]
      exact h.prev
    have habove := anyWindowOverlapsMe_spec (overlaps env c w box) env.pHead hup.suffix.2
      (show us.reverse.length < env.fuel by rw [length_reverse]; omega)
    have hbelow := iOverlapAnyWindow_spec (overlaps env c w box) h.next.suffix.2 (show vs.length < env.fuel by omega)
    rw [List.head?_reverse, ← h.prev_at] at habove
    rw [← h.next_at] at hbelow
    have hhigher : higher (us ++ w :: vs) w = us := higher_split hw.1
    have hlower : lower (us ++ w :: vs) w = vs := lower_split hw.1
    unfold whereDoIGoInTheStack
    rw [if_neg honly]
    have hmissed : (∃ p, env.pHead = some p ∧ p ∉ us.reverse) → ∃ p, env.pHead = some p ∧ p ∉ us :=
      fun ⟨p, hp, hout⟩ => ⟨p, hp, fun hmem => hout (mem_reverse.2 hmem)⟩
    have hor : ∀ {b₁ b₂ : Bool}, ((!b₁ || !b₂) = true) = ¬(b₁ = true ∧ b₂ = true) := by decide
    cases sib with
    | some s =>
      left
      have hside := hside s rfl
      have hunmapped : ¬(c.mapped w = true ∧ c.mapped s = true) →
          occluded env c (us ++ w :: vs) w box (some s) = false ∧ occluding env c (us ++ w :: vs) w box (some s) = false := by
        cases h₁ : c.mapped w <;> cases h₂ : c.mapped s <;> simp [occluded, occluding, h₁, h₂]
      cases smode with
      | Above => rfl
      | Below => rfl
      | TopIf =>
        dsimp only
        by_cases hmapped : c.mapped w = true ∧ c.mapped s = true
        · rw [hside, ok_bind]
          by_cases hs : s ∈ us <;> cases hmeets : env.borderMeets s box <;>
            simp [place, occluded, hhigher, hmapped, hs, hmeets, target]
        · obtain ⟨hno, -⟩ := hunmapped hmapped
          rw [if_pos (by rw [hor]; exact hmapped)]
          simp [place, hno, target]
      | BottomIf =>
        dsimp only
        by_cases hmapped : c.mapped w = true ∧ c.mapped s = true
        · rw [hside, ok_bind]
          by_cases hs : s ∈ us <;> cases hmeets : env.borderMeets s box <;>
            simp [place, occluding, hhigher, hmapped, hs, hmeets, target]
        · obtain ⟨-, hno⟩ := hunmapped hmapped
          rw [if_pos (by rw [hor]; exact hmapped)]
          simp [place, hno, target]
      | Opposite =>
        dsimp only
        by_cases hmapped : c.mapped w = true ∧ c.mapped s = true
        · rw [hside]
          by_cases hs : s ∈ us <;> cases hmeets : env.borderMeets s box <;>
            simp [place, occluded, occluding, hhigher, hmapped, hs, hmeets, target, ok_bind]
        · obtain ⟨hno, hno'⟩ := hunmapped hmapped
          rw [if_pos (by rw [hor]; exact hmapped)]
          simp [place, hno, hno', target]
    | none =>
      cases smode with
      | Above =>
        left
        show _ = Except.ok (target _ _ _ (if pFirst env c = some w then .stay else .top))
        dsimp only
        split <;> rfl
      | Below => exact .inl rfl
      | TopIf =>
        dsimp only
        cases hmapped : c.mapped w with
        | false =>
          left
          simp [place, occluded, hmapped, target]
        | true =>
          rw [if_neg (by decide)]
          refine habove.imp (fun hwalk => ?_) fun ⟨hout, hwalk⟩ => ⟨hmissed hout, by rw [hwalk]; rfl⟩
          rw [hwalk, ok_bind]
          simp only [place, occluded, hhigher, hmapped, Bool.true_and]
          split <;> rfl
      | BottomIf =>
        left
        dsimp only
        cases hmapped : c.mapped w with
        | false => simp [place, occluding, hmapped, target]
        | true =>
          rw [if_neg (by decide), hbelow, ok_bind]
          simp only [place, occluding, hlower, hmapped, Bool.true_and]
          split <;> rfl
      | Opposite =>
        dsimp only
        cases hmapped : c.mapped w with
        | false =>
          left
          simp [place, occluded, occluding, hmapped, target]
        | true =>
          rw [if_neg (by decide)]
          refine habove.imp (fun hwalk => ?_) fun ⟨hout, hwalk⟩ => ⟨hmissed hout, by rw [hwalk]; rfl⟩
          rw [hwalk, hbelow]
          simp only [place, occluded, occluding, hhigher, hlower, hmapped, Bool.true_and, ok_bind]
          split
          · rfl
          · split <;> rfl

/-! ## The values of the request -/

/-- What a request that was read asks for. -/
structure Asks (c : Children ν) (w : ν) (siblings : List ν) (mask : BitVec 32) (r : Request ν) : Prop where
  x : mask.getLsbD CWX = false → r.x = outerX c w
  y : mask.getLsbD CWY = false → r.y = outerY c w
  size : r.action ≠ .RESIZE_WIN → r.w = (c.drawable w).width ∧ r.h = (c.drawable w).height
  bw : mask.getLsbD CWBorderWidth = false → r.bw = (c.drawable w).borderWidth
  sib : ∀ s, r.pSib = some s → s ∈ siblings
  restack : r.action = .RESTACK_WIN → r.x = outerX c w ∧ r.y = outerY c w
  action : r.action ≠ .REBORDER_WIN

variable {mask : BitVec 32} {vlist : ℕ → UInt32} {r r' : Request ν}

theorem getInt16_absent {bit i : ℕ} {f : Int16} (h : mask.getLsbD bit = false) : (getInt16 mask vlist bit f i).1 = f := by
  rw [getInt16, if_neg (by rw [h]; decide)]

omit [DecidableEq ν] in
theorem firstValues_asks {i : ℕ} (h : firstValues c w mask vlist = .ok (r, i)) :
    Asks c w (us ++ vs) mask r := by
  unfold firstValues at h
  dsimp only at h
  split at h
  · obtain ⟨rfl, -⟩ := Prod.ext_iff.1 (Except.ok.inj h)
    exact ⟨getInt16_absent, getInt16_absent, fun _ => ⟨rfl, rfl⟩, fun _ => rfl, fun s hs => (nomatch hs), fun hr => (nomatch hr),
      fun hr => (nomatch hr)⟩
  · split at h
    · split at h
      · exact nomatch h
      · obtain ⟨rfl, -⟩ := Prod.ext_iff.1 (Except.ok.inj h)
        exact ⟨getInt16_absent, getInt16_absent, fun hr => absurd rfl hr, fun _ => rfl, fun s hs => (nomatch hs),
          fun hr => (nomatch hr), fun hr => (nomatch hr)⟩
    · obtain ⟨rfl, -⟩ := Prod.ext_iff.1 (Except.ok.inj h)
      exact ⟨fun _ => rfl, fun _ => rfl, fun _ => ⟨rfl, rfl⟩, fun _ => rfl, fun s hs => (nomatch hs), fun _ => ⟨rfl, rfl⟩,
        fun hr => (nomatch hr)⟩

/-- One of the later values: the border, the sibling or the mode. -/
theorem laterValue_asks {i i' index2 : ℕ} (hlookup : ∀ id s, env.lookupWindow id = .ok (some s) → s ∈ us ++ w :: vs)
    (hindex : mask.getLsbD index2 = true) (hasks : Asks c w (us ++ vs) mask r)
    (h : laterValue env w mask vlist (r, i) index2 = .ok (r', i')) : Asks c w (us ++ vs) mask r' := by
  unfold laterValue at h
  split at h
  · rename_i hborder
    obtain ⟨rfl, -⟩ := Prod.ext_iff.1 (Except.ok.inj h)
    refine { hasks with bw := fun hno => ?_ }
    rw [← hborder, hindex] at hno
    exact nomatch hno
  · split at h
    · split at h
      · exact nomatch h
      · exact nomatch h
      · rename_i s hs
        split at h
        · exact nomatch h
        · rename_i hne
          obtain ⟨rfl, -⟩ := Prod.ext_iff.1 (Except.ok.inj h)
          refine { hasks with sib := fun s' hs' => ?_ }
          obtain rfl := some.inj hs'
          have hmem := hlookup _ _ hs
          rw [mem_append, mem_cons] at hmem
          rw [mem_append]
          exact hmem.imp id fun hmem => hmem.resolve_left hne
    · split at h
      · split at h
        · exact nomatch h
        · obtain ⟨rfl, -⟩ := Prod.ext_iff.1 (Except.ok.inj h)
          exact { hasks with }
      · exact nomatch h

/-- What each turn of a loop keeps. -/
theorem foldlM_keeps {α β ε : Type} {f : β → α → Except ε β} {P : β → Prop} {as : List α} {b b' : β}
    (hstep : ∀ b a b', a ∈ as → P b → f b a = .ok b' → P b') (hb : P b) (h : as.foldlM f b = .ok b') : P b' := by
  induction as generalizing b with
  | nil =>
    obtain rfl := Except.ok.inj h
    exact hb
  | cons a as ih =>
    rw [foldlM_cons] at h
    cases hf : f b a with
    | error e =>
      rw [hf] at h
      exact nomatch h
    | ok b₁ =>
      rw [hf] at h
      exact ih (fun b a b' ha => hstep b a b' (mem_cons_of_mem _ ha)) (hstep b a b₁ mem_cons_self hb hf) h

theorem readValues_asks (hlookup : ∀ id s, env.lookupWindow id = .ok (some s) → s ∈ us ++ w :: vs)
    (h : readValues env c w mask vlist = .ok r) : Asks c w (us ++ vs) mask r := by
  unfold readValues at h
  split at h
  · exact nomatch h
  · split at h
    · exact nomatch h
    · cases hfirst : firstValues c w mask vlist with
      | error e =>
        rw [hfirst] at h
        exact nomatch h
      | ok first =>
        obtain ⟨r₀, i₀⟩ := first
        have hasks : Asks c w (us ++ vs) mask r₀ := firstValues_asks hfirst
        rw [hfirst] at h
        change (laterBits mask).foldlM (laterValue env w mask vlist) (r₀, i₀) >>= (fun v => .ok v.1) = .ok r at h
        cases hlater : (laterBits mask).foldlM (laterValue env w mask vlist) (r₀, i₀) with
        | error e =>
          rw [hlater] at h
          exact nomatch h
        | ok v =>
          rw [hlater] at h
          obtain rfl : v.1 = r := Except.ok.inj h
          refine foldlM_keeps (P := fun v => Asks c w (us ++ vs) mask v.1) ?_ hasks hlater
          intro v bit v' hbit hv hstep
          have hset : mask.getLsbD bit = true := by
            have hmem := of_mem_filter hbit
            rw [Bool.and_eq_true] at hmem
            exact hmem.1
          exact laterValue_asks hlookup hset hv hstep

/-! ## The change -/

/-- A request as it is carried out: only a new size is called one. -/
structure Settled (c : Children ν) (w : ν) (mask : BitVec 32) (r : Request ν) : Prop where
  x : mask.getLsbD CWX = false → r.x = outerX c w
  y : mask.getLsbD CWY = false → r.y = outerY c w
  size : r.action ≠ .RESIZE_WIN → r.w = (c.drawable w).width ∧ r.h = (c.drawable w).height
  resize : r.action = .RESIZE_WIN → ¬(r.w = (c.drawable w).width ∧ r.h = (c.drawable w).height)
  bw : mask.getLsbD CWBorderWidth = false → r.bw = (c.drawable w).borderWidth
  restack : r.action = .RESTACK_WIN → r.x = outerX c w ∧ r.y = outerY c w
  action : r.action ≠ .REBORDER_WIN

/-- The geometry seen from the parent. -/
structure Geometry where
  x : Int16
  y : Int16
  width : UInt16
  height : UInt16
  borderWidth : UInt16
deriving DecidableEq

def geometry (c : Children ν) (w : ν) : Geometry :=
  ⟨outerX c w, outerY c w, (c.drawable w).width, (c.drawable w).height, (c.drawable w).borderWidth⟩

def Request.geometry (r : Request ν) : Geometry := ⟨r.x, r.y, r.w, r.h, r.bw⟩

/-- The geometry that is asked for is the one that the window has, or its new size goes to another client. -/
def SameGeometry (env : ConfigEnv ν) (c : Children ν) (w : ν) (q : Request ν) : Prop :=
  q.x = outerX c w ∧ q.y = outerY c w ∧ q.bw = (c.drawable w).borderWidth ∧
    ((q.w = (c.drawable w).width ∧ q.h = (c.drawable w).height) ∨ intercepts env c w q = true)

omit [DecidableEq ν] in
theorem newSize_iff {d : Drawable} : (r.w != d.width || r.h != d.height) = true ↔ ¬(r.w = d.width ∧ r.h = d.height) := by
  rw [Bool.or_eq_true, bne_iff_ne, bne_iff_ne]
  tauto

omit [DecidableEq ν] in
theorem geometry_iff {d : Drawable} (hd : c.drawable w = d) : r.geometry = geometry c w ↔
    r.x = outerX c w ∧ r.y = outerY c w ∧ (r.w = d.width ∧ r.h = d.height) ∧ r.bw = d.borderWidth := by
  rw [geometry, Geometry.mk.injEq, hd]
  tauto

omit [DecidableEq ν] in
/-- No new size: the window is moved or restacked, or nothing is left to do. -/
theorem sameSize_spec {r : Request ν} (hx : mask.getLsbD CWX = false → r.x = outerX c w) (hy : mask.getLsbD CWY = false → r.y = outerY c w)
    (hsize : r.w = (c.drawable w).width ∧ r.h = (c.drawable w).height)
    (hbw : mask.getLsbD CWBorderWidth = false → r.bw = (c.drawable w).borderWidth) {o : Option (Request ν)}
    (ho : o = if mask.getLsbD CWX || mask.getLsbD CWY then some { r with action := .MOVE_WIN }
      else if mask.getLsbD CWStackMode || mask.getLsbD CWBorderWidth then some { r with action := .RESTACK_WIN }
      else none) :
    (∃ r', o = some r' ∧ Settled c w mask r' ∧ r'.geometry = r.geometry) ∨ o = none ∧ mask.getLsbD CWStackMode = false := by
  subst ho
  split
  · exact .inl ⟨_, rfl, ⟨hx, hy, fun _ => hsize, fun hr => (nomatch hr), hbw, fun hr => (nomatch hr), fun hr => (nomatch hr)⟩, rfl⟩
  · rename_i hplaced
    rw [Bool.or_eq_true, not_or, Bool.not_eq_true, Bool.not_eq_true] at hplaced
    split
    · exact .inl ⟨_, rfl, ⟨hx, hy, fun _ => hsize, fun hr => (nomatch hr), hbw, fun _ => ⟨hx hplaced.1, hy hplaced.2⟩,
        fun hr => (nomatch hr)⟩, rfl⟩
    · rename_i hrest
      rw [Bool.or_eq_true, not_or, Bool.not_eq_true] at hrest
      exact .inr ⟨rfl, hrest.1⟩

omit [DecidableEq ν] in
/-- **What is carried out**: nothing is left to do, or the request as it is settled. -/
theorem reclassify_spec {siblings : List ν} {q : Request ν} (h : Asks c w siblings mask q) :
    (∃ r, reclassify env c w mask q = some r ∧ Settled c w mask r ∧ (r.geometry = geometry c w ↔ SameGeometry env c w q)) ∨
      reclassify env c w mask q = none ∧ mask.getLsbD CWStackMode = false := by
  unfold reclassify
  by_cases hresize : q.action = .RESIZE_WIN
  · rw [if_pos hresize]
    by_cases hkept : intercepts env c w q = true
    · rw [if_neg (by rw [hkept]; simp), if_pos hkept]
      refine (sameSize_spec (r := { q with w := (c.drawable w).width, h := (c.drawable w).height }) h.x h.y ⟨rfl, rfl⟩ h.bw rfl).imp
        (fun ⟨r, hr, hsettled, hgeometry⟩ => ⟨r, hr, hsettled, ?_⟩) id
      rw [hgeometry, geometry_iff rfl, SameGeometry]
      tauto
    · by_cases hsame : q.w = (c.drawable w).width ∧ q.h = (c.drawable w).height
      · have hno : (q.w != (c.drawable w).width || q.h != (c.drawable w).height) = false := by
          rw [Bool.eq_false_iff, Ne, newSize_iff]
          exact not_not_intro hsame
        rw [if_neg (by rw [hno]; simp), if_neg hkept]
        refine (sameSize_spec h.x h.y hsame h.bw rfl).imp (fun ⟨r, hr, hsettled, hgeometry⟩ => ⟨r, hr, hsettled, ?_⟩) id
        rw [hgeometry, geometry_iff rfl, SameGeometry]
        tauto
      · rw [if_pos (by rw [Bool.and_eq_true, newSize_iff, Bool.not_eq_true']; exact ⟨hsame, Bool.eq_false_iff.2 hkept⟩)]
        refine .inl ⟨q, rfl, ⟨h.x, h.y, h.size, fun _ => hsame, h.bw, h.restack, h.action⟩, ?_⟩
        rw [geometry_iff rfl, SameGeometry]
        tauto
  · rw [if_neg hresize]
    refine .inl ⟨q, rfl, ⟨h.x, h.y, h.size, fun hr => absurd hr hresize, h.bw, h.restack, h.action⟩, ?_⟩
    rw [geometry_iff rfl, SameGeometry]
    have hsize := h.size hresize
    tauto

/-- The drawable that goes with a request. -/
def Request.drawable (r : Request ν) (c : Children ν) : Drawable where
  x := c.parentX + r.x + r.bw.toInt16
  y := c.parentY + r.y + r.bw.toInt16
  width := r.w
  height := r.h
  borderWidth := r.bw

omit [DecidableEq ν] in
/-- The corner of the border and the inner corner. -/
theorem innerX (c : Children ν) (w : ν) : c.parentX + outerX c w + (c.drawable w).borderWidth.toInt16 = (c.drawable w).x := by
  unfold outerX
  grind

omit [DecidableEq ν] in
theorem innerY (c : Children ν) (w : ν) : c.parentY + outerY c w + (c.drawable w).borderWidth.toInt16 = (c.drawable w).y := by
  unfold outerY
  grind

/-- Sums that are equal as integers are equal as shorts. -/
theorem short_sum {a b : Int16} {m n : UInt16} (h : a.toInt + m.toNat = b.toInt + n.toNat) : a + m.toInt16 = b + n.toInt16 := by
  have hcast : ∀ k : UInt16, Int16.ofInt k.toNat = k.toInt16 := by
    intro k
    apply Int16.toBitVec.inj
    exact (BitVec.ofNat_toNat 16 k.toBitVec).trans (BitVec.setWidth_eq k.toBitVec)
  have hsum : ∀ (x : Int16) (k : UInt16), x + k.toInt16 = Int16.ofInt (x.toInt + k.toNat) := by
    intro x k
    rw [Int16.ofInt_add, Int16.ofInt_toInt, hcast]
  rw [hsum, hsum, h]

omit [DecidableEq ν] in
theorem map_moved {o : Outcome (Moved ν)} (f g : Moved ν → Children ν) (hfg : ∀ m, f m = g m) :
    (o >>= fun moved => .ok (f moved)) = o.map g := by
  cases o with
  | error e => rfl
  | ok m => exact congrArg Except.ok (hfg m)

/-- **The change**: one move in the stack, and the geometry of the request. -/
theorem change_eq {pSib : Option ν} (h : Settled c w mask r) (hsib : mask.getLsbD CWStackMode = false → pSib = c.stack.next w) :
    change fuel c w mask r pSib = (moveWindowInStack fuel c.stack w pSib).map fun m =>
      { c with stack := m.1, drawable := update c.drawable w (r.drawable c) } := by
  unfold change
  cases hborder : mask.getLsbD CWBorderWidth with
  | false =>
    have hbw := h.bw hborder
    have hre : reborder c w mask r = (c, r.action) := by rw [reborder, if_neg (by rw [hborder]; decide)]
    rw [hre]
    cases haction : r.action with
    | MOVE_WIN =>
      obtain ⟨hw, hh⟩ := h.size (by rw [haction]; decide)
      refine map_moved _ _ fun m => ?_
      rw [Request.drawable, hw, hh, hbw]
    | RESIZE_WIN =>
      refine map_moved _ _ fun m => ?_
      rw [Request.drawable, hbw]
    | RESTACK_WIN =>
      obtain ⟨hw, hh⟩ := h.size (by rw [haction]; decide)
      obtain ⟨hx, hy⟩ := h.restack haction
      have hsame : update c.drawable w (r.drawable c) = c.drawable := by
        rw [Request.drawable, hx, hy, hw, hh, hbw, innerX, innerY]
        exact update_eq_self w c.drawable
      rw [hsame]
      cases hstack : mask.getLsbD CWStackMode with
      | true => exact map_moved _ _ fun m => rfl
      | false =>
        unfold moveWindowInStack
        rw [hsib hstack, if_neg (not_not_intro rfl)]
        rfl
    | REBORDER_WIN => exact absurd haction h.action
  | true =>
    have hself : (setBorderWidth c w r.bw).drawable w = { c.drawable w with borderWidth := r.bw } := update_self w _ _
    have hset : ∀ d, update (setBorderWidth c w r.bw).drawable w d = update c.drawable w d := by
      intro d
      exact update_idem ..
    have hmove : r.w = (c.drawable w).width ∧ r.h = (c.drawable w).height →
        miMoveWindow fuel (setBorderWidth c w r.bw) w r.x r.y pSib = (moveWindowInStack fuel c.stack w pSib).map fun m =>
          { c with stack := m.1, drawable := update c.drawable w (r.drawable c) } := by
      rintro ⟨hw, hh⟩
      refine map_moved _ _ fun m => ?_
      rw [hset, hself, Request.drawable, hw, hh]
      rfl
    cases haction : r.action with
    | RESTACK_WIN =>
      have hre : reborder c w mask r = (setBorderWidth c w r.bw, .MOVE_WIN) := by rw [reborder, if_pos hborder, if_pos haction]
      rw [hre]
      exact hmove (h.size (by rw [haction]; decide))
    | MOVE_WIN =>
      have hsize := h.size (by rw [haction]; decide)
      by_cases hkeep : (outerX c w).toInt + (c.drawable w).borderWidth.toNat = r.x.toInt + r.bw.toNat ∧
          (outerY c w).toInt + (c.drawable w).borderWidth.toNat = r.y.toInt + r.bw.toNat
      · -- the border changes around the window
        have hre : reborder c w mask r = (miChangeBorderWidth c w r.bw, .REBORDER_WIN) := by
          unfold reborder
          rw [if_pos hborder, if_neg (by rw [haction]; decide), if_pos ⟨haction, hkeep⟩]
        have hx := innerX c w
        have hy := innerY c w
        have hdrawable : r.drawable c = { c.drawable w with borderWidth := r.bw } := by
          rw [Request.drawable, hsize.1, hsize.2, Int16.add_assoc, Int16.add_assoc, ← short_sum hkeep.1, ← short_sum hkeep.2,
            ← Int16.add_assoc, ← Int16.add_assoc, hx, hy]
        have hchanged : miChangeBorderWidth c w r.bw = { c with drawable := update c.drawable w (r.drawable c) } := by
          rw [hdrawable]
          unfold miChangeBorderWidth
          split
          · rename_i hsame
            rw [← hsame]
            exact congrArg (fun f => { c with drawable := f }) (update_eq_self w c.drawable).symm
          · rfl
        rw [hre]
        rw [hchanged]
        cases hstack : mask.getLsbD CWStackMode with
        | true => exact map_moved _ _ fun m => rfl
        | false =>
          unfold moveWindowInStack
          rw [hsib hstack, if_neg (not_not_intro rfl)]
          rfl
      · have hre : reborder c w mask r = (setBorderWidth c w r.bw, .MOVE_WIN) := by
          unfold reborder
          rw [if_pos hborder, if_neg (by rw [haction]; decide), if_neg fun h => hkeep h.2, haction]
        rw [hre]
        exact hmove hsize
    | RESIZE_WIN =>
      have hre : reborder c w mask r = (setBorderWidth c w r.bw, .RESIZE_WIN) := by
        unfold reborder
        rw [if_pos hborder, if_neg (by rw [haction]; decide), if_neg (by rw [haction]; simp), haction]
      rw [hre]
      refine map_moved _ _ fun m => ?_
      rw [hset, hself]
      rfl
    | REBORDER_WIN => exact absurd haction h.action

/-! ## The stack afterwards -/

/-- **A move in the stack** leaves the order as it is exactly if the window stands there already. -/
theorem moved_spec (h : l.Runs (us ++ w :: vs)) {pSib : Option ν} (hsib : ∀ s, pSib = some s → s ∈ us ++ vs)
    (hfuel : (us ++ w :: vs).length < fuel) : ∃ m xs', moveWindowInStack fuel l w pSib = .ok m ∧ m.1.Runs xs' ∧ w ∈ xs' ∧
      m.1.next w = pSib ∧ (xs' = us ++ w :: vs ↔ l.next w = pSib) := by
  obtain ⟨as, bs, hsplit, hhead⟩ := exists_split hsib
  obtain ⟨m, hm, hleaves⟩ := moveWindowInStack_leaves h hsplit hfuel
  have hnext : m.1.next w = pSib := hleaves.runs.next_at.trans hhead
  rw [hhead] at hm
  refine ⟨m, as ++ w :: bs, hm, hleaves.runs, mem_append_right _ mem_cons_self, hnext, fun heq => ?_, fun heq => ?_⟩
  · have hruns := hleaves.runs
    rw [heq] at hruns
    rw [h.next_at, ← hruns.next_at, hnext]
  · have hnodup := h.nodup
    rw [nodup_middle, nodup_cons] at hnodup
    obtain ⟨rfl, rfl⟩ := split_unique hnodup.2 hsplit (by rw [hhead, ← heq, h.next_at])
    rfl

theorem setPrevIf_next {l' : DList ν} {p v : Option ν} (h : setPrevIf l p v = .ok l') :
    l'.next = l.next ∧ l'.first = l.first := by
  cases p with
  | none =>
    obtain rfl := Except.ok.inj h
    exact ⟨rfl, rfl⟩
  | some p =>
    obtain rfl := Except.ok.inj h
    exact ⟨rfl, rfl⟩

theorem setNextIf_next {l' : DList ν} {p v : Option ν} (h : setNextIf l p v = .ok l') :
    l'.next = DList.setIf l.next p v ∧ l'.first = l.first := by
  cases p with
  | none =>
    obtain rfl := Except.ok.inj h
    exact ⟨rfl, rfl⟩
  | some p =>
    obtain rfl := Except.ok.inj h
    exact ⟨rfl, rfl⟩

/-- A write of the value that is there. -/
theorem setIf_keeps {f : ν → Option ν} {v : Option ν} (h : f w = v) (p : Option ν) : DList.setIf f p v w = v := by
  cases p with
  | none => exact h
  | some p =>
    by_cases hp : w = p
    · rw [hp]
      exact update_self p _ _
    · exact (update_of_ne hp _ _).trans h

/-- A window that is put above itself points to itself. -/
theorem moved_self {m : Moved ν} (h : moveWindowInStack fuel l w (some w) = .ok m) : m.1.next w = some w := by
  unfold moveWindowInStack at h
  split at h
  · dsimp only at h
    split at h
    · rename_i hfirst
      obtain ⟨l₁, hl₁, h⟩ := of_bind_ok h
      obtain ⟨l₂, hl₂, h⟩ := of_bind_ok h
      obtain rfl := Except.ok.inj h
      show update l₂.next w l₂.first w = some w
      rw [update_self, (setNextIf_next hl₂).2, (setPrevIf_next hl₁).2]
      split <;> exact hfirst
    · unfold moveInMiddle at h
      obtain ⟨l₁, hl₁, h⟩ := of_bind_ok h
      obtain ⟨l₂, hl₂, h⟩ := of_bind_ok h
      obtain ⟨l₃, hl₃, h⟩ := of_bind_ok h
      have hnext : l₃.next w = some w := by
        rw [(setNextIf_next hl₃).1]
        apply setIf_keeps
        exact update_self w _ _
      split at h
      · obtain rfl := Except.ok.inj h
        exact hnext
      · obtain ⟨p, -, h⟩ := of_bind_ok h
        obtain rfl := Except.ok.inj h
        exact hnext
  · rename_i hsame
    obtain rfl := Except.ok.inj h
    exact not_not.1 hsame

omit [DecidableEq ν] in
/-- What comes behind a window in the stack is another one. -/
theorem next_mem (h : l.Runs (us ++ w :: vs)) {n : ν} (hs : s ∈ us ++ w :: vs) (hn : l.next s = some n) :
    n ∈ us ++ w :: vs := by
  obtain ⟨as, bs, hsplit⟩ := append_of_mem hs
  rw [hsplit] at h ⊢
  rw [h.next_at] at hn
  exact mem_append_right _ (mem_cons_of_mem _ (mem_of_head? hn))

omit [DecidableEq ν] in
theorem next_ne (h : l.Runs (us ++ w :: vs)) {n : ν} (hn : l.next w = some n) : n ∈ us ++ vs := by
  rw [h.next_at] at hn
  exact mem_append_right _ (mem_of_head? hn)

/-- **The place** of the window is the one below which its target stands. -/
theorem target_spec (h : l.Runs (us ++ w :: vs)) {first : Option ν} (hfirst : ∀ n, first = some n → n ∈ us ++ w :: vs) {p : Place ν}
    (hsib : ∀ s, p = .above s ∨ p = .below s → s ∈ us ++ vs) (hself : ¬(p = .top ∧ first = some w)) :
    (∀ n, target l first w p = some n → n ∈ us ++ vs) ∧ (l.next w = target l first w p ↔ AtPlace l first w p) := by
  have hother : ∀ n, n ∈ us ++ w :: vs → n ≠ w → n ∈ us ++ vs := by
    intro n hn hne
    rw [mem_append, mem_cons] at hn
    rw [mem_append]
    exact hn.imp id fun hn => hn.resolve_left hne
  cases p with
  | stay => exact ⟨fun n hn => next_ne h hn, iff_of_true rfl trivial⟩
  | top =>
    refine ⟨fun n hn => hother n (hfirst n hn) fun heq => hself ⟨rfl, ?_⟩, Iff.rfl⟩
    rw [← heq]
    exact hn
  | bottom => exact ⟨fun n hn => absurd hn.symm (some_ne_none n), Iff.rfl⟩
  | above s =>
    refine ⟨fun n hn => ?_, Iff.rfl⟩
    rw [← some.inj hn]
    exact hsib s (.inl rfl)
  | below s =>
    have hs := hsib s (.inr rfl)
    have hmem : s ∈ us ++ w :: vs := by
      rw [mem_append] at hs
      rw [mem_append, mem_cons]
      exact hs.imp id .inr
    show (∀ n, (if l.next s ≠ some w then l.next s else l.next w) = some n → _) ∧
      (l.next w = (if l.next s ≠ some w then l.next s else l.next w) ↔ l.next s = some w)
    by_cases hnext : l.next s = some w
    · rw [if_neg (not_not_intro hnext)]
      exact ⟨fun n hn => next_ne h hn, iff_of_true rfl hnext⟩
    · rw [if_pos hnext]
      refine ⟨fun n hn => hother n (next_mem h hmem hn) ?_, iff_of_false (fun heq => ?_) hnext⟩
      · rintro rfl
        exact hnext hn
      · rw [← h.next_inj (mem_append_right _ mem_cons_self) hmem heq] at hs
        exact not_mem_siblings h hs

/-! ## The event -/

/-- The event that tells of a geometry, and of the window below. -/
def eventOf (env : ConfigEnv ν) (w : ν) (g : Geometry) (aboveSibling : Option ν) : ConfigureNotify ν where
  window := w
  aboveSibling := aboveSibling
  x := g.x
  y := g.y
  width := g.width
  height := g.height
  borderWidth := g.borderWidth
  overrideRedirect := env.overrideRedirect

/-- If anybody has selected it, the event is sent exactly if the geometry or the order has changed, and tells what is there then. -/
def Announced (env : ConfigEnv ν) (c : Children ν) (xs : List ν) (w : ν) (r : Configured ν) : Prop :=
  ∃ xs', r.children.stack.Runs xs' ∧ w ∈ xs' ∧
    r.events = if env.subStrSend = true ∧ (geometry r.children w ≠ geometry c w ∨ xs' ≠ xs) then
      [eventOf env w (geometry r.children w) (r.children.stack.next w)] else []

/-- A stack mode is given, and neither the geometry nor the place in the stack is another one. -/
def Idle (env : ConfigEnv ν) (c : Children ν) (xs : List ν) (w : ν) (mask : BitVec 32) (q : Request ν) : Prop :=
  env.subStrSend = true ∧ mask.getLsbD CWStackMode = true ∧ SameGeometry env c w q ∧
    AtPlace c.stack (pFirst env c) w (place env c xs w (requestBox c q) q.pSib q.smode)

/-- The window is to stand on top, because of a sibling that is held there, and is the first of the others. -/
def AboveItself (env : ConfigEnv ν) (c : Children ν) (xs : List ν) (w : ν) (mask : BitVec 32) (q : Request ν) : Prop :=
  mask.getLsbD CWStackMode = true ∧ place env c xs w (requestBox c q) q.pSib q.smode = .top ∧ pFirst env c = some w

/-- The window has the geometry that was asked for. -/
theorem geometry_update (r : Request ν) (l : DList ν) :
    geometry { c with stack := l, drawable := update c.drawable w (r.drawable c) } w = r.geometry := by
  have hx : c.parentX + r.x + r.bw.toInt16 - c.parentX - r.bw.toInt16 = r.x := by grind
  have hy : c.parentY + r.y + r.bw.toInt16 - c.parentY - r.bw.toInt16 = r.y := by grind
  unfold geometry outerX outerY
  dsimp only
  rw [update_self, Request.drawable, Request.geometry]
  rw [hx, hy]

omit [DecidableEq ν] in
/-- Without a stack mode, what is done changes the geometry. -/
theorem somethingToDo_changes (h : Settled c w mask r) (hdo : somethingToDo c w mask r = true) (hstack : mask.getLsbD CWStackMode = false) :
    r.geometry ≠ geometry c w := by
  intro hsame
  obtain ⟨hx, hy, hsize, hbw⟩ := (geometry_iff rfl).1 hsame
  unfold somethingToDo at hdo
  rw [hstack, hx, hy, hbw, bne_self_eq_false, bne_self_eq_false, bne_self_eq_false] at hdo
  have hresize : r.action = .RESIZE_WIN := by simpa using hdo
  exact h.resize hresize hsize

/-- **Carrying out the request**: nothing happens, or the window changes once and the event is sent. -/
theorem configure_cases {siblings : List ν} {q : Request ν} {pSib : Option ν} {a : Configured ν} (hq : Asks c w siblings mask q)
    (hsib : mask.getLsbD CWStackMode = false → pSib = c.stack.next w) (hrun : configure env c w mask q pSib = .ok a)
    (haccept : a.status = Success) :
    (a = unchanged c false ∧ mask.getLsbD CWStackMode = false) ∨
      ∃ (g : Geometry) (m : Moved ν), (g = geometry c w ↔ SameGeometry env c w q) ∧
        (mask.getLsbD CWStackMode = false → g ≠ geometry c w) ∧ moveWindowInStack env.fuel c.stack w pSib = .ok m ∧
        a.children.stack = m.1 ∧ geometry a.children w = g ∧ a.events = if env.subStrSend then [eventOf env w g pSib] else [] := by
  unfold configure at hrun
  rcases @reclassify_spec _ _ env _ _ _ _ hq with ⟨r, hr, hsettled, hsame⟩ | ⟨hnone, hstack⟩
  · rw [hr] at hrun
    dsimp only at hrun
    split at hrun
    · rename_i hnothing
      refine .inl ⟨(Except.ok.inj hrun).symm, ?_⟩
      unfold somethingToDo at hnothing
      cases hstack : mask.getLsbD CWStackMode with
      | false => rfl
      | true =>
        rw [hstack, Bool.or_true] at hnothing
        exact absurd hnothing (by decide)
    · rename_i hdo
      rw [Bool.not_eq_true', Bool.not_eq_false] at hdo
      split at hrun
      · rename_i hrefused
        obtain rfl := Except.ok.inj hrun
        exact absurd haccept hrefused
      · right
        rw [change_eq hsettled hsib] at hrun
        obtain ⟨c', hc', hrun⟩ := of_bind_ok hrun
        obtain rfl := Except.ok.inj hrun
        cases hm : moveWindowInStack env.fuel c.stack w pSib with
        | error e =>
          rw [hm] at hc'
          exact nomatch hc'
        | ok m =>
          rw [hm] at hc'
          obtain rfl := Except.ok.inj hc'
          exact ⟨r.geometry, m, hsame, somethingToDo_changes hsettled hdo, rfl, rfl, geometry_update r m.1, rfl⟩
  · rw [hnone] at hrun
    exact .inl ⟨(Except.ok.inj hrun).symm, hstack⟩

omit [DecidableEq ν] in
theorem pFirst_mem (h : c.stack.Runs xs) (hhead : ∀ p, env.pHead = some p → p ∈ xs) (n : ν) (hn : pFirst env c = some n) : n ∈ xs := by
  unfold pFirst at hn
  cases hp : env.pHead with
  | none =>
    rw [hp] at hn
    exact mem_of_head? (h.first.symm.trans hn)
  | some p =>
    rw [hp] at hn
    obtain ⟨as, bs, rfl⟩ := append_of_mem (hhead p hp)
    exact next_mem h (mem_append_right _ mem_cons_self) hn

/-- What the place of a request is relative to. -/
theorem place_sibling {xs siblings : List ν} {q : Request ν} (hq : Asks c w siblings mask q) {box : BoxRec}
    (h : place env c xs w box q.pSib q.smode = .above s ∨ place env c xs w box q.pSib q.smode = .below s) : s ∈ siblings := by
  have hsib : q.pSib = some s := by
    cases hmode : q.smode <;> cases hs : q.pSib <;> rw [hs] at h <;> unfold place at h <;> dsimp only at h <;>
      repeat' split at h
    all_goals simp_all
  exact hq.sib s hsib

/-- The search in the stack, and what follows. -/
theorem configureWindow_sibling {q : Request ν} {a : Configured ν} (hq : readValues env c w mask vlist = .ok q)
    (hrun : ConfigureWindow env c w mask vlist = .ok a) : ∃ pSib,
      (mask.getLsbD CWStackMode = true → whereDoIGoInTheStack env c w q.pSib (requestBox c q) q.smode = .ok pSib) ∧
        (mask.getLsbD CWStackMode = false → pSib = c.stack.next w) ∧
        (if redirects env w mask q then .ok (unchanged c true) else configure env c w mask q pSib) = .ok a := by
  unfold ConfigureWindow at hrun
  rw [hq] at hrun
  dsimp only at hrun
  cases hstack : mask.getLsbD CWStackMode with
  | true =>
    rw [if_pos hstack] at hrun
    obtain ⟨pSib, hsib, hrun⟩ := of_bind_ok hrun
    exact ⟨pSib, fun _ => hsib, fun h => Bool.noConfusion h, hrun⟩
  | false =>
    rw [if_neg (by rw [hstack]; decide)] at hrun
    exact ⟨c.stack.next w, fun h => Bool.noConfusion h, fun _ => rfl, hrun⟩

/-- **The event of a request**, for every window, mask and list of values: it is sent exactly if something changes, and tells what is there
then, unless a stack mode that changes nothing is given, or one that puts the window above itself. -/
theorem configure_announced {q : Request ν} {a : Configured ν} (hruns : c.stack.Runs xs) (hw : w ∈ xs) (hfuel : xs.length < env.fuel)
    (hhead : ∀ p, env.pHead = some p → p ∈ xs) (hlookup : ∀ id s, env.lookupWindow id = .ok (some s) → s ∈ xs)
    (hq : readValues env c w mask vlist = .ok q) (hrun : ConfigureWindow env c w mask vlist = .ok a) (haccept : a.status = Success)
    (hown : a.redirected = false) : Announced env c xs w a ↔ ¬Idle env c xs w mask q ∧ ¬AboveItself env c xs w mask q := by
  obtain ⟨us, vs, rfl⟩ := append_of_mem hw
  have hasks := readValues_asks hlookup hq
  obtain ⟨pSib, hsib, hnosib, hrun⟩ := configureWindow_sibling hq hrun
  split at hrun
  · obtain rfl := Except.ok.inj hrun
    exact Bool.noConfusion hown
  · rcases configure_cases hasks hnosib hrun haccept with ⟨rfl, hstack⟩ | ⟨g, m, hsame, hchanges, hm, hstack', hgeometry, hevents⟩
    · -- nothing is done, and no stack mode was given
      have hno : ¬mask.getLsbD CWStackMode = true := by rw [hstack]; decide
      refine iff_of_true ⟨us ++ w :: vs, hruns, hw, ?_⟩ ⟨fun h => hno h.2.1, fun h => hno h.1⟩
      rw [if_neg]
      · rfl
      · rintro ⟨-, h | h⟩ <;> exact h rfl
    · by_cases hself : AboveItself env c (us ++ w :: vs) w mask q
      · -- no order of the siblings has the window above itself
        refine iff_of_false (fun h => ?_) fun h => h.2 hself
        obtain ⟨xs', hruns', hw', -⟩ := h
        obtain ⟨hstack, htop, hfirst⟩ := hself
        have hanswer : pSib = some w := by
          rcases whereDoIGoInTheStack_target hruns hfuel hasks.sib hhead (requestBox c q) q.smode with htarget | ⟨-, hfault⟩
          · rw [hsib hstack, htop] at htarget
            exact (Except.ok.inj htarget).trans hfirst
          · rw [hsib hstack] at hfault
            exact nomatch hfault
        rw [hanswer] at hm
        have hnext := moved_self hm
        obtain ⟨as, bs, rfl⟩ := append_of_mem hw'
        rw [hstack'] at hruns'
        rw [hruns'.next_at] at hnext
        exact not_mem_siblings hruns' (mem_append_right _ (mem_of_head? hnext))
      · have htarget : (∀ n, pSib = some n → n ∈ us ++ vs) ∧ (mask.getLsbD CWStackMode = true → (c.stack.next w = pSib ↔
            AtPlace c.stack (pFirst env c) w (place env c (us ++ w :: vs) w (requestBox c q) q.pSib q.smode))) := by
          cases hstack : mask.getLsbD CWStackMode with
          | false =>
            rw [hnosib hstack]
            exact ⟨fun n hn => next_ne hruns hn, fun h => Bool.noConfusion h⟩
          | true =>
            have hplace := target_spec hruns (pFirst_mem hruns hhead) (fun s hs => place_sibling hasks hs)
              fun h => hself ⟨hstack, h.1, h.2⟩
            rcases whereDoIGoInTheStack_target hruns hfuel hasks.sib hhead (requestBox c q) q.smode with htarget | ⟨-, hfault⟩
            · rw [hsib hstack] at htarget
              rw [Except.ok.inj htarget]
              exact ⟨hplace.1, fun _ => hplace.2⟩
            · rw [hsib hstack] at hfault
              exact nomatch hfault
        obtain ⟨m', xs', hm', hruns', hw', hnext, horder⟩ := moved_spec hruns htarget.1 hfuel
        obtain rfl : m = m' := Except.ok.inj (hm.symm.trans hm')
        rw [and_iff_left hself]
        -- the order and the geometry are as they were exactly if nothing that was asked for is new
        have hidle : Idle env c (us ++ w :: vs) w mask q ↔
            env.subStrSend = true ∧ ¬(g ≠ geometry c w ∨ xs' ≠ us ++ w :: vs) := by
          unfold Idle
          rw [not_or, not_not, not_not]
          cases hstack : mask.getLsbD CWStackMode with
          | false =>
            have hnew := hchanges hstack
            refine iff_of_false (fun h => Bool.noConfusion h.2.1) fun h => hnew h.2.1
          | true =>
            tauto
        rw [hidle]
        unfold Announced
        rw [hstack', hgeometry, hevents, hnext]
        constructor
        · rintro ⟨xs'', hruns'', -, heq⟩ ⟨hsent, hno⟩
          obtain rfl := hruns''.unique hruns'
          rw [if_pos hsent, if_neg fun h => hno h.2] at heq
          exact cons_ne_nil _ _ heq
        · intro hyes
          refine ⟨xs', hruns', hw', ?_⟩
          by_cases hsent : env.subStrSend = true
          · rw [if_pos hsent, if_pos ⟨hsent, by_contra fun hno => hyes ⟨hsent, hno⟩⟩]
          · rw [if_neg hsent, if_neg fun h => hsent h.1]

/-! ## Three children -/

/-- Nobody holds a window on top or takes a request over, and somebody has selected the event. -/
def openEnv : ConfigEnv ℕ where
  fuel := 4
  pHead := none
  shapeOverlap _ _ _ _ := true
  borderMeets _ _ := false
  lookupWindow id := .ok (if id.toNat < 3 then some id.toNat else none)
  inputOnly := false
  overrideRedirect := false
  redirectSend := false
  deliverRequest _ := false
  resizeRedirect := false
  deliverResize _ _ := false
  configNotify _ _ := Success
  subStrSend := true

def threeWindows : Children ℕ where
  stack := threeChildren
  drawable _ := ⟨0, 0, 10, 10, 0⟩
  mapped _ := true
  parentX := 0
  parentY := 0

/-- The lowest child is lowered: nothing changes, and the event is sent. -/
theorem lowest_lowered : ∃ a, ConfigureWindow openEnv threeWindows 2 64 (fun _ => 1) = .ok a ∧ a.status = Success ∧
    a.redirected = false ∧ a.events = [eventOf openEnv 2 (geometry threeWindows 2) none] ∧ a.children.stack.Runs [0, 1, 2] ∧
    geometry a.children 2 = geometry threeWindows 2 ∧ ¬Announced openEnv threeWindows [0, 1, 2] 2 a := by
  refine ⟨_, rfl, rfl, rfl, rfl, threeChildren_runs, rfl, ?_⟩
  rintro ⟨xs', hruns, -, hevents⟩
  obtain rfl : xs' = [0, 1, 2] := hruns.unique threeChildren_runs
  exact absurd hevents (by decide)

/-- The lowest child is raised. -/
theorem configure_announced_raised : ∃ q a, ConfigureWindow openEnv threeWindows 2 64 (fun _ => 0) = .ok a ∧
    (Announced openEnv threeWindows [0, 1, 2] 2 a ↔ ¬Idle openEnv threeWindows [0, 1, 2] 2 64 q ∧
      ¬AboveItself openEnv threeWindows [0, 1, 2] 2 64 q) := by
  have hlookup : ∀ id s, openEnv.lookupWindow id = .ok (some s) → s ∈ [0, 1, 2] := by
    intro id s hs
    have hfound : (if id.toNat < 3 then some id.toNat else none) = some s := Except.ok.inj hs
    split at hfound
    · rename_i hlt
      have heq : id.toNat = s := some.inj hfound
      simp
      omega
    · exact absurd hfound.symm (some_ne_none s)
  have hq : readValues openEnv threeWindows 2 64 (fun _ => 0) = .ok _ := rfl
  have hrun : ConfigureWindow openEnv threeWindows 2 64 (fun _ => 0) = .ok _ := rfl
  exact ⟨_, _, hrun, configure_announced threeChildren_runs (by decide) (by decide) (fun p hp => absurd hp.symm (some_ne_none p))
    hlookup hq hrun rfl rfl⟩

end Xenia.WindowStack
