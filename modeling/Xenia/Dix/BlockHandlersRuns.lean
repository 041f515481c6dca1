import Mathlib.Tactic
import Xenia.Dix.BlockHandlers

/-!
# Runs of the block and wakeup handlers

Two things go wrong inside a pass. A removal stops at the first element of its functions, also
when that one is marked already: of two registrations of the same functions the second is then
not removed (`second_removal_lost`). And a pass that runs inside another takes the marked
elements out when it ends, under the index of the outer loop, which then misses a handler
(`inner_pass_shifts`).

`Fits` rules both out, step by step, and `handlers_correct` is about the runs that are left.
-/

namespace Xenia.Dix.BlockHandlers

open Xenia.Lib List

variable {s s' : RegistryState} {start calls : List Registration} {rest : List Frame} {f : Frame} {h : Handler}
  {i screens : ℕ} {e : BlockHandlerRec}

/-! ### The account -/

section Account

variable {log : List RegistryEvent} {ev : RegistryEvent}

theorem registeredIn_append (log : List RegistryEvent) (ev : RegistryEvent) :
    registeredIn (log ++ [ev]) = ev.account (registeredIn log) := by
  simp [registeredIn]

theorem CallsRegistered.append (hc : CallsRegistered log) (he : ∀ r, ev = .called r → r ∈ registeredIn log) :
    CallsRegistered (log ++ [ev]) := by
  intro past r future heq
  rcases append_singleton_cases heq with ⟨-, rfl, hr⟩ | ⟨future', -, hlog⟩
  · exact he r hr.symm
  · exact hc past r future' hlog

theorem PassesComplete.append (hp : PassesComplete log)
    (he : ∀ start calls, ev = .passed start calls → ∀ r ∈ start, r ∈ registeredIn log → calls.count r = 1) :
    PassesComplete (log ++ [ev]) := by
  intro past start calls future heq
  rcases append_singleton_cases heq with ⟨-, rfl, hr⟩ | ⟨future', -, hlog⟩
  · exact he start calls hr.symm
  · exact hp past start calls future' hlog

end Account

/-! ### The invariant -/

/-- What a frame of the stack says of the handlers `used`. -/
def FrameOk (used : List BlockHandlerRec) : Frame → Prop
  | .block i _ _ calls => i ≤ used.length ∧
    ∀ (j : ℕ) (e : BlockHandlerRec), used[j]? = some e → e.deleted = false → calls.count e.key = if j < i then 1 else 0
  | .blockScreens _ start calls => ∀ (j : ℕ) (e : BlockHandlerRec), used[j]? = some e → e.deleted = false →
    e.key ∈ start → calls.count e.key = 1
  | .wakeupScreens _ _ => True
  | .wakeup i start calls => i ≤ used.length ∧
    ∀ (j : ℕ) (e : BlockHandlerRec), used[j]? = some e → e.deleted = false → e.key ∈ start →
      calls.count e.key = if i ≤ j then 1 else 0
  | .running => True

/-- The registrations that a frame knows. -/
def Frame.known : Frame → List Registration
  | .block _ _ start calls | .blockScreens _ start calls | .wakeup _ start calls => start ++ calls
  | .wakeupScreens _ start => start
  | .running => []

def Frame.isPass : Frame → Bool
  | .running => false
  | _ => true

structure Sound (s : RegistryState) : Prop where
  len : s.numHandlers ≤ s.handlers.length
  account : (s.used.filter fun e => !e.deleted).map BlockHandlerRec.key = registeredIn s.log
  fresh : ∀ e ∈ s.used, e.number < s.next
  numbers : (s.used.map BlockHandlerRec.number).Nodup
  calls : CallsRegistered s.log
  passes : PassesComplete s.log
  depth : s.inHandler = s.stack.countP Frame.isPass
  marked : s.handlerDeleted = false → ∀ e ∈ s.used, e.deleted = false
  outside : s.inHandler = 0 → s.handlerDeleted = false
  frames : ∀ f ∈ s.stack, FrameOk s.used f ∧ ∀ r ∈ f.known, r.1 < s.next

theorem Sound.used_length (hs : Sound s) : s.used.length = s.numHandlers := by
  unfold RegistryState.used
  rw [length_take]
  have := hs.len
  omega

theorem Sound.mem_registered (hs : Sound s) {r : Registration} :
    r ∈ registeredIn s.log ↔ ∃ e ∈ s.used, e.deleted = false ∧ e.key = r := by
  rw [← hs.account]
  simp only [mem_map, mem_filter, Bool.not_eq_true']
  constructor
  · rintro ⟨e, ⟨he, hd⟩, hk⟩
    exact ⟨e, he, hd, hk⟩
  · rintro ⟨e, he, hd, hk⟩
    exact ⟨e, ⟨he, hd⟩, hk⟩

/-- Frames look at the handlers that are not marked, and at where they stand. -/
theorem FrameOk.mono {used used' : List BlockHandlerRec} (hf : FrameOk used f) (hlen : used.length ≤ used'.length)
    (hu : ∀ j e, used'[j]? = some e → e.deleted = false →
      used[j]? = some e ∨ (used.length ≤ j ∧ e.key ∉ f.known)) : FrameOk used' f := by
  cases f with
  | block i screens start calls =>
    refine ⟨hf.1.trans hlen, fun j e he hd => ?_⟩
    rcases hu j e he hd with hold | ⟨hj, hnew⟩
    · exact hf.2 j e hold hd
    · have hcount : calls.count e.key = 0 := count_eq_zero.2 fun hin => hnew (mem_append_right _ hin)
      have := hf.1
      rw [hcount, if_neg (by omega)]
  | blockScreens screens start calls =>
    intro j e he hd hin
    rcases hu j e he hd with hold | ⟨-, hnew⟩
    · exact hf j e hold hd hin
    · exact absurd (mem_append_left _ hin) hnew
  | wakeupScreens screens start => trivial
  | wakeup i start calls =>
    refine ⟨hf.1.trans hlen, fun j e he hd hin => ?_⟩
    rcases hu j e he hd with hold | ⟨-, hnew⟩
    · exact hf.2 j e hold hd hin
    · exact absurd (mem_append_left _ hin) hnew
  | running => trivial

/-! ### Registering -/

variable {new : BlockHandlerRec}

theorem register_used (hlen : s.numHandlers ≤ s.handlers.length) :
    (s.handlers.take s.numHandlers ++ [new]).take (s.numHandlers + 1) = s.used ++ [new] := by
  rw [take_of_length_le]
  · rfl
  · rw [length_append, length_take, length_singleton]
    omega

theorem register_used_set (hlt : s.numHandlers < s.handlers.length) :
    (s.handlers.set s.numHandlers new).take (s.numHandlers + 1) = s.used ++ [new] := by
  rw [take_add_one, take_set_of_le (le_refl _), getElem?_set_self hlt]
  rfl

/-- A new registration in the array. -/
theorem Sound.registered (hs : Sound s) (hs' : s'.used = s.used ++ [⟨h, false, s.next⟩])
    (hlen : s'.numHandlers ≤ s'.handlers.length)
    (hnext : s'.next = s.next + 1) (hlog : s'.log = s.log ++ [.registered (s.next, h)])
    (hin : s'.inHandler = s.inHandler) (hdel : s'.handlerDeleted = s.handlerDeleted)
    (hst : s'.stack = s.stack) : Sound s' where
  len := hlen
  account := by
    rw [hs', hlog, registeredIn_append, filter_append, map_append, hs.account]
    rfl
  fresh := by
    intro e he
    rw [hs'] at he
    rw [hnext]
    rcases mem_append.1 he with he | he
    · have := hs.fresh e he
      omega
    · rw [mem_singleton.1 he]
      exact Nat.lt_succ_self _
  numbers := by
    rw [hs', map_append]
    refine nodup_append.2 ⟨hs.numbers, by simp, fun a ha b hb => ?_⟩
    obtain ⟨e, he, rfl⟩ := mem_map.1 ha
    have hlt := hs.fresh e he
    have : b = s.next := by simpa using hb
    omega
  calls := by
    rw [hlog]
    exact hs.calls.append fun _ heq => by cases heq
  passes := by
    rw [hlog]
    exact hs.passes.append fun _ _ heq => by cases heq
  depth := by
    rw [hin, hst]
    exact hs.depth
  marked := by
    intro hd e he
    rw [hs'] at he
    rcases mem_append.1 he with he | he
    · exact hs.marked (hdel ▸ hd) e he
    · rw [mem_singleton.1 he]
  outside := by
    rw [hin, hdel]
    exact hs.outside
  frames := by
    intro f hf
    rw [hst] at hf
    obtain ⟨hok, hknown⟩ := hs.frames f hf
    refine ⟨hok.mono (by rw [hs', length_append]; omega) fun j e he hd => ?_, fun r hr => ?_⟩
    · rw [hs', getElem?_append] at he
      split at he
      · exact .inl he
      · rename_i hj
        have hnew : e = ⟨h, false, s.next⟩ := mem_singleton.1 (mem_of_getElem? he)
        refine .inr ⟨by omega, fun hin' => ?_⟩
        have := hknown e.key hin'
        rw [hnew] at this
        exact absurd this (lt_irrefl _)
    · have := hknown r hr
      omega

theorem register_sound (hs : Sound s) (memory : Bool) : Sound (registerBlockAndWakeupHandlers h memory s) := by
  unfold registerBlockAndWakeupHandlers
  split
  · split
    · refine hs.registered (register_used hs.len) ?_ rfl rfl rfl rfl rfl
      show s.numHandlers + 1 ≤ (s.handlers.take s.numHandlers ++ [_]).length
      have := hs.len
      rw [length_append, length_take, length_singleton]
      omega
    · exact hs
  · rename_i hlt
    refine hs.registered (register_used_set (by omega)) ?_ rfl rfl rfl rfl rfl
    show s.numHandlers + 1 ≤ (s.handlers.set _ _).length
    rw [length_set]
    omega

/-! ### Removing -/

theorem Sound.record_calls {ev : RegistryEvent} (hs : Sound s) (hev : ev.account (registeredIn s.log) = registeredIn s.log)
    (hc : ∀ r, ev = .called r → r ∈ registeredIn s.log)
    (hp : ∀ start calls, ev = .passed start calls → ∀ r ∈ start, r ∈ registeredIn s.log → calls.count r = 1) :
    Sound (s.record ev) where
  len := hs.len
  account := by
    show _ = registeredIn (s.log ++ [ev])
    rw [registeredIn_append, hev]
    exact hs.account
  fresh := hs.fresh
  numbers := hs.numbers
  calls := hs.calls.append hc
  passes := hs.passes.append hp
  depth := hs.depth
  marked := hs.marked
  outside := hs.outside
  frames := hs.frames

/-- No registration of these functions is left to remove. -/
theorem Sound.remove_none (hs : Sound s) (hno : ∀ e ∈ s.used, e.handler = h → e.deleted = true) :
    Sound (s.record (.remove h)) := by
  refine hs.record_calls ?_ (by simp) (by simp)
  refine eraseP_of_forall_not fun r hr => ?_
  obtain ⟨e, he, hd, rfl⟩ := hs.mem_registered.1 hr
  intro heq
  rw [hno e he (of_decide_eq_true heq)] at hd
  cases hd

theorem find_some (hf : find h s = some i) : ∃ us e vs, s.used = us ++ e :: vs ∧ us.length = i ∧
    e.handler = h ∧ ∀ x ∈ us, x.handler ≠ h := by
  obtain ⟨hi, hp, hbefore⟩ := findIdx?_eq_some_iff_getElem.1 hf
  refine ⟨s.used.take i, s.used[i], s.used.drop (i + 1), ?_, ?_, by simpa using hp, ?_⟩
  · rw [getElem_cons_drop hi, take_append_drop]
  · rw [length_take]
    omega
  · intro x hx
    obtain ⟨j, hj, rfl⟩ := getElem_of_mem hx
    rw [length_take] at hj
    have := hbefore j (by omega)
    simpa using this

theorem find_none (hf : find h s = none) : ∀ e ∈ s.used, e.handler ≠ h := by
  intro e he heq
  have := findIdx?_eq_none_iff.1 hf e he
  simp [heq] at this

variable {us vs : List BlockHandlerRec}

/-- The registration of an unmarked element that a removal finds. -/
theorem Sound.erase (hs : Sound s) (hu : s.used = us ++ e :: vs)
    (hh : e.handler = h) (hd : e.deleted = false) (hus : ∀ x ∈ us, x.handler ≠ h) :
    ((us ++ vs).filter fun e => !e.deleted).map BlockHandlerRec.key = registeredIn (s.log ++ [.remove h]) := by
  have hfilter : (s.used.filter fun e => !e.deleted) =
      (us.filter fun e => !e.deleted) ++ e :: vs.filter fun e => !e.deleted := by
    rw [hu, filter_append, filter_cons_of_pos (by simp [hd])]
  rw [registeredIn_append, ← hs.account, hfilter, map_append, map_cons]
  have hno : ∀ r ∈ (us.filter fun e => !e.deleted).map BlockHandlerRec.key,
      ¬decide (r.2 = h) = true := by
    intro r hr
    obtain ⟨x, hx, rfl⟩ := mem_map.1 hr
    exact fun heq => hus x (mem_filter.1 hx).1 (of_decide_eq_true heq)
  have hyes : (fun r : Registration => decide (r.2 = h)) e.key = true := decide_eq_true hh
  have hcons := eraseP_cons_of_pos (p := fun r : Registration => decide (r.2 = h))
    (l := (vs.filter fun e => !e.deleted).map BlockHandlerRec.key) hyes
  show _ = eraseP (fun r : Registration => decide (r.2 = h)) _
  rw [eraseP_append_right _ hno, hcons, filter_append, map_append]

theorem eraseIdx_middle {α : Type*} (us vs : List α) (x : α) : (us ++ x :: vs).eraseIdx us.length = us ++ vs := by
  rw [eraseIdx_append_of_length_le (le_refl _)]
  simp

theorem takeOut_used (hlen : s.numHandlers ≤ s.handlers.length) (hu : s.used = us ++ e :: vs) : (s.takeOut us.length).used = us ++ vs ∧
      (s.takeOut us.length).numHandlers ≤ (s.takeOut us.length).handlers.length := by
  have hl : s.numHandlers = us.length + vs.length + 1 := by
    have : s.used.length = s.numHandlers := by
      unfold RegistryState.used
      rw [length_take]
      omega
    rw [← this, hu, length_append, length_cons]
    omega
  have hhand : (s.takeOut us.length).handlers = (us ++ vs) ++ s.handlers.drop (s.numHandlers - 1) := by
    show s.used.eraseIdx us.length ++ _ = _
    rw [hu, eraseIdx_middle]
  constructor
  · show (s.takeOut us.length).handlers.take (s.numHandlers - 1) = _
    rw [hhand, take_append_of_le_length, take_of_length_le]
    · rw [length_append]
      omega
    · rw [length_append]
      omega
  · show s.numHandlers - 1 ≤ (s.takeOut us.length).handlers.length
    rw [hhand, length_append, length_append]
    omega

/-- A removal outside of a pass. -/
theorem Sound.takenOut (hs : Sound s) (hu : s.used = us ++ e :: vs)
    (hh : e.handler = h) (hus : ∀ x ∈ us, x.handler ≠ h) (hin : s.inHandler = 0) :
    Sound ((s.record (.remove h)).takeOut us.length) := by
  have hdel := hs.outside hin
  obtain ⟨hused, hlen⟩ := takeOut_used (s := s.record (.remove h)) hs.len hu
  have hsub : (us ++ vs).Sublist s.used := by
    rw [hu]
    exact (sublist_cons_self e vs).append_left us
  have hnone : s.stack.countP Frame.isPass = 0 := hs.depth ▸ hin
  refine ⟨hlen, ?_, ?_, ?_, ?_, ?_, hs.depth, ?_, hs.outside, ?_⟩
  · rw [hused]
    exact hs.erase hu hh (hs.marked hdel e (by simp [hu])) hus
  · rw [hused]
    exact fun x hx => hs.fresh x (hsub.subset hx)
  · rw [hused]
    exact hs.numbers.sublist (hsub.map _)
  · exact hs.calls.append fun _ heq => by cases heq
  · exact hs.passes.append fun _ _ heq => by cases heq
  · rw [hused]
    exact fun _ x hx => hs.marked hdel x (hsub.subset hx)
  · intro f hf
    have hf' := countP_eq_zero.1 hnone f hf
    refine ⟨?_, (hs.frames f hf).2⟩
    cases f with
    | running => trivial
    | _ => exact absurd rfl hf'

theorem modify_middle {α : Type*} (us vs : List α) (x : α) (g : α → α) :
    (us ++ x :: vs).modify us.length g = us ++ g x :: vs := by
  induction us with
  | nil => rfl
  | cons u us ih => simp [ih]

/-- The element marked. -/
def BlockHandlerRec.mark (e : BlockHandlerRec) : BlockHandlerRec := { e with deleted := true }

/-- The state after a removal inside of a pass. -/
def markAt (i : ℕ) (h : Handler) (s : RegistryState) : RegistryState :=
  { s.record (.remove h) with
    handlerDeleted := true
    handlers := s.handlers.modify i BlockHandlerRec.mark }

/-- A removal inside of a pass marks the element. -/
theorem Sound.markedAt (hs : Sound s) (hu : s.used = us ++ e :: vs)
    (hh : e.handler = h) (hus : ∀ x ∈ us, x.handler ≠ h) (hin : s.inHandler ≠ 0)
    (hfit : e.deleted = true → ∀ x ∈ s.used, x.handler = h → x.deleted = true) :
    Sound (markAt us.length h s) := by
  have hused : (markAt us.length h s).used = us ++ e.mark :: vs := by
    have hmod : (markAt us.length h s).used = s.used.modify us.length BlockHandlerRec.mark := take_modify ..
    rw [hmod, hu, modify_middle]
  have hmem : ∀ x ∈ us ++ e.mark :: vs, ∃ y ∈ s.used, x.number = y.number := by
    intro x hx
    rw [hu]
    rcases mem_append.1 hx with hx | hx
    · exact ⟨x, mem_append_left _ hx, rfl⟩
    · rcases mem_cons.1 hx with rfl | hx
      · exact ⟨e, by simp, rfl⟩
      · exact ⟨x, by simp [hx], rfl⟩
  have hnum : (us ++ e.mark :: vs).map BlockHandlerRec.number = s.used.map BlockHandlerRec.number := by
    rw [hu, map_append, map_append]
    rfl
  have hfilter : ((us ++ e.mark :: vs).filter fun e => !e.deleted) = (us ++ vs).filter fun e => !e.deleted := by
    rw [filter_append, filter_cons_of_neg (by simp [BlockHandlerRec.mark]), filter_append]
  refine ⟨?_, ?_, ?_, ?_, ?_, ?_, hs.depth, (fun hd => by cases hd),
    fun h0 => absurd h0 hin, ?_⟩
  · show s.numHandlers ≤ (s.handlers.modify _ _).length
    rw [length_modify]
    exact hs.len
  · show _ = registeredIn (s.log ++ [_])
    rw [hused, hfilter]
    by_cases hd : e.deleted = true
    · -- the element was marked before, and no other is left
      have hold := (hs.remove_none (h := h) fun x hx hxh => hfit hd x hx hxh).account
      have hsame : (s.used.filter fun e => !e.deleted) = (us ++ vs).filter fun e => !e.deleted := by
        rw [hu, filter_append, filter_cons_of_neg (by simp [hd]), filter_append]
      rw [← hsame]
      exact hold
    · exact hs.erase hu hh (by simpa using hd) hus
  · intro x hx
    obtain ⟨y, hy, hxy⟩ := hmem x (hused ▸ hx)
    rw [hxy]
    exact hs.fresh y hy
  · rw [hused, hnum]
    exact hs.numbers
  · exact hs.calls.append fun _ heq => by cases heq
  · exact hs.passes.append fun _ _ heq => by cases heq
  · intro f hf
    obtain ⟨hok, hknown⟩ := hs.frames f hf
    refine ⟨hok.mono ?_ ?_, hknown⟩
    · rw [hused, hu, length_append, length_append, length_cons, length_cons]
    · intro j x hx hxd
      rw [hused] at hx
      rw [hu]
      left
      rw [getElem?_append] at hx ⊢
      split
      · rename_i hj
        rwa [if_pos hj] at hx
      · rename_i hj
        rw [if_neg hj] at hx
        cases hk : j - us.length with
        | zero =>
          rw [hk] at hx
          cases hx
          cases hxd
        | succ k =>
          rw [hk] at hx
          exact hx

/-- A removal finds an unmarked element when there is one to be found. -/
def FindsUnmarked (s : RegistryState) (h : Handler) : Prop :=
  ∀ i e, find h s = some i → s.used[i]? = some e → e.deleted = true →
    ∀ x ∈ s.used, x.handler = h → x.deleted = true

theorem remove_sound (hs : Sound s) (hfit : s.inHandler ≠ 0 → FindsUnmarked s h) :
    Sound (removeBlockAndWakeupHandlers h s) := by
  unfold removeBlockAndWakeupHandlers
  dsimp only
  have hfind : find h (s.record (.remove h)) = find h s := rfl
  rw [hfind]
  cases hf : find h s with
  | none => exact hs.remove_none fun e he heq => absurd heq (find_none hf e he)
  | some i =>
    obtain ⟨us, e, vs, hu, rfl, hh, hus⟩ := find_some hf
    dsimp only
    split
    · rename_i hin
      refine hs.markedAt hu hh hus hin fun hd => hfit hin _ e hf ?_ hd
      rw [hu]
      simp
    · rename_i hin
      exact hs.takenOut hu hh hus (not_not.1 hin)

/-! ### The end of a pass -/

theorem compactFrom_used : ∀ (fuel i : ℕ) (s : RegistryState), s.numHandlers ≤ s.handlers.length →
    s.numHandlers < i + fuel →
    (s.compactFrom fuel i).used = s.used.take i ++ (s.used.drop i).filter (fun e => !e.deleted) ∧
      (s.compactFrom fuel i).numHandlers ≤ (s.compactFrom fuel i).handlers.length := by
  intro fuel
  induction fuel with
  | zero =>
    intro i s hlen hi
    have hl : s.used.length ≤ i := by
      unfold RegistryState.used
      rw [length_take]
      omega
    refine ⟨?_, hlen⟩
    rw [take_of_length_le hl, drop_eq_nil_of_le hl, filter_nil, append_nil]
    rfl
  | succ fuel ih =>
    intro i s hlen hi
    have hl : s.used.length = s.numHandlers := by
      unfold RegistryState.used
      rw [length_take]
      omega
    unfold RegistryState.compactFrom
    split
    · rename_i hlt
      have hget : s.handlers[i]? = some s.used[i] := by
        rw [← getElem?_eq_getElem (by omega)]
        exact (getElem?_take_of_lt hlt).symm
      have hsplit : s.used = s.used.take i ++ s.used[i] :: s.used.drop (i + 1) := by
        rw [getElem_cons_drop, take_append_drop]
      have htl : (s.used.take i).length = i := by
        rw [length_take]
        omega
      rw [hget]
      dsimp only [Option.any_some]
      split
      · rename_i hdel
        obtain ⟨hused, hlen'⟩ := takeOut_used hlen hsplit
        rw [htl] at hused hlen'
        have hn : (s.takeOut i).numHandlers < i + fuel := by
          show s.numHandlers - 1 < i + fuel
          omega
        obtain ⟨h1, h2⟩ := ih i (s.takeOut i) hlen' hn
        refine ⟨?_, h2⟩
        rw [h1, hused, take_append_of_le_length (by omega), take_of_length_le (by omega),
          drop_append_of_le_length (by omega), drop_eq_nil_of_le (by omega), nil_append]
        congr 1
        conv_rhs => rw [← getElem_cons_drop (by omega : i < s.used.length)]
        rw [filter_cons_of_neg (by simp [hdel])]
      · rename_i hdel
        obtain ⟨h1, h2⟩ := ih (i + 1) s hlen (by omega)
        refine ⟨?_, h2⟩
        rw [h1, take_add_one, getElem?_eq_getElem (by omega), append_assoc]
        congr 1
        conv_rhs => rw [← getElem_cons_drop (by omega : i < s.used.length)]
        rw [filter_cons_of_pos (by simp [hdel])]
        rfl
    · refine ⟨?_, hlen⟩
      rw [take_of_length_le (by omega), drop_eq_nil_of_le (by omega), filter_nil, append_nil]

theorem compactFrom_rest : ∀ (fuel i : ℕ) (s : RegistryState), (s.compactFrom fuel i).next = s.next ∧
    (s.compactFrom fuel i).log = s.log ∧ (s.compactFrom fuel i).inHandler = s.inHandler := by
  intro fuel
  induction fuel with
  | zero => exact fun _ _ => ⟨rfl, rfl, rfl⟩
  | succ fuel ih =>
    intro i s
    unfold RegistryState.compactFrom
    split
    · split
      · exact ih i (s.takeOut i)
      · exact ih (i + 1) s
    · exact ⟨rfl, rfl, rfl⟩

/-- The end of a pass, when what is left of the stack agrees with the handlers that are left. -/
theorem Sound.finished (hs : Sound s) (hst : s.stack = f :: rest) (hf : f.isPass = true)
    (hpass : ∀ r ∈ start, r ∈ registeredIn s.log → calls.count r = 1)
    (hfit : 1 < s.inHandler → s.handlerDeleted = false) : Sound (finish start calls rest s) := by
  have hdepth : s.inHandler = rest.countP Frame.isPass + 1 := by
    rw [hs.depth, hst, countP_cons_of_pos hf]
  have hrest : ∀ f ∈ rest, f ∈ s.stack := fun f hf' => hst ▸ mem_cons_of_mem _ hf'
  have hev : RegistryEvent.account (registeredIn s.log) (.passed start calls) = registeredIn s.log := rfl
  have hnone : s.inHandler - 1 = 0 → ∀ f ∈ rest, ∀ used, FrameOk used f := by
    intro h0 f hf' used
    have hf0 := countP_eq_zero.1 (show rest.countP Frame.isPass = 0 by omega) f hf'
    cases f with
    | running => trivial
    | _ => exact absurd rfl hf0
  unfold finish
  dsimp only
  split
  · rename_i hdel
    have hin : s.inHandler = 1 := by
      by_contra hne
      have := hfit (by omega)
      rw [hdel] at this
      cases this
    obtain ⟨hused, hlen⟩ := compactFrom_used (s.numHandlers + 1) 0 s hs.len (by omega)
    obtain ⟨hnext, hlog, hin'⟩ := compactFrom_rest (s.numHandlers + 1) 0 s
    have hused' : (s.compactFrom (s.numHandlers + 1) 0).used = s.used.filter fun e => !e.deleted := by simpa using hused
    have hall : ∀ e ∈ s.used.filter fun e => !e.deleted, e.deleted = false := by
      intro e he
      simpa using (mem_filter.1 he).2
    refine ⟨hlen, ?_, ?_, ?_, ?_, ?_, ?_, ?_, fun _ => rfl, ?_⟩
    · show ((s.compactFrom (s.numHandlers + 1) 0).used.filter _).map _ =
        registeredIn ((s.compactFrom (s.numHandlers + 1) 0).log ++ [_])
      rw [hused', hlog, registeredIn_append, hev, ← hs.account]
      simp
    · intro e he
      have he' : e ∈ (s.compactFrom (s.numHandlers + 1) 0).used := he
      rw [hused'] at he'
      rw [hnext]
      exact hs.fresh e (mem_of_mem_filter he')
    · show ((s.compactFrom (s.numHandlers + 1) 0).used.map _).Nodup
      rw [hused']
      exact hs.numbers.sublist (filter_sublist.map _)
    · show CallsRegistered ((s.compactFrom (s.numHandlers + 1) 0).log ++ [_])
      rw [hlog]
      exact hs.calls.append fun _ heq => by cases heq
    · show PassesComplete ((s.compactFrom (s.numHandlers + 1) 0).log ++ [_])
      rw [hlog]
      exact hs.passes.append fun _ _ heq => by cases heq; exact hpass
    · show (s.compactFrom (s.numHandlers + 1) 0).inHandler - 1 = rest.countP Frame.isPass
      omega
    · intro _ e he
      have he' : e ∈ (s.compactFrom (s.numHandlers + 1) 0).used := he
      rw [hused'] at he'
      exact hall e he'
    · intro f hf'
      refine ⟨hnone (by omega) f hf' _, fun r hr => ?_⟩
      rw [hnext]
      exact (hs.frames f (hrest f hf')).2 r hr
  · rename_i hdel
    have hdel' : s.handlerDeleted = false := by simpa using hdel
    have hrec := hs.record_calls hev (by simp) (fun _ _ heq => by cases heq; exact hpass)
    refine ⟨hs.len, hrec.account, hs.fresh, hs.numbers, hrec.calls, hrec.passes, ?_, hs.marked, fun _ => hdel', ?_⟩
    · show s.inHandler - 1 = rest.countP Frame.isPass
      omega
    · exact fun f hf' => hs.frames f (hrest f hf')

/-! ### The turns of a pass -/

/-- A pass goes on as `f'`. -/
theorem Sound.goes_on (f' : Frame) (hs : Sound s) (hst : s.stack = f :: rest) (hf : f.isPass = true) (hf' : f'.isPass = true)
    (hok : FrameOk s.used f') (hknown : ∀ r ∈ f'.known, r.1 < s.next) :
    Sound { s with stack := f' :: rest } := by
  refine ⟨hs.len, hs.account, hs.fresh, hs.numbers, hs.calls, hs.passes, ?_, hs.marked, hs.outside, ?_⟩
  · show s.inHandler = (f' :: rest).countP Frame.isPass
    rw [hs.depth, hst, countP_cons_of_pos hf, countP_cons_of_pos hf']
  · intro g hg
    rcases mem_cons.1 hg with rfl | hg
    · exact ⟨hok, hknown⟩
    · exact hs.frames g (hst ▸ mem_cons_of_mem _ hg)

/-- A handler of a screen, or a registered one, runs. -/
theorem Sound.runs (hs : Sound s) : Sound { s with stack := .running :: s.stack } := by
  refine ⟨hs.len, hs.account, hs.fresh, hs.numbers, hs.calls, hs.passes, hs.depth, hs.marked, hs.outside, ?_⟩
  intro g hg
  rcases mem_cons.1 hg with rfl | hg
  · exact ⟨trivial, by simp [Frame.known]⟩
  · exact hs.frames g hg

theorem Sound.called {f' : Frame} (hs : Sound s) (hst : s.stack = f :: rest) (hf : f.isPass = true) (hf' : f'.isPass = true)
    (he : e ∈ s.used) (hd : e.deleted = false) (hok : FrameOk s.used f') (hknown : ∀ r ∈ f'.known, r.1 < s.next) :
    Sound (call e f' rest s) := by
  refine ((hs.goes_on _ hst hf hf' hok hknown).runs).record_calls rfl ?_ (by simp)
  intro r heq
  cases heq
  exact hs.mem_registered.2 ⟨e, he, hd, rfl⟩

theorem get_used (hi : i < s.numHandlers) (he : s.handlers[i]? = some e) : s.used[i]? = some e := by
  unfold RegistryState.used
  rw [getElem?_take_of_lt hi]
  exact he

/-- Two elements with one registration are one. -/
theorem Sound.index_unique (hs : Sound s) {j k : ℕ} {x y : BlockHandlerRec} (hj : s.used[j]? = some x)
    (hk : s.used[k]? = some y) (hxy : x.key = y.key) : j = k := by
  have hn := hs.numbers
  rw [nodup_iff_getElem?_ne_getElem?] at hn
  by_contra hne
  have hx : (s.used.map BlockHandlerRec.number)[j]? = some x.number := by rw [getElem?_map, hj]; rfl
  have hy : (s.used.map BlockHandlerRec.number)[k]? = some y.number := by rw [getElem?_map, hk]; rfl
  have hnum : x.number = y.number := congrArg Prod.fst hxy
  have hlen : ∀ m z, (s.used.map BlockHandlerRec.number)[m]? = some z →
      m < (s.used.map BlockHandlerRec.number).length := fun m z hm => (List.getElem?_eq_some_iff.1 hm).1
  rcases lt_or_gt_of_ne hne with hlt | hlt
  · exact hn j k hlt (hlen k _ hy) (by rw [hx, hy, hnum])
  · exact hn k j hlt (hlen j _ hx) (by rw [hx, hy, hnum])

theorem blockTurn_sound (hs : Sound s) (hst : s.stack = .block i screens start calls :: rest) :
    Sound (blockTurn i screens start calls rest s) := by
  obtain ⟨⟨hi, hcount⟩, hknown⟩ := hs.frames _ (hst ▸ mem_cons_self ..)
  have hlen := hs.used_length
  unfold blockTurn
  split
  · rename_i hlt
    split
    · exact hs
    · rename_i e he
      have hget := get_used hlt he
      split
      · rename_i hdel
        refine hs.goes_on _ hst rfl rfl ⟨by omega, fun j x hx hxd => ?_⟩ hknown
        have hne : j ≠ i := by
          rintro rfl
          rw [hget] at hx
          cases hx
          rw [hdel] at hxd
          cases hxd
        rw [hcount j x hx hxd]
        split_ifs <;> omega
      · rename_i hdel
        have hd : e.deleted = false := by simpa using hdel
        have hmem : e ∈ s.used := mem_of_getElem? hget
        refine hs.called hst rfl rfl hmem hd ⟨by omega, fun j x hx hxd => ?_⟩ fun r hr => ?_
        · rw [count_append, hcount j x hx hxd]
          by_cases hj : j = i
          · rw [hj] at hx
            rw [hget] at hx
            cases hx
            rw [hj]
            simp
          · have hxe : x.key ≠ e.key := fun heq => hj (hs.index_unique hx hget heq)
            have hzero : [e.key].count x.key = 0 := count_eq_zero.2 (by simpa using hxe)
            split_ifs <;> omega
        · rcases mem_append.1 hr with hr | hr
          · exact hknown r (mem_append_left _ hr)
          · rcases mem_append.1 hr with hr | hr
            · exact hknown r (mem_append_right _ hr)
            · rw [mem_singleton.1 hr]
              exact hs.fresh e hmem
  · refine hs.goes_on _ hst rfl rfl (fun j x hx hxd _ => ?_) hknown
    have hj := (List.getElem?_eq_some_iff.1 hx).1
    rw [hcount j x hx hxd, if_pos (by omega)]

theorem wakeupTurn_sound (hs : Sound s) (hst : s.stack = .wakeup i start calls :: rest)
    (hfit : i = 0 → 1 < s.inHandler → s.handlerDeleted = false) : Sound (wakeupTurn i start calls rest s) := by
  obtain ⟨⟨hi, hcount⟩, hknown⟩ := hs.frames _ (hst ▸ mem_cons_self ..)
  have hlen := hs.used_length
  unfold wakeupTurn
  cases i with
  | zero =>
    refine hs.finished hst rfl (fun r hr hreg => ?_) (hfit rfl)
    obtain ⟨e, he, hd, rfl⟩ := hs.mem_registered.1 hreg
    obtain ⟨j, hj⟩ := getElem?_of_mem he
    rw [hcount j e hj hd hr, if_pos (Nat.zero_le j)]
  | succ i =>
    dsimp only
    split
    · exact hs
    · rename_i e he
      have hget := get_used (by omega) he
      split
      · rename_i hdel
        refine hs.goes_on _ hst rfl rfl ⟨by omega, fun j x hx hxd hin => ?_⟩ hknown
        have hne : j ≠ i := by
          rintro rfl
          rw [hget] at hx
          cases hx
          rw [hdel] at hxd
          cases hxd
        rw [hcount j x hx hxd hin]
        split_ifs <;> omega
      · rename_i hdel
        have hd : e.deleted = false := by simpa using hdel
        have hmem : e ∈ s.used := mem_of_getElem? hget
        refine hs.called hst rfl rfl hmem hd ⟨by omega, fun j x hx hxd hin => ?_⟩ fun r hr => ?_
        · rw [count_append, hcount j x hx hxd hin]
          by_cases hj : j = i
          · rw [hj] at hx
            rw [hget] at hx
            cases hx
            rw [hj]
            simp
          · have hxe : x.key ≠ e.key := fun heq => hj (hs.index_unique hx hget heq)
            have hzero : [e.key].count x.key = 0 := count_eq_zero.2 (by simpa using hxe)
            split_ifs <;> omega
        · rcases mem_append.1 hr with hr | hr
          · exact hknown r (mem_append_left _ hr)
          · rcases mem_append.1 hr with hr | hr
            · exact hknown r (mem_append_right _ hr)
            · rw [mem_singleton.1 hr]
              exact hs.fresh e hmem

/-! ### Runs -/

/-- The step ends the pass on top of the stack. -/
def endsPass : List Frame → Bool
  | .blockScreens 0 _ _ :: _ | .wakeup 0 _ _ :: _ => true
  | _ => false

/-- A removal inside of a pass finds an unmarked element when there is one, and a pass that ends
inside another finds no marked ones. -/
def Fits (s : RegistryState) : RegistryInput → Prop
  | .remove h => s.inHandler ≠ 0 → FindsUnmarked s h
  | .goOn => endsPass s.stack = true → 1 < s.inHandler → s.handlerDeleted = false
  | _ => True

theorem goOn_sound (hs : Sound s) (hfit : Fits s .goOn) : Sound (goOn s) := by
  unfold Fits at hfit
  unfold goOn
  split
  · rename_i i screens start calls rest hst
    exact blockTurn_sound hs hst
  · rename_i start calls rest hst
    rw [hst] at hfit
    obtain ⟨hok, hknown⟩ := hs.frames _ (hst ▸ mem_cons_self ..)
    refine hs.finished hst rfl (fun r hr hreg => ?_) (hfit rfl)
    obtain ⟨e, he, hd, rfl⟩ := hs.mem_registered.1 hreg
    obtain ⟨j, hj⟩ := getElem?_of_mem he
    exact hok j e hj hd hr
  · rename_i n start calls rest hst
    obtain ⟨hok, hknown⟩ := hs.frames _ (hst ▸ mem_cons_self ..)
    exact (hs.goes_on (.blockScreens n start calls) hst rfl rfl hok hknown).runs
  · rename_i start rest hst
    obtain ⟨-, hknown⟩ := hs.frames _ (hst ▸ mem_cons_self ..)
    refine hs.goes_on _ hst rfl rfl ⟨hs.used_length.ge, fun j x hx _ _ => ?_⟩ fun r hr => ?_
    · have hj := (List.getElem?_eq_some_iff.1 hx).1
      rw [hs.used_length] at hj
      rw [count_nil, if_neg (by omega)]
    · exact hknown r (by simpa [Frame.known] using hr)
  · rename_i n start rest hst
    obtain ⟨-, hknown⟩ := hs.frames _ (hst ▸ mem_cons_self ..)
    exact (hs.goes_on (.wakeupScreens n start) hst rfl rfl trivial hknown).runs
  · rename_i i start calls rest hst
    rw [hst] at hfit
    refine wakeupTurn_sound hs hst fun h0 => ?_
    subst h0
    exact hfit rfl
  · exact hs
  · exact hs

theorem begin_sound (hs : Sound s) (hf : f.isPass = true) (hok : FrameOk s.used f)
    (hknown : ∀ r ∈ f.known, r.1 < s.next) : Sound (begin f s) := by
  refine ⟨hs.len, hs.account, hs.fresh, hs.numbers, hs.calls, hs.passes, ?_, hs.marked, fun h0 => ?_, ?_⟩
  · show s.inHandler + 1 = (f :: s.stack).countP Frame.isPass
    rw [countP_cons_of_pos hf, hs.depth]
  · exact absurd h0 (Nat.succ_ne_zero _)
  · intro g hg
    rcases mem_cons.1 hg with rfl | hg
    · exact ⟨hok, hknown⟩
    · exact hs.frames g hg

theorem step_sound (s : RegistryState) (i : RegistryInput) (hfit : Fits s i) (hs : Sound s) : Sound (step s i) := by
  have hstart : ∀ r ∈ registeredIn s.log, r.1 < s.next := by
    intro r hr
    obtain ⟨e, he, -, rfl⟩ := hs.mem_registered.1 hr
    exact hs.fresh e he
  unfold step
  cases i with
  | register h memory =>
    dsimp only
    split
    · exact register_sound hs memory
    · exact hs
  | remove h =>
    dsimp only
    split
    · exact remove_sound hs hfit
    · exact hs
  | blockHandler screens =>
    dsimp only
    split
    · refine begin_sound hs rfl ⟨Nat.zero_le _, fun j x _ _ => by simp⟩ fun r hr => ?_
      exact hstart r (by simpa [Frame.known] using hr)
    · exact hs
  | wakeupHandler screens =>
    dsimp only
    split
    · exact begin_sound hs rfl trivial hstart
    · exact hs
  | ret =>
    dsimp only
    split
    · rename_i rest hst
      refine ⟨hs.len, hs.account, hs.fresh, hs.numbers, hs.calls, hs.passes, ?_, hs.marked, hs.outside, ?_⟩
      · rw [hs.depth, hst]
        rfl
      · exact fun g hg => hs.frames g (hst ▸ mem_cons_of_mem _ hg)
    · exact hs
  | goOn => exact goOn_sound hs hfit

theorem init_sound : Sound .init where
  len := Nat.zero_le _
  account := rfl
  fresh := by simp [RegistryState.used, RegistryState.init]
  numbers := by simp [RegistryState.used, RegistryState.init]
  calls := by simp [CallsRegistered, RegistryState.init]
  passes := by simp [PassesComplete, RegistryState.init]
  depth := rfl
  marked := by simp [RegistryState.used, RegistryState.init]
  outside := fun _ => rfl
  frames := by simp [RegistryState.init]

/-- What holds of the registry after a run. -/
structure Correct (s : RegistryState) : Prop where
  /-- Outside of all passes the array has the registrations made and not removed. -/
  registry : s.stack = [] → s.used.map BlockHandlerRec.key = registeredIn s.log
  calls : CallsRegistered s.log
  passes : PassesComplete s.log

theorem Sound.correct (hs : Sound s) : Correct s := by
  refine ⟨fun hst => ?_, hs.calls, hs.passes⟩
  have hin : s.inHandler = 0 := by
    rw [hs.depth, hst]
    rfl
  have hall := hs.marked (hs.outside hin)
  rw [← hs.account, filter_eq_self.2]
  intro e he
  simp [hall e he]

/-- **Block and wakeup handlers**: in a run whose removals find what they are to remove and whose
passes leave the marked elements alone while another pass is on, the array has exactly the
registrations that were not removed, no handler is called after its removal, and a pass calls
every handler that stays exactly once. -/
theorem handlers_correct (is : List RegistryInput) (h : AllSteps step Fits .init is) :
    Correct (run step .init is) :=
  Sound.correct (AllSteps.invariant (P := Sound) step_sound h init_sound)

/-- Two handlers, one of which removes the other in a pass and registers a third. -/
def editingRun : List RegistryInput :=
  [.register ⟨1, 2, 3⟩ true, .register ⟨4, 5, 6⟩ true, .blockHandler 0, .goOn, .remove ⟨4, 5, 6⟩,
    .register ⟨7, 8, 9⟩ true, .ret, .goOn, .goOn, .ret, .goOn, .goOn]

theorem editingRun_correct : Correct (run step .init editingRun) ∧
    (run step .init editingRun).used.map BlockHandlerRec.key = [(0, ⟨1, 2, 3⟩), (2, ⟨7, 8, 9⟩)] ∧
    (run step .init editingRun).log.getLast? = some (.passed [(0, ⟨1, 2, 3⟩), (1, ⟨4, 5, 6⟩)]
      [(0, ⟨1, 2, 3⟩), (2, ⟨7, 8, 9⟩)]) := by
  refine ⟨handlers_correct editingRun ?_, by decide, by decide⟩
  refine ⟨trivial, trivial, trivial, fun h => ?_, fun _ i e hi he hd => ?_, trivial, trivial, fun h => ?_, fun h => ?_,
    trivial, fun h => ?_, fun _ h => ?_, trivial⟩
  · cases h
  · cases hi
    cases he
    cases hd
  · cases h
  · cases h
  · cases h
  · exact absurd h (by decide)

/-! ### The two failures -/

/-- A handler removes a registration, makes it again and removes it again. -/
def removeAgainRun : List RegistryInput :=
  [.register ⟨1, 2, 3⟩ true, .blockHandler 0, .goOn, .remove ⟨1, 2, 3⟩, .register ⟨1, 2, 3⟩ true,
    .remove ⟨1, 2, 3⟩, .ret, .goOn, .goOn, .ret, .goOn, .goOn]

/-- Of three handlers the second removes the first and runs a pass of its own. -/
def innerPassRun : List RegistryInput :=
  [.register ⟨1, 1, 1⟩ true, .register ⟨2, 2, 2⟩ true, .register ⟨3, 3, 3⟩ true, .blockHandler 0, .goOn, .ret, .goOn,
    .remove ⟨1, 1, 1⟩, .wakeupHandler 0, .goOn, .goOn, .ret, .goOn, .ret, .goOn, .goOn, .ret, .goOn, .goOn]

/-- **The second removal is lost**: the handler is called in the same pass after it was removed,
and is registered after the pass. -/
theorem second_removal_lost : ¬CallsRegistered (run step .init removeAgainRun).log ∧
    (run step .init removeAgainRun).stack.length = 0 ∧
    (run step .init removeAgainRun).used.map BlockHandlerRec.key ≠
      registeredIn (run step .init removeAgainRun).log := by
  refine ⟨fun h => ?_, by decide, by decide⟩
  have hlog : (run step .init removeAgainRun).log = [.registered (0, ⟨1, 2, 3⟩), .called (0, ⟨1, 2, 3⟩),
      .remove ⟨1, 2, 3⟩, .registered (1, ⟨1, 2, 3⟩), .remove ⟨1, 2, 3⟩] ++ .called (1, ⟨1, 2, 3⟩) ::
        [.passed [(0, ⟨1, 2, 3⟩)] [(0, ⟨1, 2, 3⟩), (1, ⟨1, 2, 3⟩)]] := by decide
  have hin := h _ _ _ hlog
  revert hin
  decide

/-- **The inner pass shifts the array**: the third handler stays registered through the outer
pass, which does not call it. -/
theorem inner_pass_shifts : ¬PassesComplete (run step .init innerPassRun).log := by
  intro h
  have hlog : ∃ past, (run step .init innerPassRun).log = past ++
      .passed [(0, ⟨1, 1, 1⟩), (1, ⟨2, 2, 2⟩), (2, ⟨3, 3, 3⟩)] [(0, ⟨1, 1, 1⟩), (1, ⟨2, 2, 2⟩)] :: [] ∧
      (2, ⟨3, 3, 3⟩) ∈ registeredIn past := ⟨(run step .init innerPassRun).log.dropLast, by decide, by decide⟩
  obtain ⟨past, hlog, hin⟩ := hlog
  have hcount := h past _ _ [] hlog (2, ⟨3, 3, 3⟩) (by decide) hin
  revert hcount
  decide

/-- Neither run is as it should be. -/
theorem handlers_fail : ¬Correct (run step .init removeAgainRun) ∧ ¬Correct (run step .init innerPassRun) :=
  ⟨fun h => second_removal_lost.1 h.calls, fun h => inner_pass_shifts h.passes⟩

end Xenia.Dix.BlockHandlers
