import Mathlib.Data.List.TakeWhile
import Xenia.Os.Timer
import Xenia.Lib.Run

/-!
# The timer list holds the pending timers

`Listed s xs`: the list of `s` runs through `xs`, and these are the pending timers. Each
operation keeps it, for a list that its lemma names, and keeps the list sorted
(`sortIntoList_listed` is the one that needs the times in a window).
-/

namespace Xenia.Os.Timer

open Xenia.Lib Xenia.Lib.Clock Xenia.Lib.Links List Function

variable {s s' : TimerState} {xs us vs : List ℕ} {t : ℕ} {now millis : UInt32}

/-! ### The log -/

section Log

variable {log : List TimerEvent} {e : TimerEvent} {u callback arg : ℕ}

theorem pendingIn_append (log : List TimerEvent) (e : TimerEvent) (u : ℕ) :
    pendingIn (log ++ [e]) u = e.pending u (pendingIn log u) := by
  simp [pendingIn]

/-- An event that is no call keeps the account of the calls. -/
theorem CallsPending.append (h : CallsPending log)
    (he : ∀ t callback now arg, e = .called t callback now arg → pendingIn log t) :
    CallsPending (log ++ [e]) := by
  intro past t callback now arg future heq
  rcases eq_nil_or_concat future with rfl | ⟨future', last, rfl⟩
  · obtain ⟨hlog, hlast⟩ := append_inj' heq rfl
    rw [← hlog]
    exact he t callback now arg (singleton_inj.1 hlast)
  · have heq' : log ++ [e] = (past ++ .called t callback now arg :: future') ++ [last] := by
      rw [heq]
      simp
    exact h past t callback now arg future' (append_inj' heq' rfl).1

end Log

/-! ### The list -/

/-- The list of `s` runs through `xs`, which are the pending timers. -/
structure Listed (s : TimerState) (xs : List ℕ) : Prop where
  ring : s.links.Registry none (xs.map some)
  pending : ∀ t, t ∈ xs ↔ pendingIn s.log t
  allocated : ∀ t ∈ xs, s.allocated t
  fresh : ∀ t, s.allocated t → t < s.next
  calls : CallsPending s.log
  runs : s.hung = false

/-- The list in the order in which the timers expire. -/
def Sorted (s : TimerState) (xs : List ℕ) : Prop :=
  xs.Pairwise fun a b => ahead (s.expires a) (s.expires b) ≤ 0

theorem init_listed : Listed .init [] where
  ring := Registry.congr_nil none (fun _ => rfl) fun _ => rfl
  pending := by simp [TimerState.init, pendingIn]
  allocated := by simp
  fresh := by simp [TimerState.init]
  calls := by simp [CallsPending, TimerState.init]
  runs := rfl

namespace Listed

variable (h : Listed s xs)
include h

theorem nodup : xs.Nodup :=
  (nodup_cons.1 h.ring.ring.nodup).2.of_map _

theorem length_le : xs.length ≤ s.next := by
  have hsub : xs ⊆ range s.next := by
    intro t ht
    exact mem_range.2 (h.fresh t (h.allocated t ht))
  have hle := (subperm_of_subset h.nodup hsub).length_le
  rwa [length_range] at hle

/-- The list does not depend on the call stack. -/
theorem stack (st : List Frame) : Listed { s with stack := st } xs :=
  ⟨h.ring, h.pending, h.allocated, h.fresh, h.calls, h.runs⟩

theorem push (f : Frame) : Listed (s.push f) xs := h.stack _

/-- An event that neither arms nor disarms. -/
theorem record {e : TimerEvent} (he : ∀ u b, e.pending u b = b)
    (hcall : ∀ t callback now arg, e ≠ .called t callback now arg) : Listed (s.record e) xs where
  ring := h.ring
  pending := by
    intro u
    show u ∈ xs ↔ pendingIn (s.log ++ [e]) u
    rw [pendingIn_append, he]
    exact h.pending u
  allocated := h.allocated
  fresh := h.fresh
  calls := h.calls.append fun t callback now arg heq => absurd heq (hcall t callback now arg)
  runs := h.runs

theorem timerPending_iff : timerPending s t = true ↔ t ∈ xs := by
  have hiff := h.ring.isEmpty_iff (e := some t) (by simp)
  unfold timerPending
  rw [Bool.not_eq_true', ← Bool.not_eq_true, hiff]
  simp

theorem firstTimer_eq : firstTimer s = xs.head? := by
  unfold firstTimer
  rw [h.ring.ring.next.first]
  cases xs <;> rfl

/-- The search finds the first timer that satisfies the condition. -/
theorem search_eq (p : ℕ → Bool) :
    s.search p = some (((xs.dropWhile fun t => !p t).map some).headD none) := by
  unfold TimerState.search
  rw [h.ring.ring.find _ (by rw [length_map]; have := h.length_le; omega), dropWhile_map]
  rfl

/-- A pending timer leaves the list with the event that says so. -/
theorem remove {e : TimerEvent} (he : ∀ u b, e.pending u b = (b && u ≠ t))
    (hcall : ∀ u callback now arg, e = .called u callback now arg → u ∈ xs) :
    Listed ((s.unlink t).record e) (xs.erase t) where
  ring := by
    show (s.links.del (some t)).Registry none _
    by_cases ht : t ∈ xs
    · obtain ⟨us, vs, -, hxs, herase⟩ := exists_erase_eq ht
      have hr := h.ring
      rw [hxs, map_append] at hr
      rw [herase, map_append]
      exact hr.delMem
    · rw [erase_of_not_mem ht, h.ring.del_not_mem (by simpa using ht)]
      exact h.ring
  pending := by
    intro u
    show u ∈ xs.erase t ↔ pendingIn (s.log ++ [e]) u
    rw [pendingIn_append, he, h.nodup.mem_erase_iff, h.pending u]
    simp [and_comm]
  allocated := fun u hu => h.allocated u (mem_of_mem_erase hu)
  fresh := h.fresh
  calls := h.calls.append fun u callback now arg heq =>
    (h.pending u).1 (hcall u callback now arg heq)
  runs := h.runs

/-- `DoTimer` on a pending timer. -/
theorem doTimer (ht : t ∈ xs) (now : UInt32) :
    Listed (doTimer t now s) (xs.erase t) := by
  refine (h.remove ?_ ?_).push _
  · intro u b
    simp only [TimerEvent.pending, ne_eq, eq_comm]
  · intro u callback now' arg heq
    injection heq with hu
    rwa [← hu]

/-- A timer that is not pending is cancelled: its node stays linked to itself. -/
theorem cancel : Listed (timerCancel (some t) s) (xs.erase t) := by
  refine h.remove ?_ ?_
  · intro u b
    simp only [TimerEvent.pending, ne_eq, eq_comm]
  · intro u callback now' arg heq
    cases heq

/-- New fields of a timer that is not in the list. -/
theorem setTimers (f : ℕ → OsTimerRec) : Listed { s with timers := f } xs :=
  ⟨h.ring, h.pending, h.allocated, h.fresh, h.calls, h.runs⟩

/-- A new timer: it is allocated and not pending. -/
theorem alloc : Listed s.alloc xs := by
  have hnext : s.next ∉ xs := by
    intro hmem
    exact absurd (h.fresh _ (h.allocated _ hmem)) (lt_irrefl _)
  have hself : s.links.init (some s.next) = s.links := by
    have hfree := h.ring.free (some s.next) (by simpa using hnext)
    have hinit := hfree.del_self
    have hn : s.links.next (some s.next) = some (some s.next) := hfree.next
    have hp : s.links.prev (some s.next) = some (some s.next) := hfree.prev
    unfold Links.init
    rw [← hn, update_eq_self, hn, ← hp, update_eq_self]
  constructor
  · show (s.links.init (some s.next)).Registry none _
    rw [hself]
    exact h.ring
  · exact h.pending
  · intro t ht
    show update s.allocated s.next true t = true
    rw [update_of_ne (fun heq : t = s.next => hnext (heq ▸ ht))]
    exact h.allocated t ht
  · intro t ht
    show t < s.next + 1
    by_cases heq : t = s.next
    · omega
    · have ht' : update s.allocated s.next true t = true := ht
      rw [update_of_ne heq] at ht'
      have := h.fresh t ht'
      omega
  · exact h.calls
  · exact h.runs

/-- Freeing a timer that is not in the list. -/
theorem dealloc (ht : t ∉ xs) :
    Listed { s with allocated := update s.allocated t false } xs where
  ring := h.ring
  pending := h.pending
  allocated := by
    intro u hu
    show update s.allocated t false u = true
    rw [update_of_ne (fun heq : u = t => ht (heq ▸ hu))]
    exact h.allocated u hu
  fresh := by
    intro u hu
    have hu' : update s.allocated t false u = true := hu
    by_cases heq : u = t
    · rw [heq, update_self] at hu'
      cases hu'
    · rw [update_of_ne heq] at hu'
      exact h.fresh u hu'
  calls := h.calls
  runs := h.runs

end Listed

/-! ### Order -/

theorem Sorted.sublist {ys : List ℕ} (h : Sorted s xs) (hs : ys.Sublist xs) : Sorted s ys :=
  List.Pairwise.sublist hs h

theorem Sorted.congr (h : Sorted s xs) (he : ∀ t ∈ xs, s'.expires t = s.expires t) : Sorted s' xs := by
  refine List.Pairwise.imp_of_mem ?_ h
  intro a b ha hb hab
  rwa [he a ha, he b hb]

/-- Before the first timer that expires later, a new one keeps the list sorted. -/
theorem Sorted.insert (hs : Sorted s (us ++ vs)) (hw : Window fun a => ∃ u ∈ us ++ t :: vs, s.expires u = a)
    (hus : ∀ u ∈ us, ahead (s.expires u) (s.expires t) ≤ 0)
    (hvs : ∀ v ∈ vs.head?, 0 < ahead (s.expires v) (s.expires t)) : Sorted s (us ++ t :: vs) := by
  have hmem : ∀ u ∈ us ++ t :: vs, ∃ v ∈ us ++ t :: vs, s.expires v = s.expires u :=
    fun u hu => ⟨u, hu, rfl⟩
  obtain ⟨hsu, hsv, hsuv⟩ := pairwise_append.1 hs
  refine pairwise_append.2 ⟨hsu, pairwise_cons.2 ⟨?_, hsv⟩, ?_⟩
  · intro v hv
    obtain ⟨w, ws, rfl⟩ := exists_cons_of_ne_nil (ne_nil_of_mem hv)
    have hw0 := hvs w rfl
    have hwt := hw.ahead_neg (hmem t (by simp)) (hmem w (by simp))
    rcases mem_cons.1 hv with rfl | hv'
    · omega
    · have hwv := (pairwise_cons.1 hsv).1 v hv'
      have := hw.ahead_trans (hmem t (by simp)) (hmem w (by simp)) (hmem v (by simp [hv']))
      omega
  · intro u hu v hv
    rcases mem_cons.1 hv with rfl | hv
    · exact hus u hu
    · exact hsuv u hu v hv

/-! ### Setting a timer -/

/-- What a step leaves: the list of the pending timers, sorted where the times allow it. -/
def Kept (s : TimerState) (xs : List ℕ) (s' : TimerState) : Prop :=
  ∃ ys, Listed s' ys ∧ (Sorted s xs → Window (Expiry s') → Sorted s' ys)

theorem Listed.kept (h : Listed s' us) (hsub : us.Sublist xs) (he : ∀ t ∈ us, s'.expires t = s.expires t) :
    Kept s xs s' :=
  ⟨us, h, fun hs _ => (hs.sublist hsub).congr he⟩

theorem Kept.mono {s₀ : TimerState} {ys : List ℕ} (h : Kept s xs s')
    (hs : Sorted s₀ ys → Sorted s xs) : Kept s₀ ys s' := by
  obtain ⟨zs, hl, hz⟩ := h
  exact ⟨zs, hl, fun h0 => hz (hs h0)⟩

/-- The expiries of the pending timers are those of the list. -/
theorem Listed.expiry (h : Listed s xs) (a : UInt32) : (∃ u ∈ xs, s.expires u = a) ↔ Expiry s a := by
  constructor <;> rintro ⟨u, hu, hua⟩
  · exact ⟨u, (h.pending u).1 hu, hua⟩
  · exact ⟨u, (h.pending u).2 hu, hua⟩

theorem Listed.insert (h : Listed s (us ++ vs)) (ht : t ∉ us ++ vs) (ha : s.allocated t) :
    Listed ({ s with links := s.links.append (some t) ((vs.map some).headD none) }.record (.armed t))
      (us ++ t :: vs) where
  ring := by
    have hr := h.ring
    rw [map_append] at hr
    have := hr.insertBefore (e := some t) (by
      simpa using ht)
    rwa [← map_cons, ← map_append] at this
  pending := by
    intro u
    show u ∈ us ++ t :: vs ↔ pendingIn (s.log ++ [.armed t]) u
    rw [pendingIn_append]
    have hp := h.pending u
    simp only [TimerEvent.pending, Bool.or_eq_true, decide_eq_true_eq, ← hp]
    simp only [mem_append, mem_cons]
    tauto
  allocated := by
    intro u hu
    by_cases hut : u = t
    · exact hut ▸ ha
    · apply h.allocated u
      simp only [mem_append, mem_cons] at hu ⊢
      tauto
  fresh := h.fresh
  calls := h.calls.append (fun u callback now arg heq => by cases heq)
  runs := h.runs

/-- **Sorting into the list** keeps it: the timer enters it, or runs at once. -/
theorem sortIntoList_kept (h : Listed s xs) (ht : t ∉ xs) (ha : s.allocated t) (hm : s.expires t = millis) :
    Kept s xs (sortIntoList t millis now s) := by
  set later : ℕ → Bool := fun existing => 0 < ahead (s.expires existing) millis with hlater
  obtain ⟨us, vs, hxs, hus, hvs, hdrop⟩ : ∃ us vs, xs = us ++ vs ∧ (∀ u ∈ us, later u = false) ∧
      (∀ v ∈ vs.head?, later v = true) ∧ (xs.dropWhile fun u => !later u) = vs := by
    refine ⟨xs.takeWhile fun u => !later u, xs.dropWhile fun u => !later u,
      (takeWhile_append_dropWhile).symm, ?_, ?_, rfl⟩
    · intro u hu
      simpa using mem_takeWhile_imp hu
    · intro v hv
      have := head?_dropWhile_not (fun u => !later u) xs
      rw [Option.mem_def.1 hv] at this
      simpa using this
  unfold sortIntoList
  rw [h.search_eq, hdrop]
  subst hxs
  have hl := h.insert ht ha
  have he : ∀ u, TimerState.expires ({ s with
      links := s.links.append (some t) ((vs.map some).headD none) }.record (.armed t)) u = s.expires u := fun _ => rfl
  dsimp only
  split
  · -- the timer is due: it leaves the list again
    have hd := hl.doTimer (t := t) (by simp) now
    have herase : (us ++ t :: vs).erase t = us ++ vs := by
      rw [erase_append_right _ (fun hu => ht (by simp [hu])), erase_cons_head]
    rw [herase] at hd
    exact hd.kept (List.Sublist.refl _) fun _ _ => rfl
  · refine ⟨_, hl, fun hs hw => ?_⟩
    apply Sorted.insert (hs.congr fun u _ => he u)
    · refine hw.mono fun a ha => (hl.expiry a).1 ha
    · intro u hu
      rw [he, he, hm]
      simpa [hlater] using hus u hu
    · intro v hv
      rw [he, he, hm]
      simpa [hlater] using hvs v hv

end Xenia.Os.Timer
