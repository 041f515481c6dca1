import Xenia.Dix.WorkQueue

/-!
# Runs of the work queue

`Holds s xs`: the list runs through the entries `xs`, which are those queued and not taken out.
`At s c kept rest`: a walk has passed `kept` and has `rest` before it. The tail pointer may be
left dangling when the last entry is freed, but then nothing is before the walk, and it puts the
pointer right before anyone looks at it.

`ClearWorkQueue` takes the entries out and does not call them, unlike the other two walks. So a
run is as it should be when `ClearWorkQueue` finds the queue empty: `workQueue_correct`.
-/

namespace Xenia.Dix.WorkQueue

open Xenia.Lib List Function

variable {s s' : WorkState} {c : Cursor} {xs kept rest todo : List ℕ} {q : ℕ} {w : Walk}

/-! ### The log -/

section Log

variable {log past during : List WorkEvent} {e : WorkEvent}

@[simp] theorem pendingIn_append (log : List WorkEvent) (e : WorkEvent) :
    pendingIn (log ++ [e]) = e.pending (pendingIn log) := by
  simp [pendingIn, foldl_append]

@[simp] theorem queuedIn_append (l m : List WorkEvent) : queuedIn (l ++ m) = queuedIn l ++ queuedIn m :=
  filterMap_append

@[simp] theorem calledIn_append (l m : List WorkEvent) : calledIn (l ++ m) = calledIn l ++ calledIn m :=
  filterMap_append

theorem CallsPending.append (h : CallsPending log) (he : ∀ q, e = .called q → q ∈ pendingIn log) :
    CallsPending (log ++ [e]) := by
  intro past q future heq
  rcases append_singleton_cases heq with ⟨-, rfl, hq⟩ | ⟨future', -, hlog⟩
  · exact he q hq.symm
  · exact h past q future' hlog

theorem WalksInOrder.append (h : WalksInOrder log) (he : e ≠ .ended) : WalksInOrder (log ++ [e]) := by
  intro past w during future heq hno
  rw [show past ++ .began w :: (during ++ .ended :: future) = (past ++ .began w :: during) ++ .ended :: future by
    simp] at heq
  rcases append_singleton_cases heq with ⟨-, -, hlast⟩ | ⟨future', -, hlog⟩
  · exact absurd hlast.symm he
  · exact h past w during future' (by simpa using hlog) hno

/-- The last beginning in a log. -/
theorem began_unique {past past' during during' : List WorkEvent} {w w' : Walk}
    (h : past ++ .began w :: during = past' ++ .began w' :: during') (hno : ∀ v, .began v ∉ during)
    (hno' : ∀ v, .began v ∉ during') : past = past' ∧ w = w' ∧ during = during' := by
  rcases append_eq_append_iff.1 h with ⟨as, h1, h2⟩ | ⟨as, h1, h2⟩
  · cases as with
    | nil =>
      obtain ⟨h3, h4⟩ := cons_eq_cons.1 h2
      cases h3
      exact ⟨by simpa using h1.symm, rfl, h4⟩
    | cons a as =>
      obtain ⟨-, h4⟩ := cons_eq_cons.1 h2
      exact absurd (h4 ▸ by simp) (hno w')
  · cases as with
    | nil =>
      obtain ⟨h3, h4⟩ := cons_eq_cons.1 h2
      cases h3
      exact ⟨by simpa using h1, rfl, h4.symm⟩
    | cons a as =>
      obtain ⟨-, h4⟩ := cons_eq_cons.1 h2
      exact absurd (h4 ▸ by simp) (hno' w)

theorem WalksInOrder.ended (h : WalksInOrder log) (hlog : log = past ++ .began w :: during)
    (hno : ∀ v, .began v ∉ during)
    (hall : calledIn during = (pendingIn past ++ queuedIn during).filter (wanted past w)) :
    WalksInOrder (log ++ [.ended]) := by
  intro past' w' during' future heq hno'
  rw [show past' ++ .began w' :: (during' ++ .ended :: future) = (past' ++ .began w' :: during') ++ .ended :: future
    by simp] at heq
  rcases append_singleton_cases heq with ⟨-, hl, -⟩ | ⟨future', -, hl⟩
  · obtain ⟨rfl, rfl, rfl⟩ := began_unique (hlog.symm.trans hl.symm) hno hno'
    exact hall
  · exact h past' w' during' future' (by simpa using hl) hno'

end Log

/-! ### The invariant -/

/-- The entries of `s` are `xs`, in the order of the queue. -/
structure Holds (s : WorkState) (xs : List ℕ) : Prop where
  fault : s.fault = false
  pending : pendingIn s.log = xs.map s.item
  allocated : ∀ q, s.allocated q ↔ q ∈ xs
  fresh : ∀ q ∈ xs, q < s.next
  nodup : xs.Nodup
  gone : ∀ client, s.clientGone client ↔ .gone client ∈ s.log
  calls : CallsPending s.log
  walks : WalksInOrder s.log

/-- No walk is on: the list ends at the tail pointer. -/
structure Idle (s : WorkState) (xs : List ℕ) : Prop where
  chain : Chain s.links .head xs s.workQueueLast
  last : s.links s.workQueueLast = none

/-- The walk `c` has passed the entries `kept` and has `rest` before it. -/
structure At (s : WorkState) (c : Cursor) (kept rest : List ℕ) : Prop where
  front : Chain s.links .head kept c.p
  back : ∃ e, Chain s.links c.p rest e ∧ s.links e = none ∧
    (s.workQueueLast = e ∨ rest = [] ∧ c.running = none)
  running : ∀ q, c.running = some q → rest.head? = some q
  /-- `ClearWorkQueue` has found the queue empty. -/
  clear : c.walk = .clearWorkQueue → kept ++ rest = []

/-- What the walk has called so far, and has yet to call among `todo`. -/
def OnTrack (s : WorkState) (w : Walk) (todo : List ℕ) : Prop :=
  ∃ past during, s.log = past ++ .began w :: during ∧ (∀ v, .began v ∉ during) ∧
    (∀ client, .gone client ∈ s.log → .gone client ∈ past) ∧
    calledIn during ++ (todo.map s.item).filter (wanted past w) =
      (pendingIn past ++ queuedIn during).filter (wanted past w)

/-- The entries that the walk has not called yet. -/
def Cursor.ahead (c : Cursor) (rest : List ℕ) : List ℕ := if c.running.isSome then rest.tail else rest

/-- The invariant of a run. -/
inductive Good (s : WorkState) : Prop
  | idle (xs : List ℕ) (h : Holds s xs) (hc : s.cursor = none) (hi : Idle s xs)
  | walking (c : Cursor) (kept rest : List ℕ) (h : Holds s (kept ++ rest)) (hc : s.cursor = some c)
      (ha : At s c kept rest) (ht : OnTrack s c.walk (c.ahead rest))

theorem At.whole (ha : At s c kept rest) : ∃ e, Chain s.links .head (kept ++ rest) e ∧ s.links e = none ∧
    (s.workQueueLast = e ∨ rest = [] ∧ c.running = none) := by
  obtain ⟨e, he, hrest⟩ := ha.back
  exact ⟨e, chain_append.2 ⟨c.p, ha.front, he⟩, hrest⟩

theorem Holds.valid (h : Holds s xs) {l : Link ℕ} (hl : l ∈ Link.head :: xs.map .next) : s.valid l = true := by
  cases l with
  | head => rfl
  | next q =>
    rcases mem_cons.1 hl with heq | hl
    · cases heq
    · obtain ⟨x, hx, heq⟩ := mem_map.1 hl
      cases heq
      exact (h.allocated _).2 hx

theorem Holds.links_nodup (h : Holds s xs) : (Link.head :: xs.map Link.next).Nodup := by
  have := (nodup_links xs [] (by simpa using h.nodup)).1
  simpa using this

theorem At.valid (ha : At s c kept rest) (h : Holds s (kept ++ rest)) : s.valid c.p = true := by
  apply h.valid
  have := ha.front.end_mem
  simp only [mem_cons, map_append, mem_append] at this ⊢
  tauto

/-! ### Events -/

/-- An event that changes neither the queue nor who is gone. -/
theorem Holds.record (h : Holds s xs) {e : WorkEvent} (hp : e.pending (pendingIn s.log) = pendingIn s.log)
    (hg : ∀ client, e ≠ .gone client) (hc : ∀ q, e = .called q → q ∈ pendingIn s.log)
    (hw : WalksInOrder (s.log ++ [e])) : Holds (s.record e) xs where
  fault := h.fault
  pending := by
    show pendingIn (s.log ++ [e]) = _
    rw [pendingIn_append, hp]
    exact h.pending
  allocated := h.allocated
  fresh := h.fresh
  nodup := h.nodup
  gone := by
    intro client
    show _ ↔ .gone client ∈ s.log ++ [e]
    rw [mem_append, mem_singleton]
    exact ⟨fun hcl => .inl ((h.gone client).1 hcl), fun hor => (h.gone client).2
      (hor.resolve_right fun heq => hg client heq.symm)⟩
  calls := h.calls.append hc
  walks := hw

theorem Holds.cursor (h : Holds s xs) (oc : Option Cursor) : Holds { s with cursor := oc } xs :=
  ⟨h.fault, h.pending, h.allocated, h.fresh, h.nodup, h.gone, h.calls, h.walks⟩

/-- An event of the walk that is on; `called` and `todo` change together. -/
theorem OnTrack.record {todo' : List ℕ} (ht : OnTrack s w todo) {e : WorkEvent} (hb : ∀ v, e ≠ .began v)
    (hg : ∀ client, e ≠ .gone client) (hq : queuedIn [e] = [])
    (hcall : ∀ past, (∀ client, .gone client ∈ s.log → .gone client ∈ past) →
      calledIn [e] ++ (todo'.map s.item).filter (wanted past w) = (todo.map s.item).filter (wanted past w)) :
    OnTrack (s.record e) w todo' := by
  obtain ⟨past, during, hlog, hno, hgone, hall⟩ := ht
  refine ⟨past, during ++ [e], ?_, ?_, ?_, ?_⟩
  · show s.log ++ [e] = _
    rw [hlog]
    simp
  · intro v hv
    rcases mem_append.1 hv with hv | hv
    · exact hno v hv
    · exact hb v (mem_singleton.1 hv).symm
  · intro client hcl
    rcases mem_append.1 hcl with hcl | hcl
    · exact hgone client hcl
    · exact absurd (mem_singleton.1 hcl).symm (hg client)
  · rw [calledIn_append, queuedIn_append, hq, append_nil, append_assoc, ← hall]
    exact congrArg _ (hcall past hgone)

theorem OnTrack.congr (ht : OnTrack s w todo) (hlog : s'.log = s.log) (hitem : ∀ q ∈ todo, s'.item q = s.item q) :
    OnTrack s' w todo := by
  obtain ⟨past, during, hl, hno, hgone, hall⟩ := ht
  refine ⟨past, during, hlog.trans hl, hno, hlog ▸ hgone, ?_⟩
  rwa [map_congr_left hitem]

/-! ### Queueing -/

/-- The state after `QueueWorkProc`, when there is memory and the tail pointer is valid. -/
def queued (w : WorkQueueRec) (s : WorkState) : WorkState :=
  { s with
    links := Function.update (Function.update s.links (.next s.next) none) s.workQueueLast (some s.next)
    workQueueLast := .next s.next
    entries := Function.update s.entries s.next w
    allocated := Function.update s.allocated s.next true
    next := s.next + 1
    log := s.log ++ [.queued ⟨s.next, w⟩] }

variable {r : WorkQueueRec} {b : Link ℕ}

theorem Holds.item_queued (h : Holds s xs) (hq : q ∈ xs) : (queued r s).item q = s.item q := by
  have hne : q ≠ s.next := ne_of_lt (h.fresh q hq)
  simp [queued, WorkState.item, hne]

theorem Holds.queued (h : Holds s xs) : Holds (queued r s) (xs ++ [s.next]) where
  fault := h.fault
  pending := by
    show pendingIn (s.log ++ [_]) = _
    rw [pendingIn_append, map_append, h.pending]
    have hold : xs.map (WorkQueue.queued r s).item = xs.map s.item :=
      map_congr_left fun q hq => h.item_queued hq
    rw [hold]
    simp [WorkEvent.pending, WorkQueue.queued, WorkState.item]
  allocated := by
    intro q
    show update s.allocated s.next true q = true ↔ _
    by_cases hq : q = s.next
    · simp [hq]
    · rw [update_of_ne hq, h.allocated]
      simp [hq]
  fresh := by
    intro q hq
    show q < s.next + 1
    rcases mem_append.1 hq with hq | hq
    · have := h.fresh q hq
      omega
    · have := mem_singleton.1 hq
      omega
  nodup := by
    refine nodup_append.2 ⟨h.nodup, by simp, fun x hx y hy => ?_⟩
    rw [mem_singleton.1 hy]
    exact ne_of_lt (h.fresh x hx)
  gone := by
    intro client
    show s.clientGone client = true ↔ _ ∈ s.log ++ [_]
    rw [mem_append, h.gone client]
    simp
  calls := h.calls.append fun _ heq => by cases heq
  walks := h.walks.append (by simp)

/-- The list with the new entry at its end. -/
theorem Chain.queued (h : Holds s xs) (hc : Chain s.links .head xs s.workQueueLast) :
    Chain (queued r s).links .head (xs ++ [s.next]) (.next s.next) ∧ (queued r s).links (.next s.next) = none := by
  have hfresh : Link.next s.next ∉ Link.head :: xs.map .next := by
    intro hmem
    rcases mem_cons.1 hmem with heq | hmem
    · cases heq
    · obtain ⟨x, hx, heq⟩ := mem_map.1 hmem
      cases heq
      exact absurd (h.fresh _ hx) (lt_irrefl _)
  have hne : Link.next s.next ≠ s.workQueueLast := fun heq => hfresh (heq ▸ hc.end_mem)
  constructor
  · refine Chain.snoc (hc.congr h.links_nodup fun l hl _ => ?_) h.links_nodup
    exact update_of_ne (fun heq : l = .next s.next => hfresh (heq ▸ hl)) ..
  · show update (update s.links _ none) _ _ _ = none
    rw [update_of_ne hne, update_self]

/-- The walk goes past an entry. -/
theorem At.pass (ha : At s c kept (q :: rest)) {s' : WorkState} (hl : s'.links = s.links)
    (hlast : s'.workQueueLast = s.workQueueLast) :
    At s' { c with p := .next q, running := none } (kept ++ [q]) rest := by
  obtain ⟨e, ⟨hq, he⟩, hnone, hor⟩ := ha.back
  refine ⟨?_, ⟨e, ?_, ?_, ?_⟩, by simp, ?_⟩
  · rw [hl]
    exact chain_append.2 ⟨c.p, ha.front, hq, rfl⟩
  · rw [hl]
    exact he
  · rw [hl]
    exact hnone
  · rw [hlast]
    exact hor.imp id fun h => by simp at h
  · intro hw
    have := ha.clear hw
    simp at this

/-- An entry taken out. -/
theorem Holds.takenOut (h : Holds s (kept ++ q :: rest)) (f : Link ℕ → Option ℕ) (oc : Option Cursor) :
    Holds { s with
      links := f
      allocated := update s.allocated q false
      cursor := oc
      log := s.log ++ [.returned (s.item q) true] } (kept ++ rest) where
  fault := h.fault
  pending := by
    have hinj : Function.Injective s.item := fun a b hab => congrArg Item.address hab
    have hnot : s.item q ∉ kept.map s.item := by
      intro hmem
      obtain ⟨x, hx, hxq⟩ := mem_map.1 hmem
      rw [hinj hxq] at hx
      exact (nodup_append.1 h.nodup).2.2 q hx q (by simp) rfl
    show pendingIn (s.log ++ [_]) = _
    rw [pendingIn_append, h.pending]
    show ((kept ++ q :: rest).map s.item).erase (s.item q) = (kept ++ rest).map s.item
    rw [map_append, map_cons, erase_append_right _ hnot, erase_cons_head, map_append]
  allocated := by
    intro x
    have hnd := (nodup_cons.1 (perm_middle.nodup_iff.1 h.nodup)).1
    show update s.allocated q false x = true ↔ _
    by_cases hx : x = q
    · rw [hx, update_self]
      simpa using hnd
    · rw [update_of_ne hx, h.allocated]
      simp [hx]
  fresh := fun x hx => h.fresh x (by simp only [mem_append, mem_cons] at hx ⊢; tauto)
  nodup := (nodup_cons.1 (perm_middle.nodup_iff.1 h.nodup)).2
  gone := by
    intro client
    show s.clientGone client = true ↔ _ ∈ s.log ++ [_]
    rw [mem_append, h.gone client]
    simp
  calls := h.calls.append fun _ heq => by cases heq
  walks := h.walks.append (by simp)

theorem OnTrack.returned (ht : OnTrack s w todo) (hs : s'.entries = s.entries) {done : Bool}
    (hlog : s'.log = s.log ++ [.returned (s.item q) done]) : OnTrack s' w todo := by
  have hr := ht.record (e := .returned (s.item q) done) (by simp) (by simp) rfl fun _ _ => rfl
  refine hr.congr hlog fun x _ => ?_
  unfold WorkState.item
  rw [hs]
  rfl

/-- `ClearWorkQueue` is called when the queue is empty. -/
def Fits (s : WorkState) : WorkInput → Prop
  | .walk .clearWorkQueue => s.cursor = none → s.links .head = none
  | _ => True

theorem Good.fault (hg : Good s) : s.fault = false := by
  cases hg with
  | idle xs h _ _ => exact h.fault
  | walking c kept rest h _ _ _ => exact h.fault

/-- What holds of the queue after a run. -/
structure Correct (s : WorkState) : Prop where
  /-- No step used or freed an entry that was freed before. -/
  fault : s.fault = false
  /-- The entries that are not freed are the pending ones, each once. -/
  memory : ((pendingIn s.log).map Item.address).Nodup ∧
    ∀ q, s.allocated q ↔ q ∈ (pendingIn s.log).map Item.address
  /-- Outside of the loops the list is the queue, and ends at the tail pointer. -/
  list : (∀ c, s.cursor = some c → c.running ≠ none) →
    Chain s.links .head ((pendingIn s.log).map Item.address) s.workQueueLast ∧ s.links s.workQueueLast = none
  calls : CallsPending s.log
  walks : WalksInOrder s.log

theorem Holds.addresses (h : Holds s xs) : (pendingIn s.log).map Item.address = xs := by
  rw [h.pending, map_map]
  exact map_id _

theorem Good.correct (hg : Good s) : Correct s := by
  cases hg with
  | idle xs h hc hi =>
    refine ⟨h.fault, ?_, ?_, h.calls, h.walks⟩
    · rw [h.addresses]
      exact ⟨h.nodup, h.allocated⟩
    · rw [h.addresses]
      exact fun _ => ⟨hi.chain, hi.last⟩
  | walking c kept rest h hc ha ht =>
    refine ⟨h.fault, ?_, ?_, h.calls, h.walks⟩
    · rw [h.addresses]
      exact ⟨h.nodup, h.allocated⟩
    · rw [h.addresses]
      intro hrun
      obtain ⟨e, hchain, hnone, hor⟩ := ha.whole
      have hlast : s.workQueueLast = e := hor.resolve_right fun hno => hrun c hc hno.2
      rw [hlast]
      exact ⟨hchain, hnone⟩

end Xenia.Dix.WorkQueue
