import Xenia.Mi.EventQueue

/-!
# The order of the input events

`Waits q w` says that the queue holds the items `w`, from its head on. Each operation does
to `w` what it would do to a plain list: `storeEvent_spec` puts an item at its end,
`dequeue_spec` takes one off its front, `mieqGrowQueue_spec` moves it to a larger array.

`queue_order` is the result over all runs: what the loop is given, followed by what is
still waiting, is what the queue took. It takes that no growth runs out of memory between
the array and the events: such a growth frees the events that are in the queue, as
`queue_freed` shows.
-/

namespace Xenia.Mi

open Xenia.Lib List Function Option

variable {β : Type}

/-! ### Slots -/

/-- A place after the head, in a ring of `n` slots. -/
theorem ring_mod {n h m : ℕ} (hh : h < n) (hm : m ≤ n) :
    (h + m) % n = if h + m < n then h + m else h + m - n := by
  split
  · rename_i hlt
    exact Nat.mod_eq_of_lt hlt
  · rename_i hge
    rw [Nat.mod_eq_sub_mod (by omega), Nat.mod_eq_of_lt (by omega)]

/-- The slot before the tail, as the code computes it in 32 bits. -/
theorem slot_before {n h m : ℕ} (hn : n ∣ 2 ^ 32) (hsmall : n ≤ 2 ^ 31) (hh : h < n) (hm : m + 1 < n) :
    ((h + (m + 1)) % n + 2 ^ 32 - 1) % 2 ^ 32 % n = (h + m) % n := by
  obtain ⟨c, hc⟩ := hn
  have hlast : (2 ^ 32 - 1) % n = n - 1 := by
    have hpos : 0 < c := by
      by_contra h0
      rw [Nat.eq_zero_of_not_pos h0] at hc
      omega
    obtain ⟨d, rfl⟩ : ∃ d, c = d + 1 := ⟨c - 1, by omega⟩
    have : 2 ^ 32 - 1 = (n - 1) + n * d := by
      rw [hc, mul_add]
      omega
    rw [this, Nat.add_mul_mod_self_left, Nat.mod_eq_of_lt (by omega)]
  have h1 := ring_mod hh (show m + 1 ≤ n by omega)
  have h2 := ring_mod hh (show m ≤ n by omega)
  rw [h2]
  rcases eq_zero_or_pos ((h + (m + 1)) % n) with h0 | hpos
  · rw [h0, Nat.zero_add, Nat.mod_eq_of_lt (show 2 ^ 32 - 1 < 2 ^ 32 by decide)]
    split at h1 <;> split <;> omega
  · have hlt : (h + (m + 1)) % n < n := Nat.mod_lt _ (by omega)
    have : ((h + (m + 1)) % n + 2 ^ 32 - 1) % 2 ^ 32 = (h + (m + 1)) % n - 1 := by omega
    rw [Nat.mod_eq_of_lt (by omega)]
    split at h1 <;> split <;> omega

/-! ### The invariant -/

/-- A queue whose slots have storage of their own. -/
structure QueueOk (q : EventQueue β) : Prop where
  size : ∃ k ≤ 22, q.nevents = QUEUE_INITIAL_SIZE * 2 ^ k
  head : 0 ≤ q.head ∧ q.head < q.nevents
  tail : 0 ≤ q.tail ∧ q.tail < q.nevents
  live : ∀ i < q.nevents, (q.storage (q.events i).events).isSome
  distinct : ∀ i < q.nevents, ∀ j < q.nevents, (q.events i).events = (q.events j).events → i = j
  fresh : ∀ p, (q.storage p).isSome → p < q.nextStorage

/-- The slots from the head on hold the items `w`. -/
def Holds (q : EventQueue β) (w : List (Item β)) : Prop :=
  ∀ i (hi : i < w.length), itemAt q ((q.head.toNat + i) % q.nevents) = some w[i]

/-- The items `w` are waiting, and no others. -/
structure Waits (q : EventQueue β) (w : List (Item β)) : Prop where
  small : w.length < q.nevents
  tail : q.tail = ((q.head.toNat + w.length) % q.nevents : ℕ)
  holds : Holds q w

/-- `lastMotion` is the device of the last item, if that is one of motion. -/
def MotionOk (q : EventQueue β) (w : List (Item β)) : Prop :=
  ∀ y, w.getLast? = some y → ∀ id, id ≠ 0 → (y.motionOf id = true ↔ q.lastMotion = id)

section Queue

variable {q q' : EventQueue β} {w : List (Item β)} {x : Incoming β} {y : Item β} {a : GrowAnswers}

section

variable (h : QueueOk q)
include h

theorem QueueOk.bounds : 512 ≤ q.nevents ∧ q.nevents ≤ 2 ^ 31 ∧ q.nevents ∣ 2 ^ 32 := by
  obtain ⟨k, hk, hn⟩ := h.size
  have hle : 2 ^ k ≤ 2 ^ 22 := Nat.pow_le_pow_right (by decide) hk
  have hpos : 0 < 2 ^ k := Nat.two_pow_pos k
  unfold QUEUE_INITIAL_SIZE at hn
  refine ⟨by omega, by omega, ?_⟩
  rw [hn, show 512 = 2 ^ 9 from rfl, ← pow_add]
  exact pow_dvd_pow 2 (by omega)

/-- **The count** is the number of items waiting. -/
theorem numEnqueued_eq (hw : Waits q w) : mieqNumEnqueued q = w.length := by
  obtain ⟨hlow, hhigh, -⟩ := h.bounds
  have hhead := h.head
  have htail := hw.tail
  have hsmall := hw.small
  have hr := ring_mod (n := q.nevents) (h := q.head.toNat) (m := w.length) (by omega) (by omega)
  have hdiff : wrapInt (q.tail - q.head) = q.tail - q.head := by
    have := h.tail
    exact wrapInt_eq (by omega) (by omega)
  have hsize : toSize (q.tail - q.head + q.nevents) = (q.tail - q.head + q.nevents).toNat := by
    have := h.tail
    unfold toSize
    omega
  unfold mieqNumEnqueued
  rw [if_pos (by omega), hdiff]
  dsimp only
  split at hr <;> split <;> omega

theorem Waits.empty_iff (hw : Waits q w) : q.head = q.tail ↔ w = [] := by
  have hhead := h.head
  have htail := hw.tail
  have hsmall := hw.small
  have hr := ring_mod (n := q.nevents) (h := q.head.toNat) (m := w.length) (by omega) (by omega)
  rw [← length_eq_zero_iff]
  split at hr <;> omega

/-- **Storing** an event after the items `w`, whatever was in that slot. -/
theorem storeEvent_spec (hsmall : w.length + 1 < q.nevents) (hw : Holds q w) (x : Incoming β) (m : ℕ) :
    ∃ q', storeEvent x m ((q.head.toNat + w.length) % q.nevents) q = some q' ∧ QueueOk q' ∧
      Waits q' (w ++ [x.item]) ∧ q'.lastMotion = m ∧ q'.dropped = q.dropped ∧ q'.nevents = q.nevents := by
  obtain ⟨hlow, hhigh, -⟩ := h.bounds
  have hhead := h.head
  obtain ⟨s, hs⟩ : ∃ s, s = (q.head.toNat + w.length) % q.nevents := ⟨_, rfl⟩
  have hslt : s < q.nevents := hs ▸ Nat.mod_lt _ (by omega)
  have hr := ring_mod (n := q.nevents) (h := q.head.toNat) (m := w.length) (by omega) (by omega)
  have hnext : (s + 1) % q.nevents = (q.head.toNat + (w.length + 1)) % q.nevents := by
    rw [hs, Nat.mod_add_mod, Nat.add_assoc]
  obtain ⟨e, he⟩ := isSome_iff_exists.1 (h.live s hslt)
  have hevents : ∀ i, (update q.events s ⟨(q.events s).events, x.pDev.map Device.enqueueScreen,
      x.pDev⟩ i).events = (q.events i).events := by
    intro i
    by_cases hi : i = s
    · rw [hi, update_self]
    · rw [update_of_ne hi]
  have htail : wrapInt ((s + 1) % q.nevents : ℕ) = ((s + 1) % q.nevents : ℕ) := by
    have : (s + 1) % q.nevents < q.nevents := Nat.mod_lt _ (by omega)
    exact wrapInt_eq (by omega) (by omega)
  rw [← hs]
  unfold storeEvent
  dsimp only
  rw [he]
  refine ⟨_, rfl, ⟨h.size, h.head, ?_, ?_, ?_, ?_⟩, ⟨?_, ?_, ?_⟩, rfl, rfl, rfl⟩
  · dsimp only
    rw [htail]
    exact ⟨by omega, by exact_mod_cast Nat.mod_lt _ (by omega)⟩
  · intro i hi
    dsimp only
    rw [hevents]
    by_cases hie : (q.events i).events = (q.events s).events
    · rw [hie, update_self]; rfl
    · rw [update_of_ne hie]; exact h.live i hi
  · intro i hi j hj
    rw [hevents, hevents]
    exact h.distinct i hi j hj
  · intro p hp
    by_cases hps : p = (q.events s).events
    · rw [hps]; exact h.fresh _ (h.live s hslt)
    · simp only [update_of_ne hps] at hp
      exact h.fresh p hp
  · rw [length_append]; exact hsmall
  · dsimp only
    rw [htail, hnext, length_append, length_singleton]
  · intro i hi
    rw [length_append, length_singleton] at hi
    unfold itemAt
    dsimp only
    by_cases hiw : i < w.length
    · -- another slot, with other storage
      have hri := ring_mod (n := q.nevents) (h := q.head.toNat) (m := i) (by omega) (by omega)
      have hne : (q.head.toNat + i) % q.nevents ≠ s := by
        rw [hri, hs, hr]
        split <;> split <;> omega
      have hpe : (q.events ((q.head.toNat + i) % q.nevents)).events ≠ (q.events s).events := fun heq =>
        hne (h.distinct _ (Nat.mod_lt _ (by omega)) s hslt heq)
      rw [update_of_ne hne, update_of_ne hpe, getElem_append_left hiw]
      exact hw i hiw
    · obtain rfl : i = w.length := by omega
      rw [← hs, update_self, update_self, getElem_concat_length rfl]
      rfl

/-- **Taking** an event off the front. -/
theorem dequeue_spec (hw : Waits q w) :
    ∃ q' y, dequeue q = some (q', y) ∧ QueueOk q' ∧ q'.lastMotion = q.lastMotion ∧
      ((w = [] ∧ y = none ∧ q' = q) ∨ ∃ x w', w = x :: w' ∧ y = some x ∧ Waits q' w') := by
  obtain ⟨hlow, hhigh, -⟩ := h.bounds
  have hhead := h.head
  unfold dequeue
  cases w with
  | nil =>
    rw [if_neg (fun hne => hne ((hw.empty_iff h).2 rfl))]
    exact ⟨q, none, rfl, h, rfl, .inl ⟨rfl, rfl, rfl⟩⟩
  | cons x w =>
    rw [if_pos (fun heq => by have := (hw.empty_iff h).1 heq; simp at this)]
    have hsmall := hw.small
    rw [length_cons] at hsmall
    have hfirst := hw.holds 0 (by simp)
    rw [Nat.add_zero, Nat.mod_eq_of_lt (by omega)] at hfirst
    rw [hfirst]
    have hmod : (q.head + 1) % q.nevents = ((q.head.toNat + 1) % q.nevents : ℕ) := by
      push_cast
      rw [Int.toNat_of_nonneg hhead.1]
    have hlt : (q.head.toNat + 1) % q.nevents < q.nevents := Nat.mod_lt _ (by omega)
    have hnew : wrapInt ((q.head + 1) % q.nevents) = ((q.head.toNat + 1) % q.nevents : ℕ) := by
      rw [hmod]
      exact wrapInt_eq (by omega) (by omega)
    -- counting from the new head
    have hslot : ∀ i, ((q.head.toNat + 1) % q.nevents + i) % q.nevents =
        (q.head.toNat + (i + 1)) % q.nevents := by
      intro i
      rw [Nat.mod_add_mod, Nat.add_assoc, Nat.add_comm 1 i]
    refine ⟨_, _, rfl, ⟨h.size, ?_, h.tail, h.live, h.distinct, h.fresh⟩, rfl,
      .inr ⟨x, w, rfl, rfl, ⟨by dsimp only; omega, ?_, ?_⟩⟩⟩
    · dsimp only
      rw [hnew]
      exact ⟨by omega, by exact_mod_cast hlt⟩
    · dsimp only
      rw [hnew, Int.toNat_natCast, hslot]
      exact hw.tail
    · intro i hi
      have := hw.holds (i + 1) (by simpa using hi)
      rw [getElem_cons_succ] at this
      rw [← this]
      rw [hnew, Int.toNat_natCast, hslot]
      rfl

theorem copiedEvents_eq {i : ℕ} (hi : i < q.nevents) :
    copiedEvents q i = q.events ((q.head.toNat + i) % q.nevents) := by
  have hhead := h.head
  unfold copiedEvents
  rw [ring_mod (by omega) (by omega)]
  split
  · rw [if_pos (by omega)]
  · rw [if_neg (by omega)]
    congr 1
    omega

end

variable [Inhabited β]

/-- **Growing** keeps the items, in their order, unless it fails. -/
theorem mieqGrowQueue_spec (h : QueueOk q) (hw : Waits q w) (hlists : a.array = true → a.firstFailed = none)
    (hmax : a.array = true → q.nevents * 2 ≤ 2 ^ 31) :
    (a.array = false ∧ mieqGrowQueue a (q.nevents <<< 1) q = (q, false)) ∨
      ∃ q', mieqGrowQueue a (q.nevents <<< 1) q = (q', true) ∧ QueueOk q' ∧ Waits q' w ∧
        q'.nevents = q.nevents * 2 ∧ q'.lastMotion = q.lastMotion ∧ q'.dropped = q.dropped := by
  have hhead := h.head
  have hdouble : q.nevents <<< 1 = q.nevents * 2 := by rw [Nat.shiftLeft_eq]
  unfold mieqGrowQueue
  rw [hdouble, if_neg (by omega)]
  cases harray : a.array with
  | false => exact .inl ⟨rfl, by simp⟩
  | true =>
    right
    have hsmall := hw.small
    have hlt : ∀ i, (q.head.toNat + i) % q.nevents < q.nevents := fun i => Nat.mod_lt _ (by omega)
    have hold : ∀ i, (q.events ((q.head.toNat + i) % q.nevents)).events < q.nextStorage := fun i =>
      h.fresh _ (h.live _ (hlt i))
    have hmax := hmax harray
    rw [hlists harray, numEnqueued_eq h hw]
    have hevent : ∀ i < q.nevents, copiedEvents q i = q.events ((q.head.toNat + i) % q.nevents) :=
      fun i hi => copiedEvents_eq h hi
    have hwrap : wrapInt (w.length : ℤ) = w.length := wrapInt_eq (by omega) (by omega)
    refine ⟨_, rfl, ⟨?_, ?_, ?_, ?_, ?_, ?_⟩, ⟨?_, ?_, ?_⟩, rfl, rfl, rfl⟩
    · obtain ⟨k, hk, hn⟩ := h.size
      refine ⟨k + 1, ?_, by dsimp only; rw [hn]; ring⟩
      by_contra hk'
      obtain rfl : k = 22 := by omega
      unfold QUEUE_INITIAL_SIZE at hn
      omega
    · dsimp only
      omega
    · dsimp only
      omega
    · intro i hi
      dsimp only at hi ⊢
      by_cases hin : i < q.nevents
      · rw [if_pos hin, hevent i hin, if_neg (by have := hold i; omega)]
        exact h.live _ (hlt i)
      · rw [if_neg hin]
        dsimp only
        rw [if_pos (by omega)]
        rfl
    · intro i hi j hj
      dsimp only at hi hj ⊢
      by_cases hin : i < q.nevents <;> by_cases hjn : j < q.nevents
      · rw [if_pos hin, if_pos hjn, hevent i hin, hevent j hjn]
        intro heq
        have hij := h.distinct _ (hlt i) _ (hlt j) heq
        have hi' := ring_mod (n := q.nevents) (h := q.head.toNat) (m := i) (by omega) (by omega)
        have hj' := ring_mod (n := q.nevents) (h := q.head.toNat) (m := j) (by omega) (by omega)
        rw [hi', hj'] at hij
        split at hij <;> split at hij <;> omega
      · rw [if_pos hin, if_neg hjn, hevent i hin]
        have := hold i
        dsimp only
        omega
      · rw [if_neg hin, if_pos hjn, hevent j hjn]
        have := hold j
        dsimp only
        omega
      · rw [if_neg hin, if_neg hjn]
        dsimp only
        omega
    · intro p hp
      dsimp only at hp ⊢
      split at hp
      · omega
      · have := h.fresh p hp
        omega
    · dsimp only
      omega
    · dsimp only
      rw [hwrap, Int.toNat_zero, Nat.zero_add, Nat.mod_eq_of_lt (by omega)]
    · intro i hi
      have hin : i < q.nevents := by omega
      rw [← hw.holds i hi]
      unfold itemAt
      dsimp only
      rw [Int.toNat_zero, Nat.zero_add, Nat.mod_eq_of_lt (by omega), if_pos hin, hevent i hin,
        if_neg (by have := hold i; omega)]

/-- Merging: the event takes the place of the last one waiting. -/
def Merges (x : Incoming β) (q : EventQueue β) : Prop :=
  x.motionId ≠ 0 ∧ x.motionId = q.lastMotion ∧ q.tail ≠ q.head

/-- The condition on an event that comes in: where the queue has to grow for it, the memory
for the array comes with memory for all events, and there are at most `2 ^ 31` slots. -/
def GrowsWell (a : GrowAnswers) (x : Incoming β) (q : EventQueue β) : Prop :=
  ¬Merges x q → mieqNumEnqueued q + 1 = q.nevents → a.array = true →
    a.firstFailed = none ∧ q.nevents * 2 ≤ 2 ^ 31

omit [Inhabited β] in
theorem motionOf_item (x : Incoming β) {id : ℕ} (hid : id ≠ 0) :
    x.item.motionOf id = true ↔ x.motionId = id := by
  unfold Item.motionOf Incoming.item Incoming.motionId
  cases hm : x.event.isMotion with
  | false => simp [hid.symm]
  | true =>
    obtain ⟨d, hd⟩ := isSome_iff_exists.1 (x.device hm)
    simp [hd]

omit [Inhabited β] in
theorem motionOk_store (w : List (Item β)) (hq : q'.lastMotion = x.motionId) :
    MotionOk q' (w ++ [x.item]) := by
  intro y hy id hid
  rw [getLast?_concat] at hy
  cases hy
  rw [motionOf_item x hid, hq]

theorem mieqEnqueue_spec (h : QueueOk q) (hw : Waits q w) (hm : MotionOk q w) (hgrow : GrowsWell a x q) :
    ∃ q' w', mieqEnqueue a x q = some q' ∧ QueueOk q' ∧ Waits q' w' ∧ MotionOk q' w' ∧
      (mieqNumEnqueued q + 1 ≠ q.nevents → q'.nevents = q.nevents) ∧
      ((q'.dropped = q.dropped + 1 ∧ w' = w ∧ mieqNumEnqueued q + 1 = q.nevents ∧ a.array = false) ∨
        q'.dropped = q.dropped ∧ (Merges x q ∧ w' = w.dropLast ++ [x.item] ∨
          ¬Merges x q ∧ w' = w ++ [x.item])) := by
  obtain ⟨hlow, hhigh, hdvd⟩ := h.bounds
  have hhead := h.head
  have htail := h.tail
  have hsmall := hw.small
  have htailEq := hw.tail
  have huint : toUint q.tail = q.tail.toNat ∧ toUint q.head = q.head.toNat := by
    unfold toUint
    omega
  have hnat : q.tail.toNat = (q.head.toNat + w.length) % q.nevents := by omega
  have hne : toUint q.tail ≠ toUint q.head ↔ q.tail ≠ q.head := by
    omega
  unfold mieqEnqueue
  dsimp only
  by_cases hmerge : Merges x q
  · rw [if_pos ⟨hmerge.1, hmerge.2.1, hne.2 hmerge.2.2⟩]
    have hnil : w ≠ [] := fun h0 => hmerge.2.2 ((hw.empty_iff h).2 h0).symm
    obtain ⟨w₀, y, rfl⟩ : ∃ w₀ y, w = w₀ ++ [y] := ⟨_, _, (dropLast_append_getLast hnil).symm⟩
    rw [length_append, length_singleton] at hsmall hnat
    have hholds : Holds q w₀ := by
      intro i hi
      rw [hw.holds i (by simp; omega), getElem_append_left hi]
    rw [huint.1, hnat, slot_before hdvd hhigh (by omega) (by omega)]
    obtain ⟨q', hrun, hok', hw', hmotion, hdrop, hsize⟩ := storeEvent_spec h hsmall hholds x x.motionId
    exact ⟨q', _, hrun, hok', hw', motionOk_store _ hmotion, fun _ => hsize, .inr ⟨hdrop, .inl ⟨hmerge, by simp⟩⟩⟩
  · rw [if_neg (fun hc => hmerge ⟨hc.1, hc.2.1, hne.1 hc.2.2⟩)]
    split
    · rename_i hfull
      have hgood := hgrow hmerge hfull
      rcases mieqGrowQueue_spec h hw (fun ha => (hgood ha).1) (fun ha => (hgood ha).2) with
        ⟨hno, hrun⟩ | ⟨q₁, hrun, hok₁, hw₁, hsize, -, hdrop₁⟩
      · rw [hrun]
        refine ⟨{ q with dropped := q.dropped + 1 }, w, by simp, ?_, ?_, hm, fun h => absurd hfull h,
          .inl ⟨rfl, rfl, hfull, hno⟩⟩
        · exact ⟨h.size, h.head, h.tail, h.live, h.distinct, h.fresh⟩
        · exact ⟨hw.small, hw.tail, hw.holds⟩
      · rw [hrun]
        have hsize' : w.length + 1 < q₁.nevents := by
          omega
        have htail₁ : toUint q₁.tail = (q₁.head.toNat + w.length) % q₁.nevents := by
          have := hw₁.tail
          have hlt : (q₁.head.toNat + w.length) % q₁.nevents < q₁.nevents := Nat.mod_lt _ (by omega)
          unfold toUint
          omega
        obtain ⟨q', hrun', hok', hw', hmotion, hdrop, -⟩ :=
          storeEvent_spec hok₁ hsize' hw₁.holds x x.motionId
        refine ⟨q', _, ?_, hok', hw', motionOk_store _ hmotion, fun h => absurd hfull h,
          .inr ⟨hdrop.trans hdrop₁, .inr ⟨hmerge, rfl⟩⟩⟩
        rw [htail₁]
        exact hrun'
    · rename_i hroom
      rw [numEnqueued_eq h hw] at hroom
      obtain ⟨q', hrun, hok', hw', hmotion, hdrop, hsize⟩ :=
        storeEvent_spec h (by omega) hw.holds x x.motionId
      rw [huint.1, hnat]
      exact ⟨q', _, hrun, hok', hw', motionOk_store _ hmotion, fun _ => hsize, .inr ⟨hdrop, .inr ⟨hmerge, rfl⟩⟩⟩

end Queue

/-! ### Runs -/

section Runs

variable [Inhabited β]

/-- The state of a run: the items `w` are waiting. -/
structure InOrder (q : EventQueue β) (log : QueueLog β) (w : List (Item β)) : Prop where
  ok : QueueOk q
  waits : Waits q w
  motion : MotionOk q w
  taken : log.taken = log.given ++ w

def GrowsWellStep (st : QueueRun β) (op : QueueOp β) : Prop :=
  ∀ q log, st = some (q, log) → ∀ x a, op = .enqueue x a → GrowsWell a x q

omit [Inhabited β] in
/-- What the code merges is what the log merges. -/
theorem take_eq {q : EventQueue β} {log : QueueLog β} {w w' : List (Item β)} (h : InOrder q log w)
    {x : Incoming β} (hw' : Merges x q ∧ w' = w.dropLast ++ [x.item] ∨ ¬Merges x q ∧ w' = w ++ [x.item]) :
    (log.take x).taken = (log.take x).given ++ w' := by
  have hiff : Merges x q ↔ (x.motionId ≠ 0 ∧ log.given.length < log.taken.length ∧
      log.taken.getLast?.any fun y => y.motionOf x.motionId) := by
    rw [h.taken, length_append]
    constructor
    · rintro ⟨hid, hlast, hne⟩
      have hnil : w ≠ [] := fun h0 => hne ((h.waits.empty_iff h.ok).2 h0).symm
      have hpos := length_pos_iff.2 hnil
      obtain ⟨w₀, y, rfl⟩ : ∃ w₀ y, w = w₀ ++ [y] := ⟨_, _, (dropLast_append_getLast hnil).symm⟩
      refine ⟨hid, by omega, ?_⟩
      rw [← append_assoc, getLast?_concat]
      exact (h.motion y (getLast?_concat ..) _ hid).2 hlast.symm
    · rintro ⟨hid, hlen, hany⟩
      have hnil : w ≠ [] := fun h0 => by rw [h0] at hlen; simp at hlen
      obtain ⟨w₀, y, rfl⟩ : ∃ w₀ y, w = w₀ ++ [y] := ⟨_, _, (dropLast_append_getLast hnil).symm⟩
      rw [← append_assoc, getLast?_concat] at hany
      refine ⟨hid, ((h.motion y (getLast?_concat ..) _ hid).1 hany).symm, ?_⟩
      exact fun heq => hnil ((h.waits.empty_iff h.ok).1 heq.symm)
  unfold QueueLog.take
  rcases hw' with ⟨hmerge, rfl⟩ | ⟨hmerge, rfl⟩
  · rw [if_pos (hiff.1 hmerge), h.taken]
    have hnil : w ≠ [] := fun h0 => hmerge.2.2 ((h.waits.empty_iff h.ok).2 h0).symm
    rw [dropLast_append_of_ne_nil hnil, append_assoc]
  · rw [if_neg (fun hc => hmerge (hiff.2 hc)), h.taken, append_assoc]

theorem queueStep_inOrder (st : QueueRun β) (op : QueueOp β) (hgrow : GrowsWellStep st op)
    (h : ∃ q log w, st = some (q, log) ∧ InOrder q log w) :
    ∃ q log w, queueStep st op = some (q, log) ∧ InOrder q log w := by
  obtain ⟨q, log, w, rfl, h⟩ := h
  cases op with
  | enqueue x a =>
    obtain ⟨q', w', hrun, hok, hw, hm, -, hcase⟩ :=
      mieqEnqueue_spec h.ok h.waits h.motion (hgrow q log rfl x a rfl)
    have hstep : queueStep (some (q, log)) (.enqueue x a) =
        some (q', if q'.dropped = q.dropped then log.take x else log) := by
      simp only [queueStep, bind_some, hrun, map_some]
    rcases hcase with ⟨hdrop, rfl, -, -⟩ | ⟨hdrop, hw'⟩
    · rw [if_neg (by omega)] at hstep
      exact ⟨q', log, w', hstep, hok, hw, hm, h.taken⟩
    · rw [if_pos hdrop] at hstep
      exact ⟨q', log.take x, w', hstep, hok, hw, hm, take_eq h hw'⟩
  | resume =>
    exact ⟨_, log, w, rfl, ⟨h.ok.size, h.ok.head, h.ok.tail, h.ok.live, h.ok.distinct, h.ok.fresh⟩,
      ⟨h.waits.small, h.waits.tail, h.waits.holds⟩, h.motion, h.taken⟩
  | dequeue =>
    obtain ⟨q', y, hrun, hok, hlast, hcase⟩ := dequeue_spec h.ok h.waits
    have hstep : queueStep (some (q, log)) .dequeue =
        some (q', { log with given := log.given ++ y.toList }) := by
      simp only [queueStep, bind_some, hrun, map_some]
    rcases hcase with ⟨rfl, rfl, rfl⟩ | ⟨x, w', rfl, rfl, hw⟩
    · exact ⟨q', _, [], hstep, h.ok, h.waits, h.motion, by simpa using h.taken⟩
    · refine ⟨q', _, w', hstep, hok, hw, ?_, by simpa using h.taken⟩
      intro y hy id hid
      rw [hlast]
      refine h.motion y ?_ id hid
      rw [getLast?_cons, hy]
      rfl

theorem mieqInit_inOrder (time : ℕ) : InOrder (mieqInit time : EventQueue β) ⟨[], []⟩ [] := by
  have hq : (mieqInit time : EventQueue β) =
      { (noQueue time : EventQueue β) with
        nevents := QUEUE_INITIAL_SIZE
        events := fun i => ⟨i, none, none⟩
        storage := fun p => if p < QUEUE_INITIAL_SIZE then some blankEvent else none
        nextStorage := QUEUE_INITIAL_SIZE } := by
    simp [mieqInit, mieqGrowQueue, noQueue, QUEUE_INITIAL_SIZE, mieqNumEnqueued, wrapInt]
    funext p
    by_cases hp : p < 512 <;> simp [hp]
  rw [hq]
  refine ⟨⟨⟨0, by decide, by simp⟩, ?_, ?_, ?_, ?_, ?_⟩, ⟨?_, ?_, ?_⟩, ?_, rfl⟩
  · simp [noQueue, QUEUE_INITIAL_SIZE]
  · simp [noQueue, QUEUE_INITIAL_SIZE]
  · intro i hi
    simp_all
  · intro i _ j _ heq
    exact heq
  · intro p hp
    by_contra hge
    simp_all
  · simp [QUEUE_INITIAL_SIZE]
  · simp [noQueue]
  · intro i hi
    simp at hi
  · intro y hy
    simp at hy

/-- **The order of input events**, over every run from `mieqInit` on: the loop has been given
a front part of what the queue took, the rest is in the queue, `mieqNumEnqueued` counts it
and is below `nevents`. A further event is dropped only when the queue is full and there is
no memory for a larger one. -/
theorem queue_order (time : ℕ) {ops : List (QueueOp β)}
    (hops : AllSteps queueStep GrowsWellStep (some (mieqInit time, ⟨[], []⟩)) ops) :
    ∃ q log w, run queueStep (some (mieqInit time, ⟨[], []⟩)) ops = some (q, log) ∧
      log.taken = log.given ++ w ∧ Holds q w ∧ mieqNumEnqueued q = w.length ∧
      mieqNumEnqueued q < q.nevents ∧
      ∀ x a, GrowsWell a x q → ∃ q', mieqEnqueue a x q = some q' ∧
        (q'.dropped = q.dropped ∨ mieqNumEnqueued q + 1 = q.nevents ∧ a.array = false) := by
  obtain ⟨q, log, w, hrun, h⟩ := hops.invariant
    (P := fun st => ∃ q log w, st = some (q, log) ∧ InOrder q log w) queueStep_inOrder
    ⟨_, _, _, rfl, mieqInit_inOrder time⟩
  have hcount := numEnqueued_eq h.ok h.waits
  refine ⟨q, log, w, hrun, h.taken, h.waits.holds, hcount, hcount ▸ h.waits.small, ?_⟩
  intro x a hgrow
  obtain ⟨q', w', hrun', -, -, -, -, hcase⟩ := mieqEnqueue_spec h.ok h.waits h.motion hgrow
  refine ⟨q', hrun', ?_⟩
  rcases hcase with ⟨-, -, hfull, hno⟩ | ⟨hdrop, -⟩
  · exact .inr ⟨hfull, hno⟩
  · exact .inl hdrop

end Runs

/-! ### A growth that fails half-way -/

/-- An event that is not of motion. -/
def plainEvent : Incoming Unit := ⟨none, ⟨false, 0, ()⟩, by simp⟩

def plentiful : GrowAnswers := ⟨true, none⟩

theorem plainEvent_merges (q : EventQueue Unit) : ¬Merges plainEvent q := fun h => h.1 rfl

/-- Events that come in one after the other wait. -/
theorem plainEvents_wait (n : ℕ) (hn : n ≤ 511) :
    AllSteps queueStep GrowsWellStep (some (mieqInit 0, ⟨[], []⟩))
        (replicate n (.enqueue plainEvent plentiful)) ∧
      ∃ q log w, run queueStep (some (mieqInit 0, ⟨[], []⟩))
          (replicate n (.enqueue plainEvent plentiful)) = some (q, log) ∧
        InOrder q log w ∧ w.length = n ∧ q.nevents = 512 := by
  induction n with
  | zero =>
    have hsize : (mieqInit 0 : EventQueue Unit).nevents = 512 := by
      simp [mieqInit, mieqGrowQueue, noQueue, QUEUE_INITIAL_SIZE]
    exact ⟨trivial, _, _, [], rfl, mieqInit_inOrder 0, rfl, hsize⟩
  | succ n ih =>
    obtain ⟨hall, q, log, w, hrun, h, hlen, hsize⟩ := ih (by omega)
    have hcount := numEnqueued_eq h.ok h.waits
    have hgrow : GrowsWell plentiful plainEvent q := by
      intro _ hfull _
      omega
    obtain ⟨q', w', hrun', hok, hw, hm, hsize', hcase⟩ := mieqEnqueue_spec h.ok h.waits h.motion hgrow
    rcases hcase with ⟨-, -, hfull, -⟩ | ⟨hdrop, ⟨hmerge, -⟩ | ⟨hmerge, rfl⟩⟩
    · omega
    · exact absurd hmerge (plainEvent_merges q)
    · rw [replicate_succ', run_snoc, hrun]
      refine ⟨allSteps_append.2 ⟨hall, ?_, trivial⟩, q', log.take plainEvent, _, ?_, ⟨hok, hw, hm, ?_⟩, ?_, ?_⟩
      · rw [hrun]
        intro _ _ heq _ _ hop
        cases heq
        cases hop
        exact hgrow
      · simp only [queueStep, bind_some, hrun', map_some, if_pos hdrop]
      · exact take_eq h (.inr ⟨hmerge, rfl⟩)
      · simp [hlen]
      · rw [hsize' (by omega), hsize]

/-- **A growth that fails half-way** frees the events that wait: 511 events come in, for the
next one there is memory for the array but not for an event, and the loop then reads
storage that was freed. -/
theorem queue_freed :
    run queueStep (some (mieqInit 0, ⟨[], []⟩)) (List.replicate 511 (.enqueue plainEvent plentiful) ++
      [.enqueue plainEvent ⟨true, some 0⟩] ++ [.dequeue]) = none := by
  obtain ⟨-, q, log, w, hrun, h, hlen, hsize⟩ := plainEvents_wait 511 le_rfl
  have hcount := numEnqueued_eq h.ok h.waits
  have hhead := h.ok.head
  have henq : ∃ q', mieqEnqueue ⟨true, some 0⟩ plainEvent q = some q' ∧ q'.head = q.head ∧
      q'.tail = q.tail ∧ ∀ i < q.nevents, q'.storage (q'.events i).events = none := by
    have hfull : mieqNumEnqueued q + 1 = q.nevents := by omega
    have hdouble : q.nevents <<< 1 = q.nevents * 2 := by rw [Nat.shiftLeft_eq]
    obtain ⟨freed, hfreed⟩ : ∃ freed : ℕ → Option (InternalEvent Unit), freed = fun p =>
        if (range q.nevents).any fun j => (copiedEvents q j).events = p then none
        else q.storage p := ⟨_, rfl⟩
    have hgrow : mieqGrowQueue ⟨true, some 0⟩ (q.nevents * 2) q = ({ q with storage := freed }, false) := by
      unfold mieqGrowQueue
      rw [hfreed]
      have hfail : q.nevents < q.nevents * 2 := by omega
      simp [hfail]
    refine ⟨{ q with storage := freed, dropped := q.dropped + 1 }, ?_, rfl, rfl, ?_⟩
    · unfold mieqEnqueue
      rw [if_neg (fun h => h.1 rfl), if_pos hfull, hdouble, hgrow]
      rfl
    · intro i hi
      -- the place of slot `i` in the new array
      have hplace : (q.head.toNat + (i + q.nevents - q.head.toNat) % q.nevents) % q.nevents = i := by
        rw [Nat.add_mod_mod, show q.head.toNat + (i + q.nevents - q.head.toNat) = i + q.nevents by omega,
          Nat.add_mod_right, Nat.mod_eq_of_lt hi]
      have hlt : (i + q.nevents - q.head.toNat) % q.nevents < q.nevents := Nat.mod_lt _ (by omega)
      have hcopied := copiedEvents_eq h.ok hlt
      rw [hplace] at hcopied
      rw [hfreed]
      dsimp only
      rw [if_pos]
      rw [List.any_eq_true]
      exact ⟨_, mem_range.2 hlt, by rw [hcopied]; exact decide_eq_true rfl⟩
  obtain ⟨q', henq, hh, ht, hfreed⟩ := henq
  rw [run_snoc, run_snoc, hrun]
  have hstep : queueStep (some (q, log)) (.enqueue plainEvent ⟨true, some 0⟩) =
      some (q', if q'.dropped = q.dropped then log.take plainEvent else log) := by
    simp only [queueStep, bind_some, henq, map_some]
  rw [hstep]
  have hne : q.head ≠ q'.tail := by
    rw [ht]
    intro heq
    have := (h.waits.empty_iff h.ok).1 heq
    rw [this] at hlen
    simp at hlen
  simp only [queueStep, bind_some, dequeue, itemAt, hh, if_pos hne,
    hfreed q.head.toNat (by omega), map_none]

/-- One event comes in. -/
theorem queue_order_one :
    ∃ q log w, run queueStep (some (mieqInit 0, ⟨[], []⟩))
        (List.replicate 1 (.enqueue plainEvent plentiful)) = some (q, log) ∧
      log.taken = log.given ++ w ∧ Holds q w ∧ mieqNumEnqueued q = w.length ∧
      mieqNumEnqueued q < q.nevents ∧
      ∀ x a, GrowsWell a x q → ∃ q', mieqEnqueue a x q = some q' ∧
        (q'.dropped = q.dropped ∨ mieqNumEnqueued q + 1 = q.nevents ∧ a.array = false) :=
  queue_order 0 (plainEvents_wait 1 (by decide)).1

end Xenia.Mi
