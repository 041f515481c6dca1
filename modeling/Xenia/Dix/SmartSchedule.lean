import Xenia.Lib.Outcome
import Xenia.Lib.Run
import Mathlib.Tactic

/-!
# The request scheduler

`SmartScheduleClient` picks one of the clients that have requests, by priority first, then by smart
priority, and in turn within a class. `Dispatch` serves the requests of the client that was picked
until there are no more, or until its slice of time is used up, which costs it smart priority.

* `schedule_sound`: smart priorities stay in their range, using up a slice never raises one, and the
  clients of a class take turns, in every run that meets `Meets`.
* `schedule_unsound`: a `char` is not negative, so that a smart priority of zero goes up to 255.
* `schedule_starves`: the indexes of the clients are compared by their last eight bits only.
* `schedule_jumps`: clients of different priorities share the place where the last index is kept.
-/

namespace Xenia.Dix.SmartSchedule

open Xenia.Lib List Function

/-! ### Data -/

def SMART_MAX_PRIORITY : ℤ := 20
def SMART_MIN_PRIORITY : ℤ := -20

/-- What the scheduler reads of a client. `smart_priority` is a `char`, which has eight bits and no sign. -/
structure ClientRec where
  smart_priority : UInt8
  priority : Int32
  smart_start_tick : Int32
  smart_stop_tick : Int32
  deriving DecidableEq

/-- `smart_priority` in an expression. -/
def ClientRec.smart (c : ClientRec) : ℤ := c.smart_priority.toNat

/-- A client that is ready, as the scheduler sees it. -/
structure Entry where
  index : ℕ
  smart : ℤ
  priority : Int32
  deriving DecidableEq

/-- A choice of `SmartScheduleClient`. -/
structure Pick where
  ready : List Entry
  client : ℕ
  deriving DecidableEq

/-- A client has used up its slice. -/
structure Penalty where
  client : ℕ
  before : ℤ
  after : ℤ
  deriving DecidableEq

/-- `running` holds the client that `Dispatch` serves, and its `start_tick`. -/
structure State where
  clients : ℕ → ClientRec
  SmartLastIndex : ℕ → ℤ
  SmartLastClient : Option ℕ
  SmartScheduleTime : Int64
  SmartScheduleSlice : Int64
  SmartScheduleInterval : Int64
  SmartScheduleMaxSlice : Int64
  SmartScheduleLatencyLimited : Int32
  running : Option (ℕ × Int64)
  picks : List Pick
  penalties : List Penalty

namespace State

def put (client : ℕ) (c : ClientRec) (s : State) : State :=
  { s with clients := Function.update s.clients client c }

def entry (s : State) (client : ℕ) : Entry := ⟨client, (s.clients client).smart, (s.clients client).priority⟩

end State

/-! ### The code -/

/-- The place for a smart priority in the array `SmartLastIndex`. -/
def slot (smart : ℤ) : Outcome ℕ :=
  if SMART_MIN_PRIORITY ≤ smart ∧ smart ≤ SMART_MAX_PRIORITY then .ok (smart - SMART_MIN_PRIORITY).toNat
  else .error .fault

/-- `(index - SmartLastIndex[...]) & 0xff`. -/
def robinOf (index : ℕ) (last : ℤ) : ℤ := (index - last) % 256

/-- The variables of the loop over the ready clients. -/
structure Best where
  nready : ℕ
  best : Option ℕ
  bestRobin : ℤ

/-- The condition on `best`; the clients are compared as they are now. -/
def better (s : State) (b : Best) (pClient : ℕ) (robin : ℤ) : Bool :=
  match b.best with
  | none => true
  | some best =>
    let c := s.clients pClient
    let d := s.clients best
    c.priority > d.priority ||
      (c.priority = d.priority && (c.smart > d.smart || (c.smart = d.smart && robin > b.bestRobin)))

/-- A client that has not run for long gets smart priority back. -/
def idleBonus (idle : Int64) (pClient : ℕ) (s : State) : State :=
  let c := s.clients pClient
  if s.SmartScheduleTime - c.smart_stop_tick.toInt64 ≥ idle then
    if c.smart < 0 then s.put pClient { c with smart_priority := c.smart_priority + 1 } else s
  else s

/-- `xorg_list_for_each_entry` over `ready_clients`. -/
def chooseLoop (idle : Int64) : List ℕ → State → Best → Outcome (State × Best)
  | [], s, b => return (s, b)
  | pClient :: rest, s, b => do
    let s := idleBonus idle pClient s
    let robin := robinOf pClient (s.SmartLastIndex (← slot (s.clients pClient).smart))
    let b := { b with nready := b.nready + 1 }
    chooseLoop idle rest s (if better s b pClient robin then { b with best := some pClient, bestRobin := robin } else b)

/-- Adjust slice. -/
def adjustSlice (nready : ℕ) (best : ℕ) (s : State) : State :=
  if nready = 1 ∧ s.SmartScheduleLatencyLimited = 0 then
    if s.SmartScheduleTime - (s.clients best).smart_start_tick.toInt64 > 1000 ∧
        s.SmartScheduleSlice < s.SmartScheduleMaxSlice then
      { s with SmartScheduleSlice := s.SmartScheduleSlice + s.SmartScheduleInterval }
    else s
  else { s with SmartScheduleSlice := s.SmartScheduleInterval }

/-- Set current client pointer. -/
def setLastClient (best : ℕ) (s : State) : State :=
  if s.SmartLastClient = some best then s
  else
    { s with SmartLastClient := some best }.put best
      { s.clients best with smart_start_tick := s.SmartScheduleTime.toInt32 }

def SmartScheduleClient (ready : List ℕ) (s : State) : Outcome (State × ℕ) := do
  let (s, b) ← chooseLoop (2 * s.SmartScheduleSlice) ready s ⟨0, none, 0⟩
  let best ← deref b.best
  let i ← slot (s.clients best).smart
  let s := { s with SmartLastIndex := Function.update s.SmartLastIndex i best }
  return (adjustSlice b.nready best (setLastClient best s), best)

/-- What `ReadRequestFromClient` and the request come to. -/
inductive Served
  | again
  | blocked
  | closed
  | failed
  deriving DecidableEq

/-- `InitClient`. -/
def InitClient (client : ℕ) (s : State) : State :=
  s.put client ⟨0, 0, s.SmartScheduleTime.toInt32, s.SmartScheduleTime.toInt32⟩

/-- `CloseDownClient`, as far as the scheduler sees it. -/
def CloseDownClient (s : State) : State := { s with SmartLastClient := none }

/-- The end of the loop of `Dispatch`. -/
def endService (client : ℕ) (s : State) : State :=
  let s := { s with running := none }
  if s.SmartLastClient = some client then
    s.put client { s.clients client with smart_stop_tick := s.SmartScheduleTime.toInt32 }
  else s

/-- Penalize clients which consume ticks. -/
def penalize (client : ℕ) (s : State) : State :=
  let c := s.clients client
  let d := if c.smart > SMART_MIN_PRIORITY then { c with smart_priority := c.smart_priority - 1 } else c
  { s.put client d with penalties := s.penalties ++ [⟨client, c.smart, d.smart⟩] }

def sliceUsed (start_tick : Int64) (s : State) : Bool := s.SmartScheduleTime - start_tick ≥ s.SmartScheduleSlice

/-- A turn of the loop of `Dispatch`. -/
def serve (client : ℕ) (start_tick : Int64) (result : Served) (s : State) : State :=
  if sliceUsed start_tick s then endService client (penalize client s)
  else
    match result with
    | .again => s
    | .blocked => endService client s
    | .closed => endService client (CloseDownClient s)
    | .failed => endService client s

/-! ### Runs -/

inductive Op
  /-- The clock goes on. -/
  | clock (time : Int64)
  /-- There are clients that are ready, and one of them is chosen. -/
  | schedule (ready : List ℕ)
  | serve (result : Served)
  /-- `isItTimeToYield` is set. -/
  | yield
  /-- A critical event goes to the client. -/
  | criticalEvent (client : ℕ)
  /-- The client redirects windows, as a compositing manager does. -/
  | compositor (client : ℕ)
  | setPriority (client : ℕ) (priority : Int32)
  | newClient (client : ℕ)
  | closeDownClient
  | EnableLimitedSchedulingLatency
  | DisableLimitedSchedulingLatency
  deriving DecidableEq

def exec (s : State) : Op → Outcome State
  | .clock time => return { s with SmartScheduleTime := time }
  | .schedule ready => do
    -- a list head links a client once
    if s.running.isNone ∧ ready ≠ [] ∧ ready.Nodup then
      let (s', client) ← SmartScheduleClient ready s
      return { s' with
        running := some (client, s'.SmartScheduleTime)
        picks := s.picks ++ [⟨ready.map s.entry, client⟩] }
    else return s
  | .serve result =>
    match s.running with
    | some (client, start_tick) => return SmartSchedule.serve client start_tick result s
    | none => return s
  | .yield =>
    match s.running with
    | some (client, _) => return endService client s
    | none => return s
  | .criticalEvent client =>
    let c := s.clients client
    return if c.smart < SMART_MAX_PRIORITY then s.put client { c with smart_priority := c.smart_priority + 1 } else s
  | .compositor client => return s.put client { s.clients client with smart_priority := 20 }
  | .setPriority client priority => return s.put client { s.clients client with priority }
  | .newClient client => return InitClient client s
  | .closeDownClient => return CloseDownClient s
  | .EnableLimitedSchedulingLatency =>
    return { s with
      SmartScheduleLatencyLimited := s.SmartScheduleLatencyLimited + 1
      SmartScheduleSlice := s.SmartScheduleInterval }
  | .DisableLimitedSchedulingLatency =>
    let limited := s.SmartScheduleLatencyLimited - 1
    return { s with SmartScheduleLatencyLimited := if limited < 0 then 0 else limited }

def step (s : Outcome State) (op : Op) : Outcome State := s >>= fun s => exec s op

/-- No client has run. -/
def start (interval maxSlice : Int64) : State where
  clients := fun _ => ⟨0, 0, 0, 0⟩
  SmartLastIndex := fun _ => 0
  SmartLastClient := none
  SmartScheduleTime := 0
  SmartScheduleSlice := interval
  SmartScheduleInterval := interval
  SmartScheduleMaxSlice := maxSlice
  SmartScheduleLatencyLimited := 0
  running := none
  picks := []
  penalties := []

/-! ### What scheduling has to be -/

/-- Both clients are ready, with one priority, and with the smart priority `smart`. -/
def Pick.alike (p : Pick) (smart : ℤ) (a b : ℕ) : Prop :=
  ∃ priority, ⟨a, smart, priority⟩ ∈ p.ready ∧ ⟨b, smart, priority⟩ ∈ p.ready

/-- Where a client is picked, and picked again later, a client that was alike all the time was picked
in between. -/
def Fair (picks : List Pick) : Prop :=
  ∀ pre first mid last post, picks = pre ++ first :: (mid ++ last :: post) → first.client = last.client →
    ∀ other smart, other ≠ first.client →
      (∀ p ∈ first :: (mid ++ [last]), p.alike smart first.client other) → ∃ p ∈ mid, p.client = other

structure Sound (s : State) : Prop where
  range : ∀ client, SMART_MIN_PRIORITY ≤ (s.clients client).smart ∧ (s.clients client).smart ≤ SMART_MAX_PRIORITY
  penalties : ∀ p ∈ s.penalties, p.after ≤ p.before
  fair : Fair s.picks

/-- A client with a smart priority of zero does not use up its slice. The clients that are ready have
indexes that differ in the last eight bits, and those of one smart priority have one priority. -/
def Meets (s : State) : Op → Prop
  | .serve _ => ∀ r ∈ s.running, sliceUsed r.2 s = true → (s.clients r.1).smart ≠ 0
  | .schedule ready => ∀ a ∈ ready, ∀ b ∈ ready, a ≠ b → a % 256 ≠ b % 256 ∧
      ((s.clients a).smart = (s.clients b).smart → (s.clients a).priority = (s.clients b).priority)
  | _ => True

/-! ### The choice -/

variable {s s' : State} {client : ℕ}

def InRange (s : State) : Prop :=
  ∀ client, SMART_MIN_PRIORITY ≤ (s.clients client).smart ∧ (s.clients client).smart ≤ SMART_MAX_PRIORITY

/-- The place for a smart priority that is in range. -/
def slotOf (smart : ℤ) : ℕ := (smart - SMART_MIN_PRIORITY).toNat

def robin (s : State) (client : ℕ) : ℤ := robinOf client (s.SmartLastIndex (slotOf (s.clients client).smart))

/-- What decides between the clients that are ready. -/
def rank (s : State) (client : ℕ) : ℤ ×ₗ ℤ ×ₗ ℤ :=
  toLex ((s.clients client).priority.toInt, toLex ((s.clients client).smart, robin s client))

theorem smart_nonneg (c : ClientRec) : 0 ≤ c.smart := Int.natCast_nonneg _

theorem slot_eq (h : InRange s) (client : ℕ) :
    slot (s.clients client).smart = .ok (slotOf (s.clients client).smart) := if_pos (h client)

/-- No smart priority is below zero, so that none comes back. -/
theorem idleBonus_eq (idle : Int64) (client : ℕ) (s : State) : idleBonus idle client s = s := by
  unfold idleBonus
  dsimp only
  rw [if_neg (not_lt.2 (smart_nonneg _)), ite_self]

theorem better_iff {b : Best} {best : ℕ} (hbest : b.best = some best) (hrobin : b.bestRobin = robin s best) :
    better s b client (robin s client) = true ↔ rank s best < rank s client := by
  unfold better rank
  rw [hbest, hrobin]
  rw [Prod.Lex.toLex_lt_toLex, Prod.Lex.toLex_lt_toLex]
  simp only [Bool.or_eq_true, Bool.and_eq_true, decide_eq_true_eq, Int32.lt_iff_toInt_lt]
  constructor
  · rintro (h | ⟨h, h' | ⟨h', h''⟩⟩)
    · exact .inl h
    · exact .inr ⟨by rw [h], .inl h'⟩
    · exact .inr ⟨by rw [h], .inr ⟨h'.symm, h''⟩⟩
  · rintro (h | ⟨h, h' | ⟨h', h''⟩⟩)
    · exact .inl h
    · exact .inr ⟨(Int32.toInt_inj.1 h).symm, .inl h'⟩
    · exact .inr ⟨(Int32.toInt_inj.1 h).symm, .inr ⟨h'.symm, h''⟩⟩

/-- The best of the clients seen so far. -/
def IsBest (s : State) (seen : List ℕ) (b : Best) : Prop :=
  ∃ best ∈ seen, b.best = some best ∧ b.bestRobin = robin s best ∧ ∀ c ∈ seen, rank s c ≤ rank s best

theorem IsBest.next {seen : List ℕ} {b : Best} {n : ℕ} (h : b.best = none ∧ seen = [] ∨ IsBest s seen b) (client : ℕ) :
    IsBest s (seen ++ [client]) (if better s { b with nready := n } client (robin s client) then
      { b with nready := n, best := some client, bestRobin := robin s client } else { b with nready := n }) := by
  have hlast : client ∈ seen ++ [client] := mem_append_right _ mem_cons_self
  rcases h with ⟨hnone, rfl⟩ | ⟨best, hmem, hbest, hrobin, hall⟩
  · have hfirst : better s { b with nready := n } client (robin s client) = true := by
      unfold better
      rw [show ({ b with nready := n } : Best).best = none from hnone]
    rw [if_pos hfirst]
    refine ⟨client, hlast, rfl, rfl, fun c hc => ?_⟩
    rw [mem_singleton.1 hc]
  · have hiff : better s { b with nready := n } client (robin s client) = true ↔ rank s best < rank s client :=
      better_iff hbest hrobin
    split_ifs with hbetter
    · have hlt := hiff.1 hbetter
      refine ⟨client, hlast, rfl, rfl, fun c hc => ?_⟩
      rcases mem_append.1 hc with hc | hc
      · exact (hall c hc).trans hlt.le
      · rw [mem_singleton.1 hc]
    · refine ⟨best, mem_append_left _ hmem, hbest, hrobin, fun c hc => ?_⟩
      rcases mem_append.1 hc with hc | hc
      · exact hall c hc
      · rw [mem_singleton.1 hc]
        exact not_lt.1 fun hlt => hbetter (hiff.2 hlt)

theorem chooseLoop_spec (h : InRange s) (idle : Int64) : ∀ (ready seen : List ℕ) (b : Best),
    (b.best = none ∧ seen = [] ∨ IsBest s seen b) → ready ≠ [] →
    ∃ b', chooseLoop idle ready s b = .ok (s, b') ∧ IsBest s (seen ++ ready) b' := by
  intro ready
  induction ready with
  | nil => exact fun _ _ _ hne => absurd rfl hne
  | cons client rest ih =>
    intro seen b hb _
    have hnext := IsBest.next (n := b.nready + 1) hb client
    unfold chooseLoop
    rw [idleBonus_eq]
    dsimp only
    rw [slot_eq h]
    rw [show seen ++ client :: rest = (seen ++ [client]) ++ rest by rw [append_assoc]; rfl]
    cases hrest : rest with
    | nil => exact ⟨_, rfl, by rw [append_nil]; exact hnext⟩
    | cons c cs => exact hrest ▸ ih _ _ (.inr hnext) (by rw [hrest]; exact cons_ne_nil _ _)

variable {ready : List ℕ}

/-- `SmartScheduleClient` picks a best client, and keeps its index. -/
theorem SmartScheduleClient_spec (h : InRange s) (hready : ready ≠ []) :
    ∃ s' best, SmartScheduleClient ready s = .ok (s', best) ∧ best ∈ ready ∧ (∀ c ∈ ready, rank s c ≤ rank s best) ∧
      s'.SmartLastIndex = update s.SmartLastIndex (slotOf (s.clients best).smart) best ∧
      (∀ c, (s'.clients c).smart = (s.clients c).smart) ∧ s'.penalties = s.penalties := by
  obtain ⟨b, hrun, best, hmem, hbest, -, hall⟩ := chooseLoop_spec h (2 * s.SmartScheduleSlice) ready [] ⟨0, none, 0⟩ (.inl ⟨rfl, rfl⟩) hready
  unfold SmartScheduleClient
  rw [hrun, ok_bind]
  dsimp only
  rw [hbest, deref_some, ok_bind, slot_eq h]
  refine ⟨_, best, rfl, hmem, hall, ?_, ?_, ?_⟩
  · unfold adjustSlice setLastClient
    split_ifs <;> rfl
  · intro c
    unfold adjustSlice setLastClient
    split_ifs <;> try rfl
    all_goals
      by_cases hc : c = best
      · rw [hc]
        simp [State.put, ClientRec.smart]
      · simp [State.put, hc]
  · unfold adjustSlice setLastClient
    split_ifs <;> rfl

/-! ### Turns -/

/-- How far an index is below the index `g`, in the last eight bits. -/
def below (g x : ℤ) : ℤ := (g - x) % 256

/-- The client that comes next is not beyond one that waits. -/
theorem below_next {g last x waiting : ℤ} (hlast : below g last < below g waiting)
    (hrobin : (waiting - last) % 256 ≤ (x - last) % 256) (hne : x % 256 ≠ waiting % 256) :
    below g x < below g waiting ∧ below g x ≠ 0 := by
  unfold below at *
  omega

/-- While a client waits, the last index of its class has not come down to it, and the client that
was picked before has not been picked again. -/
def InTurn (s : State) : Prop :=
  ∀ pre first mid, s.picks = pre ++ first :: mid → ∀ (other : ℕ) smart, other ≠ first.client →
    (∀ p ∈ first :: mid, p.alike smart first.client other) → (∀ p ∈ mid, p.client ≠ other) →
    below first.client (s.SmartLastIndex (slotOf smart)) < below first.client other ∧ ∀ p ∈ mid, p.client ≠ first.client

/-- What a list of picks with one more is fair about. -/
theorem Fair.snoc {p : Pick} (h : Fair s.picks) (hpicks : s'.picks = s.picks ++ [p]) (hturn : InTurn s') :
    Fair s'.picks := by
  intro pre first mid last post heq hsame other smart hne halike
  rw [hpicks, show pre ++ first :: (mid ++ last :: post) = (pre ++ first :: mid) ++ last :: post by simp] at heq
  rcases append_singleton_cases heq with ⟨rfl, hpast, rfl⟩ | ⟨post', rfl, hpast⟩
  · by_contra hnot
    have hwaits : ∀ q ∈ mid ++ [last], q.client ≠ other := by
      intro q hq heq'
      rcases mem_append.1 hq with hq | hq
      · exact hnot ⟨q, hq, heq'⟩
      · rw [mem_singleton.1 hq, ← hsame] at heq'
        exact hne heq'.symm
    have hnow : s'.picks = pre ++ first :: (mid ++ [last]) := by
      rw [hpicks, ← hpast]
      simp
    obtain ⟨-, hother⟩ := hturn pre first (mid ++ [last]) hnow other smart hne halike hwaits
    exact hother last (mem_append_right _ mem_cons_self) hsame.symm
  · refine h pre first mid last post' ?_ hsame other smart hne halike
    rw [hpast]
    simp

/-- Where nothing is picked, the turns stay. -/
theorem InTurn.congr (h : InTurn s) (hpicks : s'.picks = s.picks) (hlast : s'.SmartLastIndex = s.SmartLastIndex) :
    InTurn s' := by
  unfold InTurn at *
  rw [hpicks, hlast]
  exact h

/-- The clients of a snapshot are as they are in the state. -/
theorem alike_iff {picked a b : ℕ} {smart : ℤ} (h : Pick.alike ⟨ready.map s.entry, picked⟩ smart a b) :
    a ∈ ready ∧ b ∈ ready ∧ (s.clients a).smart = smart ∧ (s.clients b).smart = smart ∧
      (s.clients a).priority = (s.clients b).priority := by
  obtain ⟨priority, ha, hb⟩ := h
  obtain ⟨a', ha', heq⟩ := mem_map.1 ha
  obtain ⟨b', hb', heq'⟩ := mem_map.1 hb
  cases heq
  obtain ⟨rfl, hsmart, hpriority⟩ := Entry.mk.inj heq'
  exact ⟨ha', hb', rfl, hsmart, hpriority.symm⟩

theorem slotOf_ne {x y : ℤ} (hx : SMART_MIN_PRIORITY ≤ x) (hy : SMART_MIN_PRIORITY ≤ y) (hne : x ≠ y) : slotOf x ≠ slotOf y := by
  unfold slotOf
  omega

/-- **A choice keeps the turns**: the client that comes next in its class is picked. -/
theorem schedule_inTurn (hrange : InRange s) (h : InTurn s) {best : ℕ} (hmem : best ∈ ready)
    (hbest : ∀ c ∈ ready, rank s c ≤ rank s best) (hmeets : Meets s (.schedule ready))
    (hlast : s'.SmartLastIndex = update s.SmartLastIndex (slotOf (s.clients best).smart) best)
    (hpicks : s'.picks = s.picks ++ [⟨ready.map s.entry, best⟩]) : InTurn s' := by
  intro pre first mid heq other smart hne halike hwaits
  rw [hpicks] at heq
  rcases append_singleton_cases heq with ⟨rfl, -, rfl⟩ | ⟨mid, rfl, hpast⟩
  · -- the choice is the first of the stretch: the last index of the class is its own
    obtain ⟨ha, hb, hsmart, -, -⟩ := alike_iff (halike _ mem_cons_self)
    have hdiffer := (hmeets other hb best hmem hne).1
    refine ⟨?_, fun p hp => nomatch hp⟩
    rw [hlast, ← hsmart, update_self]
    unfold below
    dsimp only
    omega
  · have hnew : (⟨ready.map s.entry, best⟩ : Pick) ∈ first :: (mid ++ [⟨ready.map s.entry, best⟩]) := by simp
    obtain ⟨ha, hb, hsmart, hsmart', hpriority⟩ := alike_iff (halike _ hnew)
    have hbestne : best ≠ other :=
      hwaits ⟨ready.map s.entry, best⟩ (mem_append_right _ mem_cons_self)
    obtain ⟨hbelow, hothers⟩ := h pre first mid hpast other smart hne
      (fun p hp => halike p (cons_subset_cons _ (subset_append_left _ _) hp))
      (fun p hp => hwaits p (mem_append_left _ hp))
    have hfirst : below first.client (s'.SmartLastIndex (slotOf smart)) < below first.client other ∧ best ≠ first.client := by
      rw [hlast]
      by_cases hclass : (s.clients best).smart = smart
      · -- the choice is of the class, so it is not beyond the one that waits
        rw [hclass, update_self]
        have hprio := (hmeets best hmem other hb hbestne).2 (by rw [hclass, hsmart'])
        have hrank := hbest other hb
        unfold rank at hrank
        rw [hprio, hclass, hsmart', Prod.Lex.toLex_le_toLex, Prod.Lex.toLex_le_toLex] at hrank
        have hrobin : robin s other ≤ robin s best := by simpa using hrank
        unfold robin at hrobin
        rw [hclass, hsmart'] at hrobin
        have hdiffer := (hmeets best hmem other hb hbestne).1
        obtain ⟨hlt, hzero⟩ := below_next hbelow hrobin (by omega)
        refine ⟨hlt, ?_⟩
        rintro rfl
        exact hzero (by unfold below; simp)
      · rw [update_of_ne (slotOf_ne (hsmart ▸ (hrange _).1) (hrange _).1 (Ne.symm hclass))]
        refine ⟨hbelow, ?_⟩
        rintro rfl
        exact hclass hsmart
    refine ⟨hfirst.1, fun p hp => ?_⟩
    rcases mem_append.1 hp with hp | hp
    · exact hothers p hp
    · rw [mem_singleton.1 hp]
      exact hfirst.2

/-! ### Smart priorities -/

theorem smart_inc {c : ClientRec} (h : c.smart < SMART_MAX_PRIORITY) :
    ({ c with smart_priority := c.smart_priority + 1 } : ClientRec).smart = c.smart + 1 := by
  unfold ClientRec.smart SMART_MAX_PRIORITY at *
  rw [UInt8.toNat_add]
  rw [Nat.mod_eq_of_lt (by simp; omega)]
  simp

theorem smart_dec {c : ClientRec} (h : c.smart ≠ 0) :
    ({ c with smart_priority := c.smart_priority - 1 } : ClientRec).smart = c.smart - 1 := by
  unfold ClientRec.smart at *
  have hpos : 1 ≤ c.smart_priority.toNat := by omega
  rw [UInt8.toNat_sub_of_le _ _ (UInt8.le_iff_toNat_le.2 (by simpa using hpos))]
  simp
  omega

structure Inv (s : State) : Prop where
  range : InRange s
  penalties : ∀ p ∈ s.penalties, p.after ≤ p.before
  turn : InTurn s
  fair : Fair s.picks

theorem Inv.sound (h : Inv s) : Sound s := ⟨h.range, h.penalties, h.fair⟩

/-- A step that neither picks nor penalizes a client. -/
theorem Inv.keep (h : Inv s) (hrange : InRange s') (hlast : s'.SmartLastIndex = s.SmartLastIndex)
    (hpicks : s'.picks = s.picks) (hpenalties : s'.penalties = s.penalties) : Inv s' :=
  ⟨hrange, hpenalties ▸ h.penalties, h.turn.congr hpicks hlast, hpicks ▸ h.fair⟩

theorem InRange.put (h : InRange s) {d : ClientRec} (hd : SMART_MIN_PRIORITY ≤ d.smart ∧ d.smart ≤ SMART_MAX_PRIORITY) :
    InRange (s.put client d) := by
  intro c
  unfold State.put
  dsimp only
  by_cases hc : c = client
  · rw [hc, update_self]
    exact hd
  · rw [update_of_ne hc]
    exact h c

theorem Inv.put (h : Inv s) {d : ClientRec} (hd : SMART_MIN_PRIORITY ≤ d.smart ∧ d.smart ≤ SMART_MAX_PRIORITY) :
    Inv (s.put client d) := h.keep (h.range.put hd) rfl rfl rfl

theorem endService_inv (h : Inv s) (client : ℕ) : Inv (endService client s) := by
  have hended : Inv { s with running := none } := h.keep h.range rfl rfl rfl
  unfold endService
  dsimp only
  split_ifs
  · exact hended.put (h.range client)
  · exact hended

/-- A slice that is used up costs smart priority, unless there is none left. -/
theorem penalize_inv (h : Inv s) (hne : (s.clients client).smart ≠ 0) : Inv (penalize client s) := by
  have hrange := h.range client
  have hpos := smart_nonneg (s.clients client)
  have hdec := smart_dec hne
  unfold penalize
  dsimp only
  rw [if_pos (show (s.clients client).smart > SMART_MIN_PRIORITY by unfold SMART_MIN_PRIORITY; omega)]
  refine ⟨(h.range.put ?_ : InRange (s.put client _)), ?_, h.turn.congr rfl rfl, h.fair⟩
  · rw [hdec]
    unfold SMART_MIN_PRIORITY
    omega
  · intro p hp
    rcases mem_append.1 hp with hp | hp
    · exact h.penalties p hp
    · rw [mem_singleton.1 hp]
      dsimp only
      omega

theorem serve_inv (h : Inv s) {start_tick : Int64} (result : Served)
    (hmeets : sliceUsed start_tick s = true → (s.clients client).smart ≠ 0) : Inv (serve client start_tick result s) := by
  unfold serve
  split_ifs with hused
  · exact endService_inv (penalize_inv h (hmeets hused)) client
  · cases result with
    | again => exact h
    | blocked => exact endService_inv h client
    | closed => exact endService_inv (h.keep h.range rfl rfl rfl : Inv (CloseDownClient s)) client
    | failed => exact endService_inv h client

/-! ### Runs of the scheduler -/

theorem inv_start (interval maxSlice : Int64) : Inv (start interval maxSlice) where
  range := fun _ => by simp [start, ClientRec.smart, SMART_MIN_PRIORITY, SMART_MAX_PRIORITY]
  penalties := fun p hp => nomatch hp
  turn := by
    intro pre first mid heq
    exact absurd heq.symm (by simp [start])
  fair := by
    intro pre first mid last post heq
    exact absurd heq.symm (by simp [start])

theorem exec_inv (h : Inv s) {op : Op} (hmeets : Meets s op) : ∃ s', exec s op = .ok s' ∧ Inv s' := by
  cases op with
  | clock time => exact ⟨_, rfl, h.keep h.range rfl rfl rfl⟩
  | schedule ready =>
    dsimp only [exec]
    split_ifs with hready
    · obtain ⟨s', best, hrun, hmem, hbest, hlast, hsmart, hpenalties⟩ := SmartScheduleClient_spec h.range hready.2.1
      rw [hrun]
      refine ⟨_, rfl, ?_⟩
      have hrange : InRange s' := fun c => hsmart c ▸ h.range c
      have hturn : InTurn { s' with
          running := some (best, s'.SmartScheduleTime)
          picks := s.picks ++ [⟨ready.map s.entry, best⟩] } :=
        schedule_inTurn h.range h.turn hmem hbest hmeets hlast rfl
      exact ⟨hrange, fun p hp => h.penalties p (hpenalties ▸ hp), hturn, h.fair.snoc rfl hturn⟩
    · exact ⟨s, rfl, h⟩
  | serve result =>
    dsimp only [exec]
    cases hrunning : s.running with
    | none => exact ⟨s, rfl, h⟩
    | some r => exact ⟨_, rfl, serve_inv h result (hmeets r hrunning)⟩
  | yield =>
    dsimp only [exec]
    cases hrunning : s.running with
    | none => exact ⟨s, rfl, h⟩
    | some r => exact ⟨_, rfl, endService_inv h r.1⟩
  | criticalEvent client =>
    dsimp only [exec]
    split_ifs with hlt
    · refine ⟨_, rfl, h.put ?_⟩
      have hrange := h.range client
      rw [smart_inc hlt]
      exact ⟨by omega, by omega⟩
    · exact ⟨s, rfl, h⟩
  | compositor client => exact ⟨_, rfl, h.put (by simp [ClientRec.smart, SMART_MIN_PRIORITY, SMART_MAX_PRIORITY])⟩
  | setPriority client priority => exact ⟨_, rfl, h.put (h.range client)⟩
  | newClient client => exact ⟨_, rfl, h.put (by simp [ClientRec.smart, SMART_MIN_PRIORITY, SMART_MAX_PRIORITY])⟩
  | closeDownClient => exact ⟨_, rfl, h.keep h.range rfl rfl rfl⟩
  | EnableLimitedSchedulingLatency => exact ⟨_, rfl, h.keep h.range rfl rfl rfl⟩
  | DisableLimitedSchedulingLatency => exact ⟨_, rfl, h.keep h.range rfl rfl rfl⟩

/-- **The scheduler is sound** in every state of a run that meets the condition. -/
theorem schedule_sound (interval maxSlice : Int64) {ops : List Op}
    (h : AllSteps step (fun s op => ∀ s', s = .ok s' → Meets s' op) (.ok (start interval maxSlice)) ops) :
    ∃ s, run step (.ok (start interval maxSlice)) ops = .ok s ∧ Sound s := by
  have hinv : ∃ s, run step (.ok (start interval maxSlice)) ops = .ok s ∧ Inv s := by
    refine AllSteps.invariant (P := fun r => ∃ s, r = .ok s ∧ Inv s) ?_ h ⟨_, rfl, inv_start interval maxSlice⟩
    rintro _ op hop ⟨s, rfl, hs⟩
    exact exec_inv hs (hop s rfl)
  obtain ⟨s, hs, hinv⟩ := hinv
  exact ⟨s, hs, hinv.sound⟩

instance Meets.decidable (s : State) : (op : Op) → Decidable (Meets s op)
  | .serve _ => inferInstanceAs (Decidable (∀ r ∈ s.running, sliceUsed r.2 s = true → (s.clients r.1).smart ≠ 0))
  | .schedule ready => inferInstanceAs (Decidable (∀ a ∈ ready, ∀ b ∈ ready, a ≠ b → a % 256 ≠ b % 256 ∧
      ((s.clients a).smart = (s.clients b).smart → (s.clients a).priority = (s.clients b).priority)))
  | .clock _ | .yield | .criticalEvent _ | .compositor _ | .setPriority _ _ | .newClient _ | .closeDownClient
  | .EnableLimitedSchedulingLatency | .DisableLimitedSchedulingLatency => .isTrue trivial

/-- The condition, where the run has come that far. -/
def MeetsAt (r : Outcome State) (op : Op) : Bool :=
  match r with
  | .ok s => decide (Meets s op)
  | .error _ => true

theorem allSteps_of_meetsAt {r : Outcome State} {ops : List Op} (h : AllSteps step (fun r op => MeetsAt r op = true) r ops) :
    AllSteps step (fun s op => ∀ s', s = .ok s' → Meets s' op) r ops := by
  refine h.imp fun r op hop s hs => ?_
  rw [hs] at hop
  exact of_decide_eq_true hop

/-- A client with smart priority uses up its slice, and then takes turns with another. -/
theorem schedule_sound_turns :
    ∃ s, run step (.ok (start 5 15)) [.criticalEvent 1, .schedule [1, 2], .clock 10, .serve .again, .schedule [1, 2],
      .serve .blocked, .schedule [2, 1], .serve .blocked, .schedule [2, 1]] = .ok s ∧ Sound s :=
  schedule_sound 5 15 (allSteps_of_meetsAt (by decide +kernel))

/-- **A client with a smart priority of zero** has one of 255 after it has used up its slice. -/
theorem schedule_unsound :
    ¬ ∃ s, run step (.ok (start 5 15)) [.schedule [1], .clock 10, .serve .again] = .ok s ∧ Sound s := by
  rintro ⟨s, hs, h⟩
  cases hs
  exact absurd (h.range 1).2 (by decide +kernel)

/-- **Clients whose indexes end in the same eight bits** do not take turns: the second one starves. -/
theorem schedule_starves :
    ¬ ∃ s, run step (.ok (start 5 15)) [.schedule [1, 257], .serve .blocked, .schedule [1, 257], .serve .blocked] = .ok s ∧
      Sound s := by
  rintro ⟨s, hs, h⟩
  have hpicks : s.picks = [⟨[⟨1, 0, 0⟩, ⟨257, 0, 0⟩], 1⟩, ⟨[⟨1, 0, 0⟩, ⟨257, 0, 0⟩], 1⟩] := by
    cases hs
    decide +kernel
  have hfair := h.fair
  rw [hpicks] at hfair
  obtain ⟨p, hp, -⟩ := hfair [] _ [] _ [] rfl rfl 257 0 (by decide) (by
    intro p hp
    simp only [nil_append, mem_cons, not_mem_nil, or_false, or_self] at hp
    subst hp
    exact ⟨0, by decide, by decide⟩)
  exact nomatch hp

/-- **A client of another priority** moves the turn of a class on. -/
theorem schedule_jumps :
    ¬ ∃ s, run step (.ok (start 5 15)) [.setPriority 1 5, .schedule [3, 2], .serve .blocked, .schedule [3, 2, 1],
      .serve .blocked, .schedule [3, 2], .serve .blocked] = .ok s ∧ Sound s := by
  rintro ⟨s, hs, h⟩
  have hpicks : s.picks = [⟨[⟨3, 0, 0⟩, ⟨2, 0, 0⟩], 3⟩, ⟨[⟨3, 0, 0⟩, ⟨2, 0, 0⟩, ⟨1, 0, 5⟩], 1⟩, ⟨[⟨3, 0, 0⟩, ⟨2, 0, 0⟩], 3⟩] := by
    cases hs
    decide +kernel
  have hfair := h.fair
  rw [hpicks] at hfair
  obtain ⟨p, hp, hclient⟩ := hfair [] _ [⟨[⟨3, 0, 0⟩, ⟨2, 0, 0⟩, ⟨1, 0, 5⟩], 1⟩] _ [] rfl rfl 2 0 (by decide) (by
    intro p hp
    simp only [cons_append, nil_append, mem_cons, not_mem_nil, or_false] at hp
    rcases hp with rfl | rfl | rfl <;> exact ⟨0, by decide, by decide⟩)
  rw [mem_singleton.1 hp] at hclient
  exact absurd hclient (by decide)

end Xenia.Dix.SmartSchedule
