import Xenia.Xi.Barriers

/-!
# Episodes of barrier events

`Conforms` is the protocol of a barrier and a master pointer: what happens to them is a sequence of episodes with
the ids 1, 2 and so on. In an episode the pointer hits the barrier until a release request for its
id takes effect and passes from then on; it ends with the leave event. `Tracks` says of a record that it
stands where a log ends, and each change the source makes to a record keeps it.
-/

namespace Xenia.Xi.Barriers

open Xenia.Lib List

/-! ## The protocol -/

def IsHit (id : ℤ) (h : Happening) : Prop :=
  ∃ ev, h = .event ev ∧ ev.type = .ET_BarrierHit ∧ ev.event_id.toInt = id

def IsLeave (id : ℤ) (released : Bool) (h : Happening) : Prop :=
  ∃ ev, h = .event ev ∧ ev.type = .ET_BarrierLeave ∧ ev.event_id.toInt = id ∧
    ev.flags = if released then XIBarrierPointerReleased else 0

/-- The pointer passes, or is released once more. -/
def IsFree (id : ℤ) (h : Happening) : Prop := ∃ i : Int32, i.toInt = id ∧ (h = .pass i ∨ h = .release i)

/-- The episode so far, and whether the pointer is released. -/
inductive Running (id : ℤ) : Bool → List Happening → Prop
  | held {hits} : (∀ h ∈ hits, IsHit id h) → Running id false hits
  | released {hits rest} {i : Int32} : (∀ h ∈ hits, IsHit id h) → i.toInt = id → (∀ h ∈ rest, IsFree id h) →
      Running id true (hits ++ .release i :: rest)

/-- The pointer has come to the barrier. -/
def Contact (l : List Happening) : Prop := ∃ h ∈ l, ∀ i, h ≠ .release i

/-- Complete episodes, up to the one before `id`. -/
inductive Episodes : ℤ → List Happening → Prop
  | nil : Episodes 1 []
  | snoc {id past released l h} : Episodes id past → Running id released l → Contact l → IsLeave id released h →
      Episodes (id + 1) (past ++ (l ++ [h]))

/-- The log of a pair: complete episodes and a running one, which ends with a leave event that says
released when the pair is torn apart after a contact. -/
inductive Conforms : List Happening → Prop
  | running {id past released l} : Episodes id past → Running id released l → Conforms (past ++ l)
  | torn {id past released l h} : Episodes id past → Running id released l → Contact l → IsLeave id true h →
      Conforms (past ++ (l ++ [h]))

variable {id : ℤ} {released : Bool} {l past log : List Happening} {h : Happening} {i : Int32}

theorem Running.hit (hl : Running id false l) (hh : IsHit id h) : Running id false (l ++ [h]) := by
  cases hl with
  | held hhits =>
    refine .held fun h' hmem => ?_
    rcases mem_append.1 hmem with hmem | hmem
    · exact hhits h' hmem
    · rwa [mem_singleton.1 hmem]

theorem Running.free (hl : Running id true l) (hh : IsFree id h) : Running id true (l ++ [h]) := by
  cases hl with
  | released hhits hi hrest =>
    rw [append_assoc]
    refine .released hhits hi fun h' hmem => ?_
    rcases mem_append.1 hmem with hmem | hmem
    · exact hrest h' hmem
    · rwa [mem_singleton.1 hmem]

theorem Running.release (hl : Running id released l) (hi : i.toInt = id) : Running id true (l ++ [.release i]) := by
  cases hl with
  | held hhits => exact .released hhits hi (by simp)
  | released hhits hj hrest => exact (Running.released hhits hj hrest).free ⟨i, hi, .inr rfl⟩

theorem Running.contact_hit (hh : IsHit id h) : Contact (l ++ [h]) := by
  obtain ⟨ev, rfl, -⟩ := hh
  exact ⟨.event ev, by simp, by simp⟩

theorem contact_pass : Contact (l ++ [.pass i]) := ⟨.pass i, by simp, by simp⟩

theorem contact_release : Contact (l ++ [.release i]) ↔ Contact l := by
  constructor
  · rintro ⟨h, hmem, hne⟩
    rcases mem_append.1 hmem with hmem | hmem
    · exact ⟨h, hmem, hne⟩
    · exact absurd (mem_singleton.1 hmem) (hne i)
  · rintro ⟨h, hmem, hne⟩
    exact ⟨h, mem_append_left _ hmem, hne⟩

theorem Episodes.pos (hpast : Episodes id past) : 1 ≤ id := by
  induction hpast with
  | nil => omega
  | snoc _ _ _ _ ih => omega

/-! ## A record and its log -/

/-- The record stands at the end of the log. -/
structure TracksAt (p : PointerBarrierDevice) (id : ℤ) (released : Bool) (past l : List Happening) : Prop where
  past : Episodes id past
  running : Running id released l
  hit : p.hit = true ↔ Contact l
  le : id ≤ 2 ^ 31
  event_id : p.barrier_event_id = Int32.ofInt id
  low : 0 ≤ p.release_event_id.toInt
  high : p.release_event_id.toInt ≤ id
  released : released = true ↔ p.release_event_id.toInt = id

def Tracks (p : PointerBarrierDevice) (log : List Happening) : Prop :=
  ∃ id released past l, log = past ++ l ∧ TracksAt p id released past l

variable {p q : PointerBarrierDevice}

section

variable (ht : TracksAt p id released past l)
include ht

theorem TracksAt.event_id_toInt (hlt : id < 2 ^ 31) :
    p.barrier_event_id.toInt = id := by
  have := ht.past.pos
  rw [ht.event_id, Int32.toInt_ofInt_of_le (by omega) (by omega)]

/-- The id has not wrapped while the record's is positive. -/
theorem TracksAt.lt (hpos : 0 < p.barrier_event_id.toInt) : id < 2 ^ 31 := by
  have := ht.le
  by_contra hge
  obtain rfl : id = 2 ^ 31 := by omega
  rw [ht.event_id] at hpos
  exact absurd hpos (by decide)

/-- The source's test for a released pointer. -/
theorem TracksAt.released_iff (hpos : 0 < p.barrier_event_id.toInt) :
    p.barrier_event_id = p.release_event_id ↔ released = true := by
  have hid := ht.event_id_toInt (ht.lt hpos)
  rw [ht.released, ← hid]
  exact ⟨fun heq => by rw [heq], fun heq => Int32.toInt_inj.1 heq.symm⟩

end

theorem Tracks.congr (ht : Tracks p log) (hid : q.barrier_event_id = p.barrier_event_id)
    (hrel : q.release_event_id = p.release_event_id) (hhit : q.hit = p.hit) : Tracks q log := by
  obtain ⟨id, released, past, l, rfl, ht⟩ := ht
  refine ⟨id, released, past, l, rfl, ht.past, ht.running, ?_, ht.le, ?_, ?_, ?_, ?_⟩
  · rw [hhit]
    exact ht.hit
  · rw [hid]
    exact ht.event_id
  · rw [hrel]
    exact ht.low
  · rw [hrel]
    exact ht.high
  · rw [hrel]
    exact ht.released

theorem Tracks.alloc (serial deviceid : ℕ) : Tracks (AllocBarrierDevice serial deviceid) [] := by
  refine ⟨1, false, [], [], rfl, .nil, .held (by simp), ?_, by omega, rfl, ?_, ?_, ?_⟩
  · simp [AllocBarrierDevice, Contact]
  · show 0 ≤ (0 : Int32).toInt
    decide
  · show (0 : Int32).toInt ≤ 1
    decide
  · show false = true ↔ (0 : Int32).toInt = 1
    decide

theorem Tracks.conforms (ht : Tracks p log) : Conforms log := by
  obtain ⟨id, released, past, l, rfl, ht⟩ := ht
  exact .running ht.past ht.running

variable {ev : BarrierEvent}

variable (ht : Tracks p log)
include ht

/-- A contact of a pointer that is not released. -/
theorem Tracks.hit (hpos : 0 < p.barrier_event_id.toInt)
    (hne : p.barrier_event_id ≠ p.release_event_id) (htype : ev.type = .ET_BarrierHit)
    (hev : ev.event_id = p.barrier_event_id) (hid : q.barrier_event_id = p.barrier_event_id)
    (hrel : q.release_event_id = p.release_event_id) (hhit : q.hit = true) : Tracks q (log ++ [.event ev]) := by
  obtain ⟨id, released, past, l, rfl, ht⟩ := ht
  have hheld : released = false := by
    rw [Ne, ht.released_iff hpos] at hne
    simpa using hne
  subst hheld
  have hish : IsHit id (.event ev) := ⟨ev, rfl, htype, by rw [hev]; exact ht.event_id_toInt (ht.lt hpos)⟩
  refine ⟨id, false, past, l ++ [.event ev], by simp, ht.past, ht.running.hit hish, ?_, ht.le, ?_, ?_, ?_, ?_⟩
  · simp [hhit, Running.contact_hit hish]
  · rw [hid]
    exact ht.event_id
  · rw [hrel]
    exact ht.low
  · rw [hrel]
    exact ht.high
  · rw [hrel]
    exact ht.released

/-- A contact of a released pointer. -/
theorem Tracks.pass (hpos : 0 < p.barrier_event_id.toInt)
    (heq : p.barrier_event_id = p.release_event_id) (hid : q.barrier_event_id = p.barrier_event_id)
    (hrel : q.release_event_id = p.release_event_id) (hhit : q.hit = true) :
    Tracks q (log ++ [.pass p.barrier_event_id]) := by
  obtain ⟨id, released, past, l, rfl, ht⟩ := ht
  obtain rfl := (ht.released_iff hpos).1 heq
  refine ⟨id, true, past, l ++ [.pass p.barrier_event_id], by simp, ht.past,
    ht.running.free ⟨_, ht.event_id_toInt (ht.lt hpos), .inl rfl⟩, ?_, ht.le, ?_, ?_, ?_, ?_⟩
  · simp [hhit, contact_pass]
  · rw [hid]
    exact ht.event_id
  · rw [hrel]
    exact ht.low
  · rw [hrel]
    exact ht.high
  · rw [hrel]
    exact ht.released

/-- A release request for the id of the record. -/
theorem Tracks.release (hpos : 0 < p.barrier_event_id.toInt)
    (hid : q.barrier_event_id = p.barrier_event_id) (hrel : q.release_event_id = p.barrier_event_id)
    (hhit : q.hit = p.hit) : Tracks q (log ++ [.release p.barrier_event_id]) := by
  obtain ⟨id, released, past, l, rfl, ht⟩ := ht
  have htoInt := ht.event_id_toInt (ht.lt hpos)
  refine ⟨id, true, past, l ++ [.release p.barrier_event_id], by simp, ht.past, ht.running.release htoInt,
    ?_, ht.le, ?_, ?_, ?_, ?_⟩
  · rw [hhit, contact_release]
    exact ht.hit
  · rw [hid]
    exact ht.event_id
  all_goals rw [hrel, htoInt]
  · have := ht.past.pos
    omega
  · simp

/-- The pointer leaves the barrier, and the next episode begins. -/
theorem Tracks.leave (hpos : 0 < p.barrier_event_id.toInt)
    (hhit : p.hit = true) (htype : ev.type = .ET_BarrierLeave) (hev : ev.event_id = p.barrier_event_id)
    (hflags : ev.flags = if p.barrier_event_id = p.release_event_id then XIBarrierPointerReleased else 0)
    (hid : q.barrier_event_id = p.barrier_event_id + 1) (hrel : q.release_event_id = p.release_event_id)
    (hnext : q.hit = false) : Tracks q (log ++ [.event ev]) := by
  obtain ⟨id, released, past, l, rfl, ht⟩ := ht
  have hlt := ht.lt hpos
  have hleave : IsLeave id released (.event ev) := by
    refine ⟨ev, rfl, htype, by rw [hev]; exact ht.event_id_toInt hlt, ?_⟩
    rw [hflags, if_congr (ht.released_iff hpos) rfl rfl]
  have hpast := Episodes.snoc ht.past ht.running (ht.hit.1 hhit) hleave
  refine ⟨id + 1, false, past ++ (l ++ [.event ev]), [], by simp, hpast, .held (by simp), ?_, by omega, ?_, ?_, ?_, ?_⟩
  · simp [hnext, Contact]
  · rw [hid, ht.event_id, Int32.ofInt_add]
    rfl
  · rw [hrel]
    exact ht.low
  · rw [hrel]
    have := ht.high
    omega
  · rw [hrel]
    have := ht.high
    constructor
    · intro hfalse
      exact absurd hfalse (by decide)
    · intro heq
      omega

/-- A pair is torn apart after a contact. -/
theorem Tracks.torn (hpos : 0 < p.barrier_event_id.toInt) (hhit : p.hit = true)
    (htype : ev.type = .ET_BarrierLeave) (hev : ev.event_id = p.barrier_event_id)
    (hflags : ev.flags = XIBarrierPointerReleased) : Conforms (log ++ [.event ev]) := by
  obtain ⟨id, released, past, l, rfl, ht⟩ := ht
  rw [append_assoc]
  exact .torn ht.past ht.running (ht.hit.1 hhit)
    ⟨ev, rfl, htype, by rw [hev]; exact ht.event_id_toInt (ht.lt hpos), by simpa using hflags⟩

end Xenia.Xi.Barriers
